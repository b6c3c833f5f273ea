import MarimoHub.ObjectStore.Record
import MarimoHub.Source.Integrations

/-!
# The current version of an integration

A call writes a version before a head names it, and takes the version back when the head could not
be written. A version is deleted only by the call that created it, and only while no head that
call stored names it (`VersionRule`). So the version a live head names exists
(`current_version_exists`) as long as a head that was not acknowledged was not stored and a head
that is taken back goes. Without that the compensation deletes the version under a head that
already names it (`unacknowledged_commit_loses_version`).
-/

namespace MarimoHub.Guarantees.Integrations

open ObjectStore Source.Integrations Prog
open Source

variable {engine : IntegrationEngine} {α : Type} {es past : Log IntegrationStore}
  {ev : Ev IntegrationStore} {n : Nat} {I : Log IntegrationStore → Prop}
  {p rest : Hub IntegrationStore α}
  {id : IntegrationId}
  {head : IntegrationRecord}

/-! ## What a call may write -/

abbrev HoldsVersion (id : IntegrationId) (n : Nat) (es : Log IntegrationStore) : Prop :=
  Holds (B := IntegrationStore) (.version id n) es

/-- Since it created the version, the call stored a head that names it and has not deleted
that head. -/
def Stands (id : IntegrationId) (n : Nat) : Log IntegrationStore → Prop
  | [] => False
  | ⟨.put (.version id' n') _ .ifAbsent, .ok _⟩ :: es => ¬ (id' = id ∧ n' = n) ∧ Stands id n es
  | ⟨.put (.head id') (.head head) _, .ok _⟩ :: es =>
    id' = id ∧ head.currentVersion = n ∧ HoldsVersion id n es ∨
      Stands id n es
  | ⟨.delete k, _⟩ :: es => k ≠ .head id ∧ k ≠ .version id n ∧ Stands id n es
  | _ :: es => Stands id n es

/-- The call created the version, and no head it stored names it. -/
def Free (id : IntegrationId) (n : Nat) (es : Log IntegrationStore) : Prop :=
  HoldsVersion id n es ∧ ¬ Stands id n es

/-- A head names a version its writer holds, or the one that was named before. -/
def headWriter (id : IntegrationId) : Writer IntegrationStore where
  creates es v _ := ∃ next, v = .head next ∧ HoldsVersion id next.currentVersion es
  changes es old v := ∃ next, v = .head next ∧
    (HoldsVersion id next.currentVersion es ∨ ∃ prior, old = .head prior ∧
      prior.currentVersion = next.currentVersion ∧ prior.deletedAt = next.deletedAt)
  removes _ := True

def IsVersion (n : Nat) (v : IntegrationVal) : Prop :=
  ∃ record, v = .version record ∧ record.version = n

def VersionRule (es : Log IntegrationStore) : Op IntegrationStore → Prop
  | .put (.head id) v c => (headWriter id).Writes (.head id) es v c
  | .put (.version _ n) v _ => IsVersion n v
  | .delete (.version id n) => Free id n es
  | _ => True

/-- Operations that leave the heads and the versions alone. -/
def Spares : Op IntegrationStore → Prop
  | .put (.nameClaim _) _ _ => True
  | .put _ _ _ => False
  | .delete _ => False
  | _ => True

theorem Spares.allowed (spares : Spares o) : VersionRule es o := by
  cases o with
  | put k v c => cases k <;> first | exact spares.elim | trivial
  | delete k => exact spares.elim
  | _ => trivial

/-- Events that neither store nor delete a head or a version, as far as the call knows. -/
def Idle : Ev IntegrationStore → Prop
  | ⟨.put (.nameClaim _) _ _, _⟩ => True
  | ⟨.put _ _ _, .ok _⟩ => False
  | ⟨.delete _, _⟩ => False
  | _ => True

theorem Spares.idle (spares : Spares ev.op) : Idle ev := by
  obtain ⟨o, r⟩ := ev
  cases o with
  | put k v c => cases k <;> first | exact spares.elim | trivial
  | delete k => exact spares.elim
  | _ => trivial

theorem Idle.holds (idle : Idle ev) (id : IntegrationId) (n : Nat) : HoldsVersion id n (ev :: es) ↔
      HoldsVersion id n es := by
  obtain ⟨o, r⟩ := ev
  cases o with
  | put k v c => cases k <;> cases r <;> cases c <;> simp_all [Idle, Holds, Makes]
  | delete k => exact idle.elim
  | _ => simp [Holds, Makes]

theorem Idle.stands (idle : Idle ev) (id : IntegrationId) (n : Nat) :
    Stands id n (ev :: es) ↔ Stands id n es := by
  obtain ⟨o, r⟩ := ev
  cases o with
  | put k v c => cases k <;> cases r <;> simp_all [Idle, Stands]
  | delete k => exact idle.elim
  | _ => simp [Stands]

theorem Idle.free (idle : Idle ev) (free : Free id n es) : Free id n (ev :: es) :=
  ⟨(idle.holds id n).mpr free.1, (idle.stands id n).not.mpr free.2⟩

/-! ## The calls -/

/-- A condition on what an error leaves; results are free. -/
def failing (I : Log IntegrationStore → Prop) :
    Post IntegrationStore HubError α
  | .ok _, _ => True
  | .error _, es => I es

/-- What idle events keep. -/
def Lasting (I : Log IntegrationStore → Prop) : Prop := ∀ ev es, Idle ev → I es → I (ev :: es)

theorem Lasting.append (lasting : Lasting I)
    (idle : ∀ ev ∈ new, Spares ev.op) (here : I es) : I (new ++ es) := by
  induction new with
  | nil => exact here
  | cons ev rest ih =>
    exact lasting ev _ (idle ev (.head _)).idle (ih fun other member => idle other (.tail _ member))

theorem emits_sparing (sparing : Keeps (fun _ => Spares) p) (lasting : Lasting I) (here : I past) :
    Emits VersionRule (fun _ es => I es) p past := by
  refine ((sparing past).adds.weaken fun _ _ _ spares => spares.allowed).mono ?_
  rintro out es ⟨_, new, rfl, spares⟩
  exact lasting.append spares here

theorem keeps_sparing (sparing : Keeps (fun _ => Spares) p) : Keeps VersionRule p := fun _ =>
  emits_sparing sparing (fun _ _ _ _ => trivial) trivial

theorem emits_compensating (first : Emits VersionRule (failing I) rest past)
    (undone : ∀ es, I es → Emits VersionRule (fun _ => J) compensate es) :
    Emits VersionRule (failing J) (compensating rest compensate) past := by
  rw [compensating, emits_tryCatch]
  refine first.mono ?_
  intro out es result
  cases out with
  | ok a => trivial
  | error err =>
    rw [orElse_error, emits_bind, ignoringErrors, emits_tryCatch]
    refine (undone es result).mono ?_
    intro out es after
    cases out <;> exact after

theorem keeps_compensating (first : Keeps VersionRule rest) (undone : Keeps VersionRule compensate)
      : Keeps VersionRule (compensating rest compensate) :=
  first.tryCatch fun _ => (keeps_ignoringErrors undone).bind fun _ => keeps_raise

/-! ### Reading -/

theorem spares_parseHead (id : IntegrationId) (raw : IntegrationVal) :
    Keeps (fun _ => Spares) (parseHead engine id raw) := by
  intro past
  cases raw with
  | head head =>
    refine Keeps.ite keeps_raise (Keeps.ite keeps_raise ?_) past
    exact (keeps_orRaise _).map
  | version record => trivial
  | claim holder claimedAt => trivial

theorem spares_getHead (id : IntegrationId) : Keeps (fun _ => Spares) (getHead engine id) := by
  refine (keeps_bucketGet fun _ => trivial).bind fun body => ?_
  cases body with
  | none => exact keeps_raise
  | some body => exact spares_parseHead id body.value

theorem spares_isHolderLive (name holder : String) :
    Keeps (fun _ => Spares) (isHolderLive engine name holder) :=
  ((spares_getHead holder).map).tryCatch fun _ => keeps_ret

theorem spares_readHeads : Keeps (fun _ => Spares) (readHeads engine ids) := by
  induction ids with
  | nil => exact keeps_ret
  | cons id rest ih =>
    refine (keeps_bucketGet fun _ => trivial).bind fun body => ?_
    cases body with
    | none => exact ih
    | some body =>
      have parsed : Keeps (fun _ => Spares) (parseRecord body.value) := by
        cases body.value <;> first | exact keeps_ret | exact keeps_raise
      refine parsed.bind fun _ => Keeps.ite ih ?_
      exact (spares_parseHead id _).bind fun _ => ih.map

theorem spares_listHeads : Keeps (fun _ => Spares) (listHeads engine) := by
  refine (keeps_bucketList fun _ => trivial).bind fun _ => spares_readHeads.bind fun _ => ?_
  exact Keeps.ite keeps_raise keeps_ret

theorem spares_assertNameFree : Keeps (fun _ => Spares) (assertNameFree engine name) :=
  spares_listHeads.bind fun _ => Keeps.ite keeps_raise keeps_ret

theorem spares_loadCurrent : Keeps (fun _ => Spares) (loadCurrent engine head) := by
  have version : Keeps (fun _ => Spares) (getVersion head head.currentVersion) := by
    refine (keeps_bucketGet fun _ => trivial).bind fun body => ?_
    cases body with
    | none => exact keeps_raise
    | some body =>
      obtain ⟨v, tag⟩ := body
      cases v with
      | version record => exact Keeps.ite keeps_raise keeps_ret
      | head head => exact keeps_raise
      | claim holder claimedAt => exact keeps_raise
  exact (keeps_orRaise _).bind fun _ => version.bind fun _ => (keeps_orRaise _).map

theorem emits_getHead :
    Emits VersionRule (yields fun head _ => head.id = id) (getHead engine id) past := by
  rw [getHead, emits_bind, emits_bucketGet]
  refine ⟨trivial, ?_, trivial, trivial⟩
  intro v tag
  cases v with
  | head head =>
    rw [andThen_ok]
    simp only [parseHead, parseRecord, Prog.pure_eq_ret, Prog.ret_bind, emits_ite]
    refine ⟨fun _ => trivial, fun _ => ⟨fun _ => trivial, fun same => ?_⟩⟩
    refine emits_then (P := fun _ _ => True) ?_ fun _ _ _ _ => not_not.mp same
    cases engine.assertValidIntegrationName head.name <;> trivial
  | version record => trivial
  | claim holder claimedAt => trivial

/-! ### Names -/

theorem spares_claimName (name : String) (id : IntegrationId) :
    Keeps (fun _ => Spares) (claimName engine name id) := by
  have live (current : Option (Option String)) :
      Keeps (fun _ => Spares) (liveHolder (nameClaimConfig engine name) current) := by
    cases current with
    | none => exact keeps_ret
    | some holder =>
      cases holder with
      | none => exact keeps_ret
      | some holder =>
        refine Keeps.ite keeps_ret ?_
        exact (spares_isHolderLive name holder).map
  have put (v : IntegrationVal) (c : Cond IntegrationStore) : Keeps (fun _ => Spares)
      (do let etag ← casPut (.nameClaim name) v c
          pure (ClaimResult.acquired etag)) := fun past => by simp [Spares]
  have acquire : Keeps (fun _ => Spares)
      (acquireSingletonClaim (nameClaimConfig engine name) id) := by
    refine Keeps.bind (fun _ => ⟨trivial, fun _ => trivial⟩) fun now => ?_
    refine keeps_withCasRetry ?_
    refine (keeps_bucketGet fun _ => trivial).bind fun body => ?_
    cases body with
    | none => exact put _ _
    | some body =>
      refine Keeps.ite keeps_ret ((live _).bind fun other => ?_)
      cases other with
      | none => exact put _ _
      | some other => exact keeps_ret
  refine acquire.bind fun result => ?_
  cases result with
  | acquired etag => exact keeps_ret
  | held holder => exact keeps_raise

theorem spares_releaseName : Keeps (fun _ => Spares) (releaseName engine name id) := by
  refine keeps_ignoringErrors (keeps_ret.bind fun done => Keeps.ite keeps_ret ?_)
  refine (keeps_bucketGet fun _ => trivial).bind fun body => ?_
  cases body with
  | none => exact keeps_ret
  | some body =>
    dsimp only
    cases (nameClaimConfig engine name).parseHolder body.value with
    | none => exact keeps_raise
    | some current =>
      refine Keeps.ite (fun past => ?_) keeps_ret
      simp [Spares, nameClaimConfig]

/-! ### Creation -/

theorem lasting_holds (id : IntegrationId) (n : Nat) :
    Lasting (HoldsVersion id n) := fun _ _ idle => (idle.holds id n).mpr

theorem keeps_deleteVersion (first : Emits VersionRule (failing (Free id n)) rest past) :
    Emits VersionRule (fun _ _ => True)
      (compensating rest (bucketDelete (.version id n))) past := by
  refine (emits_compensating (J := fun _ => True) first fun es free => ?_).forget
  simp only [emits_bucketDelete, and_true]
  exact free

theorem keeps_writeIntegration {version : IntegrationVersionRecord}
    (names : head.currentVersion = 1) (first : version.version = 1) :
    Keeps VersionRule (writeIntegration engine head version) := by
  intro past
  rw [writeIntegration, emits_bind, emits_bucketPut]
  refine ⟨⟨version, rfl, first⟩, fun tag => ?_, trivial, trivial⟩
  refine keeps_deleteVersion ?_
  rw [emits_bind, emits_bucketPut]
  refine ⟨⟨head, rfl, by simp [Holds, Makes, names]⟩, fun tag' => ?_, ?_, ?_⟩
  · rw [andThen_ok]
    refine emits_compensating (I := HoldsVersion head.id 1) ?_ ?_
    · refine (emits_sparing (spares_claimName _ _) (lasting_holds head.id 1) ?_).mono ?_
      · simp [Holds, Makes]
      · intro out es holds
        cases out <;> trivial
    · intro es holds
      simp [VersionRule, Free, Holds, Stands, holds]
  · simp [failing, Free, Holds, Makes, Stands]
  · simp [failing, Free, Holds, Makes, Stands]

theorem keeps_create {input : CreateInput} : Keeps VersionRule (create engine input) := by
  refine (keeps_orRaise _).bind fun schemaVersion => ?_
  refine (keeps_orRaise _).bind fun _ => ?_
  refine (keeps_sparing spares_assertNameFree).bind fun _ => ?_
  refine (keeps_sparing spares_listHeads).bind fun _ => ?_
  refine Keeps.ite keeps_raise ?_
  refine Keeps.bind (fun _ => ⟨trivial, fun _ => trivial⟩) fun drawn => ?_
  refine (keeps_orRaise _).bind fun config => ?_
  refine Keeps.bind (fun _ => ⟨trivial, fun _ => trivial⟩) fun timestamp => ?_
  exact (keeps_writeIntegration rfl rfl).map

/-! ### Update -/

/-- How a head may be changed once the call holds the version it wants to name. -/
def Advances (appended : Option Nat) (current next : IntegrationRecord) : Prop :=
  current.deletedAt = next.deletedAt ∧
    (current.currentVersion = next.currentVersion ∨ appended = some next.currentVersion)

def FreeIf (id : IntegrationId) (appended : Option Nat) (es : Log IntegrationStore) : Prop :=
  ∀ n, appended = some n → Free id n es

theorem emits_mutateHead (appended : Option Nat)
    (parses : ParsesOnly (B := IntegrationStore) parse .head)
    (applies : ∀ current es, Emits (fun _ => Spares)
      (yields fun next _ => ∀ head ∈ next, Advances appended current head) (apply current) es)
    (ready : FreeIf id appended past) :
    Emits VersionRule (failing (FreeIf id appended)) (mutateHead id parse apply) past := by
  have lasting : Lasting (FreeIf id appended) := fun _ _ idle free n same => idle.free (free n same)
  rw [mutateHead, mutateObject, emits_bind]
  refine (emits_mutateObjectWithOutcome (Q := failing (FreeIf id appended)) parses
    (fun _ _ => trivial) (fun _ _ free => lasting _ _ trivial free) (fun _ _ free => free) ?_
      ready).mono
    fun out es result => by cases out <;> exact result
  intro past head tag free
  have here := lasting ⟨.get (.head id), .found (.head head) tag⟩ past trivial free
  refine ((applies head _).adds.weaken fun _ _ _ spares => spares.allowed).mono ?_
  rintro out es ⟨result, new, rfl, spares⟩
  have after := lasting.append spares here
  cases out with
  | error err => exact retrying_error after after
  | ok decided =>
    cases decided with
    | none => trivial
    | some next =>
      obtain ⟨same, named⟩ := result next rfl
      refine ⟨⟨.head head, .inl (by simp), next, rfl, ?_⟩, fun _ => trivial,
        lasting _ _ trivial after, lasting _ _ trivial after⟩
      rcases named with equal | held
      · exact .inr ⟨head, rfl, equal, same⟩
      · exact .inl (after _ held).1

theorem parses_parseRecord : ParsesOnly (B := IntegrationStore) parseRecord .head := by
  intro v
  cases v with
  | head head => exact .inl ⟨head, rfl, rfl⟩
  | version record => exact .inr ⟨_, rfl⟩
  | claim holder claimedAt => exact .inr ⟨_, rfl⟩

theorem parses_parseHead (id : IntegrationId) :
    ParsesOnly (B := IntegrationStore) (parseHead engine id) .head := by
  intro v
  cases v with
  | head head =>
    simp only [parseHead, parseRecord, Prog.pure_eq_ret, Prog.ret_bind]
    split
    · exact .inr ⟨_, rfl⟩
    · split
      · exact .inr ⟨_, rfl⟩
      · cases engine.assertValidIntegrationName head.name with
        | error err => exact .inr ⟨err, rfl⟩
        | ok _ => exact .inl ⟨head, rfl, rfl⟩
  | version record => exact .inr ⟨_, rfl⟩
  | claim holder claimedAt => exact .inr ⟨_, rfl⟩

theorem keeps_rename (id : IntegrationId) (name : String) (expected : Option Nat) :
    Keeps VersionRule (mutateHead id (parseHead engine id) (applyRename name expected)) := by
  intro past
  refine (emits_mutateHead none (parses_parseHead id) (fun current es => ?_) nofun).forget
  refine keeps_assertVersionMatch.seq fun _ _ _ => ?_
  simp [yields, Spares, Advances]

theorem keeps_revertRename (id : IntegrationId) (fromName toName : String) :
    Keeps VersionRule (revertRename id fromName toName) := by
  refine Keeps.bind (fun past => ?_) fun _ => keeps_ret
  refine (emits_mutateHead none parses_parseRecord (fun current es => ?_) nofun).forget
  simp [applyRevert, emits_ite, yields, Spares, Advances]

theorem advances_advanced (engine : IntegrationEngine) (appended : Option (Nat × Sealed))
    (current : IntegrationRecord) :
    Advances (appended.map (·.1)) current (advanced engine appended current) := by
  cases appended with
  | none => exact ⟨rfl, .inl rfl⟩
  | some version =>
    rw [advanced]
    split
    · exact ⟨rfl, .inr rfl⟩
    · exact ⟨rfl, .inl rfl⟩

theorem emits_commitHead (ready : FreeIf input.id (appended.map (·.1)) past) :
    Emits VersionRule (failing (FreeIf input.id (appended.map (·.1))))
      (commitHead engine input expected appended) past := by
  refine emits_mutateHead _ (parses_parseHead input.id) (fun current es => ?_) ready
  have advances := advances_advanced engine appended current
  refine keeps_assertVersionMatch.seq fun _ _ _ => ⟨trivial, fun now => ?_⟩
  rintro next ⟨⟩
  exact advances

theorem emits_appendVersion (numbered : ∀ n, (record n).version = n) (retries n : Nat) :
    Emits VersionRule (yields (Free id)) (appendVersion id record retries n) past := by
  induction retries generalizing n past with
  | zero => trivial
  | succ retries ih =>
    rw [appendVersion, emits_tryCatch, emits_bind, emits_casPut]
    refine ⟨⟨record n, rfl, numbered n⟩, fun tag => ?_, ih (n + 1), trivial⟩
    simp [yields, Free, Holds, Makes, Stands]

theorem keeps_appendAndCommit (same : head.id = input.id) :
    Keeps VersionRule (appendAndCommit engine input head expected sealed) := by
  cases sealed with
  | none => exact fun past => (emits_commitHead (by rintro _ ⟨⟩)).forget
  | some sealed =>
    refine Keeps.bind (fun _ => ⟨trivial, fun _ => trivial⟩) fun now past => ?_
    refine emits_seq (emits_appendVersion (fun _ => rfl) _ _) (fun version es _ free => ?_)
    refine keeps_deleteVersion ((emits_commitHead ?_).mono ?_)
    · rintro _ ⟨⟩
      exact same ▸ free
    · intro out es result
      cases out with
      | ok updated => trivial
      | error err => exact result version rfl

theorem keeps_commitUpdate (same : head.id = input.id) :
    Keeps VersionRule (commitUpdate engine input head newName sealed) := by
  cases newName with
  | none => exact keeps_appendAndCommit same
  | some name =>
    refine (keeps_rename _ _ _).bind fun renamed => ?_
    refine keeps_compensating ?_ (keeps_revertRename _ _ _)
    refine (keeps_sparing (spares_claimName _ _)).bind fun _ => ?_
    exact keeps_compensating (keeps_appendAndCommit same) (keeps_sparing spares_releaseName)

theorem keeps_update : Keeps VersionRule (update engine input) := by
  intro past
  refine emits_seq emits_getHead (fun head es _ same => ?_)
  refine (keeps_assertVersionMatch.bind fun _ => ?_) es
  have checked : Keeps (fun _ => Spares)
      (checkNewName engine (input.name.filter (· ≠ head.name))) := by
    cases input.name.filter (· ≠ head.name) with
    | none => exact keeps_ret
    | some name => exact (keeps_orRaise _).bind fun _ => spares_assertNameFree
  have sealing : Keeps (fun _ => Spares) (sealUpdate engine input head) := by
    rw [sealUpdate]
    cases input.config with
    | none => exact keeps_ret
    | some config =>
      exact spares_loadCurrent.bind fun _ => (keeps_orRaise _).bind fun _ => (keeps_orRaise _).map
  refine (keeps_sparing checked).bind fun _ => (keeps_sparing sealing).bind fun sealed => ?_
  refine (keeps_commitUpdate same).bind fun updated => ?_
  have current : Keeps (fun _ => Spares) (loadCurrent engine updated) := spares_loadCurrent
  have loaded := current.bind fun current => keeps_ret (a := (updated, current.1))
  exact Keeps.ite ((keeps_sparing spares_releaseName).bind fun _ => keeps_sparing loaded)
    (keeps_sparing loaded)

theorem keeps_call {call : IntegrationCall} : Keeps VersionRule (call.run engine) := by
  cases call with
  | create input => exact keeps_create
  | update input => exact keeps_update

/-! ## Runs -/

/-- The version every live head names exists. -/
def CurrentVersionsExist (t : Trace IntegrationStore) : Prop :=
  ∀ id head, lookup (IntegrationKey.head id) t = some (.head head) →
    head.deletedAt = none →
      ∃ record, lookup (IntegrationKey.version id head.currentVersion) t =
        some (.version record) ∧ record.version = head.currentVersion

/-- A write of a head that failed was not applied, and a deletion of a head that failed was. -/
def headsSettle : Event IntegrationStore → Bool
  | ⟨⟨.put (.head _) _ _, .fail⟩, _, _, applied⟩ => !applied
  | ⟨⟨.delete (.head _), .fail⟩, _, _, applied⟩ => applied
  | _ => true

/-- Whoever holds the version that a live head names stored a head that names it. -/
def HoldersStand (t : Trace IntegrationStore) : Prop :=
  ∀ id head, lookup (IntegrationKey.head id) t = some (.head head) →
    head.deletedAt = none → ∀ i, HoldsVersion id head.currentVersion (own i t) →
      Stands id head.currentVersion (own i t)

structure Backed (t : Trace IntegrationStore) : Prop where
  exist : CurrentVersionsExist t
  stand : HoldersStand t
  held : ∀ id n, Held (B := IntegrationStore) (IsVersion n) (.version id n) t

theorem stands_cons (stands : Stands id n es)
    (made : ¬ Makes (B := IntegrationStore) (.version id n) ev)
    (version : ev.op ≠ .delete (.version id n)) (head : ev.op ≠ .delete (.head id)) :
    Stands id n (ev :: es) := by
  obtain ⟨o, r⟩ := ev
  cases o with
  | put k v c => cases k <;> cases v <;> cases r <;> cases c <;> simp_all [Stands, Makes]
  | delete k => simp_all [Stands]
  | _ => simpa [Stands] using stands

section Step

/-- The version is stored, and who holds it can rely on it. -/
def Secured (id : IntegrationId) (n : Nat) (stored t : Trace IntegrationStore) : Prop :=
  (∃ v, lookup (IntegrationKey.version id n) stored = some v ∧ IsVersion n v) ∧
    ∀ j, HoldsVersion id n (own j t) → Stands id n (own j t)

/-- A head that is stored names a version its writer holds, or the one that was named before. -/
theorem Backed.at_write (backed : Backed t) (accepted : Along (Accepts a) (x :: t))
    (mine : x.thread = some i) (rule : VersionRule (own i t) x.op) (settles : headsSettle x = true)
    (effect : x.effect (.head id) = some (some (.head head))) (live : head.deletedAt = none) :
    Secured id head.currentVersion t (x :: t) := by
  obtain ⟨c, r, shape, applied⟩ := effect_write effect
  have op : x.op = .put (.head id) (.head head) c := congrArg Ev.op shape
  obtain ⟨tag, rfl⟩ : ∃ tag, r = .ok tag := by
    have responds := accepted.1.responds_of shape
    obtain ⟨⟨o, r'⟩, thread, time, done⟩ := x
    cases shape
    cases applied
    cases r with
    | ok tag => exact ⟨tag, rfl⟩
    | lost => cases responds.2
    | fail => cases settles
  have allows : (headWriter id).Allows (.head id) (own i t) x.op := by
    rw [op] at rule ⊢
    exact fun _ => rule
  have named : HoldsVersion id head.currentVersion (own i t) ∨ ∃ prior,
      lookup (IntegrationKey.head id) t = some (.head prior) ∧
      prior.currentVersion = head.currentVersion ∧ prior.deletedAt = head.deletedAt := by
    have did := Writer.at_effect accepted allows effect
    rw [op] at did
    cases did with
    | created _ _ creates _ =>
      obtain ⟨_, ⟨⟩, holds⟩ := creates
      exact .inl holds
    | changed old _ tag present changes =>
      obtain ⟨_, ⟨⟩, holds | ⟨prior, rfl, same⟩⟩ := changes
      · exact .inl holds
      · exact .inr ⟨prior, present, same⟩
  have own_stands (holds : HoldsVersion id head.currentVersion (own i (x :: t))) :
      Stands id head.currentVersion (own i (x :: t)) := by
    rw [own_cons mine, shape] at holds ⊢
    refine .inl ⟨rfl, rfl, ?_⟩
    cases c <;> simpa [Holds, Makes] using holds
  have stands (others : ∀ j, j ≠ i → HoldsVersion id head.currentVersion (own j t) →
      Stands id head.currentVersion (own j t)) (j : Nat)
      (holds : HoldsVersion id head.currentVersion (own j (x :: t))) :
      Stands id head.currentVersion (own j (x :: t)) := by
    by_cases equal : x.thread = some j
    · cases mine.symm.trans equal
      exact own_stands holds
    · rw [own_cons_other equal] at holds ⊢
      exact others j (fun same => equal (same ▸ mine)) holds
  rcases named with holds | ⟨prior, found, same, alive⟩
  · obtain ⟨stored, sole⟩ := backed.held id _ i holds
    exact ⟨stored, stands fun j apart other => absurd (sole j other) apart⟩
  · obtain ⟨record, stored, numbered⟩ := backed.exist id prior found (alive.trans live)
    have earlier := backed.stand id prior found (alive.trans live)
    rw [same] at stored numbered earlier
    exact ⟨⟨_, stored, record, rfl, numbered⟩, stands fun j _ => earlier j⟩

theorem Backed.at_rest (backed : Backed t) (accepts : Accepts a t x)
    (mine : x.thread = some i) (rule : VersionRule (own i t) x.op) (settles : headsSettle x = true)
    (effect : x.effect (.head id) = none)
    (found : lookup (IntegrationKey.head id) t = some (.head head))
    (live : head.deletedAt = none) : Secured id head.currentVersion (x :: t) (x :: t) := by
  obtain ⟨record, stored, numbered⟩ := backed.exist id head found live
  have stands := backed.stand id head found live
  have kept : x.op ≠ .delete (.version id head.currentVersion) := by
    intro op
    rw [op] at rule
    exact rule.2 (stands i rule.1)
  have standing : x.op ≠ .delete (.head id) := by
    obtain ⟨⟨o, r⟩, thread, time, applied⟩ := x
    rintro ⟨⟩
    cases r with
    | ok => simp [Event.effect, show applied = true from accepts.responds] at effect
    | fail => simp [Event.effect, show applied = true from settles] at effect
  refine ⟨?_, ?_⟩
  · cases change : x.effect (.version id head.currentVersion) with
    | none => exact ⟨_, by rw [lookup_of_no_effect change, stored], record, rfl, numbered⟩
    | some new =>
      cases new with
      | none =>
        obtain ⟨r, shape, _⟩ := effect_remove change
        exact absurd (congrArg Ev.op shape) kept
      | some w =>
        obtain ⟨c, r, shape, _⟩ := effect_write change
        rw [congrArg Ev.op shape] at rule
        exact ⟨w, lookup_of_effect change, rule⟩
  · intro j holds
    by_cases equal : x.thread = some j
    · rw [own_cons equal] at holds ⊢
      rcases holds with makes | ⟨_, earlier⟩
      · rw [(makes.written accepts).1] at stored
        cases stored
      · refine stands_cons (stands j earlier) (fun makes => ?_) kept standing
        rw [(makes.written accepts).1] at stored
        cases stored
    · rw [own_cons_other equal] at holds ⊢
      exact stands j holds

theorem Backed.step (backed : Backed t) (accepted : Along (Accepts a) (x :: t))
    (mine : x.thread = some i) (rule : VersionRule (own i t) x.op)
    (settles : headsSettle x = true) :
    Backed (x :: t) := by
  have both (id : IntegrationId) (head : IntegrationRecord)
      (found : lookup (IntegrationKey.head id) (x :: t) = some (.head head))
      (live : head.deletedAt = none) : Secured id head.currentVersion (x :: t) (x :: t) := by
    cases effect : x.effect (.head id) with
    | none =>
      rw [lookup_of_no_effect effect] at found
      exact backed.at_rest accepted.1 mine rule settles effect found live
    | some new =>
      rw [lookup_of_effect effect] at found
      subst found
      obtain ⟨⟨v, stored, version⟩, stands⟩ :=
        backed.at_write accepted mine rule settles effect live
      obtain ⟨c, r, shape, _⟩ := effect_write effect
      refine ⟨⟨v, ?_, version⟩, stands⟩
      rw [lookup_of_no_effect (by simp [effect_put shape]), stored]
  refine ⟨fun id head found live => ?_, fun id head found live => (both id head found live).2, ?_⟩
  · obtain ⟨⟨_, stored, record, rfl, numbered⟩, _⟩ := both id head found live
    exact ⟨record, stored, numbered⟩
  · intro id n
    refine held_step accepted.1 mine (fun v c op => ?_) (fun op => ?_) (backed.held id n)
    · rw [op] at rule
      exact rule
    · rw [op] at rule
      exact rule.1

end Step

/-- In every run of creations and updates whose events all settle the heads they write, the version
every live head names exists. -/
theorem current_version_exists {a : Adapter IntegrationStore} {seeds : Trace IntegrationStore}
    (initial : Seeds a seeds) (backed : CurrentVersionsExist seeds) (calls : Nat → IntegrationCall)
    {c : Config IntegrationStore HubError (IntegrationRecord × IntegrationVersionRecord)}
    (reach : Reaches a ⟨seeds, fun i => (calls i).run engine⟩ c)
    (settles : ∀ e ∈ c.trace, headsSettle e = true) : CurrentVersionsExist c.trace := by
  have history := reach.history initial
  have nobody (id : IntegrationId) (n i : Nat) : ¬ HoldsVersion id n (own i seeds) := by
    rw [own_seeds initial]
    exact fun holds => holds
  have start : Backed seeds :=
    ⟨backed, fun id _ _ _ i holds => absurd holds (nobody id _ i),
      fun id n i holds => absurd holds (nobody id n i)⟩
  refine (lasts history.based start ?_).exist
  intro x past moment based before
  obtain ⟨i, mine⟩ := history.thread_of_moment moment based
  refine before.step (history.accepted.suffix moment) mine ?_ (settles x (moment.subset (.head _)))
  exact history.guarantee (fun i => keeps_call []) moment mine

/-! ## An update whose commit is not acknowledged -/

namespace Commit

/-- Configs and names are taken as they are. -/
def plainEngine : IntegrationEngine where
  schemaVersion _ := .ok 1
  assertValidIntegrationName _ := .ok ()
  sealConfig _ _ config _ := .ok config
  currentConfig _ record := .ok record.config
  ambientEnvField _ _ := none

/-- One call creates an integration and another one edits its config. -/
def calls : Nat → IntegrationCall
  | 0 => .create ⟨"s3", "lake", "v1", none, "ana"⟩
  | _ => .update ⟨toString 7, none, some "v2", none, none, "ana", none⟩

def adapter : Adapter IntegrationStore := ⟨fun _ version => version, 0⟩

def start : Config IntegrationStore HubError (IntegrationRecord × IntegrationVersionRecord) :=
  ⟨[], fun i => (calls i).run plainEngine⟩

def creation : List (Move IntegrationStore) :=
  turns 0 0 [.ok, .ok, .id 7] ++ List.replicate 6 ⟨0, 0, .ok⟩

/-- Everything up to the write of the head, and what becomes of that. -/
def edit (written : Choice IntegrationStore) (after : Nat) : List (Move IntegrationStore) :=
  List.replicate 6 ⟨1, 1, .ok⟩ ++ ⟨1, 1, written⟩ :: List.replicate after ⟨1, 1, .ok⟩

/-- The version the live head names, and whether it is stored. -/
def named (t : Trace IntegrationStore) : Option (Nat × Bool) :=
  match lookup (IntegrationKey.head (toString 7)) t with
  | some (.head head) =>
    if head.deletedAt = none then
      some (head.currentVersion,
        (lookup (IntegrationKey.version (toString 7) head.currentVersion) t).isSome)
    else none
  | _ => none

end Commit

open Commit

theorem lost_of_named (lost : named t = some (n, false)) : ¬ CurrentVersionsExist t := by
  intro exist
  rw [named] at lost
  split at lost
  · next head found =>
    split at lost
    · next live =>
      obtain ⟨record, stored, _⟩ := exist _ head found live
      rw [stored] at lost
      cases lost
    · cases lost
  · cases lost

/-- The edit was applied and not acknowledged: its version is taken back, and the head names it. -/
theorem unacknowledged_commit_loses_version :
    ∃ c, Reaches adapter start c ∧ ¬ CurrentVersionsExist c.trace := by
  obtain ⟨c, reach, seen⟩ := Config.play_any adapter start
    (creation ++ edit (.fail true) 1) (fun c => named c.trace = some (2, false))
    (by decide +kernel)
  exact ⟨c, reach, lost_of_named seen⟩

/-- With every head acknowledged, the edit leaves a head that names the version it wrote. -/
theorem acknowledged_commit_keeps_version : ∃ c, Reaches adapter start c ∧
    named c.trace = some (2, true) ∧ CurrentVersionsExist c.trace := by
  obtain ⟨c, reach, seen⟩ := Config.play_any adapter start (creation ++ edit .ok 1)
    (fun c => named c.trace = some (2, true) ∧ c.trace.all headsSettle = true)
    (by decide +kernel)
  obtain ⟨named, settles⟩ := seen
  exact ⟨c, reach, named, current_version_exists (Seeds.empty _) (by rintro id head ⟨⟩) calls
    reach (List.all_eq_true.mp settles)⟩

end MarimoHub.Guarantees.Integrations
