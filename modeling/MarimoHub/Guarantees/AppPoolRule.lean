import MarimoHub.ObjectStore.Record
import MarimoHub.ObjectStore.Revision
import MarimoHub.Guarantees.AppPoolEdits

/-!
# What the calls of an app pool write

Every write of the pool record replaces a record the call has read, revised by edits that are each
made by the clock it read last (`PoolRule`). A member joins under a name the call drew and has not
stored yet, or under the name of a session no admission started. The rule holds of every call of
the service, of the deletion of the notebook and of the cancellation of its move.
-/

namespace MarimoHub.Guarantees.AppPools

open ObjectStore Source.AppPools Prog
open Source hiding AppPool AppPoolMember

/-! ## The rule -/

/-- The call's read of the pool, what it found and the condition it may write under. -/
inductive ReadFrom : Log AppStore → AppPool → Cond AppStore → Prop where
  | found (pool : AppPool) (tag : Etag AppStore) (rest : Log AppStore) :
      ReadFrom (⟨.get .pool, .found (.pool pool) tag⟩ :: rest) pool (.ifMatch tag)
  | absent (rest : Log AppStore) : ReadFrom (⟨.get .pool, .absent⟩ :: rest) {} .ifAbsent

/-- A write of the pool that may have taken effect. -/
def Attempted (ev : Ev AppStore) : Prop :=
  ∃ v c r, ev = ⟨.put .pool v c, r⟩ ∧ r ≠ .lost

variable (policy : AppPoolPolicy) (es : Log AppStore)

/-- The call drew `k` and may not have stored it. -/
def Unused (k : Nat) : Prop :=
  ∃ later earlier, es = later ++ ⟨.mint, k⟩ :: earlier ∧ ∀ ev ∈ later, ¬ Attempted ev

/-- The sessions a call may add to the pool. -/
def Adds (session : AppSessionId) : Prop :=
  (∃ n, session = .other n) ∨ ∃ k, session = .drawn k ∧ Unused es k

/-- The call drew the generation and wrote an assignment with it: to write the pool again is to
take the admission back. -/
def TakesBack (generation : Nat) : Prop :=
  ⟨.mint, generation⟩ ∈ es ∧ ∃ pool c tag, ⟨.put .pool (.pool pool) c, .ok tag⟩ ∈ es ∧
    ∃ assignment ∈ pool.assignments, assignment.generation = generation

def NewNames (pool : AppPool) : Prop :=
  ∀ k, Unused es k → IsNew (.drawn k) pool

/-- `pool`, read last in `base`, was revised to `next`. -/
def Revises (base : Log AppStore) (pool : AppPool)
    (es : Log AppStore) (next : AppPool) : Prop :=
  NewNames base pool → ∃ clock,
    Revised (PoolEdit policy (Adds base) (TakesBack base)) base pool es clock next

/-- The tombstone is respected, or the record is reopened as it is. -/
def KeepsTombstone (pool next : AppPool) : Prop :=
  breaksTombstone pool next = false ∨ next = { pool with deletedAt := none }

/-- Operations that do not touch the bucket. -/
def Quiet : Op AppStore → Prop
  | .now => True
  | .mint => True
  | .ask _ => True
  | _ => False

def MayWrite (v : AppVal) (c : Cond AppStore) : Prop :=
  ∃ pool next new base, v = .pool next ∧ es = new ++ base ∧ (∀ ev ∈ new, Quiet ev.op) ∧
    ReadFrom base pool c ∧ KeepsTombstone pool next ∧ Revises policy base pool es next

/-- The calls do not create the metadata of the notebook and never take back its deletion. -/
def metadataWriter : Writer AppStore where
  creates _ _ _ := False
  changes _ old v := ∃ stored next, old = .metadata stored ∧ v = .metadata next ∧
    (next.status = .deleted ∨ next.status = stored.status)
  removes _ := False

def PoolRule : Op AppStore → Prop
  | .put k v c => (k = .pool → MayWrite policy es v c) ∧
      (k = .metadata → metadataWriter.Writes .metadata es v c)
  | .delete k => k ≠ .pool ∧ k ≠ .metadata
  | _ => True

variable {ev : Ev AppStore}

theorem Quiet.not_attempted (quiet : Quiet ev.op) : ¬ Attempted ev := by
  rintro ⟨v, c, r, rfl, _⟩
  exact quiet

section Rule

variable {policy : AppPoolPolicy} {α β : Type} {o : Op AppStore} {I : Log AppStore → Prop}
  {c : Cond AppStore} {update : AppPool → Hub AppStore (Mutation α)} {p : Hub AppStore α}
  {g k : Nat} {session : AppSessionId}
  {G : Rule AppStore} {new past es base : Log AppStore}
  {R : AppPool → Mutation α → Log AppStore → Prop} {userId : UserId}
  {assignment : AppPoolAssignment} {drew : Nat → Prop} {decide : AppPool → Nat → Routed}
  {token : OperationToken} {v : AppVal} {pool : AppPool}

theorem Quiet.allowed (quiet : Quiet o) (es : Log AppStore) : PoolRule policy es o := by
  cases o <;> first | exact quiet.elim | trivial

theorem unused_cons (calm : ¬ Attempted ev) (unused : Unused es k) : Unused (ev :: es) k := by
  obtain ⟨later, earlier, rfl, clear⟩ := unused
  refine ⟨ev :: later, earlier, rfl, ?_⟩
  intro other member
  rcases List.mem_cons.mp member with rfl | inside
  · exact calm
  · exact clear other inside

/-- What a call knows of its own events, and neither a read, a question nor a refused write
changes. -/
def Lasting (I : Log AppStore → Prop) : Prop :=
  ∀ ev es, ¬ Attempted ev → I es → I (ev :: es)

theorem Lasting.append (lasting : Lasting I) (calm : ∀ ev ∈ new, ¬ Attempted ev) (here : I es) :
    I (new ++ es) := by
  induction new with
  | nil => exact here
  | cons ev rest ih =>
    exact lasting ev _ (calm ev (.head _)) (ih fun other member => calm other (.tail _ member))

theorem lasting_true : Lasting fun _ => True := fun _ _ _ _ => trivial

/-! ## Reading and committing -/

/-- Rules that allow a call to read the pool and whatever does not touch the bucket. -/
structure Permits (G : Rule AppStore) : Prop where
  reads : ∀ es, G es (.get .pool)
  quiet : ∀ es o, Quiet o → G es o

theorem permits_poolRule : Permits (PoolRule policy) :=
  ⟨fun _ => trivial, fun es _ quiet => quiet.allowed es⟩

theorem Permits.readPool (permits : Permits G) (past : Log AppStore) : Emits G
      (fun out es => (∃ r, es = ⟨.get .pool, r⟩ :: past) ∧
        yields (fun read es => ReadFrom es read.1 read.2) out es) readPool past := by
  rw [AppPools.readPool, emits_bind, emits_bucketGet]
  refine ⟨permits.reads past, ?_, ⟨⟨_, rfl⟩, .absent past⟩, ⟨⟨_, rfl⟩, trivial⟩⟩
  intro v tag
  cases v with
  | pool pool => exact ⟨⟨_, rfl⟩, .found pool tag past⟩
  | _ => exact ⟨⟨_, rfl⟩, trivial⟩

theorem get_not_attempted : ¬ Attempted (⟨.get .pool, r⟩ : Ev AppStore) := by
  rintro ⟨_, _, _, same, _⟩
  cases same

theorem lost_not_attempted : ¬ Attempted (⟨.put .pool v c, .lost⟩ : Ev AppStore) := by
  rintro ⟨_, _, _, same, other⟩
  cases same
  exact other rfl

/-- How the end of an attempt may come out. -/
inductive Committed (pool : AppPool) (w : Mutation α) (es : Log AppStore) :
    Post AppStore HubError α where
  | refused : Committed pool w es (.error (.notFound "The app notebook was deleted")) es
  | unchanged : w.pool = pool → Committed pool w es (.ok w.value) es
  | written (c : Cond AppStore) (tag : Etag AppStore) :
      Committed pool w es (.ok w.value) (⟨.put .pool (.pool w.pool) c, .ok tag⟩ :: es)
  | lost (c : Cond AppStore) : Committed pool w es
      (.error (.casWriteConflict "Precondition failed"))
      (⟨.put .pool (.pool w.pool) c, .lost⟩ :: es)
  | failed (c : Cond AppStore) :
      Committed pool w es (.error .storage) (⟨.put .pool (.pool w.pool) c, .fail⟩ :: es)

theorem emits_commitPool
    (allowed : breaksTombstone pool w.pool = false → G es (.put .pool (.pool w.pool) c)) :
    Emits G (Committed pool w es) (commitPool pool c w) es := by
  rw [commitPool]
  split
  · exact .refused
  · next respected =>
    split
    · next same => exact .unchanged same
    · rw [emits_bind, emits_casPut]
      exact ⟨allowed (Bool.eq_false_iff.mpr respected), fun tag => .written c tag, .lost c,
        .failed c⟩

theorem writes_revision (read : ReadFrom base pool c)
    (quiet : ∀ ev ∈ new, Quiet ev.op) (revises : Revises policy base pool (new ++ base) next)
    (kept : breaksTombstone pool next = false) :
    PoolRule policy (new ++ base) (.put .pool (.pool next) c) :=
  ⟨fun _ => ⟨pool, next, new, base, rfl, rfl, quiet, read, .inl kept, revises⟩, nofun⟩

/-- How a mutation ends: with a record that did not change, or with an acknowledged write. -/
def Mutates (R : AppPool → Mutation α → Log AppStore → Prop) (value : α)
    (es : Log AppStore) : Prop :=
  ∃ pool w before, w.value = value ∧ R pool w before ∧
    (es = before ∧ w.pool = pool ∨ ∃ c tag, es = ⟨.put .pool (.pool w.pool) c, .ok tag⟩ :: before)

/-- Under any rule, a mutation is its callback on the record it read, and what it commits has to be
allowed after the callback. -/
theorem Permits.mutatePool (permits : Permits G) (lasting : Lasting I)
    (callback : ∀ base pool c, ReadFrom base pool c → I base → Emits (fun _ => Quiet) (yields fun w
      es => R pool w es ∧ ∀ new, es = new ++ base → (∀ ev ∈ new, Quiet ev.op) → breaksTombstone
      pool w.pool = false → G es (.put .pool (.pool w.pool) c)) (update pool) base)
    (past : Log AppStore) (ready : I past) :
    Emits G (yields (Mutates R)) (AppPools.mutatePool update) past := by
  refine emits_withCasRetry ?_ (fun _ _ => trivial) _ _ ready
  intro past ready
  rw [AppPools.mutateAttempt, emits_bind]
  refine (permits.readPool past).mono ?_
  rintro out es ⟨⟨r, rfl⟩, result⟩
  have here : I (⟨.get .pool, r⟩ :: past) := lasting _ _ get_not_attempted ready
  cases out with
  | error err => exact retrying_error here trivial
  | ok read =>
    rw [andThen_ok, emits_bind]
    refine ((callback _ _ _ result here).adds.weaken fun es o _ => permits.quiet es o).mono ?_
    rintro out es ⟨outcome, new, rfl, quiet⟩
    have after := lasting.append (fun ev member => (quiet ev member).not_attempted) here
    cases out with
    | error err => exact retrying_error after trivial
    | ok w =>
      obtain ⟨decided, allowed⟩ := outcome
      refine (emits_commitPool (allowed new rfl quiet)).mono ?_
      rintro out es committed
      cases committed with
      | refused => trivial
      | unchanged same => exact ⟨read.1, w, _, rfl, decided, .inl ⟨rfl, same⟩⟩
      | written c tag => exact ⟨read.1, w, _, rfl, decided, .inr ⟨c, tag, rfl⟩⟩
      | lost c => exact lasting _ _ lost_not_attempted after
      | failed c => trivial

/-- A callback revises the record it is given. -/
def Callback (policy : AppPoolPolicy) (I : Log AppStore → Prop)
    (R : AppPool → Mutation α → Log AppStore → Prop)
    (update : AppPool → Hub AppStore (Mutation α)) : Prop :=
  ∀ base pool c, ReadFrom base pool c → I base → Emits (fun _ => Quiet)
    (yields fun w es => Revises policy base pool es w.pool ∧ R pool w es) (update pool) base

theorem emits_mutatePool (lasting : Lasting I) (callback : Callback policy I R update)
    (ready : I past) :
    Emits (PoolRule policy) (yields (Mutates R)) (mutatePool update) past := by
  refine permits_poolRule.mutatePool lasting ?_ past ready
  intro base pool c read here
  refine (callback base pool c read here).mono fun out es outcome => ?_
  cases out with
  | error err => trivial
  | ok w =>
    refine ⟨outcome.2, ?_⟩
    rintro new rfl quiet
    exact writes_revision read quiet outcome.1

theorem keeps_mutatePool (callback : Callback policy (fun _ => True) (fun _ _ _ => True) update) :
    Keeps (PoolRule policy) (mutatePool update) := fun _ =>
  (emits_mutatePool lasting_true callback trivial).forget

/-! ## Revisions -/

section Revisions

theorem revises_refl (grown : base <:+ es) : Revises policy base pool es pool := fun _ =>
  ⟨none, Revised.start.grow grown⟩

theorem revises_always (grown : base <:+ es)
    (edits : ∀ n, PoolEdits policy (Adds base) (TakesBack base) n pool next) :
    Revises policy base pool es next := fun _ => ⟨none, (Revised.start.grow grown).always edits⟩

theorem revises_reading (grown : base <:+ es)
    (edits : NewNames base pool → PoolEdits policy (Adds base) (TakesBack base) n pool next) :
    Revises policy base pool (⟨.now, n⟩ :: es) next := fun names =>
  ⟨some n, (Revised.reads n (Revised.start.grow grown)).edits (edits names)⟩

end Revisions

theorem quiet_dateNow : Keeps (fun _ => Quiet) dateNow := fun _ => ⟨trivial, fun _ => trivial⟩

theorem quiet_askApp : Keeps (fun _ => Quiet) (askApp q) := fun _ =>
  ⟨trivial, fun _ => trivial⟩

theorem quiet_appStep : Keeps (fun _ => Quiet) (appStep step) :=
  quiet_askApp.bind keeps_orRaise

theorem Permits.keeps (permits : Permits G) (quiet : Keeps (fun _ => Quiet) p) :
    Keeps G p := fun past =>
  (quiet past).weaken fun es o _ => permits.quiet es o

theorem Quiet.keeps (quiet : Keeps (fun _ => Quiet) p) :
    Keeps (PoolRule policy) p := permits_poolRule.keeps quiet

theorem quiet_assertCommittedVersion {version : VersionId} :
    Keeps (fun _ => Quiet) (assertCommittedVersion version) := by
  refine (quiet_askApp.bind keeps_orRaise).bind fun found => ?_
  cases found with
  | none => exact keeps_raise
  | some current => exact Keeps.ite keeps_raise keeps_ret

/-! ## Deletion and release -/

theorem callback_release : Callback policy (fun _ => True) (fun _ _ _ => True)
      fun pool => pure ⟨releasePool session token pool, ()⟩ := by
  intro base pool c _ _
  refine ⟨?_, trivial⟩
  have outcome : _ ∨ ∀ n, PoolEdit policy (Adds base) (TakesBack base) n pool _ :=
    edit_releasePool session token pool
  rcases outcome with same | edit
  · rw [same]
    exact revises_refl List.suffix_rfl
  · exact revises_always List.suffix_rfl fun n => .single (edit n)

theorem keeps_releaseReservation : Keeps (PoolRule policy) (releaseReservation session token) :=
  keeps_mutatePool callback_release

theorem keeps_invalidate : Keeps (PoolRule policy) (invalidate session) :=
  keeps_mutatePool fun _ _ _ _ _ =>
    ⟨revises_always List.suffix_rfl fun _ => edits_invalidatePool, trivial⟩

theorem quiet_tombstoneTime : Keeps (fun _ => Quiet) (tombstoneTime pool) := by
  rw [tombstoneTime]
  split
  · exact keeps_ret
  · exact quiet_dateNow

theorem keeps_retireForDeletion : Keeps (PoolRule policy) retireForDeletion := by
  refine keeps_mutatePool ?_
  intro base pool c _ _
  refine emits_seq (quiet_tombstoneTime _) fun deletedAt es grown _ => ?_
  exact ⟨revises_always grown fun _ => edits_tombstone, trivial⟩

theorem keeps_cancelNotebookMove : Keeps (PoolRule policy) cancelNotebookMove := by
  refine keeps_withCasRetry ?_
  intro past
  rw [emits_bind, emits_bucketGet]
  refine ⟨trivial, ?_, trivial, trivial⟩
  intro v tag
  cases v with
  | pool pool =>
    change Emits _ _ (casPut (B := AppStore) .pool (.pool { pool with deletedAt := none })
      (.ifMatch tag) >>= _) _
    rw [emits_bind, emits_casPut]
    refine ⟨⟨fun _ => ?_, nofun⟩, fun _ => trivial, trivial, trivial⟩
    exact ⟨pool, { pool with deletedAt := none }, [], _, rfl, rfl, by simp, .found pool tag past,
      .inr rfl, revises_always List.suffix_rfl fun n =>
        .single (.relabel pool none pool.latestVersionId)⟩
  | _ => trivial

/-! ## Synchronization -/

variable {member reservation : AppPoolMember}
  {observed : Option (List AppSession)} {service : AppPoolService} {input : AppPoolRequest}

theorem quiet_startExpired : Keeps (fun _ => Quiet) (startExpired member) :=
  Keeps.ite quiet_dateNow.map keeps_ret

theorem quiet_sessionEnded {session : AppSession} : Keeps (fun _ => Quiet) (sessionEnded session) :=
  Keeps.ite keeps_ret quiet_dateNow.map

theorem quiet_readSession : Keeps (fun _ => Quiet) (readSession member) := by
  refine quiet_askApp.bind fun r => ?_
  cases r with
  | ok session => exact keeps_ret
  | error err => exact Keeps.ite keeps_ret keeps_raise

theorem quiet_readSessions : Keeps (fun _ => Quiet) (readSessions members) := by
  induction members with
  | nil => exact keeps_ret
  | cons member rest ih =>
    exact quiet_readSession.bind fun _ => ih.map

theorem quiet_candidateSessions : Keeps (fun _ => Quiet) (candidateSessions observed pool) := by
  cases observed with
  | some sessions => exact keeps_ret
  | none =>
    refine Keeps.ite ?_ quiet_readSessions
    exact (quiet_askApp.bind keeps_orRaise).map

theorem quiet_loadSessions : Keeps (fun _ => Quiet) (loadSessions service observed pool seen) := by
  cases seen with
  | some seen => exact keeps_ret
  | none => exact quiet_candidateSessions.map

theorem emits_retireLost : Emits (fun _ => Quiet)
      (yields fun next _ => ∀ n, List.Forall₂ (Altered n) members next)
      (retireLost absent members) past := by
  induction members generalizing past with
  | nil => exact fun _ => .nil
  | cons member rest ih =>
    refine emits_seq (quiet_startExpired _) fun expired es _ _ => ?_
    refine emits_then ih fun others es' _ altered => ?_
    intro n
    refine .cons ?_ (altered n)
    split
    · exact altered_retireMember member
    · exact altered_refl member

theorem legacyMember_facts {session : AppSession}
    (adopted : legacyMember deleted session = some member) :
    member.sessionId = session.sessionId ∧ session.appPool = false ∧ member.legacy = true ∧
      member.idleSince = none := by
  rw [legacyMember] at adopted
  split at adopted
  · next active =>
    obtain ⟨sandboxId, _, rfl⟩ := Option.map_eq_some_iff.mp adopted
    exact ⟨rfl, active.2, rfl, rfl⟩
  · cases adopted

theorem emits_applySession (policy : AppPoolPolicy) (base : Log AppStore) (deleted : Bool)
    (session : AppSession) (pool : AppPool) : Emits (fun _ => Quiet)
      (yields fun next _ => ∀ n, PoolEdits policy (Adds base) (TakesBack base) n pool
        { pool with members := next }) (applySession deleted session pool.members) past := by
  rw [applySession]
  cases found : pool.members.find? (isMember session.sessionId) with
  | some member =>
    refine emits_seq (quiet_sessionEnded _) fun ended es _ _ => ?_
    intro n
    split
    · exact .single (edit_retireFirst (isMember session.sessionId) pool)
    · exact .refl
  | none =>
    intro n
    cases adopted : legacyMember deleted session with
    | none => simpa using Relation.ReflTransGen.refl
    | some member =>
      obtain ⟨same, outside, legacy, awake⟩ := legacyMember_facts adopted
      obtain ⟨k, other⟩ := session.outside outside
      refine .single (.join pool member (.inl ⟨k, same.trans other⟩) ?_ awake (.inl legacy))
      intro present inside equal
      have missing := List.find?_eq_none.mp found present inside
      simp [isMember, equal, same] at missing

theorem emits_applySessions (policy : AppPoolPolicy) (base : Log AppStore) (deleted : Bool)
    (sessions : List AppSession) (pool : AppPool) : Emits (fun _ => Quiet)
      (yields fun next _ => ∀ n, PoolEdits policy (Adds base) (TakesBack base) n pool
        { pool with members := next }) (applySessions deleted sessions pool.members) past := by
  induction sessions generalizing pool past with
  | nil => exact fun _ => .refl
  | cons session rest ih =>
    refine emits_then (emits_applySession policy base deleted session pool)
      fun members es _ first => ?_
    refine (ih { pool with members := members }).returns fun next es' _ more => ?_
    exact fun n => (first n).trans (more n)

theorem emits_synchronizePool (policy : AppPoolPolicy) (seen : SessionsSeen) (pool : AppPool)
    (grown : base <:+ past) : Emits (fun _ => Quiet)
      (yields fun w es => Revises policy base pool es w.pool) (synchronizePool seen pool) past := by
  refine emits_then emits_retireLost fun members es more altered => ?_
  refine emits_then
    (emits_applySessions policy base pool.deletedAt.isSome seen.sessions
      { pool with members := members })
    fun next es' further edits => ?_
  refine ⟨trivial, fun n => revises_reading (grown.trans (more.trans further)) fun _ => ?_⟩
  exact ((Relation.ReflTransGen.single (.alter pool members (altered n))).trans (edits n)).tail
    (.expire _)

/-- A synchronization, where `P` is what holds of the past at the start of each attempt. -/
theorem Permits.synchronizeFrom (permits : Permits G) (policy : AppPoolPolicy)
    (service : AppPoolService) (observed : Option (List AppSession)) {P : Log AppStore → Prop}
    (writes : ∀ {past r new pool next c}, P past → ReadFrom (⟨.get .pool, r⟩ :: past) pool c →
      (∀ ev ∈ new, Quiet ev.op) →
      Revises policy (⟨.get .pool, r⟩ :: past) pool (new ++ ⟨.get .pool, r⟩ :: past) next →
      breaksTombstone pool next = false →
      G (new ++ ⟨.get .pool, r⟩ :: past) (.put .pool (.pool next) c))
    (again : ∀ {past r new v c}, P past → (∀ ev ∈ new, Quiet ev.op) →
      P (⟨.put .pool v c, .lost⟩ :: (new ++ ⟨.get .pool, r⟩ :: past))) (retries : Nat)
    (seen : Option SessionsSeen) (ready : P past) :
    Emits G (fun _ _ => True) (AppPools.synchronizeFrom service observed retries seen) past := by
  induction retries generalizing seen past with
  | zero => trivial
  | succ retries ih =>
    rw [AppPools.synchronizeFrom, emits_bind]
    refine (permits.readPool past).mono ?_
    rintro out base ⟨⟨r, rfl⟩, result⟩
    cases out with
    | error err => trivial
    | ok read =>
      rw [andThen_ok]
      split
      · trivial
      · rw [emits_bind]
        refine ((quiet_loadSessions _).adds.weaken fun es o _ => permits.quiet es o).mono ?_
        rintro out es ⟨_, new, rfl, quiet⟩
        cases out with
        | error err => trivial
        | ok loaded =>
          rw [andThen_ok, emits_bind]
          refine ((emits_synchronizePool policy loaded read.1
            (List.suffix_append new _)).adds.weaken fun es o _ => permits.quiet es o).mono ?_
          rintro out es ⟨revises, more, rfl, also⟩
          cases out with
          | error err => trivial
          | ok w =>
            rw [andThen_ok, emits_tryCatch]
            have calm : ∀ ev ∈ more ++ new, Quiet ev.op := by
              intro ev member
              rcases List.mem_append.mp member with here | there
              · exact also ev here
              · exact quiet ev there
            rw [← List.append_assoc] at revises ⊢
            refine (emits_commitPool (writes ready result calm revises)).mono ?_
            intro out es committed
            cases committed with
            | lost c => exact ih (some loaded) (again ready calm)
            | _ => trivial

theorem keeps_synchronize : Keeps (PoolRule policy) (synchronize service observed) := fun _ =>
  permits_poolRule.synchronizeFrom policy service observed (P := fun _ => True)
    (fun _ => writes_revision) (fun _ _ => trivial) _ _ trivial

/-! ## Admission -/

/-- What the decision of a route has to establish: edits, and where the generation it reports comes
from. -/
structure Routes (policy : AppPoolPolicy) (userId : UserId) (drew : Nat → Prop)
    (session : AppSessionId) (decide : AppPool → Nat → Routed) : Prop where
  edits : ∀ (added : AppSessionId → Prop) (taken : Nat → Prop) (n : Nat) (pool : AppPool),
    added session → IsNew session pool → PoolEdits policy added taken n pool (decide pool n).pool
  drawn : ∀ pool n g, newGeneration userId pool (decide pool n).decision = some g → drew g
  stored : ∀ pool n g, newGeneration userId pool (decide pool n).decision = some g →
    ∃ assignment ∈ (decide pool n).pool.assignments,
      assignment.userId = userId ∧ assignment.generation = g

theorem absent_of_newGeneration (reported : newGeneration userId pool decision = some g)
    (listed : assignment ∈ pool.assignments) (user : assignment.userId = userId)
    (same : assignment.generation = g) : False := by
  cases decision with
  | busy => cases reported
  | placed kind member placed =>
    cases placed with
    | none => cases reported
    | some found =>
      simp only [newGeneration] at reported
      split at reported
      · cases reported
      · next missing =>
        cases reported
        refine missing (List.any_eq_true.mpr ⟨assignment, listed, ?_⟩)
        simp [user, same]

/-- What the caller learns from the mutation of a route. -/
def Placed (userId : UserId) (decide : AppPool → Nat → Routed) (pool : AppPool)
    (w : Mutation Placement) (_ : Log AppStore) : Prop :=
  ∃ n, w.pool = (decide pool n).pool ∧
    w.value.newGeneration = newGeneration userId pool (decide pool n).decision

theorem callback_placeVisit (routes : Routes policy input.userId drew (.drawn k) decide) :
    Callback policy (fun es => Unused es k) (Placed input.userId decide)
      (placeVisit input decide) := by
  intro base pool c _ unused
  rw [placeVisit]
  split
  · trivial
  · refine emits_seq (quiet_assertCommittedVersion _) fun _ es grown _ => ?_
    refine ⟨trivial, fun n => ⟨?_, n, rfl, rfl⟩⟩
    exact revises_reading grown fun names =>
      routes.edits (Adds base) (TakesBack base) n pool (.inr ⟨k, rfl, unused⟩) (names k unused)

theorem lasting_unused : Lasting fun es => Unused es k :=
  fun _ _ calm unused => unused_cons calm unused

theorem lasting_takesBack : Lasting fun es => ∀ g, generation = some g → TakesBack es g := by
  intro ev es _ before g same
  obtain ⟨drawn, pool, c, tag, written, listed⟩ := before g same
  exact ⟨.tail _ drawn, pool, c, tag, .tail _ written, listed⟩

theorem callback_withdraw :
    Callback policy (fun es => ∀ g, generation = some g → TakesBack es g) (fun _ _ _ => True)
      (withdrawPool userId generation) := by
  intro base pool c _ taken
  refine ⟨trivial, fun n => ⟨revises_reading List.suffix_rfl fun _ => ?_, trivial⟩⟩
  refine .tail (.single (.withdraw pool (isWithdrawn userId generation) ?_)) (.expire _)
  intro item _ dropped
  simp only [isWithdrawn, Bool.and_eq_true, decide_eq_true_eq] at dropped
  exact taken _ dropped.2.symm

theorem emits_withdrawAdmission (taken : ∀ g, placed.newGeneration = some g → TakesBack past g) :
    Emits (PoolRule policy) (fun _ _ => True) (withdrawAdmission userId reservation placed)
      past := by
  rw [withdrawAdmission]
  split
  · exact keeps_releaseReservation past
  · exact (emits_mutatePool lasting_takesBack callback_withdraw taken).forget

theorem takesBack_grow (taken : TakesBack es g) (grown : es <:+ later) : TakesBack later g := by
  obtain ⟨drawn, pool, c, tag, written, listed⟩ := taken
  exact ⟨grown.subset drawn, pool, c, tag, grown.subset written, listed⟩

theorem emits_confirmAdmission (taken : ∀ g, placed.newGeneration = some g → TakesBack past g) :
    Emits (PoolRule policy) (fun _ _ => True)
      (confirmAdmission input operation reservation placed) past := by
  rw [confirmAdmission]
  split
  · rw [emits_tryCatch]
    refine (Quiet.keeps quiet_assertCommittedVersion past).grown.mono ?_
    rintro out es ⟨_, grown⟩
    cases out with
    | ok _ => trivial
    | error err =>
      split
      · refine emits_seq (emits_withdrawAdmission
          fun g same => takesBack_grow (taken g same) grown) ?_
        exact fun _ _ _ _ => trivial
      · trivial
  · trivial

/-- An acknowledged admission with a new generation was written. -/
theorem takesBack_of_mutates (routes : Routes policy userId drew session decide)
    (drawn : ∀ g, drew g → ⟨.mint, g⟩ ∈ es) (mutates : Mutates (Placed userId decide) placed es)
    (g : Nat) (reported : placed.newGeneration = some g) : TakesBack es g := by
  obtain ⟨pool, w, before, rfl, ⟨n, next, same⟩, ended⟩ := mutates
  rw [same] at reported
  obtain ⟨assignment, listed, user, generation⟩ := routes.stored pool n g reported
  refine ⟨drawn g (routes.drawn pool n g reported), ?_⟩
  rcases ended with ⟨_, unchanged⟩ | ⟨c, tag, rfl⟩
  · rw [← next, unchanged] at listed
    exact (absent_of_newGeneration reported listed user generation).elim
  · rw [← next] at listed
    exact ⟨w.pool, c, tag, .head _, assignment, listed, generation⟩

theorem emits_route (drew : Nat → Prop) {decide : AppPoolMember → AppPool → Nat → Routed}
    (routes : ∀ now session sandbox token, Routes policy input.userId drew (.drawn session)
      (decide (reserveMember input now session sandbox token)))
    (drawn : ∀ g, drew g → ⟨.mint, g⟩ ∈ past) :
    Emits (PoolRule policy) (fun _ _ => True) (route service input operation decide) past := by
  refine emits_seq (keeps_synchronize past) ?_
  intro _ es grown _
  refine ⟨trivial, fun now => ⟨trivial, fun session => ⟨trivial, fun sandbox =>
    ⟨trivial, fun token => ?_⟩⟩⟩⟩
  change Emits _ _ (mutatePool
    (placeVisit input (decide (reserveMember input now session sandbox token))) >>= _) _
  have unused : Unused (⟨.mint, token⟩ :: ⟨.mint, sandbox⟩ :: ⟨.mint, session⟩ :: ⟨.now, now⟩ :: es)
      session := by
    refine ⟨[⟨.mint, token⟩, ⟨.mint, sandbox⟩], _, rfl, ?_⟩
    intro ev member
    rcases List.mem_pair.mp member with rfl | rfl
    · exact Quiet.not_attempted trivial
    · exact Quiet.not_attempted trivial
  refine emits_seq (emits_mutatePool lasting_unused
    (callback_placeVisit (routes now session sandbox token)) unused) ?_
  intro placed es' further mutates
  have before (g : Nat) (mine : drew g) : ⟨.mint, g⟩ ∈ es' := by
    refine further.subset ?_
    simp only [List.mem_cons]
    exact .inr (.inr (.inr (.inr (grown.subset (drawn g mine)))))
  refine emits_seq (emits_confirmAdmission
    (takesBack_of_mutates (routes now session sandbox token) before mutates)) ?_
  intro _ _ _ _
  cases placed.decision <;> trivial

/-- A visit that is found among what is kept stood in the record with its generation. -/
theorem generation_of_kept (kept : assignment ∈ keptAssignments now pool) :
    ∃ old ∈ pool.assignments,
      old.userId = assignment.userId ∧ old.generation = assignment.generation := by
  obtain ⟨old, listed, piece, split, rfl, _⟩ := kept_from kept
  refine ⟨old, listed, ?_⟩
  rw [splitAssignment] at split
  split at split
  · obtain ⟨visit, _, rfl⟩ := List.mem_map.mp split
    exact ⟨rfl, rfl⟩
  · rw [List.mem_singleton.mp split]
    exact ⟨rfl, rfl⟩

/-- The generation a route reports as new is that of the admission, and it is stored. -/
theorem newGeneration_routeApp {input : AppAdmission}
    (reported : newGeneration input.userId pool (routeApp service pool input).decision = some g) :
    g = input.generation ∧ ∃ assignment ∈ (routeApp service pool input).pool.assignments,
      assignment.userId = input.userId ∧ assignment.generation = g := by
  have assigned (kind : DecisionKind) (next : AppPool) (member : AppPoolMember)
      (new : newGeneration input.userId pool
        (assignTo service.policy input kind next member).decision = some g) :
      g = input.generation ∧ ∃ assignment ∈
        (assignTo service.policy input kind next member).pool.assignments,
        assignment.userId = input.userId ∧ assignment.generation = g := by
    simp only [assignTo, newGeneration] at new
    split at new
    · cases new
    · cases new
      exact ⟨rfl, _, List.mem_append_right _ (List.mem_singleton_self _), rfl, rfl⟩
  rw [routeApp] at reported ⊢
  cases existing : (observeVersion input.versionId
      (expireAppPresence input.now pool)).assignments.find?
      (isVisit input.userId input.visitId) with
  | some assignment =>
    rw [existing] at reported
    dsimp only at reported
    have kept : assignment ∈ keptAssignments input.now pool := List.mem_of_find?_eq_some existing
    have mine := List.find?_some existing
    simp only [isVisit, decide_eq_true_eq] at mine
    obtain ⟨old, listed, user, generation⟩ := generation_of_kept kept
    have same : assignment.generation = g := by
      rw [reuseVisit] at reported
      split at reported
      · simp only [newGeneration] at reported
        split at reported
        · cases reported
        · cases reported
          rfl
      · cases reported
    exact (absent_of_newGeneration reported listed (user.trans mine.1) (generation.trans same)).elim
  | none =>
    rw [existing] at reported
    dsimp only at reported ⊢
    split at reported
    · exact assigned _ _ _ reported
    · split at reported
      · next capacity =>
        rw [if_pos capacity]
        exact assigned _ _ _ reported
      · cases reported

theorem keeps_admitVisit {visitId : Option String} :
    Keeps (PoolRule service.policy) (admitVisit service input visitId) := by
  intro past
  refine emits_createId_then trivial fun generation => ?_
  refine emits_route (fun g => g = generation) ?_ ?_
  · intro now session sandbox token
    refine ⟨?_, ?_, ?_⟩
    · intro added taken n pool mine fresh
      exact edits_routeApp rfl fresh mine ⟨rfl, rfl⟩
    · exact fun pool n g reported => (newGeneration_routeApp reported).1
    · exact fun pool n g reported => (newGeneration_routeApp reported).2
  · rintro g rfl
    exact .head _

theorem keeps_replace {replaces : AppSessionId} :
    Keeps (PoolRule service.policy) (replace service input replaces) := by
  have silent (pool : AppPool) (request : AppReplacement) (g : Nat) :
      newGeneration input.userId pool
        (reserveAppReplacement service.policy pool request).decision ≠ some g := by
    rw [reserveAppReplacement]
    dsimp only
    intro reported
    split at reported
    · cases reported
    · split at reported <;> cases reported
  intro past
  refine emits_route (fun _ => False) ?_ fun _ never => never.elim
  intro now session sandbox token
  refine ⟨?_, fun pool n g reported => absurd reported (silent pool _ g),
    fun pool n g reported => absurd reported (silent pool _ g)⟩
  intro added taken n pool mine fresh
  exact edits_reserveAppReplacement rfl fresh mine ⟨rfl, rfl⟩

/-! ## Startup -/

theorem emits_reservationHolds : Emits (fun _ => Quiet)
      (yields fun holds es => holds = true → member.state = .starting ∧
        ∃ n, es = ⟨.now, n⟩ :: past ∧ n < member.operationExpiresAt)
      (reservationHolds token member) past := by
  rw [reservationHolds]
  split
  · next starting =>
    refine ⟨trivial, fun n => ?_⟩
    exact fun holds => ⟨starting.1, n, rfl, of_decide_eq_true holds⟩
  · exact nofun

section Reserved

variable {change : AppPoolMember → AppPool → Hub AppStore AppPool}
  (changes : ∀ base pool member n, pool.members.find? (isMember session) = some member →
  member.state = .starting → n < member.operationExpiresAt → Emits (fun _ => Quiet) (yields fun
  next es => Revises policy base pool es next) (change member pool) (⟨.now, n⟩ :: base))
include changes

/-- A change made while the reservation holds revises the record at the reading that found it. -/
theorem callback_whileReserved :
    Callback policy (fun _ => True) (fun _ _ _ => True) (whileReserved session token change) := by
  intro base pool c _ _
  rw [whileReserved]
  split
  · exact ⟨revises_refl List.suffix_rfl, trivial⟩
  · next member found =>
    refine emits_then emits_reservationHolds ?_
    intro holds es grown reading
    split
    · next valid =>
      obtain ⟨starting, n, rfl, before⟩ := reading valid
      refine emits_then (changes base pool member n found starting before) ?_
      exact fun next es _ revises => ⟨revises, trivial⟩
    · exact ⟨revises_refl grown, trivial⟩

theorem keeps_expectReserved :
    Keeps (PoolRule policy) (expectReserved session token change) :=
  (keeps_mutatePool (callback_whileReserved changes)).bind fun _ =>
    Keeps.ite keeps_ret keeps_raise

end Reserved

theorem keeps_bindWarmSandbox : Keeps (PoolRule policy) (bindWarmSandbox session token sandboxId) :=
  keeps_expectReserved fun _ _ _ _ _ _ _ =>
    revises_reading List.suffix_rfl fun _ => .single edit_bindSandbox

section Shorten

/-- Every visit is shortened by its own reading of the clock. -/
theorem emits_shortenVisits (lease : Nat) (visits : List VisitLease)
    (within : List VisitLease → AppPool)
    (edit : ∀ n vs vs', List.Forall₂ (Shortened n) vs vs' → step n (within vs) (within vs'))
    (revised : Revised step base x past clock (within visits)) : Emits (fun _ => Quiet)
      (yields fun next es => ∃ clock, Revised step base x es clock (within next))
      (shortenVisits lease visits) past := by
  induction visits generalizing within past clock with
  | nil => exact ⟨clock, revised⟩
  | cons visit rest ih =>
    refine emits_dateNow_then trivial fun n => ?_
    have one : List.Forall₂ (Shortened n) (visit :: rest)
        ({ visit with expiresAt := min visit.expiresAt (n + lease) } :: rest) := by
      refine .cons ⟨rfl, ?_⟩ (List.forall₂_same.mpr fun other _ => ⟨rfl, Nat.min_le_left _ _⟩)
      dsimp only
      omega
    have shortened := Revised.edit (Revised.reads n revised) (edit n _ _ one)
    refine emits_then (ih (fun others =>
      within ({ visit with expiresAt := min visit.expiresAt (n + lease) } :: others)) ?_ shortened)
        ?_
    · intro m vs vs' more
      exact edit m _ _ (.cons ⟨rfl, Nat.min_le_left _ _⟩ more)
    · exact fun others es _ result => result

theorem emits_shortenAssignments (lease : Nat) (session : AppSessionId)
    (assignments : List AppPoolAssignment) (within : List AppPoolAssignment → AppPool)
    (edit : ∀ n as as', List.Forall₂ (Touched n) as as' → step n (within as) (within as'))
    (revised : Revised step base x past clock (within assignments)) : Emits (fun _ => Quiet)
      (yields fun next es => ∃ clock, Revised step base x es clock (within next))
      (shortenAssignments lease session assignments) past := by
  induction assignments generalizing within past clock with
  | nil => exact ⟨clock, revised⟩
  | cons assignment rest ih =>
    have first : Emits (fun _ => Quiet) (yields fun shortened es =>
        ∃ clock, Revised step base x es clock (within (shortened :: rest)))
        (shortenAssignment lease session assignment) past := by
      rw [shortenAssignment]
      split
      · refine emits_then (emits_shortenVisits lease assignment.visits
          (fun visits => within ({ assignment with visits := visits } :: rest)) ?_ revised) ?_
        · intro n vs vs' shorter
          refine edit n _ _ (.cons ?_ (List.forall₂_same.mpr fun other _ => touched_refl other))
          exact touched_shortened shorter
        · exact fun visits es _ result => result
      · exact ⟨clock, revised⟩
    refine emits_then first ?_
    rintro shortened es _ ⟨clock', revised'⟩
    refine emits_then (ih (fun others => within (shortened :: others)) ?_ revised') ?_
    · intro n as as' more
      exact edit n _ _ (.cons (touched_refl shortened) more)
    · exact fun others es _ result => result

end Shorten

theorem keeps_complete : Keeps (PoolRule policy) (complete service session token) := by
  refine keeps_expectReserved ?_
  intro base pool member n found starting holds
  have ready : Revised (PoolEdit policy (Adds base) (TakesBack base)) base pool
      (⟨.now, n⟩ :: base) (some n)
      { pool with members := modifyFirst (isMember session) (completeMember pool) pool.members } :=
    .edit (.reads n .start) (edit_completeMember found starting holds)
  refine emits_then (emits_shortenAssignments service.policy.userLeaseMs session
    pool.assignments (fun assignments => { pool with
      members := modifyFirst (isMember session) (completeMember pool) pool.members
      assignments := assignments })
    (fun n as as' touched => .touch { pool with
      members := modifyFirst (isMember session) (completeMember pool) pool.members
      assignments := as } as' touched) ready) ?_
  exact fun assignments es _ revised _ => revised

/-! ## Presence -/

theorem keeps_heartbeat :
    Keeps (PoolRule service.policy) (heartbeat service userId session visit) := by
  refine keeps_mutatePool ?_
  intro base pool c _ _
  rw [emits_bind, emits_dateNow]
  refine ⟨trivial, fun n => ?_⟩
  have reads : Revised (PoolEdit service.policy (Adds base) (TakesBack base)) base pool
      (⟨.now, n⟩ :: base) (some n) (expireAppPresence n pool) :=
    .edit (.reads n .start) (.expire pool)
  rw [andThen_ok, heartbeatPool]
  split
  · exact ⟨fun _ => ⟨_, reads⟩, trivial⟩
  · next member found =>
    split
    · next assignment present =>
      exact ⟨fun _ => ⟨_, reads.edits edits_recordPresence⟩, trivial⟩
    · dsimp only
      split
      · next legacy =>
        rw [Bool.and_eq_true] at legacy
        refine ⟨trivial, fun generation => ⟨fun _ => ⟨some n, ?_⟩, trivial⟩⟩
        exact (Revised.event _ reads).edits (edits_registerLegacy found legacy.1)
      · exact ⟨fun _ => ⟨_, reads⟩, trivial⟩

theorem keeps_leave : Keeps (PoolRule service.policy) (leave service userId session visit) := by
  refine keeps_mutatePool ?_
  intro base pool c _ _
  exact ⟨trivial, fun n => ⟨revises_reading List.suffix_rfl fun _ => edits_leavePool, trivial⟩⟩

/-! ## Reconciliation -/

theorem callback_retireIfDue :
    Callback policy (fun _ => True) (fun _ _ _ => True) (retireIfDue policy' session) := by
  intro base pool c _ _
  rw [retireIfDue, emits_bind, emits_dateNow]
  refine ⟨trivial, fun first => ?_⟩
  have expired : Revised (PoolEdit policy (Adds base) (TakesBack base)) base pool
      (⟨.now, first⟩ :: base) (some first) (expireAppPresence first pool) :=
    .edit (.reads first .start) (.expire pool)
  rw [andThen_ok]
  dsimp only
  split
  · exact ⟨fun _ => ⟨_, expired⟩, trivial⟩
  · refine emits_dateNow_then trivial fun second => ?_
    split
    · exact ⟨fun _ => ⟨_, Revised.event _ expired⟩, trivial⟩
    · rw [emits_bind]
      refine ⟨trivial, fun third => ⟨fun _ => ⟨some third, ?_⟩, trivial⟩⟩
      exact .edit (.edit (.reads third (.reads second expired))
        (edit_retireFirst (isMember session) _)) (.expire _)

theorem keeps_removeMember (session : AppSessionId) :
    Keeps (PoolRule policy) (removeMember session) := by
  refine keeps_mutatePool ?_
  intro base pool c _ _
  exact ⟨trivial, fun n => ⟨revises_reading List.suffix_rfl fun _ => edits_removeMember, trivial⟩⟩

theorem quiet_findSession : Keeps (fun _ => Quiet) (findSession session) := by
  refine quiet_askApp.bind fun r => ?_
  cases r with
  | ok found => exact keeps_ret
  | error err => exact Keeps.ite keeps_ret keeps_raise

theorem quiet_isBusy : Keeps (fun _ => Quiet) (isBusy candidate decision) := by
  cases decision with
  | probe =>
    exact (quiet_askApp.bind keeps_orRaise).map
  | retain => exact keeps_ret
  | retire => exact keeps_ret

/-- The part of a pass after the synchronization keeps a rule if its two mutations do. -/
theorem Permits.reconcileMembers (permits : Permits G) (service : AppPoolService)
    (retires : ∀ session, Keeps G (AppPools.mutatePool (retireIfDue service.policy session)))
    (removes : ∀ session, Keeps G (removeMember session)) (snapshot : AppPool)
    (members : List AppPoolMember) :
    Keeps G (Source.AppPools.reconcileMembers service snapshot members) := by
  have reclaims (session : AppSessionId) : Keeps G (reclaimMember session) := by
    refine (permits.keeps quiet_findSession).bind fun _ => ?_
    refine (permits.keeps (quiet_askApp.bind keeps_orRaise)).bind fun _ => ?_
    exact Keeps.ite (removes session) keeps_ret
  have works (candidate : AppPoolMember) (decision : AppRetirementDecision) : Keeps G
      (isBusy candidate decision >>= fun busy =>
        if busy then pure () else retireCandidate service candidate) := by
    refine (permits.keeps quiet_isBusy).bind fun _ => ?_
    refine Keeps.ite keeps_ret ((retires candidate.sessionId).bind fun _ => ?_)
    exact Keeps.ite (reclaims candidate.sessionId) keeps_ret
  have member (candidate : AppPoolMember) :
      Keeps G (reconcileMember service snapshot candidate) := by
    refine (permits.keeps quiet_dateNow).bind fun now => ?_
    cases routeAppRetirement service.policy snapshot candidate now with
    | retain => exact keeps_ret
    | probe => exact works candidate .probe
    | retire => exact works candidate .retire
  induction members with
  | nil => exact keeps_ret
  | cons candidate rest ih => exact (keeps_ignoringErrors (member candidate)).bind fun _ => ih

theorem keeps_reconcile : Keeps (PoolRule policy) (reconcile service) :=
  keeps_synchronize.bind fun snapshot =>
    permits_poolRule.reconcileMembers service
      (fun _ => keeps_mutatePool callback_retireIfDue)
      keeps_removeMember snapshot snapshot.members

/-! ## Deletion and cancellation -/

/-- What neither reads nor writes the pool, and keeps the rule for the metadata. -/
def SparesPool (es : Log AppStore) : Op AppStore → Prop
  | .get k => k ≠ .pool
  | .put k v c => k ≠ .pool ∧ (k = .metadata → metadataWriter.Writes .metadata es v c)
  | .delete k => k ≠ .pool ∧ k ≠ .metadata
  | _ => True

theorem SparesPool.allowed (spares : SparesPool es o) : PoolRule policy es o := by
  cases o with
  | put k v c => exact ⟨fun same => absurd same spares.1, spares.2⟩
  | delete k => exact spares
  | _ => trivial

theorem Quiet.spares (quiet : Quiet o) (es : Log AppStore) : SparesPool es o := by
  cases o <;> first | exact quiet.elim | trivial

theorem spares_quiet (quiet : Keeps (fun _ => Quiet) p) : Keeps SparesPool p := fun past =>
  (quiet past).weaken fun es _ _ allowed => allowed.spares es

theorem keeps_spares (spares : Keeps SparesPool p) : Keeps (PoolRule policy) p := fun past =>
  (spares past).weaken fun _ _ _ allowed => allowed.allowed

theorem spares_putMove : Keeps SparesPool (casPut .notebookMove v c) := fun _ =>
  emits_casPut.mpr ⟨⟨nofun, nofun⟩, fun _ => trivial, trivial, trivial⟩

theorem spares_putMetadata (read : ⟨.get .metadata, .found (.metadata stored) tag⟩ ∈ es)
    (status : next.status = .deleted ∨ next.status = stored.status) :
    SparesPool es (.put .metadata (.metadata next) (.ifMatch tag)) :=
  ⟨nofun, fun _ => ⟨.metadata stored, .inl read, stored, next, rfl, rfl, status⟩⟩

theorem spares_parseMove : Keeps SparesPool (parseMove v) := by
  cases v <;> first | exact keeps_ret | exact keeps_raise

/-- The call has seen that the notebook is deleted. -/
def SawDeleted (es : Log AppStore) : Prop :=
  ∃ stored tag, stored.status = .deleted ∧ Issued (B := AppStore) .metadata
    (.metadata stored) tag es

theorem emits_deleteMetadata : Emits SparesPool (yields fun _ es => SawDeleted es)
      (mutateObjectWithOutcome .metadata parseMetadata (markDeleted expected)
        AppVal.metadata appNotebookNotFound defaultRetries) past := by
  have parses_only : ParsesOnly (B := AppStore) parseMetadata .metadata
    | .metadata stored => .inl ⟨stored, rfl, rfl⟩
    | .pool _ | .move _ | .corrupt => .inr ⟨_, rfl⟩
  refine emits_mutateObjectWithOutcome (I := fun _ => True) parses_only (fun _ _ => nofun)
    (fun _ _ _ => trivial) (fun _ _ _ => trivial) ?_ trivial
  intro past stored tag _
  rw [markDeleted]
  split
  · trivial
  · split
    · trivial
    · split
      · next deleted => exact ⟨stored, tag, deleted, .inl (.head _)⟩
      · rw [emits_bind]
        refine ⟨trivial, fun now => ⟨?_, ?_, trivial, trivial⟩⟩
        · exact spares_putMetadata (.tail _ (.head _)) (.inl rfl)
        · exact fun tag' => ⟨_, tag', rfl, .inr ⟨_, .head _⟩⟩

theorem spares_deleteMetadata : Keeps SparesPool (mutateObjectWithOutcome .metadata parseMetadata
      (markDeleted expected) AppVal.metadata appNotebookNotFound defaultRetries) := fun _ =>
  emits_deleteMetadata.forget

theorem keeps_deleteNotebook (expected : Option Nat) :
    Keeps (PoolRule policy) (deleteNotebook expected) := by
  refine (keeps_spares spares_deleteMetadata).bind fun outcome => ?_
  refine Keeps.bind ?_ fun _ => ?_
  · exact Keeps.ite (Quiet.keeps quiet_appStep) keeps_ret
  · exact keeps_retireForDeletion.bind fun _ => (Quiet.keeps quiet_appStep).bind fun _ =>
      keeps_ignoringErrors (Quiet.keeps quiet_appStep)

theorem emits_readMetadata :
    Emits SparesPool (yields fun found es => ∀ stored tag, found = some (stored, tag) →
      ⟨.get .metadata, .found (.metadata stored) tag⟩ ∈ es) readMetadata past := by
  rw [readMetadata, emits_bind, emits_bucketGet]
  refine ⟨nofun, ?_, ?_, trivial⟩
  · intro v tag
    cases v with
    | metadata stored =>
      intro _ _ same
      cases same
      exact .head _
    | _ => trivial
  · intro _ _ same
    cases same

theorem spares_readMetadata : Keeps SparesPool readMetadata := fun _ =>
  (emits_readMetadata).forget

theorem spares_readMove : Keeps SparesPool readMove := by
  refine (keeps_bucketGet fun _ => nofun).bind fun found => ?_
  cases found with
  | none => exact keeps_ret
  | some object => exact spares_parseMove.map

theorem spares_unfence : Keeps SparesPool (unfence moveId) := by
  refine keeps_withCasRetry (fun past => ?_)
  rw [emits_bind]
  refine (emits_readMetadata).mono fun out es read => ?_
  cases out with
  | error err => trivial
  | ok found =>
    cases found with
    | none => trivial
    | some stored =>
      change Emits _ _ (if _ then _ else _) _
      split
      · trivial
      · rw [emits_bind, emits_casPut]
        exact ⟨spares_putMetadata (read _ _ rfl) (.inr rfl), fun _ => trivial, trivial, trivial⟩

theorem spares_leaseMove : Keeps SparesPool (leaseMove service executor) := by
  refine keeps_withCasRetry (spares_readMove.bind fun found => ?_)
  cases found with
  | none => exact keeps_raise
  | some stored =>
    refine Keeps.ite keeps_raise (Keeps.ite keeps_raise ?_)
    refine Keeps.bind ?_ fun _ => ?_
    · rw [AppPools.assertNotRunning]
      split
      · exact keeps_ret
      · exact (spares_quiet quiet_dateNow).bind fun _ => Keeps.ite keeps_raise keeps_ret
    · exact (spares_quiet quiet_dateNow).bind fun _ => spares_putMove.map

theorem spares_dropMoveLease : Keeps SparesPool (dropMoveLease executor) := by
  refine keeps_ignoringErrors (keeps_withCasRetry (spares_readMove.bind fun found => ?_))
  cases found with
  | none => exact keeps_ret
  | some stored =>
    exact Keeps.ite keeps_ret spares_putMove.map

theorem keeps_cancelUnpublished : Keeps (PoolRule policy) (cancelUnpublished move) := by
  have asks (step : AppStep) : Keeps (PoolRule policy) (appStep step) :=
    Quiet.keeps quiet_appStep
  refine Keeps.bind ?_ fun _ => ?_
  · exact Keeps.ite keeps_ret (Quiet.keeps (quiet_askApp.bind keeps_orRaise))
  · refine Keeps.ite keeps_raise ?_
    refine (asks _).bind fun _ => keeps_cancelNotebookMove.bind fun _ => (asks _).bind fun _ =>
      (asks _).bind fun _ => (asks _).bind fun _ => (asks _).bind fun _ => ?_
    refine (keeps_spares spares_unfence).bind fun _ => (asks _).bind fun _ => ?_
    exact keeps_spares (keeps_bucketDelete fun _ => ⟨nofun, nofun⟩)

theorem keeps_cancelMove : Keeps (PoolRule policy) (cancelMove service) := by
  refine (keeps_spares spares_readMove).bind fun existing => ?_
  refine (keeps_spares spares_readMetadata).bind fun stored => ?_
  cases cancellation service (existing.map Prod.fst) (stored.map Prod.fst) with
  | none => exact keeps_raise
  | some found =>
    refine (Quiet.keeps quiet_appStep).bind fun _ => ?_
    refine (Quiet.keeps (quiet_askApp.bind keeps_orRaise)).bind fun _ => ?_
    cases found with
    | orphan moveId =>
      exact (keeps_spares spares_unfence).bind fun _ => Quiet.keeps quiet_appStep
    | pending =>
      refine Keeps.bind (fun _ => ⟨trivial, fun _ => trivial⟩) fun executor => ?_
      refine (keeps_spares spares_leaseMove).bind fun move => ?_
      exact keeps_cancelUnpublished.tryCatch fun err =>
        (keeps_spares spares_dropMoveLease).bind fun _ => keeps_raise

/-! ## The calls -/

/-- The calls that write the pool. -/
inductive PoolCall where
  | admission (input : AppPoolRequest) (visitId : Option String)
  | replacement (input : AppPoolRequest) (replaces : AppSessionId)
  | bindWarmSandbox (session : AppSessionId) (token : OperationToken) (sandboxId : SandboxId)
  | complete (session : AppSessionId) (token : OperationToken)
  | releaseReservation (session : AppSessionId) (token : OperationToken)
  | invalidate (session : AppSessionId)
  | heartbeat (userId : UserId) (session : AppSessionId) (visit : Option AppVisit)
  | leave (userId : UserId) (session : AppSessionId) (visit : AppVisit)
  | synchronize (observed : Option (List AppSession))
  | reconcile
  | deleteNotebook (expectedVersion : Option Nat)
  | cancelMove

def discard (p : Hub AppStore α) : Hub AppStore Unit := do
  let _ ← p
  pure ()

def PoolCall.prog (service : AppPoolService) : PoolCall → Hub AppStore Unit
  | .admission input visitId => discard (Source.AppPools.admitVisit service input visitId)
  | .replacement input replaces => discard (Source.AppPools.replace service input replaces)
  | .bindWarmSandbox session token sandboxId =>
    Source.AppPools.bindWarmSandbox session token sandboxId
  | .complete session token => Source.AppPools.complete service session token
  | .releaseReservation session token => Source.AppPools.releaseReservation session token
  | .invalidate session => Source.AppPools.invalidate session
  | .heartbeat userId session visit =>
    discard (Source.AppPools.heartbeat service userId session visit)
  | .leave userId session visit => Source.AppPools.leave service userId session visit
  | .synchronize observed => discard (Source.AppPools.synchronize service observed)
  | .reconcile => Source.AppPools.reconcile service
  | .deleteNotebook expectedVersion => Source.AppPools.deleteNotebook expectedVersion
  | .cancelMove => Source.AppPools.cancelMove service

theorem keeps_discard (alone : Keeps (PoolRule policy) p) :
    Keeps (PoolRule policy) (discard p) := alone.map

theorem poolCall_keeps_rule {call : PoolCall} :
    Keeps (PoolRule service.policy) (call.prog service) := by
  cases call with
  | admission input visitId => exact keeps_discard keeps_admitVisit
  | replacement input replaces => exact keeps_discard keeps_replace
  | bindWarmSandbox session token sandboxId => exact keeps_bindWarmSandbox
  | complete session token => exact keeps_complete
  | releaseReservation session token => exact keeps_releaseReservation
  | invalidate session => exact keeps_invalidate
  | heartbeat userId session visit =>
    exact keeps_discard keeps_heartbeat
  | leave userId session visit => exact keeps_leave
  | synchronize observed => exact keeps_discard keeps_synchronize
  | reconcile => exact keeps_reconcile
  | deleteNotebook expectedVersion => exact keeps_deleteNotebook expectedVersion
  | cancelMove => exact keeps_cancelMove

end Rule

end MarimoHub.Guarantees.AppPools
