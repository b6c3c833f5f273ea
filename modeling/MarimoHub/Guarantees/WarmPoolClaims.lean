import MarimoHub.Guarantees.WarmPoolRule

/-!
# Claims on the warm pool

The walk through the functions that claim, hand off and give up a member.
-/

namespace MarimoHub.Guarantees

open ObjectStore Source Prog

variable {u : Upkeep} {call : WarmCall} {key b : String} {es es' past : Log WarmStore}
  {member claimed : WarmPoolMember} {members : List WarmPoolMember} {α : Type}
  {object : Option (BucketObject WarmStore)} {P : α → Log WarmStore → Prop} {state : MemberState}

/-! ## The store's functions -/

/-- The client got this answer when it read the record. -/
def ReadAs (b : String) : Option (BucketObject WarmStore) → Log WarmStore → Prop
  | some object, es => ⟨.get b, .found object.value object.etag⟩ ∈ es
  | none, es => ⟨.get b, .absent⟩ ∈ es

theorem ReadAs.readFor (read : ReadAs b object es) :
    ReadFor b (storedRecord object) (writeCondition object) es := by
  cases object with
  | none => exact .inr ⟨rfl, rfl⟩
  | some object => exact .inl ⟨object.etag, rfl, read⟩

theorem ReadAs.grow (read : ReadAs b object es) (grown : es <:+ es') : ReadAs b object es' := by
  cases object <;> exact grown.subset read

theorem ReadAs.saw (read : ReadAs b object es)
    (listed : (key, member) ∈ (storedRecord object).entries) : Saw b key member es := by
  cases object with
  | none => simp [storedRecord, WarmPoolRecord.entries] at listed
  | some found => exact ⟨found.value, found.etag, .inl read, listed⟩

/-- What an update has to establish: the write is allowed, and the result is right whether or not
there was something to write. -/
structure Settles {α : Type} (u : Upkeep) (P : α → Log WarmStore → Prop)
    (object : Option (BucketObject WarmStore)) (outcome : α × WarmPoolRecord)
    (es : Log WarmStore) : Prop where
  unchanged : outcome.2 = storedRecord object → P outcome.1 es
  tidy : Tidy (storedRecord object) outcome.2
  allowed : outcome.2 ≠ storedRecord object →
    (Change u.call u.service.backend (u.founded es) es (storedRecord object) outcome.2 ∨
      u.creates es (storedRecord object) outcome.2) ∧ Kept u.service es (storedRecord object)
        outcome.2
  written : ∀ tag,
    P outcome.1 (⟨.put u.service.backend outcome.2 (writeCondition object), .ok tag⟩ :: es)

theorem emits_mutateWarmPool (once : ∀ object es, past <:+ es →
      ReadAs u.service.backend object es →
      Emits (UpkeepRule u) (yields (Settles u P object)) (update (storedRecord object)) es) :
    Emits (UpkeepRule u) (yields P) (mutateWarmPool u.service.backend update) past := by
  refine emits_withCasRetry ?_ (fun _ _ => trivial) _ _ List.suffix_rfl
  intro es grown
  have reads : Emits (UpkeepRule u) (yields fun object later =>
      past <:+ later ∧ ReadAs u.service.backend object later) (bucketGet u.service.backend) es :=
    emits_bucketGet.mpr ⟨trivial, fun _ _ => ⟨grown.cons, .head _⟩, ⟨grown.cons, .head _⟩, trivial⟩
  refine emits_seq reads ?_ fun _ _ more _ => retrying_error (grown.trans more) trivial
  rintro object es _ ⟨grown, read⟩
  refine emits_seq (once object es grown read) ?_ fun err later more _ =>
    retrying_error (grown.trans more) trivial
  intro outcome later more settles
  split
  · next same => exact settles.unchanged same
  · next changed =>
    rw [emits_bind, emits_casPut]
    exact ⟨⟨rfl, _, (read.grow more).readFor, settles.tidy, settles.allowed changed⟩,
      settles.written, (grown.trans more).cons, trivial⟩

/-- An update that leaves what it found or changes it as allowed, with a result about what the
record holds then. -/
theorem settles_of_allowed (read : ReadAs u.service.backend object es)
    (tidy : Tidy (storedRecord object) outcome.2)
    (allowed : outcome.2 ≠ storedRecord object → Allowed u.call u.service (u.founded es) es
      (storedRecord object) outcome.2)
    (post : ∀ later, es <:+ later → (∀ key m, (key, m) ∈ outcome.2.entries → Saw u.service.backend
      key m later) → P outcome.1 later) :
    Settles u P object outcome es where
  unchanged same := post es List.suffix_rfl fun _ _ listed => read.saw (same ▸ listed)
  tidy := tidy
  allowed changed := ⟨.inl (allowed changed).change, (allowed changed).kept⟩
  written tag := post _ (List.suffix_cons _ _) fun _ _ listed =>
    ⟨_, tag, .inr ⟨_, .head _⟩, listed⟩

theorem emits_readWarmPool : Emits (UpkeepRule u)
      (yields fun record es => ∀ key m, (key, m) ∈ record.entries → Saw u.service.backend key m es)
      (readWarmPool u.service.backend) past := by
  rw [readWarmPool, emits_bind, emits_bucketGet]
  refine ⟨trivial, ?_, ?_, trivial⟩
  · intro v tag key m listed
    exact ⟨v, tag, .inl (.head _), listed⟩
  · intro key m listed
    simp [storedRecord, WarmPoolRecord.entries] at listed

theorem emits_getMember {id : SandboxId} : Emits (UpkeepRule u)
      (yields fun found es => ∀ current, found = some current →
        current.sandboxId = id ∧ ∃ key, Saw u.service.backend key current es)
      (getMember u.service.backend id) past := by
  refine emits_then (emits_readWarmPool) ?_
  intro record es _ saw current found
  obtain ⟨key, listed⟩ := findMember_entry found
  exact ⟨findMember_id found, key, saw key current listed⟩

/-- The member passed the guard of `updateMember`. -/
structure Guarded (member : WarmPoolMember) (state : MemberState) (current : WarmPoolMember) :
    Prop where
  named : current.sandboxId = member.sandboxId
  stated : current.state = state
  tokened : current.token = member.token

theorem emits_updateMember {N : WarmPoolMember → WarmPoolMember → Prop}
    (applies : ∀ current es, Guarded member state current → Emits (UpkeepRule u)
      (yields fun next _ => ∀ n, next = some n → N current n) (apply current) es)
    (fine : ∀ current next, N current next → MemberStep u.call current next) :
    Emits (UpkeepRule u)
      (yields fun done es => done = true → ∃ key current next, Saw u.service.backend key next es ∧
        Guarded member state current ∧ N current next)
      (updateMember u.service.backend member state apply) past := by
  refine emits_mutateWarmPool ?_
  intro object es _ read
  have kept (es' : Log WarmStore) (read' : ReadAs u.service.backend object es') :
      Settles u
        (fun done es => done = true → ∃ key current next, Saw u.service.backend key next es ∧
          Guarded member state current ∧ N current next) object (false, storedRecord object) es' :=
    settles_of_allowed read' id (fun changed => absurd rfl changed) fun _ _ _ done => by cases done
  cases found : findMember (storedRecord object) member.sandboxId with
  | none => exact kept es read
  | some current =>
    dsimp only
    split
    · exact kept es read
    · next passed =>
      obtain ⟨stated, tokened⟩ := not_or.mp passed
      have guarded : Guarded member state current :=
        ⟨findMember_id found, not_not.mp stated, not_not.mp tokened⟩
      refine emits_then (applies current es guarded) ?_
      intro next es' grown applied
      cases next with
      | none => exact kept es' (read.grow grown)
      | some next =>
        have step := fine current next (applied next rfl)
        obtain ⟨_, key, listed⟩ := entries_replaceMember (fun _ => .same) found step
        refine settles_of_allowed (read.grow grown) tidy_replaceMember
          (fun _ => allowed_replaceMember found step) ?_
        intro later _ saw _
        exact ⟨key, current, next, saw key next listed, guarded, applied next rfl⟩

theorem keeps_updateMember
    (applies : ∀ current es, Guarded member state current → Emits (UpkeepRule u)
      (yields fun next _ => ∀ n, next = some n → MemberStep u.call current n)
      (apply current) es) :
    Keeps (UpkeepRule u) (updateMember u.service.backend member state apply) := fun _ =>
  (emits_updateMember applies (fun _ _ step => step)).forget

theorem keeps_removeMember (member : WarmPoolMember)
    (why : SawRetiring u.service.backend member.sandboxId past ∨
      Released u.service.backend member.sandboxId member.token past)
    (letGo : ∀ m : WarmPoolMember, m.sandboxId = member.sandboxId → m.token = member.token →
      LetGo u.service.backend m past) :
    Emits (UpkeepRule u) (fun _ _ => True)
      (removeMember u.service.backend member) past := by
  refine (emits_mutateWarmPool (P := fun _ _ => True) ?_).forget
  intro object es grown read
  refine settles_of_allowed read (tidy_map (fun _ => rfl))
    (fun _ => allowed_without ?_ ?_) fun _ _ _ => trivial
  · exact why.imp (·.sublist grown.sublist) (·.sublist grown.sublist)
  · exact fun m named tokened => (letGo m named tokened).sublist grown.sublist

/-! ## Questions -/

theorem keeps_dateNow : Keeps (UpkeepRule u) dateNow :=
  fun _ => ⟨trivial, fun _ => trivial⟩

theorem keeps_isExpired (member : WarmPoolMember) :
    Keeps (UpkeepRule u) (isExpired member) :=
  keeps_dateNow.map

theorem keeps_connect : Keeps (UpkeepRule u) (connect member) :=
  fun _ => ⟨trivial, fun answer => keeps_orRaise answer _⟩

theorem keeps_reconnectAndProbe :
    Keeps (UpkeepRule u) (reconnectAndProbe sandbox) :=
  fun _ => ⟨trivial, fun answer => keeps_orRaise answer _⟩

theorem keeps_readReference :
    Keeps (UpkeepRule u) (readReference sandbox) :=
  fun _ => ⟨trivial, fun answer => keeps_orRaise answer _⟩

/-! ## Retirement and clean-up -/

theorem keeps_retire
    (entitled : abandonAssigned = true → ∀ current, Guarded member member.state current →
      u.call.Abandons current) : Keeps (UpkeepRule u)
      (retire u.service.backend member abandonAssigned) := by
  refine keeps_updateMember fun current es guarded => ?_
  unfold retireCurrent
  split
  · rintro n ⟨⟩
  · next free =>
    rintro n ⟨⟩
    exact .retired fun assigned => entitled (by simpa [assigned] using free) current guarded

theorem keeps_retireFree :
    Keeps (UpkeepRule u) (retire u.service.backend member false) :=
  keeps_retire (by simp)

theorem keeps_retireQuietly : Keeps (UpkeepRule u)
      (ignoringErrors (do let _ ← retire u.service.backend member false; pure ())) :=
  keeps_ignoringErrors keeps_retireFree.map

theorem keeps_reportReclaimed :
    Keeps (UpkeepRule u) (reportReclaimed current) := by
  unfold reportReclaimed
  split
  · exact keeps_ret
  · refine Keeps.tryCatch (fun _ => ⟨trivial, fun answer => ?_⟩) fun err =>
      Keeps.ite keeps_ret keeps_raise
    refine (keeps_orRaise _).bind (fun session => ?_) _
    exact Keeps.ite (fun _ => ⟨trivial, fun answer => keeps_orRaise answer _⟩) keeps_ret

theorem keeps_cleanup :
    Keeps (UpkeepRule u) (cleanup u.service.backend member) := by
  intro past
  refine emits_seq emits_getMember ?_
  intro found es _ read
  cases found with
  | none => trivial
  | some current =>
    obtain ⟨named, key, saw⟩ := read current rfl
    dsimp only
    split
    · trivial
    · next passed =>
      have seen : SawRetiring u.service.backend current.sandboxId es :=
        ⟨key, current, saw, rfl, not_not.mp (not_or.mp passed).1⟩
      rw [← named]
      refine ⟨seen, fun answer => ?_⟩
      cases answer with
      | error err => trivial
      | ok done =>
        change Emits _ _ (reportReclaimed current >>= _) _
        refine emits_seq (keeps_reportReclaimed _) ?_
        intro _ later grown _
        have since := grown.past
        refine keeps_removeMember current (.inl (seen.sublist since.sublist)) ?_
        intro m same _
        rw [LetGo, same]
        exact .inl (grown.subset (.head _))

/-! ## Claims -/

/-- The client's own write took this member from ready to claimed. -/
def Reserves (b : String) (claimed : WarmPoolMember) (es : Log WarmStore) : Prop :=
  ∃ old v tag tag' key ready, ⟨.put b v (.ifMatch tag), .ok tag'⟩ ∈ es ∧
    ⟨.get b, .found old tag⟩ ∈ es ∧ (key, ready) ∈ old.entries ∧ ready.state = .ready ∧
    ready.sandboxId = claimed.sandboxId ∧ (key, claimed) ∈ v.entries ∧ claimed.state = .claimed

theorem Reserves.grow (reserves : Reserves b claimed es) (grown : es <:+ es') :
    Reserves b claimed es' := by
  obtain ⟨old, v, tag, tag', key, ready, wrote, read, facts⟩ := reserves
  exact ⟨old, v, tag, tag', key, ready, grown.subset wrote, grown.subset read, facts⟩

/-- How the members of a pool look after the search for a ready one. -/
structure ClaimedFrom (call : WarmCall) (members : List WarmPoolMember)
    (outcome : Option WarmPoolMember × List WarmPoolMember) : Prop where
  steps : List.Forall₂ (MemberStep call) members outcome.2
  taken : ∀ claimed, outcome.1 = some claimed → claimed.state = .claimed ∧ claimed ∈ outcome.2 ∧
    outcome.2 ≠ members ∧
    ∃ ready ∈ members, ready.state = .ready ∧ ready.sandboxId = claimed.sandboxId

theorem ClaimedFrom.skip (item : WarmPoolMember) (rest : ClaimedFrom call members outcome) :
    ClaimedFrom call (item :: members) (outcome.1, item :: outcome.2) where
  steps := .cons .same rest.steps
  taken claimed found := by
    obtain ⟨stated, inside, changed, ready, listed, facts⟩ := rest.taken claimed found
    refine ⟨stated, .tail _ inside, ?_, ready, .tail _ listed, facts⟩
    intro same
    exact changed (List.cons.inj same).2

theorem emits_claimReady : Emits (UpkeepRule u)
      (yields fun outcome _ => ClaimedFrom u.call members outcome)
      (claimReady destination members) past := by
  induction members generalizing past with
  | nil => exact ⟨.nil, fun _ none => by cases none⟩
  | cons item rest ih =>
    rw [claimReady]
    split
    · next ready =>
      refine ⟨trivial, fun now => ?_⟩
      change Emits _ _ (if _ then _ else _) _
      split
      · refine ⟨trivial, fun token => ⟨trivial, fun now' => ⟨.cons ?_ ?_, ?_⟩⟩⟩
        · refine .advanced _ rfl ?_ (by rw [ready]; decide)
          rw [ready]
          show stage .ready ≤ stage .claimed
          decide
        · exact List.forall₂_same.mpr fun _ _ => .same
        · rintro claimed ⟨⟩
          refine ⟨rfl, .head _, ?_, item, .head _, ready, rfl⟩
          intro same
          have stated := congrArg WarmPoolMember.state (List.cons.inj same).1
          rw [ready] at stated
          cases stated
      · exact emits_then ih fun _ _ _ claimed => claimed.skip item
    · exact emits_then ih fun _ _ _ claimed => claimed.skip item

theorem emits_reserveUpdate : Emits (UpkeepRule u)
      (yields fun found es => ∀ claimed, found = some claimed →
        Reserves u.service.backend claimed es)
      (mutateWarmPool u.service.backend (reserveUpdate profile destination)) past := by
  refine emits_mutateWarmPool ?_
  intro object es _ read
  unfold reserveUpdate
  cases listed : (storedRecord object).pools.find? fun pool => pool.key = profile.key with
  | none =>
    exact settles_of_allowed read id (fun changed => absurd rfl changed)
      fun _ _ _ _ none => by cases none
  | some pool =>
    have named : pool.key = profile.key := by simpa using List.find?_some listed
    have current : getOrCreateWarmPool (storedRecord object) profile.key = pool := by
      rw [getOrCreateWarmPool, listed, Option.getD_some]
    refine emits_then emits_claimReady ?_
    intro outcome es' grown claim
    have named' : ({ pool with members := outcome.2 } : WarmPool).key = profile.key := named
    refine ⟨?_, tidy_setWarmPool, fun _ => ?_, ?_⟩
    · intro same claimed found
      have again := getOrCreate_setWarmPool { pool with members := outcome.2 }
        (storedRecord object).pools
      simp only at same
      rw [same, named'] at again
      have unchanged : outcome.2 = pool.members := by
        rw [← current]
        exact congrArg WarmPool.members again.symm
      exact absurd unchanged (claim.taken claimed found).2.2.1
    · have allowed : Allowed u.call u.service (u.founded es') es' (storedRecord object)
          ⟨setWarmPool { pool with members := outcome.2 } (storedRecord object).pools⟩ :=
        allowed_setWarmPool named' (current.symm ▸ claim.steps)
      exact ⟨.inl allowed.change, allowed.kept⟩
    · intro tag claimed found
      obtain ⟨stated, inside, _, ready, before, waiting, same⟩ := claim.taken claimed found
      have entry : (profile.key, ready) ∈ (storedRecord object).entries :=
        mem_entries_of_pool (current.symm ▸ before)
      cases object with
      | none => simp [storedRecord, WarmPoolRecord.entries] at entry
      | some stored =>
        refine ⟨stored.value, _, stored.etag, tag, profile.key, ready, .head _,
          .tail _ (grown.subset read), entry, waiting, same, ?_, stated⟩
        exact named' ▸ mem_entries_setWarmPool inside

theorem emits_connectClaimed (reserved : Reserves u.service.backend claimed past) :
    Emits (UpkeepRule u)
      (yields fun found es => ∀ held, found = some held → Reserves u.service.backend held.member es)
      (connectClaimed u.service.backend profile claimed) past := by
  refine emits_caught ?_ ?_
  · refine emits_seq (keeps_connect past) ?_
    intro _ es grown _
    rintro held ⟨⟩
    exact reserved.grow grown
  · intro _ es _
    refine emits_seq (keeps_retireQuietly es) ?_
    rintro _ _ _ _ held ⟨⟩

theorem emits_reserve : Emits (UpkeepRule u)
      (yields fun found es => ∀ held, found = some held →
        Reserves u.service.backend held.member es) (reserve u.service request) past := by
  unfold reserve
  split
  · rintro held ⟨⟩
  · next profile _ =>
    refine emits_caught ?_ fun _ _ _ held none => by cases none
    refine emits_then emits_reserveUpdate ?_
    intro found es _ reserved
    cases found with
    | none => rintro held ⟨⟩
    | some claimed => exact emits_connectClaimed (reserved claimed rfl)

theorem keeps_probe : Keeps (UpkeepRule u) (probe u.service held) := by
  refine Keeps.tryCatch ?_ fun err => keeps_retireQuietly.bind fun _ => keeps_raise
  refine keeps_reconnectAndProbe.bind fun _ => (keeps_isExpired held.member).bind fun _ => ?_
  exact Keeps.ite keeps_raise keeps_ret

theorem emits_claim : Emits (UpkeepRule u)
      (yields fun found es => ∀ held, found = some held →
        Reserves u.service.backend held.member es) (claim u.service request) past := by
  refine emits_then emits_reserve ?_
  intro found es _ reserved
  cases found with
  | none => rintro held ⟨⟩
  | some held =>
    refine emits_caught ?_ fun _ _ _ held none => by cases none
    refine emits_seq (keeps_probe es) ?_
    intro _ es' grown _
    rintro held ⟨⟩
    exact (reserved _ rfl).grow grown

/-- The client was given a record in which the claimed member is assigned. -/
def SawAssigned (b : String) (member : WarmPoolMember) (es : Log WarmStore) : Prop :=
  ∃ key next, Saw b key next es ∧ next.sandboxId = member.sandboxId ∧
    next.token = member.token ∧ next.state = .claimed ∧ next.assigned = true

theorem emits_handoff : Emits (UpkeepRule u)
      (yields fun _ es => SawAssigned u.service.backend held.member es)
      (handoff u.service held) past := by
  unfold handoff destinationOf
  cases held.member.destination with
  | none => trivial
  | some destination =>
    refine ⟨trivial, fun answer => ?_⟩
    refine emits_seq (keeps_orRaise _ _) ?_
    intro session es _ _
    split
    · refine emits_then (emits_updateMember
        (N := fun current next => next = { current with assigned := true }) ?_ ?_) ?_
      · intro current es _
        refine ⟨trivial, fun now => ?_⟩
        change Emits _ _ (if _ then _ else _) _
        split
        · rintro next ⟨⟩
        · rintro next ⟨⟩
          rfl
      · rintro current next rfl
        exact .assigned
      · intro done later _ updated
        cases done with
        | false => trivial
        | true =>
          obtain ⟨key, current, next, saw, guarded, rfl⟩ := updated rfl
          exact ⟨key, _, saw, guarded.named, guarded.tokened, guarded.stated, rfl⟩
    · trivial

theorem keeps_abandon : Keeps (PoolRule (.abandon service held)) (abandon service held) := by
  refine Keeps.bind (keeps_retire ?_) fun _ => keeps_cleanup
  intro _ current guarded
  exact ⟨service, held, rfl, guarded.named.symm, guarded.tokened.symm⟩

end MarimoHub.Guarantees
