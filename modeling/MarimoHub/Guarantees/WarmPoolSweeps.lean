import MarimoHub.Guarantees.WarmPoolClaims

/-!
# Fills and sweeps of the warm pool

The calls that add members. A sweep trims the pools, then reserves creations under identifiers it
drew, and its fills put back only those. `warmCall_keeps_rule` collects what every call does alone.
-/

namespace MarimoHub.Guarantees

open ObjectStore Source Prog

variable {u : Upkeep} {past es es' : Log WarmStore} {call : WarmCall} {member : WarmPoolMember}
  {record old : WarmPoolRecord} {founded : Log WarmStore → String → SandboxId → Prop}

/-! ## Creations -/

/-- The identifiers of new members were drawn since `past`, and nothing was written. -/
def DrewSince (past es : Log WarmStore) (ids : List SandboxId) : Prop :=
  ∃ pre, es = pre ++ past ∧ (∀ ev ∈ pre, ¬ IsPut ev) ∧ ids.reverse.Sublist (drawn pre)

theorem DrewSince.none (past : Log WarmStore) : DrewSince past past [] :=
  ⟨[], rfl, by simp, List.Sublist.refl _⟩

theorem DrewSince.trans (first : DrewSince past es ids)
    (second : DrewSince es es' ids') : DrewSince past es' (ids ++ ids') := by
  obtain ⟨pre, rfl, quiet, drew⟩ := first
  obtain ⟨pre', rfl, quiet', drew'⟩ := second
  refine ⟨pre' ++ pre, by simp, ?_, ?_⟩
  · intro ev member
    exact (List.mem_append.mp member).elim (quiet' ev) (quiet ev)
  · rw [List.reverse_append, drawn_append]
    exact drew'.append drew

theorem not_isPut_mint : ¬ IsPut ⟨.mint, n⟩ := by
  rintro ⟨k, v, c, r, same⟩
  cases same

theorem not_isPut_now : ¬ IsPut ⟨.now, n⟩ := by
  rintro ⟨k, v, c, r, same⟩
  cases same

theorem drewSince_now (n : Nat) : DrewSince past (⟨.now, n⟩ :: past) [] :=
  ⟨[⟨.now, n⟩], rfl, by simpa using not_isPut_now, List.Sublist.refl _⟩

theorem drewSince_member {now id token : Nat} :
    DrewSince past (⟨.mint, token⟩ :: ⟨.mint, id⟩ :: ⟨.now, now⟩ :: past) [id] := by
  refine ⟨[⟨.mint, token⟩, ⟨.mint, id⟩, ⟨.now, now⟩], rfl, ?_, ?_⟩
  · simp [not_isPut_mint, not_isPut_now]
  · exact List.sublist_cons_self token [id]

theorem emits_createMembers (config : WarmPoolConfig) (count : Nat) :
    Emits (UpkeepRule u)
      (yields fun members es => DrewSince past es (members.map WarmPoolMember.sandboxId) ∧
        members.length = count) (createMembers config count) past := by
  induction count generalizing past with
  | zero => exact ⟨.none past, rfl⟩
  | succ count ih =>
    refine ⟨trivial, fun now => ⟨trivial, fun id => ⟨trivial, fun token => ?_⟩⟩⟩
    change Emits _ _ (createMembers config count >>= _) _
    refine emits_then ih ?_
    rintro rest es _ ⟨drew, length⟩
    exact ⟨drewSince_member.trans drew, congrArg Nat.succ length⟩

/-- Where the loop over the profiles stands. -/
structure ReservedSoFar (old : WarmPoolRecord) (past : Log WarmStore)
    (reservations : List CreationReservation) (record : WarmPoolRecord)
    (es : Log WarmStore) : Prop where
  tidy : Tidy old record
  added : ∃ added : List Entry, record.entries.Perm (added ++ old.entries) ∧
    DrewSince past es (added.map fun e => e.2.sandboxId) ∧
    ∀ creation ∈ reservations, (creation.profile.key, creation.member) ∈ added

theorem SpareBound.push (bound : SpareBound config old record) (desired : key ∈ desiredKeys config)
    (room : members ≠ [] → spareCount (getOrCreateWarmPool record key) + members.length ≤
      config.size) : SpareBound config old ⟨setWarmPool { getOrCreateWarmPool record key with
      members := (getOrCreateWarmPool record key).members ++ members } record.pools⟩ := by
  have named := getOrCreate_key record key
  intro pool inside
  rcases mem_setWarmPool inside with rfl | listed
  · by_cases none : members = []
    · subst none
      rcases getOrCreate_mem with listed | empty
      · simpa using bound _ listed
      · refine .inr ?_
        simp [spareCount, empty]
    · refine .inr ?_
      have target : targetSize config key = config.size := if_pos desired
      have room := room none
      have fits : (members.countP isSpare) ≤ members.length := List.countP_le_length
      show ((getOrCreateWarmPool record key).members ++ members).countP isSpare ≤
        targetSize config (getOrCreateWarmPool record key).key
      rw [named, List.countP_append]
      unfold spareCount at room
      omega
  · exact bound pool listed

theorem ReservedSoFar.push (profile : WarmPoolProfile)
    (members : List WarmPoolMember) (before : ReservedSoFar old past reservations record es)
    (drew : DrewSince es es' (members.map WarmPoolMember.sandboxId)) :
    ReservedSoFar old past (reservations ++ members.map (⟨profile, ·⟩))
      ⟨setWarmPool { getOrCreateWarmPool record profile.key with
        members := (getOrCreateWarmPool record profile.key).members ++ members }
        record.pools⟩ es' := by
  obtain ⟨tidy, added, same, drewBefore, listed⟩ := before
  refine ⟨fun distinct => tidy_setWarmPool (tidy distinct), added ++ members.map (profile.key, ·),
    ?_, ?_, ?_⟩
  · have named : ({ getOrCreateWarmPool record profile.key with
        members := (getOrCreateWarmPool record profile.key).members ++ members } :
          WarmPool).key = profile.key := getOrCreate_key record profile.key
    refine (entries_pushed named rfl).trans ?_
    refine (same.append_left _).trans ?_
    rw [← List.append_assoc]
    exact List.perm_append_comm.append_right _
  · rw [List.map_append, List.map_map]
    exact drewBefore.trans drew
  · intro creation inside
    rcases List.mem_append.mp inside with earlier | now
    · exact List.mem_append_left _ (listed creation earlier)
    · obtain ⟨member, drawnHere, rfl⟩ := List.mem_map.mp now
      exact List.mem_append_right _ (List.mem_map.mpr ⟨member, drawnHere, rfl⟩)

theorem emits_reserveProfiles (config : WarmPoolConfig) (profiles : List WarmPoolProfile)
    (reservations : List CreationReservation) (record : WarmPoolRecord) (es : Log WarmStore)
    (before : ReservedSoFar old past reservations record es) (bound : SpareBound config old record)
    (desired : ∀ profile ∈ profiles, profile.key ∈ desiredKeys config) :
    Emits (UpkeepRule u)
      (yields fun outcome later => ReservedSoFar old past outcome.1 outcome.2 later ∧
        SpareBound config old outcome.2)
      (reserveProfiles config profiles reservations record) es := by
  induction profiles generalizing reservations record es with
  | nil => exact ⟨before, bound⟩
  | cons profile rest ih =>
    have here := desired profile (.head _)
    have later : ∀ profile ∈ rest, profile.key ∈ desiredKeys config :=
      fun other inside => desired other (.tail _ inside)
    refine ⟨trivial, fun now => ?_⟩
    change Emits _ _ (if _ then _ else _) _
    split
    · have kept := before.push profile [] (drewSince_now now)
      have pushed := bound.push here fun some : ([] : List WarmPoolMember) ≠ [] => absurd rfl some
      refine ih _ _ _ ?_ ?_ later
      · simpa using kept
      · simpa using pushed
    · refine emits_then (emits_createMembers config _) ?_
      rintro members es' _ ⟨drew, length⟩
      refine ih _ _ _ (before.push profile members ?_) (bound.push here ?_) later
      · simpa using (drewSince_now now).trans drew
      · intro some
        have positive := List.length_pos_iff.mpr some
        unfold spareCount
        omega

/-- A creation the client founded. -/
def FoundedCreation (b : String) (es : Log WarmStore) (creation : CreationReservation) :
    Prop :=
  Founded b es creation.profile.key creation.member.sandboxId

theorem emits_reserveCreations (enabled : call.service.config.enabled = true)
    (trimmed : Trimmed call.service.backend call.service.config past) :
    Emits (UpkeepRule ⟨call, founded, CreatesMembers⟩)
      (yields fun reservations es => ∀ creation ∈ reservations,
        FoundedCreation call.service.backend es creation) (reserveCreations call.service) past := by
  refine emits_mutateWarmPool ?_
  intro object es grown _
  have start : ReservedSoFar (storedRecord object) es [] (storedRecord object) es :=
    ⟨id, [], .refl _, .none es, by simp⟩
  refine (emits_reserveProfiles call.service.config _ [] _ es start
    (fun pool inside => .inl ⟨pool, inside, rfl, Nat.le_refl _⟩) ?_).returns ?_
  · intro profile inside
    rw [desiredKeys, if_pos enabled]
    exact List.mem_map_of_mem inside
  rintro ⟨reservations, record⟩ later more
    ⟨⟨tidy, added, same, ⟨pre, rfl, quiet, drew⟩, listed⟩, bound⟩
  refine ⟨?_, tidy, fun _ => ⟨.inr ⟨pre, es, added, rfl, quiet, same, drew⟩, ?_, bound, ?_⟩, ?_⟩
  · -- an unchanged record means that nothing was added
    intro unchanged creation inside
    have length := same.length_eq
    rw [unchanged, List.length_append] at length
    have none : added = [] := List.eq_nil_of_length_eq_zero (by omega)
    rw [none] at listed
    exact absurd (listed creation inside) List.not_mem_nil
  · intro key member stored gone
    exact absurd rfl (gone _ (same.symm.subset (List.mem_append_right _ stored)))
  · exact fun _ => trimmed.sublist (grown.trans more).sublist
  · intro tag creation inside
    have entry := listed creation inside
    have named : creation.member.sandboxId ∈ drawn pre :=
      drew.subset (List.mem_reverse.mpr (List.mem_map.mpr ⟨_, entry, rfl⟩))
    obtain ⟨newer, older, rfl⟩ := split_of_drawn named
    refine ⟨record, writeCondition object, tag, newer, older ++ es,
      [], creation.member, by simp, ?_, same.symm.subset (List.mem_append_left _ entry), rfl⟩
    exact fun ev member => quiet ev (List.mem_append_left _ member)

/-! ## Fills -/

section Fills

variable {own : String → SandboxId → Prop} {creation : CreationReservation}

theorem keeps_updatePool (changes : ∀ record es, Emits (RefillRule call own) (yields fun pool es' =>
      Allowed call call.service own es' record ⟨setWarmPool pool record.pools⟩)
      (change (getOrCreateWarmPool record key)) es) :
    Keeps (RefillRule call own) (updatePool call.service.backend key change) := by
  intro past
  refine (emits_mutateWarmPool (P := fun _ _ => True) ?_).forget
  intro object es _ read
  refine emits_then (changes (storedRecord object) es) ?_
  intro pool es' more allowed
  exact settles_of_allowed (read.grow more) tidy_setWarmPool (fun _ => allowed) fun _ _ _ => trivial

theorem keeps_sideBySide (first : Keeps (RefillRule call own) p)
    (second : Keeps (RefillRule call own) q) : Keeps (RefillRule call own) (sideBySide p q) :=
  fun past => emits_interleave refillRule_sublist (fun _ => trivial) (first past) (second past)
    (.refl _) (.refl _)

section

variable (mine : own creation.profile.key creation.member.sandboxId)
include mine

theorem keeps_reclaimCreation :
    Keeps (RefillRule call own) (reclaimCreation call.service creation) := by
  refine Keeps.bind (keeps_updatePool fun record es => ?_) fun _ => keeps_cleanup
  exact allowed_reclaimPool mine

theorem keeps_publishCreation :
    Keeps (RefillRule call own) (publishCreation call.service creation) := by
  refine keeps_readReference.bind fun reference => ?_
  refine Keeps.bind (keeps_updateMember fun current es guarded => ?_) fun published => Keeps.ite
    (keeps_updatePool fun record _ => allowed_bookkeeping (getOrCreate_key record _) rfl)
    (keeps_ignoringErrors (keeps_reclaimCreation mine))
  refine emits_seq (keeps_isExpired current es) ?_
  intro expired later _ _
  split
  · rintro n ⟨⟩
  · refine ⟨trivial, fun now => ?_⟩
    rintro n ⟨⟩
    refine .advanced _ rfl ?_ ?_ <;> rw [guarded.stated]
    · exact Nat.zero_le _
    · decide

theorem keeps_failCreation : Keeps (RefillRule call own) (failCreation call.service creation) := by
  refine (keeps_ignoringErrors (keeps_updatePool fun record es => ?_)).bind fun _ =>
    keeps_ignoringErrors (keeps_reclaimCreation mine)
  exact ⟨trivial, fun now => allowed_bookkeeping (getOrCreate_key record _) rfl⟩

theorem keeps_fill : Keeps (RefillRule call own) (fill call.service creation) := by
  have reclaims : Keeps (RefillRule call own)
      (ignoringErrors (reclaimCreation call.service creation)) :=
    keeps_ignoringErrors (keeps_reclaimCreation mine)
  refine fun _ => ⟨trivial, fun outcome => ?_⟩
  cases outcome with
  | booted => exact (keeps_publishCreation mine).tryCatch (fun _ => reclaims) _
  | failed => exact keeps_failCreation mine _
  | timedOut =>
    have late : Keeps (RefillRule call own) (finishLate call.service creation) :=
      fun _ => ⟨trivial, fun _ => reclaims _⟩
    exact keeps_sideBySide late (keeps_failCreation mine) _

end

theorem keeps_fillAll
    (mine : ∀ creation ∈ creations, own creation.profile.key creation.member.sandboxId) :
    Keeps (RefillRule call own) (fillAll call.service creations) := by
  induction creations with
  | nil => exact keeps_ret
  | cons creation rest ih =>
    exact keeps_sideBySide (keeps_fill (mine creation (.head _)))
      (ih fun other inside => mine other (.tail _ inside))

end Fills

/-! ## Sweeps -/

/-- What a sweep knows after it asked for the session of a claimed member. -/
theorem emits_findSession : Emits (UpkeepRule u)
      (yields fun found es => ∃ answer,
        es = ⟨.ask (.getSession destination.project destination.session), answer⟩ :: past ∧
        (∀ session ∈ found, answer = .ok session) ∧
        (found = none → ∃ err : HubError, answer = .error err ∧ err.isNotFound = true))
      (findSession destination) past := by
  refine ⟨trivial, fun answer => ?_⟩
  cases answer with
  | ok session =>
    refine ⟨_, rfl, ?_, fun none => by cases none⟩
    rintro found ⟨⟩
    rfl
  | error err =>
    change Emits _ _ (if _ then _ else _) _
    split
    · next missing => exact ⟨_, rfl, by rintro _ ⟨⟩, fun _ => ⟨err, rfl, missing⟩⟩
    · trivial

theorem keeps_isReserved : Keeps (UpkeepRule u)
      (isReserved member destination reservations) := by
  induction reservations with
  | nil => exact keeps_ret
  | cons reservation rest ih =>
    exact Keeps.ite (keeps_dateNow.bind fun _ => Keeps.ite keeps_ret ih) ih

theorem keeps_retireAndCleanup :
    Keeps (UpkeepRule u) (retireAndCleanup u.service.backend member) :=
  keeps_retireFree.bind fun _ => keeps_cleanup

theorem keeps_retireOverdue :
    Keeps (UpkeepRule u) (retireOverdue u.service.backend member) :=
  keeps_dateNow.bind fun _ => Keeps.ite keeps_ret keeps_retireAndCleanup

theorem keeps_sweepUnowned :
    Keeps (UpkeepRule u) (sweepUnowned u.service member destination) := by
  refine Keeps.bind ?_ fun reservations => ?_
  · exact Keeps.ite (fun _ => ⟨trivial, fun answer => keeps_orRaise answer _⟩) keeps_ret
  · exact keeps_isReserved.bind fun _ => Keeps.ite keeps_ret keeps_retireOverdue

theorem emits_sweepClaimed (saw : Saw u.service.backend key member past) :
    Emits (UpkeepRule u) (fun _ _ => True)
      (sweepClaimed u.service member) past := by
  unfold sweepClaimed destinationOf
  cases claimed : member.destination with
  | none => trivial
  | some destination =>
    change Emits _ _ (findSession destination >>= _) past
    refine emits_seq emits_findSession ?_
    rintro found es grown ⟨answer, rfl, told, missing⟩
    have unowned : Keeps (UpkeepRule u)
        (sweepUnowned u.service member destination) := keeps_sweepUnowned
    have removes (why : (∃ session : Session, answer = .ok session ∧
          session.sandboxId = some member.sandboxId ∧ session.sandboxReclaimedAt ≠ none) ∨
        ∃ err : HubError, answer = .error err ∧ err.isNotFound = true ∧ member.assigned = true) :
        Emits (UpkeepRule u) (fun _ _ => True)
          (removeMember u.service.backend member)
          (⟨.ask (.getSession destination.project destination.session), answer⟩ :: past) := by
      refine keeps_removeMember member (.inr ?_) fun m named tokened => .inr ?_
      · refine ⟨key, member, destination, saw.sublist grown.sublist, rfl, rfl, claimed, ?_⟩
        rcases why with ⟨session, rfl, holds, reclaimed⟩ | ⟨err, rfl, gone, _⟩
        · exact .inl ⟨session, holds, reclaimed, .head _⟩
        · exact .inr ⟨err, gone, .head _⟩
      · exact ⟨key, member, destination, answer, [], past, rfl, saw, named.symm, tokened.symm,
          claimed, by rw [named]; exact why⟩
    cases found with
    | some session =>
      dsimp only
      split
      · next holds =>
        split
        · trivial
        · next reclaimed => exact removes (.inl ⟨session, told session rfl, holds, reclaimed⟩)
      · exact unowned _
    | none =>
      dsimp only
      split
      · next assigned =>
        obtain ⟨err, same, gone⟩ := missing rfl
        exact removes (.inr ⟨err, same, gone, assigned⟩)
      · exact unowned _

theorem keeps_checkHealth :
    Keeps (UpkeepRule u) (checkHealth u.service.backend member) := by
  refine Keeps.tryCatch ?_ fun _ => keeps_retireFree.map
  refine keeps_connect.bind fun _ => keeps_reconnectAndProbe.bind fun _ => ?_
  refine keeps_readReference.bind fun reference => ?_
  refine Keeps.bind (keeps_updateMember fun current es guarded => ⟨trivial, fun now => ?_⟩) fun _ =>
    keeps_ret
  rintro n ⟨⟩
  refine .advanced _ rfl (Nat.le_refl _) ?_
  rw [guarded.stated]
  decide

theorem keeps_sweepReady :
    Keeps (UpkeepRule u) (sweepReady u.service key member) := by
  refine Keeps.bind ?_ fun unwanted => ?_
  · exact Keeps.ite keeps_ret keeps_dateNow.map
  · refine Keeps.ite keeps_retireAndCleanup (keeps_dateNow.bind fun _ => ?_)
    refine Keeps.ite (keeps_checkHealth.bind fun _ => ?_) keeps_ret
    exact Keeps.ite keeps_ret keeps_cleanup

theorem emits_sweepMember (saw : Saw u.service.backend key member past) :
    Emits (UpkeepRule u) (fun _ _ => True)
      (sweepMember u.service key member) past := by
  unfold sweepMember
  split
  · exact emits_sweepClaimed saw
  · exact keeps_retireOverdue past
  · exact keeps_sweepReady past
  · exact keeps_cleanup past

theorem emits_sweepMembers
    (saw : ∀ key member, (key, member) ∈ entries → Saw u.service.backend key member past) :
    Emits (UpkeepRule u) (fun _ _ => True)
      (sweepMembers u.service entries) past := by
  induction entries generalizing past with
  | nil => trivial
  | cons entry rest ih =>
    obtain ⟨key, member⟩ := entry
    refine emits_seq (Q := fun _ _ => True) ?_ ?_
    · rw [ignoringErrors, emits_tryCatch]
      refine (emits_sweepMember (saw key member (.head _))).mono ?_
      intro out es _
      cases out <;> trivial
    · intro _ es grown _
      exact ih fun key member inside => (saw key member (.tail _ inside)).sublist grown.sublist

theorem emits_trim : Emits (UpkeepRule u)
      (yields fun _ es => Trimmed u.service.backend u.service.config es)
      (mutateWarmPool u.service.backend fun record =>
        pure ((), ⟨record.pools.map (trimPool u.service.config)⟩)) past := by
  refine emits_mutateWarmPool fun object es _ read => ?_
  have allowed : Allowed u.call u.service (u.founded es) es (storedRecord object)
      ⟨(storedRecord object).pools.map (trimPool u.service.config)⟩ := allowed_trim
  refine ⟨?_, tidy_map (fun _ => rfl), fun _ => ⟨.inl allowed.change, allowed.kept⟩, ?_⟩
  · intro unchanged
    cases object with
    | none => exact .inl read
    | some object =>
      refine .inr ⟨object.value, object.etag, .inl read, ?_⟩
      intro pool inside
      rw [← show (WarmPoolRecord.mk (object.value.pools.map (trimPool u.service.config))) =
        object.value from unchanged] at inside
      obtain ⟨before, _, rfl⟩ := List.mem_map.mp inside
      exact spareCount_trimPool.1
  · intro tag
    refine .inr ⟨_, tag, .inr ⟨_, .head _⟩, ?_⟩
    intro pool inside
    obtain ⟨before, _, rfl⟩ := List.mem_map.mp inside
    exact spareCount_trimPool.1

theorem keeps_sweep : Keeps (PoolRule (.sweep service)) (sweep service) := by
  intro past
  refine emits_seq (emits_trim) ?_
  intro _ es _ trimmed
  refine emits_seq (emits_readWarmPool) ?_
  intro snapshot es' more saw
  refine emits_seq (emits_sweepMembers saw) ?_
  intro _ later rest _
  split
  · next enabled =>
    refine emits_seq (emits_reserveCreations enabled (trimmed.sublist (more.trans rest).sublist)) ?_
    intro reservations latest _ mine
    have fills : Keeps (RefillRule (.sweep service) (Founded service.backend latest))
        (fillAll service reservations) := keeps_fillAll mine
    exact (fills latest).weaken fun _ _ grown => poolRule_of_refillRule grown
  · trivial

/-- What a call has established when it returns. -/
def WarmEnd (call : WarmCall) : Option WarmPoolClaim → Log WarmStore → Prop
  | some held, es => Reserves call.service.backend held.member es
  | none, es => ∀ service held, call = .handoff service held →
      SawAssigned service.backend held.member es

theorem warmCall_keeps_rule : Emits (PoolRule call) (yields (WarmEnd call)) call.start [] := by
  have yielded {call : WarmCall} (other : ∀ service held, call ≠ .handoff service held)
      {p : Hub WarmStore (Option WarmPoolClaim)}
      (alone : Emits (PoolRule call) (yields fun found es => ∀ held, found = some held →
        Reserves call.service.backend held.member es) p []) :
      Emits (PoolRule call) (yields (WarmEnd call)) p [] := by
    refine alone.returns ?_
    intro found es _ reserved
    cases found with
    | none => exact fun service held named => absurd named (other service held)
    | some held => exact reserved held rfl
  have silent {call : WarmCall} (other : ∀ service held, call ≠ .handoff service held)
      {p : Hub WarmStore Unit} (alone : Keeps (PoolRule call) p) :
      Emits (PoolRule call) (yields (WarmEnd call)) (do p; pure none) [] :=
    emits_seq (alone []) (fun _ _ _ _ service held named => absurd named (other service held))
  cases call with
  | reserve service request => exact yielded (by simp) emits_reserve
  | claim service request => exact yielded (by simp) emits_claim
  | probe service held => exact silent (by simp) keeps_probe
  | handoff service held =>
    refine emits_then emits_handoff ?_
    rintro _ _ _ assigned _ _ ⟨⟩
    exact assigned
  | abandon service held => exact silent (by simp) keeps_abandon
  | sweep service => exact silent (by simp) keeps_sweep

end MarimoHub.Guarantees
