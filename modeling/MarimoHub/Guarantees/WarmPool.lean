import MarimoHub.Guarantees.WarmPoolSweeps

/-!
# Ownership of warm sandboxes

Any number of reservations, probes, handoffs, abandonments and sweeps on any replicas. A member
is added once, under an identifier drawn for it, and its state only moves forward: from creating
through ready and claimed to retiring, also when it leaves the record and a fill puts it back.
-/

namespace MarimoHub.Guarantees

open ObjectStore Source

/-- The record of a backend; an absent object is an empty one. -/
def recordAt (b : String) (t : Trace WarmStore) : WarmPoolRecord := (lookup b t).getD {}

/-- What every call does alone, along a run from an empty store. -/
structure PoolHistory (a : Adapter WarmStore) (calls : Nat → WarmCall) (t : Trace WarmStore) :
    Prop where
  accepted : Along (Accepts a) t
  rule : ∀ x past i, (x :: past) <:+ t → x.thread = some i →
    PoolRule (calls i) (own i past) x.op
  threads : ∀ x past, (x :: past) <:+ t → ∃ i, x.thread = some i

variable {u past : Trace WarmStore} {x : Event WarmStore} {b key b' key' : String}
  {v : WarmPoolRecord} {member member' claimed : WarmPoolMember} {i : Nat} {id : SandboxId}
  {c : Config WarmStore HubError (Option WarmPoolClaim)}

section Runs

variable {a : Adapter WarmStore} {calls : Nat → WarmCall} {t : Trace WarmStore}

theorem PoolHistory.of_reaches (reach : Reaches a ⟨[], fun i => (calls i).start⟩ c) :
    PoolHistory a calls c.trace := by
  have history := reach.history (Seeds.empty a)
  refine ⟨history.accepted, ?_, ?_⟩
  · intro x past i moment mine
    exact history.guarantee (fun i => warmCall_keeps_rule) moment mine
  · intro x past moment
    exact history.thread_of_moment moment (List.nil_suffix)

theorem PoolHistory.suffix (history : PoolHistory a calls t) (inside : u <:+ t) :
    PoolHistory a calls u where
  accepted := history.accepted.suffix inside
  rule x past i moment := history.rule x past i (moment.trans inside)
  threads x past moment := history.threads x past (moment.trans inside)

/-- What a write did to a backend's record. -/
structure WroteRecord (call : WarmCall) (b : String) (es : Log WarmStore)
    (old new : WarmPoolRecord) : Prop where
  backend : call.service.backend = b
  tidy : Tidy old new
  change : Change call b (Founded b es) es old new ∨ CreatesMembers es old new

theorem ReadFor.current {cond : Cond WarmStore}
    (read : ReadFor b old cond (own i past)) (accepted : Along (Accepts a) (x :: past))
    (shape : x.toEv = ⟨.put b v cond, r⟩) (applied : x.applied = true) : old = recordAt b past := by
  unfold recordAt
  rcases read with ⟨tag, rfl, found⟩ | ⟨rfl, rfl⟩
  · rw [(accepted.1.matched shape applied).1, Issued.value (.inl found) accepted.2]
    rfl
  · rw [accepted.1.created shape applied]
    rfl

theorem PoolHistory.at_effect (history : PoolHistory a calls t) (moment : x :: past <:+ t)
    (effect : x.effect b = some new) :
    ∃ i v, x.thread = some i ∧ new = some v ∧ IsPut x.toEv ∧
      WroteRecord (calls i) b (own i past) (recordAt b past) v := by
  obtain ⟨i, mine⟩ := history.threads x past moment
  obtain ⟨v, cond, r, rfl, shape, applied, rfl, old, read, tidy, change, _⟩ :=
    written_under (history.rule x past i moment mine) effect False.elim
  have current := read.current (history.accepted.suffix moment) shape applied
  exact ⟨i, v, mine, rfl, ⟨_, _, _, _, shape⟩, rfl, current ▸ tidy, current ▸ change⟩

theorem recordAt_of_effect (past : Trace WarmStore) (effect : x.effect b = some (some v)) :
    recordAt b (x :: past) = v := by
  rw [recordAt, lookup_of_effect effect, Option.getD_some]

theorem recordAt_of_no_effect (past : Trace WarmStore) (none : x.effect b = none) :
    recordAt b (x :: past) = recordAt b past := by
  rw [recordAt, lookup_of_no_effect none, recordAt]

theorem Saw.held (saw : Saw b key member (own i past)) (accepted : Along (Accepts a) past) :
    ∃ u, u <:+ past ∧ (key, member) ∈ (recordAt b u).entries := by
  obtain ⟨record, tag, issued, listed⟩ := saw
  obtain ⟨u, inside, found⟩ := issued.held accepted
  exact ⟨u, inside, by rw [recordAt, found]; exact listed⟩

/-! ## Where members come from -/

/-- The write that added a member, right after its identifier was drawn. -/
structure FoundedAt (b key : String) (id : SandboxId) (x : Event WarmStore)
    (past : Trace WarmStore) : Prop where
  mine : ∃ i pre rest, x.thread = some i ∧ own i past = pre ++ ⟨.mint, id⟩ :: rest ∧
    ∀ ev ∈ pre, ¬ IsPut ev
  wrote : ∃ v member, x.effect b = some (some v) ∧ (key, member) ∈ v.entries ∧
    member.sandboxId = id

def MemberOrigin (b key : String) (id : SandboxId) (t : Trace WarmStore) : Prop :=
  ∃ x past, (x :: past) <:+ t ∧ FoundedAt b key id x past

theorem MemberOrigin.grow (origin : MemberOrigin b key id u) (inside : u <:+ t) :
    MemberOrigin b key id t := by
  obtain ⟨x, past, moment, founded⟩ := origin
  exact ⟨x, past, moment.trans inside, founded⟩

theorem isPut_of_effect (effect : x.effect b = some (some v)) : IsPut x.toEv := by
  obtain ⟨cond, r, shape, _⟩ := effect_write effect
  exact ⟨b, v, cond, r, shape⟩

theorem founded_once (accepted : Along (Accepts a) t)
    (left : x :: past <:+ t) (right : y :: q <:+ t) (first : FoundedAt b key id x past)
    (second : FoundedAt b' key' id y q) : x :: past = y :: q := by
  obtain ⟨i, pre, rest, mine, split, quiet⟩ := first.mine
  obtain ⟨j, pre', rest', theirs, split', quiet'⟩ := second.mine
  obtain ⟨v, _, wrote, _⟩ := first.wrote
  obtain ⟨v', _, wrote', _⟩ := second.wrote
  exact first_after_mint accepted left right mine theirs (isPut_of_effect wrote)
    (isPut_of_effect wrote') split quiet split' quiet'

theorem effect_key (left : x.effect b = some (some v))
    (right : x.effect b' = some (some v')) : b = b' ∧ v = v' := by
  obtain ⟨_, _, shape, _⟩ := effect_write left
  obtain ⟨_, _, shape', _⟩ := effect_write right
  have same := congrArg Ev.op (shape.symm.trans shape')
  injection same with key value
  exact ⟨key, value⟩

theorem Founded.origin (founded : Founded b (own i t) key id) (accepted : Along (Accepts a) t) :
    MemberOrigin b key id t := by
  obtain ⟨v, cond, tag, pre, rest, later, member, split, quiet, listed, named⟩ := founded
  obtain ⟨x, past, moment, mine, before, _, effect, _⟩ := own_written accepted
    (split ▸ List.suffix_append later _)
  exact ⟨x, past, moment, ⟨i, pre, rest, mine, before, quiet⟩, v, member, effect, listed, named⟩

/-! ## The invariant -/

structure PoolInvariant (b : String) (t : Trace WarmStore) : Prop where
  distinct : ((recordAt b t).pools.map WarmPool.key).Nodup
  unique : ((recordAt b t).entries.map fun e => e.2.sandboxId).Nodup
  origin : ∀ key member, (key, member) ∈ (recordAt b t).entries →
    MemberOrigin b key member.sandboxId t

theorem PoolInvariant.same (invariant : PoolInvariant b t)
    (left : (key, member) ∈ (recordAt b t).entries)
    (right : (key', member') ∈ (recordAt b t).entries)
    (named : member.sandboxId = member'.sandboxId) : key = key' ∧ member = member' := by
  have equal := List.inj_on_of_nodup_map invariant.unique left right named
  exact ⟨congrArg Prod.fst equal, congrArg Prod.snd equal⟩

theorem map_id_of_inPlace (steps : InPlace (MemberStep call) old new) :
    (new.map fun e => e.2.sandboxId) = old.map fun e => e.2.sandboxId := by
  induction steps with
  | nil => rfl
  | cons step _ ih => rw [List.map_cons, List.map_cons, ih, step.2.id_eq]

theorem created_fresh (accepted : Along (Accepts a) (x :: past))
    (mine : x.thread = some i) (put : IsPut x.toEv) (split : own i past = pre ++ rest)
    (quiet : ∀ ev ∈ pre, ¬ IsPut ev) (drew : id ∈ drawn pre) : ¬ MemberOrigin b key id past := by
  rintro ⟨y, q, moment, founded⟩
  obtain ⟨newer, older, rfl⟩ := split_of_drawn drew
  obtain ⟨j, pre', rest', theirs, split', quiet'⟩ := founded.mine
  obtain ⟨v, _, wrote, _⟩ := founded.wrote
  rw [List.append_assoc] at split
  have same := first_after_mint accepted List.suffix_rfl (moment.cons)
    mine theirs put (isPut_of_effect wrote) split
    (fun ev member => quiet ev (List.mem_append_left _ member)) split' quiet'
  exact not_earlier same.symm moment

theorem PoolInvariant.created (accepted : Along (Accepts a) (x :: past))
    (before : PoolInvariant b past) (mine : x.thread = some i) (effect : x.effect b = some (some v))
    (tidy : Tidy (recordAt b past) v) (creates : CreatesMembers (own i past) (recordAt b past) v) :
    PoolInvariant b (x :: past) := by
  obtain ⟨pre, rest, added, split, quiet, same, drew⟩ := creates
  have put := isPut_of_effect effect
  have drawnHere (e : Entry) (inside : e ∈ added) : e.2.sandboxId ∈ drawn pre :=
    drew.subset (List.mem_reverse.mpr (List.mem_map.mpr ⟨e, inside, rfl⟩))
  constructor
  · rw [recordAt_of_effect past effect]
    exact tidy before.distinct
  · rw [recordAt_of_effect past effect, (same.map _).nodup_iff, List.map_append, List.nodup_append]
    refine ⟨?_, before.unique, ?_⟩
    · have all := drawn_nodup accepted.2 i
      rw [split, drawn_append] at all
      exact List.nodup_reverse.mp ((List.nodup_append.mp all).1.sublist drew)
    · intro id new id' old named
      obtain ⟨e, inside, rfl⟩ := List.mem_map.mp new
      obtain ⟨⟨key, member⟩, stored, rfl⟩ := List.mem_map.mp old
      have known := before.origin key member stored
      rw [← named] at known
      exact created_fresh accepted mine put split quiet (drawnHere e inside) known
  · intro key member listed
    rw [recordAt_of_effect past effect] at listed
    rcases List.mem_append.mp (same.subset listed) with new | old
    · obtain ⟨newer, older, shape⟩ := split_of_drawn (drawnHere _ new)
      refine ⟨x, past, List.suffix_rfl, ⟨i, newer, older ++ rest, mine, ?_, ?_⟩, v, member, effect,
        listed, rfl⟩
      · rw [split, shape, List.append_assoc, List.cons_append]
      · exact fun ev inside => quiet ev (shape ▸ List.mem_append_left _ inside)
    · exact (before.origin key member old).grow (List.suffix_cons x past)

theorem restored_absent (accepted : Along (Accepts a) past)
    (all : ∀ u, u <:+ past → PoolInvariant b u) (founded : Founded b (own i past) key id)
    (absent : ∀ m ∈ (getOrCreateWarmPool (recordAt b past) key).members, m.sandboxId ≠ id)
    (listed : (key', member) ∈ (recordAt b past).entries) : member.sandboxId ≠ id := by
  intro named
  have here := all past List.suffix_rfl
  obtain ⟨x, q, moment, first⟩ := founded.origin accepted
  obtain ⟨y, q', moment', second⟩ := here.origin key' member listed
  rw [named] at second
  cases founded_once accepted moment moment' first second
  -- the write that added it put it into one pool
  obtain ⟨v, m, wrote, inside, same⟩ := first.wrote
  obtain ⟨v', m', wrote', inside', same'⟩ := second.wrote
  cases (effect_key wrote wrote').2
  rw [← recordAt_of_effect q wrote] at inside inside'
  obtain ⟨rfl, _⟩ := (all _ moment).same inside inside' (same.trans same'.symm)
  exact absent member (mem_pool_of_entries here.distinct listed) named

theorem PoolHistory.invariant (history : PoolHistory a calls t) (b : String) :
    ∀ u, u <:+ t → PoolInvariant b u := by
  intro u below
  refine every_moment (P := PoolInvariant b) ⟨List.nodup_nil, List.nodup_nil, nofun⟩ ?_
  intro x past moment all
  have history := history.suffix (moment.trans below)
  have before := all past List.suffix_rfl
  cases effect : x.effect b with
  | none =>
    have same := recordAt_of_no_effect past effect
    refine ⟨same ▸ before.distinct, same ▸ before.unique, ?_⟩
    intro key member listed
    exact (before.origin key member (same ▸ listed)).grow (List.suffix_cons x past)
  | some new =>
    obtain ⟨i, v, mine, rfl, _, _, tidy, change | creates⟩ :=
      history.at_effect List.suffix_rfl effect
    · have accepted := history.accepted
      have same := recordAt_of_effect past effect
      have kept {key : String} {member : WarmPoolMember}
          (listed : (key, member) ∈ (recordAt b past).entries) :
          MemberOrigin b key member.sandboxId (x :: past) :=
        (before.origin key member listed).grow (List.suffix_cons x past)
      refine ⟨same ▸ tidy before.distinct, ?_, ?_⟩ <;> rw [same]
      · cases change with
        | stepped steps => exact map_id_of_inPlace steps ▸ before.unique
        | dropped member _ filtered =>
          rw [filtered]
          exact before.unique.sublist (List.filter_sublist.map _)
        | restored key member _ founded absent perm =>
          rw [(perm.map _).nodup_iff, List.map_cons, List.nodup_cons]
          refine ⟨?_, before.unique⟩
          intro again
          obtain ⟨⟨key', member'⟩, listed, named⟩ := List.mem_map.mp again
          exact restored_absent accepted.2 all founded absent listed named
      · intro key member listed
        cases change with
        | stepped steps =>
          obtain ⟨current, stored, step⟩ := steps.source listed
          rw [step.id_eq]
          exact kept stored
        | dropped gone _ filtered =>
          rw [filtered] at listed
          exact kept (List.mem_of_mem_filter listed)
        | restored key' back _ founded _ perm =>
          rcases List.mem_cons.mp (perm.subset listed) with new | stored
          · cases new
            exact (founded.origin accepted.2).grow (List.suffix_cons x past)
          · exact kept stored
    · exact before.created history.accepted mine effect tidy creates

/-! ## States only move forward -/

/-- Whatever stands for a sandbox later is in the same or a later state. -/
theorem PoolHistory.stage_le (history : PoolHistory a calls t) (inside : u <:+ t)
    (earlier : (key, member) ∈ (recordAt b u).entries)
    (later : (key', member') ∈ (recordAt b t).entries)
    (named : member'.sandboxId = member.sandboxId) : stage member.state ≤ stage member'.state := by
  have origin := ((history.invariant b u inside).origin key member earlier)
  refine lasts (P := fun t => ∀ key' member', (key', member') ∈ (recordAt b t).entries →
    member'.sandboxId = member.sandboxId → stage member.state ≤ stage member'.state) inside ?_ ?_
    key' member' later named
  · intro key' member' listed same
    have equal := ((history.invariant b u inside).same earlier listed same.symm).2
    exact Nat.le_of_eq (congrArg (fun item => stage item.state) equal)
  · intro x past moment above before key' member' listed same
    cases effect : x.effect b with
    | none =>
      rw [recordAt_of_no_effect past effect] at listed
      exact before key' member' listed same
    | some new =>
      obtain ⟨i, v, mine, rfl, put, _, _, change | creates⟩ := history.at_effect moment effect
      · rw [recordAt_of_effect past effect] at listed
        cases change with
        | stepped steps =>
          obtain ⟨current, stored, step⟩ := steps.source listed
          exact Nat.le_trans (before key' current stored (step.id_eq ▸ same)) step.stage_le
        | dropped gone _ filtered =>
          rw [filtered] at listed
          exact before key' member' (List.mem_of_mem_filter listed) same
        | restored key back retiring _ _ perm =>
          rcases List.mem_cons.mp (perm.subset listed) with new | stored
          · cases new
            rw [retiring]
            exact stage_le_retiring
          · exact before key' member' stored same
      · rw [recordAt_of_effect past effect] at listed
        obtain ⟨pre, rest, added, split, quiet, perm, drew⟩ := creates
        rcases List.mem_append.mp (perm.subset listed) with new | stored
        · have drawnHere : member'.sandboxId ∈ drawn pre :=
            drew.subset (List.mem_reverse.mpr (List.mem_map.mpr ⟨_, new, rfl⟩))
          exact absurd (origin.grow above) (same ▸ created_fresh (history.accepted.suffix moment)
            mine put split quiet drawnHere)
        · exact before key' member' stored same

theorem same_backend (accepted : Along (Accepts a) t) (left : MemberOrigin b key id t)
    (right : MemberOrigin b' key' id t) : b = b' := by
  obtain ⟨x, past, moment, first⟩ := left
  obtain ⟨y, q, moment', second⟩ := right
  cases founded_once accepted moment moment' first second
  obtain ⟨v, _, wrote, _⟩ := first.wrote
  obtain ⟨v', _, wrote', _⟩ := second.wrote
  exact (effect_key wrote wrote').1

/-! ## Reservations -/

theorem Reserves.moment (reserves : Reserves b claimed (own i t)) (accepted : Along (Accepts a) t) :
    ∃ x past key ready, x :: past <:+ t ∧ x.thread = some i ∧
      (key, ready) ∈ (recordAt b past).entries ∧ ready.state = .ready ∧
      ready.sandboxId = claimed.sandboxId ∧
      (key, claimed) ∈ (recordAt b (x :: past)).entries ∧ claimed.state = .claimed := by
  obtain ⟨old, v, tag, tag', key, ready, wrote, read, before, waiting, named, after, stated⟩ :=
    reserves
  obtain ⟨x, past, moment, mine, shape⟩ := exists_own_mem wrote
  obtain ⟨g, q, earlier, _, answer⟩ := exists_own_mem read
  have responds := (accepted.at moment).responds_of shape
  obtain ⟨found, same⟩ := (accepted.at moment).matched shape responds.2.2
  have stored : recordAt b past = old := by
    rw [recordAt, found, Option.getD_some, ((accepted.at earlier).tagged answer).2]
  have effect : x.effect b = some (some v) := by simp [effect_put shape, responds.2.2]
  exact ⟨x, past, key, ready, moment, mine, stored ▸ before, waiting, named,
    recordAt_of_effect past effect ▸ after, stated⟩

/-- A sandbox that was reserved is not ready again. -/
theorem PoolHistory.reserved_once (history : PoolHistory a calls t) (differ : i ≠ j)
    (first : Reserves b claimed (own i t))
    (second : Reserves b claimed' (own j t)) : claimed.sandboxId ≠ claimed'.sandboxId := by
  intro named
  obtain ⟨x, past, _, ready, moment, mine, before, waiting, same, after, stated⟩ :=
    first.moment history.accepted
  obtain ⟨y, q, _, ready', moment', theirs, before', waiting', same', after', stated'⟩ :=
    second.moment history.accepted
  rcases moments_ordered moment moment' with equal | earlier | later
  · cases equal
    exact differ (Option.some.inj (mine.symm.trans theirs))
  · have forward := (history.suffix moment'.past).stage_le earlier after
      before' (same'.trans named.symm)
    rw [stated, waiting'] at forward
    exact absurd forward (by decide)
  · have forward := (history.suffix moment.past).stage_le later after' before (same.trans named)
    rw [stated', waiting] at forward
    exact absurd forward (by decide)

/-! ## Handoffs -/

/-- The record shows the sandbox as handed off under the claim's token. -/
def HandedOff (b : String) (member : WarmPoolMember) (t : Trace WarmStore) : Prop :=
  ∃ key current, (key, current) ∈ (recordAt b t).entries ∧
    current.sandboxId = member.sandboxId ∧ current.token = member.token ∧
    current.state = .claimed ∧ current.assigned = true

/-- The event ends a handoff: an abandonment of the claim, or a sweep that was told that its
session has let go of the sandbox. -/
def EndsHandoff (calls : Nat → WarmCall) (b : String) (member : WarmPoolMember)
    (x : Event WarmStore) (past : Trace WarmStore) : Prop :=
  ∃ i, x.thread = some i ∧
    ((calls i).Abandons member ∨ Released b member.sandboxId member.token (own i past))

theorem PoolHistory.handoff_step (history : PoolHistory a calls t) (moment : x :: past <:+ t)
    (before : HandedOff b member past) :
    HandedOff b member (x :: past) ∨ EndsHandoff calls b member x past := by
  obtain ⟨key, current, listed, named, tokened, claimed, assigned⟩ := before
  cases effect : x.effect b with
  | none => exact .inl ⟨key, current, recordAt_of_no_effect past effect ▸ listed, named, tokened,
      claimed, assigned⟩
  | some new =>
    obtain ⟨i, v, mine, rfl, _, _, _, change⟩ := history.at_effect moment effect
    have stays (kept : (key, current) ∈ v.entries) : HandedOff b member (x :: past) :=
      ⟨key, current, recordAt_of_effect past effect ▸ kept, named, tokened, claimed, assigned⟩
    rcases change with change | ⟨_, _, added, _, _, perm, _⟩
    · cases change with
      | stepped steps =>
        obtain ⟨next, inside, step⟩ := steps.target listed
        cases step with
        | same => exact .inl (stays inside)
        | advanced _ _ _ early =>
          rw [claimed] at early
          exact absurd early (by decide)
        | assigned =>
          rw [← recordAt_of_effect past effect] at inside
          exact .inl ⟨key, _, inside, named, tokened, claimed, rfl⟩
        | retired entitled =>
          obtain ⟨service, held, called, same, token⟩ := entitled assigned
          exact .inr ⟨i, mine, .inl ⟨service, held, called, same.trans named, token.trans tokened⟩⟩
      | dropped gone why filtered =>
        by_cases target : current.sandboxId = gone.sandboxId ∧ current.token = gone.token
        · rw [← target.1, ← target.2, named, tokened] at why
          rcases why with ⟨_, seen, saw, same, retiring⟩ | released
          · -- what was seen retiring earlier cannot be claimed now
            have inside := moment.past
            obtain ⟨u, earlier, stored⟩ := saw.held (history.accepted.suffix inside)
            have forward := (history.suffix inside).stage_le earlier stored listed
              (named.trans same.symm)
            rw [retiring, claimed] at forward
            exact absurd forward (by decide)
          · exact .inr ⟨i, mine, .inr released⟩
        · refine .inl (stays ?_)
          rw [filtered]
          exact List.mem_filter.mpr ⟨listed, by simpa using not_and_or.mp target⟩
      | restored _ _ _ _ _ perm =>
        exact .inl (stays (perm.symm.subset (.tail _ listed)))
    · exact .inl (stays (perm.symm.subset (List.mem_append_right _ listed)))

/-- The call had returned `result` after the events of `past`. -/
def ReturnedBy (calls : Nat → WarmCall) (i : Nat) (past : Trace WarmStore)
    (result : Option WarmPoolClaim) : Prop :=
  Prog.Runs (calls i).start (own i past) (.ret result)

theorem ReturnedBy.ended (returned : ReturnedBy calls i past
      result) : WarmEnd (calls i) result (own i past) :=
  (warmCall_keeps_rule.runs returned).1

/-- A destroyed sandbox was seen retiring, so its handoff had ended before. -/
theorem PoolHistory.destroyed_after_end (history : PoolHistory a calls t)
    (moment : x :: past <:+ t) (saw : SawAssigned b member (own i past))
    (destroys : x.op = .ask (.destroy member.sandboxId)) :
    ∃ y q, y :: q <:+ past ∧ EndsHandoff calls b member y q := by
  have inside := moment.past
  have here := history.suffix inside
  obtain ⟨j, mine⟩ := history.threads x past moment
  have rule := history.rule x past j moment mine
  rw [destroys] at rule
  obtain ⟨_, seen, saw', named', retiring⟩ := rule
  obtain ⟨u', inside', stored'⟩ := saw'.held here.accepted
  obtain ⟨key, current, seen', named, tokened, claimed, assigned⟩ := saw
  obtain ⟨u, earlier, stored⟩ := seen'.held here.accepted
  have origin := ((here.invariant b u earlier).origin _ _ stored).grow earlier
  have origin' := ((here.invariant _ u' inside').origin _ _ stored').grow inside'
  rw [named] at origin
  rw [named'] at origin'
  cases same_backend here.accepted origin origin'
  -- the retiring state comes after the handoff
  have order : u <:+ u' := by
    rcases List.suffix_or_suffix_of_suffix earlier inside' with before | after
    · exact before
    · have forward := (here.suffix earlier).stage_le after stored' stored (named.trans named'.symm)
      rw [retiring, claimed] at forward
      exact absurd forward (by decide)
  rcases until_run order
    ⟨key, current, stored, named, tokened, claimed, assigned⟩
    (fun y q at_y _ before => here.handoff_step (at_y.trans inside') before) with still | ended
  · obtain ⟨key', current', stored'', named'', _, claimed', _⟩ := still
    have same := ((here.invariant _ u' inside').same stored' stored'' (named'.trans named''.symm)).2
    rw [same, claimed'] at retiring
    cases retiring
  · obtain ⟨y, q, at_y, _, _, ends⟩ := ended
    exact ⟨y, q, at_y.trans inside', ends⟩

end Runs

/-- Any number of warm-pool calls on any replicas, from an empty store. Two reservations never
yield the same sandbox. Once a handoff has returned, the pool destroys the sandbox only after the
same claim was abandoned, or after a sweep was told that the session it was handed to has
reclaimed it or is gone. A member that has become retiring stays so until it is removed, and so
is what a fill puts back under its sandbox. -/
theorem warm_pool_exclusive (a : Adapter WarmStore) (calls : Nat → WarmCall)
    (c : Config WarmStore HubError (Option WarmPoolClaim))
    (reach : Reaches a ⟨[], fun i => (calls i).start⟩ c) :
    (∀ i j held held', i ≠ j → c.prog i = .ret (some held) → c.prog j = .ret (some held') →
      held.member.sandboxId ≠ held'.member.sandboxId) ∧
    (∀ x past i service held, (x :: past) <:+ c.trace → calls i = .handoff service held →
      ReturnedBy calls i past none → x.op = .ask (.destroy held.member.sandboxId) →
      ∃ y q, (y :: q) <:+ past ∧ EndsHandoff calls service.backend held.member y q) ∧
    ∀ b u v key key' member member', u <:+ v → v <:+ c.trace →
      (key, member) ∈ (recordAt b u).entries → member.state = .retiring →
      (key', member') ∈ (recordAt b v).entries → member'.sandboxId = member.sandboxId →
      member'.state = .retiring := by
  have history := PoolHistory.of_reaches reach
  have run := reach.history (Seeds.empty a)
  have reserves (i : Nat) (held : WarmPoolClaim) (returned : c.prog i = .ret (some held)) :
      Reserves (calls i).service.backend held.member (own i c.trace) :=
    run.returned warmCall_keeps_rule returned
  refine ⟨?_, ?_, ?_⟩
  · intro i j held held' differ first second named
    have mine := reserves i held first
    have theirs := reserves j held' second
    have one : (calls i).service.backend = (calls j).service.backend := by
      obtain ⟨x, past, _, _, moment, _, _, _, _, after, _⟩ := mine.moment history.accepted
      obtain ⟨y, q, _, _, moment', _, _, _, _, after', _⟩ := theirs.moment history.accepted
      have origin := ((history.invariant _ _ moment).origin _ _ after).grow moment
      have origin' := ((history.invariant _ _ moment').origin _ _ after').grow moment'
      rw [named] at origin
      exact same_backend history.accepted origin origin'
    exact history.reserved_once differ mine (one ▸ theirs) named
  · intro x past i service held moment called returned destroys
    exact history.destroyed_after_end moment (returned.ended service held called) destroys
  · intro b u v key key' member member' inside within listed retiring listed' named
    have forward := (history.suffix within).stage_le inside listed listed' named
    rw [retiring] at forward
    revert forward
    cases member'.state <;> decide

/-- In every run, whatever fails or crashes, a sandbox is listed once and for one backend, and what
is listed for it later is in the same or a later state. -/
theorem warm_members_advance (a : Adapter WarmStore) (calls : Nat → WarmCall)
    (c : Config WarmStore HubError (Option WarmPoolClaim))
    (reach : Reaches a ⟨[], fun i => (calls i).start⟩ c) :
    (∀ b, ((recordAt b c.trace).entries.map fun e => e.2.sandboxId).Nodup) ∧
    ∀ b b' u key key' member member', u <:+ c.trace →
      (key, member) ∈ (recordAt b u).entries → (key', member') ∈ (recordAt b' c.trace).entries →
      member'.sandboxId = member.sandboxId → b = b' ∧ stage member.state ≤ stage member'.state := by
  have history := PoolHistory.of_reaches reach
  constructor
  · intro b
    exact (history.invariant b _ List.suffix_rfl).unique
  · intro b b' u key key' member member' inside listed listed' named
    have origin := ((history.invariant b u inside).origin key member listed).grow inside
    have origin' := (history.invariant b' _ List.suffix_rfl).origin key' member' listed'
    rw [named] at origin'
    cases same_backend history.accepted origin origin'
    exact ⟨rfl, history.stage_le inside listed listed' named⟩

namespace WarmPoolScenario

def adapter : Adapter WarmStore := ⟨fun _ version => version, 100⟩

def profile : WarmPoolProfile := { key := "small" }

def service : WarmPoolService where
  backend := "local"
  config := {
    enabled := true, size := 1, profiles := [profile], creationTimeoutMs := 1000,
    minimumRemainingMs := 0 }

def destination : Destination := ⟨1, 2, 3⟩

/-- The member that sandbox 100 becomes when it is reserved. -/
def held : WarmPoolClaim where
  member := {
    sandboxId := 100, state := .claimed, token := 102, createdAt := 1, readyUntil := 1800001,
    operationUntil := 60002, checkedAt := 2, destination := some destination }
  profile := none

/-- Two sweeps, a reservation and its handoff; nobody abandons the claim. -/
def calls : Nat → WarmCall
  | 0 => .sweep service
  | 1 => .reserve service { destination := destination }
  | 2 => .handoff service held
  | _ => .sweep service

def session : Session where
  sessionId := 3
  notebookId := 2
  projectId := 1
  userId := "ada"
  status := .starting
  startedAt := 0
  lastHeartbeat := 0
  sandboxId := some 100

/-- The session once it has ended and its sandbox was reclaimed. -/
def ended : Session := { session with status := .terminated, sandboxReclaimedAt := some 5 }

/-- The first sweep creates and publishes sandbox 100. It is reserved, handed off and, when its
session has ended, dropped by the second sweep. The first sweep then fails to read the record,
puts its creation back and destroys the sandbox. -/
def schedule : List (Move WarmStore) :=
  turns 0 1 [.ok, .ok, .ok, .ok, .ok, .id 100, .id 101, .ok] ++
  turns (B := WarmStore) 0 2 [.answer (.boot 100 profile) .booted,
    .answer (.readReference 100) (.ok none), .ok, .ok, .ok, .ok] ++
  turns (B := WarmStore) 1 2 [.ok, .ok, .id 102, .ok, .ok,
    .answer (.connectExisting 100 none) (.ok ())] ++
  turns (B := WarmStore) 2 3 [.answer (.getSession 1 3) (.ok session), .ok, .ok, .ok] ++
  turns (B := WarmStore) 3 6 [.ok, .ok, .answer (.getSession 1 3) (.ok ended), .ok, .ok] ++
  turns (B := WarmStore) 0 7 [.fail false, .ok, .ok, .ok, .answer (.destroy 100) (.ok ())]

def destroysHeld : Event WarmStore → Bool
  | ⟨⟨.ask (.destroy id), _⟩, thread, _, _⟩ => id = held.member.sandboxId ∧ thread = some 0
  | _ => false

def hasReturned : Prog WarmStore HubError (Option WarmPoolClaim) → Bool
  | .ret none => true
  | _ => false

def destroyed (c : Config WarmStore HubError (Option WarmPoolClaim)) : Bool :=
  match c.trace with
  | x :: _ => destroysHeld x && hasReturned (c.prog 2)
  | [] => false

theorem destroyed_run (reach : Reaches adapter ⟨[], fun i => (calls i).start⟩ c)
    (observed : destroyed c = true) :
    ∃ x past, x :: past <:+ c.trace ∧ ReturnedBy calls 2 past none ∧
      x.op = .ask (.destroy held.member.sandboxId) := by
  have run := (reach.history (Seeds.empty adapter)).threads 2
  unfold destroyed at observed
  split at observed
  · next x past shape =>
    obtain ⟨destroys, returned⟩ := Bool.and_eq_true_iff.mp observed
    have result : c.prog 2 = .ret none := by
      unfold hasReturned at returned
      split at returned
      · next result => exact result
      · cases returned
    unfold destroysHeld at destroys
    split at destroys
    · next id _ thread _ _ =>
      obtain ⟨rfl, rfl⟩ := of_decide_eq_true destroys
      rw [shape, result] at run
      rw [shape]
      exact ⟨_, past, List.suffix_rfl, run, rfl⟩
    · cases destroys
  · cases observed

end WarmPoolScenario

open WarmPoolScenario in
/-- The handed-off sandbox is destroyed by a fill that puts its creation back. -/
theorem handed_off_destroyed :
    ∃ c x past, Reaches adapter ⟨[], fun i => (calls i).start⟩ c ∧ (x :: past) <:+ c.trace ∧
      calls 2 = .handoff service held ∧ ReturnedBy calls 2 past none ∧
      x.op = .ask (.destroy held.member.sandboxId) ∧ ∀ i, ¬ (calls i).Abandons held.member := by
  obtain ⟨c, reach, observed⟩ := Config.play_any adapter ⟨[], fun i => (calls i).start⟩ schedule
    (destroyed ·) (by decide)
  obtain ⟨x, past, moment, returned, destroys⟩ := destroyed_run reach observed
  refine ⟨c, x, past, reach, moment, rfl, returned, destroys, ?_⟩
  rintro i ⟨_, _, abandons, _⟩
  unfold calls at abandons
  split at abandons <;> cases abandons

open WarmPoolScenario in
/-- In the same run, the second sweep was told that the session had let go of the sandbox. -/
theorem warm_pool_exclusive_released :
    ∃ c x past, Reaches adapter ⟨[], fun i => (calls i).start⟩ c ∧ (x :: past) <:+ c.trace ∧
      x.op = .ask (.destroy held.member.sandboxId) ∧
      ∃ y q, (y :: q) <:+ past ∧ EndsHandoff calls service.backend held.member y q := by
  obtain ⟨c, reach, observed⟩ := Config.play_any adapter ⟨[], fun i => (calls i).start⟩ schedule
    (destroyed ·) (by decide)
  obtain ⟨x, past, moment, returned, destroys⟩ := destroyed_run reach observed
  exact ⟨c, x, past, reach, moment, destroys, (warm_pool_exclusive adapter calls c reach).2.1 x past
    2 service held moment rfl returned destroys⟩

open WarmPoolScenario in
theorem warm_members_advance_destroyed :
    ∃ c, Reaches adapter ⟨[], fun i => (calls i).start⟩ c ∧ destroyed c = true ∧
      ((recordAt "local" c.trace).entries.map fun e => e.2.sandboxId).Nodup := by
  obtain ⟨c, reach, observed⟩ := Config.play_any adapter ⟨[], fun i => (calls i).start⟩ schedule
    (destroyed ·) (by decide)
  exact ⟨c, reach, observed, (warm_members_advance adapter calls c reach).1 "local"⟩

end MarimoHub.Guarantees
