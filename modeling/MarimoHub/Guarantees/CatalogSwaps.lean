import MarimoHub.Guarantees.CatalogHistory

/-!
# Swaps of the catalog pointer

Clients that change the catalog only through `mutateSnapshot`, by any number of
mutations each: every change of the pointer is the swap of one attempt, it finds the
catalog that attempt read, and the snapshot named by that catalog still holds what
the attempt computed from. The pointer never returns to an earlier catalog, so the
catalog was the same one all the way from the read to the swap.
-/

namespace MarimoHub.Guarantees

open ObjectStore Source

/-- What a client does to the catalog, whose mutations are `allowed` together with
the own events before each. -/
def SwapRule (allowed : MutateCall → Events → Prop) (past : Events) : Op Content → Prop
  | .put .catalog v c => ∃ (call : MutateCall) (before : Events) (t : Attempt),
      allowed call before ∧ t.Valid call before ∧ past = t.prepared call ∧
      v = .catalog t.pointer ∧ c = .ifMatch t.tag
  | .put (.snapshot n) _ _ => ∃ t : Attempt, past = t.drafted ∧ n = t.id
  | .delete .catalog => False
  | .delete (.snapshot n) => ∃ (call : MutateCall) (before : Events) (t : Attempt),
      allowed call before ∧ t.Valid call before ∧
      past = ⟨t.swap, .lost⟩ :: t.prepared call ∧ n = t.id
  | _ => True

variable {call : MutateCall} {past : Trace Content}
  {e : Event Content} {i : Nat} {s : Attempt}
  {allowed : MutateCall → Events → Prop} {a : Adapter Content} {contents : List (Key × Val)}

/-- The event is the swap of an attempt of client `i`, and took effect. -/
structure Swapped (call : MutateCall) (before : Events) (s : Attempt) (i : Nat)
    (e : Event Content) (past : Trace Content) : Prop where
  mine : e.thread = some i
  valid : s.Valid call before
  prepared : own i past = s.prepared call
  shape : ∃ r, e.toEv = ⟨s.swap, r⟩
  applied : e.applied = true

theorem swapRule_of_spares {past : Events} (spares : SparesCatalog o) :
    SwapRule allowed past o := by
  unfold SwapRule
  split <;> first | trivial | exact absurd rfl spares.1 | exact absurd rfl (spares.2 _)

theorem writeRule_of_swapRule {past : Events} (rule : SwapRule allowed past o) :
    WriteRule past o := by
  cases o with
  | put k v c =>
    cases k with
    | catalog =>
      obtain ⟨call, before, t, _, valid, rfl, rfl, rfl⟩ := rule
      exact ⟨t.pointer, t.snapshot call, _, t.ptag, t.drafted, rfl, rfl, rfl, t.drawn_drafted⟩
    | snapshot n =>
      obtain ⟨t, rfl, rfl⟩ := rule
      exact t.drawn_drafted
    | _ => trivial
  | _ => trivial

/-- The operations of `mutateSnapshot` other than those of its callback. -/
def CatalogOp : Op Content → Prop
  | .put .catalog _ _ => True
  | .put (.snapshot _) _ _ => True
  | .put (.event _) _ _ => True
  | .put _ _ _ => False
  | .delete (.snapshot _) => True
  | .delete _ => False
  | _ => True

theorem catalogOp_of_readOnly (readOnly : ReadOnly o) : CatalogOp o := by
  cases o <;> first | exact readOnly.elim | trivial

/-- A client may mutate the snapshot when its rule follows from the swap rule, and its
callbacks keep the client's rule. -/
theorem permits_of_swapRule (may : allowed call before)
    (enough : ∀ es o, CatalogOp o → SwapRule allowed es o → G es o)
    (callback : ∀ base es, Prog.Emits G (fun _ _ => True) (call.mutateFn.run base) es) :
    Permits G call before where
  reads es o readOnly :=
    enough es o (catalogOp_of_readOnly readOnly) (swapRule_of_spares (spares_of_readOnly readOnly))
  audit es _ _ _ := enough es _ trivial trivial
  callback := callback
  snapshot t _ := enough _ _ trivial ⟨t, rfl, rfl⟩
  swap t valid := enough _ _ trivial ⟨call, before, t, may, valid, rfl, rfl, rfl⟩
  clean t valid := enough _ _ trivial ⟨call, before, t, may, valid, rfl, rfl⟩

/-- A trace of such clients. -/
structure SwapHistory (a : Adapter Content) (contents : List (Key × Val))
    (allowed : Nat → MutateCall → Events → Prop) (t : Trace Content) : Prop extends
    CatalogHistory a contents t where
  swaps : ∀ e past i, (e :: past) <:+ t → e.thread = some i →
    SwapRule (allowed i) (own i past) e.op

theorem swap_history (initial : InitialCatalog a contents)
    {allowed : Nat → MutateCall → Events → Prop} (history : History a (seed a contents) body c)
    (swaps : ∀ e past i, e :: past <:+ c.trace → e.thread = some i →
      SwapRule (allowed i) (own i past) e.op) : SwapHistory a contents allowed c.trace where
  initial := initial
  accepted := history.accepted
  seeds _ _ moment anonymous := history.before_run moment anonymous
  based _ _ _ moment mine := history.after_seeds (seeds_seed a contents) moment mine
  rule e past i moment mine := writeRule_of_swapRule (swaps e past i moment mine)
  undeleted e member removed := by
    obtain ⟨r, shape, _⟩ := effect_remove removed
    cases thread : e.thread with
    | none =>
      obtain ⟨v, same, _⟩ := effect_seed (history.seeded member thread) removed
      cases same
    | some i =>
      obtain ⟨past, moment⟩ := exists_past member
      have rule := swaps e past i moment thread
      rw [congrArg Ev.op shape] at rule
      exact rule
  swaps := swaps

namespace SwapHistory

variable {a : Adapter Content} {contents : List (Key × Val)}
  {allowed : Nat → MutateCall → Events → Prop} {t : Trace Content}

section

variable (history : SwapHistory a contents allowed t)

include history

theorem suffix (earlier : past <:+ t) : SwapHistory a contents allowed past where
  toCatalogHistory := history.toCatalogHistory.suffix earlier
  swaps e past' i moment := history.swaps e past' i (moment.trans earlier)

theorem swap_of_commit (moment : e :: past <:+ t) (mine : e.thread = some i)
    (effect : e.effect .catalog = some w) :
    ∃ call before s, allowed i call before ∧ Swapped call before s i e past ∧
      w = some (.catalog s.pointer) := by
  have rule := history.swaps e past i moment mine
  cases w with
  | none => exact absurd effect (history.undeleted e (moment.subset (.head _)))
  | some v =>
    obtain ⟨c, r, shape, applied⟩ := effect_write effect
    rw [congrArg Ev.op shape] at rule
    obtain ⟨call, before, s, may, valid, ownEq, rfl, rfl⟩ := rule
    exact ⟨call, before, s, may, ⟨mine, valid, ownEq, ⟨r, shape⟩, applied⟩, rfl⟩

theorem current_of_swap (moment : e :: past <:+ t) (swap : Swapped call before s i e past) :
    lookup Key.catalog past = some (.catalog s.catalog) := by
  obtain ⟨r, shape⟩ := swap.shape
  have found := ((history.accepted.at moment).matched shape swap.applied).1
  have readEarlier : (⟨.get .catalog, .found (.catalog s.catalog) s.tag⟩ : Ev Content) ∈
      own i past := by
    rw [swap.prepared]
    simp [Attempt.prepared, Attempt.drafted, Attempt.computed]
  obtain ⟨g, q, gMoment, _, gShape⟩ := exists_own_mem readEarlier
  have toTrace := gMoment.trans moment.past
  have responds := (history.accepted.at toTrace).responds_of gShape
  have value : s.tag.value = .catalog s.catalog := by rw [responds.2.1]; rfl
  rw [found, value]

variable {q mid : Trace Content}

theorem lost_of_deleted (member : e ∈ t) (removed : e.effect (.snapshot n) = some none) :
    ∃ i s past, s :: past <:+ t ∧ s.thread = some i ∧ IsSwap n s.toEv ∧ s.applied = false := by
  cases thread : e.thread with
  | none =>
    obtain ⟨v, same, _⟩ := effect_seed (history.seeded e member thread) removed
    cases same
  | some i =>
    obtain ⟨past, moment⟩ := exists_past member
    obtain ⟨r, shape, _⟩ := effect_remove removed
    have rule := history.swaps e past i moment thread
    rw [congrArg Ev.op shape] at rule
    obtain ⟨call, _, s, _, _, ownEq, rfl⟩ := rule
    have last : (⟨s.swap, .lost⟩ :: s.prepared call) <:+ own i past :=
      ownEq ▸ List.suffix_rfl
    obtain ⟨l, q, lMoment, lThread, lShape, _⟩ := exists_own last
    have toTrace := lMoment.trans moment.past
    have responds := (history.accepted.at toTrace).responds_of lShape
    exact ⟨i, l, q, toTrace, lThread, ⟨_, _, _, lShape, rfl⟩, responds.2⟩

theorem lookup_snapshot (stored : Stored (B := Content) (.snapshot n) v t)
    (kept : ∀ i s past, s :: past <:+ t → s.thread = some i → IsSwap n s.toEv → s.applied = true)
      : lookup (Key.snapshot n) t = some v := by
  refine lookup_of_stored stored ?_
  intro e member w effect
  cases w with
  | none =>
    obtain ⟨i, s, past, moment, thread, swap, lost⟩ := history.lost_of_deleted member effect
    have done := kept i s past moment thread swap
    rw [lost] at done
    cases done
  | some v' => exact congrArg some (history.snapshot_immutable ⟨e, member, effect⟩ stored)

theorem stored_base (earlier : past <:+ t)
    (read : ReadOf k base reads) (mine : ∀ e ∈ reads, e ∈ own i past) :
    Stored (B := Content) k (.snapshot base) past := by
  cases read with
  | cached =>
    obtain ⟨g, q, moment, _, shape⟩ := exists_own_mem (mine _ (.head _))
    have responds := (history.accepted.at (moment.trans earlier)).responds_of shape
    exact responds.1.grow moment.past
  | loaded tag =>
    obtain ⟨g, q, moment, _, shape⟩ := exists_own_mem (mine _ (.head _))
    have responds := (history.accepted.at (moment.trans earlier)).responds_of shape
    exact (stored_of_lookup responds.1).grow moment.past

theorem stored_draft (earlier : past <:+ t) (ownEq : own i past = s.prepared call) :
    Stored (B := Content) (.snapshot s.id) (.snapshot (s.snapshot call)) past := by
  have last : (⟨s.snapshotPut call, .ok s.ptag⟩ :: s.drafted) <:+ own i past :=
    ownEq ▸ List.suffix_rfl
  obtain ⟨p, q, moment, _, shape, _⟩ := exists_own last
  have responds := (history.accepted.at (moment.trans earlier)).responds_of shape
  have applied : p.applied = true := responds.2.2
  refine ⟨p, moment.subset (.head _), ?_⟩
  rw [effect_put shape, applied]
  simp

theorem lookup_current (current : lookup Key.catalog t = some (.catalog cat))
    (stored : Stored cat.currentSnapshotKey v t) : lookup cat.currentSnapshotKey t = some v := by
  obtain ⟨p, member, wrote⟩ := stored_of_lookup current
  obtain ⟨cat', same, key, origin⟩ := history.catalog_effect member wrote
  cases same
  rw [key] at stored ⊢
  refine history.lookup_snapshot stored ?_
  intro j l q lMoment lThread swap
  rcases origin with ⟨_, old⟩ | ⟨j', q', pMoment, pThread, pSwap, pApplied, _⟩
  · obtain ⟨_, _, _, rest, lOwn, drawn⟩ := history.drawn_of_swap lMoment lThread swap
    have new := history.firstId_le_of_drawn lMoment.past (lOwn ▸ List.suffix_cons _ _) drawn
    exact absurd new (Nat.not_le.mpr old)
  · have same := history.swap_once lMoment pMoment lThread pThread swap pSwap
    cases same
    exact pApplied

theorem lookup_draft (moment : e :: past <:+ t) (swap : Swapped call before s i e past) :
    lookup (Key.snapshot s.id) past = some (.snapshot (s.snapshot call)) := by
  obtain ⟨r, shape⟩ := swap.shape
  have earlier := moment.past
  have past_history := history.suffix earlier
  refine past_history.lookup_snapshot (past_history.stored_draft List.suffix_rfl swap.prepared) ?_
  intro j l q lMoment lThread again
  -- the snapshot is offered at this moment for the first time
  have same := history.swap_once moment (lMoment.trans earlier) swap.mine lThread
    ⟨s.pointer, _, r, shape, rfl⟩ again
  exact (not_earlier same.symm lMoment).elim

theorem lookup_base (moment : e :: past <:+ t) (swap : Swapped call before s i e past) :
    lookup (B := Content) s.catalog.currentSnapshotKey past = some (.snapshot s.base) := by
  have past_history := history.suffix moment.past
  refine past_history.lookup_current (history.current_of_swap moment swap) ?_
  refine past_history.stored_base (i := i) List.suffix_rfl swap.valid.read ?_
  intro ev member
  rw [swap.prepared]
  simp [Attempt.prepared, Attempt.drafted, Attempt.computed, member]

/-- Whatever the current catalog's snapshot holds, it held when the catalog became
current. -/
theorem stored_current (earlier : past <:+ t) (based : seed a contents <:+ past)
    (current : lookup Key.catalog past = some (.catalog cat))
    (stored : Stored cat.currentSnapshotKey v t) : Stored cat.currentSnapshotKey v past := by
  obtain ⟨p, member, wrote⟩ := stored_of_lookup current
  obtain ⟨cat', same, key, origin⟩ := (history.suffix earlier).catalog_effect member wrote
  cases same
  rw [key] at stored ⊢
  rcases origin with ⟨_, old⟩ | ⟨i, q, moment, mine, swap, _, _⟩
  · obtain ⟨x, xMember, xWrote⟩ := stored
    rcases history.write_cases xMember xWrote with ⟨listed, _⟩ | ⟨_, _, _, _, _, new⟩
    · exact (stored_seed listed).grow based
    · exact absurd new (Nat.not_le.mpr old)
  · obtain ⟨snap, c, tag, rest, ownEq, _⟩ :=
      (history.suffix earlier).drawn_of_swap moment mine swap
    obtain ⟨x, qx, xMoment, _, shape⟩ := exists_own_mem (ownEq ▸ List.mem_cons_self)
    have inPast : x :: qx <:+ past := xMoment.trans moment.past
    have responds := (history.accepted.at (inPast.trans earlier)).responds_of shape
    have put : Stored (B := Content) (.snapshot cat.currentSnapshotId) (.snapshot snap) past :=
      ⟨x, inPast.subset (.head _), by rw [effect_put shape, responds.2.2]; simp⟩
    rw [history.snapshot_immutable stored (put.grow earlier)]
    exact put

/-- A catalog that is current at two moments of the run was current in between. -/
theorem catalog_stable (based : seed a contents <:+ q) (above : q <:+ mid) (below : mid <:+ t)
    (first : lookup Key.catalog q = some (.catalog cat))
    (last : lookup Key.catalog t = some (.catalog cat)) :
    lookup Key.catalog mid = some (.catalog cat) := by
  obtain ⟨w, qw, moment, wrote, stays⟩ := lookup_moment last
  refine (stays mid ?_ below).1
  refine List.IsSuffix.trans ?_ above
  obtain ⟨p, member, wrote'⟩ := stored_of_lookup first
  obtain ⟨qp, pMoment⟩ := exists_past member
  have inTrace := above.trans below
  obtain ⟨_, same, _, origin⟩ := history.catalog_effect (moment.subset (.head _)) wrote
  cases same
  rcases origin with ⟨anonymous, _⟩ | ⟨i, qw', wMoment, mine, swap, _, new⟩
  · exact (history.seeds w qw moment anonymous).trans based
  · -- the same swap put it in place both times
    obtain ⟨_, same, _, origin'⟩ :=
      history.catalog_effect (inTrace.subset member) wrote'
    cases same
    rcases origin' with ⟨_, old⟩ | ⟨j, qp', pMoment', theirs, swap', _, _⟩
    · exact absurd new (Nat.not_le.mpr old)
    · have together := history.swap_once moment (pMoment.trans inTrace) mine theirs swap swap'
      exact together ▸ pMoment

theorem currentSnapshot_swap (moment : e :: past <:+ t) (swap : Swapped call before s i e past) :
    currentSnapshot (e :: past) = some (s.snapshot call) := by
  obtain ⟨r, shape⟩ := swap.shape
  have draft := history.lookup_draft moment swap
  have pointer : lookup Key.catalog (e :: past) = some (.catalog s.pointer) := by
    rw [lookup_cons, effect_put shape, swap.applied]
    simp
  refine currentSnapshot_of_lookup pointer ?_
  rw [lookup_cons, effect_put shape]
  simpa [Attempt.pointer, newCatalog] using draft

/-- From the attempt's read of the catalog to its swap the snapshot it computed from is
current. -/
theorem currentSnapshot_between (moment : e :: past <:+ t)
    (swap : Swapped call before s i e past) (based : seed a contents <:+ q) (above : q <:+ mid)
    (below : mid <:+ past) (read : lookup Key.catalog q = some (.catalog s.catalog)) :
    currentSnapshot mid = some s.base := by
  have past_history := history.suffix moment.past
  have current := past_history.catalog_stable based above below read
    (history.current_of_swap moment swap)
  have stored := past_history.stored_current below (based.trans above) current
    (stored_of_lookup (history.lookup_base moment swap))
  exact currentSnapshot_of_lookup current
    ((past_history.suffix below).lookup_current current stored)

/-- The moments of an attempt whose callback makes one request: the catalog was read,
then the callback acted, and only the draft was written since. -/
theorem callback_moment (earlier : past <:+ t)
    (ownEq : own i past = s.prepared call) (single : s.callback = [ev]) :
    ∃ g q qc, g :: q <:+ past ∧ g.thread = some i ∧ g.toEv = ev ∧
      (∀ ev' ∈ s.earlier, ev' ∈ own i q) ∧ qc <:+ q ∧ seed a contents <:+ qc ∧
      lookup Key.catalog qc = some (.catalog s.catalog) ∧
      ∀ x m, x :: m <:+ past → g :: q <:+ m → x.thread = some i →
        x.toEv ∈ [⟨s.snapshotPut call, .ok s.ptag⟩, ⟨.now, s.now⟩, ⟨.mint, s.id⟩] := by
  have split : own i past = [⟨s.snapshotPut call, .ok s.ptag⟩, ⟨.now, s.now⟩, ⟨.mint, s.id⟩] ++
      ev :: (s.reads ++ ⟨.get .catalog, .found (.catalog s.catalog) s.tag⟩ :: s.earlier) := by
    rw [ownEq]
    simp [Attempt.prepared, Attempt.drafted, Attempt.computed, single]
  obtain ⟨g, q, moment, mine, shape, ownQ⟩ := exists_own (split ▸ List.suffix_append _ _)
  obtain ⟨gc, qc, cMoment, cMine, cShape, _⟩ := exists_own (ownQ ▸ List.suffix_append _ _)
  have inTrace := (cMoment.trans moment.past).trans earlier
  have found := (history.accepted.at inTrace).responds_of cShape
  refine ⟨g, q, qc, moment, mine, shape, ?_, cMoment.past,
    history.based gc qc i inTrace cMine, found.1, ?_⟩
  · intro ev' member
    rw [ownQ]
    simp [member]
  · intro x m xMoment inside also
    rw [← shape, ← ownQ] at split
    exact own_between mine also inside xMoment split

theorem currentSnapshot_kept (moment : e :: past <:+ t)
    (mine : e.thread = some i) (kept : e.effect .catalog = none)
    (current : currentSnapshot (e :: past) = some snap) : currentSnapshot past = some snap := by
  obtain ⟨cat, pointer, named⟩ := lookup_of_currentSnapshot current
  rw [lookup_cons, kept] at pointer
  have earlier := List.suffix_cons e past
  have stored := (history.suffix moment).stored_current earlier
    (history.based e past i moment mine) pointer (stored_of_lookup named)
  exact currentSnapshot_of_lookup pointer
    ((history.suffix (earlier.trans moment)).lookup_current pointer stored)

end

end SwapHistory

/-- `new` is the call's callback applied to the current snapshot, at the moment
described by `past`. -/
def Links (call : MutateCall) (past : Trace Content) (new : Catalog) : Prop :=
  ∃ (prev : Catalog) (base : Snapshot) (result : MutateResult),
    lookup Key.catalog past = some (.catalog prev) ∧
    lookup prev.currentSnapshotKey past = some (.snapshot base) ∧
    (call.mutateFn.run base).Returns result ∧ result ≠ .draft base ∧
    lookup new.currentSnapshotKey past = some (.snapshot
      (call.newSnapshot base result new.currentSnapshotId new.updatedAt)) ∧
    new.previousSnapshotId = some prev.currentSnapshotId

theorem SwapHistory.links {allowed : Nat → MutateCall → Events → Prop}
    (history : SwapHistory a contents allowed t) (moment : e :: past <:+ t)
    (mine : e.thread = some i) (effect : e.effect .catalog = some w) :
    ∃ call before new, allowed i call before ∧ w = some (.catalog new) ∧ Links call past new := by
  obtain ⟨call, before, s, may, swap, rfl⟩ := history.swap_of_commit moment mine effect
  exact ⟨call, before, s.pointer, may, rfl, s.catalog, s.base, s.result,
    history.current_of_swap moment swap, history.lookup_base moment swap, ⟨_, swap.valid.runs⟩,
    swap.valid.changed, history.lookup_draft moment swap, rfl⟩

end MarimoHub.Guarantees
