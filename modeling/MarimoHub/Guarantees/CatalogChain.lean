import MarimoHub.Guarantees.CatalogSwaps

/-!
# Concurrent snapshot mutations form one chain

Any number of concurrent `mutateSnapshot` calls, any interleaving of their
requests, lost races, exhausted retries, failed requests, cached reads and
crashes: every change of the pointer is one call's callback applied to the
snapshot that was current at that moment, and no call changes it twice.

The argument rests on the compare-and-swap: a swap that takes effect finds the
catalog it read, and the snapshot named by that catalog still holds what the call
computed from, since snapshot keys hold one value and only a snapshot whose swap
was lost is ever deleted.
-/

namespace MarimoHub.Guarantees

open ObjectStore Source

/-- A call of `mutateSnapshot` makes one mutation. -/
def OnlyCall (calls : Nat → MutateCall) (i : Nat) (call : MutateCall) (before : Events) : Prop :=
  call = calls i ∧ before = []

theorem mutateSnapshot_keeps_rule (i : Nat) :
    Prog.Emits (SwapRule (OnlyCall calls i)) (MutateOutcome (calls i) [])
      (mutateSnapshot (calls i)) [] :=
  emits_mutateSnapshot (permits_of_swapRule ⟨rfl, rfl⟩ (fun _ _ _ rule => rule)
    fun base es => ((calls i).mutateFn.spares base).emits (fun _ _ => swapRule_of_spares) es)

/-- A trace of `mutateSnapshot` calls. -/
abbrev MutateHistory (a : Adapter Content) (contents : List (Key × Val))
    (calls : Nat → MutateCall) (t : Trace Content) : Prop :=
  SwapHistory a contents (OnlyCall calls) t

variable {a : Adapter Content} {t past : Trace Content} {i : Nat} {e : Event Content}
  {w : Option Val} {s : Attempt}

section Chain

variable {contents : List (Key × Val)} {calls : Nat → MutateCall}

theorem MutateHistory.swap_of_commit
    (history : MutateHistory a contents calls t) (moment : e :: past <:+ t)
    (mine : e.thread = some i) (effect : e.effect .catalog = some w) :
    ∃ s, Swapped (calls i) [] s i e past := by
  obtain ⟨call, before, s, ⟨rfl, rfl⟩, swap, _⟩ :=
    SwapHistory.swap_of_commit history moment mine effect
  exact ⟨s, swap⟩

theorem MutateHistory.links
    (history : MutateHistory a contents calls t) (moment : e :: past <:+ t)
    (mine : e.thread = some i) (effect : e.effect .catalog = some w) :
    ∃ new, w = some (.catalog new) ∧ Links (calls i) past new := by
  obtain ⟨call, before, new, ⟨rfl, rfl⟩, facts⟩ := SwapHistory.links history moment mine effect
  exact ⟨new, facts⟩

/-! ## Counting commits -/

/-- Every pointer of the trace, newest first. -/
def pointers (t : Trace Content) : List Catalog := t.filterMap committed

/-- The pointers one call put in place. -/
def commitsBy (i : Nat) (t : Trace Content) : List Catalog :=
  (t.filter fun e => e.thread = some i).filterMap committed

theorem commitsBy_cons : commitsBy i (e :: past) =
      if e.thread = some i then ((committed e).toList ++ commitsBy i past) else
        commitsBy i past := by
  unfold commitsBy
  split
  · next mine => cases done : committed e <;> simp [mine, done]
  · next other => simp [other]

/-- Calls whose own swaps were all lost have committed nothing. -/
theorem MutateHistory.commitsBy_nil
    (history : MutateHistory a contents calls t) (lost : Lost (own i t)) : commitsBy i t = [] := by
  induction t with
  | nil => rfl
  | cons e past ih =>
    have earlier := List.suffix_cons e past
    have before := ih (history.suffix earlier)
    rw [commitsBy_cons]
    split
    · next mine =>
      rw [own_cons mine] at lost
      rw [before fun v c r member => lost v c r (.tail _ member)]
      cases done : committed e with
      | none => rfl
      | some cat =>
        obtain ⟨s, swap⟩ :=
          history.swap_of_commit List.suffix_rfl mine (effect_of_committed done)
        obtain ⟨r, shape⟩ := swap.shape
        have refused := lost _ _ r (by rw [shape]; exact (.head _))
        subst refused
        have responds := (history.accepted.at List.suffix_rfl).responds_of shape
        rw [swap.applied] at responds
        exact absurd responds.2 (by simp)
    · next other =>
      rw [own_cons_other other] at lost
      exact before lost

theorem Attempt.Valid.lost_prepared (valid : s.Valid call []) : Lost (s.prepared call) := by
  obtain ⟨new, same, lost⟩ := valid.unswapped_prepared
  rw [same, List.append_nil]
  exact lost

theorem MutateHistory.commitsBy_le_one
    (history : MutateHistory a contents calls t) (i : Nat) : (commitsBy i t).length ≤ 1 := by
  induction t with
  | nil => exact Nat.zero_le 1
  | cons e past ih =>
    have past_history := history.suffix (List.suffix_cons e past)
    have before := ih past_history
    rw [commitsBy_cons]
    split
    · next mine =>
      cases done : committed e with
      | none => simpa using before
      | some cat =>
        obtain ⟨s, swap⟩ :=
          history.swap_of_commit List.suffix_rfl mine (effect_of_committed done)
        have none := MutateHistory.commitsBy_nil past_history
          (swap.prepared ▸ swap.valid.lost_prepared)
        simp [none]
    · exact before

theorem MutateHistory.commitsBy_of_swapped (history : MutateHistory a contents calls t)
    (swapped : (⟨s.swap, .ok tag⟩ : Ev Content) ∈ own i t) : commitsBy i t = [s.pointer] := by
  obtain ⟨e, past, moment, mine, shape⟩ := exists_own_mem swapped
  have responds := (history.accepted.at moment).responds_of shape
  have applied : e.applied = true := responds.2.2
  have done : committed e = some s.pointer := by
    have effect := effect_put shape .catalog
    simp only [applied] at effect
    simp [committed, effect]
  have member : s.pointer ∈ commitsBy i t := by
    unfold commitsBy
    refine List.mem_filterMap.mpr ⟨e, ?_, done⟩
    exact List.mem_filter.mpr ⟨moment.subset (.head _), by simpa using mine⟩
  have one := Nat.le_antisymm (history.commitsBy_le_one i) (List.length_pos_of_mem member)
  obtain ⟨only, same⟩ := List.length_eq_one_iff.mp one
  rw [same] at member ⊢
  rw [List.mem_singleton.mp member]

theorem head_pointers (current : lookup Key.catalog t = some (.catalog cat)) :
    (pointers t).head? = some cat := by
  induction t with
  | nil => simp [lookup] at current
  | cons e past ih =>
    rw [lookup_cons] at current
    cases effect : e.effect .catalog with
    | none =>
      rw [effect] at current
      have skipped : committed e = none := by simp [committed, effect]
      simpa [pointers, skipped] using ih current
    | some w =>
      rw [effect] at current
      cases current
      have done : committed e = some cat := by simp [committed, effect]
      simp [pointers, done]

/-- `newer` names `older` as its predecessor. -/
def Succeeds (newer older : Catalog) : Prop :=
  newer.previousSnapshotId = some older.currentSnapshotId

theorem pointers_seed (distinct : (contents.map Prod.fst).Nodup) :
    (pointers (seed a contents)).length ≤ 1 := by
  refine Nat.le_trans ?_ (List.nodup_iff_count_le_one.mp distinct .catalog)
  clear distinct
  induction contents with
  | nil => exact Nat.le_refl 0
  | cons head rest ih =>
    obtain ⟨k, v⟩ := head
    rw [seed, pointers, List.filterMap_cons, List.map_cons, List.count_cons]
    split
    · exact Nat.le_add_right_of_le ih
    · next cat done =>
      have pointer : k = .catalog := by
        by_contra other
        simp [committed, Event.effect, other] at done
      simpa [pointer, pointers] using ih

theorem MutateHistory.pointers_chain
    (history : MutateHistory a contents calls (later ++ seed a contents))
    (named : ∀ e ∈ later, ∃ i, e.thread = some i) :
    (pointers (later ++ seed a contents)).IsChain Succeeds := by
  induction later with
  | nil =>
    rw [List.nil_append]
    match pointers (seed a contents), pointers_seed (a := a) history.initial.distinct with
    | [], _ => exact .nil
    | [cat], _ => exact .singleton cat
  | cons e past ih =>
    have past_history := history.suffix (List.suffix_cons e (past ++ seed a contents))
    have before := ih past_history fun e' member => named e' (.tail _ member)
    rw [List.cons_append]
    cases done : committed e with
    | none => simpa [pointers, done] using before
    | some cat =>
      obtain ⟨i, mine⟩ := named e (.head _)
      obtain ⟨new, same, prev, _, _, current, _, _, _, _, previous⟩ :=
        history.links List.suffix_rfl mine (effect_of_committed done)
      cases same
      have head : (pointers (past ++ seed a contents)).head? = _ := head_pointers current
      have listed : pointers (e :: (past ++ seed a contents)) =
          cat :: pointers (past ++ seed a contents) := by simp [pointers, done]
      rw [listed]
      cases rest : pointers (past ++ seed a contents) with
      | nil => exact .singleton cat
      | cons next more =>
        rw [rest] at head before
        cases head
        exact .cons_cons previous before

theorem mutate_history (initial : InitialCatalog a contents)
    (history : History a (seed a contents) (fun i => mutateSnapshot (calls i)) c) :
    MutateHistory a contents calls c.trace :=
  swap_history initial history fun _ _ _ moment mine =>
    history.guarantee mutateSnapshot_keeps_rule moment mine

/-- A finished call committed what it returned, or its callback left the snapshot
as it was. -/
theorem MutateHistory.finished (history : MutateHistory a contents calls t)
    (outcome : MutateOutcome (calls i) [] (.ok snap) (own i t)) :
    (∃ cat, commitsBy i t = [cat] ∧ Stored (B := Content) cat.currentSnapshotKey
      (.snapshot snap) t) ∨
      (commitsBy i t = [] ∧ ((calls i).mutateFn.run snap).Returns (.draft snap)) := by
  generalize events : own i t = es at outcome
  cases outcome with
  | committed s tag audit valid spares =>
    have last : (⟨s.swap, .ok tag⟩ :: s.prepared (calls i)) <:+ own i t :=
      events ▸ List.suffix_append audit _
    obtain ⟨e, past, moment, _, _, ownEq⟩ := exists_own last
    have earlier := moment.past
    exact .inl ⟨s.pointer, history.commitsBy_of_swapped (last.subset (.head _)),
      (history.stored_draft earlier ownEq).grow earlier⟩
  | unchanged s read runs unswapped =>
    refine .inr ⟨history.commitsBy_nil ?_, _, runs⟩
    obtain ⟨new, same, lost⟩ := unswapped
    rw [List.append_nil] at same
    have callback : Lost s.callback :=
      .of_spares (((calls i).mutateFn.spares s.base).runs runs).2
    rw [events, Attempt.computed, same]
    exact callback.append ((lost_of_readOnly read.readOnly).append (lost.cons (by simp)))

end Chain

/-- **Concurrent snapshot mutations form one linear chain.** -/
theorem mutateSnapshot_commits_one_chain (a : Adapter Content) (contents : List (Key × Val))
    (initial : InitialCatalog a contents) (calls : Nat → MutateCall)
    (c : Config Content HubError Snapshot)
    (reach : Reaches a ⟨seed a contents, fun i => mutateSnapshot (calls i)⟩ c) :
    (∀ e past i w, (e :: past) <:+ c.trace → e.thread = some i → e.effect .catalog = some w →
      ∃ new, w = some (.catalog new) ∧ Links (calls i) past new) ∧
    (pointers c.trace).IsChain Succeeds ∧ ∀ i, (commitsBy i c.trace).length ≤ 1 ∧
      (∀ snap, c.prog i = .ret snap → (∃ cat, commitsBy i c.trace = [cat] ∧
          Stored (B := Content) cat.currentSnapshotKey (.snapshot snap) c.trace) ∨
        (commitsBy i c.trace = [] ∧ ((calls i).mutateFn.run snap).Returns (.draft snap))) ∧
      (∀ message, c.prog i = .raise (.conflict message) → commitsBy i c.trace = []) ∧
      ((∀ base result, ((calls i).mutateFn.run base).Returns result → result = .draft base) →
        commitsBy i c.trace = []) := by
  have run := reach.history (seeds_seed a contents)
  have history := mutate_history initial run
  refine ⟨?_, ?_, ?_⟩
  · intro e past i w moment mine effect
    exact history.links moment mine effect
  · obtain ⟨later, same, named⟩ := run.grown
    rw [same] at history ⊢
    exact history.pointers_chain named
  · intro i
    refine ⟨history.commitsBy_le_one i, ?_, ?_, ?_⟩
    · intro snap returned
      exact history.finished (run.returned (mutateSnapshot_keeps_rule i) returned)
    · intro message raised
      have outcome := run.raised (mutateSnapshot_keeps_rule i) raised
      generalize events : own i c.trace = es at outcome
      cases outcome with
      | failed _ new lost =>
        rw [List.append_nil] at events
        exact history.commitsBy_nil (events ▸ lost)
    · intro idle
      refine List.filterMap_eq_nil_iff.mpr fun e member => ?_
      obtain ⟨member, mine⟩ := List.mem_filter.mp member
      cases done : committed e with
      | none => rfl
      | some cat =>
        obtain ⟨past, moment⟩ := exists_past member
        obtain ⟨new, _, _, base, result, _, _, returns, changed, _⟩ :=
          history.links moment (of_decide_eq_true mine) (effect_of_committed done)
        exact absurd (idle base result returns) changed

/-! ## A race of two calls -/

namespace Race

def adapter : Adapter Content := ⟨fun _ version => version, 1⟩

def contents : List (Key × Val) :=
  [(.catalog, .catalog ⟨1, 0, 0, .snapshot 0, none⟩),
    (.snapshot 0, .snapshot ⟨0, 1, 0, "system.initialize", "user-1", []⟩)]

def calls (_ : Nat) : MutateCall := ⟨"project.update", "user-1", .pure .fresh, defaultRetries⟩

/-- Both calls prepare a snapshot; the second loses its swap, cleans up and tries
again. -/
def schedule : List (Move Content) :=
  turns 0 1 [.ok, .ok, .ok, .id 1, .ok, .ok] ++ turns 1 2 [.ok, .ok, .ok, .id 2, .ok, .ok] ++
  [⟨0, 3, .ok⟩] ++ turns 1 4 [.ok, .ok] ++ turns 1 5 [.ok, .ok, .ok, .id 3, .ok, .ok] ++
  turns 1 6 [.ok, .id 4, .ok]

theorem initial : InitialCatalog adapter contents := by
  refine ⟨by decide, ?_, ?_⟩
  · intro n v member
    simp [contents] at member
    simp [member.1, adapter]
  · intro v member
    simp [contents] at member
    exact ⟨_, member, rfl, by decide⟩

end Race

theorem mutateSnapshot_commits_one_chain_race : ∃ c, Reaches Race.adapter
        ⟨seed Race.adapter Race.contents, fun i => mutateSnapshot (Race.calls i)⟩ c ∧
      (commitsBy 0 c.trace).length = 1 ∧ (commitsBy 1 c.trace).length = 1 ∧
      (pointers c.trace).length = 3 ∧ (pointers c.trace).IsChain Succeeds := by
  obtain ⟨c, reach, observed⟩ := Config.play_any Race.adapter
    ⟨seed Race.adapter Race.contents, fun i => mutateSnapshot (Race.calls i)⟩ Race.schedule
    (fun c => (commitsBy 0 c.trace).length = 1 ∧ (commitsBy 1 c.trace).length = 1 ∧
      (pointers c.trace).length = 3) (by decide)
  have facts := observed
  exact ⟨c, reach, facts.1, facts.2.1, facts.2.2,
    (mutateSnapshot_commits_one_chain _ _ Race.initial _ c reach).2.1⟩

end MarimoHub.Guarantees
