import Mathlib.Order.Basic
import MarimoHub.Source.LazyMap

/-!
# Loads of the bounded cache

`LoadsMove` lists what an event can do to the loads of a key. A load that still runs and was not
superseded is the pending one (`Owned`), so an invalidation reaches every load that could still
store a value, and until then callers find the pending load.
-/

namespace MarimoHub.Guarantees.Caches

open Source.Caches

variable {K V : Type} [DecidableEq K] {key : K} {map : LazyMap K V} {event : LazyEvent K V}

/-! ## The entries -/

omit [DecidableEq K] in
theorem length_evict : (evict maxSize values).length ≤ maxSize := by
  induction values with
  | nil => simp [evict]
  | cons oldest rest ih =>
    rw [evict]
    split
    · exact ih
    · simpa using by omega

theorem lookup_lruGet : (lruGet key values).lookup key = values.lookup key := by
  unfold lruGet
  split
  · rfl
  · next value found =>
    have gone : (lruDelete key values).lookup key = none := by
      rw [List.lookup_eq_none_iff]
      intro entry member
      have other := (List.mem_filter.mp member).2
      simpa using Ne.symm (of_decide_eq_true other)
    simp [List.lookup_append, gone, found]

theorem length_lruGet : (lruGet key values).length ≤ values.length := by
  unfold lruGet
  split
  · exact Nat.le_refl _
  · next value found =>
    obtain ⟨before, after, rfl, -⟩ := List.lookup_eq_some_iff.mp found
    have shorter : (lruDelete key (before ++ (key, value) :: after)).length <
        (before ++ (key, value) :: after).length :=
      List.length_filter_lt_length_iff_exists.mpr ⟨(key, value), by simp, by simp⟩
    rw [List.length_append, List.length_singleton]
    exact shorter

/-- The key an event is about; `clear` is about all of them. -/
def about : LazyEvent K V → Option K
  | .get key | .reload key _ | .set key _ | .delete key => some key
  | .loaded key _ _ | .failed key _ | .finish key _ => some key
  | .clear => none

/-- What an event can do to the entries. -/
inductive ValuesMove (maxSize : Nat) (event : LazyEvent K V) (values : List (K × V)) :
    List (K × V) → Prop where
  | kept : ValuesMove maxSize event values values
  | got (k : K) (own : about event = some k) : ValuesMove maxSize event values (lruGet k values)
  | set (k : K) (value : V) (own : about event = some k) :
      ValuesMove maxSize event values (lruSet maxSize k value values)
  | deleted (k : K) : ValuesMove maxSize event values (lruDelete k values)
  | cleared : ValuesMove maxSize event values []

theorem values_step (map : LazyMap K V) :
    ValuesMove maxSize event map.values (map.step maxSize event).values := by
  cases event with
  | get key =>
    simp only [LazyMap.step, LazyMap.get]
    split
    · exact .got key rfl
    · exact .kept
  | reload key force => exact .kept
  | set key value => exact .set key value rfl
  | delete key => exact .deleted key
  | clear => exact .cleared
  | loaded key n value =>
    simp only [LazyMap.step]
    split
    · exact .kept
    · dsimp only
      split
      · exact .set key value rfl
      · exact .got key rfl
  | failed key n | finish key n =>
    simp only [LazyMap.step]
    split <;> exact .kept

theorem ValuesMove.length (move : ValuesMove maxSize event values next)
    (bounded : values.length ≤ maxSize) : next.length ≤ maxSize := by
  cases move with
  | kept => exact bounded
  | got => exact Nat.le_trans length_lruGet bounded
  | set => exact length_evict
  | deleted => exact Nat.le_trans (List.length_filter_le ..) bounded
  | cleared => exact Nat.zero_le _

/-! ## The loads of a key -/

/-- `set`, `delete`, `clear` and a forced `reload` of the key. -/
def Invalidates (key : K) : LazyEvent K V → Prop
  | .reload k force => k = key ∧ force = true
  | .set k _ | .delete k => k = key
  | .clear => True
  | _ => False

/-- What an event can do to the loads of the key. -/
inductive LoadsMove (key : K) (event : LazyEvent K V) (loads : Loads) : Loads → Prop where
  | other (spared : ¬ Invalidates key event) : LoadsMove key event loads loads
  | reloaded (force : Bool) (hit : Invalidates key event ↔ force) :
      LoadsMove key event loads (loads.reload force).2
  | superseded (hit : Invalidates key event) : LoadsMove key event loads loads.supersede
  | cleared (hit : Invalidates key event) :
      LoadsMove key event loads { loads.supersede with pending := none }
  | settled (n : Nat) (spared : ¬ Invalidates key event) (runs : loads.stage n = .running) :
      LoadsMove key event loads (loads.settle n)
  | finished (n : Nat) (own : event = .finish key n) (done : loads.stage n = .settled) :
      LoadsMove key event loads (loads.finish n)

theorem LoadsMove.change (k : K) (f : Loads → Loads) (spared : k ≠ key → ¬ Invalidates key event)
    (own : k = key → LoadsMove key event (map.loads k) (f (map.loads k))) :
    LoadsMove key event (map.loads key) ((map.change k f).loads key) := by
  by_cases same : k = key
  · subst same
    simpa [LazyMap.change] using own rfl
  · simpa [LazyMap.change, Ne.symm same] using .other (spared same)

theorem loads_step (maxSize : Nat) :
    LoadsMove key event (map.loads key) ((map.step maxSize event).loads key) := by
  cases event with
  | get k =>
    simp only [LazyMap.step, LazyMap.get]
    split
    · exact .other id
    · exact .change k (·.reload false |>.2) (fun _ => id) fun _ =>
        .reloaded false (by simp [Invalidates])
  | reload k force =>
    exact .change k (·.reload force |>.2) (fun different hit => different hit.1) fun same =>
      .reloaded force (by simp [Invalidates, same])
  | set k value | delete k => exact .change k _ id fun same => .superseded same
  | clear => exact .cleared trivial
  | loaded k n value | failed k n =>
    simp only [LazyMap.step]
    split
    · exact .other id
    · next runs =>
      exact .change k (·.settle n) (fun _ => id) fun _ => .settled n id (not_not.mp runs)
  | finish k n =>
    simp only [LazyMap.step]
    split
    · exact .other id
    · next done =>
      exact .change k _ (fun _ => id) fun same => .finished n (same ▸ rfl) (not_not.mp done)

/-- A load that still runs and was not superseded is the pending one. -/
structure Owned (loads : Loads) : Prop where
  fresh : ∀ n, loads.next ≤ n → loads.stage n = .unstarted
  owned : ∀ n, loads.stage n = .running → loads.superseded n = false → loads.pending = some n

/-- The load was started and can store no value any more. -/
def Stale (n : Nat) (loads : Loads) : Prop :=
  loads.stage n ≠ .unstarted ∧ (loads.superseded n = true ∨ loads.stage n ≠ .running)

/-- Callers wait for this load. -/
def Shared (n : Nat) (loads : Loads) : Prop := loads.pending = some n ∧ loads.superseded n = false

theorem reload_cases (loads : Loads) (force : Bool) :
    (∃ n, Shared n loads ∧ force = false ∧ loads.reload force = (n, loads)) ∨
      loads.reload force = (loads.next, loads.supersede.start) := by
  unfold Loads.reload
  split
  · next n found =>
    obtain ⟨waits, kept⟩ := Option.filter_eq_some_iff.mp found
    simp only [Bool.and_eq_true, Bool.not_eq_true'] at kept
    exact .inl ⟨n, ⟨waits, kept.1⟩, kept.2, rfl⟩
  · exact .inr rfl

theorem reload_shared (loads : Loads) :
    Shared (loads.reload false).1 (loads.reload false).2 := by
  rcases reload_cases loads false with ⟨n, shared, -, eq⟩ | eq
  · rwa [eq]
  · rw [eq]
    exact ⟨rfl, Function.update_self ..⟩

/-- `supersede` reaches every load that was started. -/
theorem Owned.supersede (held : Owned loads) :
    Owned loads.supersede ∧ ∀ n, loads.stage n ≠ .unstarted → Stale n loads.supersede := by
  obtain ⟨fresh, owned⟩ := held
  refine ⟨⟨fresh, ?_⟩, ?_⟩ <;> simp only [Loads.supersede, Stale] <;> grind

theorem Owned.restart (held : Owned loads) : Owned loads.supersede.start ∧
    ∀ n, loads.stage n ≠ .unstarted → Stale n loads.supersede.start := by
  obtain ⟨⟨fresh, owned⟩, stale⟩ := held.supersede
  refine ⟨⟨?_, ?_⟩, fun n begun => ?_⟩
  · simp only [Loads.start, Function.update_apply]
    grind
  · simp only [Loads.start, Function.update_apply]
    grind [Stale, Loads.supersede]
  · have old := stale n begun
    have different : n ≠ loads.supersede.next :=
      fun same => old.1 (fresh n (Nat.le_of_eq same.symm))
    simpa only [Stale, Loads.start, Function.update_of_ne different] using old

omit [DecidableEq K] in
theorem Owned.move (held : Owned loads) (move : LoadsMove key event loads next) :
    Owned next ∧ (Stale n loads → Stale n next) := by
  obtain ⟨fresh, owned⟩ := id held
  have started := held.restart
  cases move with
  | other => exact ⟨held, id⟩
  | reloaded force =>
    rcases reload_cases loads force with ⟨m, -, -, eq⟩ | eq <;> rw [eq]
    exacts [⟨held, id⟩, ⟨started.1, fun stale => started.2 n stale.1⟩]
  | superseded => exact ⟨held.supersede.1, fun stale => held.supersede.2 n stale.1⟩
  | cleared => refine ⟨⟨fresh, ?_⟩, ?_⟩ <;> simp only [Loads.supersede, Stale] <;> grind
  | settled m _ runs =>
    refine ⟨⟨?_, ?_⟩, ?_⟩ <;>
      simp only [Loads.settle, Stale, Function.update_apply] <;> grind
  | finished m _ done =>
    refine ⟨⟨?_, ?_⟩, ?_⟩ <;>
      simp only [Loads.finish, Stale, Function.update_apply] <;> grind

omit [DecidableEq K] in
theorem Owned.invalidated (held : Owned loads) (hit : Invalidates key event)
    (move : LoadsMove key event loads next) (begun : loads.stage n ≠ .unstarted) :
    Stale n next := by
  cases move with
  | other spared | settled _ spared => exact absurd hit spared
  | reloaded force forced =>
    rcases reload_cases loads force with ⟨m, -, plain, -⟩ | eq
    · simp [forced.mp hit] at plain
    · rw [eq]
      exact held.restart.2 n begun
  | superseded | cleared => exact held.supersede.2 n begun
  | finished _ own => simp [own, Invalidates] at hit

theorem Shared.reload (shared : Shared n loads) : loads.reload false = (n, loads) := by
  simp [Loads.reload, shared.1, Option.filter, shared.2]

omit [DecidableEq K] in
theorem Shared.move (shared : Shared n loads) (move : LoadsMove key event loads next)
    (spared : ¬ Invalidates key event ∧ event ≠ .finish key n) : Shared n next := by
  cases move with
  | other | settled => exact shared
  | reloaded force hit =>
    cases force with
    | false => rwa [shared.reload]
    | true => exact absurd (hit.mpr rfl) spared.1
  | superseded hit | cleared hit => exact absurd hit spared.1
  | finished m own =>
    have different : n ≠ m := fun same => spared.2 (same ▸ own)
    exact ⟨by simp [Loads.finish, shared.1, different], shared.2⟩

/-! ## Whole runs -/

theorem run_keeps (n : Nat) (key : K) (held : ∀ key, Owned (map.loads key))
    (bounded : map.values.length ≤ maxSize) :
    (∀ key, Owned ((map.run maxSize events).loads key)) ∧
      (map.run maxSize events).values.length ≤ maxSize ∧
      (Stale n (map.loads key) → Stale n ((map.run maxSize events).loads key)) := by
  induction events generalizing map with
  | nil => exact ⟨held, bounded, id⟩
  | cons event rest ih =>
    have moved (key : K) : Owned ((map.step maxSize event).loads key) ∧ (Stale n _ → Stale n _) :=
      (held key).move (loads_step maxSize)
    obtain ⟨owned, size, stale⟩ := ih (fun key => (moved key).1) ((values_step map).length bounded)
    exact ⟨owned, size, stale ∘ (moved key).2⟩

theorem run_shared (shared : Shared n (map.loads key))
    (spared : ∀ event ∈ events, ¬ Invalidates key event ∧ event ≠ .finish key n) :
    Shared n ((map.run maxSize events).loads key) := by
  induction events generalizing map with
  | nil => exact shared
  | cons event rest ih =>
    rw [List.forall_mem_cons] at spared
    exact ih (shared.move (loads_step maxSize) spared.1) spared.2

theorem Stale.lookup_step (stale : Stale n (map.loads key)) (reaction : LazyEvent K V)
    (own : reaction ∈ [.loaded key n value, .failed key n, .finish key n]) :
    (map.step maxSize reaction).values.lookup key = map.values.lookup key := by
  simp only [List.mem_cons, List.not_mem_nil, or_false] at own
  rcases own with rfl | rfl | rfl <;> simp only [LazyMap.step] <;> split <;> try rfl
  next runs =>
  have superseded := stale.2.resolve_right fun settled => settled (not_not.mp runs)
  simp [superseded, lookup_lruGet]

/-- The calls that take a load which is under way. -/
def nonForced : List (LazyMap K V → K → Option Nat × LazyMap K V) :=
  [LazyMap.get, (LazyMap.reload · · false)]

theorem call_cases (map : LazyMap K V) (key : K) {call} (called : call ∈ nonForced) :
    call map key = map.reload key false ∨
      (call map key).1 = none ∧ (call map key).2.loads = map.loads := by
  simp only [nonForced, List.mem_cons, List.not_mem_nil, or_false] at called
  rcases called with rfl | rfl
  · unfold LazyMap.get
    split
    · exact .inr ⟨rfl, rfl⟩
    · exact .inl rfl
  · exact .inl rfl

/-- After an invalidation of its key a load never changes the cached value; the entries never
exceed the size; and callers share the load they find until it ends or is invalidated. -/
theorem lazy_map_loads (maxSize : Nat) (events : List (LazyEvent K V)) (key : K) (n : Nat) :
    let map := LazyMap.run maxSize {} events
    map.values.length ≤ maxSize ∧
    ((map.loads key).stage n ≠ .unstarted → ∀ event, Invalidates key event → ∀ later value,
      let after := (map.step maxSize event).run maxSize later
      ∀ reaction ∈ [.loaded key n value, .failed key n, .finish key n],
        (after.step maxSize reaction).values.lookup key = after.values.lookup key) ∧
    (∀ first ∈ nonForced, (first map key).1 = some n → ∀ later : List (LazyEvent K V),
      (∀ event ∈ later, ¬ Invalidates key event ∧ event ≠ .finish key n) →
      let after := (first map key).2.run maxSize later
      ∀ second ∈ nonForced, (∀ m, (second after key).1 = some m → m = n) ∧
        (second after key).2.loads key = after.loads key) := by
  intro map
  obtain ⟨owned, bounded, -⟩ : (∀ key, Owned (map.loads key)) ∧ map.values.length ≤ maxSize ∧
      (Stale n (Loads.mk none _ _ 0) → Stale n (map.loads key)) :=
    run_keeps n key (fun _ => ⟨fun _ _ => rfl, fun _ runs => nomatch runs⟩) (Nat.zero_le maxSize)
  refine ⟨bounded, fun begun event hit later value => ?_, fun first called waits later spared => ?_⟩
  · have stale := (owned key).invalidated hit (loads_step maxSize) begun
    refine Stale.lookup_step
      ((run_keeps n key (fun k => ?_) ((values_step map).length bounded)).2.2 stale)
    exact ((owned k).move (n := n) (loads_step maxSize)).1
  · rcases call_cases map key called with eq | ⟨none, -⟩
    · have shared : Shared n ((first map key).2.loads key) := by
        rw [eq] at waits ⊢
        simpa [LazyMap.reload, LazyMap.change, ← Option.some.inj waits] using reload_shared _
      intro after second called
      have kept : Shared n (after.loads key) := run_shared shared spared
      rcases call_cases after key called with eq | ⟨none, same⟩
      · simp [eq, LazyMap.reload, LazyMap.change, kept.reload, eq_comm]
      · exact ⟨by simp [none], congrFun same key⟩
    · cases none.symm.trans waits

end MarimoHub.Guarantees.Caches
