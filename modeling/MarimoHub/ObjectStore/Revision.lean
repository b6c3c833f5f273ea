import MarimoHub.ObjectStore.Moments

/-!
# Values revised by the clock

A client that reads a value, revises it in steps and writes it back may read the clock several
times in between. `Revised` says that the value was revised by steps that are each allowed at the
latest reading. Time does not run backwards, so the readings lie between the read and the write
and never decrease: what every step keeps, from its reading on, holds when the value is written
(`Revised.at_write`).
-/

namespace MarimoHub.ObjectStore

variable {B : Schema} {τ : Type} {step : Nat → τ → τ → Prop} {base es later : Log B}
  {clock : Option Nat} {x y z : τ} {n start : Nat} {P : Nat → τ → Prop}

/-- `x`, at hand after the events `base`, was revised to the last argument; the option is the
reading of the clock the last steps were made by. -/
inductive Revised (step : Nat → τ → τ → Prop) (base : Log B) (x : τ) :
    Log B → Option Nat → τ → Prop where
  | start : Revised step base x base none x
  | event {es : Log B} {clock : Option Nat} {y : τ} (ev : Ev B) :
      Revised step base x es clock y → Revised step base x (ev :: es) clock y
  | reads {es : Log B} {clock : Option Nat} {y : τ} (n : Nat) :
      Revised step base x es clock y → Revised step base x (⟨.now, n⟩ :: es) (some n) y
  | edit {es : Log B} {n : Nat} {y z : τ} :
      Revised step base x es (some n) y → step n y z → Revised step base x es (some n) z
  /-- Steps that do not depend on the clock. -/
  | always {es : Log B} {clock : Option Nat} {y z : τ} :
      Revised step base x es clock y → (∀ n, Relation.ReflTransGen (step n) y z) →
      Revised step base x es clock z

theorem Revised.suffix (revised : Revised step base x es clock y) : base <:+ es := by
  induction revised with
  | start => exact List.suffix_rfl
  | event ev _ ih => exact ih.cons
  | reads n _ ih => exact ih.cons
  | edit _ _ ih => exact ih
  | always _ _ ih => exact ih

theorem Revised.grow (revised : Revised step base x es clock y) (grown : es <:+ later) :
    Revised step base x later clock y := by
  obtain ⟨new, rfl⟩ := grown
  induction new with
  | nil => exact revised
  | cons ev rest ih => exact .event ev ih

theorem Revised.clock_mem (revised : Revised step base x es (some n) y) :
    ∃ new, es = new ++ base ∧ ⟨.now, n⟩ ∈ new := by
  generalize same : some n = reading at revised
  induction revised with
  | start => cases same
  | event ev _ ih =>
    obtain ⟨new, rfl, member⟩ := ih same
    exact ⟨ev :: new, rfl, .tail _ member⟩
  | reads m earlier _ =>
    cases same
    obtain ⟨new, rfl⟩ := earlier.suffix
    exact ⟨_ :: new, rfl, .head _⟩
  | edit _ _ ih => exact ih same
  | always _ _ ih => exact ih same

/-- Several steps by one reading. -/
theorem Revised.edits (revised : Revised step base x es (some n) y)
    (steps : Relation.ReflTransGen (step n) y z) : Revised step base x es (some n) z := by
  induction steps with
  | refl => exact revised
  | tail _ last ih => exact .edit ih last

/-- What every step keeps, whenever it is made, a revision keeps. -/
theorem Revised.invariant {P : τ → Prop} (preserved : ∀ n y z, P y → step n y z → P z)
    (initial : P x) (revised : Revised step base x es clock y) : P y := by
  induction revised with
  | start => exact initial
  | event ev _ ih => exact ih
  | reads n _ ih => exact ih
  | edit _ allowed ih => exact preserved _ _ _ ih allowed
  | always _ allowed ih =>
    have steps := allowed 0
    clear allowed
    induction steps with
    | refl => exact ih
    | tail _ last kept => exact preserved _ _ _ kept last

/-- The readings of the clock after `base` are at least `start` and never decrease. -/
def Ticking (start : Nat) (base es : Log B) : Prop :=
  ∀ n rest, (⟨.now, n⟩ :: rest) <:+ es → base <:+ rest →
    start ≤ n ∧ ∀ m, ⟨.now, m⟩ ∈ rest → m ≤ n

theorem Ticking.suffix (ticking : Ticking start base later) (earlier : es <:+ later) :
    Ticking start base es :=
  fun n rest inside => ticking n rest (inside.trans earlier)

/-- What every step keeps at its reading, and what time keeps, a revision keeps. -/
theorem Revised.keeps (ticking : Ticking start base es) (forward : ∀ n m y, n ≤ m → P n y → P m y)
    (preserved : ∀ n y z, start ≤ n → P n y → step n y z → P n z) (initial : P start x)
    (revised : Revised step base x es clock y) : P (clock.getD start) y := by
  induction revised with
  | start => exact initial
  | event ev _ ih => exact ih (ticking.suffix (List.suffix_cons _ _))
  | @reads es clock y n earlier ih =>
    have before := ih (ticking.suffix (List.suffix_cons _ _))
    obtain ⟨bound, sorted⟩ := ticking n es List.suffix_rfl earlier.suffix
    refine forward _ _ _ ?_ before
    cases clock with
    | none => exact bound
    | some m =>
      obtain ⟨new, rfl, member⟩ := earlier.clock_mem
      exact sorted m (List.mem_append_left _ member)
  | @edit es n y z earlier allowed ih =>
    obtain ⟨new, rfl, member⟩ := earlier.clock_mem
    obtain ⟨later, rest, rfl⟩ := List.append_of_mem member
    refine preserved n y z (ticking n (rest ++ base) ?_ (List.suffix_append _ _)).1 (ih ticking)
      allowed
    exact ⟨later, by simp⟩
  | @always es clock y z earlier allowed ih =>
    have bound : start ≤ clock.getD start := by
      cases clock with
      | none => exact Nat.le_refl _
      | some n =>
        obtain ⟨new, rfl, member⟩ := earlier.clock_mem
        obtain ⟨later, rest, rfl⟩ := List.append_of_mem member
        exact (ticking n (rest ++ base) ⟨later, by simp⟩ (List.suffix_append _ _)).1
    have steps := allowed (clock.getD start)
    clear allowed
    induction steps with
    | refl => exact ih ticking
    | tail _ last kept => exact preserved _ _ _ bound kept last

section Run

/-- The clock ticks between two events of a client. -/
theorem ticking_own (accepted : Along (Accepts a) past) (moment : g :: q <:+ past)
    (mine : g.thread = some i) : Ticking g.time (own i (g :: q)) (own i past) := by
  intro n rest inside above
  obtain ⟨e, p, later, also, shape, before⟩ := exists_own inside
  have reading : n = e.time := ((accepted.at later).responds_of shape).1
  rw [reading]
  constructor
  · have longer := above.length_le
    rw [own_cons mine, ← before] at longer
    exact time_le accepted (own_order moment later also longer) later
  · intro m member
    rw [← before] at member
    obtain ⟨e', p', earlier, _, shape'⟩ := exists_own_mem member
    have outer : p <:+ past := later.past
    rw [((accepted.at (earlier.trans outer)).responds_of shape').1]
    exact time_le accepted earlier later

/-- A revision keeps, up to the moment of the write, what its steps and time keep. -/
theorem Revised.at_write (accepted : Along (Accepts a) (w :: past)) (moment : g :: q <:+ past)
    (mine : g.thread = some i) (forward : ∀ n m y, n ≤ m → P n y → P m y)
    (preserved : ∀ n y z, g.time ≤ n → P n y → step n y z → P n z) (initial : P g.time x)
    (revised : Revised step (own i (g :: q)) x (own i past) clock y) : P w.time y := by
  have kept := revised.keeps (ticking_own accepted.2 moment mine) forward preserved initial
  refine forward _ _ _ ?_ kept
  cases clock with
  | none => exact time_le accepted moment List.suffix_rfl
  | some n =>
    obtain ⟨new, split, member⟩ := revised.clock_mem
    exact (clock_between accepted moment mine split member).2

end Run

end MarimoHub.ObjectStore
