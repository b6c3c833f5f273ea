import Mathlib.Logic.Function.Basic
import MarimoHub.Numbers.Rounding

/-!
# The in-memory sliding-window budget

`rateLimit.ts`: one list of entries per key, trimmed when the key is used again and dropped by a
sweep. A number is the value of a finite double, and a difference is rounded to one; a difference
that overflows is larger than every window in both. A `Map` is its lookup function.
-/

namespace MarimoHub.Source.Budgets

variable {Key : Type} [DecidableEq Key]

structure SlidingWindowBudgetOptions where
  limit : ℚ
  windowMs : ℚ

/-- `id` stands for the identity of the object, which is what `candidate !== entry` compares. -/
structure BudgetEntry where
  id : Nat
  timestamp : ℚ

/-- An admission that was returned: what its `refund` closes over. -/
structure SlidingWindowAdmission (Key : Type) where
  key : Key
  entry : BudgetEntry
  refundable : Bool

structure SlidingWindowBudget (Key : Type) where
  recentByKey : Key → Option (List BudgetEntry)
  lastObservedByKey : Key → Option ℚ
  lastSweptAt : Option ℚ
  /-- Every admission returned so far, in order. -/
  admissions : List (SlidingWindowAdmission Key)

def isSafeInteger (value : ℚ) : Bool := value.den = 1 && -(2 ^ 53) < value && value < 2 ^ 53

def createSlidingWindowBudget (options : SlidingWindowBudgetOptions) :
    Except String (SlidingWindowBudget Key) :=
  if !isSafeInteger options.limit || options.limit < 1 then
    .error "Sliding-window limit must be a positive integer"
  else if options.windowMs ≤ 0 then
    .error "Sliding-window duration must be positive"
  else .ok ⟨fun _ => none, fun _ => none, none, []⟩

variable (options : SlidingWindowBudgetOptions)

/-- `currentTime - timestamp` of two doubles. -/
def elapsed (currentTime timestamp : ℚ) : ℚ := Numbers.rounded 53 (currentTime - timestamp)

def isRecent (currentTime : ℚ) (entry : BudgetEntry) : Bool :=
  elapsed currentTime entry.timestamp < options.windowMs

/-- The sweep over every tracked key. -/
def sweep (budget : SlidingWindowBudget Key) (currentTime : ℚ) : SlidingWindowBudget Key :=
  let idle key := (budget.recentByKey key).any fun entries =>
    entries.all fun entry => !isRecent options currentTime entry
  { budget with
    lastSweptAt := some currentTime
    recentByKey := fun key => if idle key then none else budget.recentByKey key
    lastObservedByKey := fun key => if idle key then none else budget.lastObservedByKey key }

/-- `admit(key, timestamp)`. The answer is the identity of the admission's entry. -/
def admitKey (budget : SlidingWindowBudget Key) (key : Key) (currentTime : ℚ) :
    Option Nat × SlidingWindowBudget Key :=
  let clockRolledBack := (budget.lastObservedByKey key).any (currentTime < ·)
  let budget := if clockRolledBack then
    { budget with recentByKey := Function.update budget.recentByKey key none } else budget
  let budget := if budget.lastSweptAt.all (options.windowMs ≤ elapsed currentTime ·) then
    sweep options budget currentTime else budget
  let budget := { budget with
    lastObservedByKey := Function.update budget.lastObservedByKey key (some currentTime) }
  let recent := ((budget.recentByKey key).getD []).filter (isRecent options currentTime)
  if options.limit ≤ recent.length then (none, budget)
  else
    let entry : BudgetEntry := ⟨budget.admissions.length, currentTime⟩
    (some entry.id, { budget with
      recentByKey := Function.update budget.recentByKey key (some (recent ++ [entry]))
      admissions := budget.admissions ++ [⟨key, entry, true⟩] })

/-- `refundable = false` in the closure of this admission. -/
def spend (key : Key) (id : Nat) (admission : SlidingWindowAdmission Key) :
    SlidingWindowAdmission Key :=
  if admission.key = key ∧ admission.entry.id = id then { admission with refundable := false }
  else admission

/-- `refund()` of the admission of this key with this entry. -/
def refund (budget : SlidingWindowBudget Key) (key : Key) (id : Nat) : SlidingWindowBudget Key :=
  if budget.admissions.any fun a => a.key = key && a.entry.id = id && a.refundable then
    let spent := { budget with admissions := budget.admissions.map (spend key id) }
    match budget.recentByKey key with
    | none => spent
    | some current =>
      let remaining := current.filter (·.id ≠ id)
      if 0 < remaining.length then
        { spent with recentByKey := Function.update budget.recentByKey key (some remaining) }
      else
        { spent with
          recentByKey := Function.update budget.recentByKey key none
          lastObservedByKey := Function.update budget.lastObservedByKey key none }
  else budget

inductive BudgetCall (Key : Type) where
  | admitKey (key : Key) (timestamp : ℚ)
  | refund (key : Key) (id : Nat)

def BudgetCall.timestamp : BudgetCall Key → Option ℚ
  | .admitKey _ timestamp => some timestamp
  | .refund _ _ => none

def BudgetCall.run (budget : SlidingWindowBudget Key) : BudgetCall Key → SlidingWindowBudget Key
  | .admitKey key timestamp => (Budgets.admitKey options budget key timestamp).2
  | .refund key id => Budgets.refund budget key id

end MarimoHub.Source.Budgets
