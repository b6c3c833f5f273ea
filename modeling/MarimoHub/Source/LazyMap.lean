import Mathlib.Data.List.Basic
import Mathlib.Logic.Function.Basic

/-!
# The bounded cache of loaded values

`BoundedLruMap` and `LazyMap` of `cache.ts`. The loads of a key are numbered; a load runs until its
promise settles, and its `finally` follows later. Calls and these reactions come in any order.
-/

namespace MarimoHub.Source.Caches

variable {K V : Type} [DecidableEq K]

/-! ## `BoundedLruMap`: entries in insertion order -/

def lruDelete (key : K) (values : List (K × V)) : List (K × V) := values.filter (·.1 ≠ key)

/-- The `while` loop of `set`. -/
def evict (maxSize : Nat) : List (K × V) → List (K × V)
  | [] => []
  | oldest :: rest => if maxSize < rest.length + 1 then evict maxSize rest else oldest :: rest

def lruSet (maxSize : Nat) (key : K) (value : V) (values : List (K × V)) : List (K × V) :=
  evict maxSize (lruDelete key values ++ [(key, value)])

/-- `get`, which makes the entry the last one. -/
def lruGet (key : K) (values : List (K × V)) : List (K × V) :=
  match values.lookup key with
  | none => values
  | some value => lruDelete key values ++ [(key, value)]

/-! ## The loads of one key -/

inductive LoadStage where
  | unstarted
  | running
  | settled
  | finished
deriving DecidableEq

structure Loads where
  pending : Option Nat := none
  superseded : Nat → Bool := fun _ => false
  stage : Nat → LoadStage := fun _ => .unstarted
  next : Nat := 0

namespace Loads

/-- `state.superseded = true` of the pending load. -/
def supersede (loads : Loads) : Loads :=
  { loads with superseded := fun n => loads.superseded n || loads.pending = some n }

def start (loads : Loads) : Loads where
  pending := some loads.next
  superseded := Function.update loads.superseded loads.next false
  stage := Function.update loads.stage loads.next .running
  next := loads.next + 1

/-- The load whose promise `reload` returns. -/
def reload (loads : Loads) (force : Bool) : Nat × Loads :=
  match loads.pending.filter fun n => !loads.superseded n && !force with
  | some n => (n, loads)
  | none => (loads.next, loads.supersede.start)

def settle (loads : Loads) (n : Nat) : Loads :=
  { loads with stage := Function.update loads.stage n .settled }

/-- `finally`. -/
def finish (loads : Loads) (n : Nat) : Loads :=
  { loads with
    stage := Function.update loads.stage n .finished
    pending := if loads.pending = some n then none else loads.pending }

end Loads

/-! ## `LazyMap` -/

structure LazyMap (K V : Type) where
  values : List (K × V) := []
  loads : K → Loads := fun _ => {}

/-- A call (`getOrLoad` is a `get` or a `reload`), or the reaction to the `n`-th load of a key. -/
inductive LazyEvent (K V : Type) where
  | get (key : K)
  | reload (key : K) (force : Bool)
  | set (key : K) (value : V)
  | delete (key : K)
  | clear
  | loaded (key : K) (n : Nat) (value : V)
  | failed (key : K) (n : Nat)
  | finish (key : K) (n : Nat)

namespace LazyMap

def change (map : LazyMap K V) (key : K) (f : Loads → Loads) : LazyMap K V :=
  { map with loads := Function.update map.loads key (f (map.loads key)) }

def reload (map : LazyMap K V) (key : K) (force : Bool) : Option Nat × LazyMap K V :=
  (some ((map.loads key).reload force).1, map.change key (·.reload force |>.2))

/-- The load the call waits for, or `none` when it returns the cached value. -/
def get (map : LazyMap K V) (key : K) : Option Nat × LazyMap K V :=
  if (map.values.lookup key).isSome then (none, { map with values := lruGet key map.values })
  else map.reload key false

def step (maxSize : Nat) (map : LazyMap K V) : LazyEvent K V → LazyMap K V
  | .get key => (map.get key).2
  | .reload key force => (map.reload key force).2
  | .set key value =>
    { map.change key (·.supersede) with values := lruSet maxSize key value map.values }
  | .delete key => { map.change key (·.supersede) with values := lruDelete key map.values }
  | .clear => { loads := fun key => { (map.loads key).supersede with pending := none } }
  | .loaded key n value =>
    if (map.loads key).stage n ≠ .running then map
    else { map.change key (·.settle n) with
      values := if !(map.loads key).superseded n then lruSet maxSize key value map.values
        else lruGet key map.values }
  | .failed key n =>
    if (map.loads key).stage n ≠ .running then map else map.change key (·.settle n)
  | .finish key n =>
    if (map.loads key).stage n ≠ .settled then map else map.change key (·.finish n)

def run (maxSize : Nat) (map : LazyMap K V) (events : List (LazyEvent K V)) : LazyMap K V :=
  events.foldl (step maxSize) map

end LazyMap

end MarimoHub.Source.Caches
