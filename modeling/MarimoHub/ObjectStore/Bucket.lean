import Mathlib.Data.List.Forall2

/-!
# An object store seen by concurrent clients

The state of the store is the list of what happened to it, newest first. Each
event records which client acted, when, the operation with its response, and
whether a write took effect: a write whose response was lost may have been
applied. What the store holds under a key is read off the events, so a fact about
an earlier moment stays true as the list grows.

`Accepts past e` says which responses the store may give after `past`:
reads see the latest applied write, conditional writes check their condition and
apply in one step, and a lost precondition means the write was not applied. A
conditional write may also be refused although its condition holds. Entity tags
determine the contents they were issued for, but identical contents may or may
not get a new tag. Any request may fail, and time never runs backwards.
-/

namespace List

theorem IsSuffix.past (moment : x :: q <:+ t) : q <:+ t := (suffix_cons x q).trans moment

theorem IsSuffix.cons (earlier : q <:+ t) : q <:+ x :: t := earlier.trans (suffix_cons x t)

theorem Forall₂.mem_left (all : Forall₂ R l l') (member : x ∈ l) : ∃ y ∈ l', R x y := by
  induction all with
  | nil => cases member
  | cons here _ ih =>
    rcases mem_cons.mp member with rfl | inside
    · exact ⟨_, .head _, here⟩
    · obtain ⟨y, also, related⟩ := ih inside
      exact ⟨y, .tail _ also, related⟩

theorem Forall₂.mem_right (all : Forall₂ R l l') (member : x ∈ l') : ∃ y ∈ l, R y x := by
  obtain ⟨y, also, related⟩ := all.flip.mem_left member
  exact ⟨y, also, related⟩

end List

namespace MarimoHub.ObjectStore

/-- Keys, stored values, and the questions clients ask of services outside the
store. -/
structure Schema where
  Key : Type
  Val : Type
  Query : Type
  Answer : Query → Type
  [keyEq : DecidableEq Key]
  [valEq : DecidableEq Val]
  [queryEq : DecidableEq Query]

attribute [instance] Schema.keyEq Schema.valEq Schema.queryEq

/-- An entity tag. Clients only pass tags back to the store and compare them. -/
structure Etag (B : Schema) where
  stamp : Nat
  value : B.Val
deriving DecidableEq

inductive Cond (B : Schema) where
  | any
  | ifMatch (tag : Etag B)
  | ifAbsent
deriving DecidableEq

inductive Op (B : Schema) where
  | get (k : B.Key)
  /-- Ask a local cache of immutable objects, filled by earlier reads and writes. -/
  | peek (k : B.Key)
  | put (k : B.Key) (v : B.Val) (c : Cond B)
  | delete (k : B.Key)
  | list (p : B.Key → Bool)
  | now
  /-- Draw a random identifier. -/
  | mint
  | ask (q : B.Query)

inductive GetRes (B : Schema) where
  | found (v : B.Val) (tag : Etag B)
  | absent
  | fail

inductive RecallRes (B : Schema) where
  | hit (v : B.Val)
  | miss
  /-- Another caller's load of the same key is shared, and it found nothing. -/
  | absent
  | fail

inductive PutRes (B : Schema) where
  | ok (tag : Etag B)
  /-- The precondition failed. -/
  | lost
  | fail

inductive DeleteRes where
  | ok
  | fail
deriving DecidableEq

/-- A listed object with the time it was last written. -/
structure Listed (B : Schema) where
  key : B.Key
  uploaded : Nat
deriving DecidableEq

inductive ListRes (B : Schema) where
  | entries (es : List (Listed B))
  | fail

@[reducible] def Res {B : Schema} : Op B → Type
  | .get _ => GetRes B
  | .peek _ => RecallRes B
  | .put _ _ _ => PutRes B
  | .delete _ => DeleteRes
  | .list _ => ListRes B
  | .now => Nat
  | .mint => Nat
  | .ask q => B.Answer q

/-- An operation with its response: all that the client itself sees. -/
structure Ev (B : Schema) where
  op : Op B
  res : Res op

/-- What one client has done, its last operation first. -/
abbrev Log (B : Schema) : Type := List (Ev B)

/-- What a client may do after its own operations. -/
abbrev Rule (B : Schema) : Type := Log B → Op B → Prop

/-- What holds of a result and of the operations up to it. -/
abbrev Post (B : Schema) (ε α : Type) : Type := Except ε α → Log B → Prop

/-- One thing that happened. `thread` is `none` for what the store held before the
run. -/
structure Event (B : Schema) extends Ev B where
  thread : Option Nat
  time : Nat
  applied : Bool

/-- The events of a run, newest first. -/
abbrev Trace (B : Schema) : Type := List (Event B)

variable {B : Schema} {e : Event B} {k : B.Key} {v : B.Val} {c : Cond B} {r : PutRes B}
  {t past : Trace B} {i : Nat}

/-! ## Contents -/

/-- What the event did to key `k`: nothing, a deletion, or a write. -/
def Event.effect (e : Event B) (k : B.Key) : Option (Option B.Val) :=
  match e.op with
  | .put k' v _ => if e.applied = true ∧ k' = k then some (some v) else none
  | .delete k' => if e.applied = true ∧ k' = k then some none else none
  | _ => none

/-- The object stored under `k`. -/
def lookup (k : B.Key) : Trace B → Option B.Val
  | [] => none
  | e :: past => (e.effect k).getD (lookup k past)

/-- How often `k` was written or deleted. -/
def version (k : B.Key) : Trace B → Nat
  | [] => 0
  | e :: past => if (e.effect k).isSome then version k past + 1 else version k past

/-- When the object stored under `k` was written. -/
def uploaded (k : B.Key) : Trace B → Nat
  | [] => 0
  | e :: past => if (e.effect k).isSome then e.time else uploaded k past

/-- `v` was stored under `k` at some time. -/
def Stored (k : B.Key) (v : B.Val) (t : Trace B) : Prop :=
  ∃ e ∈ t, e.effect k = some (some v)

/-- Every identifier drawn so far. -/
def minted : Trace B → List Nat
  | [] => []
  | ⟨⟨.mint, n⟩, _, _, _⟩ :: past => n :: minted past
  | _ :: past => minted past

def lastTime : Trace B → Nat
  | [] => 0
  | e :: _ => e.time

/-- The events of one client, as it sees them. -/
def own (i : Nat) : Trace B → Log B
  | [] => []
  | e :: past => if e.thread = some i then e.toEv :: own i past else own i past

@[simp] theorem lookup_cons : lookup k (e :: past) = (e.effect k).getD (lookup k past) := rfl

/-- Only an applied `put` leaves a value. -/
theorem effect_write (wrote : e.effect k = some (some v)) :
    ∃ c r, e.toEv = ⟨.put k v c, r⟩ ∧ e.applied = true := by
  obtain ⟨⟨o, r⟩, thread, time, applied⟩ := e
  cases o <;> simp [Event.effect] at wrote
  obtain ⟨⟨done, rfl⟩, rfl⟩ := wrote
  exact ⟨_, r, rfl, done⟩

/-- Only an applied `delete` removes. -/
theorem effect_remove (removed : e.effect k = some none) :
    ∃ r, e.toEv = ⟨.delete k, r⟩ ∧ e.applied = true := by
  obtain ⟨⟨o, r⟩, thread, time, applied⟩ := e
  cases o <;> simp [Event.effect] at removed
  obtain ⟨done, rfl⟩ := removed
  exact ⟨r, rfl, done⟩

/-- A client whose rule has no `delete` of the object changes it only by a `put`. -/
theorem written_under {R : Op B → Prop} (rule : R e.op)
    (effect : e.effect k = some w) (kept : ¬ R (.delete k)) :
    ∃ v c r, w = some v ∧ e.toEv = ⟨.put k v c, r⟩ ∧ e.applied = true ∧ R (.put k v c) := by
  cases w with
  | none =>
    obtain ⟨r, shape, _⟩ := effect_remove effect
    rw [show e.op = _ from congrArg Ev.op shape] at rule
    exact absurd rule kept
  | some v =>
    obtain ⟨c, r, shape, applied⟩ := effect_write effect
    rw [show e.op = _ from congrArg Ev.op shape] at rule
    exact ⟨v, c, r, rfl, shape, applied, rule⟩

theorem effect_put (shape : e.toEv = ⟨.put k v c, r⟩) (j : B.Key) :
    e.effect j = if e.applied = true ∧ k = j then some (some v) else none := by
  obtain ⟨⟨o, r⟩, thread, time, applied⟩ := e
  cases shape
  rfl

theorem effect_delete {r : DeleteRes} (shape : e.toEv = ⟨.delete k, r⟩) (j : B.Key) :
    e.effect j = if e.applied = true ∧ k = j then some none else none := by
  obtain ⟨⟨o, r⟩, thread, time, applied⟩ := e
  cases shape
  rfl

theorem stored_of_lookup (found : lookup k t = some v) : Stored k v t := by
  induction t with
  | nil => simp [lookup] at found
  | cons e past ih =>
    rw [lookup_cons] at found
    cases effect : e.effect k with
    | none =>
      rw [effect] at found
      obtain ⟨w, member, wrote⟩ := ih found
      exact ⟨w, .tail _ member, wrote⟩
    | some now =>
      rw [effect] at found
      exact ⟨e, .head _, by rw [effect]; exact congrArg some found⟩

theorem Stored.grow (stored : Stored k v past) (grown : past <:+ t) : Stored k v t := by
  obtain ⟨e, member, wrote⟩ := stored
  exact ⟨e, grown.subset member, wrote⟩

/-- A member of a trace, together with what happened before it. -/
theorem exists_past (member : e ∈ t) : ∃ past, e :: past <:+ t := by
  obtain ⟨later, past, rfl⟩ := List.append_of_mem member
  exact ⟨past, List.suffix_append later _⟩

theorem own_suffix (earlier : past <:+ t) : own i past <:+ own i t := by
  obtain ⟨later, rfl⟩ := earlier
  induction later with
  | nil => exact List.suffix_rfl
  | cons e rest ih =>
    rw [List.cons_append, own]
    split
    · exact ih.cons
    · exact ih

theorem own_cons (mine : e.thread = some i) (past : Trace B) :
    own i (e :: past) = e.toEv :: own i past := by
  rw [own, if_pos mine]

theorem own_cons_other (other : e.thread ≠ some i) (past : Trace B) :
    own i (e :: past) = own i past := by
  rw [own, if_neg other]

/-- An own event happened at some moment of the whole trace. -/
theorem exists_own (earlier : ev :: es <:+ own i t) :
    ∃ e past, e :: past <:+ t ∧ e.thread = some i ∧ e.toEv = ev ∧ own i past = es := by
  induction t with
  | nil => simp [own] at earlier
  | cons e past ih =>
    by_cases mine : e.thread = some i
    · rw [own_cons mine] at earlier
      rcases List.suffix_cons_iff.mp earlier with same | inside
      · cases same
        exact ⟨e, past, List.suffix_rfl, mine, rfl, rfl⟩
      · obtain ⟨e', past', inner, facts⟩ := ih inside
        exact ⟨e', past', inner.cons, facts⟩
    · rw [own_cons_other mine] at earlier
      obtain ⟨e', past', inner, facts⟩ := ih earlier
      exact ⟨e', past', inner.cons, facts⟩

theorem exists_own_mem (member : ev ∈ own i t) :
    ∃ e past, e :: past <:+ t ∧ e.thread = some i ∧ e.toEv = ev := by
  obtain ⟨later, es, split⟩ := List.append_of_mem member
  have inside : ev :: es <:+ own i t := split ▸ List.suffix_append later _
  obtain ⟨e, past, earlier, mine, same, _⟩ := exists_own inside
  exact ⟨e, past, earlier, mine, same⟩

theorem mem_own (member : e ∈ t) (mine : e.thread = some i) : e.toEv ∈ own i t := by
  obtain ⟨past, earlier⟩ := exists_past member
  have inside := own_suffix (i := i) earlier
  rw [own_cons mine] at inside
  exact inside.subset (.head _)

/-! ## Responses -/

/-- What differs between stores: the part of a tag that depends on the version
(constant for content hashes), and where the identifiers drawn start. -/
structure Adapter (B : Schema) where
  stamp : B.Key → Nat → Nat
  firstId : Nat

def Adapter.etag (a : Adapter B) (past : Trace B) (k : B.Key) (v : B.Val) : Etag B :=
  ⟨a.stamp k (version k past), v⟩

def Cond.Holds (a : Adapter B) (past : Trace B) (k : B.Key) : Cond B → Prop
  | .any => True
  | .ifMatch tag => ∃ v, lookup k past = some v ∧ a.etag past k v = tag
  | .ifAbsent => lookup k past = none

/-- The responses the store may give to an operation, with whether it took
effect. -/
def Responds (a : Adapter B) (past : Trace B) (time : Nat) : (o : Op B) → Res o → Bool → Prop
  | .get k, .found v tag, b => lookup k past = some v ∧ tag = a.etag past k v ∧ b = false
  | .get k, .absent, b => lookup k past = none ∧ b = false
  | .get _, .fail, b => b = false
  | .peek k, .hit v, b => Stored k v past ∧ b = false
  | .peek _, _, b => b = false
  | .put k v c, .ok tag, b =>
    c.Holds a past k ∧ tag = ⟨a.stamp k (version k past + 1), v⟩ ∧ b = true
  | .put _ _ c, .lost, b => c ≠ .any ∧ b = false
  | .put k _ c, .fail, b => b = true → c.Holds a past k
  | .delete _, .ok, b => b = true
  | .delete _, .fail, _ => True
  | .list p, .entries es, b =>
    (∀ k u, ⟨k, u⟩ ∈ es ↔ p k = true ∧ (lookup k past).isSome = true ∧ uploaded k past = u) ∧
      (es.map Listed.key).Nodup ∧ b = false
  | .list _, .fail, b => b = false
  | .now, t, b => t = time ∧ b = false
  | .mint, n, b => a.firstId ≤ n ∧ n ∉ minted past ∧ b = false
  | .ask _, _, b => b = false

structure Accepts (a : Adapter B) (past : Trace B) (e : Event B) : Prop where
  forward : lastTime past ≤ e.time
  responds : Responds a past e.time e.op e.res e.applied

variable {p : Trace B → Event B → Prop}

theorem Accepts.responds_of {r : Res o} (accepts : Accepts a past e)
    (shape : e.toEv = ⟨o, r⟩) : Responds a past e.time o r e.applied := by
  obtain ⟨⟨o', r'⟩, thread, time, applied⟩ := e
  cases shape
  exact accepts.responds

/-- A write that took effect found its condition met. -/
theorem Accepts.holds (accepts : Accepts a past e) (shape : e.toEv = ⟨.put k v c, r⟩)
    (done : e.applied = true) : c.Holds a past k := by
  have responds := accepts.responds_of shape
  rw [done] at responds
  cases r with
  | ok t => exact responds.1
  | lost => exact absurd responds.2 (by simp)
  | fail => exact responds rfl

/-- A conditional write that took effect found the value its tag was issued for. -/
theorem Accepts.matched (accepts : Accepts a past e) (shape : e.toEv = ⟨.put k v (.ifMatch tag), r⟩)
    (done : e.applied = true) : lookup k past = some tag.value ∧ a.etag past k tag.value = tag := by
  obtain ⟨w, found, same⟩ := accepts.holds shape done
  have value : tag.value = w := by rw [← same]; rfl
  rw [value]
  exact ⟨found, same⟩

/-- A create-if-absent write that took effect found nothing. -/
theorem Accepts.created (accepts : Accepts a past e) (shape : e.toEv = ⟨.put k v .ifAbsent, r⟩)
    (done : e.applied = true) : lookup k past = none := accepts.holds shape done

/-- A tag that came with a value was issued for it. -/
theorem Accepts.tagged (accepts : Accepts a past e) (shape : e.toEv = ⟨.get k, .found v tag⟩) :
    lookup k past = some v ∧ tag.value = v := by
  have found := accepts.responds_of shape
  exact ⟨found.1, by rw [found.2.1]; rfl⟩

/-! ## Predicates along a run -/

/-- Every event satisfies `p` together with what happened before it. -/
def Along (p : Trace B → Event B → Prop) : Trace B → Prop
  | [] => True
  | e :: past => p past e ∧ Along p past

instance decidableAlong (p : Trace B → Event B → Prop) [∀ past e, Decidable (p past e)] :
    (t : Trace B) → Decidable (Along p t)
  | [] => .isTrue trivial
  | e :: past => @instDecidableAnd (p past e) (Along p past) _ (decidableAlong p past)

theorem Along.at (along : Along p t) (earlier : e :: past <:+ t) : p past e := by
  induction t with
  | nil => simp at earlier
  | cons head tail ih =>
    rcases List.suffix_cons_iff.mp earlier with same | inside
    · cases same
      exact along.1
    · exact ih along.2 inside

theorem Along.suffix (along : Along p t) (earlier : past <:+ t) : Along p past := by
  induction t with
  | nil =>
    rw [List.suffix_nil.mp earlier]
    trivial
  | cons head tail ih =>
    rcases List.suffix_cons_iff.mp earlier with same | inside
    · exact same ▸ along
    · exact ih along.2 inside

theorem along_iff : Along p t ↔ ∀ e past, e :: past <:+ t → p past e := by
  constructor
  · intro along e past earlier
    exact along.at earlier
  · intro all
    induction t with
    | nil => trivial
    | cons head tail ih =>
      refine ⟨all head tail List.suffix_rfl, ih ?_⟩
      intro e past earlier
      exact all e past (earlier.cons)

theorem Along.mono (along : Along p t) (imp : ∀ past e, p past e → q past e) : Along q t :=
  along_iff.mpr fun e past earlier => imp past e (along.at earlier)

end MarimoHub.ObjectStore
