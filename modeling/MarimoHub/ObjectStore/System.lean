import Mathlib.Logic.Relation
import Mathlib.Logic.Function.Basic
import Mathlib.Data.List.Dedup
import MarimoHub.ObjectStore.Prog

/-!
# Runs of concurrent clients

A configuration is the trace so far with the rest of every client's program. One
step lets one client perform its next operation with a response the store may
give. A client that is never scheduled again has crashed or stalled, and a client
never scheduled at all made no call, so the family `body : Nat → Prog` covers any
number of calls started at any time.

`Reaches.history` is the run lemma: the trace is accepted by the store and every
client's own events are a run of its program. `Reaches.guarantee` combines it with
`Prog.Emits`. The last section plays explicit schedules.
-/

namespace MarimoHub.ObjectStore

variable {B : Schema} {ε α : Type} {t past seeds : Trace B} {e : Event B} {i : Nat}

structure Config (B : Schema) (ε α : Type) where
  trace : Trace B
  prog : Nat → Prog B ε α

inductive Step (a : Adapter B) : Config B ε α → Config B ε α → Prop where
  | perform (t : Trace B) (prog : Nat → Prog B ε α) (i : Nat) (o : Op B)
      (k : Res o → Prog B ε α) (r : Res o) (time : Nat) (applied : Bool) :
      prog i = .op o k → Accepts a t ⟨⟨o, r⟩, some i, time, applied⟩ →
      Step a ⟨t, prog⟩ ⟨⟨⟨o, r⟩, some i, time, applied⟩ :: t, Function.update prog i (k r)⟩

def Reaches (a : Adapter B) : Config B ε α → Config B ε α → Prop :=
  Relation.ReflTransGen (Step a)

/-- What the store held before the run. -/
structure Seeds (a : Adapter B) (seeds : Trace B) : Prop where
  accepted : Along (Accepts a) seeds
  anonymous : ∀ e ∈ seeds, e.thread = none

theorem Seeds.empty (a : Adapter B) : Seeds a [] := ⟨trivial, by simp⟩

/-- Every moment is one of what the store held before the run, or comes after all of it. -/
theorem mem_seeds_or_after (based : seeds <:+ t) (moment : e :: past <:+ t) :
    e ∈ seeds ∨ seeds <:+ past := by
  rcases List.suffix_or_suffix_of_suffix moment based with inside | inside
  · exact .inl (inside.subset (.head _))
  · rcases List.suffix_cons_iff.mp inside with here | before
    · exact .inl (here ▸ (.head _))
    · exact .inr before

/-- Events of clients come after what the store held before the run. -/
theorem Seeds.before (initial : Seeds a seeds) (based : seeds <:+ t)
    (moment : e :: past <:+ t) (mine : e.thread = some i) : seeds <:+ past := by
  rcases mem_seeds_or_after based moment with inside | after
  · have none := initial.anonymous e inside
    rw [mine] at none
    cases none
  · exact after

/-- The run lemma's invariant. -/
structure History (a : Adapter B) (seeds : Trace B) (body : Nat → Prog B ε α)
    (c : Config B ε α) : Prop where
  accepted : Along (Accepts a) c.trace
  threads : ∀ i, Prog.Runs (body i) (own i c.trace) (c.prog i)
  grown : ∃ later, c.trace = later ++ seeds ∧ ∀ e ∈ later, ∃ i, e.thread = some i

variable {a : Adapter B} {seeds : Trace B} {body : Nat → Prog B ε α} {c c' : Config B ε α}
  {p : B.Key → Bool}

theorem own_seeds (initial : Seeds a seeds) (i : Nat) : own i seeds = [] := by
  have none := initial.anonymous
  clear initial
  induction seeds with
  | nil => rfl
  | cons e rest ih =>
    have other : e.thread ≠ some i := by simp [none e (.head _)]
    rw [own_cons_other other]
    exact ih fun e' member => none e' (.tail _ member)

theorem History.start (initial : Seeds a seeds) (body : Nat → Prog B ε α) :
    History a seeds body ⟨seeds, body⟩ where
  accepted := initial.accepted
  threads i := by
    rw [own_seeds initial]
    exact .start
  grown := ⟨[], rfl, by simp⟩

theorem History.step (history : History a seeds body c) (step : Step a c c') :
    History a seeds body c' := by
  cases step with
  | perform t prog i o k r time applied at_op accepts =>
    refine ⟨⟨accepts, history.accepted⟩, ?_, ?_⟩
    · intro j
      by_cases ij : i = j
      · subst ij
        have earlier := history.threads i
        simp only [at_op] at earlier
        simp only [own_cons, Function.update_self]
        exact .op _ o k r earlier
      · have mine : own j (⟨⟨o, r⟩, some i, time, applied⟩ :: t) = own j t :=
          own_cons_other (by simp [ij]) t
        simp only [mine, Function.update_of_ne (Ne.symm ij)]
        exact history.threads j
    · obtain ⟨later, same, named⟩ := history.grown
      simp only at same
      refine ⟨_ :: later, by rw [same, List.cons_append], ?_⟩
      intro e member
      rcases List.mem_cons.mp member with rfl | earlier
      · exact ⟨i, rfl⟩
      · exact named e earlier

/-- Every reachable configuration has an accepted trace, and each client's own
events are a run of its program. -/
theorem Reaches.history (initial : Seeds a seeds) (reach : Reaches a ⟨seeds, body⟩ c) :
    History a seeds body c := by
  induction reach with
  | refl => exact .start initial body
  | tail _ step ih => exact ih.step step

section

variable (history : History a seeds body c)
include history

/-- What no client did, the store held before the run. -/
theorem History.before_run (moment : e :: past <:+ c.trace)
    (anonymous : e.thread = none) : e :: past <:+ seeds := by
  obtain ⟨later, same, named⟩ := history.grown
  rw [same] at moment
  clear same
  induction later with
  | nil => exact moment
  | cons head rest ih =>
    rcases List.suffix_cons_iff.mp moment with here | inside
    · cases here
      obtain ⟨i, thread⟩ := named e (.head _)
      rw [anonymous] at thread
      cases thread
    · exact ih inside fun e' member => named e' (.tail _ member)

theorem History.seeded (member : e ∈ c.trace)
    (anonymous : e.thread = none) : e ∈ seeds := by
  obtain ⟨past, moment⟩ := exists_past member
  exact (history.before_run moment anonymous).subset (.head _)

theorem History.based : seeds <:+ c.trace := by
  obtain ⟨later, same, _⟩ := history.grown
  exact same ▸ List.suffix_append later seeds

/-- Clients act after everything the store held before the run. -/
theorem History.after_seeds (initial : Seeds a seeds)
    (moment : e :: past <:+ c.trace) (mine : e.thread = some i) :
    seeds <:+ past := initial.before history.based moment mine

/-- What happens after the initial contents, some client does. -/
theorem History.thread_of_moment (moment : x :: past <:+ c.trace) (based : seeds <:+ past) :
    ∃ i, x.thread = some i := by
  cases thread : x.thread with
  | some i => exact ⟨i, rfl⟩
  | none =>
    have short := ((history.before_run moment thread).trans based).length_le
    rw [List.length_cons] at short
    omega

end

theorem Reaches.grows (reach : Reaches a c c') : c.trace <:+ c'.trace := by
  induction reach with
  | refl => exact List.suffix_rfl
  | tail _ step ih =>
    cases step with
    | perform => exact ih.cons

section

variable (history : History a seeds body c)
include history

/-- What every client does alone, it does in every run. -/
theorem History.guarantee {G : Nat → Rule B}
    {Q : Nat → Post B ε α}
    (alone : ∀ i, Prog.Emits (G i) (Q i) (body i) []) (earlier : e :: past <:+ c.trace)
    (mine : e.thread = some i) : G i (own i past) e.op := by
  have inside := own_suffix (i := i) earlier
  rw [own_cons mine] at inside
  exact ((alone i).runs (history.threads i)).2 _ _ inside

theorem History.returned (alone : Prog.Emits G Q (body i) []) (done : c.prog i = .ret v) :
    Q (.ok v) (own i c.trace) := by
  have here := (alone.runs (history.threads i)).1
  rw [done] at here
  exact here

theorem History.raised (alone : Prog.Emits G Q (body i) []) (done : c.prog i = .raise err) :
    Q (.error err) (own i c.trace) := by
  have here := (alone.runs (history.threads i)).1
  rw [done] at here
  exact here

end

/-! ## Schedules -/

/-- The environment's part in one step. `ok` is the response of a healthy store. -/
inductive Choice (B : Schema) where
  | ok
  | lost
  | fail (applied : Bool)
  | id (n : Nat)
  | cached (v : B.Val)
  | answer (q : B.Query) (r : B.Answer q)

structure Move (B : Schema) where
  thread : Nat
  time : Nat
  choice : Choice B

/-- One client's next choices, all at one time. -/
def turns (i time : Nat) (choices : List (Choice B)) : List (Move B) :=
  choices.map fun choice => ⟨i, time, choice⟩

def Cond.check (a : Adapter B) (past : Trace B) (k : B.Key) : Cond B → Bool
  | .any => true
  | .ifMatch tag =>
    match lookup k past with
    | some v => a.etag past k v = tag
    | none => false
  | .ifAbsent => (lookup k past).isNone

theorem Cond.check_iff (a : Adapter B) (past : Trace B) (k : B.Key) (c : Cond B) :
    c.check a past k = true ↔ c.Holds a past k := by
  cases c with
  | any => simp [check, Holds]
  | ifMatch tag => cases found : lookup k past <;> simp [check, Holds, found]
  | ifAbsent => simp [check, Holds]

/-- Every key an event wrote or deleted. -/
def touched : Trace B → List B.Key
  | [] => []
  | e :: past =>
    match e.op with
    | .put k _ _ => k :: touched past
    | .delete k => k :: touched past
    | _ => touched past

theorem mem_touched_of_lookup (present : (lookup k t).isSome = true) : k ∈ touched t := by
  induction t with
  | nil => simp [lookup] at present
  | cons e past ih =>
    obtain ⟨⟨o, r⟩, thread, time, applied⟩ := e
    cases o with
    | put k' v c =>
      by_cases same : k' = k
      · simp [touched, same]
      · exact .tail _ (ih (by simpa [Event.effect, same] using present))
    | delete k' =>
      by_cases same : k' = k
      · simp [touched, same]
      · exact .tail _ (ih (by simpa [Event.effect, same] using present))
    | get k' => exact ih (by simpa [Event.effect] using present)
    | peek k' => exact ih (by simpa [Event.effect] using present)
    | _ => exact ih (by simpa [Event.effect] using present)

/-- The objects whose keys satisfy `p`. -/
def listing (p : B.Key → Bool) (t : Trace B) : List (Listed B) :=
  ((touched t).dedup.filter fun k => p k && (lookup k t).isSome).map fun k => ⟨k, uploaded k t⟩

theorem mem_listing (k : B.Key) (u : Nat) :
    ⟨k, u⟩ ∈ listing p t ↔ p k = true ∧ (lookup k t).isSome = true ∧ uploaded k t = u := by
  simp only [listing, List.mem_map, List.mem_filter, List.mem_dedup, Bool.and_eq_true,
    Listed.mk.injEq]
  constructor
  · rintro ⟨k', ⟨_, listed, present⟩, rfl, rfl⟩
    exact ⟨listed, present, rfl⟩
  · rintro ⟨listed, present, rfl⟩
    exact ⟨k, ⟨mem_touched_of_lookup present, listed, present⟩, rfl, rfl⟩

theorem nodup_listing : ((listing p t).map Listed.key).Nodup := by
  rw [listing, List.map_map]
  have same : Listed.key ∘ (fun k : B.Key => (⟨k, uploaded k t⟩ : Listed B)) = id := rfl
  rw [same, List.map_id]
  exact (List.nodup_dedup _).filter _

def resolve (a : Adapter B) (past : Trace B) (time : Nat) :
    (o : Op B) → Choice B → Option (Res o × Bool)
  | .get k, .ok =>
    match lookup k past with
    | some v => some (.found v (a.etag past k v), false)
    | none => some (.absent, false)
  | .get _, .fail _ => some (.fail, false)
  | .peek _, .ok => some (.miss, false)
  | .peek k, .cached v =>
    if past.any (fun e => e.effect k = some (some v)) then some (.hit v, false) else none
  | .put k v c, .ok =>
    if c.check a past k then some (.ok ⟨a.stamp k (version k past + 1), v⟩, true)
    else if c = .any then none else some (.lost, false)
  | .put _ _ c, .lost => if c = .any then none else some (.lost, false)
  | .put k _ c, .fail applied =>
    if applied = true → c.check a past k = true then some (.fail, applied) else none
  | .delete _, .ok => some (.ok, true)
  | .delete _, .fail applied => some (.fail, applied)
  | .list p, .ok => some (.entries (listing p past), false)
  | .list _, .fail _ => some (.fail, false)
  | .now, .ok => some (time, false)
  | .mint, .id n => if a.firstId ≤ n ∧ n ∉ minted past then some (n, false) else none
  | .ask q, .answer q' r => if same : q' = q then some (same ▸ r, false) else none
  | _, _ => none

theorem resolve_responds (resolved : resolve a past time o choice = some (r, applied)) :
    Responds a past time o r applied := by
  cases o with
  | get k =>
    cases choice <;> simp only [resolve, reduceCtorEq] at resolved
    · cases found : lookup k past <;> rw [found] at resolved <;> cases resolved
      · exact ⟨found, rfl⟩
      · exact ⟨found, rfl, rfl⟩
    · cases resolved
      rfl
  | peek k =>
    cases choice <;> simp only [resolve, reduceCtorEq] at resolved
    · cases resolved
      rfl
    · split at resolved
      · next stored =>
        cases resolved
        obtain ⟨e, member, wrote⟩ := List.any_eq_true.mp stored
        exact ⟨⟨e, member, of_decide_eq_true wrote⟩, rfl⟩
      · cases resolved
  | put k v c =>
    cases choice <;> simp only [resolve, reduceCtorEq] at resolved
    · split at resolved
      · next holds =>
        cases resolved
        exact ⟨(Cond.check_iff a past k c).mp holds, rfl, rfl⟩
      · split at resolved
        · cases resolved
        · next conditional =>
          cases resolved
          exact ⟨conditional, rfl⟩
    · split at resolved
      · cases resolved
      · next conditional =>
        cases resolved
        exact ⟨conditional, rfl⟩
    · split at resolved
      · next holds =>
        cases resolved
        exact fun done => (Cond.check_iff a past k c).mp (holds done)
      · cases resolved
  | delete k =>
    cases choice <;> simp only [resolve, reduceCtorEq] at resolved
    · cases resolved
      rfl
    · cases resolved
      trivial
  | list p =>
    cases choice <;> simp only [resolve, reduceCtorEq] at resolved
    · cases resolved
      exact ⟨mem_listing, nodup_listing, rfl⟩
    · cases resolved
      rfl
  | now =>
    cases choice <;> simp only [resolve, reduceCtorEq] at resolved
    cases resolved
    exact ⟨rfl, rfl⟩
  | mint =>
    cases choice <;> simp only [resolve, reduceCtorEq] at resolved
    split at resolved
    · next fresh =>
      cases resolved
      exact ⟨fresh.1, fresh.2, rfl⟩
    · cases resolved
  | ask q =>
    cases choice <;> simp only [resolve, reduceCtorEq] at resolved
    split at resolved
    · cases resolved
      rfl
    · cases resolved

def Config.move (a : Adapter B) (c : Config B ε α) (m : Move B) : Option (Config B ε α) :=
  match c.prog m.thread with
  | .op o k =>
    if lastTime c.trace ≤ m.time then
      match resolve a c.trace m.time o m.choice with
      | some (r, applied) =>
        some ⟨⟨⟨o, r⟩, some m.thread, m.time, applied⟩ :: c.trace,
          Function.update c.prog m.thread (k r)⟩
      | none => none
    else none
  | _ => none

def Config.play (a : Adapter B) : Config B ε α → List (Move B) → Option (Config B ε α)
  | c, [] => some c
  | c, m :: ms => (c.move a m).bind fun c' => c'.play a ms

theorem Config.move_step (moved : c.move a m = some c') : Step a c c' := by
  simp only [Config.move] at moved
  split at moved
  · next o k at_op =>
    split at moved
    · next forward =>
      split at moved
      · next r applied resolved =>
        cases moved
        exact .perform c.trace c.prog m.thread o k r m.time applied at_op
          ⟨forward, resolve_responds resolved⟩
      · cases moved
    · cases moved
  · cases moved

/-- A schedule that plays to its end is a run. -/
theorem Config.play_reaches (played : c.play a ms = some c') : Reaches a c c' := by
  induction ms generalizing c with
  | nil =>
    cases played
    exact .refl
  | cons m rest ih =>
    simp only [Config.play, Option.bind_eq_some_iff] at played
    obtain ⟨next, moved, played⟩ := played
    exact .head (Config.move_step moved) (ih played)

/-- A run with an observable property, found by evaluating a schedule. -/
theorem Config.play_any (a : Adapter B) (c : Config B ε α) (ms : List (Move B))
    (P : Config B ε α → Prop) [DecidablePred P]
    (played : (c.play a ms).any (fun c' => P c') = true) :
    ∃ c', Reaches a c c' ∧ P c' := by
  cases result : c.play a ms with
  | none => simp [result] at played
  | some c' => exact ⟨c', Config.play_reaches result, by simpa [result] using played⟩

/-- Whether two operations are the same, as far as that can be decided. -/
def Op.same? : (o o' : Op B) → Option (PLift (o = o'))
  | .get k, .get k' => if same : k = k' then some ⟨by rw [same]⟩ else none
  | .peek k, .peek k' => if same : k = k' then some ⟨by rw [same]⟩ else none
  | .put k v c, .put k' v' c' =>
    if same : k = k' ∧ v = v' ∧ c = c' then some ⟨by rw [same.1, same.2.1, same.2.2]⟩ else none
  | .delete k, .delete k' => if same : k = k' then some ⟨by rw [same]⟩ else none
  | .now, .now => some ⟨rfl⟩
  | .mint, .mint => some ⟨rfl⟩
  | .ask q, .ask q' => if same : q = q' then some ⟨by rw [same]⟩ else none
  | _, _ => none

/-- Where a program stands after its own events, oldest first. -/
def Prog.follow : Prog B ε α → Log B → Option (Prog B ε α)
  | p, [] => some p
  | .op o k, ⟨o', r⟩ :: es =>
    match Op.same? o' o with
    | some ⟨same⟩ => (k (same ▸ r)).follow es
    | none => none
  | _, _ :: _ => none

theorem Prog.follow_runs {p q : Prog B ε α} (followed : p.follow es = some q) :
    Prog.Runs p es.reverse q := by
  induction es generalizing p with
  | nil =>
    cases p <;> cases followed <;> exact .start
  | cons ev rest ih =>
    cases p with
    | ret a => cases followed
    | raise e => cases followed
    | op o k =>
      obtain ⟨o', r⟩ := ev
      simp only [follow] at followed
      split at followed
      · next same _ =>
        obtain rfl := same
        rw [List.reverse_cons]
        exact (ih followed).cons_inv
      · cases followed

end MarimoHub.ObjectStore
