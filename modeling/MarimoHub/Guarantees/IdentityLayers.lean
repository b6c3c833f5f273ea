import MarimoHub.ObjectStore.Record
import MarimoHub.Source.IdentityService
import MarimoHub.Guarantees.LazyLoads

/-!
# The layers under a replica

A replica makes a compare-and-swap loop one action and keeps the slot of one user. A write of the
loops that takes effect is the one `Replica.written` computes from the record it replaces
(`effect_commits`), and what a loop returns was stored at one of its requests (`returned_stored`).
The slot is what the `LazyMap` holds for the user: its events do to the slot what the operations of
`LazySlot` say, and those of other users leave it or push the value out (`slot_refines`).
-/

namespace MarimoHub.Guarantees.Identities

open ObjectStore Source Source.Identities Source.Caches Caches Prog

/-! ## The record -/

inductive RecordCall where
  | upsert (user : Identity)
  | setSuspension (id : String) (suspended : Bool)

namespace RecordCall

def run : RecordCall → Hub IdentityStore Identity
  | .upsert user => upsertRecord user
  | .setSuspension id suspended => suspendRecord id suspended

def id : RecordCall → String
  | .upsert user => user.id
  | .setSuspension id _ => id

/-- The call as the replica sees it. -/
def action : RecordCall → IdentityCall
  | .upsert _ => .upsert
  | .setSuspension _ suspended => .setSuspension suspended

end RecordCall

/-- `Replica.record` of what is stored. -/
def flag (stored : Option (Option Identity)) : Option Bool :=
  stored.join.map fun identity => identity.suspendedAt.isSome

/-- The replica's `commit` takes the one record to the other. -/
def Commits (call : RecordCall) (old new : Option (Option Identity)) : Prop :=
  ∃ suspended, flag new = some suspended ∧
    ∀ r : Replica, r.record = flag old → r.written call.action = some suspended

def recordWriter (call : RecordCall) : Writer IdentityStore where
  creates _ v c := c = .ifAbsent ∧ Commits call none (some v)
  changes _ old v := Commits call (some old) (some v)
  removes _ := False

/-- The loops write only the record of their user. -/
def RecordRule (call : RecordCall) (es : Log IdentityStore) (o : Op IdentityStore) : Prop :=
  ∀ k, (recordWriter call).Allows k es o

/-- What a loop returned is what it read or wrote. -/
abbrev Told (call : RecordCall) : Post IdentityStore HubError Identity :=
  yields fun identity es => ∃ tag, Issued call.id (some identity) tag es

theorem commits_of_written {next : Identity} (set : ∀ r : Replica, r.record = flag old →
    r.written call.action = some next.suspendedAt.isSome) : Commits call old (some (some next)) :=
  ⟨_, rfl, set⟩

theorem allows_swap (read : ⟨.get k, .found old tag⟩ ∈ es)
    (commits : Commits call (some old) (some v)) :
    RecordRule call es (.put k v (.ifMatch tag)) := by
  rintro _ rfl
  exact ⟨old, .inl read, commits⟩

theorem emits_upsert (user : Identity) :
    Emits (RecordRule (.upsert user)) (Told (.upsert user)) (upsertRecord user) [] := by
  refine emits_withCasRetry (I := fun _ => True) ?_ (fun _ _ => trivial) defaultRetries [] trivial
  intro past _
  rw [emits_bind, emits_bucketGet]
  refine ⟨fun _ => trivial, ?_, ?_, trivial⟩
  · intro v tag
    rw [andThen_ok]
    cases v with
    | none => trivial
    | some existing =>
      refine emits_dateNow_then (fun _ => trivial) fun now => ?_
      rw [emits_bind, emits_casPut]
      refine ⟨allows_swap (.tail _ (.head _)) (commits_of_written fun r same => ?_),
        fun tag => ⟨tag, .inr ⟨_, .head _⟩⟩, trivial, trivial⟩
      simp [RecordCall.action, Replica.written, same, flag]
  · refine emits_dateNow_then (fun _ => trivial) fun now => ?_
    rw [emits_bind, emits_casPut]
    refine ⟨?_, fun tag => ⟨tag, .inr ⟨_, .head _⟩⟩, trivial, trivial⟩
    rintro _ rfl
    refine ⟨rfl, commits_of_written fun r same => ?_⟩
    simp [RecordCall.action, Replica.written, same, flag]

theorem emits_suspend (id : String) (suspended : Bool) :
    Emits (RecordRule (.setSuspension id suspended)) (Told (.setSuspension id suspended))
      (suspendRecord id suspended) [] := by
  have parses : ParsesOnly (B := IdentityStore) readIdentity some
    | some identity => .inl ⟨identity, rfl, rfl⟩
    | none => .inr ⟨_, rfl⟩
  have decides (current : Identity) (tag : Etag IdentityStore) (past : Log IdentityStore) :
      Emits (fun _ o => o = .now) (fun out _ => ∀ next, out = .ok (some next) →
          next.suspendedAt.isSome = suspended)
        (suspend suspended current) (⟨.get id, .found (some current) tag⟩ :: past) := by
    unfold suspend
    split
    · rintro _ ⟨⟩
    · split
      · next set =>
        refine emits_dateNow_then rfl fun now => ?_
        rintro _ ⟨⟩
        simp [set]
      · next set =>
        rintro _ ⟨⟩
        simp [set]
  refine emits_then (emits_mutateRecord (R := fun _ _ next => next.suspendedAt.isSome = suspended)
    parses (fun _ _ => trivial) ?_ decides ?_) ?_
  · rintro es _ rfl
    exact fun _ => trivial
  · intro es tag current next read set
    refine allows_swap read (commits_of_written fun r same => ?_)
    simp [RecordCall.action, Replica.written, same, flag, set]
  · rintro ⟨value, written⟩ es _ ended
    cases written with
    | true =>
      obtain ⟨_, _, tag, rest, _, rfl, _⟩ := ended
      exact ⟨tag, .inr ⟨_, .head _⟩⟩
    | false =>
      obtain ⟨tag, new, rest, rfl, _⟩ := ended
      exact ⟨tag, .inl (by simp [RecordCall.id])⟩

theorem emits_run : (call : RecordCall) → Emits (RecordRule call) (Told call) call.run []
  | .upsert user => emits_upsert user
  | .setSuspension id suspended => emits_suspend id suspended

section Runs

variable {a : Adapter IdentityStore} {seeds : Trace IdentityStore} {calls : Nat → RecordCall}
  {c : Config IdentityStore HubError Identity} (initial : Seeds a seeds)
  (reach : Reaches a ⟨seeds, fun i => (calls i).run⟩ c)
include initial reach

/-- An effective write of a loop is the `commit` of the replica, over the record it replaces. -/
theorem effect_commits (moment : x :: past <:+ c.trace) (mine : x.thread = some i)
    (effect : x.effect k = some new) : Commits (calls i) (lookup k past) new := by
  have run := reach.history initial
  have allows := run.guarantee (fun i => emits_run (calls i)) moment mine k
  have did := Writer.at_effect (run.accepted.suffix moment) allows effect
  generalize x.op = o at did
  cases did with
  | created v c creates holds =>
    obtain ⟨rfl, commits⟩ := creates
    exact holds ▸ commits
  | changed old v tag found changes => exact found ▸ changes
  | removed gone => exact gone.elim

/-- The record a loop returns was stored at one of its requests. -/
theorem returned_stored (returned : c.prog i = .ret identity) :
    ∃ e q u, e :: q <:+ c.trace ∧ e.thread = some i ∧ q <:+ u ∧ u <:+ c.trace ∧
      lookup (calls i).id u = some (some identity) := by
  have run := reach.history initial
  obtain ⟨tag, issued⟩ := run.returned (emits_run (calls i)) returned
  exact issued.moment run.accepted

end Runs

/-! ## The slot -/

variable {K : Type} [DecidableEq K] {map : LazyMap K TimedValue} {key other : K} {maxSize : Nat}
  {values : List (K × TimedValue)} {event : LazyEvent K TimedValue}

/-- The entries of a key. -/
def entries (key : K) (values : List (K × TimedValue)) : List (K × TimedValue) :=
  values.filter (·.1 = key)

theorem lookup_entries : values.lookup key = (entries key values).head?.map Prod.snd := by
  induction values with
  | nil => rfl
  | cons entry rest ih => by_cases same : entry.1 = key <;> grind [entries]

omit [DecidableEq K] in
/-- Eviction spares the entry that was just set. -/
theorem evict_concat (room : 0 < maxSize) (values : List (K × TimedValue))
    (entry : K × TimedValue) :
    ∃ dropped kept, values = dropped ++ kept ∧
      evict maxSize (values ++ [entry]) = kept ++ [entry] := by
  induction values with
  | nil => exact ⟨[], [], rfl, by simp [evict, Nat.not_lt.mpr room]⟩
  | cons oldest rest ih =>
    rw [List.cons_append, evict]
    split
    · obtain ⟨dropped, kept, rfl, same⟩ := ih
      exact ⟨oldest :: dropped, kept, rfl, same⟩
    · exact ⟨[], oldest :: rest, rfl, rfl⟩

theorem entries_lruDelete (k : K) :
    entries key (lruDelete k values) = if k = key then [] else entries key values := by
  simp only [entries, lruDelete, List.filter_filter]
  split
  · next same => simp [same]
  · next different => exact List.filter_congr fun entry _ => by grind

theorem entries_concat (own : about event = some k)
    (below : next <:+ lruDelete k values ++ [(k, value)]) :
    entries key next <:+ entries key values ∨
      about event = some key ∧ (entries key next).length ≤ 1 := by
  have cut : entries key next <:+ entries key (lruDelete k values) ++ entries key [(k, value)] :=
    List.filter_append .. ▸ below.filter _
  rw [entries_lruDelete] at cut
  by_cases same : k = key
  · rw [if_pos same] at cut
    exact .inr ⟨same ▸ own, by simpa [entries, same] using cut.length_le⟩
  · rw [if_neg same] at cut
    exact .inl (by simpa [entries, same] using cut)

/-- A step replaces the entry of its own key and only drops those of others. -/
theorem entries_move (room : 0 < maxSize) (move : ValuesMove maxSize event values next) :
    entries key next <:+ entries key values ∨
      about event = some key ∧ (entries key next).length ≤ 1 := by
  cases move with
  | kept => exact .inl List.suffix_rfl
  | got k own =>
    unfold lruGet
    split
    · exact .inl List.suffix_rfl
    · exact entries_concat own List.suffix_rfl
  | set k value own =>
    obtain ⟨dropped, kept, split, same⟩ := evict_concat room (lruDelete k values) (k, value)
    exact entries_concat own ⟨dropped, by rw [lruSet, same, split, List.append_assoc]⟩
  | deleted k =>
    rw [entries_lruDelete]
    split
    · exact .inl (List.nil_suffix)
    · exact .inl List.suffix_rfl
  | cleared => exact .inl (List.nil_suffix)

theorem entries_run (room : 0 < maxSize) (single : (entries key map.values).length ≤ 1)
    (events : List (LazyEvent K TimedValue)) :
    (entries key (map.run maxSize events).values).length ≤ 1 := by
  induction events generalizing map with
  | nil => exact single
  | cons event rest ih =>
    rcases entries_move room (values_step map) with below | ⟨_, one⟩
    · exact ih (Nat.le_trans below.length_le single)
    · exact ih one

theorem lookup_lruSet (room : 0 < maxSize) :
    (lruSet maxSize key value values).lookup key = some value := by
  obtain ⟨dropped, kept, split, same⟩ := evict_concat room (lruDelete key values) (key, value)
  have gone : entries key (lruDelete key values) = _ := entries_lruDelete key
  rw [split, if_pos rfl, entries, List.filter_append, List.append_eq_nil_iff] at gone
  rw [lookup_entries, lruSet, same, entries, List.filter_append, gone.2]
  simp

/-- Events of another key leave the entry or push it out. -/
theorem lookup_other (room : 0 < maxSize) (single : (entries key map.values).length ≤ 1)
    (concerns : about event = some other) (different : other ≠ key) :
    (map.step maxSize event).values.lookup key = map.values.lookup key ∨
      (map.step maxSize event).values.lookup key = none := by
  simp only [lookup_entries]
  rcases entries_move room (values_step map) with below | ⟨own, _⟩
  · cases found : entries key map.values with
    | nil =>
      rw [found] at below
      exact .inl (by rw [List.suffix_nil.mp below])
    | cons entry rest =>
      rw [found] at single below
      obtain rfl : rest = [] := by simpa using single
      rcases List.suffix_cons_iff.mp below with same | inside
      · exact .inl (by rw [same])
      · exact .inr (by rw [List.suffix_nil.mp inside]; rfl)
  · exact absurd (Option.some.inj (concerns.symm.trans own)) different

/-- The slot of a key, from its entry and its loads. -/
def slot (value : Option TimedValue) (loads : Loads) : LazySlot :=
  ⟨value, loads.pending.map fun n => (n, loads.superseded n)⟩

def slotOf (map : LazyMap K TimedValue) (key : K) : LazySlot :=
  slot (map.values.lookup key) (map.loads key)

theorem slot_supersede : slot (some value) loads.supersede = (slot found loads).set value := by
  cases pending : loads.pending <;> simp [slot, LazySlot.set, Loads.supersede, pending]

theorem slot_reload : (slot found (loads.reload false).2, (loads.reload false).1) =
    (slot found loads).reload loads.next := by
  cases pending : loads.pending with
  | none => simp [slot, LazySlot.reload, Loads.reload, Loads.start, Loads.supersede, pending]
  | some n =>
    cases superseded : loads.superseded n <;>
      simp [slot, LazySlot.reload, Loads.reload, Loads.start, Loads.supersede, pending, superseded,
        Option.filter]

theorem slot_finish (n : Nat) :
    slot found ((loads.settle n).finish n) = (slot found loads).forget n := by
  cases pending : loads.pending with
  | none => simp [slot, LazySlot.forget, Loads.finish, Loads.settle, pending]
  | some m =>
    by_cases same : m = n <;>
      simp [slot, LazySlot.forget, Loads.finish, Loads.settle, pending, same]

/-- The load of a running call answers the slot as `settle` does. -/
theorem slot_settle (owned : Owned loads) (runs : loads.stage n = .running) (value : TimedValue) :
    slot (if loads.superseded n then found else some value) ((loads.settle n).finish n) =
      ((slot found loads).settle n value).1 := by
  rw [slot_finish, LazySlot.settle]
  cases superseded : loads.superseded n with
  | false => simp [slot, owned.owned n runs superseded, superseded]
  | true =>
    have other : (slot found loads).pending ≠ some (n, false) := by
      intro waits
      obtain ⟨m, _, same⟩ := Option.map_eq_some_iff.mp waits
      obtain ⟨rfl, kept⟩ := Prod.mk.inj same
      exact absurd (superseded.symm.trans kept) (by decide)
    simp [other]

/-- The slot when the `finally` of a load that settled has run. -/
theorem slotOf_finish {loads : Loads} (settled : map.loads key = loads.settle n) :
    slotOf (map.step maxSize (.finish key n)) key =
      slot (map.values.lookup key) ((loads.settle n).finish n) := by
  have done : (map.loads key).stage n = .settled := by simp [settled, Loads.settle]
  simp only [slotOf, LazyMap.step, done, LazyMap.change, ne_eq, not_true, if_false,
    Function.update_self]
  rw [settled]

theorem loads_other (concerns : about event = some other) (different : other ≠ key) :
    (map.step maxSize event).loads key = map.loads key := by
  have change (f : Loads → Loads) : (map.change other f).loads key = map.loads key :=
    Function.update_of_ne different.symm ..
  cases event <;> cases concerns <;> simp only [LazyMap.step, LazyMap.get, LazyMap.reload] <;>
    grind

/-- Whatever the map has been through, it treats the slot of a key as `LazySlot` says. -/
theorem slot_refines (room : 0 < maxSize) (events : List (LazyEvent K TimedValue)) (key : K) :
    let map := LazyMap.run maxSize {} events
    let now := slotOf map key
    (∀ value, slotOf (map.step maxSize (.set key value)) key = now.set value) ∧
    (slotOf (map.step maxSize (.reload key false)) key, ((map.loads key).reload false).1) =
      now.reload (map.loads key).next ∧
    (∀ n value, (map.loads key).stage n = .running →
      slotOf ((map.step maxSize (.loaded key n value)).step maxSize (.finish key n)) key =
        (now.settle n value).1 ∧
      slotOf ((map.step maxSize (.failed key n)).step maxSize (.finish key n)) key =
        now.forget n) ∧
    ∀ event other, about event = some other → other ≠ key →
      slotOf (map.step maxSize event) key = now ∨
        slotOf (map.step maxSize event) key = { now with value := none } := by
  intro map now
  have fresh (key : K) : Owned (({} : LazyMap K TimedValue).loads key) :=
    ⟨fun _ _ => rfl, fun _ runs => nomatch runs⟩
  have owned : Owned (map.loads key) :=
    (run_keeps 0 key fresh (Nat.zero_le maxSize)).1 key
  have single : (entries key map.values).length ≤ 1 :=
    entries_run room (by simp [entries]) events
  refine ⟨fun value => ?_, ?_, fun n value runs => ⟨?_, ?_⟩,
    fun event other concerns different => ?_⟩
  · simp only [slotOf, LazyMap.step, LazyMap.change, Function.update_self, lookup_lruSet room]
    exact slot_supersede
  · simp only [slotOf, LazyMap.step, LazyMap.reload, LazyMap.change, Function.update_self]
    exact slot_reload
  · have settled :
        (map.step maxSize (.loaded key n value)).loads key = (map.loads key).settle n := by
      simp [LazyMap.step, LazyMap.change, runs]
    rw [slotOf_finish settled]
    refine Eq.trans (congrArg (slot · _) ?_) (slot_settle owned runs value)
    cases superseded : (map.loads key).superseded n <;>
      simp [LazyMap.step, runs, superseded, lookup_lruSet room, lookup_lruGet]
  · have settled : (map.step maxSize (.failed key n)).loads key = (map.loads key).settle n := by
      simp [LazyMap.step, LazyMap.change, runs]
    rw [slotOf_finish settled, slot_finish]
    simp [LazyMap.step, LazyMap.change, runs, now, slotOf]
  · simp only [slotOf, loads_other concerns different, now]
    rcases lookup_other room single concerns different with same | gone
    · exact .inl (by rw [same])
    · exact .inr (by rw [gone]; rfl)

end MarimoHub.Guarantees.Identities
