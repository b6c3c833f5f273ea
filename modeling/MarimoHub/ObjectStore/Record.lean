import MarimoHub.ObjectStore.Moments

/-!
# A record changed by compare-and-swap

Clients that change one key only by conditional writes on values they were given. What
a client may write is a rule about its own events (`Writer`); what a write does to the
stored record follows from the store (`Writer.at_effect`): it creates the record, replaces
the very value the client was given, or removes it. `until_run` and `becomes` turn
facts about one event into facts about a run. An object that is deleted only by the client that
created it stays while that client holds it (`held_step`).
-/

namespace MarimoHub.ObjectStore

variable {B : Schema} {a : Adapter B} {t start past : Trace B} {P : Trace B → Prop} {k : B.Key}
  {v : B.Val} {tag : Etag B} {i : Nat}

/-! ## Facts that last -/

/-- An event without an effect on a key keeps what is stored there. -/
theorem lookup_of_no_effect (none : x.effect k = none) : lookup k (x :: past) = lookup k past := by
  rw [lookup_cons, none, Option.getD_none]

theorem lookup_of_effect (effect : x.effect k = some new) : lookup k (x :: past) = new := by
  rw [lookup_cons, effect, Option.getD_some]

/-- What is stored was stored before, or is what the event wrote. -/
theorem found_cons (found : lookup k (x :: past) = some v) :
    lookup k past = some v ∨ x.effect k = some (some v) := by
  cases effect : x.effect k with
  | none => exact .inl (lookup_of_no_effect effect ▸ found)
  | some new => exact .inr (congrArg some ((lookup_of_effect effect).symm.trans found))

/-- What holds at one moment holds later, up to an event that ends it. -/
theorem until_run {E : Event B → Trace B → Prop} (above : start <:+ t) (holds : P start)
    (step : ∀ x past, x :: past <:+ t → start <:+ past → P past → P (x :: past) ∨ E x past) :
    P t ∨ ∃ x past, x :: past <:+ t ∧ start <:+ past ∧ P past ∧ E x past := by
  induction t with
  | nil => exact .inl (List.suffix_nil.mp above ▸ holds)
  | cons x past ih =>
    rcases List.suffix_cons_iff.mp above with same | inside
    · exact .inl (same ▸ holds)
    · have earlier := ih inside fun y q moment => step y q (moment.cons)
      rcases earlier with still | ⟨y, q, moment, rest⟩
      · rcases step x past List.suffix_rfl inside still with kept | ends
        · exact .inl kept
        · exact .inr ⟨x, past, List.suffix_rfl, inside, still, ends⟩
      · exact .inr ⟨y, q, moment.cons, rest⟩

/-- What every event keeps lasts. -/
theorem lasts (above : start <:+ t) (holds : P start)
    (step : ∀ x past, x :: past <:+ t → start <:+ past → P past → P (x :: past)) : P t := by
  rcases until_run (E := fun _ _ => False) above holds
    (fun x past moment inside kept => .inl (step x past moment inside kept)) with kept
      | ⟨_, _, _, _, _, ends⟩
  · exact kept
  · exact ends.elim

/-- What every write of the key keeps lasts. -/
theorem value_lasts {P : Option B.Val → Prop} (above : start <:+ t) (holds : P (lookup k start))
    (step : ∀ x past new, x :: past <:+ t → start <:+ past → P (lookup k past) →
      x.effect k = some new → P new) : P (lookup k t) := by
  refine lasts (P := fun u => P (lookup k u)) above holds ?_
  intro x past moment inside kept
  cases effect : x.effect k with
  | none => rwa [lookup_of_no_effect effect]
  | some new =>
    rw [lookup_of_effect effect]
    exact step x past new moment inside kept effect

/-- What every event makes true, given all earlier moments, is true at the end. -/
theorem every_moment (empty : P [])
    (step : ∀ x past, x :: past <:+ t → (∀ u, u <:+ past → P u) → P (x :: past)) : P t := by
  have all : ∀ u, u <:+ t → P u := by
    induction t with
    | nil =>
      intro u inside
      rwa [List.suffix_nil.mp inside]
    | cons x past ih =>
      have earlier := ih fun y q moment => step y q moment.cons
      intro u inside
      rcases List.suffix_cons_iff.mp inside with rfl | before
      · exact step x past List.suffix_rfl earlier
      · exact earlier u before
  exact all t List.suffix_rfl

/-- What does not hold at one moment and holds later became true at some event. -/
theorem becomes (above : start <:+ t) (before : ¬ P start) (after : P t) :
    ∃ x past, x :: past <:+ t ∧ start <:+ past ∧ ¬ P past ∧ P (x :: past) := by
  rcases until_run (P := fun u => ¬ P u) above before
    (fun x past _ _ _ => (Classical.em (P (x :: past))).symm) with never | found
  · exact absurd after never
  · exact found

/-! ## Writers -/

/-- A write of the key, whatever became of it. -/
def Puts (k : B.Key) (ev : Ev B) : Prop := ∃ v c r, ev = ⟨.put k v c, r⟩

/-- The client drew the identifier and has not written the key since. -/
def FirstAfterDraw (k : B.Key) (id : Nat) (es : Log B) : Prop :=
  ∃ later earlier, es = later ++ ⟨.mint, id⟩ :: earlier ∧ ∀ ev ∈ later, ¬ Puts k ev

/-- The client was given `tag` for the value `v` of `k`, by a read or by its own write. -/
def Issued (k : B.Key) (v : B.Val) (tag : Etag B) (es : Log B) : Prop :=
  ⟨.get k, .found v tag⟩ ∈ es ∨ ∃ c, ⟨.put k v c, .ok tag⟩ ∈ es

theorem Issued.mono (issued : Issued k v tag es) (inside : es ⊆ es') : Issued k v tag es' :=
  issued.imp (inside ·) (Exists.imp fun _ wrote => inside wrote)

/-- What a client may do to a record after its own events. -/
structure Writer (B : Schema) where
  creates : Log B → B.Val → Cond B → Prop
  changes : Log B → B.Val → B.Val → Prop
  removes : Log B → Prop

namespace Writer

/-- A write matches a value the client was given and changes it as allowed, or creates
the record. -/
def Writes (w : Writer B) (k : B.Key) (past : Log B) (v : B.Val) : Cond B → Prop
  | .ifMatch tag => ∃ old, Issued k old tag past ∧ w.changes past old v
  | c => w.creates past v c

def Allows (w : Writer B) (k : B.Key) (past : Log B) : Op B → Prop
  | .put j v c => j = k → w.Writes k past v c
  | .delete j => j = k → w.removes past
  | _ => True

/-- What an operation that took effect did to a record. -/
inductive Effect (w : Writer B) (a : Adapter B) (k : B.Key) (es : Log B) (past : Trace B) :
    Op B → Option B.Val → Prop where
  | created (v : B.Val) (c : Cond B) : w.creates es v c → c.Holds a past k →
      Effect w a k es past (.put k v c) (some v)
  | changed (old v : B.Val) (tag : Etag B) : lookup k past = some old → w.changes es old v →
      Effect w a k es past (.put k v (.ifMatch tag)) (some v)
  | removed : w.removes es → Effect w a k es past (.delete k) none

end Writer

section

variable (issued : Issued k v tag (own i past))
include issued

section

variable (accepted : Along (Accepts a) past)
include accepted

/-- A tag given to a client was issued for that value. -/
theorem Issued.value :
    tag.value = v := by
  rcases issued with read | ⟨c, wrote⟩
  · obtain ⟨e, q, moment, _, shape⟩ := exists_own_mem read
    exact ((accepted.at moment).tagged shape).2
  · obtain ⟨e, q, moment, _, shape⟩ := exists_own_mem wrote
    rw [((accepted.at moment).responds_of shape).2.1]

/-- What a client was given was stored at one of its events. -/
theorem Issued.moment :
    ∃ e q u, e :: q <:+ past ∧ e.thread = some i ∧ q <:+ u ∧ u <:+ past ∧
      lookup k u = some v := by
  rcases issued with read | ⟨c, wrote⟩
  · obtain ⟨e, q, moment, mine, shape⟩ := exists_own_mem read
    exact ⟨e, q, q, moment, mine, List.suffix_rfl, moment.past,
      ((accepted.at moment).tagged shape).1⟩
  · obtain ⟨e, q, moment, mine, shape⟩ := exists_own_mem wrote
    refine ⟨e, q, e :: q, moment, mine, List.suffix_cons e q, moment, ?_⟩
    simp [effect_put shape, ((accepted.at moment).responds_of shape).2.2]

theorem Issued.held :
    ∃ u, u <:+ past ∧ lookup k u = some v := by
  obtain ⟨_, _, u, _, _, _, inside, found⟩ := issued.moment accepted
  exact ⟨u, inside, found⟩

end

end

/-- An event that changed the record created it, replaced the value its client was given,
or removed it. -/
theorem Writer.at_effect {w : Writer B} (accepted : Along (Accepts a) (x :: past))
    (allows : w.Allows k (own i past) x.op) (effect : x.effect k = some new) :
    w.Effect a k (own i past) past x.op new := by
  cases new with
  | none =>
    obtain ⟨r, shape, _⟩ := effect_remove effect
    have op : x.op = .delete k := congrArg Ev.op shape
    rw [op] at allows ⊢
    exact .removed (allows rfl)
  | some v =>
    obtain ⟨c, r, shape, applied⟩ := effect_write effect
    have op : x.op = .put k v c := congrArg Ev.op shape
    have holds := accepted.1.holds shape applied
    rw [op] at allows ⊢
    have writes := allows rfl
    cases c with
    | any => exact .created v _ writes holds
    | ifAbsent => exact .created v _ writes holds
    | ifMatch tag =>
      obtain ⟨old, issued, changes⟩ := writes
      refine .changed old v tag ?_ changes
      rw [(accepted.1.matched shape applied).1, issued.value accepted.2]

/-- An own write that was acknowledged was applied. -/
theorem own_written (accepted : Along (Accepts a) t)
    (inside : (⟨.put k v c, .ok tag⟩ :: rest) <:+ own i t) :
    ∃ e past, e :: past <:+ t ∧ e.thread = some i ∧ own i past = rest ∧
      e.toEv = ⟨.put k v c, .ok tag⟩ ∧ e.effect k = some (some v) ∧ c.Holds a past k := by
  obtain ⟨e, past, moment, mine, shape, before⟩ := exists_own inside
  have responds := (accepted.at moment).responds_of shape
  exact ⟨e, past, moment, mine, before, shape, by simp [effect_put shape, responds.2.2], responds.1⟩

/-- An own swap that was acknowledged replaced the value that was read. -/
theorem own_swapped (accepted : Along (Accepts a) t)
    (inside : (⟨.put k v (.ifMatch tag), .ok tag'⟩ :: rest) <:+ own i t)
    (issued : Issued k old tag rest) :
    ∃ e past, e :: past <:+ t ∧ e.thread = some i ∧ own i past = rest ∧
      lookup k past = some old ∧ lookup k (e :: past) = some v := by
  obtain ⟨e, past, moment, mine, before, shape, effect, holds⟩ := own_written accepted inside
  refine ⟨e, past, moment, mine, before, ?_, lookup_of_effect effect⟩
  obtain ⟨w, found, same⟩ := holds
  have value := (before ▸ issued).value (accepted.suffix moment).2
  rw [found, ← value, ← same]
  rfl

/-! ## Objects that only their creator deletes -/

def Makes (k : B.Key) : Ev B → Prop
  | ⟨.put k' _ .ifAbsent, .ok _⟩ => k' = k
  | _ => False

/-- The client created the object and has not deleted it since. -/
def Holds (k : B.Key) : Log B → Prop
  | [] => False
  | ev :: es => Makes k ev ∨ ev.op ≠ .delete k ∧ Holds k es

/-- Whoever holds the object holds it alone, and it is stored. -/
def Held (P : B.Val → Prop) (k : B.Key) (t : Trace B) : Prop :=
  ∀ i, Holds k (own i t) →
    (∃ v, lookup k t = some v ∧ P v) ∧ ∀ j, Holds k (own j t) → j = i

theorem Makes.written (creates : Makes k x.toEv) (accepts : Accepts a past x) :
    lookup k past = none ∧ ∃ v, x.op = .put k v .ifAbsent ∧ x.effect k = some (some v) := by
  obtain ⟨⟨o, r⟩, thread, time, applied⟩ := x
  simp only [Makes] at creates
  split at creates
  · next shape =>
    cases shape
    cases creates
    have applied : applied = true := accepts.responds.2.2
    exact ⟨accepts.responds.1, _, rfl, by simp [Event.effect, applied]⟩
  · exact creates.elim

theorem held_step {P : B.Val → Prop} (accepts : Accepts a past x) (mine : x.thread = some i)
    (writes : ∀ v c, x.op = .put k v c → P v) (deletes : x.op = .delete k → Holds k (own i past))
    (held : Held P k past) : Held P k (x :: past) := by
  have before (j : Nat) (holds : Holds k (own j (x :: past))) :
      Makes k x.toEv ∧ j = i ∨ Holds k (own j past) ∧ (j = i → x.op ≠ .delete k) := by
    by_cases same : j = i
    · subst same
      rw [own_cons mine] at holds
      exact holds.imp (fun creates => ⟨creates, rfl⟩) fun rest => ⟨rest.2, fun _ => rest.1⟩
    · have other : x.thread ≠ some j := by
        rw [mine]
        exact fun equal => same (Option.some.inj equal).symm
      rw [own_cons_other other] at holds
      exact .inr ⟨holds, fun equal => absurd equal same⟩
  by_cases creates : Makes k x.toEv
  · obtain ⟨absent, v, put, effect⟩ := creates.written accepts
    have sole (j : Nat) (holds : Holds k (own j (x :: past))) : j = i := by
      rcases before j holds with ⟨_, same⟩ | ⟨earlier, _⟩
      · exact same
      · obtain ⟨⟨w, found, _⟩, _⟩ := held j earlier
        rw [absent] at found
        cases found
    intro j holds
    refine ⟨⟨v, lookup_of_effect effect, writes v _ put⟩, ?_⟩
    intro j' holds'
    rw [sole j holds, sole j' holds']
  · have earlier (j : Nat) (holds : Holds k (own j (x :: past))) :
        Holds k (own j past) ∧ (j = i → x.op ≠ .delete k) :=
      (before j holds).resolve_left fun made => creates made.1
    intro j holds
    obtain ⟨⟨v, found, good⟩, sole⟩ := held j (earlier j holds).1
    refine ⟨?_, fun j' holds' => sole j' (earlier j' holds').1⟩
    cases effect : x.effect k with
    | none => exact ⟨v, by rw [lookup_of_no_effect effect, found], good⟩
    | some new =>
      cases new with
      | some w =>
        obtain ⟨c, r, shape, _⟩ := effect_write effect
        exact ⟨w, lookup_of_effect effect, writes w c (congrArg Ev.op shape)⟩
      | none =>
        -- a deletion is its holder's, and they no longer hold the object
        obtain ⟨r, shape, _⟩ := effect_remove effect
        have gone : x.op = .delete k := congrArg Ev.op shape
        exact absurd gone ((earlier j holds).2 (sole i (deletes gone)).symm)

end MarimoHub.ObjectStore
