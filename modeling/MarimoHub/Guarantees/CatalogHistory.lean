import Mathlib.Data.List.Nodup
import MarimoHub.ObjectStore.Moments
import MarimoHub.Guarantees.CatalogAttempt

/-!
# Catalog writes in a run

`WriteRule` is what all writers of the catalog have in common: a snapshot is
written once after its identifier was drawn, and a pointer swap follows the
successful write of the snapshot it names. In every run of clients that keep the
rule a snapshot key holds one value for ever, and an identifier is offered to the
pointer at one moment only.
-/

namespace MarimoHub.Guarantees

open ObjectStore Source

/-- The identifier `n` was drawn and only reads followed. -/
def Drawn (n : Nat) (past : Events) : Prop :=
  ∃ pre rest, past = pre ++ ⟨.mint, n⟩ :: rest ∧ ∀ e ∈ pre, ReadOnly e.op

theorem Attempt.drawn_drafted (t : Attempt) : Drawn t.id t.drafted :=
  ⟨[⟨.now, t.now⟩], t.computed, rfl, by simp [ReadOnly]⟩

theorem spares_of_readOnly (readOnly : ReadOnly o) : SparesCatalog o := by
  cases o <;> first | exact readOnly.elim | trivial

def WriteRule (past : Events) : Op Content → Prop
  | .put .catalog v _ => ∃ cat snap c tag rest, v = .catalog cat ∧
      cat.currentSnapshotKey = .snapshot cat.currentSnapshotId ∧
      past = ⟨.put (.snapshot cat.currentSnapshotId) (.snapshot snap) c, .ok tag⟩ :: rest ∧
      Drawn cat.currentSnapshotId rest
  | .put (.snapshot n) _ _ => Drawn n past
  | _ => True

/-- What the bucket may hold before the run. -/
structure InitialCatalog (a : Adapter Content) (contents : List (Key × Val)) : Prop where
  distinct : (contents.map Prod.fst).Nodup
  old : ∀ n v, (Key.snapshot n, v) ∈ contents → n < a.firstId
  pointer : ∀ v, (Key.catalog, v) ∈ contents → ∃ cat, v = .catalog cat ∧
    cat.currentSnapshotKey = .snapshot cat.currentSnapshotId ∧ cat.currentSnapshotId < a.firstId

variable {v w : Val} {e : Event Content} {cat : Catalog} {past t : Trace Content} {i : Nat}
  {n : SnapshotId}

theorem InitialCatalog.unique (initial : InitialCatalog a contents) (left : (k, v) ∈ contents)
    (right : (k, w) ∈ contents) : v = w :=
  (Prod.mk.inj (List.inj_on_of_nodup_map initial.distinct left right rfl)).2

/-- A trace whose clients keep the rule. -/
structure CatalogHistory (a : Adapter Content) (contents : List (Key × Val))
    (t : Trace Content) : Prop where
  initial : InitialCatalog a contents
  accepted : Along (Accepts a) t
  seeds : ∀ e past, (e :: past) <:+ t → e.thread = none → (e :: past) <:+ seed a contents
  based : ∀ e past i, (e :: past) <:+ t → e.thread = some i → seed a contents <:+ past
  rule : ∀ e past i, (e :: past) <:+ t → e.thread = some i → WriteRule (own i past) e.op
  undeleted : ∀ e ∈ t, e.effect .catalog ≠ some none

/-- The pointer an event put in place. -/
def committed (e : Event Content) : Option Catalog :=
  match e.effect .catalog with
  | some (some (.catalog cat)) => some cat
  | _ => none

theorem effect_of_committed (done : committed e = some cat) :
    e.effect .catalog = some (some (.catalog cat)) := by
  unfold committed at done
  split at done
  · next c same =>
    cases done
    exact same
  · cases done

theorem committed_of_effect (effect : e.effect .catalog = some (some (.catalog cat))) :
    committed e = some cat := by
  simp [committed, effect]

/-- The catalog the bucket holds. -/
def currentCatalog (t : Trace Content) : Option Catalog :=
  match lookup Key.catalog t with
  | some (.catalog cat) => some cat
  | _ => none

theorem currentCatalog_of_lookup (current : lookup Key.catalog t = some (.catalog cat))
      : currentCatalog t = some cat := by
  simp [currentCatalog, current]

/-- The snapshot the catalog names. -/
def currentSnapshot (t : Trace Content) : Option Snapshot :=
  match currentCatalog t with
  | none => none
  | some cat =>
    match lookup cat.currentSnapshotKey t with
    | some (.snapshot s) => some s
    | _ => none

theorem currentSnapshot_of_lookup (current : lookup Key.catalog t = some (.catalog cat))
    (named : lookup cat.currentSnapshotKey t = some (.snapshot snap)) :
    currentSnapshot t = some snap := by
  simp [currentSnapshot, currentCatalog, current, named]

theorem lookup_of_currentSnapshot (current : currentSnapshot t = some snap) :
    ∃ cat, lookup Key.catalog t = some (.catalog cat) ∧
      lookup cat.currentSnapshotKey t = some (.snapshot snap) := by
  unfold currentSnapshot currentCatalog at current
  split at current
  · cases current
  · next cat named =>
    split at named
    · next cat' found =>
      cases named
      refine ⟨cat, found, ?_⟩
      split at current
      · next s stored =>
        cases current
        exact stored
      · cases current
    · cases named

/-- Writing the snapshot `n`. -/
def IsSnapshotPut (n : SnapshotId) (e : Ev Content) : Prop :=
  ∃ v c r, e = ⟨.put (.snapshot n) v c, r⟩

/-- Offering the snapshot `n` to the pointer. -/
def IsSwap (n : SnapshotId) (e : Ev Content) : Prop :=
  ∃ cat c r, e = ⟨.put .catalog (.catalog cat) c, r⟩ ∧ cat.currentSnapshotId = n

namespace CatalogHistory

variable {a : Adapter Content} {contents : List (Key × Val)} {t : Trace Content}

section

variable (history : CatalogHistory a contents t)

include history

theorem suffix (earlier : past <:+ t) : CatalogHistory a contents past where
  initial := history.initial
  accepted := history.accepted.suffix earlier
  seeds e past' moment := history.seeds e past' (moment.trans earlier)
  based e past' i moment := history.based e past' i (moment.trans earlier)
  rule e past' i moment := history.rule e past' i (moment.trans earlier)
  undeleted e member := history.undeleted e (earlier.subset member)

theorem seeded (e : Event Content) (member : e ∈ t) (anonymous : e.thread = none) :
    e ∈ seed a contents := by
  obtain ⟨past, moment⟩ := exists_past member
  exact (history.seeds e past moment anonymous).subset (.head _)

theorem drawn_of_snapshotPut (moment : e :: past <:+ t) (mine : e.thread = some i)
    (put : IsSnapshotPut n e.toEv) : Drawn n (own i past) := by
  obtain ⟨v, c, r, shape⟩ := put
  have rule := history.rule e past i moment mine
  rw [congrArg Ev.op shape] at rule
  exact rule

theorem drawn_of_swap (moment : e :: past <:+ t) (mine : e.thread = some i)
    (swap : IsSwap n e.toEv) : ∃ snap c tag rest,
      own i past = ⟨.put (.snapshot n) (.snapshot snap) c, .ok tag⟩ :: rest ∧ Drawn n rest := by
  obtain ⟨cat, c, r, shape, rfl⟩ := swap
  have rule := history.rule e past i moment mine
  rw [congrArg Ev.op shape] at rule
  obtain ⟨cat', snap, c', tag, rest, same, _, pastEq, drawn⟩ := rule
  cases same
  exact ⟨snap, c', tag, rest, pastEq, drawn⟩

theorem firstId_le_of_drawn (earlier : past <:+ t)
    (own_es : es <:+ own i past) (drawn : Drawn n es) : a.firstId ≤ n := by
  obtain ⟨pre, rest, rfl, _⟩ := drawn
  obtain ⟨m, q, moment, _, minted, _⟩ := exists_own ((List.suffix_append pre _).trans own_es)
  exact (fresh_of_mint history.accepted (moment.trans earlier) minted).1

theorem snapshotPut_once (left : e :: past <:+ t) (right : e' :: past' <:+ t)
    (mine : e.thread = some i) (theirs : e'.thread = some j) (put : IsSnapshotPut n e.toEv)
    (put' : IsSnapshotPut n e'.toEv) : e :: past = e' :: past' := by
  refine once_per_mint (n := n) history.accepted ?_ left right mine theirs put put'
  intro e past i moment mine put
  obtain ⟨pre, rest, split, reads⟩ := history.drawn_of_snapshotPut moment mine put
  refine ⟨pre, rest, split, ?_⟩
  rintro ev member ⟨v, c, r, rfl⟩
  exact reads _ member

theorem swap_once (left : e :: past <:+ t) (right : e' :: past' <:+ t)
    (mine : e.thread = some i) (theirs : e'.thread = some j) (swap : IsSwap n e.toEv)
    (swap' : IsSwap n e'.toEv) : e :: past = e' :: past' := by
  refine once_per_mint (n := n) history.accepted ?_ left right mine theirs swap swap'
  intro e past i moment mine swap
  obtain ⟨snap, c, tag, rest, split, pre, rest', rfl, reads⟩ :=
    history.drawn_of_swap moment mine swap
  refine ⟨_ :: pre, rest', split, ?_⟩
  rintro ev member ⟨cat, c', r, rfl, _⟩
  rcases List.mem_cons.mp member with same | inside
  · cases same
  · exact reads _ inside

theorem write_cases (member : e ∈ t) (wrote : e.effect (.snapshot n) = some (some v)) :
    ((Key.snapshot n, v) ∈ contents ∧ n < a.firstId) ∨
      ∃ i past, e :: past <:+ t ∧ e.thread = some i ∧ IsSnapshotPut n e.toEv ∧ a.firstId ≤ n := by
  cases thread : e.thread with
  | none =>
    obtain ⟨w, same, listed⟩ := effect_seed (history.seeded e member thread) wrote
    cases same
    exact .inl ⟨listed, history.initial.old n v listed⟩
  | some i =>
    obtain ⟨c, r, shape, _⟩ := effect_write wrote
    obtain ⟨past, moment⟩ := exists_past member
    have put : IsSnapshotPut n e.toEv := ⟨v, c, r, shape⟩
    have drawn := history.drawn_of_snapshotPut moment thread put
    refine .inr ⟨i, past, moment, rfl, put, ?_⟩
    exact history.firstId_le_of_drawn moment.past List.suffix_rfl drawn

/-- A snapshot key never holds two values. -/
theorem snapshot_immutable (left : Stored (B := Content) (.snapshot n) v t)
    (right : Stored (B := Content) (.snapshot n) w t) : v = w := by
  obtain ⟨e, member, wrote⟩ := left
  obtain ⟨e', member', wrote'⟩ := right
  rcases history.write_cases member wrote with ⟨listed, old⟩ | ⟨i, past, moment, mine, put, new⟩
  · rcases history.write_cases member' wrote' with ⟨listed', _⟩ | ⟨_, _, _, _, _, new'⟩
    · exact history.initial.unique listed listed'
    · exact absurd new' (Nat.not_le.mpr old)
  · rcases history.write_cases member' wrote' with
      ⟨_, old'⟩ | ⟨j, past', moment', theirs, put', _⟩
    · exact absurd new (Nat.not_le.mpr old')
    · have same := history.snapshotPut_once moment moment' mine theirs put put'
      cases same
      rw [wrote] at wrote'
      exact Option.some.inj (Option.some.inj wrote')

/-- The pointer is never deleted, and always names the key of its snapshot. -/
theorem catalog_effect {w : Option Val} (member : e ∈ t) (effect : e.effect .catalog = some w) :
    ∃ cat, w = some (.catalog cat) ∧ cat.currentSnapshotKey = .snapshot cat.currentSnapshotId ∧
      (e.thread = none ∧ cat.currentSnapshotId < a.firstId ∨
        ∃ i past, e :: past <:+ t ∧ e.thread = some i ∧ IsSwap cat.currentSnapshotId e.toEv ∧
          e.applied = true ∧ a.firstId ≤ cat.currentSnapshotId) := by
  cases thread : e.thread with
  | none =>
    obtain ⟨v, rfl, listed⟩ := effect_seed (history.seeded e member thread) effect
    obtain ⟨cat, rfl, key, old⟩ := history.initial.pointer v listed
    exact ⟨cat, rfl, key, .inl ⟨rfl, old⟩⟩
  | some i =>
    obtain ⟨past, moment⟩ := exists_past member
    have rule := history.rule e past i moment thread
    cases w with
    | none => exact absurd effect (history.undeleted e member)
    | some v =>
      obtain ⟨c, r, shape, applied⟩ := effect_write effect
      rw [congrArg Ev.op shape] at rule
      obtain ⟨cat, snap, c', tag, rest, rfl, key, ownEq, drawn⟩ := rule
      refine ⟨cat, rfl, key, .inr ⟨i, past, moment, rfl, ⟨cat, c, r, shape, rfl⟩, applied, ?_⟩⟩
      exact history.firstId_le_of_drawn moment.past (ownEq ▸ List.suffix_cons _ _) drawn

end

end CatalogHistory

end MarimoHub.Guarantees
