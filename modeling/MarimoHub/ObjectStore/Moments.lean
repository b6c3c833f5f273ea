import MarimoHub.ObjectStore.System

/-!
# Moments of an accepted trace

A moment of a trace `t` is an event with what happened before it, a suffix
`e :: past` of `t`. Two moments are ordered. An identifier is drawn at one moment
only, so whatever a client does once after drawing an identifier happens at one
moment only (`once_per_mint`). A key that is written once and never deleted keeps
its value (`lookup_of_stored`).
-/

namespace MarimoHub.ObjectStore

variable {B : Schema} {a : Adapter B} {t past past' q : Trace B} {e e' g x : Event B} {i n j : Nat}
  {pre es later : Log B} {ev : Ev B} {K : Ev B → Prop} {k : B.Key} {v : B.Val}

/-- Two moments of one trace are the same, or one precedes the other. -/
theorem moments_ordered (left : e :: past <:+ t) (right : e' :: past' <:+ t) :
    e :: past = e' :: past' ∨ e :: past <:+ past' ∨ e' :: past' <:+ past := by
  rcases List.suffix_or_suffix_of_suffix left right with inside | inside
  · rcases List.suffix_cons_iff.mp inside with same | before
    · exact .inl same
    · exact .inr (.inl before)
  · rcases List.suffix_cons_iff.mp inside with same | before
    · exact .inl same.symm
    · exact .inr (.inr before)

/-- An own event after `g` stands before it in the list of own events. -/
theorem own_between (mine : g.thread = some i) (also : x.thread = some i)
    (inside : g :: q <:+ m) (moment : x :: m <:+ past)
    (split : own i past = pre ++ g.toEv :: own i q) : x.toEv ∈ pre := by
  obtain ⟨mid, middle⟩ := own_suffix inside
  obtain ⟨top, above⟩ := own_suffix moment
  rw [own_cons mine] at middle
  rw [own_cons also, ← middle, split, ← List.cons_append, ← List.append_assoc] at above
  have between : top ++ x.toEv :: mid = pre := List.append_cancel_right above
  exact between ▸ List.mem_append_right top (.head _)

/-- Two events of one client happened in the order the client saw them. -/
theorem own_order (first : g :: q <:+ t) (second : h :: q' <:+ t)
    (mine : h.thread = some i) (fewer : (own i q).length < (own i q').length) :
    g :: q <:+ q' := by
  rcases moments_ordered first second with same | earlier | later
  · cases same
    exact absurd fewer (Nat.lt_irrefl _)
  · exact earlier
  · have length := (own_suffix (i := i) later).length_le
    rw [own_cons mine, List.length_cons] at length
    omega

theorem mem_minted (moment : e :: past <:+ t) (drawn : e.toEv = ⟨.mint, n⟩) : n ∈ minted t := by
  induction t with
  | nil => simp at moment
  | cons head tail ih =>
    rcases List.suffix_cons_iff.mp moment with same | inside
    · cases same
      obtain ⟨⟨o, r⟩, thread, time, applied⟩ := e
      cases drawn
      exact .head _
    · have earlier := ih inside
      obtain ⟨⟨o, r⟩, thread, time, applied⟩ := head
      cases o <;> first | exact earlier | exact .tail _ earlier

theorem fresh_of_mint (accepted : Along (Accepts a) t) (moment : e :: past <:+ t)
    (drawn : e.toEv = ⟨.mint, n⟩) : a.firstId ≤ n ∧ n ∉ minted past := by
  have responds := (accepted.at moment).responds_of drawn
  exact ⟨responds.1, responds.2.1⟩

theorem not_earlier (same : t = x :: past) : ¬ t <:+ past := by
  intro inside
  have short := inside.length_le
  rw [same, List.length_cons] at short
  omega

/-- An identifier is drawn at one moment. -/
theorem mint_once (accepted : Along (Accepts a) t) (left : e :: past <:+ t)
    (right : e' :: past' <:+ t) (drawn : e.toEv = ⟨.mint, n⟩) (drawn' : e'.toEv = ⟨.mint, n⟩) :
    e :: past = e' :: past' := by
  rcases moments_ordered left right with same | before | before
  · exact same
  · exact absurd (mem_minted before drawn) (fresh_of_mint accepted right drawn').2
  · exact absurd (mem_minted before drawn') (fresh_of_mint accepted left drawn).2

/-- An identifier is drawn by one client. -/
theorem drawn_by_one (accepted : Along (Accepts a) t) (earlier : past <:+ t)
    (earlier' : past' <:+ t)
    (left : ⟨.mint, n⟩ ∈ own i past) (right : ⟨.mint, n⟩ ∈ own j past') : i = j := by
  obtain ⟨e, q, moment, mine, drawn⟩ := exists_own_mem left
  obtain ⟨e', q', moment', theirs, drawn'⟩ := exists_own_mem right
  cases mint_once accepted (moment.trans earlier) (moment'.trans earlier') drawn drawn'
  exact Option.some.inj (mine.symm.trans theirs)

/-- The client drew the identifier `n` and did `ev` next. -/
def DrawnFor (n : Nat) (ev : Ev B) (es : Log B) : Prop :=
  ∃ later earlier, es = later ++ ev :: ⟨.mint, n⟩ :: earlier

theorem DrawnFor.grow (drawn : DrawnFor n ev es) (grown : es <:+ later) : DrawnFor n ev later := by
  obtain ⟨more, rfl⟩ := grown
  obtain ⟨new, earlier, rfl⟩ := drawn
  exact ⟨more ++ new, earlier, by simp⟩

section

variable (accepted : Along (Accepts a) t)
include accepted

/-- What is done right after a draw tells apart what identifiers are drawn for. -/
theorem DrawnFor.unique
    (left : DrawnFor n ev (own i t)) (right : DrawnFor n ev' (own j t)) : ev = ev' := by
  obtain ⟨later, earlier, split⟩ := left
  obtain ⟨later', earlier', split'⟩ := right
  have inside : (⟨.mint, n⟩ :: earlier) <:+ own i t :=
    ⟨later ++ [ev], by rw [split]; simp⟩
  have inside' : (⟨.mint, n⟩ :: earlier') <:+ own j t :=
    ⟨later' ++ [ev'], by rw [split']; simp⟩
  obtain ⟨e, past, moment, mine, drawn, before⟩ := exists_own inside
  obtain ⟨e', past', moment', theirs, drawn', before'⟩ := exists_own inside'
  cases mint_once accepted moment moment' drawn drawn'
  have ij : i = j := Option.some.inj (mine.symm.trans theirs)
  subst ij
  rw [split, ← before, ← before'] at split'
  have aligned : (later ++ [ev]) ++ ⟨.mint, n⟩ :: own i past =
      (later' ++ [ev']) ++ ⟨.mint, n⟩ :: own i past := by simpa using split'
  have same := List.append_cancel_right aligned
  exact List.singleton_inj.mp (List.append_inj' same rfl).2

/-- What a client does first after drawing an identifier, it does at one moment of the whole
run. -/
theorem first_after_mint
    (left : e :: past <:+ t) (right : e' :: past' <:+ t) (mine : e.thread = some i)
    (theirs : e'.thread = some j) (kind : K e.toEv) (kind' : K e'.toEv)
    (split : own i past = pre ++ ⟨.mint, n⟩ :: rest) (clear : ∀ ev ∈ pre, ¬ K ev)
    (split' : own j past' = pre' ++ ⟨.mint, n⟩ :: rest') (clear' : ∀ ev ∈ pre', ¬ K ev) :
    e :: past = e' :: past' := by
  -- it suffices to exclude that one moment precedes the other
  have never {e e' : Event B} {past past' : Trace B} {i j : Nat} {pre rest pre' rest' : Log B}
      (left : e :: past <:+ t) (right : e' :: past' <:+ t) (mine : e.thread = some i)
      (kind : K e.toEv) (split : own i past = pre ++ ⟨.mint, n⟩ :: rest)
      (split' : own j past' = pre' ++ ⟨.mint, n⟩ :: rest') (clear' : ∀ ev ∈ pre', ¬ K ev)
      (before : e :: past <:+ past') : False := by
    obtain ⟨m, q, mBefore, mThread, mDrawn, _⟩ := exists_own (split ▸ List.suffix_append pre _)
    obtain ⟨m', q', mBefore', mThread', mDrawn', mRest'⟩ := exists_own
      (split' ▸ List.suffix_append pre' _)
    have toTrace : past' <:+ t := right.past
    have fresh := (fresh_of_mint accepted (mBefore'.trans toTrace) mDrawn').2
    rcases moments_ordered before mBefore' with same | earlier | later
    · cases same
      exact fresh (mem_minted mBefore mDrawn)
    · exact fresh (mem_minted (mBefore.trans earlier.past) mDrawn)
    · -- the draws coincide, so `e` is an own event between the draw and `e'`
      have sameMint := mint_once accepted (mBefore.trans left.past)
        (mBefore'.trans toTrace) mDrawn mDrawn'
      cases sameMint
      have ij : i = j := Option.some.inj (mThread.symm.trans mThread')
      subst ij
      rw [← mDrawn', ← mRest'] at split'
      exact clear' e.toEv (own_between mThread' mine later before split') kind
  rcases moments_ordered left right with same | before | before
  · exact same
  · exact (never left right mine kind split split' clear' before).elim
  · exact (never right left theirs kind' split' split clear before).elim

/-- What a client does at most once after drawing an identifier, it does at one
moment of the whole run. -/
theorem once_per_mint
    (rule : ∀ e past i, e :: past <:+ t → e.thread = some i → K e.toEv → ∃ pre rest, own i past =
      pre ++ ⟨.mint, n⟩ :: rest ∧ ∀ ev ∈ pre, ¬ K ev)
    (left : e :: past <:+ t) (right : e' :: past' <:+ t) (mine : e.thread = some i)
    (theirs : e'.thread = some j) (kind : K e.toEv) (kind' : K e'.toEv) :
    e :: past = e' :: past' := by
  obtain ⟨pre, rest, split, clear⟩ := rule e past i left mine kind
  obtain ⟨pre', rest', split', clear'⟩ := rule e' past' j right theirs kind'
  exact first_after_mint accepted left right mine theirs kind kind' split clear split' clear'

end

/-- The identifiers a client drew. -/
def drawn : Log B → List Nat
  | [] => []
  | ⟨.mint, n⟩ :: es => n :: drawn es
  | _ :: es => drawn es

theorem drawn_append (es es' : Log B) : drawn (es ++ es') = drawn es ++ drawn es' := by
  induction es with
  | nil => rfl
  | cons ev rest ih =>
    obtain ⟨o, r⟩ := ev
    cases o <;> simp [drawn, ih]

/-- The draw of an identifier, among a client's own events. -/
theorem split_of_drawn (member : n ∈ drawn es) :
    ∃ later earlier, es = later ++ ⟨.mint, n⟩ :: earlier := by
  induction es with
  | nil => simp [drawn] at member
  | cons ev rest ih =>
    obtain ⟨o, r⟩ := ev
    by_cases mint : ∃ m : Nat, (⟨o, r⟩ : Ev B) = ⟨.mint, m⟩
    · obtain ⟨m, same⟩ := mint
      rw [same] at member ⊢
      rcases List.mem_cons.mp member with rfl | inside
      · exact ⟨[], rest, rfl⟩
      · obtain ⟨later, earlier, rfl⟩ := ih inside
        exact ⟨_ :: later, earlier, rfl⟩
    · have inside : n ∈ drawn rest := by
        cases o <;> first | exact member | exact absurd ⟨_, rfl⟩ mint
      obtain ⟨later, earlier, rfl⟩ := ih inside
      exact ⟨_ :: later, earlier, rfl⟩

/-- No client draws an identifier twice. -/
theorem drawn_nodup (accepted : Along (Accepts a) t) (i : Nat) : (drawn (own i t)).Nodup := by
  induction t with
  | nil => simp [own, drawn]
  | cons e past ih =>
    have earlier := ih accepted.2
    by_cases mine : e.thread = some i
    · rw [own_cons mine]
      by_cases mint : ∃ m : Nat, e.toEv = ⟨.mint, m⟩
      · obtain ⟨m, same⟩ := mint
        rw [same]
        refine List.nodup_cons.mpr ⟨?_, earlier⟩
        intro again
        obtain ⟨later, rest, split⟩ := split_of_drawn again
        obtain ⟨e', q, moment, _, shape, _⟩ := exists_own (split ▸ List.suffix_append later _)
        exact (fresh_of_mint accepted List.suffix_rfl same).2 (mem_minted moment shape)
      · obtain ⟨⟨o, r⟩, thread, time, applied⟩ := e
        cases o <;> first | exact earlier | exact absurd ⟨_, rfl⟩ mint
    · rw [own_cons_other mine]
      exact earlier

theorem Stored.before (stored : Stored k v (e :: past)) (effect : e.effect k = none) :
    Stored k v past := by
  obtain ⟨e', member, wrote⟩ := stored
  rcases List.mem_cons.mp member with rfl | inside
  · rw [effect] at wrote
    cases wrote
  · exact ⟨e', inside, wrote⟩

/-- A key that was only ever written with one value, and never deleted, has it. -/
theorem lookup_of_stored (stored : Stored k v t)
    (only : ∀ e ∈ t, ∀ w, e.effect k = some w → w = some v) : lookup k t = some v := by
  induction t with
  | nil => simp [Stored] at stored
  | cons e past ih =>
    rw [lookup_cons]
    cases effect : e.effect k with
    | some w => exact only e (.head _) w effect
    | none => exact ih (stored.before effect) fun e' member => only e' (.tail _ member)

/-- A key that was written and never deleted holds something. -/
theorem lookup_ne_none (stored : Stored k v t) (kept : ∀ e ∈ t, e.effect k ≠ some none) :
    lookup k t ≠ none := by
  induction t with
  | nil => simp [Stored] at stored
  | cons e past ih =>
    rw [lookup_cons]
    cases effect : e.effect k with
    | some w =>
      cases w with
      | some v => simp
      | none => exact absurd effect (kept e (.head _))
    | none => exact ih (stored.before effect) fun e' member => kept e' (.tail _ member)

/-- The write a stored object comes from, and how long it has been there. -/
theorem lookup_moment (found : lookup k t = some v) :
    ∃ e past, e :: past <:+ t ∧ e.effect k = some (some v) ∧
      ∀ mid, e :: past <:+ mid → mid <:+ t → lookup k mid = some v ∧ uploaded k mid = e.time := by
  induction t with
  | nil => simp [lookup] at found
  | cons head tail ih =>
    rw [lookup_cons] at found
    cases effect : head.effect k with
    | some w =>
      rw [effect] at found
      have wrote : head.effect k = some (some v) := by rw [effect]; exact congrArg some found
      refine ⟨head, tail, List.suffix_rfl, wrote, ?_⟩
      intro mid above below
      have same : mid = head :: tail := below.eq_of_length_le above.length_le
      subst same
      simp [uploaded, wrote]
    | none =>
      rw [effect] at found
      obtain ⟨e, past, moment, wrote, stays⟩ := ih found
      refine ⟨e, past, moment.cons, wrote, ?_⟩
      intro mid above below
      rcases List.suffix_cons_iff.mp below with same | inside
      · subst same
        have before := stays tail moment List.suffix_rfl
        simp only [lookup_cons, effect, uploaded]
        exact before
      · exact stays mid above inside

theorem time_le_lastTime (accepted : Along (Accepts a) t) (moment : e :: past <:+ t) :
    e.time ≤ lastTime t := by
  induction t with
  | nil => simp at moment
  | cons head tail ih =>
    rcases List.suffix_cons_iff.mp moment with same | inside
    · cases same
      exact Nat.le_refl _
    · exact Nat.le_trans (ih accepted.2 inside) accepted.1.forward

/-- Time does not run backwards. -/
theorem time_le (accepted : Along (Accepts a) t) (earlier : e :: past <:+ past')
    (later : e' :: past' <:+ t) : e.time ≤ e'.time := by
  have inside := later.past
  exact Nat.le_trans (time_le_lastTime (accepted.suffix inside) earlier) (accepted.at later).forward

/-- What a client saw after one of its events happened after it. -/
theorem exists_own_after (moment : g :: q <:+ past) (mine : g.thread = some i)
    (split : own i past = later ++ own i (g :: q)) (member : ev ∈ later) :
    ∃ h q', h :: q' <:+ past ∧ h.thread = some i ∧ h.toEv = ev ∧ g :: q <:+ q' := by
  obtain ⟨newer, older, rfl⟩ := List.append_of_mem member
  rw [List.append_assoc, List.cons_append] at split
  obtain ⟨h, q', inside, also, shape, before⟩ := exists_own ⟨newer, split.symm⟩
  refine ⟨h, q', inside, also, shape, own_order moment inside also ?_⟩
  rw [before, own_cons mine, List.length_append, List.length_cons]
  omega

/-- The clock a client read lies between an earlier event of its own and a later moment. -/
theorem clock_between (accepted : Along (Accepts a) (x :: past))
    (moment : g :: q <:+ past) (mine : g.thread = some i)
    (split : own i past = clock ++ own i (g :: q)) (member : ⟨.now, now⟩ ∈ clock) :
    g.time ≤ now ∧ now ≤ x.time := by
  obtain ⟨h, q', later, _, shape, order⟩ := exists_own_after moment mine split member
  have read : now = h.time := ((accepted.2.at later).responds_of shape).1
  rw [read]
  exact ⟨time_le accepted.2 order later, time_le accepted later List.suffix_rfl⟩

/-- The moment that `n` events came after satisfies `p`. -/
def atMoment (n : Nat) (p : Event B → Trace B → Bool) (t : Trace B) : Bool :=
  match t.drop n with
  | x :: past => p x past
  | [] => false

theorem exists_moment (holds : atMoment n p t = true) :
    ∃ x past, x :: past <:+ t ∧ p x past = true := by
  rw [atMoment] at holds
  split at holds
  · next x past dropped => exact ⟨x, past, dropped ▸ List.drop_suffix n t, holds⟩
  · cases holds

/-! ## Initial contents -/

/-- The trace of a store that holds `contents` before the run. -/
def seed (a : Adapter B) : List (B.Key × B.Val) → Trace B
  | [] => []
  | (k, v) :: rest =>
    ⟨⟨.put k v .any, .ok ⟨a.stamp k (version k (seed a rest) + 1), v⟩⟩, none, 0, true⟩ ::
      seed a rest

theorem seeds_seed (a : Adapter B) (contents : List (B.Key × B.Val)) :
    Seeds a (seed a contents) := by
  induction contents with
  | nil => exact Seeds.empty a
  | cons head rest ih =>
    refine ⟨⟨⟨?_, trivial, rfl, rfl⟩, ih.accepted⟩, ?_⟩
    · cases rest <;> exact Nat.le_refl _
    · intro e member
      rcases List.mem_cons.mp member with rfl | inside
      · rfl
      · exact ih.anonymous e inside

/-- The effects of the initial contents are those contents. -/
theorem effect_seed (member : e ∈ seed a contents) (effect : e.effect k = some
      w) : ∃ v, w = some v ∧ (k, v) ∈ contents := by
  induction contents with
  | nil => simp [seed] at member
  | cons head rest ih =>
    obtain ⟨k', v⟩ := head
    rcases List.mem_cons.mp member with rfl | inside
    · simp only [Event.effect, true_and] at effect
      split at effect
      · next same =>
        cases effect
        exact ⟨v, rfl, same ▸ (.head _)⟩
      · cases effect
    · obtain ⟨v', same, listed⟩ := ih inside
      exact ⟨v', same, .tail _ listed⟩

theorem stored_seed (listed : (k, v) ∈ contents) : Stored k v (seed a contents) := by
  induction contents with
  | nil => simp at listed
  | cons head rest ih =>
    rcases List.mem_cons.mp listed with rfl | inside
    · exact ⟨_, .head _, by simp [Event.effect]⟩
    · exact (ih inside).grow (List.suffix_cons _ _)

end MarimoHub.ObjectStore
