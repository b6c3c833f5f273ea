import MarimoHub.Source.RateLimit

/-!
# The window of the in-memory budget is exact

`Exact` compares the stored entries of a key with the admissions of the key that were not
refunded: from the time of the last call on, the same ones of both are recent. Trimming, sweeps
and refunds keep it, whatever the times are, as rounding is monotone. So an `admit` counts the
admissions that are recent; for times and windows that are safe integers these are the ones in the
window (`isRecent_iff`), while a fraction can be rounded out of it.
-/

namespace MarimoHub.Guarantees.Budgets

open Source.Budgets

variable {Key : Type} [DecidableEq Key] {options : SlidingWindowBudgetOptions}
  {budget : SlidingWindowBudget Key} {time later : ℚ} {key : Key} {id : Nat}

def stored (budget : SlidingWindowBudget Key) (key : Key) : List BudgetEntry :=
  (budget.recentByKey key).getD []

/-- The entries of the key's admissions that were not refunded. -/
def owed (budget : SlidingWindowBudget Key) (key : Key) : List BudgetEntry :=
  (budget.admissions.filter fun a => a.key = key && a.refundable).map (·.entry)

structure Exact (options : SlidingWindowBudgetOptions) (time : ℚ)
    (budget : SlidingWindowBudget Key) : Prop where
  kept : ∀ key later, time ≤ later → (stored budget key).filter (isRecent options later) =
    (owed budget key).filter (isRecent options later)
  observed : ∀ key seen, budget.lastObservedByKey key = some seen → seen ≤ time
  passed : ∀ a ∈ budget.admissions, a.entry.timestamp ≤ time
  safe : ∀ a ∈ budget.admissions, isSafeInteger a.entry.timestamp = true

theorem Exact.mono (held : Exact options time budget) (after : time ≤ later) :
    Exact options later budget where
  kept key last bound := held.kept key last (after.trans bound)
  observed key seen found := (held.observed key seen found).trans after
  passed a member := (held.passed a member).trans after
  safe := held.safe

theorem isRecent_earlier (recent : isRecent options later entry = true)
    (after : time ≤ later) : isRecent options time entry = true := by
  have sooner : elapsed time entry.timestamp ≤ elapsed later entry.timestamp :=
    Numbers.rounded_mono (by decide) (sub_le_sub_right after _)
  exact decide_eq_true (sooner.trans_lt (of_decide_eq_true recent))

omit [DecidableEq Key] in
/-- A swept key had nothing that is recent now or later. -/
theorem stored_sweep (after : time ≤ later) :
    (stored (sweep options budget time) key).filter (isRecent options later) =
      (stored budget key).filter (isRecent options later) := by
  simp only [stored, sweep]
  split
  · next idle =>
    obtain ⟨entries, found, old⟩ := (Option.any_eq_true ..).mp idle
    have none_recent : entries.filter (isRecent options later) = [] := by
      rw [List.filter_eq_nil_iff]
      intro entry member recent
      simpa [isRecent_earlier recent after] using List.all_eq_true.mp old entry member
    simp [found, none_recent]
  · rfl

section

variable (held : Exact options time budget)
include held

theorem Exact.sweep :
    Exact options time (sweep options budget time) where
  kept key later after := (stored_sweep after).trans (held.kept key later after)
  observed key seen found := by
    simp only [Source.Budgets.sweep] at found
    split at found
    · cases found
    · exact held.observed key seen found
  passed := held.passed
  safe := held.safe

/-- What the code reads before it decides: with ordered timestamps the clock never rolled back. -/
theorem admitKey_eq (key : Key) :
    ∃ swept : SlidingWindowBudget Key, Exact options time swept ∧
      swept.admissions = budget.admissions ∧ admitKey options budget key time =
        let observed := { swept with
          lastObservedByKey := Function.update swept.lastObservedByKey key (some time) }
        let recent := (owed budget key).filter (isRecent options time)
        if options.limit ≤ recent.length then (none, observed) else
          let entry : BudgetEntry := ⟨budget.admissions.length, time⟩
          (some entry.id, { observed with
            recentByKey := Function.update swept.recentByKey key (some (recent ++ [entry]))
            admissions := budget.admissions ++ [⟨key, entry, true⟩] }) := by
  have forward : (budget.lastObservedByKey key).any (time < ·) = false := by
    rw [Option.any_eq_false]
    intro seen found
    simpa using held.observed key seen found
  obtain ⟨swept, eq, same, fit⟩ : ∃ swept : SlidingWindowBudget Key,
      (if budget.lastSweptAt.all (options.windowMs ≤ elapsed time ·) then
        Source.Budgets.sweep options budget time else budget) = swept ∧
      swept.admissions = budget.admissions ∧ Exact options time swept := by
    split
    · exact ⟨_, rfl, rfl, held.sweep⟩
    · exact ⟨_, rfl, rfl, held⟩
  refine ⟨swept, fit, same, ?_⟩
  have read : ((swept.recentByKey key).getD []).filter (isRecent options time) =
      (owed budget key).filter (isRecent options time) := by
    rw [owed, ← same]
    exact fit.kept key time le_rfl
  simp only [admitKey, forward, Bool.false_eq_true, if_false, eq, same, read]

theorem Exact.admitKey (key : Key) (integer : isSafeInteger time = true) :
    Exact options time (admitKey options budget key time).2 := by
  obtain ⟨swept, fit, same, eq⟩ := admitKey_eq held key
  have observed : ∀ other seen, Function.update swept.lastObservedByKey key (some time) other =
      some seen → seen ≤ time := by
    intro other seen found
    rcases eq_or_ne other key with rfl | different
    · simp only [Function.update_self, Option.some.injEq] at found
      exact found.ge
    · rw [Function.update_of_ne different] at found
      exact fit.observed other seen found
  rw [eq]
  dsimp only
  split
  · exact ⟨fit.kept, observed, fit.passed, fit.safe⟩
  · refine ⟨?_, observed, ?_, ?_⟩
    · intro other later after
      rcases eq_or_ne other key with rfl | different
      · -- what was trimmed now is not recent later either
        have trimmed : ((owed budget other).filter (isRecent options time)).filter
            (isRecent options later) = (owed budget other).filter (isRecent options later) := by
          rw [List.filter_filter]
          refine List.filter_congr fun entry _ => ?_
          rw [Bool.and_eq_left_iff_imp]
          exact fun recent => isRecent_earlier recent after
        simp [stored, owed] at trimmed ⊢
        simp [trimmed]
      · have := fit.kept other later after
        simp only [stored, owed, same] at this
        simp [stored, owed, Function.update_of_ne different, this, different.symm]
    · intro a member
      rcases List.mem_append.mp member with old | new
      · exact held.passed a old
      · rw [List.mem_singleton.mp new]
    · intro a member
      rcases List.mem_append.mp member with old | new
      · exact held.safe a old
      · rw [List.mem_singleton.mp new, integer]

end

/-- A refund takes the entry out of what is owed, and no entry of another key. -/
theorem owed_spent :
    ((budget.admissions.map (spend key id)).filter fun a => a.key = other && a.refundable).map
        (·.entry) =
      if other = key then (owed budget other).filter (·.id ≠ id) else owed budget other := by
  rw [owed]
  induction budget.admissions with
  | nil => simp
  | cons a rest ih =>
    by_cases mine : a.key = key <;> by_cases hit : a.entry.id = id <;>
      by_cases counted : a.key = other <;> by_cases due : a.refundable <;>
      by_cases same : other = key <;> simp_all [spend]

theorem spend_entry (a : SlidingWindowAdmission Key) :
    (spend key id a).entry = a.entry := by
  unfold spend
  split <;> rfl

/-- What a refund leaves: nothing changed, or the entry is gone. -/
theorem refund_cases (budget : SlidingWindowBudget Key) (key : Key) (id : Nat) :
    refund budget key id = budget ∨ ∃ recent observed, refund budget key id = { budget with
        recentByKey := recent, lastObservedByKey := observed
        admissions := budget.admissions.map (spend key id) } ∧
      (∀ other, (recent other).getD [] = if other = key then
        (stored budget other).filter (·.id ≠ id) else stored budget other) ∧
      ∀ other seen, observed other = some seen → budget.lastObservedByKey other = some seen := by
  unfold refund
  split
  swap
  · exact .inl rfl
  refine .inr ?_
  dsimp only
  split
  · next absent =>
    refine ⟨_, _, rfl, fun other => ?_, fun _ _ found => found⟩
    split
    · next same => simp [stored, same, absent]
    · rfl
  next current present =>
  split
  · refine ⟨_, _, rfl, fun other => ?_, fun _ _ found => found⟩
    split
    · next same => simp [stored, same, present]
    · next apart => rw [Function.update_of_ne apart, stored]
  · next empty =>
    refine ⟨_, _, rfl, fun other => ?_, fun other seen => ?_⟩
    · split
      · next same => simpa [stored, same, present] using empty
      · next apart => rw [Function.update_of_ne apart, stored]
    · by_cases same : other = key <;> simp [same]

theorem Exact.refund (held : Exact options time budget) (key : Key) (id : Nat) :
    Exact options time (refund budget key id) := by
  rcases refund_cases budget key id with eq | ⟨recent, observed, eq, entries, seen⟩
  · rwa [eq]
  rw [eq]
  refine ⟨fun other later after => ?_, fun other moment found => ?_, ?_, ?_⟩
  · have kept := held.kept other later after
    rw [stored, entries, owed, owed_spent]
    split
    · simp only [List.filter_filter, Bool.and_comm (isRecent ..)]
      rw [← List.filter_filter, kept, List.filter_filter]
    · exact kept
  · exact held.observed other moment (seen other moment found)
  · simp only [List.forall_mem_map, spend_entry]
    exact held.passed
  · simp only [List.forall_mem_map, spend_entry]
    exact held.safe

/-- What the history says about the window that ends now. -/
def inWindow (options : SlidingWindowBudgetOptions) (key : Key) (time : ℚ)
    (admission : SlidingWindowAdmission Key) : Bool :=
  admission.key = key && admission.refundable &&
    time - options.windowMs < admission.entry.timestamp && admission.entry.timestamp ≤ time

theorem isSafeInteger_cast (safe : isSafeInteger value = true) :
    ∃ n : ℤ, value = n ∧ -(2 ^ 53) < n ∧ n < 2 ^ 53 := by
  simp only [isSafeInteger, Bool.and_eq_true, decide_eq_true_eq] at safe
  have whole : value = value.num := (Rat.den_eq_one_iff value).mp safe.1.1 |>.symm
  rw [whole] at safe
  exact ⟨value.num, whole, by exact_mod_cast safe.1.2, by exact_mod_cast safe.2⟩

/-- Differences of safe integers may be rounded, but not across a window that is one. -/
theorem isRecent_iff (positive : 0 < options.windowMs)
    (window : isSafeInteger options.windowMs = true) (now : isSafeInteger time = true)
    (stamp : isSafeInteger entry.timestamp = true) :
    isRecent options time entry = true ↔ time - options.windowMs < entry.timestamp := by
  obtain ⟨w, width, -, small⟩ := isSafeInteger_cast window
  obtain ⟨t, at_time, -⟩ := isSafeInteger_cast now
  obtain ⟨s, stamped, -⟩ := isSafeInteger_cast stamp
  rw [width] at positive
  lift w to ℕ using by exact_mod_cast positive.le
  have rounds : elapsed time entry.timestamp < w ↔ t - s < (w : ℤ) := by
    rw [elapsed, at_time, stamped, ← Int.cast_sub]
    exact Numbers.rounded_lt_iff (t - s) (by exact_mod_cast positive) (by exact_mod_cast small)
  rw [isRecent, decide_eq_true_eq, width, at_time, stamped]
  rw [at_time, stamped] at rounds
  exact_mod_cast rounds.trans sub_lt_comm

theorem Exact.decides (held : Exact options time budget) (positive : 0 < options.windowMs)
    (window : isSafeInteger options.windowMs = true) (now : isSafeInteger time = true) :
    (Source.Budgets.admitKey options budget key time).1.isSome ↔
      (budget.admissions.filter (inWindow options key time)).length < options.limit := by
  have counted : ((owed budget key).filter (isRecent options time)).length =
      (budget.admissions.filter (inWindow options key time)).length := by
    rw [owed, List.filter_map, List.length_map, List.filter_filter]
    congr 1
    refine List.filter_congr fun a member => ?_
    have passed := held.passed a member
    have recent := isRecent_iff positive window now (held.safe a member)
    rw [Function.comp_apply, Bool.and_comm, Bool.eq_iff_iff]
    simp [inWindow, passed, recent]
  obtain ⟨swept, -, -, eq⟩ := admitKey_eq held key
  rw [eq, ← counted]
  dsimp only
  split
  · next full => simpa using full
  · next room => simpa using room

theorem Exact.run {calls : List (BudgetCall Key)} (held : Exact options time budget)
    (ordered : (time :: calls.filterMap BudgetCall.timestamp ++ [later]).Pairwise (· ≤ ·))
    (safe : ∀ moment ∈ calls.filterMap BudgetCall.timestamp, isSafeInteger moment = true) :
    Exact options later (calls.foldl (BudgetCall.run options) budget) := by
  induction calls generalizing time budget with
  | nil => exact held.mono (by simpa using ordered)
  | cons call rest ih =>
    cases call with
    | admitKey key next =>
      simp only [List.filterMap_cons, BudgetCall.timestamp, List.cons_append,
        List.pairwise_cons] at ordered
      simp only [List.filterMap_cons, BudgetCall.timestamp, List.forall_mem_cons] at safe
      have now := held.mono (ordered.1 next (by simp))
      exact ih (now.admitKey key safe.1) (by simpa using ordered.2) safe.2
    | refund key id => exact ih (held.refund key id) ordered safe

/-- Whatever calls of non-decreasing time went before, an `admit` is granted exactly when fewer
than `limit` admissions of the key that were not refunded lie in the window that ends now, for
times and a window that are safe integers. -/
theorem admitted_iff_window_open {calls : List (BudgetCall Key)}
    (created : createSlidingWindowBudget options = .ok budget)
    (ordered : (calls.filterMap BudgetCall.timestamp ++ [time]).Pairwise (· ≤ ·))
    (window : isSafeInteger options.windowMs = true)
    (safe : ∀ moment ∈ calls.filterMap BudgetCall.timestamp ++ [time],
      isSafeInteger moment = true) :
    (admitKey options (calls.foldl (BudgetCall.run options) budget) key time).1.isSome ↔
      ((calls.foldl (BudgetCall.run options) budget).admissions.filter
        (inWindow options key time)).length < options.limit := by
  simp only [createSlidingWindowBudget] at created
  split at created
  · cases created
  split at created
  · cases created
  next lasting =>
  cases created
  obtain ⟨start, since⟩ : ∃ start,
      (start :: calls.filterMap BudgetCall.timestamp ++ [time]).Pairwise (· ≤ ·) := by
    cases found : calls.filterMap BudgetCall.timestamp with
    | nil => exact ⟨time, by simp⟩
    | cons first rest =>
      rw [found] at ordered
      refine ⟨first, List.pairwise_cons.mpr ⟨?_, ordered⟩⟩
      simpa using (List.pairwise_cons.mp ordered).1
  have empty : Exact options start
      (⟨fun _ => none, fun _ => none, none, []⟩ : SlidingWindowBudget Key) :=
    ⟨by simp [stored, owed], by simp, by simp, by simp⟩
  rw [List.forall_mem_append, List.forall_mem_singleton] at safe
  exact (empty.run since safe.1).decides (not_le.mp lasting) window safe.2

namespace OneKey

/-- Admitted at time 0, refunded, and admitted again at time 1. -/
def calls : List (BudgetCall Bool) := [.admitKey true 0, .refund true 0, .admitKey true 1]

def empty : SlidingWindowBudget Bool := ⟨fun _ => none, fun _ => none, none, []⟩

end OneKey

open OneKey in
/-- The refunded admission leaves room for a second one, which fills the window until it ends. -/
theorem admitted_iff_window_open_refunded :
    createSlidingWindowBudget ⟨1, 10⟩ = .ok empty ∧
    (∀ time ∈ [10, 11], (admitKey ⟨1, 10⟩ (calls.foldl (BudgetCall.run ⟨1, 10⟩) empty) true
        time).1.isSome ↔
      ((calls.foldl (BudgetCall.run ⟨1, 10⟩) empty).admissions.filter
        (inWindow ⟨1, 10⟩ true time)).length < (1 : ℚ)) ∧
    ((calls.foldl (BudgetCall.run ⟨1, 10⟩) empty).admissions.map (·.refundable)) =
      [false, true] := by
  have created : createSlidingWindowBudget ⟨1, 10⟩ = .ok empty := by
    norm_num [createSlidingWindowBudget, isSafeInteger, empty]
  refine ⟨created, ?_, by decide +kernel⟩
  intro time member
  have times : time = 10 ∨ time = 11 := by simpa using member
  rcases times with rfl | rfl
  · exact admitted_iff_window_open created (by decide +kernel) (by decide +kernel)
      (by decide +kernel)
  · exact admitted_iff_window_open created (by decide +kernel) (by decide +kernel)
      (by decide +kernel)

open OneKey in
/-- The difference of 1 and the first time is rounded to 1, so the second admission is granted
although the first lies in the window. -/
theorem fraction_rounded_out_of_window :
    createSlidingWindowBudget ⟨1, 1⟩ = .ok empty ∧
    ([1 / 2 ^ 60, 1] : List ℚ).Pairwise (· ≤ ·) ∧
    (admitKey ⟨1, 1⟩ (BudgetCall.run ⟨1, 1⟩ empty (.admitKey true (1 / 2 ^ 60))) true
      1).1.isSome = true ∧
    ¬ ((BudgetCall.run ⟨1, 1⟩ empty (.admitKey true (1 / 2 ^ 60))).admissions.filter
      (inWindow ⟨1, 1⟩ true 1)).length < (1 : ℚ) := by
  refine ⟨?_, by decide +kernel, by decide +kernel, by decide +kernel⟩
  norm_num [createSlidingWindowBudget, isSafeInteger, empty]

end MarimoHub.Guarantees.Budgets
