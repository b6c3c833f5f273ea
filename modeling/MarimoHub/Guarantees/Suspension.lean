import MarimoHub.Source.IdentityService

/-!
# Suspended users

Once a suspension is stored and cached, nothing that happens later makes a check answer that the
user is active (`StaysSuspended.step`): loads that were pending are superseded, loads that start
later read the suspended record. That needs every update of the cache to be made with the stored
record (`orderly`). A call that wrote the record before the suspension and updates the cache after
it lets the suspended user in (`late_update_hides_suspension`).
-/

namespace MarimoHub.Guarantees.Identities

open Source.Identities

variable {calls : Nat → IdentityCall} {r next : Replica} {late : Nat → Prop} {action : Action}
  {i load fresh : Nat} {slot : LazySlot}

/-- A load that is not going to answer that the user is active. -/
def Truthful : Load → Prop
  | .unused => False
  | .read _ suspended => suspended = true
  | .settled suspended => suspended = true
  | _ => True

/-- Where a check that started after the suspension may stand. -/
def Answers (loads : Nat → Load) : Phase → Prop
  | .waiting load => Truthful (loads load)
  | .returned suspended => suspended = true
  | _ => True

structure StaysSuspended (late : Nat → Prop) (r : Replica) : Prop where
  record : r.record = some true
  cached : ∀ timed, r.slot.value = some timed → timed.value = true
  pending : ∀ load, r.slot.pending = some (load, false) → Truthful (r.loads load)
  answers : ∀ i, late i → Answers r.loads (r.phase i)

/-- The cache is updated with the record that is stored, and the suspension is not lifted. -/
def orderly (calls : Nat → IdentityCall) (r : Replica) : Action → Bool
  | .update i _ =>
    match r.phase i with
    | .committed suspended => r.record == some suspended
    | _ => true
  | .commit i _ => calls i != .setSuspension false
  | _ => true

def orderlyRun (calls : Nat → IdentityCall) : Replica → List Action → Bool
  | _, [] => true
  | r, action :: rest => orderly calls r action &&
      (step calls r action).all fun next => orderlyRun calls next rest

/-! ## One action -/

theorem truthful_update (good : Truthful (r.loads load) → Truthful result) (n : Nat)
    (truthful : Truthful (r.loads n)) : Truthful (Function.update r.loads load result n) := by
  by_cases same : n = load
  · subst same
    rw [Function.update_self]
    exact good truthful
  · rw [Function.update_of_ne same]
    exact truthful

theorem Answers.mono (kept : ∀ n, Truthful (r.loads n) → Truthful (later n))
    (answers : Answers r.loads phase) : Answers later phase := by
  cases phase with
  | waiting load => exact kept load answers
  | _ => exact answers

namespace StaysSuspended

section

variable (stays : StaysSuspended late r)
include stays

theorem finishLoad (cached : ∀ timed, slot.value = some timed → timed.value = true)
    (pending : ∀ n, slot.pending = some (n, false) → r.slot.pending = some (n, false))
    (good : Truthful (r.loads load) → Truthful result) :
    StaysSuspended late (r.finishLoad load background slot result) where
  record := stays.record
  cached := cached
  pending n waits := truthful_update good n (stays.pending n (pending n waits))
  answers i among := (stays.answers i among).mono (truthful_update good)

theorem enter (fine : late i → Answers r.loads phase) : StaysSuspended late (r.enter i phase) where
  record := stays.record
  cached := stays.cached
  pending := stays.pending
  answers j among := by
    by_cases same : j = i
    · subst same
      simpa [Replica.enter] using fine among
    · simpa [Replica.enter, same] using stays.answers j among

theorem set (timed : TimedValue) (suspended : timed.value = true) (refreshing : Bool) :
    StaysSuspended late { r with refreshing, slot := r.slot.set timed } where
  record := stays.record
  cached := by
    rintro _ ⟨⟩
    exact suspended
  pending n waits := by simp [LazySlot.set] at waits
  answers := stays.answers

/-- A load that is shared was pending, one that is started reads the suspended record. -/
theorem reload (unused : r.loads fresh = .unused) (background : Bool) :
    StaysSuspended late (r.reload fresh background) ∧
      Truthful ((r.reload fresh background).loads (r.slot.reload fresh).2) := by
  have started (n : Nat) : Truthful (r.loads n) →
      Truthful (Function.update r.loads fresh (.reading background) n) := by
    refine truthful_update ?_ n
    exact fun _ => trivial
  unfold Replica.reload LazySlot.reload
  split
  · next n waits =>
    have truthful := stays.pending n waits
    have other : n ≠ fresh := by
      rintro rfl
      rw [unused] at truthful
      exact truthful
    simp only [if_neg other]
    exact ⟨⟨stays.record, stays.cached, stays.pending, stays.answers⟩, truthful⟩
  · simp only [if_true]
    refine ⟨⟨stays.record, stays.cached, ?_, fun i among => (stays.answers i among).mono started⟩,
      by simp [Truthful]⟩
    rintro _ ⟨⟩
    simp [Truthful]

theorem refreshInBackground {cached : TimedValue} (suspended : cached.value = true)
    (unused : r.loads fresh = .unused) (now : Nat) :
    StaysSuspended late (r.refreshInBackground cached now fresh) := by
  unfold Replica.refreshInBackground
  split
  · exact stays
  · have held := stays.set { cached with nextRefreshAt := now + 5000 } suspended true
    exact (held.reload unused true).1

theorem get (unused : r.loads fresh = .unused) (i now : Nat) :
    StaysSuspended late (r.get i now fresh) := by
  have waits := stays.reload unused false
  unfold Replica.get
  split
  · exact waits.1.enter fun _ => waits.2
  · next cached found =>
    have suspended := stays.cached cached found
    split
    · exact stays.enter fun _ => suspended
    · exact (stays.refreshInBackground suspended unused now).enter fun _ => suspended
    · exact waits.1.enter fun _ => waits.2

theorem step (checks : ∀ i, late i → calls i = .isSuspended) (fine : orderly calls r action = true)
    (stepped : Source.Identities.step calls r action = some next) : StaysSuspended late next := by
  have forget (slot : LazySlot) (load n : Nat)
      (waits : (slot.forget load).pending = some (n, false)) :
      slot.pending = some (n, false) := by
    unfold LazySlot.forget at waits
    split at waits
    · cases waits
    · exact waits
  have kept (slot : LazySlot) (load : Nat) : (slot.forget load).value = slot.value := by
    unfold LazySlot.forget
    split <;> rfl
  have others (i : Nat) (changes : calls i ≠ .isSuspended) (phase : Phase) :
      StaysSuspended late (r.enter i phase) :=
    stays.enter fun among => absurd (checks i among) changes
  cases action with
  | get i now fresh =>
    obtain ⟨⟨_, _, unused⟩, ⟨⟩⟩ := Option.ite_none_right_eq_some.mp stepped
    exact stays.get unused i now
  | read load =>
    simp only [Source.Identities.step] at stepped
    split at stepped
    · next background reading =>
      cases stepped
      have good : ∀ n, Truthful (r.loads n) → Truthful
          (Function.update r.loads load (.read background (r.record.getD false)) n) :=
        truthful_update fun _ => by simp [Truthful, stays.record]
      exact ⟨stays.record, stays.cached, fun n waits => good n (stays.pending n waits),
        fun i among => (stays.answers i among).mono good⟩
    · cases stepped
  | readFails load =>
    simp only [Source.Identities.step] at stepped
    split at stepped
    · cases stepped
      exact stays.finishLoad (by rw [kept]; exact stays.cached) (forget _ load) fun _ => trivial
    · cases stepped
  | settle load now =>
    simp only [Source.Identities.step] at stepped
    split at stepped
    · next background suspended loaded =>
      cases stepped
      rw [LazySlot.settle]
      split
      · next waits =>
        have truthful := stays.pending load waits
        rw [loaded] at truthful
        refine stays.finishLoad ?_ (forget _ load) fun _ => truthful
        rw [kept]
        rintro _ ⟨⟩
        exact truthful
      · refine stays.finishLoad (by rw [kept]; exact stays.cached) (forget _ load) ?_
        rw [loaded]
        intro truthful
        cases held : r.slot.value with
        | none => exact truthful
        | some timed => exact stays.cached timed held
    · cases stepped
  | resume i =>
    simp only [Source.Identities.step] at stepped
    split at stepped
    · next load waits =>
      split at stepped
      · next suspended answered =>
        cases stepped
        refine stays.enter fun among => ?_
        have truthful := stays.answers i among
        rw [waits] at truthful
        simpa [Answers, answered, Truthful] using truthful
      · cases stepped
        exact stays.enter fun _ => trivial
      · cases stepped
    · cases stepped
  | commit i acknowledged =>
    obtain ⟨_, mapped⟩ := Option.ite_none_right_eq_some.mp stepped
    obtain ⟨suspended, written, rfl⟩ := Option.map_eq_some_iff.mp mapped
    have changed : calls i ≠ .isSuspended ∧ suspended = true := by
      cases call : calls i with
      | isSuspended => simp [Replica.written, call] at written
      | upsert => simpa [Replica.written, call, stays.record] using written.symm
      | setSuspension flag =>
        simp only [Replica.written, call, stays.record, Option.map_some,
          Option.some.injEq] at written
        cases flag with
        | false => simp [orderly, call] at fine
        | true => exact ⟨by simp, written.symm⟩
    obtain ⟨changes, rfl⟩ := changed
    have same : { r with record := some true } = r := by rw [← stays.record]
    rw [same]
    exact others i changes _
  | update i now =>
    simp only [Source.Identities.step] at stepped
    split at stepped
    · next suspended committed =>
      cases stepped
      simp only [orderly, committed, stays.record, beq_iff_eq, Option.some.injEq] at fine
      exact (stays.set ⟨suspended, now, now⟩ fine.symm r.refreshing).enter fun _ => fine.symm
    · cases stepped
  | skip i =>
    obtain ⟨⟨_, upserts⟩, ⟨⟩⟩ := Option.ite_none_right_eq_some.mp stepped
    exact others i (by simp [upserts]) _
  | fail i =>
    obtain ⟨_, ⟨⟩⟩ := Option.ite_none_right_eq_some.mp stepped
    exact stays.enter fun _ => trivial
  | evict =>
    cases stepped
    exact ⟨stays.record, nofun, stays.pending, stays.answers⟩

end

end StaysSuspended

/-! ## Whole runs -/

theorem StaysSuspended.run (checks : ∀ i, late i → calls i = .isSuspended) (actions : List Action)
    (stays : StaysSuspended late r) (fine : orderlyRun calls r actions = true)
    (ran : run calls r actions = some next) : StaysSuspended late next := by
  induction actions generalizing r with
  | nil =>
    cases ran
    exact stays
  | cons action rest ih =>
    obtain ⟨middle, stepped, ran⟩ := Option.bind_eq_some_iff.mp ran
    rw [orderlyRun, stepped] at fine
    obtain ⟨first, later⟩ := Bool.and_eq_true_iff.mp fine
    exact ih (stays.step checks first stepped) later ran

/-- A call is past its write only by writing. -/
theorem committed_of_step (stepped : step calls r action = some next)
    (committed : next.phase i = .committed suspended) :
    r.phase i = .committed suspended ∨ r.written (calls i) = some suspended := by
  have entered {r : Replica} {j : Nat} {phase : Phase}
      (here : (r.enter j phase).phase i = .committed suspended) :
      r.phase i = .committed suspended ∨ i = j ∧ phase = .committed suspended := by
    by_cases same : i = j
    · subst same
      exact .inr ⟨rfl, by simpa [Replica.enter] using here⟩
    · exact .inl (by simpa [Replica.enter, same] using here)
  cases action with
  | get j now fresh =>
    obtain ⟨_, ⟨⟩⟩ := Option.ite_none_right_eq_some.mp stepped
    unfold Replica.get Replica.refreshInBackground Replica.reload at committed
    grind
  | commit j acknowledged =>
    obtain ⟨_, mapped⟩ := Option.ite_none_right_eq_some.mp stepped
    obtain ⟨flag, written, rfl⟩ := Option.map_eq_some_iff.mp mapped
    grind
  | _ =>
    simp only [step] at stepped
    grind [Replica.finishLoad]

/-- A call that has written the record wrote what it was asked to. -/
theorem committed_flag (asked : calls i = .setSuspension flag)
    (actions : List Action) (before : ∀ suspended, r.phase i = .committed suspended →
      suspended = flag) (ran : run calls r actions = some next)
    (committed : next.phase i = .committed suspended) : suspended = flag := by
  induction actions generalizing r with
  | nil =>
    cases ran
    exact before suspended committed
  | cons action rest ih =>
    obtain ⟨middle, stepped, ran⟩ := Option.bind_eq_some_iff.mp ran
    refine ih (fun value here => ?_) ran
    rcases committed_of_step stepped here with earlier | written
    · exact before value earlier
    · rw [asked] at written
      obtain ⟨_, _, same⟩ := Option.map_eq_some_iff.mp written
      exact same.symm

/-- After `setSuspension(true)` has returned, a check that starts later answers `true`, as long as
the cache is updated with the stored record and nobody lifts the suspension. -/
theorem suspension_seen (calls : Nat → IdentityCall) (start : Replica)
    (idle : ∀ i, start.phase i = .idle) (before after : List Action) (i now : Nat)
    {r₀ r r' : Replica} (ran : run calls start before = some r₀)
    (suspends : calls i = .setSuspension true)
    (returned : step calls r₀ (.update i now) = some r) (later : run calls r after = some r')
    (fine : orderlyRun calls r₀ (.update i now :: after) = true) {j : Nat}
    (checks : calls j = .isSuspended) (unstarted : r.phase j = .idle) {answer : Bool}
    (answered : r'.phase j = .returned answer) : answer = true := by
  rw [orderlyRun, returned] at fine
  obtain ⟨here, rest⟩ := Bool.and_eq_true_iff.mp fine
  simp only [step] at returned
  split at returned
  · next suspended committed =>
    have flag := committed_flag suspends before (by simp [idle]) ran committed
    subst flag
    simp only [orderly, committed, beq_iff_eq] at here
    cases returned
    have stays : StaysSuspended (fun j => calls j = .isSuspended ∧
        Function.update r₀.phase i (.returned true) j = .idle)
        ({ r₀ with slot := r₀.slot.set ⟨true, now, now⟩ }.enter i (.returned true)) := by
      refine ⟨here, ?_, ?_, ?_⟩
      · rintro _ ⟨⟩
        rfl
      · intro load waits
        simp [Replica.enter, LazySlot.set] at waits
      · intro k among
        show Answers _ (Function.update r₀.phase i (.returned true) k)
        rw [among.2]
        trivial
    have kept := (stays.run (fun k among => among.1) after rest later).answers j ⟨checks, unstarted⟩
    rw [answered] at kept
    exact kept
  · cases returned

/-! ## An update that comes late -/

namespace LateUpdate

def made : Nat → IdentityCall
  | 0 => .upsert
  | 1 => .setSuspension true
  | _ => .isSuspended

/-- An active user whose entry is not cached. -/
def start : Replica := ⟨some false, ⟨none, none⟩, false, fun _ => .unused, fun _ => .idle⟩

/-- The upsert and then the suspension write the record; the suspension updates the cache. -/
def suspension : List Action := [.commit 0 true, .commit 1 true, .update 1 0]

end LateUpdate

open LateUpdate

theorem late_update_hides_suspension : ∃ r r', run made start suspension = some r ∧
      r.phase 1 = .returned true ∧ r.phase 2 = .idle ∧
      run made r [.update 0 0, .get 2 0 0] = some r' ∧ r'.phase 2 = .returned false :=
  ⟨_, _, rfl, rfl, rfl, rfl, rfl⟩

theorem suspension_seen_by_check : ∃ r r', run made start suspension = some r ∧
      run made r [.get 2 0 0] = some r' ∧ ∃ answer, r'.phase 2 = .returned answer ∧ answer = true :=
  ⟨_, _, rfl, rfl, true, rfl, suspension_seen made start (fun _ => rfl)
    [.commit 0 true, .commit 1 true] [.get 2 0 0] 1 0 rfl rfl rfl rfl rfl (j := 2) rfl rfl rfl⟩

end MarimoHub.Guarantees.Identities
