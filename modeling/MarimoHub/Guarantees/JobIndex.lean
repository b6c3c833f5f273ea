import MarimoHub.Source.JobsService

/-!
# The job index and the job records

A job's entry in the index is the projection of its record whenever none of its calls is in
flight, in every run whose requests meet `Honest`. A commit that took effect and is reported as
failed is undone in the record only: after a creation the entry names no record, and after an
update the entry of the prior definition is refused, being older than the one committed.
-/

namespace MarimoHub.Guarantees.JobDefinitions

open Source.JobDefinitions NotebookJobs

/-- Which outcomes the request of a phase may have. The other phases may fail in every way. -/
def Honest : Phase → Outcome → Bool
  | .publishing _, outcome => outcome ≠ .unacknowledged
  | .updating .., outcome => outcome ≠ .unacknowledged
  | .announcing .., outcome => outcome ≠ .unacknowledged
  | .rollingBack .., outcome => outcome ≠ .lost
  | _, _ => true

def HonestAt (s : NotebookJobs) : Action → Bool
  | .call .. => true
  | .request id outcome => Honest (s.phase id) outcome

def HonestRun (limits : JobLimits) : NotebookJobs → List Action → Bool
  | _, [] => true
  | s, action :: rest =>
    HonestAt s action && (step limits s action).all fun next => HonestRun limits next rest

/-- Every entry names a record, and its fields are those projected from it. -/
def Agrees (s : NotebookJobs) : Prop :=
  ∀ entry ∈ s.jobs, ∃ job, s.heads entry.id = some job ∧ jobIndexEntry job = entry

/-- No call is in flight. -/
def Quiet (s : NotebookJobs) : Prop := ∀ id, s.phase id = .idle

/-- The definition a job's entry is the projection of; without one the job has no entry. -/
def described : Phase → Option JobDefinition → Option JobDefinition
  | .creating _, _ | .listing _, _ | .publishing _, _ | .undoing, _ => none
  | .announcing prior _, _ | .rollingBack prior _, _ => some prior
  | .removing, _ | .unfencing, _ => none
  | _, head => head

/-- What a call knows of the record. -/
def Knows (id : JobId) : Phase → Option JobDefinition → Prop
  | .creating job, _ => job.id = id
  | .listing job, head | .publishing job, head => head = some job
  | .announcing prior updated, head | .rollingBack prior updated, head =>
    head = some updated ∧ prior.id = id ∧ prior.updatedAt < updated.updatedAt
  | .reannouncing prior, head => head = some prior
  | _, _ => True

structure FitsAt (id : JobId) (phase : Phase) (head : Option JobDefinition)
    (jobs : List SnapshotJobEntry) : Prop where
  entries : ∀ entry ∈ jobs, entry.id = id →
    ∃ job, described phase head = some job ∧ jobIndexEntry job = entry
  named : ∀ job, head = some job → job.id = id
  knows : Knows id phase head

def Fits (s : NotebookJobs) : Prop := ∀ id, FitsAt id (s.phase id) (s.heads id) s.jobs

variable {limits : JobLimits} {s s' t : NotebookJobs} {id : JobId}
  {phase next : Phase} {head now : Option JobDefinition} {job prior : JobDefinition}
  {jobs : List SnapshotJobEntry} {entry candidate : SnapshotJobEntry}

/-! ## What a sync does to the entries -/

/-- The entry of the job becomes the new one, unless it is older than the one there. -/
theorem mem_syncIndex (synced : syncIndex id (some entry) maxPerNotebook s.jobs = some jobs)
    (current : ∀ old ∈ s.jobs, old.id = id → isNewer old entry = false)
    (inside : candidate ∈ jobs) : candidate ∈ s.jobs ∧ candidate.id ≠ id ∨ candidate = entry := by
  simp only [syncIndex] at synced
  split at synced
  case isTrue stale =>
    obtain ⟨old, found, newer⟩ := (Option.any_eq_true _ _).mp stale
    have fresh := current old (List.mem_of_find?_eq_some found)
      (by simpa using List.find?_some found)
    rw [newer] at fresh
    cases fresh
  case isFalse =>
    split at synced
    · cases synced
    · cases synced
      simpa using inside

theorem isNewer_jobIndexEntry (le : prior.updatedAt ≤ job.updatedAt) :
    isNewer (jobIndexEntry prior) (jobIndexEntry job) = false := by
  simpa [isNewer, jobIndexEntry] using le

/-- A job whose entry, if it has one, is not newer than its record can be announced. -/
theorem FitsAt.announced (fits : FitsAt id phase head s.jobs) (named : job.id = id)
    (older : ∀ prior, described phase head = some prior → prior.updatedAt ≤ job.updatedAt)
    (synced : syncIndex id (some (jobIndexEntry job)) maxPerNotebook s.jobs = some jobs) :
    FitsAt id .idle (some job) jobs ∧
      ∀ candidate ∈ jobs, candidate.id ≠ id → candidate ∈ s.jobs := by
  have current : ∀ old ∈ s.jobs, old.id = id → isNewer old (jobIndexEntry job) = false := by
    intro old inside own
    obtain ⟨prior, about, rfl⟩ := fits.entries old inside own
    exact isNewer_jobIndexEntry (older prior about)
  refine ⟨⟨fun candidate inside own => ?_, ?_, trivial⟩, fun candidate inside other => ?_⟩
  · rcases mem_syncIndex synced current inside with ⟨-, other⟩ | rfl
    · exact absurd own other
    · exact ⟨job, rfl, rfl⟩
  · rintro _ ⟨⟩
    exact named
  · rcases mem_syncIndex synced current inside with ⟨kept, -⟩ | rfl
    · exact kept
    · exact absurd named other

/-- Without a limit a sync always has a result. -/
theorem syncIndex_eq_some : syncIndex id (some entry) none jobs =
      some ((syncIndex id (some entry) none jobs).getD jobs) := by
  simp only [syncIndex]
  split <;> simp

/-! ## One request -/

/-- A change of the entry's description that is none. -/
theorem FitsAt.onto (fits : FitsAt id phase head jobs)
    (same : described next now = described phase head) (named : ∀ job, now = some job → job.id = id)
    (knows : Knows id next now) : FitsAt id next now jobs :=
  ⟨same ▸ fits.entries, named, knows⟩

theorem FitsAt.absent (fits : FitsAt id phase head jobs) (nothing : described phase head = none)
    (named : ∀ job, now = some job → job.id = id) (knows : Knows id next now) :
    FitsAt id next now jobs := by
  refine ⟨fun entry inside own => ?_, named, knows⟩
  obtain ⟨job, about, -⟩ := fits.entries entry inside own
  rw [nothing] at about
  cases about

section

variable (all : Fits s)
include all

/-- Other jobs see nothing of a request. -/
theorem fits_enter (phases : t.phase = s.phase)
    (heads : ∀ other, other ≠ id → t.heads other = s.heads other)
    (others : ∀ entry ∈ t.jobs, entry.id ≠ id → entry ∈ s.jobs)
    (fits : FitsAt id phase (t.heads id) t.jobs) : Fits (t.enter id phase) := by
  intro other
  by_cases own : other = id
  · subst own
    simpa [enter] using fits
  · have before := all other
    simp only [enter, Function.update_of_ne own, phases, heads other own]
    exact ⟨fun entry inside about => before.entries entry (others entry inside (about ▸ own)) about,
      before.named, before.knows⟩

theorem fits_kept (same : (t.phase, t.heads, t.jobs) = (s.phase, s.heads, s.jobs))
    (fits : FitsAt id phase (s.heads id) s.jobs) : Fits (t.enter id phase) := by
  simp only [Prod.mk.injEq] at same
  obtain ⟨phases, heads, jobs⟩ := same
  exact fits_enter all phases (fun _ _ => by rw [heads]) (fun _ inside _ => jobs ▸ inside)
    (by rwa [heads, jobs])

theorem fits_head
    (same : (t.phase, t.heads, t.jobs) = (s.phase, Function.update s.heads id head, s.jobs))
    (fits : FitsAt id phase head s.jobs) : Fits (t.enter id phase) := by
  simp only [Prod.mk.injEq] at same
  obtain ⟨phases, heads, jobs⟩ := same
  exact fits_enter all phases (fun _ other => by rw [heads, Function.update_of_ne other])
    (fun _ inside _ => jobs ▸ inside) (by rwa [heads, Function.update_self, jobs])

theorem fits_jobs
    (fits : FitsAt id phase (s.heads id) jobs ∧ ∀ entry ∈ jobs, entry.id ≠ id → entry ∈ s.jobs) :
    Fits ({ s with jobs }.enter id phase) :=
  fits_enter all rfl (fun _ _ => rfl) fits.2 fits.1

theorem begin_fits (idle : s.phase id = .idle)
    (begun : s.begin limits id call = some s') : Fits s' := by
  have fits := all id
  rw [idle] at fits
  cases call with
  | create input now =>
    simp only [begin] at begun
    split at begun
    · cases begun
    case isFalse fresh =>
      split at begun
      · cases begun
        refine fits_kept all rfl ⟨fun entry inside own => ?_, fits.named, rfl⟩
        exact absurd (.inr (List.any_eq_true.mpr ⟨entry, inside, by simpa using own⟩)) fresh
      · cases begun
        exact all
  | update input expectedVersion now =>
    simp only [begin] at begun
    split at begun
    · cases begun
      exact fits_kept all rfl (fits.onto rfl fits.named trivial)
    · cases begun
      exact all
  | delete expectedVersion =>
    simp only [begin] at begun
    split at begun
    · cases begun
      exact fits_kept all rfl (fits.onto rfl fits.named trivial)
    · cases begun
      exact all

/-- By the request the call of the job makes, and its outcome. -/
theorem request_fits (honest : Honest (s.phase id) outcome)
    (requested : s.request limits id outcome = some s') : Fits s' := by
  have fits := all id
  unfold request at requested
  cases stage : s.phase id <;>
    simp only [stage, Option.some.injEq, reduceCtorEq] at requested fits honest
  case creating job =>
    subst requested
    have named : ∀ found, some job = some found → found.id = id := by
      rintro _ ⟨⟩
      exact fits.knows
    cases outcome with
    | ok => exact fits_head all rfl (fits.onto rfl named rfl)
    | lost => exact fits_kept all rfl (fits.absent rfl fits.named trivial)
    | unacknowledged => exact fits_head all rfl (fits.absent rfl named trivial)
  case listing job =>
    subst requested
    cases outcome with
    | ok => exact fits_kept all rfl (fits.onto rfl fits.named fits.knows)
    | lost => exact fits_kept all rfl (fits.onto rfl fits.named trivial)
    | unacknowledged => exact fits_kept all rfl (fits.onto rfl fits.named trivial)
  case publishing job =>
    split at requested
    · cases requested
      exact fits_kept all rfl (fits.onto rfl fits.named trivial)
    case h_2 jobs synced =>
      cases requested
      have stored : s.heads id = some job := fits.knows
      cases outcome with
      | ok =>
        refine fits_jobs all ?_
        rw [stored]
        exact fits.announced (fits.named job stored) (by rintro _ ⟨⟩) synced
      | lost => exact fits_kept all rfl (fits.onto rfl fits.named trivial)
      | unacknowledged => simp [Honest] at honest
  case undoing | removing =>
    subst requested
    cases outcome with
    | lost => exact fits_kept all rfl (fits.absent rfl fits.named trivial)
    | ok => exact fits_head all rfl (fits.absent rfl (by rintro _ ⟨⟩) trivial)
    | unacknowledged => exact fits_head all rfl (fits.absent rfl (by rintro _ ⟨⟩) trivial)
  case updating input expectedVersion now =>
    split at requested
    · cases requested
      exact fits_kept all rfl (fits.onto rfl fits.named trivial)
    case h_2 prior found =>
      cases requested
      have stored : s.heads id = some prior := (Option.filter_eq_some_iff.mp found).1
      have own : prior.id = id := fits.named prior stored
      cases outcome with
      | ok =>
        refine fits_head all rfl (fits.onto stored.symm ?_ ⟨rfl, own, Source.lt_nextIsoTimestamp⟩)
        rintro _ ⟨⟩
        exact own
      | lost => exact fits_kept all rfl (fits.onto rfl fits.named trivial)
      | unacknowledged => simp [Honest] at honest
  case announcing prior updated =>
    subst requested
    obtain ⟨stored, own, earlier⟩ := fits.knows
    cases outcome with
    | ok =>
      refine fits_jobs all ?_
      rw [stored]
      refine fits.announced (fits.named updated stored) ?_ syncIndex_eq_some
      rintro _ ⟨⟩
      exact Nat.le_of_lt earlier
    | lost => exact fits_kept all rfl (fits.onto rfl fits.named fits.knows)
    | unacknowledged => simp [Honest] at honest
  case rollingBack prior updated =>
    obtain ⟨stored, own, earlier⟩ := fits.knows
    have named : ∀ found, some prior = some found → found.id = id := by
      rintro _ ⟨⟩
      exact own
    simp only [stored, Option.any_some, decide_true, if_true, Option.some.injEq] at requested
    subst requested
    cases outcome with
    | ok => exact fits_head all rfl (fits.onto rfl named rfl)
    | lost => simp [Honest] at honest
    | unacknowledged => exact fits_head all rfl (fits.onto rfl named trivial)
  case reannouncing prior =>
    subst requested
    have stored : s.heads id = some prior := fits.knows
    have renewed := fits.announced (fits.named prior stored)
      (fun _ about => by cases stored.symm.trans about; exact Nat.le_refl _) syncIndex_eq_some
    rw [← stored] at renewed
    cases outcome with
    | lost => exact fits_kept all rfl (fits.onto rfl fits.named trivial)
    | ok => exact fits_jobs all renewed
    | unacknowledged => exact fits_jobs all renewed
  case withdrawing =>
    subst requested
    have withdrawn : ∀ entry ∈ (syncIndex id none none s.jobs).getD s.jobs,
        entry ∈ s.jobs ∧ entry.id ≠ id := by
      simp [syncIndex]
    have gone (phase : Phase) (knows : Knows id phase (s.heads id)) :
        Fits ({ s with jobs := (syncIndex id none none s.jobs).getD s.jobs }.enter id phase) :=
      fits_jobs all ⟨⟨fun entry inside own => absurd own (withdrawn entry inside).2, fits.named,
        knows⟩, fun entry inside _ => (withdrawn entry inside).1⟩
    cases outcome with
    | lost => exact fits_kept all rfl (fits.onto rfl fits.named trivial)
    | ok => exact gone .removing trivial
    | unacknowledged => exact gone .idle trivial
  case unfencing =>
    subst requested
    cases outcome <;> exact fits_kept all rfl (fits.absent rfl fits.named trivial)
  -- the fence and the listing are no part of the entry
  all_goals
    subst requested
    cases outcome <;> exact fits_kept all rfl (fits.onto rfl fits.named trivial)

/-! ## Runs -/

theorem step_fits (honest : HonestAt s action)
    (stepped : step limits s action = some s') : Fits s' := by
  cases action with
  | call id call =>
    simp only [step] at stepped
    split at stepped
    case h_1 idle => exact begin_fits all idle stepped
    · cases stepped
  | request id outcome => exact request_fits all honest stepped

theorem run_fits (honest : HonestRun limits s actions)
    (ran : run limits s actions = some s') : Fits s' := by
  induction actions generalizing s with
  | nil =>
    cases ran
    exact all
  | cons action rest ih =>
    obtain ⟨middle, stepped, ran⟩ := Option.bind_eq_some_iff.mp ran
    simp only [HonestRun, stepped, Bool.and_eq_true] at honest
    exact ih (step_fits all honest.1 stepped) honest.2 ran

end

/-- In every run from a quiet notebook whose entries agree with its records, in which no commit of a
creation or an update took effect and failed, no update's write of the record did, and no
rollback's write was lost, the entries agree with the records whenever no call is in flight. -/
theorem entries_agree_when_quiet (limits : JobLimits) (start s : NotebookJobs)
    (actions : List Action) (quiet : Quiet start) (agrees : Agrees start)
    (named : ∀ id job, start.heads id = some job → job.id = id)
    (honest : HonestRun limits start actions) (ran : run limits start actions = some s)
    (settled : Quiet s) : Agrees s := by
  have all : Fits start := by
    intro id
    rw [quiet id]
    refine ⟨fun entry inside own => ?_, named id, trivial⟩
    subst own
    exact agrees entry inside
  intro entry inside
  have fits := run_fits all honest ran entry.id
  rw [settled entry.id] at fits
  exact fits.entries entry inside rfl

def noJobs : NotebookJobs := ⟨fun _ => none, fun _ => false, fun _ => false, [], fun _ => .idle⟩

def noLimits : JobLimits := ⟨fun _ => true, none, none⟩

def nightly : CreateJobInput :=
  ⟨"nightly", none, some "0 3 * * *", none, none, none, none, none⟩

def paused : UpdateJobInput := ⟨none, some false, none, none, none, none, none, none⟩

/-- A creation, and an update whose commit is lost. -/
def lostUpdate : List Action :=
  [.call 0 (.create nightly 1), .request 0 .ok, .request 0 .ok, .request 0 .ok,
    .call 0 (.update paused none 2), .request 0 .ok, .request 0 .lost, .request 0 .ok,
    .request 0 .ok]

theorem lostUpdate_agrees :
    ∃ s, run noLimits noJobs lostUpdate = some s ∧ s.jobs ≠ [] ∧ Agrees s := by
  refine ⟨_, rfl, by rintro ⟨⟩, entries_agree_when_quiet noLimits noJobs _ lostUpdate (fun _ => rfl)
    ?_ ?_ rfl rfl ?_⟩
  · rintro _ ⟨⟩
  · rintro _ _ ⟨⟩
  · rintro (_ | _) <;> rfl

/-- The commit of a creation takes effect and is reported as failed: the record is deleted, and the
entry stays. -/
theorem unacknowledged_creation_leaves_entry : Quiet noJobs ∧ Agrees noJobs ∧
      ∃ s, run noLimits noJobs [.call 0 (.create nightly 1), .request 0 .ok, .request 0 .ok,
          .request 0 .unacknowledged, .request 0 .ok] = some s ∧
        Quiet s ∧ s.heads 0 = none ∧ s.jobs = [jobIndexEntry (nightly.job 0 1)] ∧ ¬ Agrees s := by
  refine ⟨fun _ => rfl, ?_, _, rfl, ?_, rfl, rfl, fun agrees => ?_⟩
  · rintro _ ⟨⟩
  · rintro (_ | _) <;> rfl
  · obtain ⟨job, stored, -⟩ := agrees (jobIndexEntry (nightly.job 0 1)) (.head _)
    cases stored

end MarimoHub.Guarantees.JobDefinitions
