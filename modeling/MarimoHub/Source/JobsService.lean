import Mathlib.Logic.Function.Basic
import MarimoHub.Source.Cas

/-!
# Job definitions and their index

`createJob`, `updateJob`, `beginDelete`, `finishDelete` and `syncIndex` of
`services/jobs/JobsService.ts` for the jobs of one notebook. An action is the start of a call or one
request. Calls on one job do not overlap: a job has one slot, and a compare-and-swap loop on its
record is one request. So is a catalog mutation (`updateNotebookEntry`), whose callback is applied
to the entries it replaces. Every request may fail, before or after it took effect.

Schedule, parameters, retry policy and notifications are carried as text. Runs and their outputs
are left out, and so is who made a change.
-/

namespace MarimoHub.Source.JobDefinitions

abbrev JobId : Type := Nat

/-- The cron text and the time zone. -/
abbrev JobSchedule : Type := String

inductive ConcurrencyPolicy where
  | allow
  | forbid
deriving DecidableEq

structure JobDefinition where
  id : JobId
  name : String
  enabled : Bool
  schedule : Option JobSchedule
  parameters : Option String
  retry : Option String
  timeoutSeconds : Option Nat
  concurrencyPolicy : ConcurrencyPolicy
  notifications : Option String
  createdAt : Nat
  updatedAt : Nat
deriving DecidableEq

structure SnapshotJobEntry where
  id : JobId
  enabled : Bool
  schedule : Option JobSchedule
  updatedAt : Option Nat
deriving DecidableEq

def jobIndexEntry (job : JobDefinition) : SnapshotJobEntry :=
  ⟨job.id, job.enabled, job.schedule, some job.updatedAt⟩

/-- `validSchedule` is `validateJobSchedule`: the cron text parses and the time zone is known. -/
structure JobLimits where
  validSchedule : JobSchedule → Bool
  maxPerNotebook : Option Nat
  maxTimeoutSeconds : Option Nat

def validateTimeout (timeoutSeconds : Option Nat) (limits : JobLimits) : Bool :=
  timeoutSeconds.all fun timeout => limits.maxTimeoutSeconds.all (timeout ≤ ·)

structure CreateJobInput where
  name : String
  enabled : Option Bool
  schedule : Option JobSchedule
  parameters : Option String
  retry : Option String
  timeoutSeconds : Option Nat
  concurrencyPolicy : Option ConcurrencyPolicy
  notifications : Option String

def CreateJobInput.job (input : CreateJobInput) (id : JobId) (now : Nat) : JobDefinition where
  id := id
  name := input.name
  enabled := input.enabled.getD true
  schedule := input.schedule
  parameters := input.parameters
  retry := input.retry
  timeoutSeconds := input.timeoutSeconds
  concurrencyPolicy := input.concurrencyPolicy.getD .forbid
  notifications := input.notifications
  createdAt := now
  updatedAt := now

/-- `some none` clears an optional field, `none` leaves it untouched. -/
structure UpdateJobInput where
  name : Option String
  enabled : Option Bool
  schedule : Option (Option JobSchedule)
  parameters : Option (Option String)
  retry : Option (Option String)
  timeoutSeconds : Option (Option Nat)
  concurrencyPolicy : Option ConcurrencyPolicy
  notifications : Option (Option String)

def UpdateJobInput.apply (input : UpdateJobInput) (now : Nat) (current : JobDefinition) :
    JobDefinition :=
  { current with
    name := input.name.getD current.name
    enabled := input.enabled.getD current.enabled
    concurrencyPolicy := input.concurrencyPolicy.getD current.concurrencyPolicy
    schedule := input.schedule.getD current.schedule
    parameters := input.parameters.getD current.parameters
    retry := input.retry.getD current.retry
    timeoutSeconds := input.timeoutSeconds.getD current.timeoutSeconds
    notifications := input.notifications.getD current.notifications
    updatedAt := nextIsoTimestamp current.updatedAt now }

/-- `assertVersionMatch`. -/
def versionMatches (current : Nat) (expected : Option Nat) : Bool := expected.all (· = current)

/-! ## The index -/

/-- A delayed update must not replace a newer entry; no timestamp is the oldest. -/
def isNewer (current : SnapshotJobEntry) (entry : SnapshotJobEntry) : Bool :=
  current.updatedAt.any fun at_ => entry.updatedAt.all (· < at_)

/-- The callback of `syncIndex`; `none` when the job limit of the notebook is reached. -/
def syncIndex (id : JobId) (entry : Option SnapshotJobEntry) (maxPerNotebook : Option Nat)
    (jobs : List SnapshotJobEntry) : Option (List SnapshotJobEntry) :=
  let current := jobs.find? fun candidate => candidate.id = id
  let others := jobs.filter fun candidate => candidate.id ≠ id
  match entry with
  | none => some others
  | some entry =>
    if current.any (isNewer · entry) then some jobs
    else if current = none ∧ maxPerNotebook.any (· ≤ others.length) then none
    else some (others ++ [entry])

/-! ## Calls -/

inductive JobCall where
  | create (input : CreateJobInput) (now : Nat)
  | update (input : UpdateJobInput) (expectedVersion : Option Nat) (now : Nat)
  | delete (expectedVersion : Option Nat)

/-- The request a call makes next. A call that returned or threw is `idle`. -/
inductive Phase where
  | idle
  | creating (job : JobDefinition)
  | listing (job : JobDefinition)
  | publishing (job : JobDefinition)
  | undoing
  | updating (input : UpdateJobInput) (expectedVersion : Option Nat) (now : Nat)
  | announcing (prior updated : JobDefinition)
  | rollingBack (prior updated : JobDefinition)
  | reannouncing (prior : JobDefinition)
  | fencing
  | unlisting
  | withdrawing
  | removing
  | unfencing

/-- `unacknowledged`: the request took effect and its caller is told that it failed. -/
inductive Outcome where
  | ok
  | lost
  | unacknowledged
deriving DecidableEq

inductive Action where
  | call (id : JobId) (call : JobCall)
  | request (id : JobId) (outcome : Outcome)

/-- The `job.json` heads, the `job-index` objects, the deletion fences, and the job entries of the
notebook in the current snapshot. -/
structure NotebookJobs where
  heads : JobId → Option JobDefinition
  listed : JobId → Bool
  fenced : JobId → Bool
  jobs : List SnapshotJobEntry
  phase : JobId → Phase

namespace NotebookJobs

variable (limits : JobLimits) (s : NotebookJobs) (id : JobId)

def enter (phase : Phase) : NotebookJobs :=
  { s with phase := Function.update s.phase id phase }

variable (outcome : Outcome)

/-- The call goes on if it was told so. -/
def onward (next failed : Phase) : NotebookJobs :=
  s.enter id (if outcome = .ok then next else failed)

def setHead (head : Option JobDefinition) : NotebookJobs :=
  if outcome = .lost then s else { s with heads := Function.update s.heads id head }

def setListed (listed : Bool) : NotebookJobs :=
  if outcome = .lost then s else { s with listed := Function.update s.listed id listed }

def setFenced (fenced : Bool) : NotebookJobs :=
  if outcome = .lost then s else { s with fenced := Function.update s.fenced id fenced }

def setJobs (jobs : List SnapshotJobEntry) : NotebookJobs :=
  if outcome = .lost then s else { s with jobs }

/-- A job's identifier is drawn for it, so a creation finds nothing under it. -/
def begin : JobCall → Option NotebookJobs
  | .create input now =>
    if s.heads id ≠ none ∨ (s.jobs.any fun entry => entry.id = id) then none
    else if input.schedule.all limits.validSchedule ∧
        validateTimeout input.timeoutSeconds limits then
      some (s.enter id (.creating (input.job id now)))
    else some s
  | .update input expectedVersion now =>
    if input.schedule.join.all limits.validSchedule ∧
        validateTimeout input.timeoutSeconds.join limits then
      some (s.enter id (.updating input expectedVersion now))
    else some s
  | .delete expectedVersion =>
    if (s.heads id).any fun job => versionMatches job.updatedAt expectedVersion then
      some (s.enter id .fencing)
    else some s

/-- The commit of `syncIndex` for a job that is there or updated. -/
def announce (job : JobDefinition) (outcome : Outcome) : NotebookJobs :=
  s.setJobs outcome ((syncIndex id (some (jobIndexEntry job)) none s.jobs).getD s.jobs)

def request : Option NotebookJobs :=
  match s.phase id with
  | .idle => none
  | .creating job => some ((s.setHead id outcome (some job)).onward id outcome (.listing job) .idle)
  | .listing job =>
    some ((s.setListed id outcome true).onward id outcome (.publishing job) .undoing)
  | .publishing job =>
    match syncIndex id (some (jobIndexEntry job)) limits.maxPerNotebook s.jobs with
    | none => some (s.enter id .undoing)
    | some jobs => some ((s.setJobs outcome jobs).onward id outcome .idle .undoing)
  -- one delete of both keys, whose failure is ignored
  | .undoing => some (((s.setHead id outcome none).setListed id outcome false).enter id .idle)
  | .updating input expectedVersion now =>
    match (s.heads id).filter fun prior => versionMatches prior.updatedAt expectedVersion with
    | none => some (s.enter id .idle)
    | some prior =>
      let updated := input.apply now prior
      some ((s.setHead id outcome (some updated)).onward id outcome (.announcing prior updated)
        .idle)
  | .announcing prior updated =>
    some ((s.announce id updated outcome).onward id outcome .idle (.rollingBack prior updated))
  | .rollingBack prior updated =>
    if (s.heads id).any fun current => current.updatedAt = updated.updatedAt then
      some ((s.setHead id outcome (some prior)).onward id outcome (.reannouncing prior) .idle)
    else some (s.enter id .idle)
  | .reannouncing prior => some ((s.announce id prior outcome).enter id .idle)
  | .fencing => some ((s.setFenced id outcome true).onward id outcome .unlisting .idle)
  | .unlisting => some ((s.setListed id outcome false).onward id outcome .withdrawing .idle)
  | .withdrawing =>
    some ((s.setJobs outcome ((syncIndex id none none s.jobs).getD s.jobs)).onward id outcome
      .removing .idle)
  -- `finishDelete`
  | .removing => some ((s.setHead id outcome none).onward id outcome .unfencing .idle)
  | .unfencing => some ((s.setFenced id outcome false).enter id .idle)

end NotebookJobs

/-- A job takes no second call while one is in flight. -/
def step (limits : JobLimits) (s : NotebookJobs) : Action → Option NotebookJobs
  | .call id call =>
    match s.phase id with
    | .idle => s.begin limits id call
    | _ => none
  | .request id outcome => s.request limits id outcome

def run (limits : JobLimits) : NotebookJobs → List Action → Option NotebookJobs
  | s, [] => some s
  | s, action :: rest => (step limits s action).bind fun next => run limits next rest

end MarimoHub.Source.JobDefinitions
