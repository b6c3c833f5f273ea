import Mathlib.Data.List.Sort
import MarimoHub.Source.JobRuns

/-!
# The job scheduler

`services/jobs/JobScheduler.ts` with the runner's `execute` and the occurrence search of
`services/jobs/cron.ts`. A tick does not wait for the runs it dispatches, so `dispatch` is a
call of its own; a tick's result carries the runs it admitted. The job definition is read
through the outside (`loadJob`), so the read cache of one tick is left out, as are the
metrics, the log and the source version a run records.
-/

namespace MarimoHub.Source

open ObjectStore

structure JobSchedulerConfig where
  /-- How stale an occurrence may be and still fire. -/
  catchupWindowMs : Nat
  maxConcurrentRuns : Nat
  maxConcurrentRunsPerProject : Nat
  defaultTimeoutMs : Nat
  maxTimeoutMs : Nat
  watchdogGraceMs : Option Nat := none

structure TickResult where
  fired : Nat := 0
  repaired : Nat := 0
  skipped : Nat := 0
  dispatched : Nat := 0
  timedOut : Nat := 0
  markersPruned : Nat := 0
  errors : Nat := 0

def defaultWatchdogGraceMs : Nat := 2 * 60 * 1000

def danglingGraceMs : Nat := 10 * 60 * 1000

/-! ## Occurrences -/

/-- The loop of `previousOccurrence`: walks forward to the last instant not after `atMs`. -/
def lastOccurrence (nextRun : Int → Option Int) (atMs : Int) : Nat → Int → Option Int → Option Int
  | 0, _, latest => latest
  | fuel + 1, cursor, latest =>
    match nextRun cursor with
    | none => latest
    | some next =>
      if atMs < next then latest else lastOccurrence nextRun atMs fuel next (some next)

/-- `nextRun` is strictly after its argument, so the window bounds the number of steps. -/
def previousOccurrence (nextRun : Int → Option Int) (atMs : Int) (windowMs : Nat) : Option Int :=
  lastOccurrence nextRun atMs (windowMs + 2) (atMs - windowMs - 1) none

/-! ## Finalization -/

def loadJob (job : JobRef) : Hub JobStore (Option JobDefinition) := do
  let found ← ask (.loadJob job)
  orRaise found

variable (config : JobSchedulerConfig) (ref : JobRef) (job : JobDefinition) (finished : JobRun)
  (run : JobRun)

def cancelRunIfDeleted : Hub JobStore Bool := do
  match ← loadJob run.ref.toJobRef with
  | some _ => pure false
  | none => do
    let _ ← cancel run.ref systemActor
    pure true

def audit : Hub JobStore Unit := do
  let appended ← ask (.audit run.ref)
  orRaise appended

def hasFailed : Bool := run.status = .failed ∨ run.status = .timedOut

/-- Whether the job's notifications include this outcome. -/
def isNotified : Bool :=
  if hasFailed run then job.notifyFailure else run.status = .succeeded && job.notifySuccess

def notify : Hub JobStore Unit :=
  if isNotified job run then do
    let delivered ← ask (.notify run.ref)
    orRaise delivered
  else pure ()

def retryInput (continuation : RunId) (eligibleAt : Nat) : EnqueueRunInput where
  job := finished.ref.toJobRef
  runId := some continuation
  trigger := finished.trigger
  triggeredBy := finished.triggeredBy
  scheduledFor := finished.scheduledFor
  timeoutSeconds := finished.timeoutSeconds
  attempt := some (finished.attempt + 1)
  retryOf := some finished.ref.run
  eligibleAt := some eligibleAt

def isDeleting (job : JobRef) : Hub JobStore Bool := do
  let deleting ← ask (.isDeleting job)
  orRaise deleting

/-- The retry of a failed run, unless the job is gone. -/
def enqueueRetry (continuation : RunId) (backoffSeconds : Nat) : Hub JobStore Unit := do
  if ← isDeleting finished.ref.toJobRef then pure ()
  else
    match ← loadJob finished.ref.toJobRef with
    | none => pure ()
    | some _ => do
      let now ← dateNow
      let retryRun ← enqueue (retryInput finished continuation (now + backoffSeconds * 1000))
      let _ ← cancelRunIfDeleted retryRun
      pure ()

/-- The retry policy that allows another attempt after `finished`. -/
def retryAllowed : Option Nat :=
  match job.retry with
  | some (maxRetries, backoffSeconds) =>
    if hasFailed finished ∧ finished.attempt ≤ maxRetries then some backoffSeconds else none
  | none => none

/-- Audit the outcome, then schedule a retry or notify. -/
def afterRun (continuation : RunId) : Hub JobStore Unit :=
  if isTerminalRunStatus finished.status then do
    audit finished
    if finished.status = .cancelled then pure ()
    else
      match ← loadJob finished.ref.toJobRef with
      | none => pure ()
      | some job =>
        match retryAllowed job finished with
        | some backoffSeconds => enqueueRetry finished continuation backoffSeconds
        | none => notify job finished
  else pure ()

def finalizeLocked : Hub JobStore Unit := do
  match ← getMarker finished.ref with
  | none => pure ()
  | some marker => do
    afterRun finished marker.continuation
    deleteMarker finished.ref

def finalize : Hub JobStore Unit :=
  if isTerminalRunStatus finished.status then
    withJobMutation finished.ref.toJobRef (finalizeLocked finished)
  else pure ()

/-! ## Firing -/

inductive FireOutcome where
  | fired
  | repaired
  | skipped
  | none
deriving DecidableEq

/-- The run deadline in seconds, under the deployment ceiling. -/
def timeoutSeconds : Nat :=
  let requested := (job.timeoutSeconds.map (· * 1000)).getD config.defaultTimeoutMs
  min requested config.maxTimeoutMs / 1000

def scheduledInput (run : RunId) (scheduledFor : Int) : EnqueueRunInput where
  job := ref
  runId := some run
  trigger := .schedule
  scheduledFor := some scheduledFor
  timeoutSeconds := timeoutSeconds config job

def enqueueScheduled (run : RunId) (scheduledFor : Int) : Hub JobStore Bool := do
  let queued ← enqueue (scheduledInput config ref job run scheduledFor)
  let cancelled ← cancelRunIfDeleted queued
  pure !cancelled

def concurrencyForbidden : RunError :=
  ⟨"CONCURRENCY_FORBIDDEN", "Skipped: the previous run of this job was still active"⟩

/-- Writes the run a claim names. -/
def writeClaimed (occurrence : Int) (run : RunId) (outcome : ClaimOutcome) (claimed : Bool) :
    Hub JobStore FireOutcome :=
  match outcome with
  | .skip => do
    let skipped ← writeSkipped ref (some run) (some occurrence) (timeoutSeconds config job)
      concurrencyForbidden
    finalizeLocked skipped
    pure (if claimed then .skipped else .repaired)
  | .run => do
    if ← enqueueScheduled config ref job run occurrence then
      pure (if claimed then .fired else .repaired)
    else pure .none

variable (now : Nat)

/-- Claims the occurrence; a standing claim without a run record is repaired. -/
def fireOccurrence (occurrence : Int) (outcome : ClaimOutcome) : Hub JobStore FireOutcome := do
  let run ← createId
  match ← claimOccurrence ref (occurrenceMinute occurrence) run now outcome with
  | .claimed => writeClaimed config ref job occurrence run outcome true
  | .standing none => pure .none
  | .standing (some existing) => do
    if ← runExists ⟨ref, existing.run⟩ then pure .none
    else writeClaimed config ref job occurrence existing.run (existing.outcome.getD .run) false

def fireJob (hasActive : Bool) (job : JobDefinition) : Hub JobStore FireOutcome :=
  match job.enabled, job.schedule with
  | true, some (some nextRun) =>
    match previousOccurrence nextRun now config.catchupWindowMs with
    | none => pure .none
    | some occurrence =>
      fireOccurrence config ref job now occurrence
        (if job.forbidConcurrency ∧ hasActive then .skip else .run)
  | _, _ => pure .none

def fire (hasActive : Bool) : Hub JobStore FireOutcome :=
  withJobMutation ref do
    if ← isDeleting ref then pure .none
    else
      match ← loadJob ref with
      | none => pure .none
      | some job => fireJob config ref now hasActive job

def TickResult.count (result : TickResult) : FireOutcome → TickResult
  | .fired => { result with fired := result.fired + 1 }
  | .repaired => { result with repaired := result.repaired + 1 }
  | .skipped => { result with skipped := result.skipped + 1 }
  | .none => result

def TickResult.failed (result : TickResult) : TickResult :=
  { result with errors := result.errors + 1 }

/-- Fires every indexed job; an error only counts. -/
def fireJobs (config : JobSchedulerConfig) (now : Nat) :
    List JobRef → List JobRef → TickResult → Hub JobStore TickResult
  | [], _, result => pure result
  | job :: rest, active, result => do
    let outcome ← (do
        let outcome ← fire config job now (job ∈ active)
        pure (some outcome)).tryCatch fun _ => pure none
    match outcome with
    | none => fireJobs config now rest active result.failed
    | some outcome =>
      fireJobs config now rest
        (if outcome = .fired ∨ outcome = .repaired then job :: active else active)
        (result.count outcome)

/-! ## Reclaiming -/

def watchdogError : RunError :=
  ⟨"RUN_TIMED_OUT", s!"The run exceeded its {run.timeoutSeconds}s timeout and was reclaimed"⟩

def isOverdue : Bool :=
  run.deadlineAt.getD (run.queuedAt + config.maxTimeoutMs) +
    config.watchdogGraceMs.getD defaultWatchdogGraceMs ≤ now

def destroySandbox : Option Nat → Hub JobStore Unit
  | none => pure ()
  | some id => ask (.destroySandbox id)

/-- Reclaims an active run past its deadline. -/
def watchdog : Hub JobStore Bool :=
  if isActiveRunStatus run.status ∧ isOverdue config run now then do
    destroySandbox run.sandboxId
    let outcome ← transition run.ref .timeout
      (.fixed { finishedAt := some now, error := some (watchdogError run) })
    if outcome.transitioned then do
      finalize outcome.run
      pure true
    else pure false
  else pure false

/-! ## Admission -/

/-- When a queued run may start. -/
def JobRun.dueAt : Nat := run.eligibleAt.getD run.queuedAt

def startsBefore (left right : JobRun) : Prop :=
  left.dueAt < right.dueAt ∨ (left.dueAt = right.dueAt ∧ left.ref.run ≤ right.ref.run)

instance : DecidableRel startsBefore := fun _ _ => by unfold startsBefore; infer_instance

/-- Admits from the ordered queue under the caps; `running` are the runs counted already. -/
def admitOrdered (config : JobSchedulerConfig) : List JobRun → List JobRun → List JobRun
  | [], _ => []
  | run :: rest, running =>
    if config.maxConcurrentRuns ≤ running.length then []
    else if config.maxConcurrentRunsPerProject ≤
        running.countP (fun other => other.ref.project = run.ref.project) then
      admitOrdered config rest running
    else run :: admitOrdered config rest (run :: running)

/-- The source's `admit`. -/
def admitRuns (queued running : List JobRun) : List JobRun :=
  admitOrdered config (queued.insertionSort startsBefore) running

/-! ## The tick -/

structure TickState where
  result : TickResult
  queued : List JobRun := []
  running : List JobRun := []
  ownershipComplete : Bool

/-- A marker without a readable record is dropped once it has passed the grace time. -/
def dropDangling (marker : JobRunMarker) : Hub JobStore Bool :=
  if marker.createdAt + danglingGraceMs < now then pruneIfMissing marker else pure false

variable (state : TickState)

def TickState.pruned : TickState :=
  { state with result := { state.result with markersPruned := state.result.markersPruned + 1 } }

def TickState.failed (state : TickState) : TickState := { state with result := state.result.failed }

def handleMissing (marker : JobRunMarker) : Hub JobStore TickState :=
  (do
    let dropped ← dropDangling now marker
    pure (if dropped then state.pruned else state)).tryCatch fun _ =>
      pure { state.failed with ownershipComplete := false }

def handleTerminal (run : JobRun) : Hub JobStore TickState :=
  (do
    finalize run
    pure state.pruned).tryCatch fun _ => pure state.failed

def handleQueued (run : JobRun) : Hub JobStore TickState := do
  if ← ask (.executing run.ref) then pure { state with running := run :: state.running }
  else
    (do
      let cancelled ← cancelRunIfDeleted run
      pure (if !cancelled ∧ run.eligibleAt.getD 0 ≤ now then
        { state with queued := run :: state.queued } else state)).tryCatch fun _ =>
          pure state.failed

/-- An error of the watchdog ends the tick. -/
def handleActive (run : JobRun) : Hub JobStore TickState := do
  if ← watchdog config run now then
    pure { state with result := { state.result with timedOut := state.result.timedOut + 1 } }
  else pure { state with running := run :: state.running }

def handleEntry (entry : ActiveRun) : Hub JobStore TickState :=
  match entry.run with
  | none => handleMissing now state entry.marker
  | some run =>
    if isTerminalRunStatus run.status then handleTerminal state run
    else if run.status = .queued then handleQueued now state run
    else handleActive config now state run

def handleEntries (config : JobSchedulerConfig) (now : Nat) :
    List ActiveRun → TickState → Hub JobStore TickState
  | [], state => pure state
  | entry :: rest, state => do
    let state ← handleEntry config now state entry
    handleEntries config now rest state

/-- Jobs with a run that has not ended. -/
def activeJobs (entries : List ActiveRun) : List JobRef :=
  entries.filterMap fun entry => entry.run.bind fun run =>
    if isTerminalRunStatus run.status then none else some entry.marker.ref.toJobRef

/-- How the two marker listings of a tick are cut into pages. -/
structure TickPaging where
  before : Pages JobStore isMarkerKey
  after : Pages JobStore isMarkerKey

def indexedJobs : Hub JobStore (List JobRef) := do
  let jobs ← ask .indexedJobs
  orRaise jobs

structure TickOutcome where
  result : TickResult
  admitted : List JobRun

def tick (paging : TickPaging) : Hub JobStore TickOutcome := do
  let now ← dateNow
  let jobs ← indexedJobs
  let beforeFire ← listActiveSnapshot paging.before
  let fired ← fireJobs config now (if beforeFire.complete then jobs else [])
    (activeJobs beforeFire.entries) {}
  let active ← listActiveSnapshot paging.after
  let result := if beforeFire.complete ∧ active.complete then fired else fired.failed
  let state ← handleEntries config now active.entries
    { result := result, ownershipComplete := active.complete }
  let admitted :=
    if state.ownershipComplete then admitRuns config state.queued state.running else []
  pure ⟨{ state.result with dispatched := admitted.length }, admitted⟩

/-! ## Execution -/

/-- `toRunError`: a domain error keeps its code and message. -/
def toRunError : HubError → RunError
  | .preconditionFailed message => ⟨"PRECONDITION_FAILED", message⟩
  | .conflict message => ⟨"CONFLICT", message⟩
  | .notFound message => ⟨"NOT_FOUND", message⟩
  | .moveInProgress message => ⟨"MOVE_IN_PROGRESS", message⟩
  | .notInitialized message => ⟨"NOT_INITIALIZED", message⟩
  | .validation message => ⟨"VALIDATION_ERROR", message⟩
  | .editSessionChanged message => ⟨"EDIT_SESSION_CHANGED", message⟩
  | .takeoverInProgress message => ⟨"TAKEOVER_IN_PROGRESS", message⟩
  | .unavailable message => ⟨"SERVICE_UNAVAILABLE", message⟩
  | .badRequest message => ⟨"BAD_REQUEST", message⟩
  | .forbidden message => ⟨"FORBIDDEN", message⟩
  | .proposalRetryRequired message => ⟨"PROPOSAL_RETRY_REQUIRED", message⟩
  | .resourceExhausted message => ⟨"RESOURCE_EXHAUSTED", message⟩
  | _ => ⟨"RUN_FAILED", "The run failed (Error)"⟩

def timeoutError (timeoutSeconds : Nat) : RunError :=
  ⟨"RUN_TIMED_OUT", s!"The run exceeded its {timeoutSeconds}s timeout"⟩

def jobProvisionAllowanceMs : Nat := 10 * 60 * 1000

structure ExportOutcome where
  event : RunEvent
  error : Option RunError := none

def notebookFailed (exitCode : Nat) (hasHtml : Bool) : RunError :=
  ⟨"NOTEBOOK_FAILED",
    if hasHtml then s!"One or more cells failed (marimo export exited with status {exitCode})"
    else s!"marimo export exited with status {exitCode} without producing output"⟩

/-- Success needs both a zero status and an output file. -/
def classifyExport (capture : ExportCapture) (timeoutSeconds : Nat) : ExportOutcome :=
  if capture.timedOut then ⟨.timeout, some (timeoutError timeoutSeconds)⟩
  else if capture.success ∧ capture.exitCode = some 0 ∧ capture.hasHtml then ⟨.succeed, none⟩
  else
    match capture.exitCode with
    | some exitCode => ⟨.fail, some (notebookFailed exitCode capture.hasHtml)⟩
    | none =>
      if !capture.success ∧ capture.stderrTimedOut then
        ⟨.timeout, some (timeoutError timeoutSeconds)⟩
      else
        let reason := if capture.success then "no exit status" else capture.errorCode
        ⟨.fail, some ⟨"RUN_FAILED", s!"The export command failed ({reason})"⟩⟩

/-- The transition an error of the run's work ends in. -/
def failureEvent (err : HubError) : RunEvent := if err = .runDeadline then .timeout else .fail

def failureError (err : HubError) (timeoutSeconds : Nat) : RunError :=
  if err = .runDeadline then timeoutError timeoutSeconds else toRunError err

/-- What is left to do when a claimed run's work threw; its own errors are dropped. -/
def recoverRun (claimed : JobRun) (err : HubError) : Hub JobStore JobRun :=
  if err = .runCancelled then (getRun claimed.ref).tryCatch fun _ => pure claimed
  else
    (do
      let outcome ← transition claimed.ref (failureEvent err) (.stamped fun now =>
        { finishedAt := some now, error := some (failureError err claimed.timeoutSeconds) })
      pure outcome.run).tryCatch fun _ => pure claimed

def exportRun (started : JobRun) : Hub JobStore JobRun := do
  let captured ← ask (.runExport started.ref)
  let capture ← orRaise captured
  let outcome := classifyExport capture started.timeoutSeconds
  let written ← ask (.putOutputs started.ref)
  orRaise written
  let final ← transition started.ref outcome.event (.stamped fun now =>
    { finishedAt := some now, error := outcome.error })
  pure final.run

def startRun (claimed : JobRun) : Hub JobStore JobRun := do
  let started ← transition claimed.ref .start (.fixed {})
  if started.transitioned then exportRun started.run else .raise .runCancelled

def runClaimed (claimed : JobRun) (sandboxId : Nat) : Hub JobStore JobRun := do
  match ← ask (.prepareSandbox claimed.ref) with
  | .error err => recoverRun claimed err
  | .ok () => do
    let final ← (startRun claimed).tryCatch (recoverRun claimed)
    ask (.destroySandbox sandboxId)
    pure final

def execute (queued : JobRun) : Hub JobStore JobRun := do
  let startedAt ← dateNow
  let deadline := startedAt + queued.timeoutSeconds * 1000 + jobProvisionAllowanceMs
  match ← ask (.loadContext queued.ref) with
  | .error err => do
    let outcome ← transition queued.ref (failureEvent err) (.stamped fun now =>
      { finishedAt := some now, deadlineAt := some deadline
        error := some (failureError err queued.timeoutSeconds) })
    pure outcome.run
  | .ok () => do
    let sandboxId ← createId
    let provisionStartedAt ← dateNow
    let claimed ← transition queued.ref .provision (.fixed
      { sandboxId := some sandboxId, startedAt := some provisionStartedAt
        deadlineAt := some deadline })
    if claimed.transitioned then runClaimed claimed.run sandboxId else pure claimed.run

/-- One execution; its errors are logged. -/
def dispatch : Hub JobStore Unit :=
  ignoringErrors do
    let finished ← execute run
    if ← ask (.finalizedExternally run.ref) then pure () else finalize finished

/-! ## Retention -/

structure JobPrunePaging where
  job : (job : JobRef) → JobPaging job
  markers : Pages JobStore isMarkerKey

def pruneJobs (config : JobSchedulerConfig) (retentionMs now : Nat) (paging : JobPrunePaging) :
    List JobRef → Hub JobStore Nat
  | [] => pure 0
  | job :: rest => do
    let here ← (pruneJob job retentionMs now (max retentionMs config.catchupWindowMs)
      (paging.job job)).tryCatch fun _ => pure 0
    let others ← pruneJobs config retentionMs now paging rest
    pure (here + others)

/-- `JobScheduler.prune`: the runs and markers that were dropped. -/
def pruneAll (retentionMs : Nat) (paging : JobPrunePaging) : Hub JobStore (Nat × Nat) := do
  let now ← dateNow
  let jobs ← indexedJobs
  let runsPruned ← pruneJobs config retentionMs now paging jobs
  let markersPruned ← pruneStaleMarkers paging.markers now
  pure (runsPruned, markersPruned)

end MarimoHub.Source
