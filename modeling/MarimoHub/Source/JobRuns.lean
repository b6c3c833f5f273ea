import MarimoHub.Source.Content
import MarimoHub.Source.Storage

/-!
# Job runs

Run records, active-run markers, history index entries and occurrence claims, and the
functions of `services/jobs/JobRunService.ts` and `services/jobs/runState.ts` that read and
write them. A run id is drawn once and names a run of one job, so a marker's path (project
and run id) is read as the whole reference of its run. Fields of a run that are only copied
(parameters, source version, image, compute, exit code, output sizes) and captured outputs are
left out, and so are metrics and the operational log.

The per-job operation claim of `withJobMutation` expires under a stalled holder, so holding
it excludes nothing for certain; taking it and keeping it are questions to the outside. Scans
handle their entries one after another.
-/

namespace MarimoHub.Source

open ObjectStore

abbrev JobId : Type := Nat
abbrev RunId : Type := Nat

structure JobRef where
  project : ProjectId
  notebook : NotebookId
  job : JobId
deriving DecidableEq

structure RunRef extends JobRef where
  run : RunId
deriving DecidableEq

/-! ## Run status -/

inductive RunStatus where
  | queued
  | provisioning
  | running
  | succeeded
  | failed
  | timedOut
  | cancelled
  | skipped
deriving DecidableEq

inductive RunEvent where
  | provision
  | start
  | succeed
  | fail
  | timeout
  | cancel
deriving DecidableEq

def terminalRunStatuses : List RunStatus := [.succeeded, .failed, .timedOut, .cancelled, .skipped]

def activeRunStatuses : List RunStatus := [.provisioning, .running]

def isTerminalRunStatus (status : RunStatus) : Bool := status ∈ terminalRunStatuses

def isActiveRunStatus (status : RunStatus) : Bool := status ∈ activeRunStatuses

def nextRunStatus : RunStatus → RunEvent → Option RunStatus
  | .queued, .provision => some .provisioning
  | .queued, .cancel => some .cancelled
  | .queued, .fail => some .failed
  | .queued, .timeout => some .timedOut
  | .provisioning, .start => some .running
  | .provisioning, .fail => some .failed
  | .provisioning, .timeout => some .timedOut
  | .provisioning, .cancel => some .cancelled
  | .running, .succeed => some .succeeded
  | .running, .fail => some .failed
  | .running, .timeout => some .timedOut
  | .running, .cancel => some .cancelled
  | _, _ => none

/-! ## Records -/

inductive RunTrigger where
  | schedule
  | manual
deriving DecidableEq

structure RunError where
  code : String
  message : String
deriving DecidableEq

/-- `JobRunSchema`. -/
structure JobRun where
  ref : RunRef
  status : RunStatus
  trigger : RunTrigger
  triggeredBy : Option UserId := none
  scheduledFor : Option Int := none
  attempt : Nat := 1
  retryOf : Option RunId := none
  sandboxId : Option Nat := none
  timeoutSeconds : Nat
  queuedAt : Nat
  eligibleAt : Option Nat := none
  startedAt : Option Nat := none
  finishedAt : Option Nat := none
  deadlineAt : Option Nat := none
  error : Option RunError := none
  cancelledBy : Option UserId := none
deriving DecidableEq

/-- `JobRunMarkerSchema`. -/
structure JobRunMarker where
  ref : RunRef
  continuation : RunId
  createdAt : Nat
deriving DecidableEq

inductive ClaimOutcome where
  | run
  | skip
deriving DecidableEq

/-- `JobOccurrenceSchema`. -/
structure JobOccurrence where
  run : RunId
  firedAt : Nat
  outcome : Option ClaimOutcome
deriving DecidableEq

/-- What `loadJob` finds, as far as the scheduler reads it. The cron text and the time zone
are read as the instants they stand for, `none` for a text that does not parse. -/
structure JobDefinition where
  enabled : Bool
  schedule : Option (Option (Int → Option Int))
  /-- `max_retries` and `backoff_seconds`. -/
  retry : Option (Nat × Nat)
  timeoutSeconds : Option Nat
  forbidConcurrency : Bool
  notifyFailure : Bool
  notifySuccess : Bool

inductive JobKey where
  | record (run : RunRef)
  | marker (run : RunRef)
  | runIndex (run : RunRef)
  /-- The claim of the occurrence in a minute. -/
  | occurrence (job : JobRef) (minute : Int)
deriving DecidableEq

inductive JobVal where
  | run (run : JobRun)
  | marker (marker : JobRunMarker)
  | occurrence (occurrence : JobOccurrence)
  | empty
  | corrupt
deriving DecidableEq

/-- What the export command reported (`ExecResult`, the exit marker and the output file). -/
structure ExportCapture where
  success : Bool
  /-- The code of a failed `ExecResult`. -/
  errorCode : String
  /-- Whether `stderr` mentions a time-out. -/
  stderrTimedOut : Bool
  exitCode : Option Nat
  timedOut : Bool
  hasHtml : Bool
deriving DecidableEq

inductive JobQuery where
  /-- Taking the job's operation claim; `false` when it stayed busy. -/
  | takeMutation (job : JobRef)
  /-- Whether the claim was still held when the work ended. -/
  | keptMutation (job : JobRef)
  | isDeleting (job : JobRef)
  | loadJob (job : JobRef)
  /-- The jobs in the current catalog snapshot. -/
  | indexedJobs
  | audit (run : RunRef)
  | notify (run : RunRef)
  | destroySandbox (id : Nat)
  /-- Whether this process is executing the run. -/
  | executing (run : RunRef)
  | finalizedExternally (run : RunRef)
  | loadContext (run : RunRef)
  | prepareSandbox (run : RunRef)
  | runExport (run : RunRef)
  | putOutputs (run : RunRef)
deriving DecidableEq

@[reducible] def JobAnswer : JobQuery → Type
  | .takeMutation _ => Except HubError Bool
  | .keptMutation _ => Bool
  | .isDeleting _ => Except HubError Bool
  | .loadJob _ => Except HubError (Option JobDefinition)
  | .indexedJobs => Except HubError (List JobRef)
  | .audit _ => Except HubError Unit
  | .notify _ => Except HubError Unit
  | .destroySandbox _ => Unit
  | .executing _ => Bool
  | .finalizedExternally _ => Bool
  | .loadContext _ => Except HubError Unit
  | .prepareSandbox _ => Except HubError Unit
  | .runExport _ => Except HubError ExportCapture
  | .putOutputs _ => Except HubError Unit

@[reducible] def JobStore : Schema where
  Key := JobKey
  Val := JobVal
  Query := JobQuery
  Answer := JobAnswer

def ask (q : JobQuery) : Hub JobStore (JobAnswer q) := Prog.perform (B := JobStore) (.ask q)

def parseJobRun : JobVal → Hub JobStore JobRun
  | .run run => pure run
  | _ => .raise .storedObject

def parseMarker : JobVal → Hub JobStore JobRunMarker
  | .marker marker => pure marker
  | _ => .raise .storedObject

def runNotFound (run : RunId) : HubError := .notFound s!"Run {run} not found"

def danglingMarkerGraceMs : Nat := 10 * 60 * 1000

/-- The work is done under the job's operation claim. -/
def withJobMutation {α : Type} (job : JobRef) (work : Hub JobStore α) : Hub JobStore α := do
  let acquired ← ask (.takeMutation job)
  if ← orRaise acquired then do
    let result ← work
    if ← ask (.keptMutation job) then pure result
    else .raise (.unavailable "Job mutation lease was lost")
  else .raise (.unavailable "Job is busy; retry the operation")

/-! ## Enqueuing -/

structure EnqueueRunInput where
  job : JobRef
  trigger : RunTrigger
  triggeredBy : Option UserId := none
  scheduledFor : Option Int := none
  timeoutSeconds : Nat
  attempt : Option Nat := none
  retryOf : Option RunId := none
  eligibleAt : Option Nat := none
  /-- A pre-assigned id: the occurrence claim names the run before it exists. -/
  runId : Option RunId := none

def queuedRun (input : EnqueueRunInput) (run : RunId) (now : Nat) : JobRun where
  ref := ⟨input.job, run⟩
  status := .queued
  trigger := input.trigger
  triggeredBy := input.triggeredBy
  scheduledFor := input.scheduledFor
  attempt := input.attempt.getD 1
  retryOf := input.retryOf
  timeoutSeconds := input.timeoutSeconds
  queuedAt := now
  eligibleAt := input.eligibleAt

variable (run : RunRef) (job : JobRef)

def skippedRun (scheduledFor : Option Int) (timeoutSeconds : Nat) (reason : RunError)
    (run : RunId) (now : Nat) : JobRun where
  ref := ⟨job, run⟩
  status := .skipped
  trigger := .schedule
  scheduledFor := scheduledFor
  attempt := 1
  timeoutSeconds := timeoutSeconds
  queuedAt := now
  finishedAt := some now
  error := some reason

def getRun : Hub JobStore JobRun := do
  match ← bucketGet (.record run) with
  | none => .raise (runNotFound run.run)
  | some object => parseJobRun object.value

/-- `bucket.head`. -/
def runExists : Hub JobStore Bool := do
  match ← bucketGet (.record run) with
  | none => pure false
  | some _ => pure true

def chooseRunId : Option RunId → Hub JobStore RunId
  | some id => pure id
  | none => createId

/-- The marker lands first, then the history entry and the record, each create-if-absent. -/
def writeRun (run : JobRun) : Hub JobStore JobRun := do
  let continuation ← createId
  let marker : JobRunMarker := ⟨run.ref, continuation, run.queuedAt⟩
  let _ ← putIfAbsent (.marker run.ref) (.marker marker)
  let _ ← putIfAbsent (.runIndex run.ref) .empty
  if ← putIfAbsent (.record run.ref) (.run run) then pure run
  else getRun run.ref

def enqueue (input : EnqueueRunInput) : Hub JobStore JobRun := do
  let id ← chooseRunId input.runId
  let now ← dateNow
  writeRun (queuedRun input id now)

/-- A record that is terminal from the start. -/
def writeSkipped (runId : Option RunId) (scheduledFor : Option Int)
    (timeoutSeconds : Nat) (reason : RunError) : Hub JobStore JobRun := do
  let id ← chooseRunId runId
  let now ← dateNow
  writeRun (skippedRun job scheduledFor timeoutSeconds reason id now)

/-! ## Transitions -/

/-- The fields the callers of `transition` set. -/
structure RunPatch where
  sandboxId : Option Nat := none
  startedAt : Option Nat := none
  finishedAt : Option Nat := none
  deadlineAt : Option Nat := none
  error : Option RunError := none
  cancelledBy : Option UserId := none

def JobRun.patched (run : JobRun) (patch : RunPatch) (status : RunStatus) : JobRun :=
  { run with
    sandboxId := patch.sandboxId.or run.sandboxId
    startedAt := patch.startedAt.or run.startedAt
    finishedAt := patch.finishedAt.or run.finishedAt
    deadlineAt := patch.deadlineAt.or run.deadlineAt
    error := patch.error.or run.error
    cancelledBy := patch.cancelledBy.or run.cancelledBy
    status := status }

structure TransitionResult where
  run : JobRun
  transitioned : Bool

/-- A caller's patch is known before, or stamped with the time it is applied. -/
inductive RunPatching where
  | fixed (patch : RunPatch)
  | stamped (patch : Nat → RunPatch)

def RunPatching.compute : RunPatching → Hub JobStore RunPatch
  | .fixed patch => pure patch
  | .stamped patch => do
    let now ← dateNow
    pure (patch now)

def applyTransition (event : RunEvent) (patching : RunPatching) (current : JobRun) :
    Hub JobStore (Option JobRun) :=
  match nextRunStatus current.status event with
  | none => pure none
  | some status => do
    let patch ← patching.compute
    pure (some (current.patched patch status))

def transition (event : RunEvent) (patching : RunPatching) : Hub JobStore TransitionResult := do
  let outcome ← mutateObjectWithOutcome (.record run) parseJobRun
    (applyTransition event patching) .run (runNotFound run.run) defaultRetries
  pure ⟨outcome.value, outcome.written⟩

def cancel (user : UserId) : Hub JobStore TransitionResult :=
  transition run .cancel (.stamped fun now => { finishedAt := some now, cancelledBy := some user })

/-! ## Occurrence claims -/

def minuteMs : Int := 60 * 1000

/-- `occurrenceKey`. -/
def occurrenceMinute (instant : Int) : Int := instant / minuteMs

/-- `occurrenceKeyToInstant`. -/
def minuteInstant (minute : Int) : Int := minute * minuteMs

inductive OccurrenceClaim where
  | claimed
  | standing (existing : Option JobOccurrence)

def readOccurrence : JobVal → Option JobOccurrence
  | .occurrence occurrence => some occurrence
  | _ => none

def claimOccurrence (minute : Int) (run : RunId) (firedAt : Nat)
    (outcome : ClaimOutcome) : Hub JobStore OccurrenceClaim := do
  if ← putIfAbsent (.occurrence job minute)
      (.occurrence ⟨run, firedAt, some outcome⟩) then pure .claimed
  else do
    match ← bucketGet (.occurrence job minute) with
    | none => pure (.standing none)
    | some object => pure (.standing (readOccurrence object.value))

/-! ## Markers -/

structure ActiveRun where
  marker : JobRunMarker
  run : Option JobRun

structure ActiveRunSnapshot where
  entries : List ActiveRun
  complete : Bool

def isMarkerKey : JobKey → Bool
  | .marker _ => true
  | _ => false

/-- The record of a marker; one that does not parse makes the snapshot incomplete. -/
def readActive (marker : JobRunMarker) : Hub JobStore (ActiveRun × Bool) := do
  match ← bucketGet (.record marker.ref) with
  | none => pure (⟨marker, none⟩, true)
  | some object =>
    match object.value with
    | .run run => pure (⟨marker, some run⟩, true)
    | _ => pure (⟨marker, none⟩, false)

def activeEntry (key : JobKey) : Hub JobStore (Option ActiveRun × Bool) := do
  match ← bucketGet key with
  | none => pure (none, true)
  | some object =>
    match object.value with
    | .marker marker => do
      let (entry, complete) ← readActive marker
      pure (some entry, complete)
    | _ => pure (none, false)

def activeEntries : List JobKey → Hub JobStore ActiveRunSnapshot
  | [] => pure ⟨[], true⟩
  | key :: rest => do
    let (entry, complete) ← activeEntry key
    let others ← activeEntries rest
    pure ⟨entry.toList ++ others.entries, complete && others.complete⟩

def listActiveSnapshot (paging : Pages JobStore isMarkerKey) : Hub JobStore ActiveRunSnapshot := do
  let keys ← listAllKeys paging
  activeEntries keys

/-- Errors are logged. -/
def deleteMarker : Hub JobStore Unit :=
  ignoringErrors (bucketDelete (.marker run))

def getMarker : Hub JobStore (Option JobRunMarker) := do
  match ← bucketGet (.marker run) with
  | none => pure none
  | some object => do
    let marker ← parseMarker object.value
    pure (some marker)

/-! ## Retention -/

def isIndexKey : JobKey → Bool
  | .runIndex run => run.toJobRef = job
  | _ => false

def isOccurrenceKey : JobKey → Bool
  | .occurrence owner _ => owner = job
  | _ => false

/-- An unreadable record is skipped. -/
def withRun (object : Option (BucketObject JobStore)) (others : List JobRun) : List JobRun :=
  match object with
  | some ⟨.run run, _⟩ => run :: others
  | _ => others

/-- The runs of the history entries of a page. -/
def readRuns : List JobKey → Hub JobStore (List JobRun)
  | [] => pure []
  | .runIndex run :: rest => do
    let object ← bucketGet (.record run)
    let others ← readRuns rest
    pure (withRun object others)
  | _ :: rest => readRuns rest

def listRunPages : List (JobKey → Bool) → Hub JobStore (List JobRun)
  | [] => pure []
  | page :: rest => do
    let entries ← bucketList page
    let here ← readRuns ((entries.map Listed.key).filter page)
    let others ← listRunPages rest
    pure (here ++ others)

def listRuns (paging : Pages JobStore (isIndexKey job)) : Hub JobStore (List JobRun) :=
  listRunPages paging.pages

def hasEnded (cutoff : Int) (run : JobRun) : Bool :=
  isTerminalRunStatus run.status ∧ ((run.finishedAt.getD run.queuedAt : Nat) : Int) < cutoff

/-- A terminal run past the cutoff goes once its marker is gone. -/
def pruneRun (run : JobRun) : Hub JobStore Nat := do
  match ← bucketGet (.marker run.ref) with
  | some _ => pure 0
  | none => do
    bucketDelete (.record run.ref)
    bucketDelete (.runIndex run.ref)
    pure 1

def pruneEnded (cutoff : Int) (run : JobRun) : Hub JobStore Nat :=
  if hasEnded cutoff run then pruneRun run else pure 0

def pruneRuns (cutoff : Int) : List JobRun → Hub JobStore Nat
  | [] => pure 0
  | run :: rest => do
    let here ← pruneEnded cutoff run
    let others ← pruneRuns cutoff rest
    pure (here + others)

def isStaleOccurrence (cutoff : Int) : JobKey → Bool
  | .occurrence _ minute => minuteInstant minute < cutoff
  | _ => false

/-- How the listings of one retention pass over a job are cut into pages. -/
structure JobPaging where
  index : Pages JobStore (isIndexKey job)
  occurrences : Pages JobStore (isOccurrenceKey job)

/-- Runs and claims are kept for the longer of the two retention times. -/
def pruneJob (retentionMs : Nat) (now : Nat) (occurrenceRetentionMs : Nat)
    (paging : JobPaging job) : Hub JobStore Nat := do
  let cutoff : Int := (now : Int) - (max retentionMs occurrenceRetentionMs : Nat)
  let runs ← listRuns job paging.index
  let pruned ← pruneRuns cutoff runs
  let occurrences ← listAllKeys paging.occurrences
  bucketDeleteAll (occurrences.filter (isStaleOccurrence cutoff))
  pure pruned

def pruneDanglingMarker (marker : JobRunMarker) : Hub JobStore Unit := do
  bucketDelete (.runIndex marker.ref)
  deleteMarker marker.ref

/-- Whether a marker without a readable record has passed the grace time. -/
def isDangling (now : Nat) (entry : ActiveRun) : Bool :=
  entry.run = none ∧ entry.marker.createdAt + danglingMarkerGraceMs < now

/-- An unreadable record still needs its marker. -/
def pruneIfMissing (marker : JobRunMarker) : Hub JobStore Bool := do
  if ← runExists marker.ref then pure false
  else do
    pruneDanglingMarker marker
    pure true

/-- An error of one entry is logged. -/
def pruneEntry (now : Nat) (entry : ActiveRun) : Hub JobStore Bool :=
  if isDangling now entry then (pruneIfMissing entry.marker).tryCatch fun _ => pure false
  else pure false

def pruneEntries (now : Nat) : List ActiveRun → Hub JobStore Nat
  | [] => pure 0
  | entry :: rest => do
    let dropped ← pruneEntry now entry
    let others ← pruneEntries now rest
    pure (if dropped then others + 1 else others)

def pruneStaleMarkers (paging : Pages JobStore isMarkerKey) (now : Nat) : Hub JobStore Nat := do
  let snapshot ← listActiveSnapshot paging
  pruneEntries now snapshot.entries

end MarimoHub.Source
