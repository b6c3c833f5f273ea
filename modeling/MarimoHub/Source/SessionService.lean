import Mathlib.Data.List.Sort
import MarimoHub.Source.Runtime

/-!
# Session records

The part of `services/runtime/SessionService.ts` that writes session records and the
version prune cutoff, and `pruneVersions` of `services/content/NotebookService.ts`. A
callback of a compare-and-swap loop runs between the read and the write; it may read
the clock and draw identifiers. The flag `transitioned` that some callbacks set is the
one of the last attempt, so it says whether that attempt wrote.

A scan handles its records one after another; a record served from the etag cache is the
one stored when it was listed, so the cache is left out. Metrics and the operational log
are left out.
-/

namespace MarimoHub.Source

open ObjectStore

def marimoPort : Nat := 2718

def surfaceStartLeaseMs : Nat := 3 * 60 * 1000

def heartbeatTtlMs : Nat := 5 * 60 * 1000

def heartbeatPersistIntervalMs : Nat := 60 * 1000

variable (project : ProjectId) (now : Nat) (id : SessionId) (notebook : NotebookId)
  (key : RuntimeKey) (session : Session)

/-- The deadline is inclusive. -/
def isPastAuthorizationDeadline (now : Nat) : Bool :=
  match session.authorizationExpiresAt with
  | none => false
  | some deadline => deadline ≤ now

def isReusableSession (now : Nat) : Bool :=
  (session.status = .running ∧ session.sandboxUrl.any (· ≠ "")) ∨
    (session.status = .starting ∧ now < session.startedAt + heartbeatTtlMs)

/-- Terminal, or on the way there. -/
def isEnding : Bool :=
  session.status.isTerminal ∨ session.status = .terminating

def sessionNotFound : HubError := .notFound s!"Session {id} not found"

/-- The compare-and-swap loop, with whether its last attempt wrote. -/
def mutateWithOutcome (apply : Session → Hub Runtime (Option Session)) :
    Hub Runtime (ObjectMutationOutcome Session) :=
  mutateObjectWithOutcome (.session project id) parseSession apply .session
    (sessionNotFound id) defaultRetries

/-! ## Creation -/

structure CreateSessionInput where
  notebookId : NotebookId
  projectId : ProjectId
  userId : UserId
  sandboxId : Option SandboxId := none
  sandboxUrl : Option String := none
  ephemeral : Bool := false
  mode : Option SessionMode := none
  sourceVersionId : Option VersionId := none
  editorSandboxSharing : Option EditorSandboxSharing := none
  authorizationExpiresAt : Option Nat := none
  sessionId : Option SessionId := none
  appPool : Bool := false

def newSession (input : CreateSessionInput) (id : SessionId) (now : Nat) : Session where
  sessionId := id
  notebookId := input.notebookId
  projectId := input.projectId
  userId := input.userId
  status := .starting
  startedAt := now
  lastHeartbeat := now
  ephemeral := input.ephemeral
  appPool := input.appPool
  mode := input.mode.filter (· ≠ .edit)
  sourceVersionId := input.sourceVersionId
  editorSandboxSharing := input.editorSandboxSharing
  authorizationExpiresAt := input.authorizationExpiresAt
  sandboxId := input.sandboxId
  sandboxUrl := input.sandboxUrl

def getVersionPruneCutoff : Hub Runtime (Option VersionId) := do
  match ← bucketGet (.versionPruneCutoff project notebook) with
  | none => pure none
  | some object => do
    let cutoff ← parseCutoff object.value
    pure (some cutoff)

variable (surface : SurfaceId) (etag : Etag Runtime)

def failCreatedSession (error : SessionError) : Hub Runtime Unit :=
  ignoringErrors do
    let failed : Session := { session with status := .failed, error := some error }
    let _ ← bucketPut (.session session.projectId session.sessionId)
      (.session failed) (.ifMatch etag)
    pure ()

def sourceVersionCheckFailed : SessionError :=
  ⟨"SOURCE_VERSION_CHECK_FAILED", "The source version could not be verified"⟩

def sourceVersionPruned : SessionError :=
  ⟨"SOURCE_VERSION_PRUNED", "The source version is no longer available for a new session"⟩

def chooseSessionId : Option SessionId → Hub Runtime SessionId
  | some id => pure id
  | none => createId

/-- The check of the pinned version against the prune cutoff. -/
def checkSourceVersion (version : VersionId) : Hub Runtime Unit := do
  let cutoff : Option VersionId ←
    (getVersionPruneCutoff session.projectId session.notebookId).tryCatch fun error => do
      failCreatedSession session etag sourceVersionCheckFailed
      .raise error
  match cutoff with
  | none => pure ()
  | some cutoff =>
    if version ≤ cutoff then do
      failCreatedSession session etag sourceVersionPruned
      .raise (.conflict "The source version is no longer available; reload the notebook and retry")
    else pure ()

def createSession (input : CreateSessionInput) : Hub Runtime Session := do
  let id ← chooseSessionId input.sessionId
  let now ← dateNow
  let session := newSession input id now
  let etag ← bucketPut (.session input.projectId id) (.session session) .any
  match input.sourceVersionId with
  | none => pure session
  | some version => do
    checkSourceVersion session etag version
    pure session

/-- One attempt of `advanceVersionPruneCutoff`. -/
def advanceAttempt (cutoff : VersionId) : Hub Runtime Unit := do
  match ← bucketGet (.versionPruneCutoff project notebook) with
  | none => do
    let _ ← casPut (.versionPruneCutoff project notebook) (.cutoff cutoff) .ifAbsent
    pure ()
  | some existing => do
    let current ← parseCutoff existing.value
    if cutoff ≤ current then pure ()
    else do
      let _ ← casPut (.versionPruneCutoff project notebook) (.cutoff cutoff)
        (.ifMatch existing.etag)
      pure ()

def advanceVersionPruneCutoff (cutoff : VersionId) : Hub Runtime Unit :=
  withCasRetry defaultRetries (advanceAttempt project notebook cutoff)

def getSession : Hub Runtime Session := do
  match ← bucketGet (.session project id) with
  | none => .raise (sessionNotFound id)
  | some object => parseSession object.value

/-! ## Callbacks -/

structure RunningArgs where
  sandboxUrl : String
  usedFallback : Option Bool := none
  originUrl : Option String := none
  expiresAt : Option Nat := none
  integrations : Option (List String) := none
  sandboxDeadlineAt : Option Nat := none

def applyRunning (args : RunningArgs) (session : Session) : Hub Runtime (Option Session) := do
  if isEnding session then pure none
  else do
    let now ← dateNow
    let marimo : SurfaceState :=
      { status := .ready, port := some marimoPort, url := some args.sandboxUrl,
        startedAt := some now }
    pure (some { session with
      status := .running
      sandboxUrl := some args.sandboxUrl
      surfaces := some ((session.surfaces.getD []).set .marimo marimo)
      sandboxOriginUrl := args.originUrl
      usedFallback := args.usedFallback
      expiresAt := args.expiresAt.or session.expiresAt
      sandboxDeadlineAt := args.sandboxDeadlineAt.or session.sandboxDeadlineAt
      integrations := session.integrations.or (args.integrations.filter (· ≠ [])) })

def applyExtendExpiry (expiresAt : Nat) (session : Session) : Hub Runtime (Option Session) :=
  if isEnding session then pure none else pure (some { session with expiresAt := some expiresAt })

/-- A deadline is never extended. -/
def applyTighten (deadline : Nat) (session : Session) : Hub Runtime (Option Session) :=
  if session.authorizationExpiresAt.any (· ≤ deadline) then pure none
  else pure (some { session with authorizationExpiresAt := some deadline })

def applySnapshotted (at_ : Nat) (session : Session) : Hub Runtime (Option Session) :=
  pure (some { session with lastSnapshotAt := some at_ })

variable (state : SurfaceState)

def setSurface : Session :=
  { session with surfaces := some ((session.surfaces.getD []).set surface state) }

def surfaceOf : Option SurfaceState :=
  (session.surfaces.getD []).get surface

structure ReplaceReady where
  startedAt : Option Nat
  url : Option String

/-- A start attempt without a time, past its lease, or too far in the future. -/
def expiredAttempt : Bool :=
  match state.attemptStartedAt with
  | none => state.status = .starting
  | some started => state.status = .starting ∧
    (started + surfaceStartLeaseMs ≤ now ∨ now + surfaceStartLeaseMs < started)

def replacesReady (replace : Option ReplaceReady) (state : SurfaceState) : Bool :=
  state.status = .ready ∧
    replace.any fun ready => state.startedAt = ready.startedAt ∧ state.url = ready.url

def restartable : Bool :=
  state.status = .stopped ∨ state.status = .failed ∨ state.status = .unavailable

def mayStart (replace : Option ReplaceReady) : Option SurfaceState → Bool
  | none => true
  | some state => restartable state ∨ expiredAttempt now state ∨ replacesReady replace state

def applySurfaceStart (replace : Option ReplaceReady) (attemptId now : Nat)
    (session : Session) : Hub Runtime (Option Session) :=
  if session.status = .running ∧ mayStart now replace (surfaceOf session surface) then
    pure (some (setSurface session surface
      { status := .starting, attemptId := some attemptId, attemptStartedAt := some now }))
  else pure none

def applySurfaceForAttempt (attemptId : Nat) (state : SurfaceState)
    (session : Session) : Hub Runtime (Option Session) :=
  if (surfaceOf session surface).any (fun existing =>
      existing.status = .starting ∧ existing.attemptId = some attemptId) ∧
      (session.status = .running ∨ state.status ≠ .ready) then
    pure (some (setSurface session surface state))
  else pure none

/-- The attempt a stop cancels: the one being started, or the one cancelled before. -/
def cancelledAttempt : Option Nat :=
  if state.status = .starting then state.attemptId else state.cancelledAttemptId

def applySurfaceStop (attemptId : Nat) (session : Session) : Hub Runtime (Option Session) := do
  let existing := surfaceOf session surface
  if existing.any fun state => state.status = .stopping ∨ state.status = .stopped then pure none
  else do
    let now ← dateNow
    pure (some (setSurface session surface
      { status := .stopping, attemptId := some attemptId, attemptStartedAt := some now,
        cancelledAttemptId := existing.bind cancelledAttempt }))

def applySurfaceForStopAttempt (attemptId : Nat) (state : SurfaceState)
    (session : Session) : Hub Runtime (Option Session) :=
  if (surfaceOf session surface).any fun existing =>
      existing.status = .stopping ∧ existing.attemptId = some attemptId then
    pure (some (setSurface session surface state))
  else pure none

def applySurface (session : Session) : Hub Runtime (Option Session) :=
  if session.status ≠ .running ∧ (state.status = .starting ∨ state.status = .ready) then pure none
  else pure (some (setSurface session surface state))

def applyReclaimed (at_ : Nat) (expected : Option SandboxId) (session : Session) :
    Hub Runtime (Option Session) :=
  if expected.any fun id => session.sandboxId ≠ some id then pure none
  else pure (some { session with sandboxReclaimedAt := some at_ })

def applyReplaceSandbox (expected replacement : SandboxId) (session : Session) :
    Hub Runtime (Option Session) :=
  if session.status ≠ .starting ∨ session.sandboxId ≠ some expected then
    .raise (.conflict "The starting session sandbox changed")
  else pure (some { session with sandboxId := some replacement, sandboxReclaimedAt := none })

def applyCaptureCompleted (at_ : Nat) (session : Session) : Hub Runtime (Option Session) :=
  pure (some { session with takeoverCaptureCompletedAt := some at_ })

def applyHeartbeat : Hub Runtime (Option Session) := do
  let now ← dateNow
  if session.status ≠ .running ∨ isPastAuthorizationDeadline session now then pure none
  else if now < session.lastHeartbeat + heartbeatPersistIntervalMs then pure none
  else pure (some { session with lastHeartbeat := now })

/-- A secondary surface that is up or moving is sent to `stopping` under a new attempt. -/
def stopSurface : SurfaceId × SurfaceState → Hub Runtime (SurfaceId × SurfaceState)
  | (surface, state) =>
    if surface = .marimo ∨
        (state.status ≠ .starting ∧ state.status ≠ .ready ∧ state.status ≠ .stopping) then
      pure (surface, state)
    else do
      let attemptId ← createId
      let stopping : SurfaceState :=
        { status := .stopping, attemptId := some attemptId, attemptStartedAt := some now,
          cancelledAttemptId := cancelledAttempt state }
      pure (surface, stopping)

def stopSurfaces (now : Nat) : Surfaces → Hub Runtime Surfaces
  | [] => pure []
  | entry :: rest => do
    let stopped ← stopSurface now entry
    let others ← stopSurfaces now rest
    pure (stopped :: others)

/-- `attribution` is the user a takeover ends the session for. -/
def applyTerminating (attribution : Option UserId) (session : Session) :
    Hub Runtime (Option Session) := do
  match nextStatus session.status .terminate with
  | none => pure none
  | some next => do
    let now ← dateNow
    let surfaces ← stopSurfaces now (session.surfaces.getD [])
    pure (some { session with
      status := next
      terminatingAt := some now
      surfaces := session.surfaces.map fun _ => surfaces
      endedReason := attribution.isSome || session.endedReason
      endedByUserId := attribution.or session.endedByUserId })

def applyTerminated : Hub Runtime (Option Session) :=
  if session.status.isTerminal ∧ session.terminatingAt = none then pure none
  else pure (some { session with
    status := if session.status.isTerminal then session.status else .terminated
    terminatingAt := none })

def applyFailed (error : Option SessionError) (session : Session) : Hub Runtime (Option Session) :=
  if isEnding session then pure none
  else pure (some { session with status := .failed, error := error.or session.error })

def applyConnections (activeConnections at_ : Nat) (session : Session) :
    Hub Runtime (Option Session) :=
  pure (some { session with
    activeConnections := some activeConnections, connectionsCheckedAt := some at_ })

/-! ## Updates -/

/-- The record updates of the service. Those that answer whether they changed anything
answer with the outcome. -/
inductive SessionUpdate where
  | setRunning (args : RunningArgs)
  | extendExpiry (expiresAt : Nat)
  | tightenAuthorizationDeadline (deadline : Nat)
  | markSnapshotted (at_ : Nat)
  | beginSurfaceStart (surface : SurfaceId) (replaceReady : Option ReplaceReady)
  | setSurfaceStateForAttempt (surface : SurfaceId) (attemptId : Nat) (state : SurfaceState)
  | beginSurfaceStop (surface : SurfaceId)
  | setSurfaceStateForStopAttempt (surface : SurfaceId) (attemptId : Nat) (state : SurfaceState)
  | setSurfaceState (surface : SurfaceId) (state : SurfaceState)
  | markSandboxReclaimed (at_ : Nat) (expected : Option SandboxId)
  | replaceStartingSandbox (expected replacement : SandboxId)
  | markTakeoverCaptureCompleted (at_ : Nat)
  | heartbeat
  | beginTerminating (attribution : Option UserId)
  | markTerminated
  | markFailed (error : Option SessionError)
  | markConnections (activeConnections at_ : Nat)

/-- `beginSurfaceStart` draws its attempt id and reads the clock once, before the loop;
`beginSurfaceStop` draws its attempt id before the loop. -/
def SessionUpdate.run : SessionUpdate → Hub Runtime (ObjectMutationOutcome Session)
  | .setRunning args => mutateWithOutcome project id (applyRunning args)
  | .extendExpiry expiresAt => mutateWithOutcome project id (applyExtendExpiry expiresAt)
  | .tightenAuthorizationDeadline deadline => mutateWithOutcome project id (applyTighten deadline)
  | .markSnapshotted at_ => mutateWithOutcome project id (applySnapshotted at_)
  | .beginSurfaceStart surface replaceReady => do
    let attemptId ← createId
    let now ← dateNow
    mutateWithOutcome project id (applySurfaceStart surface replaceReady attemptId now)
  | .setSurfaceStateForAttempt surface attemptId state =>
    mutateWithOutcome project id (applySurfaceForAttempt surface attemptId state)
  | .beginSurfaceStop surface => do
    let attemptId ← createId
    mutateWithOutcome project id (applySurfaceStop surface attemptId)
  | .setSurfaceStateForStopAttempt surface attemptId state =>
    mutateWithOutcome project id (applySurfaceForStopAttempt surface attemptId state)
  | .setSurfaceState surface state => mutateWithOutcome project id (applySurface surface state)
  | .markSandboxReclaimed at_ expected => mutateWithOutcome project id (applyReclaimed at_ expected)
  | .replaceStartingSandbox expected replacement =>
    mutateWithOutcome project id (applyReplaceSandbox expected replacement)
  | .markTakeoverCaptureCompleted at_ => mutateWithOutcome project id (applyCaptureCompleted at_)
  | .heartbeat => mutateWithOutcome project id applyHeartbeat
  | .beginTerminating attribution => mutateWithOutcome project id (applyTerminating attribution)
  | .markTerminated => mutateWithOutcome project id applyTerminated
  | .markFailed error => mutateWithOutcome project id (applyFailed error)
  | .markConnections activeConnections at_ =>
    mutateWithOutcome project id (applyConnections activeConnections at_)

/-! ## Scans -/

def isSessionKey : RuntimeKey → Bool
  | .session _ _ => true
  | _ => false

def isProjectSessionKey : RuntimeKey → Bool
  | .session p _ => p = project
  | _ => false

/-- One record of a tolerant scan: vanished and unreadable records are skipped. -/
def scanRecord : Hub Runtime (Option (Session × Etag Runtime)) := do
  match ← bucketGet key with
  | none => pure none
  | some object =>
    match object.value with
    | .session session => pure (some (session, object.etag))
    | _ => pure none

/-- Pool reconciliation owns the expiry of an app session that its pool lists. -/
def isPooledApp : Hub Runtime Bool :=
  if sessionMode session = .app ∧ session.status ≠ .terminating then do
    let pool ← readAppPool session.projectId session.notebookId
    pure (pool.any fun pool => pool.members.any fun member => member.sessionId = session.sessionId)
  else pure false

/-- Conditional on the scanned etag, so that a concurrent transition wins. -/
def putExpired (target : SessionStatus) : Hub Runtime Nat :=
  (do
    let expired : Session := { session with status := target }
    let _ ← bucketPut (B := Runtime) key (.session expired) (.ifMatch etag)
    pure 1).tryCatch fun
      | .preconditionFailed _ => pure 0
      | err => .raise err

/-- `expireStale` on one record; `now` was read before the scan. -/
def expireOne : Hub Runtime Nat :=
  if session.status.isTerminal then pure 0
  else do
    let pooled ← isPooledApp session
    if pooled ∨ now ≤ session.lastHeartbeat + heartbeatTtlMs then pure 0
    else
      match nextStatus session.status .expire with
      | none => pure 0
      | some target => putExpired key session etag target

def expireKey : Hub Runtime Nat := do
  match ← scanRecord key with
  | none => pure 0
  | some (session, etag) => expireOne now key session etag

def expireAll (now : Nat) : List RuntimeKey → Hub Runtime Nat
  | [] => pure 0
  | key :: rest => do
    let expired ← expireKey now key
    let others ← expireAll now rest
    pure (expired + others)

def expireStale (paging : Pages Runtime isSessionKey) : Hub Runtime Nat := do
  let now ← dateNow
  let keys ← listAllKeys paging
  expireAll now keys

/-- Terminal, without a sandbox that may still run. -/
def isReapable : Bool :=
  session.status.isTerminal ∧ (session.sandboxId = none ∨ session.sandboxReclaimedAt.isSome)

def isReapCandidate (now retentionMs : Nat) (key : RuntimeKey) : Hub Runtime Bool := do
  match ← scanRecord key with
  | none => pure false
  | some (session, _) => pure (isReapable session ∧ session.lastHeartbeat + retentionMs < now)

def reapCandidates (now retentionMs : Nat) : List RuntimeKey → Hub Runtime (List RuntimeKey)
  | [] => pure []
  | key :: rest => do
    let candidate ← isReapCandidate now retentionMs key
    let others ← reapCandidates now retentionMs rest
    pure (if candidate then key :: others else others)

def reapTerminated (paging : Pages Runtime isSessionKey) (retentionMs : Nat) : Hub Runtime Nat := do
  let now ← dateNow
  let keys ← listAllKeys paging
  let toDelete ← reapCandidates now retentionMs keys
  bucketDeleteAll toDelete
  pure toDelete.length

/-! ## Version pruning -/

/-- The version a present session of the notebook is pinned to. -/
def pinnedVersion : Hub Runtime (Option VersionId) := do
  match ← scanRecord key with
  | none => pure none
  | some (session, _) =>
    pure (if session.status ∈ presentStatuses ∧ session.notebookId = notebook then
      session.sourceVersionId else none)

def pinnedVersions (notebook : NotebookId) : List RuntimeKey → Hub Runtime (List VersionId)
  | [] => pure []
  | key :: rest => do
    let version ← pinnedVersion notebook key
    let others ← pinnedVersions notebook rest
    pure (version.toList ++ others)

def listProtectedVersionIds
    (paging : Pages Runtime (isProjectSessionKey project)) : Hub Runtime (List VersionId) := do
  let keys ← listAllKeys paging
  let versions ← pinnedVersions notebook keys
  let pool ← readAppPool project notebook
  pure (versions ++ (pool.elim [] fun pool =>
    pool.members.filterMap AppPoolMember.sourceVersionId))

def isNotebookVersionKey : RuntimeKey → Bool
  | .version p n _ _ => p = project ∧ n = notebook
  | _ => false

def isVersionKey (id : VersionId) : RuntimeKey → Bool
  | .version p n v _ => p = project ∧ n = notebook ∧ v = id
  | _ => false

def versionOfKey : RuntimeKey → Option VersionId
  | .version _ _ v _ => some v
  | _ => none

/-- The version folders, oldest first. -/
def versionFolders (keys : List RuntimeKey) : List VersionId :=
  (keys.filterMap versionOfKey).dedup.insertionSort (· ≤ ·)

def listTargets (project : ProjectId) (notebook : NotebookId)
    (paging : ∀ id, Pages Runtime (isVersionKey project notebook id)) :
    List VersionId → Hub Runtime (List RuntimeKey)
  | [] => pure []
  | target :: rest => do
    let keys ← listAllKeys (paging target)
    let others ← listTargets project notebook paging rest
    pure (keys ++ others)

/-- How the listings of one prune pass are cut into pages. -/
structure PrunePaging where
  folders : Pages Runtime (isNotebookVersionKey project notebook)
  sessions : Pages Runtime (isProjectSessionKey project)
  targets : ∀ id, Pages Runtime (isVersionKey project notebook id)

/-- `pruneVersions` of the notebook service; its errors are logged. -/
def pruneVersions (max : Nat) (keep : VersionId)
    (paging : PrunePaging project notebook) : Hub Runtime Unit :=
  ignoringErrors do
    let keys ← listAllKeys paging.folders
    let folders := versionFolders keys
    let prunable := folders.take (folders.length - max)
    match prunable.getLast? with
    | none => pure ()
    | some cutoff => do
      advanceVersionPruneCutoff project notebook cutoff
      let versions ← listProtectedVersionIds project notebook paging.sessions
      let targets := prunable.filter fun version => version ∉ keep :: versions
      let doomed ← listTargets project notebook paging.targets targets
      bucketDeleteAll doomed

end MarimoHub.Source
