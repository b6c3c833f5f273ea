import MarimoHub.Source.Content
import MarimoHub.Source.Storage

/-!
# Stored runtime records

Session records, editor claims, version prune cutoffs and the objects of notebook
versions (`paths.ts`, `schema.ts`), with the session state machine
(`services/runtime/sessionState.ts` over `fsm.ts`). Session fields that are only copied
from the creation input (origin, idle timeout, viewer credentials, runtime, kernel auth
token, compute profile and resources) and the surface fields no function reads (proxy
path, probe) are left out. A notebook's app pool is written by other services; reading it
is a question to them.
-/

namespace MarimoHub.Source

open ObjectStore

abbrev SessionId : Type := Nat
abbrev SandboxId : Type := Nat

/-! ## Session status -/

inductive SessionStatus where
  | starting
  | running
  | terminating
  | terminated
  | failed
  | expired
deriving DecidableEq

inductive SessionEvent where
  | running
  | heartbeat
  | terminate
  | terminated
  | fail
  | expire
deriving DecidableEq

def terminalStatuses : List SessionStatus := [.terminated, .failed, .expired]

def SessionStatus.isTerminal (status : SessionStatus) : Bool := status ∈ terminalStatuses

def activeStatuses : List SessionStatus := [.starting, .running]

def presentStatuses : List SessionStatus := [.starting, .running, .terminating]

/-- The table of allowed edges. -/
def sessionTransitions : SessionStatus → SessionEvent → Option SessionStatus
  | .starting, .running => some .running
  | .starting, .terminate => some .terminating
  | .starting, .fail => some .failed
  | .starting, .expire => some .expired
  | .running, .heartbeat => some .running
  | .running, .terminate => some .terminating
  | .running, .fail => some .failed
  | .running, .expire => some .expired
  | .terminating, .terminated => some .terminated
  | .terminating, .expire => some .terminated
  | _, _ => none

/-- `createStateMachine(..).next`: an edge to the same state is no edge. -/
def nextStatus (current : SessionStatus) (event : SessionEvent) : Option SessionStatus :=
  match sessionTransitions current event with
  | none => none
  | some target => if target = current then none else some target

/-! ## Session records -/

inductive SurfaceId where
  | marimo
  | vscode
  | opencode
deriving DecidableEq

inductive SurfaceStatus where
  | starting
  | ready
  | stopping
  | stopped
  | failed
  | unavailable
deriving DecidableEq

/-- `SurfaceStateSchema`. -/
structure SurfaceState where
  status : SurfaceStatus
  attemptId : Option Nat := none
  attemptStartedAt : Option Nat := none
  cancelledAttemptId : Option Nat := none
  port : Option Nat := none
  url : Option String := none
  originUrl : Option String := none
  startedAt : Option Nat := none
deriving DecidableEq

/-- The object a session keeps its surfaces in. -/
abbrev Surfaces : Type := List (SurfaceId × SurfaceState)

def Surfaces.get (surfaces : Surfaces) (surface : SurfaceId) : Option SurfaceState :=
  (surfaces.find? fun entry => entry.1 = surface).map Prod.snd

/-- `{ ...surfaces, [surface]: state }`. -/
def Surfaces.set (surfaces : Surfaces) (surface : SurfaceId) (state : SurfaceState) : Surfaces :=
  surfaces.filter (fun entry => entry.1 ≠ surface) ++ [(surface, state)]

structure SessionError where
  code : String
  message : String
deriving DecidableEq

/-- `SessionSchema`. -/
structure Session where
  sessionId : SessionId
  notebookId : NotebookId
  projectId : ProjectId
  userId : UserId
  status : SessionStatus
  startedAt : Nat
  lastHeartbeat : Nat
  expiresAt : Option Nat := none
  authorizationExpiresAt : Option Nat := none
  lastSnapshotAt : Option Nat := none
  sandboxReclaimedAt : Option Nat := none
  sandboxDeadlineAt : Option Nat := none
  terminatingAt : Option Nat := none
  takeoverCaptureCompletedAt : Option Nat := none
  ephemeral : Bool := false
  editorSandboxSharing : Option EditorSandboxSharing := none
  /-- Set together with `endedByUserId`; the only reason is a takeover. -/
  endedReason : Bool := false
  endedByUserId : Option UserId := none
  mode : Option SessionMode := none
  sourceVersionId : Option VersionId := none
  appPool : Bool := false
  activeConnections : Option Nat := none
  connectionsCheckedAt : Option Nat := none
  sandboxId : Option SandboxId := none
  sandboxUrl : Option String := none
  sandboxOriginUrl : Option String := none
  surfaces : Option Surfaces := none
  usedFallback : Option Bool := none
  error : Option SessionError := none
  integrations : Option (List String) := none
deriving DecidableEq

def sessionMode (session : Session) : SessionMode := session.mode.getD .edit

/-- `AppPoolSchema`, as far as it is read here. -/
structure AppPoolMember where
  sessionId : SessionId
  sourceVersionId : Option VersionId

structure AppPool where
  members : List AppPoolMember

/-! ## Editor claims -/

inductive TakeoverPhase where
  | requested
  | draining
  | ready
deriving DecidableEq

inductive TakeoverDrainStage where
  | capturing
  | snapshotting
  | destroying
  | finalizing
deriving DecidableEq

def takeoverDrainStageOrder : TakeoverDrainStage → Nat
  | .capturing => 0
  | .snapshotting => 1
  | .destroying => 2
  | .finalizing => 3

inductive ExpectedActivity where
  | active
  | idle
  | unknown
  | starting
deriving DecidableEq

/-- The `transfer` of an `EditorClaimSchema`. -/
structure Transfer where
  takeoverId : String
  requestedBy : UserId
  expectedActivity : ExpectedActivity
  phase : TakeoverPhase
  requestedAt : Nat
  drainLeaseId : Option String := none
  drainLeaseExpiresAt : Option Nat := none
  drainLeaseStage : Option TakeoverDrainStage := none
  drainLeaseProgressDeadlineAt : Option Nat := none
  replacementSessionId : Option SessionId := none
deriving DecidableEq

/-- `EditorClaimSchema`. -/
structure EditorClaim where
  sessionId : Option SessionId
  sharing : EditorSandboxSharing
  claimedAt : Nat
  transfer : Option Transfer := none
deriving DecidableEq

/-! ## The bucket -/

inductive RuntimeKey where
  | session (project : ProjectId) (id : SessionId)
  | editorClaim (project : ProjectId) (notebook : NotebookId)
  | versionPruneCutoff (project : ProjectId) (notebook : NotebookId)
  | version (project : ProjectId) (notebook : NotebookId) (id : VersionId) (path : String)
deriving DecidableEq

inductive RuntimeVal where
  | session (session : Session)
  | editorClaim (claim : EditorClaim)
  | cutoff (version : VersionId)
  | file (content : String)
  | corrupt
deriving DecidableEq

inductive RuntimeQuery where
  /-- `AppPoolStore.read`. -/
  | appPool (project : ProjectId) (notebook : NotebookId)
deriving DecidableEq

@[reducible] def RuntimeAnswer : RuntimeQuery → Type
  | .appPool _ _ => Except HubError (Option AppPool)

@[reducible] def Runtime : Schema where
  Key := RuntimeKey
  Val := RuntimeVal
  Query := RuntimeQuery
  Answer := RuntimeAnswer

def parseSession : RuntimeVal → Hub Runtime Session
  | .session session => pure session
  | _ => .raise .storedObject

def parseEditorClaim : RuntimeVal → Hub Runtime EditorClaim
  | .editorClaim claim => pure claim
  | _ => .raise .storedObject

def parseCutoff : RuntimeVal → Hub Runtime VersionId
  | .cutoff version => pure version
  | _ => .raise .storedObject

def readAppPool (project : ProjectId) (notebook : NotebookId) : Hub Runtime (Option AppPool) := do
  match ← Prog.perform (B := Runtime) (.ask (.appPool project notebook)) with
  | .ok pool => pure pool
  | .error err => .raise err

end MarimoHub.Source
