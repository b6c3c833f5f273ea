import MarimoHub.Source.SessionService

/-!
# Starting a session under caps

The cap checks and the saga of `routes/sessions.ts` that starts a session, and the capacity
queues of `services/runtime/SessionService.ts`. The queues of the caps of one check are read side
by side in the source; no check reads more than one of them, so they are read one after another
here. What the saga does between the recheck and `mark_running` (preview admission, editor claim,
sandbox) changes no session record; whether it succeeds is part of the request.
-/

namespace MarimoHub.Source

open ObjectStore

/-! ## Queues -/

inductive CapScope where
  | user
  | project
deriving DecidableEq

/-- `MODE_POLICY[mode].capScope`. -/
def capScope : SessionMode → CapScope
  | .edit => .user
  | .app => .project

variable (session : Session)

def isActive : Bool := session.status ∈ activeStatuses

/-- A sandbox that is not known to be gone. -/
def holdsSandbox : Bool :=
  session.sandboxId.isSome && session.sandboxReclaimedAt.isNone

/-- `byCapOrder(a, b) <= 0`: running sessions first, then by start and identifier. -/
def byCapOrder (a b : Session) : Bool :=
  if (a.status = .running) ≠ (b.status = .running) then a.status = .running
  else if a.startedAt ≠ b.startedAt then a.startedAt < b.startedAt
  else a.sessionId ≤ b.sessionId

/-- The sessions a cap counts. -/
inductive CapQueue where
  | appsOfProject (project : ProjectId)
  | ofUser (user : UserId) (scope : CapScope)
deriving DecidableEq

/-- The records a queue is read from. -/
def CapQueue.keys : CapQueue → RuntimeKey → Bool
  | .appsOfProject project => isProjectSessionKey project
  | .ofUser _ _ => isSessionKey

/-- The filter of a queue. -/
def CapQueue.holds : CapQueue → Session → Bool
  | .appsOfProject _, session =>
    (isActive session || holdsSandbox session) && capScope (sessionMode session) = .project
  | .ofUser user scope, session =>
    session.userId = user && (isActive session || (scope = .project && holdsSandbox session)) &&
      capScope (sessionMode session) = scope

/-- The records under the keys; records that vanished or do not parse are skipped. -/
def scanSessions : List RuntimeKey → Hub Runtime (List Session)
  | [] => pure []
  | key :: rest => do
    let here ← scanRecord key
    let others ← scanSessions rest
    pure ((here.map Prod.fst).toList ++ others)

def CapQueue.sorted (queue : CapQueue) (sessions : List Session) : List Session :=
  (sessions.filter queue.holds).insertionSort fun a b => byCapOrder a b = true

/-- How the listings of the queues are cut into pages. -/
abbrev CapPaging : Type := (queue : CapQueue) → DistinctPages Runtime queue.keys

/-- `listActiveForUser` and `listActiveAppsForProject`. -/
def CapQueue.list (queue : CapQueue) (paging : CapPaging) : Hub Runtime (List Session) := do
  let keys ← listAllKeys (paging queue).toPages
  let sessions ← scanSessions keys
  pure (queue.sorted sessions)

/-! ## Caps -/

/-- The parts of the deployment a start depends on. -/
structure StartDeps where
  maxAppsPerProject : Option Int := none
  maxConcurrentSessionsPerUser : Option Int := none
  toSessionError : HubError → SessionError

structure Cap where
  max : Option Int
  message : Int → String
  queue : CapQueue
  preflight : Bool

/-- `CAP_REACHED`. -/
def appsPerProjectReached (max : Int) : String :=
  "Concurrent app limit reached for this project (" ++ toString max ++
    "). Stop an app before starting another."

def appsPerUserReached (max : Int) : String :=
  "Concurrent app limit reached (" ++ toString max ++
    " apps started by you). Stop an app before starting another."

def sessionsPerUserReached (max : Int) : String :=
  "Concurrent session limit reached (" ++ toString max ++
    "). Terminate a session before starting another."

variable (deps : StartDeps)

def capsFor (mode : SessionMode) (project : ProjectId) (user : UserId) : List Cap :=
  match capScope mode with
  | .project =>
    [⟨deps.maxAppsPerProject, appsPerProjectReached, .appsOfProject project, true⟩,
      ⟨deps.maxConcurrentSessionsPerUser, appsPerUserReached, .ofUser user .project, false⟩]
  | .user =>
    [⟨deps.maxConcurrentSessionsPerUser, sessionsPerUserReached, .ofUser user .user, false⟩]

/-- A cap without a positive maximum is not checked. -/
def Cap.limit (cap : Cap) : Option Nat :=
  match cap.max with
  | none => none
  | some max => if 0 < max then some max.toNat else none

def Cap.reached (cap : Cap) : HubError := .resourceExhausted (cap.message (cap.max.getD 0))

/-- The queue of a cap that is checked, without the excluded session. -/
structure ReadCap where
  cap : Cap
  limit : Nat
  sessions : Except HubError (List Session)

def readCapQueues (excluded : Option SessionId) (paging : CapPaging) :
    List Cap → Hub Runtime (List ReadCap)
  | [] => pure []
  | cap :: rest =>
    match cap.limit with
    | none => readCapQueues excluded paging rest
    | some limit => do
      let sessions ← settled (cap.queue.list paging)
      let others ← readCapQueues excluded paging rest
      pure (⟨cap, limit,
        sessions.map (List.filter fun session => some session.sessionId ≠ excluded)⟩ :: others)

/-- The first queue that could not be read or is over its cap decides. -/
def capVerdict (beyond : Nat → List Session → Bool) : List ReadCap → Except HubError Unit
  | [] => .ok ()
  | read :: rest =>
    match read.sessions with
    | .error error => .error error
    | .ok sessions =>
      if beyond read.limit sessions then .error read.cap.reached else capVerdict beyond rest

def checkCapQueues (caps : List Cap) (excluded : Option SessionId) (paging : CapPaging)
    (beyond : Nat → List Session → Bool) : Hub Runtime Unit := do
  let reads ← readCapQueues excluded paging caps
  match capVerdict beyond reads with
  | .ok _ => pure ()
  | .error error => .raise error

def enforceSessionCap (mode : SessionMode) (project : ProjectId)
    (user : UserId) (excluded : Option SessionId) (paging : CapPaging) : Hub Runtime Unit :=
  checkCapQueues ((capsFor deps mode project user).filter Cap.preflight) excluded paging
    fun limit sessions => limit ≤ sessions.length

/-- Whether the session has no place in the queue below the limit; a session that is missing has
ended. -/
def ranksOver (id : SessionId) (limit : Nat) (sessions : List Session) : Bool :=
  (sessions.findIdx? fun session => session.sessionId = id).any (limit ≤ ·)

def assertCapAfterCreate (mode : SessionMode) (project : ProjectId)
    (user : UserId) (id : SessionId) (excluded : Option SessionId) (paging : CapPaging) :
    Hub Runtime Unit :=
  checkCapQueues (capsFor deps mode project user) excluded paging (ranksOver id)

/-! ## The start of a session -/

/-- Why a start fails after the recheck. -/
inductive StartFailure where
  /-- `EditorClaimLostError`. -/
  | editorClaimLost
  | error (error : HubError)

structure StartRequest where
  mode : SessionMode
  input : CreateSessionInput
  /-- The temporary session a replacement retires once it runs. -/
  temporaryToRetire : Option SessionId := none
  preflightPaging : CapPaging
  recheckPaging : CapPaging
  /-- The steps between the recheck and `mark_running`. -/
  provision : Except StartFailure RunningArgs
  /-- The steps after `mark_running`. -/
  runningRechecks : Except StartFailure Unit := .ok ()

variable (request : StartRequest)

/-- What `createSession` is called with. -/
def StartRequest.record (id : SessionId) : CreateSessionInput :=
  { request.input with mode := some request.mode, sessionId := some id }

def StartRequest.caps (deps : StartDeps) : List Cap :=
  capsFor deps request.mode request.input.projectId request.input.userId

/-- The saga up to the recheck, with the recheck's verdict. -/
def createRechecked : Hub Runtime (Session × Except HubError Unit) := do
  let id ← createId
  enforceSessionCap deps request.mode request.input.projectId request.input.userId
    request.temporaryToRetire request.preflightPaging
  let session ← createSession (request.record id)
  let verdict ← settled (assertCapAfterCreate deps request.mode request.input.projectId
    request.input.userId id request.temporaryToRetire request.recheckPaging)
  pure (session, verdict)

/-- The handler of a start that failed with its record at hand. -/
def abandonStart (session : Session) (failure : StartFailure) : Hub Runtime Session :=
  match failure with
  | .editorClaimLost => do
    ignoringErrors do
      let _ ← SessionUpdate.markTerminated.run session.projectId session.sessionId
      pure ()
    .raise (.conflict "The editor session changed. Retry shortly.")
  | .error error => do
    ignoringErrors do
      let _ ← (SessionUpdate.markFailed (some (deps.toSessionError error))).run session.projectId
        session.sessionId
      pure ()
    .raise error

/-- The step `mark_running`. -/
def markRunning (args : RunningArgs) : Hub Runtime Session := do
  let now ← dateNow
  if isPastAuthorizationDeadline session now then
    .raise (.forbidden "Group authorization expired while starting the session")
  else do
    let updated ← (SessionUpdate.setRunning args).run session.projectId session.sessionId
    pure updated.value

def finishStart (session : Session) : Except HubError Unit → Hub Runtime Session
  | .error error => abandonStart deps session (.error error)
  | .ok _ =>
    match request.provision with
    | .error failure => abandonStart deps session failure
    | .ok args => do
      match ← settled (markRunning session args) with
      | .error error => abandonStart deps session (.error error)
      | .ok updated =>
        match request.runningRechecks with
        | .error failure => abandonStart deps session failure
        | .ok _ => pure updated

def startSession : Hub Runtime Session := do
  let rechecked ← createRechecked deps request
  finishStart deps request rechecked.1 rechecked.2

end MarimoHub.Source
