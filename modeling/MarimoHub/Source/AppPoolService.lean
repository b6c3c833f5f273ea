import MarimoHub.Source.AppPoolRouter

/-!
# App pools

`services/runtime/AppPoolStore.ts` and `AppPoolService.ts` for the pool of one notebook, with the
two calls of other services that write it: the deletion of the notebook (`NotebookService.ts`) and
the cancellation of a pending move (`NotebookMoveService.ts`). The committed source version,
session records, the effects of a reconcile pass, the catalog and the other objects of a deletion
or a move are asked of their services. Metrics, logs and the timer that renews the lease of a
running cancellation are left out. Every reading of the clock is its own operation, as in the
source.
-/

namespace MarimoHub.Source.AppPools

open ObjectStore

def appPresencePersistIntervalMs : Nat := 60000

def appPoolRetries : Nat := 12

/-- The fields of a session record a pool reads. A session no admission started does not carry a
name an admission drew. -/
structure AppSession where
  sessionId : AppSessionId
  projectId : ProjectId
  notebookId : NotebookId
  mode : SessionMode
  status : SessionStatus
  userId : UserId
  sandboxId : Option SandboxId
  sourceVersionId : Option VersionId
  startedAt : Nat
  authorizationExpiresAt : Option Nat
  appPool : Bool
  outside : appPool = false → ∃ n, sessionId = .other n

/-- What a deletion or a cancelled move does to objects of other services. -/
inductive AppStep where
  | updateNotebookEntry
  | retireThumbnails
  | releaseClaims
  | readProject
  | deleteDestination
  | deletePruneCutoff
  | cancelRuntimes
  | finishPreviews
  | finishProposals
  | stampCatalog
deriving DecidableEq

inductive AppKey where
  | pool
  | metadata
  | notebookMove
deriving DecidableEq

inductive AppVal where
  | pool (pool : AppPool)
  | metadata (stored : NotebookMeta)
  | move (move : NotebookMove)
  | corrupt
deriving DecidableEq

inductive AppQuery where
  /-- `current_version_id` of the source record. -/
  | committedVersion
  | getSession (session : AppSessionId)
  | listActiveByProject
  | probe (session : AppSessionId)
  | retire (session : AppSessionId)
  | authorize
  | isPublished
  | step (step : AppStep)
deriving DecidableEq

@[reducible] def AppAnswer : AppQuery → Type
  | .committedVersion => Except HubError (Option VersionId)
  | .getSession _ => Except HubError AppSession
  | .listActiveByProject => Except HubError (List AppSession)
  | .probe _ => Except HubError (Option Nat)
  | .retire _ => Except HubError Bool
  | .authorize => Except HubError Unit
  | .isPublished => Except HubError Bool
  | .step _ => Except HubError Unit

@[reducible] def AppStore : Schema where
  Key := AppKey
  Val := AppVal
  Query := AppQuery
  Answer := AppAnswer

def askApp (q : AppQuery) : Hub AppStore (AppAnswer q) := Prog.perform (B := AppStore) (.ask q)

def appStep (step : AppStep) : Hub AppStore Unit := askApp (.step step) >>= orRaise

/-! ## The store -/

def parsePool : AppVal → Hub AppStore AppPool
  | .pool pool => pure pool
  | _ => .raise .storedObject

/-- The pool with the condition under which it may be replaced. -/
def readPool : Hub AppStore (AppPool × Cond AppStore) := do
  match ← bucketGet .pool with
  | none => pure ({}, .ifAbsent)
  | some object => do
    let pool ← parsePool object.value
    pure (pool, .ifMatch object.etag)

structure Mutation (α : Type) where
  pool : AppPool
  value : α

/-- A tombstoned pool stays tombstoned, without assignments and with retiring members only. -/
def breaksTombstone (pool next : AppPool) : Bool :=
  pool.deletedAt.isSome &&
    (next.deletedAt ≠ pool.deletedAt || next.assignments ≠ [] ||
      next.members.any fun member => member.state ≠ .retiring)

/-- The end of an attempt of `mutate`; a record that did not change is not written. -/
def commitPool {α : Type} (pool : AppPool) (condition : Cond AppStore) (next : Mutation α) :
    Hub AppStore α :=
  if breaksTombstone pool next.pool then .raise (.notFound "The app notebook was deleted")
  else if next.pool = pool then pure next.value
  else do
    let _ ← casPut .pool (.pool next.pool) condition
    pure next.value

def mutateAttempt {α : Type} (update : AppPool → Hub AppStore (Mutation α)) : Hub AppStore α := do
  let read ← readPool
  let next ← update read.1
  commitPool read.1 read.2 next

/-- `mutate`. -/
def mutatePool {α : Type} (update : AppPool → Hub AppStore (Mutation α)) : Hub AppStore α :=
  withCasRetry appPoolRetries (mutateAttempt update)

variable (service : AppPoolService) (observed : Option (List AppSession)) (policy : AppPoolPolicy)
  (userId : UserId) (session : AppSessionId) (token : OperationToken) (pool : AppPool)
  (member : AppPoolMember)

def retireMember : AppPoolMember := { member with state := .retiring }

/-- `deleted_at ??= Date.now()`. -/
def tombstoneTime : Hub AppStore Nat :=
  match pool.deletedAt with
  | some deletedAt => pure deletedAt
  | none => dateNow

def retireForDeletion : Hub AppStore Unit :=
  mutatePool fun pool => do
    -- the tombstone stays after reclamation so that delayed admissions cannot recreate the pool
    let deletedAt ← tombstoneTime pool
    pure ⟨{ pool with
      deletedAt := some deletedAt
      members := pool.members.map retireMember
      assignments := [] }, ()⟩

/-- Reopens the pool after a cancelled move. -/
def cancelNotebookMove : Hub AppStore Unit :=
  withCasRetry defaultRetries do
    match ← bucketGet .pool with
    | none => pure ()
    | some object => do
      let pool ← parsePool object.value
      let _ ← casPut .pool (.pool { pool with deletedAt := none })
        (.ifMatch object.etag)
      pure ()

/-! ## Synchronization with session records -/

def isMember : Bool := member.sessionId = session

/-- The session records an attempt works with, and the members that have none. They are read once
and kept when the write has to be repeated. -/
structure SessionsSeen where
  sessions : List AppSession
  absent : List AppSessionId

/-- A starting reservation can publish its session before the write is repeated. -/
def readSession : Hub AppStore SessionsSeen := do
  match ← askApp (.getSession member.sessionId) with
  | .ok session => pure ⟨[session], []⟩
  | .error err =>
    if err.isNotFound then pure ⟨[], if member.state = .starting then [] else [member.sessionId]⟩
    else .raise err

def readSessions : List AppPoolMember → Hub AppStore SessionsSeen
  | [] => pure ⟨[], []⟩
  | member :: rest => do
    let here ← readSession member
    let others ← readSessions rest
    pure ⟨here.sessions ++ others.sessions, here.absent ++ others.absent⟩

def isAppSession (session : AppSession) : Bool :=
  session.projectId = service.project && session.notebookId = service.notebook &&
    session.mode = .app

/-- Only an empty pool needs discovery. -/
def candidateSessions : Hub AppStore SessionsSeen :=
  match observed with
  | some sessions => pure ⟨sessions, []⟩
  | none =>
    if pool.members = [] ∧ pool.assignments = [] ∧ pool.deletedAt = none then do
      let sessions ← askApp .listActiveByProject >>= orRaise
      pure ⟨sessions, []⟩
    else readSessions pool.members

def loadSessions : Option SessionsSeen → Hub AppStore SessionsSeen
  | some seen => pure seen
  | none => do
    let seen ← candidateSessions observed pool
    pure { seen with sessions := seen.sessions.filter (isAppSession service) }

def startExpired : Hub AppStore Bool :=
  if member.state = .starting then do
    let now ← dateNow
    pure (decide (member.operationExpiresAt ≤ now))
  else pure false

def isMissing (absent : List AppSessionId) (member : AppPoolMember) : Bool :=
  member.state ≠ .starting && member.sessionId ∈ absent

def retireLost (absent : List AppSessionId) : List AppPoolMember → Hub AppStore (List AppPoolMember)
  | [] => pure []
  | member :: rest => do
    let expired ← startExpired member
    let others ← retireLost absent rest
    pure ((if isMissing absent member || expired then retireMember member else member) :: others)

def isPastAuthorizationDeadline (session : AppSession) (now : Nat) : Bool :=
  session.authorizationExpiresAt.any fun deadline => deadline ≤ now

def sessionEnded (session : AppSession) : Hub AppStore Bool :=
  if session.status.isTerminal ∨ session.status = .terminating then pure true
  else do
    let now ← dateNow
    pure (isPastAuthorizationDeadline session now)

/-- The member an older session gets, if it has to be adopted. -/
def legacyMember (deleted : Bool) (session : AppSession) : Option AppPoolMember :=
  if (session.status = .running ∨ session.status = .starting) ∧ session.appPool = false then
    session.sandboxId.map fun sandboxId =>
      { sessionId := session.sessionId
        sandboxId := sandboxId
        userId := session.userId
        sourceVersionId := session.sourceVersionId
        state := if deleted then .retiring else .draining
        legacy := true
        createdAt := session.startedAt
        operationToken := .legacy
        operationExpiresAt := 0 }
  else none

def applySession (deleted : Bool) (session : AppSession) (members : List AppPoolMember) :
    Hub AppStore (List AppPoolMember) :=
  match members.find? (isMember session.sessionId) with
  | some _ => do
    let ended ← sessionEnded session
    pure (if ended then modifyFirst (isMember session.sessionId) retireMember members else members)
  | none => pure (members ++ (legacyMember deleted session).toList)

def applySessions (deleted : Bool) :
    List AppSession → List AppPoolMember → Hub AppStore (List AppPoolMember)
  | [], members => pure members
  | session :: rest, members => do
    let members ← applySession deleted session members
    applySessions deleted rest members

def synchronizePool (seen : SessionsSeen) (pool : AppPool) : Hub AppStore (Mutation AppPool) := do
  let members ← retireLost seen.absent pool.members
  let members ← applySessions pool.deletedAt.isSome seen.sessions members
  let now ← dateNow
  let next := expireAppPresence now { pool with members := members }
  pure ⟨next, next⟩

/-- Nothing of a deleted pool is left to reclaim. -/
def isReclaimed : Bool :=
  pool.deletedAt.isSome && pool.members.isEmpty && (observed.getD []).isEmpty

def synchronizeFrom (service : AppPoolService) (observed : Option (List AppSession)) :
    Nat → Option SessionsSeen → Hub AppStore AppPool
  | 0, _ => .raise (.conflict "Write conflict: max retries exceeded")
  | retries + 1, seen => do
    let read ← readPool
    if isReclaimed observed read.1 then pure read.1
    else do
      let seen ← loadSessions service observed read.1 seen
      let next ← synchronizePool seen read.1
      (commitPool read.1 read.2 next).tryCatch fun
        | .casWriteConflict _ => synchronizeFrom service observed retries (some seen)
        | err => .raise err

def synchronize : Hub AppStore AppPool :=
  synchronizeFrom service observed appPoolRetries none

/-! ## Admission -/

def assertCommittedVersion (version : VersionId) : Hub AppStore Unit := do
  match ← askApp .committedVersion >>= orRaise with
  | none => .raise (.notFound "Notebook source not found")
  | some current =>
    if current ≠ version then .raise (.conflict "The app version changed. Retry shortly.")
    else pure ()

/-- Only before the creation of a session is attempted. -/
def releasePool : AppPool :=
  match pool.members.find? (isMember session) with
  | none => pool
  | some member =>
    if member.operationToken = token ∧ (member.state = .starting ∨ member.state = .retiring) then
      { pool with
        members := pool.members.eraseP (isMember session)
        assignments := pool.assignments.filter fun item => item.sessionId ≠ session }
    else pool

def releaseReservation : Hub AppStore Unit :=
  mutatePool fun pool => pure ⟨releasePool session token pool, ()⟩

structure AppPoolRequest where
  userId : UserId
  versionId : VersionId
  startupMs : Nat

inductive Operation where
  | admission
  | replacement
deriving DecidableEq

/-- The generation an admission added, if it added one. -/
def newGeneration : AppPoolDecision → Option Nat
  | .placed _ _ (some assignment) =>
    if pool.assignments.any fun item =>
        item.userId = userId && item.generation = assignment.generation then none
    else some assignment.generation
  | _ => none

def isReserve : AppPoolDecision → Bool
  | .placed .reserve _ _ => true
  | _ => false

def isReuse : AppPoolDecision → Bool
  | .placed .reuse _ _ => true
  | _ => false

structure Placement where
  decision : AppPoolDecision
  newGeneration : Option Nat

def isWithdrawn (generation : Option Nat) (item : AppPoolAssignment) : Bool :=
  item.userId = userId && some item.generation = generation

def withdrawPool (generation : Option Nat) (pool : AppPool) : Hub AppStore (Mutation Unit) := do
  let now ← dateNow
  pure ⟨expireAppPresence now { pool with
    assignments := pool.assignments.filter fun item => !isWithdrawn userId generation item }, ()⟩

/-- Takes the admission back. -/
def withdrawAdmission (reservation : AppPoolMember) (placed : Placement) : Hub AppStore Unit :=
  if isReserve placed.decision then
    releaseReservation reservation.sessionId reservation.operationToken
  else mutatePool (withdrawPool userId placed.newGeneration)

variable (input : AppPoolRequest)

/-- Source and pool heads cannot share a write: the version is validated again. -/
def confirmAdmission (operation : Operation) (reservation : AppPoolMember)
    (placed : Placement) : Hub AppStore Unit :=
  let owns := isReserve placed.decision || placed.newGeneration.isSome
  if owns || (operation = .replacement && isReuse placed.decision) then
    (assertCommittedVersion input.versionId).tryCatch fun err =>
      if owns then do
        withdrawAdmission input.userId reservation placed
        .raise err
      else .raise err
  else pure ()

def placeVisit (decide : AppPool → Nat → Routed) (pool : AppPool) :
    Hub AppStore (Mutation Placement) :=
  if pool.deletedAt.isSome then .raise (.notFound "App pool was deleted")
  else do
    -- reading the head after the pool fences stale requests when the write is repeated
    assertCommittedVersion input.versionId
    let now ← dateNow
    let routed := decide pool now
    pure ⟨routed.pool, routed.decision, newGeneration input.userId pool routed.decision⟩

def reserveMember (now session sandbox token : Nat) : AppPoolMember where
  sessionId := .drawn session
  sandboxId := sandbox
  userId := input.userId
  sourceVersionId := some input.versionId
  state := .starting
  createdAt := now
  operationToken := .drawn token
  operationExpiresAt := now + input.startupMs

def route (operation : Operation)
    (decide : AppPoolMember → AppPool → Nat → Routed) : Hub AppStore AppPoolDecision := do
  let _ ← synchronize service none
  let now ← dateNow
  let session ← createId
  let sandbox ← createId
  let token ← createId
  let reservation := reserveMember input now session sandbox token
  let placed ← mutatePool (placeVisit input (decide reservation))
  confirmAdmission input operation reservation placed
  match placed.decision with
  | .busy => .raise (.resourceExhausted "App is busy. Retry shortly.")
  | decision => pure decision

def admission (visitId : Option String) (generation : Nat)
    (reservation : AppPoolMember) (now : Nat) : AppAdmission where
  userId := input.userId
  visitId := visitId.getD "api"
  versionId := input.versionId
  generation := generation
  reservation := reservation
  now := now

/-- `admit`. -/
def admitVisit (visitId : Option String) : Hub AppStore AppPoolDecision := do
  let generation ← createId
  route service input .admission fun reservation pool now =>
    routeApp service pool (admission input visitId generation reservation now)

def replace (replaces : AppSessionId) : Hub AppStore AppPoolDecision :=
  route service input .replacement fun reservation pool now =>
    reserveAppReplacement service.policy pool ⟨input.versionId, reservation, now, replaces⟩

/-! ## Startup -/

def startupExpired : HubError := .conflict "The app startup reservation expired. Retry shortly."

/-- Whether the reservation still holds; the clock is read last. -/
def reservationHolds : Hub AppStore Bool :=
  if member.state = .starting ∧ member.operationToken = token then do
    let now ← dateNow
    pure (decide (now < member.operationExpiresAt))
  else pure false

def whileReserved (change : AppPoolMember → AppPool → Hub AppStore AppPool) (pool : AppPool) :
    Hub AppStore (Mutation Bool) :=
  match pool.members.find? (isMember session) with
  | none => pure ⟨pool, false⟩
  | some member => do
    let holds ← reservationHolds token member
    if holds then do
      let next ← change member pool
      pure ⟨next, true⟩
    else pure ⟨pool, false⟩

def expectReserved
    (change : AppPoolMember → AppPool → Hub AppStore AppPool) : Hub AppStore Unit := do
  let done ← mutatePool (whileReserved session token change)
  if done then pure () else .raise startupExpired

def bindSandbox (sandboxId : SandboxId) (member : AppPoolMember) : AppPoolMember :=
  { member with sandboxId := sandboxId }

def bindWarmSandbox (sandboxId : SandboxId) : Hub AppStore Unit :=
  expectReserved session token fun _ pool =>
    pure { pool with
      members := modifyFirst (isMember session) (bindSandbox sandboxId) pool.members }

def completedState : AppMemberState :=
  if member.sourceVersionId = pool.latestVersionId then .ready else .draining

def completeMember : AppPoolMember :=
  { member with state := completedState pool member }

def shortenVisits (lease : Nat) : List VisitLease → Hub AppStore (List VisitLease)
  | [] => pure []
  | visit :: rest => do
    let now ← dateNow
    let others ← shortenVisits lease rest
    pure ({ visit with expiresAt := min visit.expiresAt (now + lease) } :: others)

def shortenAssignment (lease : Nat) (session : AppSessionId) (assignment : AppPoolAssignment) :
    Hub AppStore AppPoolAssignment :=
  if assignment.sessionId = session then do
    let visits ← shortenVisits lease assignment.visits
    pure { assignment with visits := visits }
  else pure assignment

def shortenAssignments (lease : Nat) (session : AppSessionId) :
    List AppPoolAssignment → Hub AppStore (List AppPoolAssignment)
  | [] => pure []
  | assignment :: rest => do
    let shortened ← shortenAssignment lease session assignment
    let others ← shortenAssignments lease session rest
    pure (shortened :: others)

def complete : Hub AppStore Unit :=
  expectReserved session token fun _ pool => do
    let assignments ← shortenAssignments service.policy.userLeaseMs session pool.assignments
    pure { pool with
      members := modifyFirst (isMember session) (completeMember pool) pool.members
      assignments := assignments }

def invalidatePool : AppPool :=
  { pool with
    members := modifyFirst (isMember session) retireMember pool.members
    assignments := pool.assignments.filter fun item => item.sessionId ≠ session }

def invalidate : Hub AppStore Unit :=
  mutatePool fun pool => pure ⟨invalidatePool session pool, ()⟩

/-! ## Presence -/

variable (visit : Option AppVisit)

def presenceVisit : String := (visit.map AppVisit.visitId).getD "api"

/-- The condition of `findPresenceAssignment`. -/
def isPresence (item : AppPoolAssignment) : Bool :=
  item.userId = userId && item.sessionId = session && item.visitId = some (presenceVisit visit) &&
    visit.all fun visit => item.generation = visit.generation

def isPresentMember : Bool :=
  member.sessionId = session && member.state ≠ .retiring

variable (now : Nat)

/-- At least half a lease is kept durable. -/
def isRenewalDue (visit : VisitLease) : Bool :=
  2 * visit.expiresAt + min (2 * appPresencePersistIntervalMs) policy.userLeaseMs ≤
    2 * now + 2 * policy.userLeaseMs

def wakeMember : AppPool :=
  { pool with members := modifyFirst (isPresentMember session) clearIdle pool.members }

def renewPresence (pool : AppPool) : AppPool :=
  { pool with
    assignments := modifyFirst (isPresence userId session visit)
      (renewAppVisit (presenceVisit visit) (now + policy.userLeaseMs)) pool.assignments }

/-- An old page has no visit token; it can register only with an adopted legacy member. -/
def legacyAssignment (generation now : Nat) : AppPoolAssignment :=
  renewAppVisit "api" (now + policy.userLeaseMs)
    { visitId := some "api"
      userId := userId
      sessionId := session
      generation := generation
      visits := [] }

def registerLegacy (pool : AppPool) : Hub AppStore (Mutation Bool) := do
  let generation ← createId
  pure ⟨wakeMember session { pool with
    assignments := pool.assignments ++
      [legacyAssignment policy userId session generation now] }, true⟩

def recordPresence (legacyVisit : Bool) (now : Nat) (pool : AppPool)
    (assignment : AppPoolAssignment) : Mutation Bool :=
  match assignment.visits.find? fun item => item.visitId = presenceVisit visit with
  | none =>
    if legacyVisit then
      ⟨wakeMember session (renewPresence policy userId session visit now pool), true⟩
    else ⟨pool, false⟩
  | some current =>
    if isRenewalDue policy now current then
      ⟨wakeMember session (renewPresence policy userId session visit now pool), true⟩
    else ⟨wakeMember session pool, true⟩

def heartbeatPool (pool : AppPool) : Hub AppStore (Mutation Bool) :=
  match pool.members.find? (isPresentMember session) with
  | none => pure ⟨pool, false⟩
  | some member =>
    let legacyVisit := member.legacy && visit.isNone
    match pool.assignments.find? (isPresence userId session visit) with
    | some assignment =>
      pure (recordPresence policy userId session visit legacyVisit now pool assignment)
    | none =>
      if legacyVisit then registerLegacy policy userId session now pool
      else pure ⟨pool, false⟩

def heartbeat : Hub AppStore Bool :=
  mutatePool fun pool => do
    let now ← dateNow
    heartbeatPool service.policy userId session visit now (expireAppPresence now pool)

def leaveVisit (visitId : String) (now : Nat)
    (assignment : AppPoolAssignment) : AppPoolAssignment :=
  let visits := assignment.visits.filter fun item => item.visitId ≠ visitId
  { assignment with
    visits := visits
    graceUntil := if visits = [] then some (now + policy.reconnectGraceMs)
      else assignment.graceUntil }

def leavePool (visit : AppVisit) (now : Nat) (pool : AppPool) : AppPool :=
  match pool.assignments.find? (isPresence userId session (some visit)) with
  | none => pool
  | some assignment =>
    if assignment.visits.any fun item => item.visitId = visit.visitId then
      { pool with
        assignments := modifyFirst (isPresence userId session (some visit))
          (leaveVisit policy visit.visitId now) pool.assignments }
    else pool

def leave (visit : AppVisit) : Hub AppStore Unit :=
  mutatePool fun pool => do
    let now ← dateNow
    pure ⟨leavePool service.policy userId session visit now (expireAppPresence now pool), ()⟩

/-! ## Reconciliation -/

/-- The decision is made again inside the write that commits it. -/
def retireIfDue : Hub AppStore (Mutation Bool) := do
  let now ← dateNow
  let pool := expireAppPresence now pool
  match pool.members.find? (isMember session) with
  | none => pure ⟨pool, false⟩
  | some member => do
    let now ← dateNow
    if routeAppRetirement policy pool member now = .retain then pure ⟨pool, false⟩
    else do
      let now ← dateNow
      pure ⟨expireAppPresence now { pool with
        members := modifyFirst (isMember session) retireMember pool.members }, true⟩

/-- The session of a member, if it has a record. -/
def findSession : Hub AppStore (Option AppSession) := do
  match ← askApp (.getSession session) with
  | .ok found => pure (some found)
  | .error err => if err.isNotFound then pure none else .raise err

def removeMember : Hub AppStore Unit :=
  mutatePool fun pool => do
    let now ← dateNow
    pure ⟨expireAppPresence now { pool with
      members := pool.members.filter fun member => member.sessionId ≠ session }, ()⟩

/-- `decision === 'probe' && (await effects.probe(candidate)) !== 0`. -/
def isBusy (candidate : AppPoolMember) : AppRetirementDecision → Hub AppStore Bool
  | .probe => do
    let connections ← askApp (.probe candidate.sessionId) >>= orRaise
    pure (decide (connections ≠ some 0))
  | _ => pure false

def reclaimMember : Hub AppStore Unit := do
  let _ ← findSession session
  let retired ← askApp (.retire session) >>= orRaise
  if retired then removeMember session else pure ()

def retireCandidate (candidate : AppPoolMember) : Hub AppStore Unit := do
  let retire ← mutatePool (retireIfDue service.policy candidate.sessionId)
  if retire then reclaimMember candidate.sessionId else pure ()

def reconcileMember (snapshot : AppPool) (candidate : AppPoolMember) : Hub AppStore Unit := do
  let now ← dateNow
  match routeAppRetirement service.policy snapshot candidate now with
  | .retain => pure ()
  | decision => do
    let busy ← isBusy candidate decision
    if busy then pure () else retireCandidate service candidate

def reconcileMembers (service : AppPoolService) (snapshot : AppPool) :
    List AppPoolMember → Hub AppStore Unit
  | [] => pure ()
  | candidate :: rest => do
    ignoringErrors (reconcileMember service snapshot candidate)
    reconcileMembers service snapshot rest

def reconcile : Hub AppStore Unit := do
  let snapshot ← synchronize service none
  reconcileMembers service snapshot snapshot.members

/-! ## Deletion of the notebook -/

def parseMetadata : AppVal → Hub AppStore NotebookMeta
  | .metadata stored => pure stored
  | _ => .raise .storedObject

def appNotebookNotFound : HubError := .notFound "Notebook not found"

def markDeleted (expectedVersion : Option Nat) (current : NotebookMeta) :
    Hub AppStore (Option NotebookMeta) :=
  if current.moveId.isSome then .raise (.moveInProgress "Notebook is being moved")
  else if expectedVersion.isSome ∧ expectedVersion ≠ some current.updatedAt then
    .raise (.preconditionFailed
      "Resource was modified since it was last read (If-Match precondition failed)")
  else if current.status = .deleted then pure none
  else do
    let now ← dateNow
    pure (some { current with status := .deleted, updatedAt := now })

def projectDeleted (written : Bool) : Hub AppStore Unit :=
  if written then appStep .updateNotebookEntry else pure ()

def deleteNotebook (expectedVersion : Option Nat) : Hub AppStore Unit := do
  let outcome ← mutateObjectWithOutcome .metadata parseMetadata
    (markDeleted expectedVersion) AppVal.metadata appNotebookNotFound defaultRetries
  projectDeleted outcome.written
  retireForDeletion
  appStep .retireThumbnails
  ignoringErrors (appStep .releaseClaims)

/-! ## Cancellation of a move -/

def parseMove : AppVal → Hub AppStore NotebookMove
  | .move move => pure move
  | _ => .raise .storedObject

def readMetadata : Hub AppStore (Option (NotebookMeta × Etag AppStore)) := do
  match ← bucketGet .metadata with
  | none => pure none
  | some object => do
    let stored ← parseMetadata object.value
    pure (some (stored, object.etag))

def readMove : Hub AppStore (Option (NotebookMove × Etag AppStore)) := do
  match ← bucketGet .notebookMove with
  | none => pure none
  | some object => do
    let move ← parseMove object.value
    pure (some (move, object.etag))

def unfence (moveId : MoveId) : Hub AppStore Unit :=
  withCasRetry defaultRetries do
    match ← readMetadata with
    | none => pure ()
    | some (stored, etag) =>
      if stored.moveId ≠ some moveId then pure ()
      else do
        let _ ← casPut .metadata (.metadata { stored with moveId := none })
          (.ifMatch etag)
        pure ()

def noPendingMove : HubError := .notFound "No pending move for this notebook"

def moveLeaseMs : Nat := 60000

/-- A live lease held by an executor means that the move is still running. -/
def assertNotRunning (record : NotebookMove) : Hub AppStore Unit :=
  match record.lease with
  | none => pure ()
  | some held => do
    let now ← dateNow
    if now < held.expiresAt then
      .raise (.conflict "This move is already running. Retry after it finishes.")
    else pure ()

/-- `lease`, without a record to create; the executor was drawn just before. -/
def leaseMove (executor : Nat) : Hub AppStore NotebookMove :=
  withCasRetry defaultRetries do
    match ← readMove with
    | none => .raise noPendingMove
    | some (record, etag) =>
      if record.phase = .complete then .raise noPendingMove
      else if record.source ≠ service.project then .raise (.conflict
        "A move of this notebook to another project is in progress. Finish or cancel it first.")
      else do
        assertNotRunning record
        let now ← dateNow
        let next := { record with lease := some ⟨executor, now + moveLeaseMs⟩ }
        let _ ← casPut .notebookMove (.move next) (.ifMatch etag)
        pure next

def dropMoveLease (executor : Nat) : Hub AppStore Unit :=
  ignoringErrors <| withCasRetry defaultRetries do
    match ← readMove with
    | none => pure ()
    | some (record, etag) =>
      if record.lease.map MoveLease.executor ≠ some executor then pure ()
      else do
        let _ ← casPut .notebookMove (.move { record with lease := none })
          (.ifMatch etag)
        pure ()

def releaseMove (move : NotebookMove) : Hub AppStore Unit := do
  unfence move.id
  appStep .stampCatalog
  bucketDelete .notebookMove

def isPublishedMove (move : NotebookMove) : Hub AppStore Bool :=
  if move.phase = .published then pure true else askApp .isPublished >>= orRaise

/-- The part of `cancel` under the lease. -/
def cancelUnpublished (move : NotebookMove) : Hub AppStore Unit := do
  let published ← isPublishedMove move
  if published then
    .raise (.conflict "The move has been published. Retry it to finish cleanup.")
  else do
    appStep .deleteDestination
    cancelNotebookMove
    appStep .deletePruneCutoff
    appStep .cancelRuntimes
    appStep .finishPreviews
    appStep .finishProposals
    releaseMove move

def cancelPending : Hub AppStore Unit := do
  let executor ← createId
  let move ← leaseMove service executor
  (cancelUnpublished move).tryCatch fun err => do
    dropMoveLease executor
    .raise err

/-- A fence without a record cannot belong to a live move; clearing it is the repair. -/
def clearOrphan (moveId : MoveId) : Hub AppStore Unit := do
  unfence moveId
  appStep .stampCatalog

inductive Cancellation where
  | pending
  | orphan (moveId : MoveId)

/-- What there is to cancel. -/
def cancellation (existing : Option NotebookMove)
    (stored : Option NotebookMeta) : Option Cancellation :=
  if existing.any fun move => move.phase ≠ .complete && move.source = service.project then
    some .pending
  else
    ((stored.bind NotebookMeta.moveId).filter fun id =>
      existing.map NotebookMove.id ≠ some id).map .orphan

/-- `cancel`. -/
def cancelMove : Hub AppStore Unit := do
  let existing ← readMove
  let stored ← readMetadata
  match cancellation service (existing.map Prod.fst) (stored.map Prod.fst) with
  | none => .raise noPendingMove
  | some found => do
    appStep .readProject
    askApp .authorize >>= orRaise
    match found with
    | .orphan moveId => clearOrphan moveId
    | .pending => cancelPending service

end MarimoHub.Source.AppPools
