import MarimoHub.Source.Runtime

/-!
# Routing app visits

`services/runtime/AppPoolRouter.ts`: the record of an app pool and the decisions about it, as
functions of the record and a clock reading. `structuredClone` and updates in place become new
records; where the source changes an element it found, the first match is changed.
-/

namespace MarimoHub.Source.AppPools

open ObjectStore

/-! ## Records -/

/-- An admission draws the name of the session it reserves; a session started in any other way
has a name of its own. -/
inductive AppSessionId where
  | drawn (n : Nat)
  | other (n : Nat)
deriving DecidableEq

inductive OperationToken where
  | legacy
  | drawn (n : Nat)
deriving DecidableEq

structure AppPoolPolicy where
  maxVisitsPerSession : Option Nat := none
  maxSessionsPerVersion : Option Nat := none
  userLeaseMs : Nat
  reconnectGraceMs : Nat
  idleMs : Nat

/-- `AppVisitSchema`. -/
structure AppVisit where
  visitId : String
  generation : Nat

inductive AppMemberState where
  | starting
  | ready
  | draining
  | retiring
deriving DecidableEq

/-- `AppPoolMemberSchema`. -/
structure AppPoolMember where
  sessionId : AppSessionId
  sandboxId : SandboxId
  userId : UserId
  sourceVersionId : Option VersionId
  state : AppMemberState
  createdAt : Nat
  operationToken : OperationToken
  operationExpiresAt : Nat
  idleSince : Option Nat := none
  legacy : Bool := false
  replacesSessionId : Option AppSessionId := none
deriving DecidableEq

structure VisitLease where
  visitId : String
  expiresAt : Nat
deriving DecidableEq

/-- `AppPoolAssignmentSchema`. -/
structure AppPoolAssignment where
  visitId : Option String
  userId : UserId
  sessionId : AppSessionId
  generation : Nat
  visits : List VisitLease
  graceUntil : Option Nat := none
deriving DecidableEq

/-- `AppPoolSchema`. -/
structure AppPool where
  deletedAt : Option Nat := none
  latestVersionId : Option VersionId := none
  members : List AppPoolMember := []
  assignments : List AppPoolAssignment := []
deriving DecidableEq

/-- The first element that satisfies `p`, changed in place. -/
def modifyFirst {α : Type} (p : α → Bool) (f : α → α) : List α → List α
  | [] => []
  | x :: rest => if p x then f x :: rest else x :: modifyFirst p f rest

/-! ## The router -/

variable (policy : AppPoolPolicy) (version : VersionId) (assignments : List AppPoolAssignment)

def appOccupancy (session : AppSessionId) : Nat :=
  assignments.countP fun assignment => assignment.sessionId = session

variable (now : Nat) (assignment : AppPoolAssignment)

def appPresenceExpiresAt : Nat :=
  (assignment.visits.map VisitLease.expiresAt).foldl max (assignment.graceUntil.getD 0)

def isReusableMember (member : AppPoolMember) (now : Nat) : Bool :=
  member.state ≠ .retiring ∧ (member.state ≠ .starting ∨ now < member.operationExpiresAt)

/-- A pre-visit assignment is split into one for each visit. -/
def splitAssignment : List AppPoolAssignment :=
  if assignment.visitId = none ∧ assignment.visits ≠ [] then
    assignment.visits.map fun visit =>
      { assignment with visitId := some visit.visitId, visits := [visit] }
  else [assignment]

def dropExpiredVisits : AppPoolAssignment :=
  { assignment with visits := assignment.visits.filter fun visit => now < visit.expiresAt }

def isPresent : Bool :=
  assignment.visits ≠ [] ∨ now < assignment.graceUntil.getD 0

/-- When the last presence of a session ends, if the pool has any of it. -/
def lastPresence (session : AppSessionId) : Option Nat :=
  match assignments.filter fun assignment => assignment.sessionId = session with
  | [] => none
  | mine => some ((mine.map appPresenceExpiresAt).foldl max 0)

def isLive (members : List AppPoolMember) (session : AppSessionId) : Bool :=
  members.any fun member => isReusableMember member now ∧ member.sessionId = session

def settleIdle (before after : List AppPoolAssignment) (member : AppPoolMember) : AppPoolMember :=
  if after.any fun assignment => assignment.sessionId = member.sessionId then
    { member with idleSince := none }
  -- a delayed sweep uses the lease deadline, it does not restart the idle clock
  else
    { member with
      idleSince := member.idleSince <|> some ((lastPresence before member.sessionId).getD now) }

variable (pool : AppPool)

def keptAssignments : List AppPoolAssignment :=
  ((pool.assignments.flatMap splitAssignment).map (dropExpiredVisits now)).filter
    fun assignment => isPresent now assignment && isLive now pool.members assignment.sessionId

def expireAppPresence : AppPool :=
  { pool with
    assignments := keptAssignments now pool
    members := pool.members.map
      (settleIdle now (pool.assignments.flatMap splitAssignment) (keptAssignments now pool)) }

inductive DecisionKind where
  | reuse
  | reserve
deriving DecidableEq

inductive AppPoolDecision where
  | placed (kind : DecisionKind) (member : AppPoolMember) (assignment : Option AppPoolAssignment)
  | busy

structure Routed where
  pool : AppPool
  decision : AppPoolDecision

structure AppAdmission where
  userId : UserId
  visitId : String
  versionId : VersionId
  generation : Nat
  reservation : AppPoolMember
  now : Nat

variable (input : AppAdmission) (member : AppPoolMember)

def drainStale : AppPoolMember :=
  if member.state = .ready ∧ member.sourceVersionId ≠ some version then
    { member with state := .draining }
  else member

def observeVersion : AppPool :=
  { pool with
    latestVersionId := some version
    members := pool.members.map (drainStale version) }

def isCurrent : Bool :=
  !member.legacy && member.sourceVersionId = some version && member.state ≠ .draining &&
    isReusableMember member now

def currentVersionMembers (version : VersionId) (now : Nat) : List AppPoolMember :=
  pool.members.filter (isCurrent version now)

def hasSessionCapacity (current : List AppPoolMember) : Bool :=
  policy.maxSessionsPerVersion.all fun limit => current.length < limit

/-- The service of one notebook's pool. `localeBefore` is the order of `localeCompare`. -/
structure AppPoolService where
  project : ProjectId
  notebook : NotebookId
  policy : AppPoolPolicy
  localeBefore : AppSessionId → AppSessionId → Bool

/-- The comparison of `available.sort`. -/
def sortsBefore (service : AppPoolService) (assignments : List AppPoolAssignment)
    (a b : AppPoolMember) : Bool :=
  if (a.state = .ready) ≠ (b.state = .ready) then a.state = .ready
  else if appOccupancy assignments a.sessionId ≠ appOccupancy assignments b.sessionId then
    appOccupancy assignments b.sessionId < appOccupancy assignments a.sessionId
  else if a.createdAt ≠ b.createdAt then a.createdAt < b.createdAt
  else service.localeBefore a.sessionId b.sessionId

/-- `members.sort(..)[0]`. -/
def firstSorted (before : AppPoolMember → AppPoolMember → Bool) :
    List AppPoolMember → Option AppPoolMember
  | [] => none
  | member :: rest =>
    some (rest.foldl (fun best next => if before next best then next else best) member)

def hasVisitCapacity : Bool :=
  policy.maxVisitsPerSession.all fun limit => appOccupancy assignments member.sessionId < limit

def renewVisits (visitId : String) (expiresAt : Nat) : List VisitLease → List VisitLease
  | [] => [⟨visitId, expiresAt⟩]
  | visit :: rest =>
    if visit.visitId = visitId then ⟨visitId, max visit.expiresAt expiresAt⟩ :: rest
    else visit :: renewVisits visitId expiresAt rest

def renewAppVisit (visitId : String) (expiresAt : Nat) (assignment : AppPoolAssignment) :
    AppPoolAssignment :=
  { assignment with
    visits := renewVisits visitId expiresAt assignment.visits, graceUntil := none }

def clearIdle : AppPoolMember := { member with idleSince := none }

def isVisit (userId : UserId) (visitId : String) (assignment : AppPoolAssignment) : Bool :=
  assignment.userId = userId ∧ assignment.visitId = some visitId

def admissionLease (now : Nat) : Nat :=
  if member.state = .starting then max member.operationExpiresAt (now + policy.userLeaseMs)
  else now + policy.userLeaseMs

def admittedAssignment : AppPoolAssignment where
  visitId := some input.visitId
  userId := input.userId
  sessionId := member.sessionId
  generation := input.generation
  visits := [⟨input.visitId, admissionLease policy member input.now⟩]

/-- The visit is already assigned: its lease is renewed. -/
def reuseVisit (pool : AppPool) (existing : AppPoolAssignment) : Routed :=
  let renewed := renewAppVisit input.visitId (input.now + policy.userLeaseMs) existing
  let next := { pool with
    assignments := modifyFirst (isVisit input.userId input.visitId)
      (renewAppVisit input.visitId (input.now + policy.userLeaseMs)) pool.assignments
    members := modifyFirst (fun member => member.sessionId = existing.sessionId) clearIdle
      pool.members }
  match pool.members.find? fun member => member.sessionId = existing.sessionId with
  | some member => ⟨next, .placed .reuse (clearIdle member) (some renewed)⟩
  -- an assignment that was kept refers to a live member
  | none => ⟨next, .busy⟩

def assignTo (kind : DecisionKind) (pool : AppPool) (member : AppPoolMember) : Routed :=
  let assignment := admittedAssignment policy input member
  ⟨{ pool with
      assignments := pool.assignments ++ [assignment]
      members := modifyFirst (fun item => item = member) clearIdle pool.members },
    .placed kind (clearIdle member) (some assignment)⟩

def routeApp (service : AppPoolService) (pool : AppPool) (input : AppAdmission) : Routed :=
  let next := observeVersion input.versionId (expireAppPresence input.now pool)
  match next.assignments.find? (isVisit input.userId input.visitId) with
  | some existing => reuseVisit service.policy input next existing
  | none =>
    let eligible := currentVersionMembers next input.versionId input.now
    let available := eligible.filter (hasVisitCapacity service.policy next.assignments)
    match firstSorted (sortsBefore service next.assignments) available with
    | some member => assignTo service.policy input .reuse next member
    | none =>
      if hasSessionCapacity service.policy eligible then
        assignTo service.policy input .reserve
          { next with members := next.members ++ [input.reservation] } input.reservation
      else ⟨next, .busy⟩

structure AppReplacement where
  versionId : VersionId
  reservation : AppPoolMember
  now : Nat
  replacesSessionId : AppSessionId

def reserveAppReplacement (input : AppReplacement) : Routed :=
  let next := observeVersion input.versionId (expireAppPresence input.now pool)
  let current := currentVersionMembers next input.versionId input.now
  match current.find? fun member => member.replacesSessionId = some input.replacesSessionId with
  | some previous => ⟨next, .placed .reuse previous none⟩
  | none =>
    let retained := current.filter fun member => member.sessionId ≠ input.replacesSessionId
    if hasSessionCapacity policy retained then
      let member := { input.reservation with replacesSessionId := some input.replacesSessionId }
      ⟨{ next with members := next.members ++ [member] }, .placed .reserve member none⟩
    else ⟨next, .busy⟩

inductive AppRetirementDecision where
  | retain
  | probe
  | retire
deriving DecidableEq

def routeAppRetirement (now : Nat) : AppRetirementDecision :=
  match member.state with
  | .retiring => .retire
  | .starting => if member.operationExpiresAt ≤ now then .retire else .retain
  | _ =>
    if appOccupancy pool.assignments member.sessionId = 0 ∧
        (member.idleSince.any fun since => since + policy.idleMs ≤ now) then .probe
    else .retain

end MarimoHub.Source.AppPools
