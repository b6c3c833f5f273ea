import MarimoHub.Source.Runtime

/-!
# The warm pool

`services/runtime/WarmPoolStore.ts` and `services/runtime/WarmPoolService.ts`. The sandbox
provider, the session service and the app pools are asked as services outside the pool's
record, and any question may fail. A stored record that does not parse is a failed read.
Metrics, the operational log and the diagnostics a claim drains are left out.

The fills of one sweep run side by side, at most two because a sweep reserves no more than that
many creations; a boot that outlives its deadline runs beside the rest of its fill. Both are
activities of the sweep's client (`Prog.interleave`).
-/

namespace MarimoHub.Source

open ObjectStore

/-! ## The record -/

inductive MemberState where
  | creating
  | ready
  | claimed
  | retiring
deriving DecidableEq

structure Destination where
  project : ProjectId
  notebook : NotebookId
  session : SessionId
deriving DecidableEq

/-- `WarmPoolMemberSchema`. -/
structure WarmPoolMember where
  sandboxId : SandboxId
  state : MemberState
  token : Nat
  createdAt : Nat
  readyUntil : Int
  operationUntil : Nat
  checkedAt : Nat := 0
  sandboxDeadlineAt : Option Nat := none
  reconnectReference : Option String := none
  destination : Option Destination := none
  assigned : Bool := false
deriving DecidableEq

structure WarmPool where
  key : String
  failures : Nat := 0
  retryAt : Nat := 0
  members : List WarmPoolMember := []
deriving DecidableEq

/-- `WarmPoolRecordSchema`. -/
structure WarmPoolRecord where
  pools : List WarmPool := []
deriving DecidableEq

structure ComputeResources where
  cpu : Option Nat := none
  memoryBytes : Option Nat := none
  gpu : Option String := none
deriving DecidableEq

def sameComputeResources (a b : ComputeResources) : Bool :=
  a.cpu = b.cpu && a.memoryBytes = b.memoryBytes && a.gpu = b.gpu

structure WarmPoolProfile where
  key : String
  name : Option String := none
  image : Option String := none
  resources : ComputeResources := {}
deriving DecidableEq

structure WarmPoolConfig where
  enabled : Bool
  size : Nat
  profiles : List WarmPoolProfile
  creationTimeoutMs : Nat
  minimumRemainingMs : Nat
  providerLifetimeMs : Option Nat := none

/-- How provider creation went within its deadline. -/
inductive BootOutcome where
  | booted
  | failed
  | timedOut

/-- A member of an app pool, as far as a sweep reads it. -/
structure AppReservation where
  sandboxId : SandboxId
  sessionId : SessionId
  starting : Bool
  operationExpiresAt : Nat

inductive WarmQuery where
  | getSession (project : ProjectId) (session : SessionId)
  | markSandboxReclaimed (project : ProjectId) (session : SessionId) (sandbox : SandboxId)
  | readAppPool (project : ProjectId) (notebook : NotebookId)
  | connectExisting (sandbox : SandboxId) (reference : Option String)
  | reconnectAndProbe (sandbox : SandboxId)
  | readReference (sandbox : SandboxId)
  | boot (sandbox : SandboxId) (profile : WarmPoolProfile)
  /-- The end of a boot that missed its deadline. -/
  | lateBoot (sandbox : SandboxId)
  | destroy (sandbox : SandboxId)
  /-- Which of two activities of one client goes on. -/
  | turn
deriving DecidableEq

@[reducible] def WarmAnswer : WarmQuery → Type
  | .getSession _ _ => Except HubError Session
  | .readAppPool _ _ => Except HubError (List AppReservation)
  | .readReference _ => Except HubError (Option String)
  | .boot _ _ => BootOutcome
  | .lateBoot _ => Unit
  | .turn => Bool
  | _ => Except HubError Unit

/-- One ownership record for each compute backend (`paths.warmPool`). -/
@[reducible] def WarmStore : Schema where
  Key := String
  Val := WarmPoolRecord
  Query := WarmQuery
  Answer := WarmAnswer

def askWarm (q : WarmQuery) : Hub WarmStore (WarmAnswer q) := Prog.perform (B := WarmStore) (.ask q)

variable (config : WarmPoolConfig) (backend : String) (record : WarmPoolRecord)

def getOrCreateWarmPool (key : String) : WarmPool :=
  (record.pools.find? fun pool => pool.key = key).getD { key := key }

/-- The record after the pool of that key was changed or pushed. -/
def setWarmPool (pool : WarmPool) : List WarmPool → List WarmPool
  | [] => [pool]
  | head :: rest => if head.key = pool.key then pool :: rest else head :: setWarmPool pool rest

def findMember (id : SandboxId) : Option WarmPoolMember :=
  (record.pools.flatMap fun pool => pool.members).find? fun member => member.sandboxId = id

/-- The members after the one `find` answers was changed in place. -/
def replaceFirst (id : SandboxId) (next : WarmPoolMember) :
    List WarmPoolMember → List WarmPoolMember
  | [] => []
  | member :: rest =>
    if member.sandboxId = id then next :: rest else member :: replaceFirst id next rest

/-- The pools after the member `findMember` answers was changed in place. -/
def replaceMember (id : SandboxId) (next : WarmPoolMember) : List WarmPool → List WarmPool
  | [] => []
  | pool :: rest =>
    if pool.members.any fun member => member.sandboxId = id then
      { pool with members := replaceFirst id next pool.members } :: rest
    else pool :: replaceMember id next rest

/-! ## The store -/

def storedRecord : Option (BucketObject WarmStore) → WarmPoolRecord
  | some object => object.value
  | none => {}

def readWarmPool : Hub WarmStore WarmPoolRecord := do
  let object ← bucketGet backend
  pure (storedRecord object)

def mutatePoolAttempt {α : Type} (backend : String)
    (update : WarmPoolRecord → Hub WarmStore (α × WarmPoolRecord)) : Hub WarmStore α := do
  let object ← bucketGet backend
  let outcome ← update (storedRecord object)
  if outcome.2 = storedRecord object then pure outcome.1
  else do
    let _ ← casPut backend outcome.2 (writeCondition object)
    pure outcome.1

def mutateWarmPool {α : Type} (backend : String)
    (update : WarmPoolRecord → Hub WarmStore (α × WarmPoolRecord)) : Hub WarmStore α :=
  withCasRetry defaultRetries (mutatePoolAttempt backend update)

def getMember (id : SandboxId) : Hub WarmStore (Option WarmPoolMember) := do
  let record ← readWarmPool backend
  pure (findMember record id)

/-- `apply` answers `none` to refuse. -/
def updateMember (member : WarmPoolMember) (state : MemberState)
    (apply : WarmPoolMember → Hub WarmStore (Option WarmPoolMember)) : Hub WarmStore Bool :=
  mutateWarmPool backend fun record =>
    match findMember record member.sandboxId with
    | none => pure (false, record)
    | some current =>
      if current.state ≠ state ∨ current.token ≠ member.token then pure (false, record)
      else do
        match ← apply current with
        | none => pure (false, record)
        | some next => pure (true, ⟨replaceMember member.sandboxId next record.pools⟩)

def withoutMember (member : WarmPoolMember) (pool : WarmPool) : WarmPool :=
  { pool with members := pool.members.filter fun item =>
      item.sandboxId ≠ member.sandboxId ∨ item.token ≠ member.token }

def removeMember (member : WarmPoolMember) : Hub WarmStore Unit :=
  mutateWarmPool backend fun record => pure ((), ⟨record.pools.map (withoutMember member)⟩)

/-! ## The service -/

def warmPoolMaxIdleMs : Nat := 30 * 60000
def claimTimeoutMs : Nat := 60000
def healthIntervalMs : Nat := 30000
def maxConcurrentCreations : Nat := 2

/-- What one replica's service is constructed with. -/
structure WarmPoolService where
  backend : String
  config : WarmPoolConfig
  /-- Whether the provider can reconnect. -/
  connectsExisting : Bool := true
  readsAppPools : Bool := true

structure WarmPoolClaim where
  member : WarmPoolMember
  profile : Option String

structure ClaimRequest where
  resources : Option ComputeResources := none
  profile : Option String := none
  image : Option String := none
  userHome : Bool := false
  restoreSnapshotId : Option String := none
  destination : Destination

variable (service : WarmPoolService) (destination : Destination) (key : String)
  (member : WarmPoolMember)

def isExpired : Hub WarmStore Bool := do
  let now ← dateNow
  pure (min (member.operationUntil : Int) member.readyUntil ≤ now)

def retireCurrent (abandonAssigned : Bool) (current : WarmPoolMember) :
    Hub WarmStore (Option WarmPoolMember) :=
  if current.assigned ∧ ¬ abandonAssigned then pure none
  else pure (some { current with state := .retiring })

def retire (abandonAssigned : Bool) : Hub WarmStore Bool :=
  updateMember backend member member.state (retireCurrent abandonAssigned)

/-- Tells the session of a destroyed sandbox, if there is one. -/
def reportReclaimed (current : WarmPoolMember) : Hub WarmStore Unit :=
  match current.destination with
  | none => pure ()
  | some destination =>
    Prog.tryCatch (do
      let session ← askWarm (.getSession destination.project destination.session) >>= orRaise
      if session.sandboxId = some current.sandboxId ∧ session.sandboxReclaimedAt = none then
        askWarm (.markSandboxReclaimed destination.project destination.session
          current.sandboxId) >>= orRaise
      else pure ()) fun err => if err.isNotFound then pure () else .raise err

/-- Re-reads the member: a health check or an old sweep must not destroy a claimed one. -/
def cleanup : Hub WarmStore Unit := do
  match ← getMember backend member.sandboxId with
  | none => pure ()
  | some current =>
    if current.state ≠ .retiring ∨ current.token ≠ member.token then pure ()
    else do
      askWarm (.destroy member.sandboxId) >>= orRaise
      reportReclaimed current
      removeMember backend current

/-! ### Claims -/

def matchesProfile (request : ClaimRequest) (item : WarmPoolProfile) : Bool :=
  item.name = request.profile ∧ item.image = request.image ∧
    request.resources.all (sameComputeResources item.resources)

/-- The profile whose pool serves the request, unless the pool is bypassed. -/
def servingProfile (request : ClaimRequest) : Option WarmPoolProfile :=
  if service.config.enabled ∧ ¬ request.userHome ∧ request.restoreSnapshotId = none ∧
      service.connectsExisting then
    service.config.profiles.find? (matchesProfile request)
  else none

def claimMember : Hub WarmStore WarmPoolMember := do
  let token ← createId
  let now ← dateNow
  pure { member with
    state := .claimed, token := token, operationUntil := now + claimTimeoutMs,
    destination := some destination }

/-- Claims the first member that is ready; answers it with the members afterwards. -/
def claimReady (destination : Destination) :
    List WarmPoolMember → Hub WarmStore (Option WarmPoolMember × List WarmPoolMember)
  | [] => pure (none, [])
  | item :: rest =>
    if item.state = .ready then do
      let now ← dateNow
      if (now : Int) < item.readyUntil then do
        let claimed ← claimMember destination item
        pure (some claimed, claimed :: rest)
      else do
        let outcome ← claimReady destination rest
        pure (outcome.1, item :: outcome.2)
    else do
      let outcome ← claimReady destination rest
      pure (outcome.1, item :: outcome.2)

def reserveUpdate (profile : WarmPoolProfile) (destination : Destination)
    (record : WarmPoolRecord) : Hub WarmStore (Option WarmPoolMember × WarmPoolRecord) :=
  match record.pools.find? fun pool => pool.key = profile.key with
  | none => pure (none, record)
  | some pool => do
    let outcome ← claimReady destination pool.members
    pure (outcome.1, ⟨setWarmPool { pool with members := outcome.2 } record.pools⟩)

def connect : Hub WarmStore Unit :=
  askWarm (.connectExisting member.sandboxId member.reconnectReference) >>= orRaise

/-- Connects to the claimed member, or retires it. -/
def connectClaimed (profile : WarmPoolProfile) (claimed : WarmPoolMember) :
    Hub WarmStore (Option WarmPoolClaim) :=
  Prog.tryCatch (do connect claimed; pure (some ⟨claimed, profile.name⟩)) fun _ => do
    ignoringErrors (do let _ ← retire backend claimed false; pure ())
    pure none

def reserve (request : ClaimRequest) : Hub WarmStore (Option WarmPoolClaim) :=
  match servingProfile service request with
  | none => pure none
  | some profile =>
    Prog.tryCatch (do
      match ← mutateWarmPool service.backend (reserveUpdate profile request.destination) with
      | none => pure none
      | some claimed => connectClaimed service.backend profile claimed) fun _ => pure none

def claimExpired : HubError := .conflict "The warm sandbox claim expired. Retry shortly."

def reconnectAndProbe (sandbox : SandboxId) : Hub WarmStore Unit :=
  askWarm (.reconnectAndProbe sandbox) >>= orRaise

def probe (claim : WarmPoolClaim) : Hub WarmStore Unit :=
  Prog.tryCatch (do
    reconnectAndProbe claim.member.sandboxId
    if ← isExpired claim.member then .raise claimExpired else pure ()) fun err => do
      ignoringErrors (do let _ ← retire service.backend claim.member false; pure ())
      .raise err

def claim (service : WarmPoolService) (request : ClaimRequest) :
    Hub WarmStore (Option WarmPoolClaim) := do
  match ← reserve service request with
  | none => pure none
  | some claim =>
    Prog.tryCatch (do probe service claim; pure (some claim)) fun _ => pure none

/-- A member without a destination is read as one: the source fails on it. -/
def destinationOf : Hub WarmStore Destination :=
  match member.destination with
  | some destination => pure destination
  | none => .raise .storage

def isHandoffSession (session : Session) : Bool :=
  session.sessionId = destination.session ∧ session.projectId = destination.project ∧
    session.notebookId = destination.notebook ∧ session.sandboxId = some member.sandboxId ∧
    session.status = .starting

def assignMember : Hub WarmStore (Option WarmPoolMember) := do
  if ← isExpired member then pure none else pure (some { member with assigned := true })

def handoff (claim : WarmPoolClaim) : Hub WarmStore Unit := do
  let destination ← destinationOf claim.member
  let session ← askWarm (.getSession destination.project destination.session) >>= orRaise
  if isHandoffSession destination claim.member session then do
    if ← updateMember service.backend claim.member .claimed assignMember then pure ()
    else .raise claimExpired
  else .raise (.conflict "The warm sandbox session is no longer starting")

def abandon (claim : WarmPoolClaim) : Hub WarmStore Unit := do
  let _ ← retire service.backend claim.member true
  cleanup service.backend claim.member

/-! ### Fills -/

structure CreationReservation where
  profile : WarmPoolProfile
  member : WarmPoolMember

/-- How long a new member stays ready. -/
def readyWindowMs : Int :=
  match config.providerLifetimeMs with
  | none => warmPoolMaxIdleMs
  | some lifetime => min (warmPoolMaxIdleMs : Int) (lifetime - config.minimumRemainingMs)

def createMembers (config : WarmPoolConfig) : Nat → Hub WarmStore (List WarmPoolMember)
  | 0 => pure []
  | count + 1 => do
    let now ← dateNow
    let sandboxId ← createId
    let token ← createId
    let rest ← createMembers config count
    pure ({
      sandboxId := sandboxId, state := .creating, token := token, createdAt := now,
      operationUntil := now + config.creationTimeoutMs,
      readyUntil := now + readyWindowMs config } :: rest)

def isSpare : Bool := member.state = .creating ∨ member.state = .ready

/-- The loop over the profiles, with the reservations made so far. -/
def reserveProfiles (config : WarmPoolConfig) :
    List WarmPoolProfile → List CreationReservation → WarmPoolRecord →
      Hub WarmStore (List CreationReservation × WarmPoolRecord)
  | [], reservations, record => pure (reservations, record)
  | profile :: rest, reservations, record => do
    let pool := getOrCreateWarmPool record profile.key
    let now ← dateNow
    if now < pool.retryAt then
      reserveProfiles config rest reservations ⟨setWarmPool pool record.pools⟩
    else do
      let available := pool.members.countP isSpare
      let members ← createMembers config
        (min (config.size - available) (maxConcurrentCreations - reservations.length))
      reserveProfiles config rest (reservations ++ members.map (⟨profile, ·⟩))
        ⟨setWarmPool { pool with members := pool.members ++ members } record.pools⟩

def reserveCreations : Hub WarmStore (List CreationReservation) :=
  mutateWarmPool service.backend (reserveProfiles service.config service.config.profiles [])

variable (creation : CreationReservation) (pool : WarmPool)

/-- Retires a creation unless it was claimed; one that left the record is put back. -/
def reclaimPool : WarmPool :=
  match pool.members.find? fun item => item.sandboxId = member.sandboxId with
  | none => { pool with members := pool.members ++ [{ member with state := .retiring }] }
  | some current =>
    if current.token = member.token ∧ current.state ≠ .claimed then
      { pool with
        members := replaceFirst member.sandboxId { current with state := .retiring } pool.members }
    else pool

def updatePool (change : WarmPool → Hub WarmStore WarmPool) : Hub WarmStore Unit :=
  mutateWarmPool backend fun record => do
    let pool ← change (getOrCreateWarmPool record key)
    pure ((), ⟨setWarmPool pool record.pools⟩)

def reclaimCreation : Hub WarmStore Unit := do
  updatePool service.backend creation.profile.key fun pool =>
    pure (reclaimPool creation.member pool)
  cleanup service.backend creation.member

def publishMember (reference : Option String)
    (current : WarmPoolMember) : Hub WarmStore (Option WarmPoolMember) := do
  if ← isExpired current then pure none
  else do
    let now ← dateNow
    pure (some { current with
      state := .ready, checkedAt := now,
      reconnectReference := reference <|> current.reconnectReference,
      sandboxDeadlineAt :=
        (config.providerLifetimeMs.map (now + ·)) <|> current.sandboxDeadlineAt })

def readReference (sandbox : SandboxId) : Hub WarmStore (Option String) :=
  askWarm (.readReference sandbox) >>= orRaise

/-- The part of `fill` after a successful boot. -/
def publishCreation : Hub WarmStore Unit := do
  let reference ← readReference creation.member.sandboxId
  if ← updateMember service.backend creation.member .creating
      (publishMember service.config reference) then
    updatePool service.backend creation.profile.key fun pool =>
      pure { pool with failures := 0, retryAt := 0 }
  else ignoringErrors (reclaimCreation service creation)

def backOff : Hub WarmStore WarmPool := do
  let now ← dateNow
  let failures := min (pool.failures + 1) 10
  pure { pool with
    failures := failures, retryAt := now + min 300000 (5000 * Nat.pow 2 (failures - 1)) }

/-- The part of `fill` after a boot that failed or missed its deadline. -/
def failCreation : Hub WarmStore Unit := do
  ignoringErrors (updatePool service.backend creation.profile.key backOff)
  ignoringErrors (reclaimCreation service creation)

/-- A provider create that finishes after the deadline is reclaimed. -/
def finishLate : Hub WarmStore Unit := do
  askWarm (.lateBoot creation.member.sandboxId)
  ignoringErrors (reclaimCreation service creation)

def sideBySide (p q : Hub WarmStore Unit) : Hub WarmStore Unit :=
  Prog.interleave (.ask .turn) id p q

def fill : Hub WarmStore Unit := do
  match ← askWarm (.boot creation.member.sandboxId creation.profile) with
  | .booted =>
    Prog.tryCatch (publishCreation service creation) fun _ =>
      ignoringErrors (reclaimCreation service creation)
  | .failed => failCreation service creation
  | .timedOut => sideBySide (finishLate service creation) (failCreation service creation)

/-! ### Sweeps -/

/-- Retires the first `excess` members that wait or boot. -/
def retireExcess : Nat → List WarmPoolMember → List WarmPoolMember
  | _, [] => []
  | excess, member :: rest =>
    if 0 < excess ∧ isSpare member then
      { member with state := .retiring } :: retireExcess (excess - 1) rest
    else member :: retireExcess excess rest

def desiredKeys : List String :=
  if config.enabled then config.profiles.map (·.key) else []

def trimPool : WarmPool :=
  let target := if pool.key ∈ desiredKeys config then config.size else 0
  { pool with members := retireExcess (pool.members.countP isSpare - target) pool.members }

/-- The session of a claimed member; a missing one is no error. -/
def findSession : Hub WarmStore (Option Session) :=
  Prog.tryCatch (do
    let session ← askWarm (.getSession destination.project destination.session) >>= orRaise
    pure (some session)) fun err => if err.isNotFound then pure none else .raise err

/-- An app pool reserved the member for a session that still starts. -/
def isReserved (member : WarmPoolMember) (destination : Destination) :
    List AppReservation → Hub WarmStore Bool
  | [] => pure false
  | reservation :: rest =>
    if reservation.sandboxId = member.sandboxId ∧ reservation.sessionId = destination.session ∧
        reservation.starting then do
      let now ← dateNow
      if now < reservation.operationExpiresAt then pure true
      else isReserved member destination rest
    else isReserved member destination rest

def readReservations : Hub WarmStore (List AppReservation) :=
  if service.readsAppPools then
    askWarm (.readAppPool destination.project destination.notebook) >>= orRaise
  else pure []

def retireAndCleanup : Hub WarmStore Unit := do
  let _ ← retire backend member false
  cleanup backend member

/-- Retires the member once its operation has run out. -/
def retireOverdue : Hub WarmStore Unit := do
  let now ← dateNow
  if now < member.operationUntil then pure () else retireAndCleanup backend member

def sweepUnowned (destination : Destination) : Hub WarmStore Unit := do
  let reservations ← readReservations service destination
  if ← isReserved member destination reservations then pure ()
  else retireOverdue service.backend member

/-- A visible session owns teardown; assignment follows publication, and retention removes only
reclaimed sessions. -/
def sweepClaimed : Hub WarmStore Unit := do
  let destination ← destinationOf member
  match ← findSession destination with
  | some session =>
    if session.sandboxId = some member.sandboxId then
      if session.sandboxReclaimedAt = none then pure () else removeMember service.backend member
    else sweepUnowned service member destination
  | none =>
    if member.assigned then removeMember service.backend member
    else sweepUnowned service member destination

def refreshMember (reference : Option String) (current : WarmPoolMember) :
    Hub WarmStore (Option WarmPoolMember) := do
  let now ← dateNow
  pure (some { current with
    checkedAt := now, reconnectReference := reference <|> current.reconnectReference })

/-- Whether the health check left the member alone. -/
def checkHealth : Hub WarmStore Bool :=
  Prog.tryCatch (do
    connect member
    reconnectAndProbe member.sandboxId
    let reference ← readReference member.sandboxId
    let _ ← updateMember backend member .ready (refreshMember reference)
    pure true) fun _ => do
      let _ ← retire backend member false
      pure false

/-- No profile wants the member's pool, or its time as a ready member is over. -/
def isUnwanted : Hub WarmStore Bool :=
  if key ∉ desiredKeys service.config then pure true
  else do
    let now ← dateNow
    pure (member.readyUntil ≤ now)

def sweepReady : Hub WarmStore Unit := do
  if ← isUnwanted service key member then retireAndCleanup service.backend member
  else do
    let now ← dateNow
    if healthIntervalMs ≤ now - member.checkedAt then do
      if ← checkHealth service.backend member then pure () else cleanup service.backend member
    else pure ()

def sweepMember : Hub WarmStore Unit :=
  match member.state with
  | .claimed => sweepClaimed service member
  | .creating => retireOverdue service.backend member
  | .ready => sweepReady service key member
  | .retiring => cleanup service.backend member

def sweepMembers (service : WarmPoolService) : List (String × WarmPoolMember) → Hub WarmStore Unit
  | [] => pure ()
  | (key, member) :: rest => do
    ignoringErrors (sweepMember service key member)
    sweepMembers service rest

/-- Every member of a record with the key of its pool. -/
def WarmPoolRecord.entries : List (String × WarmPoolMember) :=
  record.pools.flatMap fun pool => pool.members.map (pool.key, ·)

def fillAll (service : WarmPoolService) : List CreationReservation → Hub WarmStore Unit
  | [] => pure ()
  | creation :: rest => sideBySide (fill service creation) (fillAll service rest)

def sweep : Hub WarmStore Unit := do
  mutateWarmPool service.backend fun record =>
    pure ((), ⟨record.pools.map (trimPool service.config)⟩)
  let snapshot ← readWarmPool service.backend
  sweepMembers service snapshot.entries
  if service.config.enabled then do
    let reservations ← reserveCreations service
    fillAll service reservations
  else pure ()

end MarimoHub.Source
