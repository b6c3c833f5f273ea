import MarimoHub.Source.SessionService

/-!
# Editor claims and takeovers

The part of `services/runtime/SessionService.ts` that writes a notebook's editor claim:
claiming and releasing the persistent editor, the takeover protocol and its drain lease.
A missing time parses as NaN in the source, and every comparison with it is false.
-/

namespace MarimoHub.Source

open ObjectStore

def takeoverRequestTtlMs : Nat := 5 * 60 * 1000

def takeoverDrainLeaseMs : Nat := 10 * 60 * 1000

def takeoverDrainProgressTimeoutMs : Nat := 30 * 60 * 1000

def editSessionChanged : HubError :=
  .editSessionChanged "The editing session changed; refresh before taking over"

def takeoverInProgress : HubError :=
  .takeoverInProgress "An editing-session takeover is already in progress"

variable (project : ProjectId) (notebook : NotebookId)

/-- The compare-and-swap loop over the claim. -/
def mutateClaim (apply : EditorClaim → Hub Runtime (Option EditorClaim)) :
    Hub Runtime (ObjectMutationOutcome EditorClaim) :=
  mutateObjectWithOutcome (.editorClaim project notebook) parseEditorClaim apply
    .editorClaim (.notFound s!"Object _system/editors/{project}/{notebook}.json not found")
    defaultRetries

/-! ## Liveness -/

/-- The displaced holder stays in `sessionId` until the takeover completes. -/
def editorClaimHolder (claim : EditorClaim) (requestedBy : Option UserId) :
    Except HubError (Option SessionId) :=
  match claim.transfer with
  | none => .ok claim.sessionId
  | some transfer =>
    if transfer.phase ≠ .ready ∨ some transfer.requestedBy ≠ requestedBy then
      .error takeoverInProgress
    else .ok transfer.replacementSessionId

/-- A session whose sandbox may still run: ownership lasts until destruction is confirmed or
the provider guarantees expiry. -/
def isRetiring (session : Session) (now : Nat) : Bool :=
  session.sandboxId.isSome ∧ session.sandboxReclaimedAt = none ∧
    session.sandboxDeadlineAt.all (now < ·) ∧ isEnding session

/-- The holder as far as it is a live or retiring persistent editor of the notebook. -/
def liveEditor (session : Session) : Hub Runtime (Option Session) :=
  if session.notebookId ≠ notebook ∨ sessionMode session ≠ .edit ∨ session.ephemeral then pure none
  else do
    let now ← dateNow
    if isReusableSession session now then pure (some session)
    else do
      let later ← dateNow
      pure (if isRetiring session later then some session else none)

def getLiveEditorHolder : Option SessionId → Hub Runtime (Option Session)
  | none => pure none
  | some holder =>
    (do
      let session ← getSession project holder
      liveEditor notebook session).tryCatch fun err =>
        if err.isNotFound then pure none else .raise err

/-! ## Claiming and releasing -/

structure ClaimEditorResult where
  claimed : Bool
  claim : EditorClaim

structure ClaimEditorInput where
  sessionId : SessionId
  sharing : EditorSandboxSharing
  requestedBy : Option UserId

/-- The write of a claimant that found no live holder. -/
def replaceClaim (input : ClaimEditorInput)
    (now : Nat) (current : EditorClaim) (etag : Etag Runtime) : Hub Runtime ClaimEditorResult := do
  let next : EditorClaim :=
    match current.transfer with
    | some transfer =>
      { current with
        transfer := some { transfer with replacementSessionId := some input.sessionId } }
    | none => { sessionId := some input.sessionId, sharing := input.sharing, claimedAt := now }
  let _ ← casPut (.editorClaim project notebook) (.editorClaim next) (.ifMatch etag)
  pure ⟨true, next⟩

def claimOver (input : ClaimEditorInput)
    (now : Nat) (current : EditorClaim) (etag : Etag Runtime) : Hub Runtime ClaimEditorResult :=
  if current.sessionId = some input.sessionId then pure ⟨true, current⟩
  else
    match editorClaimHolder current input.requestedBy with
    | .error err => .raise err
    | .ok holder =>
      if holder = some input.sessionId then pure ⟨true, current⟩
      else do
        match ← getLiveEditorHolder project notebook holder with
        | some live => pure ⟨false, { current with sessionId := some live.sessionId }⟩
        | none => replaceClaim project notebook input now current etag

def claimAttempt (input : ClaimEditorInput) : Hub Runtime ClaimEditorResult := do
  let object ← bucketGet (.editorClaim project notebook)
  let now ← dateNow
  match object with
  | none => do
    let next : EditorClaim :=
      { sessionId := some input.sessionId, sharing := input.sharing, claimedAt := now }
    let _ ← casPut (.editorClaim project notebook) (.editorClaim next) .ifAbsent
    pure ⟨true, next⟩
  | some object => do
    let current ← parseEditorClaim object.value
    claimOver project notebook input now current object.etag

/-- A live holder always wins. -/
def claimEditor (input : ClaimEditorInput) : Hub Runtime ClaimEditorResult :=
  withCasRetry defaultRetries (claimAttempt project notebook input)

/-- Errors are logged; a lost write means that another request changed the claim. -/
def releaseEditorFor (session : Session) : Hub Runtime Unit :=
  if sessionMode session ≠ .edit ∨ session.ephemeral then pure ()
  else
    ignoringErrors do
      match ← bucketGet (.editorClaim session.projectId session.notebookId) with
      | none => pure ()
      | some object => do
        let claim ← parseEditorClaim object.value
        if claim.sessionId ≠ some session.sessionId ∨ claim.transfer.isSome then pure ()
        else do
          let now ← dateNow
          let free : EditorClaim := { claim with sessionId := none, claimedAt := now }
          let _ ← bucketPut (.editorClaim session.projectId session.notebookId)
            (.editorClaim free) (.ifMatch object.etag)
          pure ()

/-! ## Takeovers -/

structure ReserveTakeoverInput where
  takeoverId : String
  requestedBy : UserId
  expectedHolder : SessionId
  expectedActivity : ExpectedActivity

variable (transfer : Transfer)

/-- Whether a transfer is a request that was never acted on. -/
def abandonedRequest (now : Nat) : Bool :=
  transfer.phase = .requested ∧ transfer.requestedAt + takeoverRequestTtlMs ≤ now

variable (input : ReserveTakeoverInput)

def newTransfer (now : Nat) : Transfer where
  takeoverId := input.takeoverId
  requestedBy := input.requestedBy
  expectedActivity := input.expectedActivity
  phase := .requested
  requestedAt := now

variable (takeoverId leaseId : String) (claim : EditorClaim)

def reserveOver : Hub Runtime (Option EditorClaim) :=
  if claim.sessionId ≠ some input.expectedHolder then .raise editSessionChanged
  else do
    let now ← dateNow
    pure (some { claim with transfer := some (newTransfer input now) })

def applyReserve : Hub Runtime (Option EditorClaim) :=
  match claim.transfer with
  | none => reserveOver input claim
  | some transfer =>
    if transfer.takeoverId = input.takeoverId then
      if transfer.requestedBy ≠ input.requestedBy ∨ claim.sessionId ≠ some input.expectedHolder ∨
          transfer.expectedActivity ≠ input.expectedActivity then
        .raise (.editSessionChanged "The takeover ID was already used for another state")
      else pure none
    else do
      let now ← dateNow
      if abandonedRequest transfer now then reserveOver input claim
      else .raise takeoverInProgress

def reserveTakeoverWithOutcome : Hub Runtime (ObjectMutationOutcome EditorClaim) :=
  mutateClaim project notebook (applyReserve input)

/-- The transfer of the takeover `takeoverId`, if it is the claim's. -/
def transferOf (takeoverId : String) : Option Transfer :=
  claim.transfer.filter fun transfer => transfer.takeoverId = takeoverId

def Transfer.withoutLease : Transfer :=
  { transfer with
    drainLeaseId := none
    drainLeaseExpiresAt := none
    drainLeaseStage := none
    drainLeaseProgressDeadlineAt := none }

/-- `phase` is `draining` or `ready` in the source. -/
def applyPhase (takeoverId : String) (phase : TakeoverPhase) (replacement : Option SessionId)
    (claim : EditorClaim) : Hub Runtime (Option EditorClaim) :=
  match transferOf claim takeoverId with
  | none => .raise editSessionChanged
  | some transfer =>
    let cleared := if phase = .ready then transfer.withoutLease else transfer
    pure (some { claim with transfer := some { cleared with
      phase := phase
      replacementSessionId := replacement.or transfer.replacementSessionId } })

def setTakeoverPhase (takeoverId : String)
    (phase : TakeoverPhase) (replacement : Option SessionId) :
    Hub Runtime (ObjectMutationOutcome EditorClaim) :=
  mutateClaim project notebook (applyPhase takeoverId phase replacement)

def applyComplete (takeoverId : String) (replacement : SessionId) (claim : EditorClaim) :
    Hub Runtime (Option EditorClaim) :=
  match transferOf claim takeoverId with
  | none => .raise editSessionChanged
  | some transfer =>
    if transfer.phase ≠ .ready ∨ transfer.replacementSessionId ≠ some replacement then
      .raise editSessionChanged
    else do
      let now ← dateNow
      pure (some { sessionId := some replacement, sharing := .exclusive, claimedAt := now })

def completeTakeover (takeoverId : String)
    (replacement : SessionId) : Hub Runtime (ObjectMutationOutcome EditorClaim) :=
  mutateClaim project notebook (applyComplete takeoverId replacement)

def applyCancel (takeoverId : String) (claim : EditorClaim) : Hub Runtime (Option EditorClaim) :=
  if (transferOf claim takeoverId).any fun transfer => transfer.phase = .requested then
    pure (some { claim with transfer := none })
  else pure none

/-- Errors are logged. -/
def cancelRequestedTakeover (takeoverId : String) : Hub Runtime Unit :=
  ignoringErrors do
    let _ ← mutateClaim project notebook (applyCancel takeoverId)
    pure ()

def readEditorClaim : Hub Runtime (Option EditorClaim) := do
  match ← bucketGet (.editorClaim project notebook) with
  | none => pure none
  | some object => do
    let claim ← parseEditorClaim object.value
    pure (some claim)

/-- An abandoned request is cancelled before the claim is handed out. -/
def getEditorClaim : Hub Runtime (Option EditorClaim) := do
  match ← readEditorClaim project notebook with
  | none => pure none
  | some claim =>
    match claim.transfer with
    | none => pure (some claim)
    | some transfer => do
      let now ← dateNow
      if abandonedRequest transfer now then do
        cancelRequestedTakeover project notebook transfer.takeoverId
        readEditorClaim project notebook
      else pure (some claim)

/-! ## The drain lease -/

/-- The transfer of a takeover that is draining. -/
def drainingTransfer (takeoverId : String) : Option Transfer :=
  (transferOf claim takeoverId).filter fun transfer => transfer.phase = .draining

/-- The lease, its expiry at `now`, and the time to the next stage. -/
def Transfer.leased (leaseId : String) (stage : TakeoverDrainStage) (now : Nat) : Transfer :=
  { transfer with
    drainLeaseId := some leaseId
    drainLeaseStage := some stage
    drainLeaseExpiresAt := some (now + takeoverDrainLeaseMs)
    drainLeaseProgressDeadlineAt := some (now + takeoverDrainProgressTimeoutMs) }

def hasActiveLease (now : Nat) : Bool :=
  transfer.drainLeaseId.isSome ∧ transfer.drainLeaseExpiresAt.any (now < ·)

def applyAcquire : Hub Runtime (Option EditorClaim) :=
  match drainingTransfer claim takeoverId with
  | none => .raise editSessionChanged
  | some transfer => do
    let now ← dateNow
    if hasActiveLease transfer now then pure none
    else do
      let now ← dateNow
      pure (some { claim with transfer := some (transfer.leased leaseId .capturing now) })

/-- What the callers of the lease operations are told: the claim they ended with names
their lease, which has not expired. -/
def holdsLease (leaseId : String) (now : Nat) : Bool :=
  claim.transfer.any fun transfer =>
    transfer.drainLeaseId = some leaseId ∧ transfer.drainLeaseExpiresAt.any (now < ·)

def acquireTakeoverDrainLease : Hub Runtime Bool := do
  let outcome ← mutateClaim project notebook (applyAcquire takeoverId leaseId)
  let now ← dateNow
  pure (holdsLease outcome.value leaseId now)

/-- A renewal does not move the progress deadline. -/
def applyRenew : Hub Runtime (Option EditorClaim) :=
  match drainingTransfer claim takeoverId with
  | none => .raise editSessionChanged
  | some transfer => do
    let now ← dateNow
    match transfer.drainLeaseExpiresAt,
        transfer.drainLeaseProgressDeadlineAt.or transfer.drainLeaseExpiresAt with
    | some expiresAt, some deadline =>
      if transfer.drainLeaseId ≠ some leaseId ∨ expiresAt ≤ now ∨ deadline ≤ now then pure none
      else
        pure (some { claim with transfer := some { transfer with
          drainLeaseExpiresAt := some (min (now + takeoverDrainLeaseMs) deadline) } })
    | _, _ => pure none

def renewTakeoverDrainLease : Hub Runtime Bool := do
  let outcome ← mutateClaim project notebook (applyRenew takeoverId leaseId)
  pure outcome.written

def applyAdvance (stage : TakeoverDrainStage) (claim : EditorClaim) :
    Hub Runtime (Option EditorClaim) :=
  match drainingTransfer claim takeoverId with
  | none => .raise editSessionChanged
  | some transfer => do
    let now ← dateNow
    if transfer.drainLeaseId ≠ some leaseId ∨ ¬ transfer.drainLeaseExpiresAt.any (now < ·) then
      pure none
    else if transfer.drainLeaseStage.any fun current =>
        takeoverDrainStageOrder stage ≤ takeoverDrainStageOrder current then pure none
    else pure (some { claim with transfer := some (transfer.leased leaseId stage now) })

def advanceTakeoverDrainLease (stage : TakeoverDrainStage) : Hub Runtime Bool := do
  let outcome ← mutateClaim project notebook (applyAdvance takeoverId leaseId stage)
  if outcome.value.transfer.any fun transfer =>
      transfer.drainLeaseId = some leaseId ∧ transfer.drainLeaseStage = some stage then do
    let now ← dateNow
    pure (holdsLease outcome.value leaseId now)
  else pure false

def applyFinish : Hub Runtime (Option EditorClaim) :=
  match drainingTransfer claim takeoverId with
  | none => .raise editSessionChanged
  | some transfer =>
    if transfer.drainLeaseId ≠ some leaseId then .raise editSessionChanged
    else pure (some { claim with transfer := some { transfer.withoutLease with phase := .ready } })

def finishTakeoverDrainLease : Hub Runtime Unit := do
  let _ ← mutateClaim project notebook (applyFinish takeoverId leaseId)
  pure ()

def applyReleaseLease : Hub Runtime (Option EditorClaim) :=
  match transferOf claim takeoverId with
  | none => pure none
  | some transfer =>
    if transfer.drainLeaseId ≠ some leaseId then pure none
    else pure (some { claim with transfer := some transfer.withoutLease })

/-- Errors are logged. -/
def releaseTakeoverDrainLease : Hub Runtime Unit :=
  ignoringErrors do
    let _ ← mutateClaim project notebook (applyReleaseLease takeoverId leaseId)
    pure ()

end MarimoHub.Source
