import MarimoHub.Source.Runtime

/-!
# Proposals and their change requests

`services/content/NotebookProposalService.ts` on the proposals of one notebook: capture,
publication and the head pointer of a change request, which is kept in the publication of the
proposal that opened it. The source-control provider is asked; a call that fails there raises.
What a capture finds in the sandbox and in the synced version is part of the call, and so is a
bound on the length of the target chain, which the source does not have. Metrics, the operational
log and the payload sweep are left out.
-/

namespace MarimoHub.Source.Proposals

open ObjectStore

abbrev ProposalId : Type := Nat
abbrev Commit : Type := Nat

/-! ## Records -/

/-- `GitSourceRevisionSchema` with a provider. -/
structure ProposalSource where
  provider : String
  repo : String
  branch : String
  rootPath : String
  entryNotebook : String
  commit : String
deriving DecidableEq

inductive ChangeOperation where
  | add
  | modify
  | delete
deriving DecidableEq

structure ProposalChange where
  path : String
  operation : ChangeOperation
  sizeBytes : Nat
  sha256 : String
deriving DecidableEq

inductive CaptureStrategy where
  | gitWorkingTree
  | entryNotebook
deriving DecidableEq

/-- `NotebookProposalSchema`. -/
structure NotebookProposal where
  proposalId : ProposalId
  notebookId : NotebookId
  sessionId : SessionId
  author : UserId
  createdAt : Nat
  baseVersionId : VersionId
  captureStrategy : CaptureStrategy
  source : ProposalSource
  targetProposalId : Option ProposalId
  changes : List ProposalChange
deriving DecidableEq

/-- `OpenChangeRequestResult`. -/
structure ChangeRequest where
  number : Nat
  url : String
  headBranch : String
  headCommit : Commit
deriving DecidableEq

/-- `ChangeRequestPublicationSchema`. -/
structure ChangeRequestPublication extends ChangeRequest where
  provider : String
deriving DecidableEq

/-- `ProposalPublicationSchema`. -/
inductive ProposalPublication where
  | pending (updatedAt : Nat)
  | published (updatedAt : Nat) (changeRequest : ChangeRequestPublication)
deriving DecidableEq

/-- `ProposalPayloadMarkerSchema`. -/
structure ProposalPayloadMarker where
  proposalId : ProposalId
  projectId : ProjectId
  notebookId : NotebookId
  expiresAt : Nat
  changeIndexes : List Nat
deriving DecidableEq

inductive ProposalKey where
  | proposal (id : ProposalId)
  | publication (id : ProposalId)
  | marker (id : ProposalId)
  | change (id : ProposalId) (index : Nat)
deriving DecidableEq

inductive ProposalVal where
  | proposal (proposal : NotebookProposal)
  | publication (publication : ProposalPublication)
  | marker (marker : ProposalPayloadMarker)
  | content (content : String)
deriving DecidableEq

/-- `SourceControlChange`. -/
structure SourceControlChange where
  path : String
  operation : ChangeOperation
  content : Option String
deriving DecidableEq

/-- `SourceControlCommitIdentity`. -/
structure CommitIdentity where
  name : String
  email : String
deriving DecidableEq

/-- What the provider is told besides the change request. -/
structure PublishDetails where
  repository : String
  baseBranch : String
  baseCommit : String
  title : String
  body : String
  coAuthor : Option CommitIdentity
  changes : List SourceControlChange
deriving DecidableEq

inductive ProviderQuery where
  | openChangeRequest (headBranch : String) (draft : Bool) (details : PublishDetails)
  | updateChangeRequest (changeRequest : ChangeRequest) (details : PublishDetails)
deriving DecidableEq

@[reducible] def ProposalStore : Schema where
  Key := ProposalKey
  Val := ProposalVal
  Query := ProviderQuery
  Answer := fun _ => Except HubError ChangeRequest

/-- Code of other packages that is only called. -/
structure ProposalEngine where
  proposalSha256 : String → String
  byteLength : String → Nat
  isSafeWorkspacePath : String → Bool

/-! ## Reading -/

def parseProposal : ProposalVal → Hub ProposalStore NotebookProposal
  | .proposal proposal => pure proposal
  | _ => .raise .storedObject

def parsePublication : ProposalVal → Hub ProposalStore ProposalPublication
  | .publication publication => pure publication
  | _ => .raise .storedObject

def parseMarker : ProposalVal → Hub ProposalStore ProposalPayloadMarker
  | .marker marker => pure marker
  | _ => .raise .storedObject

/-- `NotebookProposalRecord`. -/
structure ProposalRecord where
  proposal : NotebookProposal
  publication : ProposalPublication

variable (engine : ProposalEngine) (id : ProposalId)

def proposalNotFound : HubError := .notFound s!"Proposal {id} not found"

def parseRecord : Option (BucketObject ProposalStore) →
    Option (BucketObject ProposalStore) → Hub ProposalStore ProposalRecord
  | some proposalObject, some publicationObject => do
    let proposal ← parseProposal proposalObject.value
    let publication ← parsePublication publicationObject.value
    pure ⟨proposal, publication⟩
  | _, _ => .raise (proposalNotFound id)

def getProposal : Hub ProposalStore ProposalRecord := do
  let proposalObject ← bucketGet (.proposal id)
  let publicationObject ← bucketGet (.publication id)
  parseRecord id proposalObject publicationObject

def defaultProposalPayloadRetentionMs : Nat := 24 * 60 * 60 * 1000

variable (proposal : NotebookProposal)

def assertPayloadNotExpired : Hub ProposalStore Unit := do
  let now ← dateNow
  if proposal.createdAt + defaultProposalPayloadRetentionMs ≤ now then
    .raise (.proposalRetryRequired "The proposal payload expired; retry with a new idempotency key")
  else pure ()

def isDelete (change : ProposalChange) : Bool := change.operation = .delete

/-! ## Capture -/

structure CaptureInput where
  projectId : ProjectId
  notebookId : NotebookId
  proposalId : Option ProposalId
  session : Session
  author : UserId
  targetProposalId : Option ProposalId
  /-- The source revision of the session. -/
  source : Except HubError ProposalSource
  /-- What `captureProposalChanges` finds. -/
  captured : Except HubError (CaptureStrategy × List (ProposalChange × Option String))

structure CaptureResult where
  proposal : NotebookProposal
  created : Bool
deriving DecidableEq

variable (provider : String) (input : CaptureInput)

def assertProposalRetry : Hub ProposalStore Unit :=
  if proposal.sessionId ≠ input.session.sessionId ∨ proposal.author ≠ input.author then
    .raise (.conflict "The idempotency key belongs to a different proposal")
  else if proposal.notebookId ≠ input.notebookId ∨
      some proposal.baseVersionId ≠ input.session.sourceVersionId ∨
      proposal.targetProposalId ≠ input.targetProposalId then
    .raise (.conflict "The idempotency key belongs to a different source revision")
  else pure ()

/-- Whether every content object from the index on is stored. -/
def hasContents (id : ProposalId) : Nat → List ProposalChange → Hub ProposalStore Bool
  | _, [] => pure true
  | index, change :: rest =>
    if isDelete change then hasContents id (index + 1) rest
    else do
      let object ← bucketGet (.change id index)
      let others ← hasContents id (index + 1) rest
      pure (object.isSome && others)

def hasCompletePayload : Hub ProposalStore Bool :=
  hasContents proposal.proposalId 0 proposal.changes

/-- The proposal of an earlier attempt, if it needs no further capture. -/
def reusedProposal (id : ProposalId) : Hub ProposalStore (Option CaptureResult) := do
  let record ← getProposal id
  assertProposalRetry record.proposal input
  match record.publication with
  | .published _ _ => pure (some ⟨record.proposal, false⟩)
  | .pending _ => do
    assertPayloadNotExpired record.proposal
    let complete ← hasCompletePayload record.proposal
    pure (if complete then some ⟨record.proposal, false⟩ else none)

def findReusable : Hub ProposalStore (Option CaptureResult) :=
  match input.proposalId with
  | none => pure none
  | some id => (reusedProposal input id).tryCatch fun error =>
    if error.isNotFound then pure none else .raise error

def canPropose : Bool :=
  input.session.projectId = input.projectId ∧ input.session.notebookId = input.notebookId ∧
    input.session.status = .running ∧ sessionMode input.session = .edit ∧ ¬ input.session.ephemeral

def chooseProposalId : Option ProposalId → Hub ProposalStore ProposalId
  | some id => pure id
  | none => createId

/-- The manifest is the claim of an idempotency key: the first one stays. -/
def claimManifest : Hub ProposalStore (NotebookProposal × Bool) := do
  let written ← putIfAbsent (.proposal proposal.proposalId) (.proposal proposal)
  if written then pure (proposal, true)
  else
    match ← bucketGet (.proposal proposal.proposalId) with
    | none => .raise (.conflict "Proposal capture raced with another request")
    | some existing => do
      let captured ← parseProposal existing.value
      assertProposalRetry captured input
      pure (captured, false)

def changeIndexes (changes : List ProposalChange) : List Nat :=
  changes.zipIdx.filterMap fun entry => if isDelete entry.1 then none else some entry.2

def claimMarker (marker : ProposalPayloadMarker) : Hub ProposalStore Unit := do
  let written ← putIfAbsent (.marker id) (.marker marker)
  if written then pure ()
  else
    match ← bucketGet (.marker id) with
    | none => .raise (.conflict "Proposal retention marker raced with another request")
    | some existing => do
      let stored ← parseMarker existing.value
      if stored ≠ marker then
        .raise (.conflict "Proposal retention marker does not match the proposal")
      else pure ()

/-- Content that is stored already has to be the content captured. -/
def putContent (index : Nat) (change : ProposalChange)
    (content : String) : Hub ProposalStore Unit := do
  let written ← putIfAbsent (.change id index) (.content content)
  if written then pure ()
  else
    match ← bucketGet (.change id index) with
    | some ⟨.content bytes, _⟩ =>
      if engine.byteLength bytes ≠ change.sizeBytes ∨
          engine.proposalSha256 bytes ≠ change.sha256 then
        .raise (.unavailable "Stored proposal content failed its integrity check")
      else pure ()
    | some _ => .raise .storedObject
    | none => .raise (.conflict "Proposal content raced with another request")

def putContents (engine : ProposalEngine) (id : ProposalId) :
    Nat → List (ProposalChange × Option String) → Hub ProposalStore Unit
  | _, [] => pure ()
  | index, (change, content) :: rest =>
    if isDelete change then putContents engine id (index + 1) rest
    else
      match content with
      | none => .raise (.conflict s!"Captured proposal change {index} has no content")
      | some content => do
        putContent engine id index change content
        putContents engine id (index + 1) rest

/-- The publication of a proposal starts as pending; one that is there is kept. -/
def claimPublication (createdAt : Nat) : Hub ProposalStore Unit := do
  let written ← putIfAbsent (.publication id) (.publication (.pending createdAt))
  if written then pure ()
  else
    match ← bucketGet (.publication id) with
    | none => .raise (.conflict "Proposal state raced with another request")
    | some existing => do
      let _ ← parsePublication existing.value
      pure ()

/-- The step `write_proposal`. -/
def writeProposal (contents : List (ProposalChange × Option String)) (input : CaptureInput) :
    Hub ProposalStore CaptureResult := do
  let (captured, created) ← claimManifest proposal input
  if captured.captureStrategy ≠ proposal.captureStrategy ∨ captured.changes ≠ proposal.changes then
    .raise (.conflict "The idempotency key is already capturing different workspace content")
  else do
    assertPayloadNotExpired captured
    claimMarker proposal.proposalId
      { proposalId := captured.proposalId, projectId := input.projectId
        notebookId := input.notebookId
        expiresAt := captured.createdAt + defaultProposalPayloadRetentionMs
        changeIndexes := changeIndexes captured.changes }
    putContents engine proposal.proposalId 0 contents
    claimPublication proposal.proposalId captured.createdAt
    pure ⟨captured, created⟩

def captureNew : Hub ProposalStore CaptureResult :=
  if ¬ canPropose input then
    .raise (.conflict "Only a running persistent editor session can open a proposal")
  else
    match input.session.sourceVersionId, input.source, input.captured with
    | none, _, _ => .raise (.conflict "The session has no synced source revision")
    | _, .error error, _ => .raise error
    | _, _, .error error => .raise error
    | some version, .ok source, .ok (strategy, contents) =>
      if contents.isEmpty then .raise (.conflict "The notebook workspace has no changes")
      else do
        let id ← chooseProposalId input.proposalId
        let createdAt ← dateNow
        writeProposal engine
          { proposalId := id, notebookId := input.notebookId
            sessionId := input.session.sessionId, author := input.author, createdAt := createdAt
            baseVersionId := version, captureStrategy := strategy, source := source
            targetProposalId := input.targetProposalId, changes := contents.map Prod.fst }
              contents input

def captureProposalWithOutcome : Hub ProposalStore CaptureResult := do
  match ← findReusable input with
  | some result => pure result
  | none => captureNew engine input

/-! ## The target of an update -/

def proposalsShareChangeRequest (proposal target : NotebookProposal) : Bool :=
  target.sessionId = proposal.sessionId ∧ target.author = proposal.author ∧
    target.baseVersionId = proposal.baseVersionId ∧ target.source = proposal.source

/-- `PublishedChangeRequestTarget`. -/
structure PublishedTarget where
  rootProposalId : ProposalId
  changeRequest : ChangeRequest
  observedHeadCommits : List Commit

/-- The variables of the loop over the chain. -/
structure TargetWalk where
  child : NotebookProposal
  visited : List ProposalId
  rootProposalId : Option ProposalId
  changeRequest : Option ChangeRequest
  newestUpdatedAt : Nat
  observedHeadCommits : List Commit

variable (result : ChangeRequest) (published : ChangeRequestPublication)

def differentRequest (changeRequest : ChangeRequest) : Bool :=
  published.number ≠ changeRequest.number ∨ published.url ≠ changeRequest.url ∨
    published.headBranch ≠ changeRequest.headBranch

/-- One link of the chain. -/
def TargetWalk.link (walk : TargetWalk) (targetId : ProposalId) (target : NotebookProposal)
    (updatedAt : Nat) (published : ChangeRequestPublication) : TargetWalk :=
  let newer := walk.changeRequest.isNone ∨ walk.newestUpdatedAt < updatedAt
  { child := target
    visited := targetId :: walk.visited
    rootProposalId := some targetId
    changeRequest := if newer then some published.toChangeRequest else walk.changeRequest
    newestUpdatedAt := if newer then updatedAt else walk.newestUpdatedAt
    observedHeadCommits := published.headCommit :: walk.observedHeadCommits }

def walkTargets (provider : String) : Nat → TargetWalk → Option ProposalId →
    Hub ProposalStore TargetWalk
  | _, walk, none => pure walk
  | 0, _, some _ => .raise .storage
  | bound + 1, walk, some targetId =>
    if targetId ∈ walk.visited then
      .raise (.conflict "The target proposal chain contains a cycle")
    else do
      let target ← getProposal targetId
      match target.publication with
      | .pending _ => .raise (.conflict "The target proposal has no published change request")
      | .published updatedAt published =>
        if ¬ proposalsShareChangeRequest walk.child target.proposal then
          .raise (.conflict "The target proposal belongs to a different change request")
        else if published.provider ≠ provider then
          .raise (.conflict "The target proposal uses a different source-control provider")
        else if walk.changeRequest.any (differentRequest published) then
          .raise (.conflict "The target proposal chain contains different change requests")
        else
          walkTargets provider bound (walk.link targetId target.proposal updatedAt published)
            target.proposal.targetProposalId

def resolvePublishedChangeRequestTarget (bound : Nat) (proposal : NotebookProposal)
    (provider : String) : Hub ProposalStore PublishedTarget := do
  let walk ← walkTargets provider bound
    { child := proposal, visited := [proposal.proposalId], rootProposalId := none
      changeRequest := none, newestUpdatedAt := 0, observedHeadCommits := [] }
    proposal.targetProposalId
  match walk.rootProposalId, walk.changeRequest with
  | some root, some changeRequest => pure ⟨root, changeRequest, walk.observedHeadCommits⟩
  | _, _ => .raise (.conflict "The proposal has no target change request")

/-! ## The head pointer -/

inductive AdvanceMode where
  | publish
  | replay
deriving DecidableEq

/-- What an advance is made from. -/
structure Advance where
  result : ChangeRequest
  provider : String
  observedHeadCommits : List Commit
  sourceProposalCreatedAt : Nat
  mode : AdvanceMode

/-- Whether the pointer stays although it is at another commit. -/
def Advance.holdsBack (advance : Advance) (updatedAt : Nat) (current : ChangeRequestPublication) :
    Bool :=
  current.headCommit ∉ advance.observedHeadCommits ∨
    (advance.mode = .replay ∧ advance.sourceProposalCreatedAt < updatedAt)

def Advance.apply (advance : Advance) : ProposalPublication →
    Hub ProposalStore (Option ProposalPublication)
  | .pending _ => .raise (.conflict "The target proposal has no published change request")
  | .published updatedAt current =>
    if current.provider ≠ advance.provider ∨ differentRequest current advance.result then
      .raise (.conflict "The target proposal changed to a different change request")
    else if current.headCommit = advance.result.headCommit then pure none
    else if advance.holdsBack updatedAt current then pure none
    else do
      let now ← dateNow
      pure (some (.published (max now (max (updatedAt + 1) (advance.sourceProposalCreatedAt + 1)))
        { current with headCommit := advance.result.headCommit }))

def publicationNotFound : HubError :=
  .notFound s!"Object proposals/{id}/publication.json not found"

def advanceChangeRequestHead (root : ProposalId) (advance : Advance) : Hub ProposalStore Unit := do
  let _ ← mutateObject (.publication root) parsePublication advance.apply
    .publication (publicationNotFound root) defaultRetries
  pure ()

/-! ## Publication -/

structure Publisher where
  provider : String
  /-- Whether the provider has `updateChangeRequest`. -/
  canUpdate : Bool

structure PublishInput where
  proposalId : ProposalId
  publisher : Option Publisher
  title : String
  body : String
  coAuthor : Option CommitIdentity
  /-- The longest target chain that is followed. -/
  bound : Nat

/-- The advance a publication makes. -/
def publishAdvance (target : PublishedTarget) : Advance where
  result := published.toChangeRequest
  provider := provider
  observedHeadCommits := target.observedHeadCommits
  sourceProposalCreatedAt := proposal.createdAt
  mode := .publish

/-- The advance a replay makes. -/
def replayAdvance (target : PublishedTarget) : Advance :=
  { publishAdvance proposal published.provider published target with mode := .replay }

/-- The repair of the head pointer by a replay. -/
def repairHead (bound : Nat) (proposal : NotebookProposal) (published : ChangeRequestPublication) :
    Hub ProposalStore Unit := do
  let target ← resolvePublishedChangeRequestTarget bound proposal published.provider
  advanceChangeRequestHead target.rootProposalId (replayAdvance proposal published target)

/-- A replay: the recorded result, with how the repair of the pointer went. -/
def replayPublished (bound : Nat) (record : ProposalRecord) :
    Hub ProposalStore (Option (ChangeRequest × Except HubError Unit)) :=
  match record.publication with
  | .pending _ => pure none
  | .published _ published =>
    if record.proposal.targetProposalId.isSome then do
      let repaired ← settled (repairHead bound record.proposal published)
      pure (some (published.toChangeRequest, repaired))
    else pure (some (published.toChangeRequest, .ok ()))

/-- The beginning of a publication: a proposal that is published already is replayed. -/
def readOrReplay (input : PublishInput) :
    Hub ProposalStore (ProposalRecord × Option (ChangeRequest × Except HubError Unit)) := do
  let record ← getProposal input.proposalId
  let replayed ← replayPublished input.bound record
  pure (record, replayed)

def repositoryPath (rootPath path : String) : Hub ProposalStore String :=
  let joined := if rootPath = "" then path else rootPath ++ "/" ++ path
  if engine.isSafeWorkspacePath joined then pure joined
  else .raise (.validation s!"Invalid proposal path: {joined}")

def readChange (rootPath : String) (index : Nat)
    (change : ProposalChange) : Hub ProposalStore SourceControlChange :=
  if isDelete change then do
    let path ← repositoryPath engine rootPath change.path
    pure ⟨path, .delete, none⟩
  else do
    match ← bucketGet (.change id index) with
    | none => .raise (.notFound s!"Proposal change {index} not found")
    | some ⟨.content content, _⟩ =>
      if engine.byteLength content ≠ change.sizeBytes ∨
          engine.proposalSha256 content ≠ change.sha256 then
        .raise (.unavailable s!"Proposal change {index} failed its integrity check")
      else do
        let path ← repositoryPath engine rootPath change.path
        pure ⟨path, change.operation, some content⟩
    | some _ => .raise .storedObject

def readChanges (engine : ProposalEngine) (id : ProposalId) (rootPath : String) :
    Nat → List ProposalChange → Hub ProposalStore (List SourceControlChange)
  | _, [] => pure []
  | index, change :: rest => do
    let here ← readChange engine id rootPath index change
    let others ← readChanges engine id rootPath (index + 1) rest
    pure (here :: others)

def askProvider (query : ProviderQuery) : Hub ProposalStore ChangeRequest := do
  match ← Prog.perform (.ask query) with
  | .ok result => pure result
  | .error error => .raise error

/-- `ChangeRequestPublicationSchema.safeParse`, as far as it can fail. -/
def validResult : Bool :=
  provider ≠ "" ∧ 0 < result.number ∧ "https://".toList.isPrefixOf result.url.toList ∧
  result.headBranch ≠ ""

/-- Whether a result is the change request that was to be updated. -/
def sameRequest (expected : Option ChangeRequest) (result : ChangeRequest) : Bool :=
  expected.all fun request => result.number = request.number ∧ result.url = request.url

/-- What the provider produced, and the target of the update if it was one. -/
structure ProviderResult where
  result : ChangeRequest
  headBranch : String
  target : Option PublishedTarget

/-- The call of the provider. -/
def publishToProvider (input : PublishInput) (publisher : Publisher) (proposal : NotebookProposal)
    (details : PublishDetails) : Hub ProposalStore ProviderResult :=
  if proposal.targetProposalId.isSome then do
    let target ← resolvePublishedChangeRequestTarget input.bound proposal publisher.provider
    if ¬ publisher.canUpdate then
      .raise (.unavailable s!"Updating change requests is not configured for {publisher.provider}")
    else do
      let result ← askProvider (.updateChangeRequest target.changeRequest details)
      pure ⟨result, target.changeRequest.headBranch, some target⟩
  else do
    let headBranch := s!"marimohub/{proposal.notebookId}/{proposal.proposalId}"
    let result ← askProvider (.openChangeRequest headBranch true details)
    pure ⟨result, headBranch, none⟩

def applyPublished : ProposalPublication → Hub ProposalStore (Option ProposalPublication)
  | .published _ _ => pure none
  | .pending _ => do
    let now ← dateNow
    pure (some (.published now ⟨result, provider⟩))

def recordPublication : Hub ProposalStore ProposalPublication :=
  mutateObject (.publication id) parsePublication (applyPublished provider result)
    .publication (publicationNotFound id) defaultRetries

/-- What a publication does after the provider has answered. -/
def finishPublication (publisher : Publisher) (proposal : NotebookProposal) (id : ProposalId)
    (outcome : ProviderResult) : Hub ProposalStore ChangeRequest := do
  let expected := outcome.target.map PublishedTarget.changeRequest
  if ¬ validResult publisher.provider outcome.result ∨
      outcome.result.headBranch ≠ outcome.headBranch ∨ ¬ sameRequest expected outcome.result then
    .raise (.unavailable "Source-control provider returned an invalid change request")
  else
    match ← recordPublication id publisher.provider outcome.result with
    | .pending _ => .raise (.conflict "Proposal publication did not complete")
    | .published _ published =>
      if published.provider ≠ publisher.provider ∨ published.headBranch ≠ outcome.headBranch ∨
          ¬ sameRequest expected published.toChangeRequest then
        .raise (.unavailable "Stored publication contains an invalid change request")
      else
        match outcome.target with
        | none => pure published.toChangeRequest
        | some target => do
          advanceChangeRequestHead target.rootProposalId
            (publishAdvance proposal publisher.provider published target)
          pure published.toChangeRequest

def publishPending (input : PublishInput) (proposal : NotebookProposal) :
    Hub ProposalStore ChangeRequest := do
  assertPayloadNotExpired proposal
  match input.publisher with
  | none => .raise (.unavailable
      s!"Change-request publishing is not configured for {proposal.source.provider}")
  | some publisher =>
    if publisher.provider ≠ proposal.source.provider then
      .raise (.conflict s!"No publisher is configured for {proposal.source.provider}")
    else do
      let changes ← readChanges engine input.proposalId proposal.source.rootPath 0 proposal.changes
      let outcome ← publishToProvider input publisher proposal
        { repository := proposal.source.repo, baseBranch := proposal.source.branch
          baseCommit := proposal.source.commit, title := input.title, body := input.body
          coAuthor := input.coAuthor, changes := changes }
      finishPublication publisher proposal input.proposalId outcome

def publishChangeRequest (input : PublishInput) : Hub ProposalStore ChangeRequest := do
  match ← readOrReplay input with
  | (_, some (result, _)) => pure result
  | (record, none) => publishPending engine input record.proposal

end MarimoHub.Source.Proposals
