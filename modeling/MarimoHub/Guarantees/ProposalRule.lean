import MarimoHub.ObjectStore.Record
import MarimoHub.Source.NotebookProposals

/-!
# What the calls on the proposals of a change request do

Captures and publications of proposals that target a change request, each call a client of its
own. A proposal is created once and never changed (`proposalWriter`). A publication is created as
pending, recorded once the provider has answered, and the publication of the root is advanced
(`PublicationChange`): by a publication, from heads read before the provider was asked, or by a
replay, if the pointer is not newer than the proposal (`Basis`). `proposalCall_emits` derives this
from the calls' code.
-/

namespace MarimoHub.Guarantees.Proposals

open ObjectStore Source Source.Proposals Prog

/-- A capture is one of a proposal with a target. -/
inductive ProposalCall where
  | capture (target : ProposalId) (input : CaptureInput)
  | publish (input : PublishInput)

inductive ProposalResult where
  | captured (result : CaptureResult)
  | published (changeRequest : ChangeRequest)
deriving DecidableEq

def ProposalCall.prog (engine : ProposalEngine) : ProposalCall → Hub ProposalStore ProposalResult
  | .capture target input => do
    let result ← captureProposalWithOutcome engine { input with targetProposalId := some target }
    pure (.captured result)
  | .publish input => do
    let changeRequest ← publishChangeRequest engine input
    pure (.published changeRequest)

/-! ## What a client has seen -/

def ReadProposal (id : ProposalId) (proposal : NotebookProposal) (es : Log ProposalStore) :
    Prop :=
  ∃ tag, ⟨.get (.proposal id), .found (.proposal proposal) tag⟩ ∈ es

def ReadPublished (id : ProposalId) (updatedAt : Nat) (published : ChangeRequestPublication)
    (es : Log ProposalStore) : Prop :=
  ∃ tag, ⟨.get (.publication id), .found (.publication (.published updatedAt published)) tag⟩ ∈ es

/-- A publication was read, or stored by the client itself. -/
def Knows (id : ProposalId) (updatedAt : Nat) (published : ChangeRequestPublication)
    (es : Log ProposalStore) : Prop :=
  ∃ tag, Issued (B := ProposalStore) (.publication id)
    (.publication (.published updatedAt published)) tag es

/-- The provider accepted an update. -/
def Accepted (ev : Ev ProposalStore) (result : ChangeRequest) : Prop :=
  ∃ request details, ev = ⟨.ask (.updateChangeRequest request details), .ok result⟩

/-- What was read of the chain of a target. -/
structure Resolved (target : PublishedTarget) (es : Log ProposalStore) : Prop where
  root : ∃ proposal, ReadProposal target.rootProposalId proposal es ∧
    proposal.targetProposalId = none
  pointer : ∃ updatedAt published, ReadPublished target.rootProposalId updatedAt published es ∧
    published.headCommit ∈ target.observedHeadCommits
  observed : ∀ head ∈ target.observedHeadCommits, ∃ id updatedAt published,
    ReadPublished id updatedAt published es ∧ published.headCommit = head

variable {es later past : Log ProposalStore} {id : ProposalId} {proposal : NotebookProposal}
  {updatedAt : Nat} {published : ChangeRequestPublication} {call : ProposalCall}
  {input : CaptureInput}
  {tag : Etag ProposalStore} {provider : String} {engine : ProposalEngine}
  {v : ProposalVal}

theorem ReadProposal.mono (read : ReadProposal id proposal es) (grown : es ⊆ later) :
    ReadProposal id proposal later := by
  obtain ⟨tag, member⟩ := read
  exact ⟨tag, grown member⟩

theorem ReadPublished.mono (read : ReadPublished id updatedAt published es) (grown : es ⊆ later) :
    ReadPublished id updatedAt published later := by
  obtain ⟨tag, member⟩ := read
  exact ⟨tag, grown member⟩

theorem ReadPublished.knows (read : ReadPublished id updatedAt published es) :
    Knows id updatedAt published es := by
  obtain ⟨tag, member⟩ := read
  exact ⟨tag, .inl member⟩

theorem Knows.mono (knows : Knows id updatedAt published es) (grown : es ⊆ later) :
    Knows id updatedAt published later := by
  obtain ⟨tag, read | ⟨c, wrote⟩⟩ := knows
  · exact ⟨tag, .inl (grown read)⟩
  · exact ⟨tag, .inr ⟨c, grown wrote⟩⟩

theorem Resolved.mono (resolved : Resolved target es)
    (grown : es ⊆ later) : Resolved target later := by
  obtain ⟨⟨root, first, last⟩, ⟨at_, cr, pointer, seen⟩, observed⟩ := resolved
  refine ⟨⟨root, first.mono grown, last⟩, ⟨at_, cr, pointer.mono grown, seen⟩, ?_⟩
  intro head member
  obtain ⟨id, updatedAt, published, read, same⟩ := observed head member
  exact ⟨id, updatedAt, published, read.mono grown, same⟩

/-! ## The rule -/

section

variable (call : ProposalCall) (root : ProposalId) (es : Log ProposalStore) (updatedAt : Nat)
  (current head : Commit)

/-- From what a client advances the pointer `root`, which is at `current` since `updatedAt`, to
`head`. -/
inductive Basis : Prop where
  | publish (input : PublishInput) (proposal : NotebookProposal) (target : PublishedTarget)
      (ev : Ev ProposalStore) (result : ChangeRequest) (later earlier : Log ProposalStore)
      (recordedAt : Nat) (published : ChangeRequestPublication) :
      call = .publish input → es = later ++ ev :: earlier → Accepted ev result →
      ReadProposal input.proposalId proposal earlier → proposal.targetProposalId.isSome = true →
      Resolved target earlier → target.rootProposalId = root →
      current ∈ target.observedHeadCommits → Knows input.proposalId recordedAt published es →
      published.headCommit = head → Basis
  | replay (input : PublishInput) (proposal : NotebookProposal) (target : PublishedTarget)
      (recordedAt : Nat) (published : ChangeRequestPublication) :
      call = .publish input → ReadProposal input.proposalId proposal es →
      proposal.targetProposalId.isSome = true → Resolved target es →
      target.rootProposalId = root → ReadPublished input.proposalId recordedAt published es →
      published.headCommit = head → updatedAt ≤ proposal.createdAt →
      Basis

end

/-- What a call made of the publication it read. -/
inductive PublicationChange (call : ProposalCall) (id : ProposalId)
    (es : Log ProposalStore) : ProposalPublication → ProposalPublication → Prop where
  | recorded (input : PublishInput) (proposal : NotebookProposal) (result : ChangeRequest)
      (provider : String) (since now : Nat) : call = .publish input → input.proposalId = id →
      ReadProposal id proposal es →
      (proposal.targetProposalId = none ∨ ∃ ev later earlier, es = later ++ ev :: earlier ∧
        Accepted ev result ∧ ReadProposal id proposal earlier) →
      PublicationChange call id es (.pending since) (.published now ⟨result, provider⟩)
  | advanced (updatedAt : Nat) (current : ChangeRequestPublication) (head : Commit)
      (now next : Nat) (rest : Log ProposalStore) : es = ⟨.now, now⟩ :: rest → now ≤ next →
      Basis call id rest updatedAt current.headCommit head →
      PublicationChange call id es (.published updatedAt current)
        (.published next { current with headCommit := head })

def proposalWriter : Writer ProposalStore where
  creates es v c := c = .ifAbsent ∧ ∃ proposal, v = .proposal proposal ∧
    proposal.targetProposalId.isSome = true ∧ ⟨.now, proposal.createdAt⟩ ∈ es
  changes _ _ _ := False
  removes _ := False

def publicationWriter (call : ProposalCall) (id : ProposalId) : Writer ProposalStore where
  creates _ v c := c = .ifAbsent ∧ ∃ since, v = .publication (.pending since)
  changes es old v := ∃ former next, old = .publication former ∧ v = .publication next ∧
    PublicationChange call id es former next
  removes _ := False

/-- Only a publication asks for an update, of a proposal with a target that it has read. -/
def Asks (call : ProposalCall) (es : Log ProposalStore) : Op ProposalStore → Prop
  | .ask (.updateChangeRequest _ _) => ∃ input proposal, call = .publish input ∧
      ReadProposal input.proposalId proposal es ∧ proposal.targetProposalId.isSome = true
  | _ => True

structure ProposalRule (call : ProposalCall) (es : Log ProposalStore) (o : Op ProposalStore) :
    Prop where
  proposals : ∀ id, proposalWriter.Allows (.proposal id) es o
  publications : ∀ id, (publicationWriter call id).Allows (.publication id) es o
  asks : Asks call es o

/-- Neither a proposal nor a publication is written, and no update is asked for. -/
def Quiet : Op ProposalStore → Prop
  | .put (.proposal _) _ _ => False
  | .put (.publication _) _ _ => False
  | .delete _ => False
  | .ask (.updateChangeRequest _ _) => False
  | _ => True

/-- What is quiet every call may do. -/
theorem Quiet.allowed (quiet : Quiet o) (es : Log ProposalStore) :
    ProposalRule call es o := by
  cases o with
  | put k v c =>
    cases k with
    | proposal id' => exact quiet.elim
    | publication id' => exact quiet.elim
    | marker id' => exact ⟨fun _ => nofun, fun _ => nofun, trivial⟩
    | change id' index => exact ⟨fun _ => nofun, fun _ => nofun, trivial⟩
  | delete k => exact quiet.elim
  | ask q =>
    cases q with
    | updateChangeRequest request details => exact quiet.elim
    | openChangeRequest branch draft details => exact ⟨fun _ => trivial, fun _ => trivial, trivial⟩
  | _ => exact ⟨fun _ => trivial, fun _ => trivial, trivial⟩

theorem keeps_quiet (quiet : Keeps (fun _ => Quiet) p) : Keeps (ProposalRule call) p :=
  fun past => (quiet past).weaken fun es _ _ allowed => allowed.allowed es

/-- A publication is replaced under the tag of the read that the change starts from. -/
theorem rule_publication (read : ⟨.get (.publication id), .found (.publication former) tag⟩ ∈ es)
    (change : PublicationChange call id es former next) :
    ProposalRule call es (.put (.publication id) (.publication next) (.ifMatch tag)) := by
  refine ⟨fun _ => nofun, ?_, trivial⟩
  rintro id' ⟨⟩
  exact ⟨_, .inl read, former, next, rfl, rfl, change⟩

/-! ## Reading -/

theorem parsesOnly_publication : ParsesOnly (B := ProposalStore) parsePublication .publication := by
  intro v
  cases v with
  | publication publication => exact .inl ⟨publication, rfl, rfl⟩
  | _ => exact .inr ⟨_, rfl⟩

theorem parsesOnly_proposal : ParsesOnly (B := ProposalStore) parseProposal .proposal := by
  intro v
  cases v with
  | proposal proposal => exact .inl ⟨proposal, rfl, rfl⟩
  | _ => exact .inr ⟨_, rfl⟩

theorem parsesOnly_marker : ParsesOnly (B := ProposalStore) parseMarker .marker := by
  intro v
  cases v with
  | marker marker => exact .inl ⟨marker, rfl, rfl⟩
  | _ => exact .inr ⟨_, rfl⟩

/-- The two reads of a proposal. -/
def recordReads (id : ProposalId) (record : ProposalRecord) (tag tag' : Etag ProposalStore) :
    Log ProposalStore :=
  [⟨.get (.publication id), .found (.publication record.publication) tag'⟩,
    ⟨.get (.proposal id), .found (.proposal record.proposal) tag⟩]

/-- A proposal that is returned took two reads, its publication last. -/
theorem emits_getProposal (reads : ∀ es k, G es (.get k)) (id : ProposalId) :
    Emits G (yields fun record es =>
        ∃ tag tag', es = recordReads id record tag tag' ++ past)
      (getProposal id) past := by
  have getPublication (first : Option (BucketObject ProposalStore)) (es : Log ProposalStore)
      (found : ∀ v tag, first = some ⟨v, tag⟩ → es = ⟨.get (.proposal id), .found v tag⟩ :: past) :
      Emits G (yields fun record es =>
          ∃ tag tag', es = recordReads id record tag tag' ++ past)
        (bucketGet (B := ProposalStore) (.publication id) >>= parseRecord id first) es := by
    rw [emits_bind, emits_bucketGet]
    refine ⟨reads _ _, ?_, ?_, trivial⟩
    · intro v' tag'
      cases first with
      | none => trivial
      | some object =>
        obtain ⟨v, tag⟩ := object
        rw [andThen_ok, parseRecord, emits_bind, found v tag rfl]
        rcases parsesOnly_proposal v with ⟨proposal, rfl, parsed⟩ | ⟨_, broken⟩
        · rw [parsed, emits_pure, andThen_ok]
          rcases parsesOnly_publication v' with ⟨publication, rfl, parsed'⟩ | ⟨_, broken⟩
          · rw [parsed']
            exact ⟨tag, tag', rfl⟩
          · rw [broken]
            trivial
        · rw [broken]
          trivial
    · cases first <;> trivial
  rw [getProposal, emits_bind, emits_bucketGet]
  refine ⟨reads _ _, ?_, ?_, trivial⟩
  · intro v tag
    exact getPublication (some ⟨v, tag⟩) _ (by rintro _ _ ⟨⟩; rfl)
  · exact getPublication none _ nofun

/-- What a walk along the chain has read. -/
structure Walked (walk : TargetWalk) (seen : Log ProposalStore) : Prop where
  link : ∀ root, walk.rootProposalId = some root → ReadProposal root walk.child seen ∧
    ∃ updatedAt published, ReadPublished root updatedAt published seen ∧
      published.headCommit ∈ walk.observedHeadCommits
  observed : ∀ head ∈ walk.observedHeadCommits, ∃ id updatedAt published,
    ReadPublished id updatedAt published seen ∧ published.headCommit = head

/-- A link of the chain adds its two reads and its head commit. -/
theorem Walked.step (walked : Walked walk seen) :
    Walked (walk.link target proposal updatedAt published)
      (recordReads target ⟨proposal, .published updatedAt published⟩ tag tag' ++ seen) := by
  have read : ReadPublished target updatedAt published
      (recordReads target ⟨proposal, .published updatedAt published⟩ tag tag' ++ seen) :=
    ⟨tag', by simp [recordReads]⟩
  refine ⟨?_, ?_⟩
  · rintro _ ⟨⟩
    exact ⟨⟨tag, by simp [recordReads, TargetWalk.link]⟩, updatedAt, published, read, (.head _)⟩
  · intro head member
    rcases List.mem_cons.mp member with rfl | before
    · exact ⟨target, updatedAt, published, read, rfl⟩
    · obtain ⟨id, at_, cr, read, same⟩ := walked.observed head before
      exact ⟨id, at_, cr, read.mono (List.subset_append_right _ _), same⟩

/-- A walk that returns has come to a proposal without a target. -/
theorem emits_walkTargets (reads : ∀ es k, G es (.get k)) (provider : String) (bound : Nat)
    (walk : TargetWalk) (seen : Log ProposalStore) (walked : Walked walk seen) :
    Emits G (yields fun walk' es => ∃ seen', es = seen' ++ past ∧ Walked walk' seen' ∧
        walk'.child.targetProposalId = none)
      (walkTargets provider bound walk walk.child.targetProposalId) (seen ++ past) := by
  induction bound generalizing walk seen with
  | zero =>
    cases target : walk.child.targetProposalId with
    | none => exact ⟨seen, rfl, walked, target⟩
    | some id => trivial
  | succ n ih =>
    cases target : walk.child.targetProposalId with
    | none => exact ⟨seen, rfl, walked, target⟩
    | some id =>
      rw [walkTargets]
      split
      · trivial
      · refine emits_then (emits_getProposal reads id) ?_
        rintro ⟨linked, publication⟩ _ _ ⟨tag, tag', rfl⟩
        cases publication with
        | pending since => trivial
        | published updatedAt published =>
          dsimp only
          split
          · trivial
          · split
            · trivial
            · split
              · trivial
              · rw [← List.append_assoc]
                exact ih _ _ walked.step

/-- A target that is resolved was read, its root and every head it lists. -/
theorem emits_resolve (reads : ∀ es k, G es (.get k)) :
    Emits G (yields fun target es => ∃ seen, es = seen ++ past ∧ Resolved target seen)
      (resolvePublishedChangeRequestTarget bound proposal provider) past := by
  refine emits_then (emits_walkTargets reads provider bound _ [] ?_) ?_
  · exact ⟨nofun, nofun⟩
  · rintro walk _ _ ⟨seen, rfl, walked, ended⟩
    split
    · next root changeRequest found _ =>
      obtain ⟨read, pointer⟩ := walked.link root found
      exact ⟨seen, rfl, ⟨walk.child, read, ended⟩, pointer, walked.observed⟩
    · trivial

/-! ## The pointer -/

/-- How an advance of the pointer ended. -/
inductive AdvanceEnded (root : ProposalId) (advance : Advance) (base : Log ProposalStore) :
    Log ProposalStore → Prop where
  | written (updatedAt next : Nat) (current : ChangeRequestPublication)
      (tag tag' : Etag ProposalStore) (rest : Log ProposalStore) : base <:+ rest →
      ⟨.get (.publication root), .found (.publication (.published updatedAt current)) tag⟩ ∈ rest →
      AdvanceEnded root advance base (⟨.put (.publication root)
        (.publication (.published next { current with headCommit := advance.result.headCommit }))
        (.ifMatch tag), .ok tag'⟩ :: rest)
  | kept (updatedAt : Nat) (current : ChangeRequestPublication) (tag : Etag ProposalStore)
      (rest : Log ProposalStore) : base <:+ rest →
      current.headCommit = advance.result.headCommit ∨ advance.holdsBack updatedAt current = true →
      AdvanceEnded root advance base
        (⟨.get (.publication root), .found (.publication (.published updatedAt current)) tag⟩ ::
          rest)

/-- Every attempt reads the pointer again, so there has to be a basis for whatever it finds. -/
theorem emits_advance
    (basis : ∀ es updatedAt current, past <:+ es → advance.holdsBack updatedAt current = false →
      Basis call root es updatedAt current.headCommit advance.result.headCommit) :
    Emits (ProposalRule call) (yields fun _ => AdvanceEnded root advance past)
      (advanceChangeRequestHead root advance) past := by
  have quiet {o : Op ProposalStore} (es : Log ProposalStore) (harmless : Quiet o) :
      ProposalRule call es o := harmless.allowed es
  refine emits_then ?_ fun _ _ _ ended => ended
  refine emits_then ?_ fun _ _ _ ended => ended
  refine emits_mutateObjectWithOutcome parsesOnly_publication (fun es _ => quiet es trivial)
    (fun _ _ above => above.cons) (fun _ _ _ => trivial) ?_ List.suffix_rfl
  intro es current tag above
  cases current with
  | pending since => trivial
  | published updatedAt current =>
    rw [Advance.apply]
    split
    · trivial
    · split
      · next same => exact .kept updatedAt current tag es above (.inl same)
      · split
        · next back => exact .kept updatedAt current tag es above (.inr back)
        · next free =>
          refine ⟨quiet _ trivial, fun now => ?_⟩
          refine ⟨rule_publication (.tail _ (.head _)) ?_, fun tag' => ?_, above.cons.cons.cons,
            trivial⟩
          · exact .advanced updatedAt current _ now _ _ rfl (Nat.le_max_left _ _)
              (basis _ updatedAt current above.cons (by simpa using free))
          · exact .written updatedAt _ current tag tag' _ above.cons.cons (.tail _ (.head _))

/-! ## Publication -/

/-- A replay repaired the pointer, or found that it is not to move. -/
def Repaired (id : ProposalId) (record : ProposalRecord) (past es : Log ProposalStore) :
    Prop :=
  ∃ tag tag' seen target updatedAt published, record.publication = .published updatedAt published ∧
    Resolved target seen ∧
    AdvanceEnded target.rootProposalId (replayAdvance record.proposal published target)
      (seen ++ (recordReads id record tag tag' ++ past)) es

/-- What a publication has read before it goes on, and what a replay that repaired the pointer has
done. -/
def ReadOrReplayed (id : ProposalId) (past : Log ProposalStore)
    (out : ProposalRecord × Option (ChangeRequest × Except HubError Unit))
    (es : Log ProposalStore) : Prop :=
  (∃ tag tag', recordReads id out.1 tag tag' ++ past <:+ es) ∧
    ∀ result, out.2 = some (result, .ok ()) →
      out.1.proposal.targetProposalId.isSome = true → Repaired id out.1 past es

/-- A replay moves the pointer on what it has read itself. -/
theorem emits_readOrReplay {input : PublishInput} : Emits (ProposalRule (.publish input))
      (yields (ReadOrReplayed input.proposalId past)) (readOrReplay input) past := by
  have reads (es : Log ProposalStore) (k : ProposalKey) :
      ProposalRule (.publish input) es (.get k) := Quiet.allowed (o := .get k) trivial es
  refine emits_then (emits_getProposal reads _) ?_
  rintro record _ _ ⟨tag, tag', rfl⟩
  obtain ⟨proposal, publication⟩ := record
  cases publication with
  | pending since => exact ⟨⟨tag, tag', List.suffix_rfl⟩, nofun⟩
  | published updatedAt published =>
    have failed {es : Log ProposalStore} (err : HubError) (above : recordReads input.proposalId
        ⟨proposal, .published updatedAt published⟩ tag tag' ++ past <:+ es) :
        ReadOrReplayed input.proposalId past (⟨proposal, .published updatedAt published⟩,
          some (published.toChangeRequest, .error err)) es :=
      ⟨⟨tag, tag', above⟩, by simp⟩
    rw [replayPublished]
    dsimp only
    split
    · next targeted =>
      rw [emits_bind, emits_bind, emits_settled]
      refine emits_seq (emits_resolve reads) ?_ fun err _ above _ => failed err above
      rintro target _ above ⟨seen, rfl, resolved⟩
      refine (emits_advance ?_).grown.mono ?_
      · intro es since current above free
        have known := above.subset
        have order : since ≤ proposal.createdAt := by
          have young := (not_or.mp (of_decide_eq_false free)).2
          exact Nat.le_of_not_lt fun newer => young ⟨rfl, newer⟩
        refine .replay input proposal target updatedAt published rfl ?_ targeted
          (resolved.mono fun _ member => known (List.mem_append_left _ member)) rfl ?_ rfl order
        · exact ⟨tag, known (by simp [recordReads])⟩
        · exact ⟨tag', known (by simp [recordReads])⟩
      · rintro out es ⟨ended, grown⟩
        cases out with
        | error err => exact failed err (above.trans grown)
        | ok done =>
          exact ⟨⟨tag, tag', above.trans grown⟩, fun _ _ _ =>
            ⟨tag, tag', seen, target, updatedAt, published, rfl, resolved, ended⟩⟩
    · next free => exact ⟨⟨tag, tag', List.suffix_rfl⟩, fun _ _ targeted => absurd targeted free⟩

theorem keeps_assertPayloadNotExpired :
    Keeps (fun _ => Quiet) (assertPayloadNotExpired proposal) := by
  refine Keeps.bind (fun _ => ⟨trivial, fun _ => trivial⟩) fun now => ?_
  exact Keeps.ite keeps_raise keeps_ret

theorem keeps_repositoryPath : Keeps (fun _ => Quiet) (repositoryPath engine rootPath path) :=
  Keeps.ite keeps_ret keeps_raise

theorem keeps_readChange (engine : ProposalEngine) (id : ProposalId) (rootPath : String)
    (index : Nat) (change : ProposalChange) :
    Keeps (fun _ => Quiet) (readChange engine id rootPath index change) := by
  refine Keeps.ite keeps_repositoryPath.map ?_
  refine (keeps_bucketGet fun _ => trivial).bind fun object => ?_
  split
  · exact keeps_raise
  · exact Keeps.ite keeps_raise keeps_repositoryPath.map
  · exact keeps_raise

theorem keeps_readChanges (engine : ProposalEngine) (id : ProposalId) (rootPath : String)
    (changes : List ProposalChange) (index : Nat) :
    Keeps (fun _ => Quiet) (readChanges engine id rootPath index changes) := by
  induction changes generalizing index with
  | nil => exact keeps_ret
  | cons change rest ih =>
    exact (keeps_readChange _ _ _ _ _).bind fun _ => (ih _).map

theorem emits_askProvider (asks : G past (.ask query)) :
    Emits G (yields fun result es => es = ⟨.ask query, .ok result⟩ :: past)
      (askProvider query) past := by
  refine ⟨asks, fun answer => ?_⟩
  cases answer with
  | ok result => exact rfl
  | error err => trivial

/-- What a publication has done when the provider has answered. -/
def Answered (input : PublishInput) (proposal : NotebookProposal) (es : Log ProposalStore)
    (outcome : ProviderResult) : Prop :=
  match outcome.target with
  | none => proposal.targetProposalId = none
  | some target => proposal.targetProposalId.isSome = true ∧ ∃ ev earlier, es = ev :: earlier ∧
      Accepted ev outcome.result ∧ ReadProposal input.proposalId proposal earlier ∧
      Resolved target earlier

/-- An update is asked for on a target that was resolved; the answer is the last event. -/
theorem emits_publishToProvider {input : PublishInput}
    (read : ReadProposal input.proposalId proposal past) : Emits (ProposalRule (.publish input))
      (yields fun outcome es => Answered input proposal es outcome)
      (publishToProvider input publisher proposal details) past := by
  have quiet {o : Op ProposalStore} (es : Log ProposalStore) (harmless : Quiet o) :
      ProposalRule (.publish input) es o := harmless.allowed es
  rw [publishToProvider]
  split
  · next targeted =>
    refine emits_then (emits_resolve (fun es _ => quiet es trivial)) ?_
    rintro target _ _ ⟨seen, rfl, resolved⟩
    have still := read.mono (List.subset_append_right seen past)
    split
    · trivial
    · refine emits_then (emits_askProvider ?_) ?_
      · exact ⟨fun _ => trivial, fun _ => trivial, input, proposal, rfl, still, targeted⟩
      · rintro result _ _ rfl
        exact ⟨targeted, _, _, rfl, ⟨_, _, rfl⟩, still, resolved.mono (List.subset_append_left _ _)⟩
  · next free =>
    refine emits_then (emits_askProvider (quiet _ trivial)) ?_
    rintro result _ _ _
    have untargeted : proposal.targetProposalId = none := by simpa using free
    exact untargeted

/-- A publication that stands is returned as it is. -/
theorem emits_recordPublication {input : PublishInput}
    (read : ReadProposal input.proposalId proposal past)
    (answered : proposal.targetProposalId = none ∨ ∃ ev earlier, past = ev :: earlier ∧
      Accepted ev result ∧ ReadProposal input.proposalId proposal earlier) :
    Emits (ProposalRule (.publish input))
      (yields fun publication es => past <:+ es ∧ ∀ updatedAt published,
        publication = .published updatedAt published →
          Knows input.proposalId updatedAt published es)
      (recordPublication input.proposalId provider result) past := by
  have quiet {o : Op ProposalStore} (es : Log ProposalStore) (harmless : Quiet o) :
      ProposalRule (.publish input) es o := harmless.allowed es
  refine emits_then ?_ fun _ _ _ known => known
  refine emits_mutateObjectWithOutcome parsesOnly_publication (fun es _ => quiet es trivial)
    (fun _ _ above => above.cons) (fun _ _ _ => trivial) ?_ List.suffix_rfl
  intro es current tag above
  cases current with
  | published updatedAt published =>
    refine ⟨above.cons, ?_⟩
    rintro _ _ ⟨⟩
    exact ⟨tag, .inl (.head _)⟩
  | pending since =>
    refine ⟨quiet _ trivial, fun now => ?_⟩
    refine ⟨rule_publication (.tail _ (.head _)) ?_, fun tag' => ⟨above.cons.cons.cons, ?_⟩,
      above.cons.cons.cons, trivial⟩
    · refine .recorded input proposal result provider since now rfl rfl
        (read.mono above.cons.cons.subset) (answered.imp_right ?_)
      rintro ⟨ev, earlier, rfl, accepted, before⟩
      obtain ⟨later, split⟩ := above.cons.cons
      exact ⟨ev, later, earlier, split.symm, accepted, before⟩
    · rintro _ _ ⟨⟩
      exact ⟨tag', .inr ⟨_, .head _⟩⟩

/-- The pointer moves from a head commit that the target lists. -/
theorem emits_finishPublication {input : PublishInput}
    (read : ReadProposal input.proposalId proposal past)
    (answered : Answered input proposal past outcome) :
    Emits (ProposalRule (.publish input)) (fun _ _ => True)
      (finishPublication publisher proposal input.proposalId outcome) past := by
  have recorded : proposal.targetProposalId = none ∨ ∃ ev earlier, past = ev :: earlier ∧
      Accepted ev outcome.result ∧ ReadProposal input.proposalId proposal earlier := by
    rw [Answered] at answered
    split at answered
    · exact .inl answered
    · obtain ⟨_, ev, earlier, split, accepted, before, _⟩ := answered
      exact .inr ⟨ev, earlier, split, accepted, before⟩
  rw [finishPublication]
  split
  · trivial
  · refine emits_seq (emits_recordPublication read recorded) ?_
    rintro publication es _ ⟨above, known⟩
    cases publication with
    | pending since => trivial
    | published updatedAt published =>
      dsimp only
      split
      · trivial
      · rw [Answered] at answered
        split
        · trivial
        · next target found =>
          rw [found] at answered
          obtain ⟨targeted, ev, earlier, rfl, accepted, before, resolved⟩ := answered
          obtain ⟨later, rfl⟩ := above
          refine emits_seq (emits_advance ?_) (fun _ _ _ _ => trivial)
          rintro _ since current ⟨more, rfl⟩ free
          have observed : current.headCommit ∈ target.observedHeadCommits := by
            by_contra missing
            exact (of_decide_eq_false free) (.inl missing)
          refine .publish input proposal target ev outcome.result (more ++ later) earlier updatedAt
            published rfl (by simp) accepted before targeted resolved rfl observed ?_ rfl
          exact (known updatedAt published rfl).mono (List.subset_append_right _ _)

theorem keeps_publishPending {input : PublishInput}
    (read : ReadProposal input.proposalId proposal past) :
    Emits (ProposalRule (.publish input)) (fun _ _ => True)
      (publishPending engine input proposal) past := by
  refine emits_seq (keeps_quiet keeps_assertPayloadNotExpired past) ?_
  intro _ es above _
  split
  · trivial
  · next publisher _ =>
    split
    · trivial
    · refine emits_seq (keeps_quiet (keeps_readChanges engine _ _ _ _) es) ?_
      intro changes es' above' _
      have still := read.mono (above.trans above').subset
      refine emits_seq (emits_publishToProvider still) ?_
      intro outcome es'' above'' answered
      exact emits_finishPublication (still.mono above''.subset) answered

/-- A published proposal is replayed; a pending one goes to the provider. -/
theorem publish_emits {input : PublishInput} :
    Emits (ProposalRule (.publish input)) (fun _ _ => True)
      (publishChangeRequest engine input) past := by
  refine emits_seq emits_readOrReplay ?_
  rintro ⟨record, replayed⟩ es _ result
  cases replayed with
  | some outcome => trivial
  | none =>
    obtain ⟨⟨tag, tag', above⟩, _⟩ := result
    exact keeps_publishPending ⟨tag, above.subset (by simp [recordReads])⟩

/-! ## Capture -/

theorem keeps_assertProposalRetry : Keeps (fun _ => Quiet) (assertProposalRetry proposal input) :=
  Keeps.ite keeps_raise (Keeps.ite keeps_raise keeps_ret)

theorem keeps_parsed (only : ParsesOnly (B := ProposalStore) parse store) :
    Keeps (fun _ => Quiet) (parse v) := by
  rcases only v with ⟨x, _, parsed⟩ | ⟨_, broken⟩
  · rw [parsed]
    exact keeps_ret
  · rw [broken]
    exact keeps_raise

theorem keeps_hasContents (id : ProposalId) (changes : List ProposalChange) (index : Nat) :
    Keeps (fun _ => Quiet) (hasContents id index changes) := by
  induction changes generalizing index with
  | nil => exact keeps_ret
  | cons change rest ih =>
    refine Keeps.ite (ih _) ((keeps_bucketGet fun _ => trivial).bind fun _ => ?_)
    exact (ih _).map

/-- A capture that finds its proposal again writes nothing. -/
theorem keeps_findReusable : Keeps (fun _ => Quiet) (findReusable input) := by
  have gets (id : ProposalId) : Keeps (fun _ => Quiet) (getProposal id) := fun past =>
    (emits_getProposal (fun _ _ => trivial) id).forget
  rw [findReusable]
  split
  · exact keeps_ret
  · refine Keeps.tryCatch ?_ fun _ => Keeps.ite keeps_ret keeps_raise
    refine (gets _).bind fun record => keeps_assertProposalRetry.bind fun _ => ?_
    split
    · exact keeps_ret
    · refine keeps_assertPayloadNotExpired.bind fun _ => ?_
      exact (keeps_hasContents _ _ _).map

theorem keeps_claim
    (allowed : G past (.put k v .ifAbsent)) (follows : ∀ written, Keeps G (rest written)) :
    Emits G (fun _ _ => True) (putIfAbsent k v >>= rest) past :=
  emits_seq (emits_putIfAbsent allowed) fun written es _ _ => follows written es

theorem keeps_claimMarker : Keeps (fun _ => Quiet) (claimMarker id marker) := by
  intro past
  refine keeps_claim (G := fun _ => Quiet) trivial fun written => ?_
  refine Keeps.ite keeps_ret ((keeps_bucketGet fun _ => trivial).bind fun object => ?_)
  split
  · exact keeps_raise
  · refine (keeps_parsed parsesOnly_marker).bind fun stored => ?_
    exact Keeps.ite keeps_raise keeps_ret

theorem keeps_putContents (engine : ProposalEngine) (id : ProposalId)
    (contents : List (ProposalChange × Option String)) (index : Nat) :
    Keeps (fun _ => Quiet) (putContents engine id index contents) := by
  have one (index : Nat) (change : ProposalChange) (content : String) :
      Keeps (fun _ => Quiet) (putContent engine id index change content) := by
    intro past
    refine keeps_claim trivial fun written => ?_
    refine Keeps.ite keeps_ret ((keeps_bucketGet fun _ => trivial).bind fun object => ?_)
    split
    · exact Keeps.ite keeps_raise keeps_ret
    · exact keeps_raise
    · exact keeps_raise
  induction contents generalizing index with
  | nil => exact keeps_ret
  | cons head rest ih =>
    obtain ⟨change, content⟩ := head
    refine Keeps.ite (ih _) ?_
    cases content with
    | none => exact keeps_raise
    | some content => exact (one _ _ _).bind fun _ => ih _

/-- The proposal is stored once, under a time that the call has read. -/
theorem emits_claimManifest (targeted : proposal.targetProposalId.isSome = true)
    (read : ⟨.now, proposal.createdAt⟩ ∈ past) :
    Emits (ProposalRule call) (fun _ _ => True) (claimManifest proposal input) past := by
  refine keeps_claim ?_ fun written => keeps_quiet ?_
  · refine ⟨?_, fun _ => nofun, trivial⟩
    rintro id ⟨⟩
    exact ⟨rfl, proposal, rfl, targeted, read⟩
  · refine Keeps.ite keeps_ret ((keeps_bucketGet fun _ => trivial).bind fun object => ?_)
    split
    · exact keeps_raise
    · refine (keeps_parsed parsesOnly_proposal).bind fun captured => ?_
      exact keeps_assertProposalRetry.map

/-- A publication starts out pending. -/
theorem keeps_claimPublication : Keeps (ProposalRule call) (claimPublication id createdAt) := by
  intro past
  refine keeps_claim ?_ fun written => keeps_quiet ?_
  · refine ⟨fun _ => nofun, ?_, trivial⟩
    rintro id' ⟨⟩
    exact ⟨rfl, createdAt, rfl⟩
  · refine Keeps.ite keeps_ret ((keeps_bucketGet fun _ => trivial).bind fun object => ?_)
    split
    · exact keeps_raise
    · exact (keeps_parsed parsesOnly_publication).map

/-- The manifest is claimed first, the publication last. -/
theorem emits_writeProposal
    (targeted : proposal.targetProposalId.isSome = true)
    (read : ⟨.now, proposal.createdAt⟩ ∈ past) :
    Emits (ProposalRule call) (fun _ _ => True)
      (writeProposal engine proposal contents input) past := by
  refine emits_seq (emits_claimManifest targeted read) ?_
  rintro ⟨captured, created⟩ es _ _
  refine Keeps.ite keeps_raise ?_ es
  refine (keeps_quiet keeps_assertPayloadNotExpired).bind fun _ => ?_
  refine (keeps_quiet keeps_claimMarker).bind fun _ => ?_
  refine (keeps_quiet (keeps_putContents _ _ _ _)).bind fun _ => ?_
  exact keeps_claimPublication.map

theorem keeps_captureNew (targeted : input.targetProposalId.isSome = true) :
    Keeps (ProposalRule call) (captureNew engine input) := by
  have draws (id : Option ProposalId) : Keeps (fun _ => Quiet) (chooseProposalId id) := by
    cases id with
    | none => exact fun _ => ⟨trivial, fun _ => trivial⟩
    | some id => exact keeps_ret
  refine Keeps.ite keeps_raise ?_
  split
  · exact keeps_raise
  · exact keeps_raise
  · exact keeps_raise
  · refine Keeps.ite keeps_raise ((keeps_quiet (draws _)).bind fun id => ?_)
    intro past
    refine ⟨Quiet.allowed (o := .now) trivial past, fun createdAt => ?_⟩
    exact emits_writeProposal targeted (.head _)

/-! ## All calls -/

/-- Every call on proposals keeps its rule. -/
theorem proposalCall_emits (engine : ProposalEngine) (call : ProposalCall) :
    Emits (ProposalRule call) (fun _ _ => True) (call.prog engine) past := by
  cases call with
  | publish input =>
    exact emits_seq publish_emits (fun _ _ _ _ => trivial)
  | capture target input =>
    have captures : Keeps (ProposalRule (.capture target input))
        (captureProposalWithOutcome engine { input with targetProposalId := some target }) := by
      refine (keeps_quiet keeps_findReusable).bind fun found => ?_
      cases found with
      | some result => exact keeps_ret
      | none => exact keeps_captureNew rfl
    exact captures.map past

end MarimoHub.Guarantees.Proposals
