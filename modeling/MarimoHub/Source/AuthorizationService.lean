import MarimoHub.Source.ResourceConstraints

/-!
# The authorization service

`AuthorizationService.ts`: human authority, resource constraints and credential
grants compose to one decision. A call that rejects is an `Except.error`; the two
ways it can are the scope mismatch of `decideBaseline` and a `TypeError` raised while
the verdicts are scanned, after the handler around the adapter call.

The clock is read once per validation, as `now`. Operational events and the trace of
`analyze` carry no decision and are left out, and so is its synthetic mode.
-/

namespace MarimoHub.Source

/-- `AuthorizationPolicy`. -/
structure AuthorizationPolicy extends AuthzPolicy where
  viewerMode : Option ViewerMode
  editorSandboxSharing : Option EditorSandboxSharing
deriving DecidableEq

/-- A bare subject, or a principal with credential provenance. -/
inductive AuthorizationSubject where
  | bare (subject : IdentitySubject)
  | principal (principal : AuthenticatedPrincipal)
deriving DecidableEq

namespace AuthorizationSubject

def identity : AuthorizationSubject → IdentitySubject
  | .bare subject => subject
  | .principal p => p.toIdentitySubject

def credential : AuthorizationSubject → Option AuthCredential
  | .bare _ => none
  | .principal p => some p.credential

variable (subject : AuthorizationSubject)

def grant : Option TokenGrant :=
  subject.credential.bind (·.grant)

def isServiceAccount : Bool :=
  match subject.credential with
  | some c => decide (c.kind = .serviceAccount)
  | none => false

end AuthorizationSubject

/-- `AuthorizationResource`, with the notebook's label override where it can have one. -/
inductive AuthorizationResource where
  | deployment (appOnly : Option Bool)
  | project (project : Project) (notebookLabels : Option ResourceSecurityLabels)
  | session (project : Project) (session : SessionAdmissionRecord)
      (notebookLabels : Option ResourceSecurityLabels)
  | sessionStart (project : Project) (mode : SessionMode)
      (notebookLabels : Option ResourceSecurityLabels)
deriving DecidableEq

namespace AuthorizationResource

def kind : AuthorizationResource → ActionScope
  | .deployment _ => .deployment
  | .project .. => .project
  | .session .. => .session
  | .sessionStart .. => .sessionStart

/-- The project labels, then the notebook's: both must be satisfied. -/
def labelSets : AuthorizationResource → List ResourceSecurityLabels
  | .deployment _ => []
  | .project p notebook => p.securityLabels.toList ++ notebook.toList
  | .session p _ notebook => p.securityLabels.toList ++ notebook.toList
  | .sessionStart p _ notebook => p.securityLabels.toList ++ notebook.toList

def appOnly : AuthorizationResource → Option Bool
  | .deployment appOnly => appOnly
  | _ => none

def project? : AuthorizationResource → Option Project
  | .deployment _ => none
  | .project p _ => some p
  | .session p _ _ => some p
  | .sessionStart p _ _ => some p

end AuthorizationResource

inductive AuthorizationDenialCategory where
  | lifecycle
  | visibility
  | role
  | session
  | standing
  | constraint
  | credentialResource
  | credentialAction
deriving DecidableEq

inductive AuthorizationDecision where
  | allowed (role : Option Role) (subjectContextExpiresAt : Option String)
  | denied (category : AuthorizationDenialCategory) (role : Option Role)
      (constraintReason : Option ConstraintDenialReason)
deriving DecidableEq

namespace AuthorizationDecision

def isAllowed : AuthorizationDecision → Bool
  | .allowed .. => true
  | .denied .. => false

def role : AuthorizationDecision → Option Role
  | .allowed role _ => role
  | .denied _ role _ => role

end AuthorizationDecision

/-- Why a call rejects. -/
inductive Fault where
  | error (message : String)
  | typeError
deriving DecidableEq

structure AuthorizationService where
  engine : Engine
  policy : Option AuthorizationPolicy
  security : Option ResourceSecurityPolicy

/-- The verdicts of a batch as `raw.map` leaves them. Mapping an array keeps its
holes; mapping an array of numbers converts each verdict to a number again. -/
inductive BatchDecisions where
  | array (slots : List (Option ConstraintDecision))
  | numbers (length : Nat)
deriving DecidableEq

inductive ConstraintBatch where
  | ok (decisions : BatchDecisions) (contextExpiresAt : String)
  | failed (reason : ConstraintDenialReason)
deriving DecidableEq

/-- `decisions.find(d => !d.satisfied)`, for the slots of an array: it visits holes, and
reading a property of one throws. -/
def findDenied : List (Option ConstraintDecision) → Except Fault (Option ConstraintDenialReason)
  | [] => .ok none
  | none :: _ => .error .typeError
  | some (.unsatisfied reason _) :: _ => .ok (some reason)
  | some (.satisfied _) :: rest => findDenied rest

/-- The verdict on a resource's label sets. -/
inductive LabelVerdict where
  | satisfied (contextExpiresAt : String)
  | unsatisfied (reason : ConstraintDenialReason)
deriving DecidableEq

namespace AuthorizationService

variable (svc : AuthorizationService)

def authzPolicy : Option AuthzPolicy := svc.policy.map (·.toAuthzPolicy)

def superAdmins : List String := superAdminRefs svc.authzPolicy

def sessionActor (subject : IdentitySubject) (role : Option Role) : SessionActor where
  userId := subject.id
  role := role
  viewerMode := svc.policy.bind (·.viewerMode)
  editorSandboxSharing := svc.policy.bind (·.editorSandboxSharing)

/-! ## The synchronous half -/

variable (now : Int) (subject : AuthorizationSubject) (action : AuthorizationAction)
  (resource : AuthorizationResource)

def credentialAllowsAction : Bool :=
  if subject.isServiceAccount then serviceAccountGrantAllowsAction subject.grant action
  else tokenGrantAllowsAction subject.grant action

/-- Whether a grant reaches the resource: deployments need every project. -/
def grantReaches (grant : TokenGrant) (resource : AuthorizationResource) : Bool :=
  match resource.project? with
  | none => decide (grant.projects = .all)
  | some project => tokenGrantAllowsProject (some grant) project.id

def decideCredential (role : Option Role) : AuthorizationDecision :=
  if subject.isServiceAccount && !credentialAllowsAction subject action then
    .denied .credentialAction role none
  else
    match subject.grant with
    | none => .allowed role none
    | some grant =>
      if !grantReaches grant resource then .denied .credentialResource role none
      else if tokenGrantAllowsAction (some grant) action then .allowed role none
      else .denied .credentialAction role none

def deploymentAllows (subject : IdentitySubject) (action : DeploymentAction)
    (appOnly : Option Bool) : Bool :=
  match action with
  | .supportRequest => true
  | .projectCreate =>
    let restricted :=
      svc.authzPolicy.any (·.projectCreationRestricted) || decide (appOnly ≠ some false)
    canCreateProject svc.engine subject restricted svc.superAdmins
  | .directorySearch =>
    roleAtLeast ((subjectDefaultRole subject svc.authzPolicy).map (·.toRole)) .viewer ||
      isSuperAdmin svc.engine subject svc.superAdmins
  | .adminAccess => isSuperAdmin svc.engine subject svc.superAdmins
  | .orgIntegrationManage => isSuperAdmin svc.engine subject svc.superAdmins
  | .auditGlobalRead => isSuperAdmin svc.engine subject svc.superAdmins

def decideDeployment (subject : IdentitySubject) (action : DeploymentAction)
    (appOnly : Option Bool) : AuthorizationDecision :=
  if svc.deploymentAllows subject action appOnly then .allowed none none
  else .denied .standing none none

def decideProject (subject : IdentitySubject) (action : ProjectAction) (role : Option Role) :
    AuthorizationDecision :=
  let rule := action.rule
  if rule.requiresSuperAdmin && !isSuperAdmin svc.engine subject svc.superAdmins then
    .denied .standing role none
  else if roleAtLeast role rule.min then .allowed role none
  else .denied (if rule.deniedAs = .notFound then .visibility else .role) role none

def scopeMismatch : Fault :=
  .error ("Action " ++ action.name ++ " requires a " ++ action.scope.name ++ " resource, got " ++
    resource.kind.name)

/-- The baseline role. -/
def role (subject : IdentitySubject) (project : Project) : Option Role :=
  (resolveEffectiveRole svc.engine project subject svc.authzPolicy).role

/-- The role decision on a project-scoped resource of an active project. -/
def decideRole (subject : IdentitySubject) (action : AuthorizationAction)
    (resource : AuthorizationResource) (role : Option Role) : Except Fault AuthorizationDecision :=
  match action, resource with
  | .project a, .project _ _ => .ok (svc.decideProject subject a role)
  | .session a, .session _ session _ =>
    .ok (if sessionCan a.sessionAction (svc.sessionActor subject role) session then
      .allowed role none
      else .denied .session role none)
  | .sessionStart, .sessionStart _ mode _ =>
    .ok (if canStartSessionMode role (svc.policy.bind (·.viewerMode)) mode then .allowed role none
      else .denied .session role none)
  | _, _ => .error (scopeMismatch action resource)

/-- Lifecycle precedes every project-scoped rule. -/
def decideProjectScoped (subject : IdentitySubject) (action : AuthorizationAction)
    (resource : AuthorizationResource) (project : Project) :
    Except Fault (AuthorizationDecision × List ResourceSecurityLabels) :=
  if project.status = .deleted then .ok (.denied .lifecycle none none, [])
  else
    (svc.decideRole subject action resource (svc.role subject project)).map fun decision =>
      (decision, resource.labelSets)

/-- Lifecycle, role, standing and session admission, with the label sets a constraint
pass must then satisfy. -/
def decideBaseline : Except Fault (AuthorizationDecision × List ResourceSecurityLabels) :=
  if resource.kind ≠ action.scope then .error (scopeMismatch action resource)
  else if subject.isServiceAccount then
    match resource.project? with
    | none => .ok (decideCredential subject action resource none, [])
    | some _ => .ok (.denied .credentialResource none none, [])
  else
    match resource.project?, action with
    | some project, action => svc.decideProjectScoped subject.identity action resource project
    | none, .deployment a => .ok (svc.decideDeployment subject.identity a resource.appOnly, [])
    | none, action => .error (scopeMismatch action resource)

/-- A denial by role, session or standing gives way to a credential that does not reach
the resource. -/
def denialPrecedence (decision : AuthorizationDecision) : AuthorizationDecision :=
  match decision with
  | .allowed .. => decision
  | .denied .lifecycle _ _ => decision
  | .denied .visibility _ _ => decision
  | .denied _ role _ =>
    match decideCredential subject action resource role with
    | .denied .credentialResource role' reason => .denied .credentialResource role' reason
    | _ => decision

/-! ## Context and constraints -/

/-- Provider failures, timeouts and malformed or expired contexts all yield none. -/
def resolveSubjectContext : Option SubjectSecurityContext :=
  match svc.security, subject with
  | some ⟨_, some resolve⟩, .principal p =>
    match resolve p with
    | .value .null => none
    | .value context => validateSubjectSecurityContext svc.engine now context
    | .thrown => none
    | .timedOut => none
  | _, _ => none

/-- One adapter round-trip: a single set is evaluated alone and boxed. -/
def evaluateSets (constraints : ResourceConstraintPolicy) (context : SubjectSecurityContext)
    (action : AuthorizationAction) (sets : List ResourceSecurityLabels) : Outcome :=
  match sets with
  | [labels] =>
    match constraints.evaluate context action ⟨some labels⟩ with
    | .value v => .value (.array [some v])
    | failed => failed
  | sets => constraints.evaluateMany context action (sets.map fun labels => ⟨some labels⟩)

/-- A malformed verdict fails closed. -/
def parseVerdict (value : Js) : ConstraintDecision :=
  (parseConstraintDecision value).getD (.unsatisfied .unavailable none)

/-- The verdicts of a result, if it has the right length. What is not an array has no
`map`, and the resulting error is caught as an adapter failure is. -/
def readVerdicts (count : Nat) : Outcome → Option BatchDecisions
  | .value (.array slots) =>
    if slots.length = count then some (.array (slots.map (·.map parseVerdict))) else none
  | .value (.typedArray items) => if items.length = count then some (.numbers count) else none
  | _ => none

def constraintBatch (sets : List ResourceSecurityLabels) : ConstraintBatch :=
  match svc.security with
  | none => .failed .unavailable
  | some security =>
    match svc.resolveSubjectContext now subject with
    | none => .failed .missingContext
    | some context =>
      match readVerdicts sets.length (evaluateSets security.constraints context action sets) with
      | some decisions => .ok decisions context.expiresAt
      | none => .failed .unavailable

/-- Arrays of numbers have no `flatMap`. -/
def evaluateLabelSets (sets : List ResourceSecurityLabels) : Except Fault LabelVerdict :=
  match svc.constraintBatch now subject action sets with
  | .failed reason => .ok (.unsatisfied reason)
  | .ok (.numbers _) _ => .error .typeError
  | .ok (.array slots) expiresAt =>
    match findDenied slots with
    | .error fault => .error fault
    | .ok (some reason) => .ok (.unsatisfied reason)
    | .ok none => .ok (.satisfied expiresAt)

/-! ## The entry points -/

/-- An allowed credential decision, with the expiry of the context that was needed. -/
def withExpiry (expiresAt : Option String) : AuthorizationDecision → AuthorizationDecision
  | .allowed role _ => .allowed role expiresAt
  | denied => denied

def authorize : Except Fault AuthorizationDecision := do
  let (decision, sets) ← svc.decideBaseline subject action resource
  if !decision.isAllowed then
    return denialPrecedence subject action resource decision
  else if sets.isEmpty then
    return decideCredential subject action resource decision.role
  else
    match ← svc.evaluateLabelSets now subject action sets with
    | .unsatisfied reason => return .denied .constraint decision.role (some reason)
    | .satisfied expiresAt =>
      return withExpiry (some expiresAt) (decideCredential subject action resource decision.role)

/-- A baseline whose label sets go into the batch. -/
def batched (baseline : AuthorizationDecision × List ResourceSecurityLabels) : Bool :=
  baseline.1.isAllowed && !baseline.2.isEmpty

/-- The label sets of the batch, in order. -/
def batchSets (baselines : List (AuthorizationDecision × List ResourceSecurityLabels)) :
    List ResourceSecurityLabels :=
  (baselines.filter batched).flatMap (·.2)

/-- The verdict on one slice of the batch. A number is not `satisfied`, so `find` returns
it; its `satisfied` is not `false` either, so it does not deny. -/
def sliceDenied (decisions : BatchDecisions) (cursor count : Nat) :
    Except Fault (Option ConstraintDenialReason) :=
  match decisions with
  | .array slots => findDenied ((slots.drop cursor).take count)
  | .numbers _ => .ok none

/-- The body of the loop that hands the verdicts back to the resources they belong to. -/
def settleEntry (batch : ConstraintBatch) (cursor : Nat)
    (entry : AuthorizationDecision × List ResourceSecurityLabels) :
    Except Fault AuthorizationDecision :=
  if batched entry then
    match batch with
    | .failed reason => .ok (.denied .constraint entry.1.role (some reason))
    | .ok decisions expiresAt =>
      (sliceDenied decisions cursor entry.2.length).map fun
        | some reason => .denied .constraint entry.1.role (some reason)
        | none => .allowed entry.1.role (some expiresAt)
  else .ok entry.1

/-- A failed batch is not consumed. -/
def advance (batch : ConstraintBatch) (cursor : Nat)
    (entry : AuthorizationDecision × List ResourceSecurityLabels) : Nat :=
  match batch with
  | .failed _ => cursor
  | .ok _ _ => if batched entry then cursor + entry.2.length else cursor

def correlate (batch : ConstraintBatch) :
    List (AuthorizationDecision × List ResourceSecurityLabels) → Nat →
      Except Fault (List AuthorizationDecision)
  | [], _ => .ok []
  | entry :: rest, cursor => do
    let here ← settleEntry batch cursor entry
    let others ← correlate batch rest (advance batch cursor entry)
    return here :: others

/-- The first pass over one resource. -/
def withPrecedence (baseline : AuthorizationDecision × List ResourceSecurityLabels) :
    AuthorizationDecision × List ResourceSecurityLabels :=
  (denialPrecedence subject action resource baseline.1, baseline.2)

/-- The credential pass over one resource. -/
def settleCredential (decision : AuthorizationDecision) : AuthorizationDecision :=
  match decision with
  | .allowed role expiresAt =>
    withExpiry expiresAt (decideCredential subject action resource role)
  | denied => denied

/-- One constraint pass for all labelled resources, if there are any. -/
def settleBatch (sets : List ResourceSecurityLabels)
    (out : List (AuthorizationDecision × List ResourceSecurityLabels)) :
    Except Fault (List AuthorizationDecision) :=
  if sets.isEmpty then .ok (out.map (·.1))
  else correlate (svc.constraintBatch now subject action sets) out 0

def authorizeMany
    (resources : List AuthorizationResource) : Except Fault (List AuthorizationDecision) := do
  let baselines ← resources.mapM (svc.decideBaseline subject action)
  let settled ← svc.settleBatch now subject action (batchSets baselines)
    (List.zipWith (withPrecedence subject action) resources baselines)
  return List.zipWith (settleCredential subject action) resources settled

inductive AuthorizationPresentation where
  | allowed
  | notFound
  | forbidden
deriving DecidableEq

def presentation : AuthorizationDecision → AuthorizationPresentation
  | .allowed .. => .allowed
  | .denied category _ _ =>
    if category = .lifecycle ∨ category = .visibility ∨ category = .constraint ∨
        category = .credentialResource then .notFound
    else .forbidden

structure AuthorizationAnalysis where
  decision : AuthorizationDecision
  presentation : AuthorizationPresentation
deriving DecidableEq

/-- The constraint stage of `analyze`. -/
def analyzeConstraints (baseline : AuthorizationDecision)
    (sets : List ResourceSecurityLabels) : Except Fault AuthorizationDecision :=
  if baseline.isAllowed && !sets.isEmpty then
    (svc.evaluateLabelSets now subject action sets).map fun
      | .satisfied expiresAt => withExpiry (some expiresAt) baseline
      | .unsatisfied reason => .denied .constraint baseline.role (some reason)
  else .ok (denialPrecedence subject action resource baseline)

/-- `analyze` in live mode. -/
def analyze : Except Fault AuthorizationAnalysis := do
  let (baseline, sets) ← svc.decideBaseline subject action resource
  let constrained ← svc.analyzeConstraints now subject action resource baseline sets
  let decision := settleCredential subject action resource constrained
  return ⟨decision, presentation decision⟩

/-- The list path. An entry of the result is `none` where the adapter left a hole: the
entry is then `undefined`, which is not an access. -/
def projectLabelConstraints
    (labelStates : List (Option ResourceSecurityLabels)) (action : ProjectAction) :
    List (Option Bool) :=
  let closed := labelStates.map fun labels => some labels.isNone
  if labelStates.all (·.isNone) then labelStates.map fun _ => some true
  else
    match svc.security, svc.resolveSubjectContext now subject with
    | some security, some context =>
      match security.constraints.evaluateMany context (.project action)
        (labelStates.map ConstraintResource.mk) with
      | .value (.array slots) =>
        if slots.length ≠ labelStates.length then closed
        else List.zipWith (fun slot labels => slot.map fun verdict =>
          labels.isNone || (match parseConstraintDecision verdict with
            | some (.satisfied _) => true
            | _ => false)) slots labelStates
      | _ => closed
    | _, _ => closed

end AuthorizationService

end MarimoHub.Source
