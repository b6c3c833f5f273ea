import MarimoHub.Source.Content

/-!
# Roles

`identityMatch.ts`, `authz.ts` and `services/runtime/sessionAuthz.ts`: who a caller
is, which role they hold on a project, and what the role permits on a session.

The engine's text functions and date parsing are parameters (`Engine`). Absent
lists of entitlements and groups are read by the source exactly as empty ones, and
are empty lists here.
-/

namespace MarimoHub.Source

/-- What the JavaScript engine computes. -/
structure Engine where
  /-- `value.trim().toLowerCase()` -/
  foldCase : String → String
  /-- `utcTimestamp()` and `parseIsoTimestamp` together, in milliseconds. -/
  parseIsoTimestamp : String → Option Int
  trim : String → String
  /-- The character class `[\p{Cc}\p{Cf}]`. -/
  isControlOrFormat : Char → Bool

/-! ## Identity matching -/

/-- `AUTH_ENTITLEMENTS`. -/
inductive AuthEntitlement where
  | superAdmin
  | projectCreator
  | defaultRole (role : AssignableRole)
deriving DecidableEq

structure IdentitySubject where
  id : UserId
  email : String
  entitlements : List AuthEntitlement
  groups : List String
deriving DecidableEq

section Identity

variable (engine : Engine)

def emailsEqual (a b : String) : Bool := engine.foldCase a == engine.foldCase b

def isEmailRef (ref : String) : Bool := ref.toList.contains '@'

def refMatchesSubject (ref : String) (subject : IdentitySubject) : Bool :=
  if isEmailRef ref then emailsEqual engine ref subject.email else ref == subject.id

def anyRefMatchesSubject (refs : List String) (subject : IdentitySubject) : Bool :=
  refs.any fun ref => refMatchesSubject engine ref subject

def memberRefMatchesSubject (member : ProjectMember) (subject : IdentitySubject) : Bool :=
  match member.group with
  | some group => member.userId.isNone && member.email.isNone && subject.groups.contains group
  | none =>
    match member.userId with
    | some id => id == subject.id
    | none =>
      match member.email with
      | some email => emailsEqual engine email subject.email
      | none => false

end Identity

/-! ## Effective roles -/

/-- `RANK`. -/
def Role.rank : Role → Nat
  | .appUser => 0
  | .viewer => 1
  | .editor => 2
  | .manager => 3
  | .admin => 4

def roleAtLeast : Option Role → Role → Bool
  | none, _ => false
  | some role, minimum => decide (minimum.rank ≤ role.rank)

structure AuthzPolicy where
  defaultRole : Option AssignableRole
  superAdmins : List String
  projectCreationRestricted : Bool
deriving DecidableEq

/-- One entitlement of the loop of `subjectDefaultRole`. -/
def raiseDefault (role : Option AssignableRole) : AuthEntitlement → Option AssignableRole
  | .defaultRole candidate =>
    match role with
    | none => some candidate
    | some held => if held.toRole.rank < candidate.toRole.rank then some candidate else role
  | _ => role

def subjectDefaultRole (subject : IdentitySubject) (policy : Option AuthzPolicy) :
    Option AssignableRole :=
  subject.entitlements.foldl raiseDefault (policy.bind (·.defaultRole))

inductive MemberSource where
  | memberId
  | memberEmail
  | memberGroup
deriving DecidableEq

/-- The order in which equal roles are attributed to a membership. -/
def MemberSource.preference : MemberSource → Nat
  | .memberId => 2
  | .memberEmail => 1
  | .memberGroup => 0

inductive EffectiveRoleSource where
  | staticSuperAdmin
  | entitlementSuperAdmin
  | owner
  | member (source : MemberSource)
  | entitlementDefault
  | deploymentDefault
  | projectDefault
  | none
deriving DecidableEq

structure EffectiveRoleResolution where
  role : Option Role
  source : EffectiveRoleSource
deriving DecidableEq

section Roles

variable (engine : Engine)

def superAdminRefs (policy : Option AuthzPolicy) : List String :=
  match policy with
  | some p => p.superAdmins
  | none => []

def isSuperAdmin (subject : IdentitySubject) (superAdmins : List String) : Bool :=
  subject.entitlements.contains .superAdmin || anyRefMatchesSubject engine superAdmins subject

def canCreateProject (subject : IdentitySubject) (restricted : Bool) (superAdmins : List String) :
    Bool :=
  !restricted || isSuperAdmin engine subject superAdmins ||
    subject.entitlements.contains .projectCreator

def ProjectMember.source (member : ProjectMember) : MemberSource :=
  if member.userId.isSome then .memberId
  else if member.email.isSome then .memberEmail
  else .memberGroup

/-- Whether a matching row replaces the best one so far. -/
def improves (best : Option (Role × MemberSource)) (member : ProjectMember) : Bool :=
  match best with
  | none => true
  | some (role, source) => decide (role.rank < member.role.rank) ||
      (decide (member.role.rank = role.rank) &&
        decide (source.preference < member.source.preference))

/-- The loop of `resolveEffectiveRole` over the roster; it stops at an admin row that
names the user id. -/
def bestMembership (subject : IdentitySubject) :
    List ProjectMember → Option (Role × MemberSource) → Option (Role × MemberSource)
  | [], best => best
  | member :: rest, best =>
    if (member.group.isSome && member.role == .admin) ||
        !memberRefMatchesSubject engine member subject then
      bestMembership subject rest best
    else
      let next := if improves best member then some (member.role, member.source) else best
      if next = some (.admin, .memberId) then next else bestMembership subject rest next

def resolveEffectiveRole (project : Project) (subject : IdentitySubject)
    (policy : Option AuthzPolicy) : EffectiveRoleResolution :=
  if subject.entitlements.contains .superAdmin then ⟨some .admin, .entitlementSuperAdmin⟩
  else if anyRefMatchesSubject engine (superAdminRefs policy) subject then
    ⟨some .admin, .staticSuperAdmin⟩
  else if project.owner = subject.id then ⟨some .admin, .owner⟩
  else
    match bestMembership engine subject project.members none with
    | some (role, source) => ⟨some role, .member source⟩
    | none =>
      match project.defaultRole with
      | some (.role role) => ⟨some role.toRole, .projectDefault⟩
      | some .none => ⟨none, .projectDefault⟩
      | _ =>
        match subjectDefaultRole subject policy with
        | none => ⟨none, .none⟩
        | some role => ⟨some role.toRole,
            if policy.bind (·.defaultRole) = some role then .deploymentDefault
            else .entitlementDefault⟩

end Roles

/-! ## Sessions -/

inductive ViewerMode where
  | static
  | applications
  | ephemeralSandbox
deriving DecidableEq

/-- `VIEWER_SESSION_MODES`; an unset mode reads as `static`. -/
def viewerSessionModes : Option ViewerMode → List SessionMode
  | none => []
  | some .static => []
  | some .applications => [.app]
  | some .ephemeralSandbox => [.app, .edit]

/-- `MODE_POLICY[mode].viewerSession === 'shared'`. -/
def SessionMode.sharedWithViewers : SessionMode → Bool
  | .edit => false
  | .app => true

/-- `SessionAdmissionRecord`, the fields admission reads. -/
structure SessionAdmissionRecord where
  mode : Option SessionMode
  ephemeral : Bool
  userId : UserId
  editorSandboxSharing : Option EditorSandboxSharing
  restrictedViewerCredentials : Bool
deriving DecidableEq

def SessionAdmissionRecord.sessionMode (session : SessionAdmissionRecord) : SessionMode :=
  session.mode.getD .edit

structure SessionActor where
  userId : UserId
  role : Option Role
  viewerMode : Option ViewerMode
  editorSandboxSharing : Option EditorSandboxSharing
deriving DecidableEq

inductive SessionAction where
  | attach
  | stop
  | surface
deriving DecidableEq

def canStartSessionMode (role : Option Role) (viewerMode : Option ViewerMode)
    (mode : SessionMode) : Bool :=
  if role = some .appUser then decide (mode = .app)
  else if roleAtLeast role .editor then true
  else decide (role = some .viewer) && (viewerSessionModes viewerMode).contains mode

/-- `sessionCan` for the two actions `surface` is defined from. -/
def sessionCanReach (stop : Bool) (actor : SessionActor) (session : SessionAdmissionRecord) :
    Bool :=
  let mode := session.sessionMode
  if roleAtLeast actor.role .editor then
    if mode ≠ .edit then true
    else
      let sharing := (session.editorSandboxSharing.or actor.editorSandboxSharing).getD .shared
      if sharing = .shared then true
      else if session.userId = actor.userId then true
      else stop && roleAtLeast actor.role .manager
  else if actor.role = some .appUser then
    !stop && decide (mode = .app) && !session.ephemeral
  else if actor.role = none then false
  else if session.ephemeral && decide (session.userId = actor.userId) then
    stop || ((decide (mode ≠ .edit) || session.restrictedViewerCredentials) &&
      (viewerSessionModes actor.viewerMode).contains mode)
  else if stop then false
  else mode.sharedWithViewers && (viewerSessionModes actor.viewerMode).contains mode

def sessionCan (action : SessionAction) (actor : SessionActor)
    (session : SessionAdmissionRecord) : Bool :=
  match action with
  | .attach => sessionCanReach false actor session
  | .stop => sessionCanReach true actor session
  | .surface =>
    roleAtLeast actor.role .editor && decide (session.sessionMode = .edit) &&
      sessionCanReach false actor session

end MarimoHub.Source
