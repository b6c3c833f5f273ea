import MarimoHub.Source.Authz

/-!
# Actions and grants

`services/authorization/actions.ts`, the bounded action vocabulary with its rules,
and `tokenGrants.ts`, what a scoped credential permits of it. An action's scope is
its constructor.
-/

namespace MarimoHub.Source

inductive DeploymentAction where
  | supportRequest
  | projectCreate
  | adminAccess
  | orgIntegrationManage
  | auditGlobalRead
  | directorySearch
deriving DecidableEq

inductive ProjectAction where
  | appRead
  | projectRead
  | projectUpdate
  | projectDelete
  | projectMembersManage
  | projectEventsRead
  | projectAlertsManage
  | notebookWrite
  | notebookManage
  | deepLinkManage
  | previewManage
  | integrationRead
  | integrationUse
  | integrationWrite
  | integrationManage
  | changeRequestPublish
  | securityLabelsRaise
  | securityLabelsLower
deriving DecidableEq

inductive SessionScopedAction where
  | attach
  | stop
  | surface
  | proxy
deriving DecidableEq

inductive AuthorizationAction where
  | deployment (action : DeploymentAction)
  | project (action : ProjectAction)
  | session (action : SessionScopedAction)
  | sessionStart
deriving DecidableEq

inductive ActionScope where
  | deployment
  | project
  | session
  | sessionStart
deriving DecidableEq

def ActionScope.name : ActionScope → String
  | .deployment => "deployment"
  | .project => "project"
  | .session => "session"
  | .sessionStart => "session-start"

def DeploymentAction.name : DeploymentAction → String
  | .supportRequest => "support.request"
  | .projectCreate => "project.create"
  | .adminAccess => "admin.access"
  | .orgIntegrationManage => "org-integration.manage"
  | .auditGlobalRead => "audit.global.read"
  | .directorySearch => "directory.search"

def ProjectAction.name : ProjectAction → String
  | .appRead => "app.read"
  | .projectRead => "project.read"
  | .projectUpdate => "project.update"
  | .projectDelete => "project.delete"
  | .projectMembersManage => "project.members.manage"
  | .projectEventsRead => "project.events.read"
  | .projectAlertsManage => "project.alerts.manage"
  | .notebookWrite => "notebook.write"
  | .notebookManage => "notebook.manage"
  | .deepLinkManage => "deep-link.manage"
  | .previewManage => "preview.manage"
  | .integrationRead => "integration.read"
  | .integrationUse => "integration.use"
  | .integrationWrite => "integration.write"
  | .integrationManage => "integration.manage"
  | .changeRequestPublish => "change-request.publish"
  | .securityLabelsRaise => "security-labels.raise"
  | .securityLabelsLower => "security-labels.lower"

def SessionScopedAction.name : SessionScopedAction → String
  | .attach => "session.attach"
  | .stop => "session.stop"
  | .surface => "session.surface"
  | .proxy => "session.proxy"

namespace AuthorizationAction

def name : AuthorizationAction → String
  | .deployment a => a.name
  | .project a => a.name
  | .session a => a.name
  | .sessionStart => "session.start"

def scope : AuthorizationAction → ActionScope
  | .deployment _ => .deployment
  | .project _ => .project
  | .session _ => .session
  | .sessionStart => .sessionStart

end AuthorizationAction

/-- How a role denial presents: masked as nonexistent, or plain forbidden. -/
inductive DeniedAs where
  | notFound
  | forbidden
deriving DecidableEq

structure ProjectActionRule where
  min : Role
  deniedAs : DeniedAs
  requiresSuperAdmin : Bool
deriving DecidableEq

/-- `ACTION_RULES`, the project actions. -/
def ProjectAction.rule : ProjectAction → ProjectActionRule
  | .appRead => ⟨.appUser, .notFound, false⟩
  | .projectRead => ⟨.viewer, .notFound, false⟩
  | .projectUpdate => ⟨.manager, .forbidden, false⟩
  | .projectDelete => ⟨.manager, .forbidden, false⟩
  | .projectMembersManage => ⟨.manager, .forbidden, false⟩
  | .projectEventsRead => ⟨.manager, .forbidden, false⟩
  | .projectAlertsManage => ⟨.manager, .forbidden, false⟩
  | .notebookWrite => ⟨.editor, .forbidden, false⟩
  | .notebookManage => ⟨.manager, .forbidden, false⟩
  | .deepLinkManage => ⟨.manager, .forbidden, false⟩
  | .previewManage => ⟨.manager, .forbidden, false⟩
  | .integrationRead => ⟨.viewer, .forbidden, false⟩
  | .integrationUse => ⟨.editor, .forbidden, false⟩
  | .integrationWrite => ⟨.manager, .forbidden, false⟩
  | .integrationManage => ⟨.manager, .forbidden, false⟩
  | .changeRequestPublish => ⟨.manager, .forbidden, false⟩
  | .securityLabelsRaise => ⟨.viewer, .forbidden, true⟩
  | .securityLabelsLower => ⟨.viewer, .forbidden, true⟩

/-- `SESSION_ACTION_FOR`. -/
def SessionScopedAction.sessionAction : SessionScopedAction → SessionAction
  | .attach => .attach
  | .stop => .stop
  | .surface => .surface
  | .proxy => .attach

/-! ## Token grants -/

/-- Everything (`'*'`) or a list. -/
inductive Granted (α : Type) where
  | all
  | only (items : List α)
deriving DecidableEq

def Granted.includes {α : Type} [DecidableEq α] : Granted α → α → Bool
  | .all, _ => true
  | .only items, a => items.contains a

/-- `TokenGrantSchema`. -/
structure TokenGrant where
  actions : Granted AuthorizationAction
  projects : Granted ProjectId
deriving DecidableEq

def tokenGrantAllowsAction : Option TokenGrant → AuthorizationAction → Bool
  | none, _ => true
  | some grant, action =>
    if grant.projects ≠ .all ∧ action.scope = .deployment then false
    else grant.actions.includes action

def tokenGrantAllowsProject : Option TokenGrant → ProjectId → Bool
  | none, _ => true
  | some grant, id => grant.projects.includes id

/-- `SERVICE_ACCOUNT_ACTIONS`. -/
def serviceAccountActions : List AuthorizationAction := [.deployment .orgIntegrationManage]

def serviceAccountGrantAllowsAction : Option TokenGrant → AuthorizationAction → Bool
  | none, _ => false
  | some grant, action => decide (grant.actions ≠ .all) && serviceAccountActions.contains action &&
      tokenGrantAllowsAction (some grant) action

end MarimoHub.Source
