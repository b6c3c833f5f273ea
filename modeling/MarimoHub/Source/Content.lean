import MarimoHub.Source.Cas

/-!
# Stored content

Keys (`paths.ts`) and records (`schema.ts`) of the catalog and the project
records. A key stands for its path; a value is the parsed body of an object, and
`Val.corrupt` is a body that does not parse as anything. Reading a key whose
object holds a record of another type fails as a schema mismatch does.

Fields that no modelled function reads or writes are left out. Timestamps are
numbers of milliseconds; identifiers drawn by the services are numbers, and the
ids of users are the strings of the identity provider.
-/

namespace MarimoHub.Source

open ObjectStore

abbrev SnapshotId : Type := Nat
abbrev ProjectId : Type := Nat
abbrev NotebookId : Type := Nat
abbrev VersionId : Type := Nat
abbrev MoveId : Type := Nat
abbrev UserId : Type := String

/-- `SYSTEM_ACTOR`. -/
def systemActor : UserId := "system"

inductive Key where
  | catalog
  | snapshot (id : SnapshotId)
  | event (id : Nat)
  | project (id : ProjectId)
deriving DecidableEq

/-- `CatalogSchema`. -/
structure Catalog where
  version : Nat
  updatedAt : Nat
  currentSnapshotId : SnapshotId
  currentSnapshotKey : Key
  previousSnapshotId : Option SnapshotId
deriving DecidableEq

/-- `ResourceSecurityLabelsSchema`. -/
structure ResourceSecurityLabels where
  classification : String
  compartments : List String
deriving DecidableEq

inductive ProjectStatus where
  | active
  | deleted
deriving DecidableEq

inductive SessionMode where
  | edit
  | app
deriving DecidableEq

inductive EditorSandboxSharing where
  | shared
  | exclusive
deriving DecidableEq

/-- `ROLES`. -/
inductive Role where
  | admin
  | manager
  | editor
  | viewer
  | appUser
deriving DecidableEq

/-- `ASSIGNABLE_ROLES`, the roles managers and defaults may grant. -/
inductive AssignableRole where
  | manager
  | editor
  | viewer
  | appUser
deriving DecidableEq

def AssignableRole.toRole : AssignableRole → Role
  | .manager => .manager
  | .editor => .editor
  | .viewer => .viewer
  | .appUser => .appUser

/-- `ProjectDefaultRoleSchema`. -/
inductive ProjectDefaultRole where
  | inherit
  | none
  | role (role : AssignableRole)
deriving DecidableEq

/-- `ProjectMemberSchema`. -/
structure ProjectMember where
  userId : Option UserId
  email : Option String
  group : Option String
  role : Role
deriving DecidableEq

/-- `ProjectSchema`, the authoritative record. -/
structure Project where
  id : ProjectId
  name : String
  description : String
  owner : UserId
  members : List ProjectMember
  defaultRole : Option ProjectDefaultRole
  status : ProjectStatus
  updatedAt : Nat
  tags : List String
  securityLabels : Option ResourceSecurityLabels
deriving DecidableEq

/-- `NOTEBOOK_STATUSES`. -/
inductive NotebookStatus where
  | draft
  | active
  | archived
  | deleted
deriving DecidableEq

/-- `SOURCE_TYPES`. -/
inductive SourceType where
  | localSource
  | git
deriving DecidableEq

/-- `SnapshotProjectEntrySchema`. The label projection has three states: `none` is
absent (indeterminate), `some none` is `null` (known unlabelled). -/
structure SnapshotProjectEntry where
  id : ProjectId
  name : String
  description : String
  status : ProjectStatus
  updatedAt : Nat
  tags : Option (List String)
  memberIds : Option (List UserId)
  defaultRole : Option ProjectDefaultRole
  memberEmails : Option (List String)
  memberGroups : Option (List String)
  securityLabels : Option (Option ResourceSecurityLabels)
  securityLabelsPending : Bool
deriving DecidableEq

/-- `SnapshotSchema`. -/
structure Snapshot where
  snapshotId : SnapshotId
  schemaVersion : Nat
  createdAt : Nat
  operation : String
  actor : UserId
  projects : List SnapshotProjectEntry
deriving DecidableEq

/-- `NotebookMetaSchema`, the authoritative record. -/
structure NotebookMeta where
  preview : Option NotebookId
  id : NotebookId
  projectId : ProjectId
  title : String
  description : String
  status : NotebookStatus
  author : UserId
  createdAt : Nat
  updatedAt : Nat
  lastRunAt : Option Nat
  tags : List String
  baseImage : Option String
  computeProfile : Option String
  appComputeProfile : Option String
  securityLabels : Option ResourceSecurityLabels
  moveId : Option MoveId
deriving DecidableEq

/-- `GitSourceConfigSchema`. -/
structure GitSourceConfig where
  repo : String
  branch : String
  rootPath : String
  entryNotebook : String
deriving DecidableEq

inductive SyncMode where
  | push
  | pull
deriving DecidableEq

/-- `GitSourceSchema`. -/
structure GitSource extends GitSourceConfig where
  provider : Option String
  pendingConfig : Option GitSourceConfig
  syncMode : SyncMode
  currentVersionId : Option VersionId
  commit : Option String
  lastSyncedAt : Option Nat
deriving DecidableEq

/-- `SourceSchema`. -/
inductive SourceRecord where
  | localSource (entryNotebook : Option String) (currentVersionId : VersionId)
  | git (source : GitSource)
deriving DecidableEq

def SourceRecord.type : SourceRecord → SourceType
  | .localSource _ _ => .localSource
  | .git _ => .git

inductive MovePhase where
  | preparing
  | copying
  | published
  | complete
deriving DecidableEq

structure MoveLease where
  executor : Nat
  expiresAt : Nat
deriving DecidableEq

/-- `NotebookMoveSchema`. -/
structure NotebookMove where
  id : MoveId
  source : ProjectId
  phase : MovePhase
  lease : Option MoveLease
deriving DecidableEq

inductive Val where
  | catalog (c : Catalog)
  | snapshot (s : Snapshot)
  | event (operation : String) (actor : UserId)
  | project (p : Project)
  | corrupt
deriving DecidableEq

/-- What the content services ask of other services. -/
inductive ContentQuery where
  /-- The users known under some of the emails. -/
  | resolveIdentitiesByEmail (emails : List String)
deriving DecidableEq

/-- `none` is a failed request. -/
@[reducible] def ContentAnswer : ContentQuery → Type
  | .resolveIdentitiesByEmail _ => Option (List (String × UserId))

/-- The bucket, seen by the catalog and the content services. -/
@[reducible] def Content : Schema where
  Key := Key
  Val := Val
  Query := ContentQuery
  Answer := ContentAnswer

/-- `readStored(CatalogSchema, …)`. -/
def readCatalog : Val → Hub Content Catalog
  | .catalog c => pure c
  | _ => .raise .storedObject

/-- `readStored(SnapshotSchema, …)`. -/
def readSnapshotValue : Val → Hub Content Snapshot
  | .snapshot s => pure s
  | _ => .raise .storedObject

/-- `readStored(ProjectSchema, …)`. -/
def readProject : Val → Hub Content Project
  | .project p => pure p
  | _ => .raise .storedObject

end MarimoHub.Source
