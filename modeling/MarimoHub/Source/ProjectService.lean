import Mathlib.Data.List.Sort
import MarimoHub.Source.CatalogService
import MarimoHub.Source.ProjectMembers

/-!
# The project service

`services/content/ProjectService.ts` and `catalogProjection.ts`: the record
`project.json` is authoritative, and the catalog entry is a projection of it that is
written afterwards. Setting the security labels parks the projection first, so that
lists consult the record while the two may disagree.

Left out are the audit context of the snapshots, the operational log, the federation
field, and the cleanup after a soft delete (app pools, thumbnails, deep links), which
touches neither the catalog nor the records.
-/

namespace MarimoHub.Source

open ObjectStore

/-! ## Projections -/

/-- The label fields of a projection patch: new labels, and the new marker. -/
def securityLabelsProjection (project : Project) (entry target : SnapshotProjectEntry)
    (finalizeSecurityLabels : Bool) : Option (Option ResourceSecurityLabels) × Bool :=
  if finalizeSecurityLabels then (some project.securityLabels, false)
  else if entry.securityLabelsPending then (none, target.securityLabelsPending)
  else (some project.securityLabels, target.securityLabelsPending)

def projectCatalogPatch (project : Project) (entry : SnapshotProjectEntry)
    (finalizeSecurityLabels : Bool) : ProjectPatch := fun target =>
  let labels := securityLabelsProjection project entry target finalizeSecurityLabels
  { target with
    name := project.name
    description := project.description
    status := project.status
    tags := some project.tags
    defaultRole := some (project.defaultRole.getD .inherit)
    updatedAt := max entry.updatedAt project.updatedAt
    memberIds := some (project.members.filterMap ProjectMember.userId)
    memberEmails := some (project.members.filterMap ProjectMember.email)
    memberGroups := some (project.members.filterMap ProjectMember.group)
    securityLabels := labels.1
    securityLabelsPending := labels.2 }

variable (engine : Engine) (id : ProjectId)

def loadProjectCatalogPatch (entry : SnapshotProjectEntry)
    (finalizeSecurityLabels : Bool) : Hub Content (Option ProjectPatch) := do
  match ← bucketGet (.project id) with
  | none => pure none
  | some obj =>
    let project ← readProject obj.value
    pure (some (projectCatalogPatch project entry finalizeSecurityLabels))

theorem loadProjectCatalogPatch_spares {id : ProjectId} {entry : SnapshotProjectEntry}
    {finalizeSecurityLabels : Bool} :
    (loadProjectCatalogPatch id entry finalizeSecurityLabels).OpsAll SparesCatalog := by
  refine ⟨trivial, fun r => ?_⟩
  cases r with
  | found v tag => cases v <;> trivial
  | _ => trivial

/-- A projection of the record as it is inside the CAS attempt. -/
def projectRecord (finalizeSecurityLabels : Bool) : ProjectPatchFn where
  load entry := loadProjectCatalogPatch id entry finalizeSecurityLabels
  spares _ := loadProjectCatalogPatch_spares

/-- The projection of a tombstone, also when the record is gone. -/
def projectTombstone (updated : Project) : ProjectPatchFn where
  load entry := do
    let loaded ← loadProjectCatalogPatch id entry false
    pure (some (loaded.getD (projectCatalogPatch updated entry false)))
  spares _ := loadProjectCatalogPatch_spares.bind fun _ => trivial

/-- `{ security_labels: undefined, security_labels_pending: true }`. -/
def parkSecurityLabels : ProjectPatchFn where
  load _ := pure (some fun target =>
    { target with securityLabels := none, securityLabelsPending := true })
  spares _ := trivial

/-! ## Records -/

def projectNotFound : HubError := .notFound s!"Project {id} not found"

def getProject : Hub Content Project := do
  match ← bucketGet (.project id) with
  | none => .raise (projectNotFound id)
  | some obj => readProject obj.value

structure UpdateProjectInput where
  defaultRole : Option ProjectDefaultRole
  name : Option String
  description : Option String
  tags : Option (List String)

def normalizeProjectName (name : String) : Hub Content String :=
  let normalized := String.ofList (name.toList.filter fun c => !engine.isControlOrFormat c)
  if engine.trim normalized = "" then
    .raise (.validation "Project name must contain a visible character.")
  else pure normalized

/-- The callback of `updateProject`. -/
def applyUpdate (name : Option String) (input : UpdateProjectInput)
    (expectedVersion : Option Nat) (current : Project) : Hub Content (Option Project) := do
  assertVersionMatch current.updatedAt expectedVersion
  if current.status = .deleted then .raise (projectNotFound id)
  else
    let now ← dateNow
    pure (some { current with
      name := name.getD current.name
      description := input.description.getD current.description
      tags := input.tags.getD current.tags
      defaultRole := input.defaultRole <|> current.defaultRole
      updatedAt := nextIsoTimestamp current.updatedAt now })

def mutateProject (apply : Project → Hub Content (Option Project)) :
    Hub Content (ObjectMutationOutcome Project) :=
  mutateObjectWithOutcome (.project id) readProject apply .project (projectNotFound id)
    defaultRetries

def updateProject (input : UpdateProjectInput) (actor : UserId)
    (expectedVersion : Option Nat) : Hub Content Project := do
  let name ← match input.name with
    | none => pure none
    | some name => some <$> normalizeProjectName engine name
  let updated ← mutateProject id (applyUpdate id name input expectedVersion)
  let _ ← updateProjectEntry "project.update" actor id (projectRecord id false)
  pure updated.value

/-! ## Security labels -/

/-- Compartments deduplicated and sorted. -/
def normalizeSecurityLabels (labels : ResourceSecurityLabels) : ResourceSecurityLabels :=
  { labels with compartments := labels.compartments.dedup.insertionSort (· ≤ ·) }

/-- The callback of `setSecurityLabels`. -/
def applySecurityLabels (normalized : Option ResourceSecurityLabels)
    (expectedVersion : Option Nat) (current : Project) : Hub Content (Option Project) := do
  assertVersionMatch current.updatedAt expectedVersion
  if current.status = .deleted then .raise (projectNotFound id)
  else
    let now ← dateNow
    pure (some { current with
      securityLabels := normalized
      updatedAt := nextIsoTimestamp current.updatedAt now })

def pendingOperation : String := "project.security_labels.pending"
def labelsOperation : String := "project.security_labels"
def rollbackOperation : String := "project.security_labels.rollback"

variable (actor : UserId)

/-- A failed rollback is logged, not raised. -/
def unparkSecurityLabels : Hub Content Unit :=
  ignoringErrors do
    let _ ← updateProjectEntry rollbackOperation actor id (projectRecord id true)
    pure ()

def checkVersionFirst : Option Nat → Hub Content Unit
  | none => pure ()
  | some expected => do
    let project ← getProject id
    assertVersionMatch project.updatedAt (some expected)

/-- The authoritative write; a rejection by its callback unparks the projection. -/
def writeSecurityLabels (normalized : Option ResourceSecurityLabels)
    (actor : UserId) (expectedVersion : Option Nat) : Hub Content Project :=
  (do
    let outcome ← mutateProject id (applySecurityLabels id normalized expectedVersion)
    pure outcome.value).tryCatch fun
    | .preconditionFailed message => do
      unparkSecurityLabels id actor
      .raise (.preconditionFailed message)
    | .notFound message => do
      unparkSecurityLabels id actor
      .raise (.notFound message)
    | .moveInProgress message => do
      unparkSecurityLabels id actor
      .raise (.moveInProgress message)
    | err => .raise err

def setSecurityLabels (labels : Option ResourceSecurityLabels) (actor : UserId)
    (expectedVersion : Option Nat) : Hub Content Project := do
  let normalized := labels.map normalizeSecurityLabels
  checkVersionFirst id expectedVersion
  let _ ← updateProjectEntry pendingOperation actor id parkSecurityLabels
  let updated ← writeSecurityLabels id normalized actor expectedVersion
  let _ ← updateProjectEntry labelsOperation actor id (projectRecord id true)
  pure updated

/-! ## Members -/

/-- How a caller derives the new roster; it may throw. -/
abbrev DeriveMembers : Type := Project → ClaimedInviteRows → Except HubError (List ProjectMember)

structure MemberObject where
  project : Project
  claimedRows : Nat
  written : Bool

def mutateMemberObject (deriveMembers : DeriveMembers)
    (skipIfNoClaims : Bool) (resolver : InviteResolver) : Hub Content MemberObject :=
  withCasRetry defaultRetries do
    match ← bucketGet (.project id) with
    | none => .raise (projectNotFound id)
    | some object =>
      let current ← readProject object.value
      if current.status = .deleted then .raise (projectNotFound id)
      else
        let claimed ← claimInviteRows engine current.members resolver
        if skipIfNoClaims = true ∧ claimed.claimedRows = 0 then pure ⟨current, 0, false⟩
        else
          match deriveMembers current claimed with
          | .error err => .raise err
          | .ok members =>
            let now ← dateNow
            let updated := { current with
              members := members
              updatedAt := nextIsoTimestamp current.updatedAt now }
            let _ ← casPut (.project id) (.project updated) (.ifMatch object.etag)
            pure ⟨updated, claimed.claimedRows, true⟩

def writeMembers (deriveMembers : DeriveMembers)
    (actor : UserId) : Hub Content (Project × SnapshotId) := do
  let object ← mutateMemberObject engine id deriveMembers false .provider
  let snapshot ← updateProjectEntry "project.members" actor id (projectRecord id false)
  pure (object.project, snapshot.snapshotId)

/-- The roster fields of the entry are those of the record. -/
def projectionIsCurrent (candidate : SnapshotProjectEntry) (project : Project) : Bool :=
  let projection := projectCatalogPatch project candidate false candidate
  candidate.memberIds = projection.memberIds && candidate.memberEmails = projection.memberEmails &&
    candidate.memberGroups = projection.memberGroups

def claimProjectInvites (candidate : SnapshotProjectEntry)
    (resolved : List (String × UserId)) : Hub Content Nat :=
  (do
    let result ← mutateMemberObject engine candidate.id (fun _ claimed => .ok claimed.members) true
      (.swept resolved)
    if !result.written && projectionIsCurrent candidate result.project then pure 0
    else
      let operation :=
        if result.written then "project.members.claim" else "project.members.repair"
      let _ ← updateProjectEntry operation systemActor candidate.id
        (projectRecord candidate.id false)
      pure result.claimedRows).tryCatch fun err =>
    if err.isNotFound then pure 0 else .raise err

/-! ## Soft delete -/

variable (expectedVersion : Option Nat)

/-- The callback of `deleteProject`; the tombstone takes the clock's time as it is. -/
def applyDelete (current : Project) : Hub Content (Option Project) := do
  assertVersionMatch current.updatedAt expectedVersion
  if current.status = .deleted then pure none
  else
    let now ← dateNow
    pure (some { current with status := .deleted, updatedAt := now })

def deleteProject : Hub Content (Option (Project × SnapshotId)) := do
  let outcome ← mutateProject id (applyDelete expectedVersion)
  if outcome.written then
    let snapshot ← updateProjectEntry "project.delete" actor id (projectTombstone id outcome.value)
    pure (some (outcome.value, snapshot.snapshotId))
  else pure none

end MarimoHub.Source
