import MarimoHub.Source.ProjectService
import MarimoHub.Source.SyncedNotebook

/-!
# Writers of a notebook's metadata

`updateNotebook`, `setSecurityLabels`, `commitSession` and `deleteNotebookWithMutation` of
`services/content/NotebookService.ts`, beside `updateSource` and `sync` of the synced notebook
service, for one notebook. The metadata record is written as the source writes it. The content
objects, the catalog entry and the cleanup after a deletion belong to other services and are asked
of them, and so is the wall clock of the machine a call runs on.
-/

namespace MarimoHub.Source.NotebookMetadata

open ObjectStore

def mutateNotebook (apply : NotebookMeta → Hub SyncStore (Option NotebookMeta)) :
    Hub SyncStore (ObjectMutationOutcome NotebookMeta) :=
  mutateObjectWithOutcome .metadata parseSyncedMeta apply SyncVal.metadata
    syncedNotFound defaultRetries

def updateEntry (operation : String) : Hub SyncStore Unit :=
  askSync (.updateNotebookEntry operation) >>= orRaise

/-! ## Updates -/

/-- A field the caller may leave out; `some none` clears a choice. -/
structure UpdateNotebookInput where
  title : Option String := none
  description : Option String := none
  tags : Option (List String) := none
  readme : Option String := none
  code : Option String := none
  deps : Option String := none
  baseImage : Option (Option String) := none
  computeProfile : Option (Option String) := none
  appComputeProfile : Option (Option String) := none

variable (input : UpdateNotebookInput) (expectedVersion : Option Nat) (current : NotebookMeta)

def applyUpdate : Hub SyncStore (Option NotebookMeta) := do
  assertNotMoving current
  assertVersionMatch current.updatedAt expectedVersion
  if current.status = .deleted then .raise syncedNotFound
  else do
    let now ← wallClock
    pure (some { current with
      title := input.title.getD current.title
      description := input.description.getD current.description
      tags := input.tags.getD current.tags
      baseImage := input.baseImage.getD current.baseImage
      computeProfile := input.computeProfile.getD current.computeProfile
      appComputeProfile := input.appComputeProfile.getD current.appComputeProfile
      updatedAt := nextIsoTimestamp current.updatedAt now })

def replacesSource : Bool := input.code.isSome || input.deps.isSome

def assertSourceUpdateAllowed : Hub SyncStore Unit := do
  let editors ← askSync .listEditorsBlockingSourceUpdate >>= orRaise
  if editors ≠ [] then
    .raise (.conflict ("Stored code cannot be replaced while persistent edit sessions can save: " ++
      ", ".intercalate editors ++ ". Edit in the live session, or stop it and wait for sandbox " ++
      "cleanup. Then reread the notebook and retry."))
  else pure ()

/-- The checks before the metadata is written. -/
def checkSourceUpdate (source : SourceRecord) (input : UpdateNotebookInput) : Hub SyncStore Unit :=
  if replacesSource input then
    if source.type ≠ .localSource then
      .raise (.conflict "Remote-backed notebook source is updated only by sync")
    else assertSourceUpdateAllowed
  else pure ()

/-- `assertWritable?.()`. -/
def assertWritable (leased : Bool) : Hub SyncStore Unit :=
  if leased then askSync .assertWritable >>= orRaise else pure ()

def updateNotebookFrom (detail : NotebookMeta × SourceRecord) (input : UpdateNotebookInput)
    (expectedVersion : Option Nat) (leased : Bool) : Hub SyncStore NotebookMeta := do
  assertVersionMatch detail.1.updatedAt expectedVersion
  checkSourceUpdate detail.2 input
  assertWritable leased
  let updated ← mutateNotebook (applyUpdate input expectedVersion)
  askSync .writeContent >>= orRaise
  updateEntry "notebook.update"
  pure updated.value

/-- `workspace.withMutation`, when content is replaced. -/
def withMutation (leased : Bool) : Hub SyncStore Unit :=
  if leased then askSync .workspaceLease >>= orRaise else pure ()

def updateNotebook : Hub SyncStore NotebookMeta := do
  let leased := replacesSource input || input.readme.isSome
  withMutation leased
  let detail ← getNotebook
  updateNotebookFrom detail input expectedVersion leased

/-! ## Security labels -/

def applySecurityLabels (labels : Option ResourceSecurityLabels) (expectedVersion : Option Nat)
    (current : NotebookMeta) : Hub SyncStore (Option NotebookMeta) := do
  assertNotMoving current
  assertVersionMatch current.updatedAt expectedVersion
  if current.status = .deleted then .raise syncedNotFound
  else do
    let now ← wallClock
    pure (some { current with
      securityLabels := labels, updatedAt := nextIsoTimestamp current.updatedAt now })

/-- A stale precondition is refused before the projection is parked. -/
def checkVersionFirst : Hub SyncStore Unit :=
  if expectedVersion.isSome then do
    match ← bucketGet .metadata with
    | none => .raise syncedNotFound
    | some object => do
      let current ← parseSyncedMeta object.value
      assertVersionMatch current.updatedAt expectedVersion
  else pure ()

/-- The errors after which the record is untouched, so the projection can be re-derived. -/
def refusedByCallback : HubError → Bool
  | .preconditionFailed _ => true
  | err => err.isNotFound

def unparkSecurityLabels (err : HubError) : Hub SyncStore Unit :=
  if refusedByCallback err then ignoringErrors (updateEntry "notebook.security_labels.rollback")
  else pure ()

def setSecurityLabels (labels : Option ResourceSecurityLabels) (expectedVersion : Option Nat) :
    Hub SyncStore NotebookMeta := do
  checkVersionFirst expectedVersion
  updateEntry "notebook.security_labels.pending"
  let updated ← Prog.tryCatch (mutateNotebook (applySecurityLabels labels expectedVersion))
    fun err => do
      unparkSecurityLabels err
      .raise err
  updateEntry "notebook.security_labels"
  pure updated.value

/-! ## Session commits -/

def applyCommit : Hub SyncStore (Option NotebookMeta) := do
  assertNotMoving current
  let now ← wallClock
  pure (some { current with updatedAt := nextIsoTimestamp current.updatedAt now })

/-- Invalidates reads made before the editor's final save, including same-millisecond saves. -/
def commitChanges : Hub SyncStore Unit := do
  askSync .writeContent >>= orRaise
  let _ ← mutateNotebook applyCommit
  updateEntry "notebook.update"

/-- `code` is what could be read back out of the sandbox. -/
def commitSession (code : Option String) : Hub SyncStore Unit := do
  let detail ← getNotebook
  if detail.1.preview.isSome then .raise (.conflict "Preview sessions cannot persist changes")
  else if detail.1.status = .deleted ∨ detail.2.type ≠ .localSource ∨ code = none then pure ()
  else do
    let changed ← askSync .sessionChanged >>= orRaise
    if changed then commitChanges else askSync .writeContent >>= orRaise

/-! ## Soft deletes -/

def applyDelete : Hub SyncStore (Option NotebookMeta) := do
  assertNotMoving current
  assertVersionMatch current.updatedAt expectedVersion
  if current.status = .deleted then pure none
  else do
    let now ← wallClock
    pure (some { current with status := .deleted, updatedAt := now })

def projectDeletion (written : Bool) : Hub SyncStore Unit :=
  if written then updateEntry "notebook.delete" else pure ()

def deleteNotebookWithMutation : Hub SyncStore (Option NotebookMeta) := do
  let outcome ← mutateNotebook (applyDelete expectedVersion)
  projectDeletion outcome.written
  askSync .retireDeleted >>= orRaise
  pure (if outcome.written then some outcome.value else none)

end MarimoHub.Source.NotebookMetadata
