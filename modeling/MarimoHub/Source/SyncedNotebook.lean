import Mathlib.Data.List.Sort
import MarimoHub.Source.Content
import MarimoHub.Source.Storage

/-!
# Synced notebooks

`sync` and `updateSource` of `services/content/SyncedNotebookService.ts` with the settings logic of
`integrations/syncedSource.ts`, the saga of `saga.ts` and the version pruning of
`NotebookService.ts`, for one notebook. How repository spellings and paths are parsed
(`integrations/gitRepo.ts`, `integrations/remoteWorkspace.ts`) and when an archive is built are
parameters (`GitRules`). The cached metadata read, the catalog entry and what live sessions
protect belong to other services and are asked of them. The writes of one batch are made in
order; a batch goes on after a failed write, as `allSettled` does.
-/

namespace MarimoHub.Source

open ObjectStore

/-! ## Records and requests -/

/-- `GitSourceRevisionSchema`. -/
structure GitSourceRevision extends GitSourceConfig where
  provider : Option String
  commit : String
deriving DecidableEq

/-- `VersionSchema`, as a sync writes it. -/
structure Version where
  versionId : VersionId
  savedAt : Nat
  author : UserId
  message : String
  parentId : Option VersionId
  commit : String
  gitSource : GitSourceRevision
deriving DecidableEq

structure WorkspaceFile where
  path : String
  bytes : String
deriving DecidableEq

structure SyncNotebookInput where
  repo : String
  branch : String
  rootPath : String
  commit : String
  files : List WorkspaceFile
  gitFiles : Option (List WorkspaceFile) := none
  /-- `none` is a push, which makes no demand. -/
  expectedSourceVersion : Option (Option VersionId) := none

structure UpdateSyncedNotebookSourceInput extends GitSourceConfig where
  syncMode : Option SyncMode := none

structure GitRules where
  normalizeRepo : String → Option String
  reposMatch : String → String → Bool
  detectProvider : String → Option String
  repoHost : String → Option String
  repoOrigin : String → Option String
  /-- `OWNER_REPO_PATTERN`. -/
  isOwnerRepo : String → Bool
  trim : String → String
  /-- `JSON.stringify` of a string. -/
  quote : String → String
  normalizeWorkspaceRootPath : String → Except HubError String
  normalizeEntryNotebook : String → Except HubError String
  /-- The path itself, or an error. -/
  normalizeWorkspaceFilePath : String → Except HubError Unit
  assertGitDirectoryLimits : List WorkspaceFile → Except HubError Unit
  /-- `none` when the input is too large or the archive cannot be built. -/
  packWorkspace : List WorkspaceFile → Option (List WorkspaceFile) → Option String

/-! ## Settings -/

section Settings

variable (rules : GitRules)

def normalizeGitSourceConfig (input : GitSourceConfig) : Except HubError GitSourceConfig :=
  if rules.trim input.repo = "" then .error (.validation "repo is required")
  else
    match rules.normalizeRepo input.repo with
    | none => .error (.validation "repo must be owner/repo (hosted on github.com) or a repository URL, e.g. acme/analytics or https://gitlab.example.com/group/project")
    | some repo =>
      if rules.trim input.branch = "" then .error (.validation "branch is required")
      else do
        let rootPath ← rules.normalizeWorkspaceRootPath input.rootPath
        let entryNotebook ← rules.normalizeEntryNotebook input.entryNotebook
        pure ⟨repo, rules.trim input.branch, rootPath, entryNotebook⟩

variable (current : GitSource) (source : GitSource)

def effectiveGitSourceConfig : GitSourceConfig :=
  source.pendingConfig.getD source.toGitSourceConfig

def providerForRepo (nextRepo : String) : Option String :=
  match rules.detectProvider nextRepo with
  | some detected => some detected
  | none =>
    if (rules.repoHost nextRepo).isSome ∧ rules.repoHost nextRepo = rules.repoHost current.repo then
      current.provider
    else none

def rehomeShorthand (config : GitSourceConfig) (origin : Option String) : GitSourceConfig :=
  match origin with
  | some origin =>
    if rules.isOwnerRepo config.repo then { config with repo := origin ++ "/" ++ config.repo }
    else config
  | none => config

def resolveUpdatedConfig (desired : GitSourceConfig) : GitSourceConfig :=
  let onGitHub := rules.repoHost current.repo = some "github.com"
  let rehomed := rehomeShorthand rules desired
    (if onGitHub then none else rules.repoOrigin current.repo)
  if rehomed.repo ≠ current.repo ∧ rules.reposMatch current.repo rehomed.repo then
    { rehomed with repo := current.repo }
  else rehomed

/-- The settings a source is given by an update; `none` when nothing changes. -/
def settleUpdate (resolved : GitSourceConfig) : Option GitSource :=
  if current.pendingConfig = some resolved then none
  else if current.toGitSourceConfig = resolved then
    if current.pendingConfig.isSome then some { current with pendingConfig := none } else none
  else if current.currentVersionId = none then
    some { current with
      toGitSourceConfig := resolved
      pendingConfig := none
      provider := providerForRepo rules current resolved.repo }
  else some { current with pendingConfig := some resolved }

def applyGitSourceUpdate (input : UpdateSyncedNotebookSourceInput) :
    Except HubError (Option GitSource) := do
  let desired ← normalizeGitSourceConfig rules input.toGitSourceConfig
  if input.syncMode.any (· ≠ current.syncMode) then
    .error (.validation "Changing sync_mode is not supported")
  else pure (settleUpdate rules current (resolveUpdatedConfig rules current desired))

/-- `!source.pending_config && source.commit === headCommit`. -/
def isAtBranchHead (headCommit : String) : Bool :=
  source.pendingConfig.isNone ∧ source.commit = some headCommit

variable (input : SyncNotebookInput)

def assertSyncSourcePrecondition : Except HubError Unit :=
  if input.expectedSourceVersion.any (· ≠ source.currentVersionId) then
    .error (.conflict "The synced source advanced while this sync was in flight; retry")
  else pure ()

def assertSyncedSource : SourceRecord → Except HubError GitSource
  | .git source => pure source
  | .localSource _ _ => .error (.conflict "Notebook is not backed by a synced source")

/-- The loop of `toSyncedWorkspaceFileMap`, with the paths seen so far. -/
def mapFiles (seen : List String) : List WorkspaceFile → Except HubError Unit
  | [] => pure ()
  | file :: rest => do
    rules.normalizeWorkspaceFilePath file.path
    if file.path ∈ seen then .error (.validation s!"Duplicate workspace file path: {file.path}")
    else mapFiles (file.path :: seen) rest

/-- The map is the list of its entries, in order. -/
def toSyncedWorkspaceFileMap (files : List WorkspaceFile) :
    Except HubError (List WorkspaceFile) := do
  mapFiles rules [] files
  if files = [] then .error (.validation "Sync archive did not contain any files") else pure files

structure SourceCheck where
  header : String
  received : String
  expected : String
  ok : Bool

def sourceChecks (config : GitSourceConfig) (input : SyncNotebookInput) (rootPath : String) :
    List SourceCheck :=
  [⟨"X-Marimohub-Repo", input.repo, config.repo, rules.reposMatch config.repo input.repo⟩,
   ⟨"X-Marimohub-Branch", input.branch, config.branch, input.branch = config.branch⟩,
   ⟨"X-Marimohub-Root-Path", rootPath, config.rootPath, rootPath = config.rootPath⟩]

def mismatchText (check : SourceCheck) : String :=
  check.header ++ " received " ++ rules.quote check.received ++ ", expected " ++
    rules.quote check.expected

def sourceMismatch (mismatches : List SourceCheck) : HubError :=
  .validation ("Sync source mismatch: " ++
    String.intercalate "; " (mismatches.map (mismatchText rules)) ++
    ". Update the request headers or the notebook's sync settings.")

structure PreparedSync where
  commit : String
  config : GitSourceConfig
  files : List WorkspaceFile

def prepareSync : Except HubError PreparedSync := do
  let config := effectiveGitSourceConfig source
  let rootPath ← rules.normalizeWorkspaceRootPath input.rootPath
  let mismatches := (sourceChecks rules config input rootPath).filter fun check => !check.ok
  if mismatches ≠ [] then .error (sourceMismatch rules mismatches)
  else if rules.trim input.commit = "" then .error (.validation "commit is required")
  else do
    let files ← toSyncedWorkspaceFileMap rules input.files
    if files.any fun file => file.path = config.entryNotebook then
      pure ⟨rules.trim input.commit, config, files⟩
    else .error (.validation s!"entry_notebook not found in sync archive: {config.entryNotebook}")

/-- The source record a sync advances to; `none` when the commit is already served. -/
def advancedSource (versionId : VersionId) (now : Nat)
    (current : GitSource) : Except HubError (Option GitSource) := do
  let prepared ← prepareSync rules current input
  if isAtBranchHead current prepared.commit then pure none
  else do
    assertSyncSourcePrecondition current input
    pure (some { current with
      toGitSourceConfig := prepared.config
      pendingConfig := none
      provider := providerForRepo rules current prepared.config.repo
      currentVersionId := some versionId
      commit := some prepared.commit
      lastSyncedAt := some now })

end Settings

/-! ## The bucket -/

inductive VersionPart where
  /-- `version.json`. -/
  | record
  | workspaceArchive
  | workspace (path : String)
  | git (path : String)
deriving DecidableEq

inductive SyncKey where
  | metadata
  | source
  | version (id : VersionId) (part : VersionPart)
deriving DecidableEq

inductive SyncVal where
  | metadata (stored : NotebookMeta)
  | source (source : SourceRecord)
  | version (version : Version)
  | file (bytes : String)
  | corrupt
deriving DecidableEq

inductive SyncQuery where
  /-- The cached metadata read of `getNotebook`. -/
  | readNotebookMeta
  | updateNotebookEntry (operation : String)
  | advanceVersionPruneCutoff (cutoff : VersionId)
  | listProtectedVersionIds
  /-- `new Date()` of the machine the call runs on. -/
  | wallClock
  /-- Taking and keeping the workspace lease of a call that replaces content. -/
  | workspaceLease
  | assertWritable
  | listEditorsBlockingSourceUpdate
  /-- Whether a session's code or dependencies differ from the current version's. -/
  | sessionChanged
  /-- The content objects a call writes beside the records modelled here. -/
  | writeContent
  /-- The app pool, thumbnails, claims and deep links of a deleted notebook. -/
  | retireDeleted
deriving DecidableEq

@[reducible] def SyncAnswer : SyncQuery → Type
  | .readNotebookMeta => Except HubError NotebookMeta
  | .listProtectedVersionIds => Except HubError (List VersionId)
  | .wallClock => Nat
  | .listEditorsBlockingSourceUpdate => Except HubError (List String)
  | .sessionChanged => Except HubError Bool
  | _ => Except HubError Unit

@[reducible] def SyncStore : Schema where
  Key := SyncKey
  Val := SyncVal
  Query := SyncQuery
  Answer := SyncAnswer

def askSync (q : SyncQuery) : Hub SyncStore (SyncAnswer q) := Prog.perform (B := SyncStore) (.ask q)

/-- Clocks of different machines may disagree, and a clock may be set back. -/
def wallClock : Hub SyncStore Nat := askSync .wallClock

def parseSourceRecord : SyncVal → Hub SyncStore SourceRecord
  | .source source => pure source
  | _ => .raise .storedObject

def parseSyncedMeta : SyncVal → Hub SyncStore NotebookMeta
  | .metadata stored => pure stored
  | _ => .raise .storedObject

def syncedNotFound : HubError := .notFound "Notebook not found"

def getNotebook : Hub SyncStore (NotebookMeta × SourceRecord) := do
  let stored ← askSync .readNotebookMeta >>= orRaise
  match ← bucketGet .source with
  | none => .raise syncedNotFound
  | some object => do
    let source ← parseSourceRecord object.value
    pure (stored, source)

def assertNotMoving (stored : NotebookMeta) : Hub SyncStore Unit :=
  if stored.moveId.isSome then .raise (.moveInProgress "Notebook is being moved") else pure ()

/-- `source.json` carries no fence, so writers check the metadata stamp before changing it. -/
def assertNotFenced : Hub SyncStore Unit := do
  match ← bucketGet .metadata with
  | none => pure ()
  | some object => do
    let stored ← parseSyncedMeta object.value
    assertNotMoving stored

def mutateMeta (apply : NotebookMeta → Hub SyncStore (Option NotebookMeta)) :
    Hub SyncStore NotebookMeta :=
  mutateObject .metadata parseSyncedMeta apply SyncVal.metadata
    (.notFound "Object meta.json not found") defaultRetries

def mutateSource (apply : SourceRecord → Hub SyncStore (Option SourceRecord)) :
    Hub SyncStore SourceRecord :=
  mutateObject .source parseSourceRecord apply SyncVal.source
    (.notFound "Object source.json not found") defaultRetries

/-! ## Updating the settings -/

def touchMeta (now : Nat) (current : NotebookMeta) : Hub SyncStore (Option NotebookMeta) := do
  assertNotMoving current
  pure (some { current with updatedAt := now })

def updateSettings (rules : GitRules) (input : UpdateSyncedNotebookSourceInput)
    (current : SourceRecord) : Hub SyncStore (Option SourceRecord) := do
  let git ← orRaise (assertSyncedSource current)
  let updated ← orRaise (applyGitSourceUpdate rules git input)
  pure (updated.map SourceRecord.git)

def updateSource (rules : GitRules) (input : UpdateSyncedNotebookSourceInput) :
    Hub SyncStore SourceRecord := do
  assertNotFenced
  let source ← mutateSource (updateSettings rules input)
  let now ← wallClock
  let _ ← mutateMeta (touchMeta now)
  askSync (.updateNotebookEntry "notebook.synced.source.update") >>= orRaise
  pure source

/-! ## Versions -/

def isWorkspaceKey (id : VersionId) : SyncKey → Bool
  | .version v (.workspace _) => v = id
  | _ => false

def isGitKey (id : VersionId) : SyncKey → Bool
  | .version v (.git _) => v = id
  | _ => false

def isVersionObject (id : VersionId) : SyncKey → Bool
  | .version v _ => v = id
  | _ => false

def isSyncedVersionKey : SyncKey → Bool
  | .version _ _ => true
  | _ => false

/-- How the listings of one sync are cut into pages. -/
structure SyncPaging where
  workspace : ∀ id, Pages SyncStore (isWorkspaceKey id)
  git : ∀ id, Pages SyncStore (isGitKey id)
  folders : Pages SyncStore isSyncedVersionKey
  targets : ∀ id, Pages SyncStore (isVersionObject id)

def deleteVersion (paging : SyncPaging) (id : VersionId) : Hub SyncStore Unit := do
  let workspaceKeys ← listAllKeys (paging.workspace id)
  let gitKeys ← listAllKeys (paging.git id)
  bucketDeleteAll
    (.version id .record :: .version id .workspaceArchive :: (workspaceKeys ++ gitKeys))

/-- A write of the batch; the errors of an optional one are logged. -/
structure VersionWrite where
  part : VersionPart
  value : SyncVal
  optional : Bool := false

def putPart (id : VersionId) (write : VersionWrite) : Hub SyncStore (Option HubError) :=
  Prog.tryCatch (do
    let _ ← bucketPut (.version id write.part) write.value .any
    pure none) fun err => pure (if write.optional then none else some err)

/-- The first error of a batch of writes. -/
def settleWrites (id : VersionId) : List VersionWrite → Hub SyncStore (Option HubError)
  | [] => pure none
  | write :: rest => do
    let failed ← putPart id write
    let others ← settleWrites id rest
    pure (failed <|> others)

variable (paging : SyncPaging)

/-- `compensableWrite`. -/
def writeVersion (id : VersionId) (writes : List VersionWrite) : Hub SyncStore Unit := do
  match ← settleWrites id writes with
  | none => pure ()
  | some err => do
    ignoringErrors (deleteVersion paging id)
    .raise err

def versionWrites (rules : GitRules) (version : Version) (files : List WorkspaceFile)
    (gitFiles : Option (List WorkspaceFile)) : List VersionWrite :=
  ⟨.record, .version version, false⟩ ::
    ((rules.packWorkspace files gitFiles).toList.map fun archive =>
        ⟨.workspaceArchive, .file archive, true⟩) ++
    (files.map fun file => ⟨.workspace file.path, .file file.bytes, false⟩) ++
    (gitFiles.getD []).map fun file => ⟨.git file.path, .file file.bytes, false⟩

/-! ## Pruning -/

def maxVersions : Nat := 50

def versionOfSyncKey : SyncKey → Option VersionId
  | .version v _ => some v
  | _ => none

/-- The version folders, oldest first. -/
def syncedFolders (keys : List SyncKey) : List VersionId :=
  (keys.filterMap versionOfSyncKey).dedup.insertionSort (· ≤ ·)

def listPruned (paging : SyncPaging) : List VersionId → Hub SyncStore (List SyncKey)
  | [] => pure []
  | target :: rest => do
    let keys ← listAllKeys (paging.targets target)
    let others ← listPruned paging rest
    pure (keys ++ others)

/-- `pruneVersions` of the notebook service; its errors are logged. -/
def pruneSyncedVersions (keep : VersionId) : Hub SyncStore Unit :=
  ignoringErrors do
    let keys ← listAllKeys paging.folders
    let folders := syncedFolders keys
    let prunable := folders.take (folders.length - maxVersions)
    match prunable.getLast? with
    | none => pure ()
    | some cutoff => do
      askSync (.advanceVersionPruneCutoff cutoff) >>= orRaise
      let protectedIds ← askSync .listProtectedVersionIds >>= orRaise
      let targets := prunable.filter fun version => version ∉ keep :: protectedIds
      let doomed ← listPruned paging targets
      bucketDeleteAll doomed

/-! ## Syncing -/

def advanceStep (rules : GitRules) (input : SyncNotebookInput) (versionId : VersionId) (now : Nat)
    (current : SourceRecord) : Hub SyncStore (Option SourceRecord) := do
  let git ← orRaise (assertSyncedSource current)
  let advanced ← orRaise (advancedSource rules input versionId now git)
  pure (advanced.map SourceRecord.git)

/-- Advances the pointer, and answers the version that pruning must keep: a concurrent sync of
the same commit may have won. -/
def advanceSource (rules : GitRules) (input : SyncNotebookInput) (versionId : VersionId)
    (now : Nat) : Hub SyncStore VersionId := do
  assertNotFenced
  let advanced ← mutateSource (advanceStep rules input versionId now)
  let git ← orRaise (assertSyncedSource advanced)
  pure (git.currentVersionId.getD versionId)

def activateMeta (current : NotebookMeta) : Hub SyncStore (Option NotebookMeta) := do
  assertNotMoving current
  if current.status = .deleted then .raise syncedNotFound
  else do
    let now ← wallClock
    pure (some { current with status := .active, updatedAt := now })

def buildVersion (rules : GitRules) (source : GitSource) (prepared : PreparedSync)
    (versionId : VersionId) (now : Nat) (actor : UserId) : Version where
  versionId := versionId
  savedAt := now
  author := actor
  message := "Sync " ++ prepared.commit.take 12
  parentId := source.currentVersionId
  commit := prepared.commit
  gitSource := {
    toGitSourceConfig := prepared.config
    provider := providerForRepo rules source prepared.config.repo
    commit := prepared.commit }

structure SyncResult where
  stored : NotebookMeta
  versionId : Option VersionId

/-- The saga and what follows its commit point. -/
def commitSync (rules : GitRules) (paging : SyncPaging) (input : SyncNotebookInput)
    (actor : UserId) (source : GitSource) (prepared : PreparedSync)
    (gitFiles : Option (List WorkspaceFile)) : Hub SyncStore SyncResult := do
  let now ← wallClock
  let versionId ← createId
  let version := buildVersion rules source prepared versionId now actor
  writeVersion paging versionId (versionWrites rules version prepared.files gitFiles)
  let versionToKeep ← Prog.tryCatch (advanceSource rules input versionId now) fun err => do
    ignoringErrors (deleteVersion paging versionId)
    .raise err
  let updated ← mutateMeta activateMeta
  askSync (.updateNotebookEntry "notebook.synced.sync") >>= orRaise
  pruneSyncedVersions paging versionToKeep
  pure ⟨updated, if versionToKeep = versionId then some versionId else none⟩

/-- The Git files of the request, checked. -/
def syncedGitFiles (rules : GitRules) (source : GitSource) (input : SyncNotebookInput) :
    Except HubError (Option (List WorkspaceFile)) :=
  match input.gitFiles with
  | none =>
    if source.syncMode = .pull then
      .error (.badRequest "Pull sync did not include Git metadata")
    else pure none
  | some files => do
    rules.assertGitDirectoryLimits files
    let mapped ← toSyncedWorkspaceFileMap rules files
    pure (some mapped)

def sync (rules : GitRules) (paging : SyncPaging) (input : SyncNotebookInput) (actor : UserId) :
    Hub SyncStore SyncResult := do
  let notebook ← getNotebook
  if notebook.1.status = .deleted then .raise syncedNotFound
  else do
    let source ← orRaise (assertSyncedSource notebook.2)
    let prepared ← orRaise (prepareSync rules source input)
    let gitFiles ← orRaise (syncedGitFiles rules source input)
    if isAtBranchHead source prepared.commit then pure ⟨notebook.1, none⟩
    else do
      orRaise (assertSyncSourcePrecondition source input)
      commitSync rules paging input actor source prepared gitFiles

end MarimoHub.Source
