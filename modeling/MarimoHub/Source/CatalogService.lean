import MarimoHub.Source.Content

/-!
# The catalog service

`services/catalog/CatalogService.ts`: `catalog.json` points at an immutable
snapshot object, and every change writes a new snapshot and swaps the pointer by
compare-and-swap.

Object identity in `mutateSnapshot` matters: `result === draft` asks whether the
callback returned the very object it was given, possibly edited in place.
`MutateResult` keeps that bit next to the contents. The callback is a program that
leaves the catalog and the snapshots alone (`MutateFn.spares`); apart from that it
may do anything, differently in each attempt.

Metrics are left out. The process-local snapshot cache is the operation `peek`,
which answers with something once stored under the key, or misses; its fill
(`cache.set`) needs no model then.
-/

namespace MarimoHub.Source

open ObjectStore

def currentSnapshotVersion : Nat := 1

/-- What a callback returned: the draft it was given, now holding `s`, or another
object. -/
inductive MutateResult where
  | draft (s : Snapshot)
  | fresh (s : Snapshot)
deriving DecidableEq

def MutateResult.value : MutateResult → Snapshot
  | .draft s => s
  | .fresh s => s

/-- Neither the catalog pointer nor a snapshot is written or deleted. -/
def SparesCatalog : Op Content → Prop
  | .put k _ _ => k ≠ .catalog ∧ ∀ n, k ≠ .snapshot n
  | .delete k => k ≠ .catalog ∧ ∀ n, k ≠ .snapshot n
  | _ => True

structure MutateFn where
  run : Snapshot → Hub Content MutateResult
  spares : ∀ s, (run s).OpsAll SparesCatalog

/-- A callback that performs no operation of its own. -/
def MutateFn.pure (f : Snapshot → MutateResult) : MutateFn where
  run s := .ret (f s)
  spares _ := trivial

/-! ## Reading -/

def snapshotNotFound (catalog : Catalog) : HubError :=
  .notInitialized s!"Catalog recovery required: snapshot {catalog.currentSnapshotId} not found"

/-- `cache.read(key, load)` of `readSnapshotEntry`. -/
def readSnapshot (catalog : Catalog) : Hub Content Snapshot := do
  match ← Prog.perform (.peek catalog.currentSnapshotKey) with
  | .hit v => readSnapshotValue v
  | .absent => .raise (snapshotNotFound catalog)
  | .fail => .raise .storage
  | .miss =>
    match ← bucketGet catalog.currentSnapshotKey with
    | none => .raise (snapshotNotFound catalog)
    | some object => readSnapshotValue object.value

def catalogNotFound : HubError :=
  .notInitialized "Catalog not found — call initialize() first"

/-- The pointer cache revalidates every read against the bucket. -/
def readCurrentCatalog : Hub Content Catalog := do
  match ← bucketGet .catalog with
  | none => .raise catalogNotFound
  | some object => readCatalog object.value

def getCurrentSnapshot : Hub Content Snapshot := do
  readSnapshot (← readCurrentCatalog)

/-! ## Writing -/

variable (operation : String) (actor : UserId)

/-- Audit record of a committed mutation; failures are swallowed. -/
def appendAudit : Hub Content Unit :=
  ignoringErrors do
    let id ← createId
    let _ ← bucketPut (.event id) (.event operation actor) .ifAbsent
    pure ()

structure MutateCall where
  operation : String
  actor : UserId
  mutateFn : MutateFn
  retries : Nat

def MutateCall.newSnapshot (call : MutateCall) (current : Snapshot) (result : MutateResult)
    (id : SnapshotId) (now : Nat) : Snapshot :=
  { result.value with
    snapshotId := id
    schemaVersion := max currentSnapshotVersion current.schemaVersion
    createdAt := now
    operation := call.operation
    actor := call.actor }

def newCatalog (previous : Catalog) (id : SnapshotId) (now : Nat) : Catalog where
  version := 1
  updatedAt := now
  currentSnapshotId := id
  currentSnapshotKey := .snapshot id
  previousSnapshotId := some previous.currentSnapshotId

/-- One CAS attempt: the snapshot to return, and whether it was committed. -/
def mutateAttempt (call : MutateCall) : Hub Content (Snapshot × Bool) := do
  match ← bucketGet .catalog with
  | none => .raise catalogNotFound
  | some catalogObj =>
    let catalog ← readCatalog catalogObj.value
    let currentSnapshot ← readSnapshot catalog
    let result ← call.mutateFn.run currentSnapshot
    if result = .draft currentSnapshot then
      pure (currentSnapshot, false)
    else
      let newSnapshotId ← createId
      let now ← dateNow
      let newSnapshot := call.newSnapshot currentSnapshot result newSnapshotId now
      let _ ← bucketPut (.snapshot newSnapshotId) (.snapshot newSnapshot) .ifAbsent
      let _ ← (casPut (B := Content) .catalog (.catalog (newCatalog catalog newSnapshotId now))
          (.ifMatch catalogObj.etag)).tryCatch fun err =>
        match err with
        -- only a lost CAS proves the pointer never moved
        | .casWriteConflict message => do
          ignoringErrors (bucketDelete (.snapshot newSnapshotId))
          .raise (.casWriteConflict message)
        | err => .raise err
      pure (newSnapshot, true)

def mutateSnapshot (call : MutateCall) : Hub Content Snapshot := do
  let (snapshot, committed) ← withCasRetry call.retries (mutateAttempt call)
  if committed then
    appendAudit call.operation call.actor
  pure snapshot

/-! ## Project entries -/

/-- `Partial<SnapshotProjectEntry>`, as what spreading it over an entry does. -/
abbrev ProjectPatch : Type := SnapshotProjectEntry → SnapshotProjectEntry

/-- A patch computed from the entry, or none. -/
structure ProjectPatchFn where
  load : SnapshotProjectEntry → Hub Content (Option ProjectPatch)
  spares : ∀ entry, (load entry).OpsAll SparesCatalog

/-- `projectsById(snapshot).get(id)`: of entries with one id the last counts. -/
def projectById (snapshot : Snapshot) (id : ProjectId) : Option SnapshotProjectEntry :=
  snapshot.projects.reverse.find? fun entry => entry.id = id

def patchProjects (snapshot : Snapshot) (id : ProjectId) (patch : ProjectPatch) : Snapshot :=
  { snapshot with
    projects := snapshot.projects.map fun entry => if entry.id = id then patch entry else entry }

/-- The callback of `updateProjectEntry`. -/
def patchProjectFn (id : ProjectId) (patch : ProjectPatchFn) : MutateFn where
  run snap :=
    match projectById snap id with
    | none => pure (.draft snap)
    | some project => do
      let projectPatch ← patch.load project
      pure (.fresh (patchProjects snap id (projectPatch.getD fun entry => entry)))
  spares snap := by
    cases projectById snap id with
    | none => trivial
    | some project => exact (patch.spares project).bind fun _ => trivial

def projectEntryCall (id : ProjectId) (patch : ProjectPatchFn) : MutateCall :=
  ⟨operation, actor, patchProjectFn id patch, defaultRetries⟩

def updateProjectEntry (id : ProjectId) (patch : ProjectPatchFn) : Hub Content Snapshot :=
  mutateSnapshot (projectEntryCall operation actor id patch)

/-! ## Bootstrap -/

def initializeSnapshotScanLimit : Nat := 20

def isProjectKey : Key → Bool
  | .project _ => true
  | _ => false

def isSnapshotKey : Key → Bool
  | .snapshot _ => true
  | _ => false

/-- The object under `key` is gone or an empty `system.initialize` snapshot. -/
def emptyInitializeSnapshot (key : Key) : Hub Content Bool := do
  match ← bucketGet key with
  | none => pure true
  | some object =>
    match object.value with
    | .snapshot s => pure (s.operation = "system.initialize" ∧ s.projects = [])
    | _ => pure false

def everyEmpty : List Key → Hub Content Bool
  | [] => pure true
  | key :: rest => do
    let here ← emptyInitializeSnapshot key
    let others ← everyEmpty rest
    pure (here && others)

/-- A listing past the scan limit is truncated. -/
def onlyEmptyInitializeSnapshots (listing : List (Listed Content)) : Hub Content Bool :=
  if initializeSnapshotScanLimit < listing.length then pure false
  else everyEmpty (listing.map Listed.key)

def recoveryRequired : HubError :=
  .notInitialized ("Catalog recovery required: catalog.json is missing but stored projects or " ++
    "snapshots remain. Run catalog recovery before restarting the service.")

/-- `catalog.json` is absent although content remains: look again, twice. -/
def recheckCatalog : Hub Content Snapshot := do
  match ← bucketGet .catalog with
  | some _ => getCurrentSnapshot
  | none =>
    match ← bucketGet .catalog with
    | some _ => getCurrentSnapshot
    | none => .raise recoveryRequired

def firstCatalog (id : SnapshotId) (now : Nat) : Catalog where
  version := 1
  updatedAt := now
  currentSnapshotId := id
  currentSnapshotKey := .snapshot id
  previousSnapshotId := none

def createCatalog : Hub Content Snapshot := do
  let snapshotId ← createId
  let now ← dateNow
  let snapshot : Snapshot :=
    ⟨snapshotId, currentSnapshotVersion, now, "system.initialize", actor, []⟩
  let _ ← bucketPut (.snapshot snapshotId) (.snapshot snapshot) .any
  (do
    let _ ← bucketPut (B := Content) .catalog (.catalog (firstCatalog snapshotId now)) .ifAbsent
    pure snapshot).tryCatch fun
    -- another initializer won the race: drop the unreferenced snapshot
    | .preconditionFailed _ => do
      ignoringErrors (bucketDelete (.snapshot snapshotId))
      getCurrentSnapshot
    | err => .raise err

/-- `initialize`. -/
def initializeCatalog : Hub Content Snapshot := do
  match ← bucketGet .catalog with
  | some _ => getCurrentSnapshot
  | none =>
    let projects ← bucketList isProjectKey
    let snapshots ← bucketList isSnapshotKey
    if projects ≠ [] then recheckCatalog
    else if ← onlyEmptyInitializeSnapshots snapshots then createCatalog actor
    else recheckCatalog

/-! ## Recovery -/

/-- What `recover` takes from the inspection report (`planCatalogRecovery`): the
rebuilt entries, the etag of `catalog.json` at inspection, and the predecessor. -/
structure RecoveryReport where
  projects : List SnapshotProjectEntry
  schemaVersion : Nat
  catalogEtag : Option (Etag Content)
  previousSnapshotId : Option SnapshotId

def commitRecovery (snapshot : Snapshot) (expectedCatalogEtag : Option (Etag Content))
    (previousSnapshotId : Option SnapshotId) : Hub Content Snapshot := do
  let catalogObj ← bucketGet .catalog
  if catalogObj.map BucketObject.etag ≠ expectedCatalogEtag then
    .raise (.conflict "Catalog changed after recovery inspection. Inspect storage again.")
  else
    let key := Key.snapshot snapshot.snapshotId
    let _ ← bucketPut key (.snapshot snapshot) .ifAbsent
    let catalog : Catalog :=
      ⟨1, snapshot.createdAt, snapshot.snapshotId, key, previousSnapshotId⟩
    let condition := match catalogObj with
      | some object => Cond.ifMatch object.etag
      | none => Cond.ifAbsent
    let _ ← (bucketPut (B := Content) .catalog (.catalog catalog) condition).tryCatch fun
      | .preconditionFailed _ => do
        ignoringErrors (bucketDelete key)
        .raise (.conflict "Catalog recovery lost a write conflict. Inspect storage again.")
      | err => .raise err
    appendAudit snapshot.operation snapshot.actor
    pure snapshot

/-- The part of `recover` after the report was accepted. -/
def recover (report : RecoveryReport) (actor : UserId) : Hub Content Snapshot := do
  let id ← createId
  let now ← dateNow
  let snapshot : Snapshot :=
    ⟨id, max currentSnapshotVersion report.schemaVersion, now, "system.recover", actor,
      report.projects⟩
  commitRecovery snapshot report.catalogEtag report.previousSnapshotId

end MarimoHub.Source
