import MarimoHub.Source.Cas

/-!
# Integrations of one scope

`create` and `update` of `services/integrations/ProjectIntegrationsStore.ts`: an integration is a
head that names its current version, beside version records and a claim on its name. The registry
of kinds and the sealing of secrets are parameters; a listing is one page; the answer of a call is
its head and version. A saga (`saga.ts`) is written as nested steps: what follows a step is
compensated when it fails, the inner step first.
-/

namespace MarimoHub.Source.Integrations

open ObjectStore

abbrev IntegrationId : Type := String

/-- `IntegrationRecordSchema`. -/
structure IntegrationRecord where
  id : IntegrationId
  kind : String
  name : String
  enabled : Bool
  currentVersion : Nat
  ambientEnv : Option Bool
  createdBy : String
  createdAt : Nat
  updatedAt : Nat
  deletedAt : Option Nat := none
deriving DecidableEq

/-- `IntegrationVersionRecordSchema`. -/
structure IntegrationVersionRecord where
  version : Nat
  kind : String
  kindSchemaVersion : Nat
  config : String
  createdBy : String
  createdAt : Nat
  changeNote : Option String
deriving DecidableEq

inductive IntegrationKey where
  | head (id : IntegrationId)
  | version (id : IntegrationId) (version : Nat)
  | nameClaim (name : String)
deriving DecidableEq

inductive IntegrationVal where
  | head (head : IntegrationRecord)
  | version (version : IntegrationVersionRecord)
  | claim (holder : Option String) (claimedAt : Nat)
deriving DecidableEq

@[reducible] def IntegrationStore : Schema where
  Key := IntegrationKey
  Val := IntegrationVal
  Query := Empty
  Answer := fun _ => Unit

/-- The registry of kinds, and the sealing and checking of configs. -/
structure IntegrationEngine where
  schemaVersion : String → Except HubError Nat
  assertValidIntegrationName : String → Except HubError Unit
  sealConfig : IntegrationId → String → String → Option String → Except HubError String
  /-- Migration and validation of a stored config. -/
  currentConfig : IntegrationRecord → IntegrationVersionRecord → Except HubError String
  ambientEnvField : String → String → Option Bool

variable (engine : IntegrationEngine)

/-- What follows a step of a saga, with the compensation of the step. -/
def compensating {α : Type} (rest : Hub IntegrationStore α)
    (compensate : Hub IntegrationStore Unit) :
    Hub IntegrationStore α :=
  rest.tryCatch fun error => do
    ignoringErrors compensate
    .raise error

/-! ## Reading -/

variable (name : String) (id : IntegrationId)

def integrationNotFound : HubError := .notFound s!"Integration {id} not found"

def parseRecord : IntegrationVal → Hub IntegrationStore IntegrationRecord
  | .head head => pure head
  | _ => .raise .storedObject

/-- A tombstoned head is gone. -/
def parseHead (raw : IntegrationVal) : Hub IntegrationStore IntegrationRecord := do
  let head ← parseRecord raw
  if head.deletedAt.isSome then .raise (integrationNotFound id)
  else if head.id ≠ id then
    .raise (.validation s!"Integration {id} metadata does not match its storage path.")
  else do
    orRaise (engine.assertValidIntegrationName head.name)
    pure head

def getHead : Hub IntegrationStore IntegrationRecord := do
  match ← bucketGet (.head id) with
  | none => .raise (integrationNotFound id)
  | some body => parseHead engine id body.value

variable (head : IntegrationRecord)

def getVersion (version : Nat) : Hub IntegrationStore IntegrationVersionRecord := do
  match ← bucketGet (.version head.id version) with
  | none => .raise (.notFound s!"Integration {head.id} version {version} not found")
  | some ⟨.version record, _⟩ =>
    if record.version ≠ version ∨ record.kind ≠ head.kind then
      .raise (.validation s!"Integration \"{head.name}\" version metadata does not match its path.")
    else pure record
  | some _ => .raise .storedObject

def loadCurrent : Hub IntegrationStore (IntegrationVersionRecord × String) := do
  let _ ← orRaise (engine.schemaVersion head.kind)
  let version ← getVersion head head.currentVersion
  let config ← orRaise (engine.currentConfig head version)
  pure (version, config)

def integrationOf : IntegrationKey → Option IntegrationId
  | .head id => some id
  | .version id _ => some id
  | .nameClaim _ => none

/-- The live heads among the listed directories. -/
def readHeads : List IntegrationId → Hub IntegrationStore (List IntegrationRecord)
  | [] => pure []
  | id :: rest => do
    match ← bucketGet (.head id) with
    | none => readHeads rest
    | some body => do
      let record ← parseRecord body.value
      if record.deletedAt.isSome then readHeads rest
      else do
        let head ← parseHead engine id body.value
        let others ← readHeads rest
        pure (head :: others)

def maxIntegrationsPerScope : Nat := 500

def listHeads : Hub IntegrationStore (List IntegrationRecord) := do
  let listed ← bucketList fun key => (integrationOf key).isSome
  let heads ← readHeads engine (listed.filterMap fun entry => integrationOf entry.key).dedup
  if maxIntegrationsPerScope < heads.length then
    .raise (.resourceExhausted s!"Integration limit exceeded ({maxIntegrationsPerScope}).")
  else pure heads

def nameTaken : HubError :=
  .validation s!"An integration named \"{name}\" already exists."

def assertNameFree : Hub IntegrationStore Unit := do
  let heads ← listHeads engine
  if heads.any (·.name = name) then .raise (nameTaken name) else pure ()

/-! ## Names -/

def isHolderLive (name holder : String) : Hub IntegrationStore Bool :=
  (do let head ← getHead engine holder; pure (head.name = name : Bool)).tryCatch fun _ => pure false

def nameClaimHolder : IntegrationVal → Option (Option String)
  | .claim holder _ => some holder
  | _ => none

def nameClaimConfig : SingletonClaimConfig IntegrationStore where
  key := .nameClaim name
  serialize := .claim
  parseHolder := nameClaimHolder
  isHolder := fun _ => True
  isHolderLive := isHolderLive engine name
  retries := defaultRetries
  parse_claim := fun _ _ _ => rfl
  parse_free := fun _ => rfl
  spares := fun holder => by
    -- the one request reads the head of the holder
    refine ⟨trivial, fun answer => ?_⟩
    rcases answer with ⟨head | _ | _, tag⟩ | _ | _
    · change Prog.OpsAll _ (Prog.tryCatch (Prog.bind (ite _ _ (ite _ _ _)) _) _)
      split
      · trivial
      · split
        · trivial
        · cases engine.assertValidIntegrationName head.name <;> trivial
    all_goals trivial

def claimName : Hub IntegrationStore Unit := do
  match ← acquireSingletonClaim (nameClaimConfig engine name) id with
  | .acquired _ => pure ()
  | .held _ => .raise (nameTaken name)

def releaseName : Hub IntegrationStore Unit :=
  releaseSingletonClaim (nameClaimConfig engine name) id none

/-! ## Creation -/

structure CreateInput where
  kind : String
  name : String
  config : String
  changeNote : Option String
  actor : String

/-- The saga `integration_create`. -/
def writeIntegration (version : IntegrationVersionRecord) : Hub IntegrationStore Unit := do
  let _ ← bucketPut (.version head.id 1) (.version version) .ifAbsent
  compensating
    (do
      let _ ← bucketPut (.head head.id) (.head head) .ifAbsent
      compensating (claimName engine head.name head.id) (bucketDelete (.head head.id)))
    (bucketDelete (.version head.id 1))

def create (input : CreateInput) :
    Hub IntegrationStore (IntegrationRecord × IntegrationVersionRecord) := do
  let schemaVersion ← orRaise (engine.schemaVersion input.kind)
  orRaise (engine.assertValidIntegrationName input.name)
  assertNameFree engine input.name
  let heads ← listHeads engine
  if maxIntegrationsPerScope ≤ heads.length then
    .raise (.resourceExhausted s!"Integration limit reached ({maxIntegrationsPerScope}).")
  else do
    let drawn ← createId
    let id : IntegrationId := toString drawn
    let config ← orRaise (engine.sealConfig id input.kind input.config none)
    let timestamp ← dateNow
    let version : IntegrationVersionRecord :=
      { version := 1, kind := input.kind, kindSchemaVersion := schemaVersion, config := config
        createdBy := input.actor, createdAt := timestamp, changeNote := input.changeNote }
    let head : IntegrationRecord :=
      { id := id, kind := input.kind, name := input.name, enabled := true, currentVersion := 1
        ambientEnv := engine.ambientEnvField input.kind config, createdBy := input.actor
        createdAt := timestamp, updatedAt := timestamp }
    writeIntegration engine head version
    pure (head, version)

/-! ## Update -/

structure UpdateInput where
  id : IntegrationId
  name : Option String
  config : Option String
  enabled : Option Bool
  changeNote : Option String
  actor : String
  expectedVersion : Option Nat

def mutateHead (parse : IntegrationVal → Hub IntegrationStore IntegrationRecord)
    (apply : IntegrationRecord → Hub IntegrationStore (Option IntegrationRecord)) :
    Hub IntegrationStore IntegrationRecord :=
  mutateObject (.head id) parse apply .head (integrationNotFound id)
    defaultRetries

variable (input : UpdateInput) (head : IntegrationRecord) (expected : Option Nat)

def applyRename (current : IntegrationRecord) :
    Hub IntegrationStore (Option IntegrationRecord) := do
  assertVersionMatch current.updatedAt expected
  let now ← dateNow
  pure (some { current with name := name, updatedAt := nextIsoTimestamp current.updatedAt now })

def applyRevert (fromName toName : String) (current : IntegrationRecord) :
    Hub IntegrationStore (Option IntegrationRecord) :=
  if current.name = fromName ∧ current.deletedAt = none then do
    let now ← dateNow
    pure (some { current with name := toName, updatedAt := nextIsoTimestamp current.updatedAt now })
  else pure none

def revertRename (fromName toName : String) : Hub IntegrationStore Unit := do
  let _ ← mutateHead id parseRecord (applyRevert fromName toName)
  pure ()

/-- Create-if-absent at the next version that is free. -/
def appendVersion (id : IntegrationId) (record : Nat → IntegrationVersionRecord) :
    Nat → Nat → Hub IntegrationStore Nat
  | 0, _ => .raise (.conflict "Write conflict: max retries exceeded")
  | retries + 1, version =>
    (do
      let _ ← casPut (B := IntegrationStore) (.version id version) (.version (record version))
        .ifAbsent
      pure version).tryCatch fun
      | .casWriteConflict _ => appendVersion id record retries (version + 1)
      | error => .raise error

/-- A config that was sealed, with its kind. -/
structure Sealed where
  kind : String
  schemaVersion : Nat
  config : String

variable (appended : Option (Nat × Sealed)) (current : IntegrationRecord)

/-- The higher version number wins the pointer. -/
def advanced : IntegrationRecord :=
  match appended with
  | none => current
  | some (version, sealed) =>
    if current.currentVersion ≤ version then
      { current with
        currentVersion := version
        ambientEnv := (engine.ambientEnvField sealed.kind sealed.config).or current.ambientEnv }
    else current

def applyCommit : Hub IntegrationStore (Option IntegrationRecord) := do
  assertVersionMatch current.updatedAt expected
  let now ← dateNow
  pure (some { advanced engine appended current with
    enabled := input.enabled.getD current.enabled
    updatedAt := nextIsoTimestamp current.updatedAt now })

def commitHead : Hub IntegrationStore IntegrationRecord :=
  mutateHead input.id (parseHead engine input.id) (applyCommit engine input expected appended)

/-- The steps `append_version` and `commit_head`. -/
def appendAndCommit : Option Sealed → Hub IntegrationStore IntegrationRecord
  | none => commitHead engine input expected none
  | some sealed => do
    let now ← dateNow
    let version ← appendVersion head.id
      (fun version =>
        { version := version, kind := sealed.kind, kindSchemaVersion := sealed.schemaVersion
          config := sealed.config, createdBy := input.actor, createdAt := now
          changeNote := input.changeNote })
      defaultRetries (head.currentVersion + 1)
    compensating (commitHead engine input expected (some (version, sealed)))
      (bucketDelete (.version input.id version))

/-- The saga `integration_update`. -/
def commitUpdate (newName : Option String)
    (sealed : Option Sealed) : Hub IntegrationStore IntegrationRecord :=
  match newName with
  | none => appendAndCommit engine input head input.expectedVersion sealed
  | some name => do
    let renamed ← mutateHead input.id (parseHead engine input.id)
      (applyRename name input.expectedVersion)
    let expected := input.expectedVersion.map fun _ => renamed.updatedAt
    compensating
      (do
        claimName engine name input.id
        compensating (appendAndCommit engine input head expected sealed)
          (releaseName engine name input.id))
      (revertRename input.id name head.name)

def sealUpdate : Hub IntegrationStore (Option Sealed) :=
  match input.config with
  | none => pure none
  | some config => do
    let (_, previous) ← loadCurrent engine head
    let schemaVersion ← orRaise (engine.schemaVersion head.kind)
    let sealed ← orRaise (engine.sealConfig input.id head.kind config (some previous))
    pure (some ⟨head.kind, schemaVersion, sealed⟩)

def checkNewName : Option String → Hub IntegrationStore Unit
  | none => pure ()
  | some name => do
    orRaise (engine.assertValidIntegrationName name)
    assertNameFree engine name

def update : Hub IntegrationStore (IntegrationRecord × IntegrationVersionRecord) := do
  let head ← getHead engine input.id
  assertVersionMatch head.updatedAt input.expectedVersion
  let newName := input.name.filter (· ≠ head.name)
  checkNewName engine newName
  let sealed ← sealUpdate engine input head
  let updated ← commitUpdate engine input head newName sealed
  if newName.isSome then releaseName engine head.name input.id else pure ()
  let (version, _) ← loadCurrent engine updated
  pure (updated, version)

inductive IntegrationCall where
  | create (input : CreateInput)
  | update (input : UpdateInput)

def IntegrationCall.run : IntegrationCall →
    Hub IntegrationStore (IntegrationRecord × IntegrationVersionRecord)
  | .create input => Integrations.create engine input
  | .update input => Integrations.update engine input

end MarimoHub.Source.Integrations
