import MarimoHub.ObjectStore.Record
import MarimoHub.Source.NotebookMetadata

/-!
# The version stamp of a notebook's metadata

`updated_at` of the metadata record is the version a caller passes back as its precondition.
Updates, label changes and session commits derive it from the record they replace. Soft deletes,
settings updates and syncs of a synced notebook write what their wall clock shows, so the stamp
grows exactly as long as the clock of such a write is ahead of the record (`stamps_grow_iff`). As
long as it grows, the stamp of a replaced record is refused (`StaleRefused`).
-/

namespace MarimoHub.Guarantees

open ObjectStore Source Source.NotebookMetadata Prog

/-- A call of one of the writers of a notebook's metadata. -/
inductive MetadataCall where
  | update (input : UpdateNotebookInput) (expectedVersion : Option Nat)
  | setSecurityLabels (labels : Option ResourceSecurityLabels) (expectedVersion : Option Nat)
  | commitSession (code : Option String)
  | delete (expectedVersion : Option Nat)
  | updateSource (rules : GitRules) (input : UpdateSyncedNotebookSourceInput)
  | sync (rules : GitRules) (paging : SyncPaging) (input : SyncNotebookInput) (actor : UserId)

namespace MetadataCall

def run : MetadataCall → Hub SyncStore Unit
  | .update input expected => do let _ ← updateNotebook input expected
  | .setSecurityLabels labels expected => do
    let _ ← NotebookMetadata.setSecurityLabels labels expected
  | .commitSession code => NotebookMetadata.commitSession code
  | .delete expected => do let _ ← deleteNotebookWithMutation expected
  | .updateSource rules input => do let _ ← Source.updateSource rules input
  | .sync rules paging input actor => do let _ ← Source.sync rules paging input actor

/-- The version the caller has read. -/
def expectedVersion : MetadataCall → Option Nat
  | .update _ expected => expected
  | .setSecurityLabels _ expected => expected
  | .delete expected => expected
  | _ => none

/-- The call writes its clock, whatever the record says. -/
def stampsClock : MetadataCall → Bool
  | .delete _ => true
  | .updateSource _ _ => true
  | .sync _ _ _ _ => true
  | _ => false

def stamp (call : MetadataCall) (previous clock : Nat) : Nat :=
  if call.stampsClock then clock else nextIsoTimestamp previous clock

end MetadataCall

/-! ## One call alone -/

/-- What the client's clock showed when it looked last. -/
def lastClock : Log SyncStore → Option Nat
  | [] => none
  | ⟨.ask .wallClock, (now : Nat)⟩ :: _ => some now
  | _ :: es => lastClock es

/-- The new record is stamped by the call, which expected the old one. -/
structure Stamped (call : MetadataCall) (es : Log SyncStore) (old new : NotebookMeta) :
    Prop where
  stamped : ∃ clock, lastClock es = some clock ∧ new.updatedAt = call.stamp old.updatedAt clock
  expected : ∀ version ∈ call.expectedVersion, version = old.updatedAt

def stampWriter (call : MetadataCall) : Writer SyncStore where
  creates _ _ _ := False
  changes es old new := ∃ before after, old = .metadata before ∧ new = .metadata after ∧
    Stamped call es before after
  removes _ := False

abbrev StampRule (call : MetadataCall) : Rule SyncStore :=
  (stampWriter call).Allows .metadata

variable {expected : Option Nat}

section Alone

variable {call : MetadataCall} {current : Nat} {input : UpdateNotebookInput}
  {past : Log SyncStore}

def Asks : Op SyncStore → Prop
  | .ask _ => True
  | _ => False

theorem stampRule_of_asks (es : Log SyncStore) (o : Op SyncStore) (asks : Asks o) :
    StampRule call es o := by
  cases o with
  | ask q => trivial
  | _ => exact asks.elim

theorem keeps_askSync : Keeps (StampRule call) (askSync q) := fun _ =>
  ⟨trivial, fun _ => trivial⟩

theorem keeps_updateEntry : Keeps (StampRule call) (updateEntry operation) :=
  keeps_askSync.bind keeps_orRaise

theorem keeps_readStored (rest : ∀ found, Keeps (StampRule call) (next found)) :
    Keeps (StampRule call) (bucketGet key >>= next) :=
  (keeps_bucketGet fun _ => trivial).bind rest

theorem keeps_parseSyncedMeta : Keeps (StampRule call) (parseSyncedMeta v) := by
  cases v <;> first | exact keeps_ret | exact keeps_raise

theorem keeps_parseSourceRecord : Keeps (StampRule call) (parseSourceRecord v) := by
  cases v <;> first | exact keeps_ret | exact keeps_raise

theorem keeps_getNotebook : Keeps (StampRule call) getNotebook := by
  refine (keeps_askSync.bind keeps_orRaise).bind fun stored => ?_
  refine keeps_readStored fun found => ?_
  cases found with
  | none => exact keeps_raise
  | some object => exact keeps_parseSourceRecord.map

theorem keeps_assertNotMoving : Keeps (StampRule call) (assertNotMoving stored) :=
  Keeps.ite keeps_raise keeps_ret

theorem parsesOnly_syncedMeta : ParsesOnly (B := SyncStore) parseSyncedMeta SyncVal.metadata := by
  intro v
  cases v with
  | metadata stored => exact .inl ⟨stored, rfl, rfl⟩
  | _ => exact .inr ⟨_, rfl⟩

/-- What the callback decides to write is stamped by the call. -/
def Stamps (call : MetadataCall) (apply : NotebookMeta → Hub SyncStore (Option NotebookMeta)) :
    Prop :=
  ∀ current past, Emits (fun _ => Asks) (fun out es => ∀ next, out = .ok (some next) →
    Stamped call es current next) (apply current) past

/-- The rule for the callbacks that read the clock themselves. -/
theorem keeps_mutateStamped (decides : Stamps call apply) :
    Keeps (StampRule call) (mutateObjectWithOutcome (B := SyncStore) .metadata parseSyncedMeta
      apply SyncVal.metadata notFound retries) := by
  intro past
  have allowed (es : Log SyncStore) (tag : Etag SyncStore) (current next : NotebookMeta)
      (read : ⟨.get .metadata, .found (.metadata current) tag⟩ ∈ es)
      (stamped : Stamped call es current next) :
      StampRule call es (.put .metadata (.metadata next) (.ifMatch tag)) := fun _ =>
    ⟨.metadata current, .inl read, current, next, rfl, rfl, stamped⟩
  exact (emits_mutateRecord parsesOnly_syncedMeta (fun _ => trivial) stampRule_of_asks
    (fun current tag past => decides current _) allowed).forget

theorem expected_of_match {version : Nat} (passed : ¬ (expected.isSome ∧ expected ≠ some current))
    (member : version ∈ expected) : version = current := by
  by_contra different
  refine passed ⟨Option.isSome_of_mem member, ?_⟩
  rw [Option.mem_def.mp member]
  simpa using different

/-- The clock is read last, and what is written is stamped with it. -/
theorem emits_stampNow (call : MetadataCall) {next : Nat → NotebookMeta}
    (expected : ∀ version ∈ call.expectedVersion, version = old.updatedAt)
    (stamped : ∀ now, (next now).updatedAt = call.stamp old.updatedAt now)
    (past : Log SyncStore) : Emits (fun _ => Asks)
      (fun out es => ∀ new, out = .ok (some new) → Stamped call es old new)
      (wallClock >>= fun now => pure (some (next now))) past := by
  refine ⟨trivial, fun now => ?_⟩
  rintro new ⟨⟩
  exact ⟨⟨now, rfl, stamped now⟩, expected⟩

/-! ### The writers that derive the stamp -/

theorem keeps_assertSourceUpdateAllowed : Keeps (StampRule call) assertSourceUpdateAllowed :=
  (keeps_askSync.bind keeps_orRaise).bind fun _ =>
    Keeps.ite keeps_raise keeps_ret

theorem keeps_checkSourceUpdate : Keeps (StampRule call) (checkSourceUpdate source input) :=
  Keeps.ite (Keeps.ite keeps_raise keeps_assertSourceUpdateAllowed)
    keeps_ret

theorem emits_checked {current : NotebookMeta}
    {P : Post SyncStore HubError (Option NotebookMeta)}
    (failed : ∀ err es, P (.error err) es)
    (passed : (∀ version ∈ expected, version = current.updatedAt) → Emits (fun _ => Asks) P rest
      past) :
    Emits (fun _ => Asks) P (do
      assertNotMoving current
      assertVersionMatch current.updatedAt expected
      rest) past := by
  unfold assertNotMoving assertVersionMatch
  split
  · exact failed _ _
  · split
    · exact failed _ _
    · next fits => exact passed fun version member => expected_of_match fits member

theorem decides_applyUpdate :
    Stamps (.update input expected) (applyUpdate input expected) := by
  intro current past
  refine emits_checked (by simp) fun fits => ?_
  split
  · simp
  · exact emits_stampNow (.update input expected) fits (fun _ => rfl) past

theorem decides_applySecurityLabels :
    Stamps (.setSecurityLabels labels expected) (applySecurityLabels labels expected) := by
  intro current past
  refine emits_checked (by simp) fun fits => ?_
  split
  · simp
  · exact emits_stampNow (.setSecurityLabels labels expected) fits (fun _ => rfl) past

theorem decides_applyCommit : Stamps (.commitSession code) applyCommit := by
  intro current past
  unfold applyCommit assertNotMoving
  split
  · simp
  · exact emits_stampNow _ (by simp [MetadataCall.expectedVersion]) (fun _ => rfl) past

theorem decides_applyDelete :
    Stamps (.delete expected) (applyDelete expected) := by
  intro current past
  refine emits_checked (by simp) fun fits => ?_
  split
  · simp
  · exact emits_stampNow (.delete expected) fits (fun _ => rfl) past

variable {input : SyncNotebookInput} {paging : SyncPaging} {id : VersionId}

variable {rules : GitRules}

theorem decides_activateMeta : Stamps (.sync rules paging input actor) activateMeta := by
  intro current past
  unfold activateMeta assertNotMoving
  split
  · simp
  · change Emits _ _ (if _ then _ else _) _
    split
    · simp
    · exact emits_stampNow _ (by simp [MetadataCall.expectedVersion]) (fun _ => rfl) past

theorem keeps_withMutation : Keeps (StampRule call) (withMutation leased) :=
  Keeps.ite (keeps_askSync.bind keeps_orRaise) keeps_ret

theorem keeps_assertWritable : Keeps (StampRule call) (assertWritable leased) :=
  Keeps.ite (keeps_askSync.bind keeps_orRaise) keeps_ret

theorem keeps_updateNotebook {input : UpdateNotebookInput} :
    Keeps (StampRule (.update input expected)) (updateNotebook input expected) := by
  refine keeps_withMutation.bind fun _ => ?_
  refine keeps_getNotebook.bind fun detail => ?_
  refine keeps_assertVersionMatch.bind fun _ => ?_
  refine keeps_checkSourceUpdate.bind fun _ => ?_
  refine keeps_assertWritable.bind fun _ => ?_
  refine (keeps_mutateStamped decides_applyUpdate).bind fun _ => ?_
  refine (keeps_askSync.bind keeps_orRaise).bind fun _ => ?_
  exact keeps_updateEntry.map

theorem keeps_checkStampFirst : Keeps (StampRule call) (checkVersionFirst expected) := by
  refine Keeps.ite (keeps_readStored fun found => ?_) keeps_ret
  cases found with
  | none => exact keeps_raise
  | some object =>
    exact keeps_parseSyncedMeta.bind fun current => keeps_assertVersionMatch

theorem keeps_unparkNotebookLabels :
    Keeps (StampRule call) (NotebookMetadata.unparkSecurityLabels err) :=
  Keeps.ite (keeps_ignoringErrors keeps_updateEntry) keeps_ret

theorem keeps_setNotebookLabels : Keeps (StampRule (.setSecurityLabels labels expected))
      (NotebookMetadata.setSecurityLabels labels expected) := by
  refine keeps_checkStampFirst.bind fun _ => ?_
  refine keeps_updateEntry.bind fun _ => ?_
  refine ((keeps_mutateStamped decides_applySecurityLabels).tryCatch fun err =>
    keeps_unparkNotebookLabels.bind fun _ => keeps_raise).bind fun _ => ?_
  exact keeps_updateEntry.map

theorem keeps_commitSession :
    Keeps (StampRule (.commitSession code)) (NotebookMetadata.commitSession code) := by
  have written : Keeps (StampRule (.commitSession code)) (askSync .writeContent >>= orRaise) :=
    keeps_askSync.bind keeps_orRaise
  refine keeps_getNotebook.bind fun detail => ?_
  refine Keeps.ite keeps_raise (Keeps.ite keeps_ret ?_)
  refine (keeps_askSync.bind keeps_orRaise).bind fun changed => ?_
  refine Keeps.ite (written.bind fun _ => ?_) written
  exact (keeps_mutateStamped decides_applyCommit).bind fun _ => keeps_updateEntry

theorem keeps_deleteNotebook (expected : Option Nat) :
    Keeps (StampRule (.delete expected)) (deleteNotebookWithMutation expected) := by
  refine (keeps_mutateStamped decides_applyDelete).bind fun outcome => ?_
  refine Keeps.bind (Keeps.ite keeps_updateEntry keeps_ret) fun _ => ?_
  exact (keeps_askSync.bind keeps_orRaise).map

/-! ### The synced writers -/

theorem keeps_mutateSource (decides : ∀ source, Keeps (StampRule call) (apply source)) :
    Keeps (StampRule call) (mutateSource apply) := by
  refine Keeps.bind (keeps_withCasRetry ?_) fun _ => keeps_ret
  refine keeps_readStored fun found => ?_
  cases found with
  | none => exact keeps_raise
  | some object =>
    refine keeps_parseSourceRecord.bind fun source => (decides source).bind fun next => ?_
    cases next with
    | none => exact keeps_ret
    | some next =>
      refine Keeps.map ?_
      refine (keeps_bucketPut fun es same => by cases same).tryCatch fun err => ?_
      cases err <;> exact keeps_raise

theorem keeps_assertNotFenced : Keeps (StampRule call) assertNotFenced := by
  refine keeps_readStored fun found => ?_
  cases found with
  | none => exact keeps_ret
  | some object => exact keeps_parseSyncedMeta.bind fun stored => keeps_assertNotMoving

/-- The clock is read before the record is, and kept over the retries. -/
theorem emits_touchMeta {input : UpdateSyncedNotebookSourceInput}
    (read : lastClock past = some now) :
    Emits (StampRule (.updateSource rules input)) (fun _ _ => True)
      (mutateMeta (touchMeta now)) past := by
  refine emits_seq (Q := fun _ _ => True) (emits_mutateObjectWithOutcome
    (I := fun es => lastClock es = some now) parsesOnly_syncedMeta (fun _ _ => trivial)
    (fun _ _ still => still) (fun _ _ _ => trivial) ?_ read) (fun _ _ _ _ => trivial)
  intro es current tag still
  unfold touchMeta assertNotMoving
  split
  · trivial
  · refine ⟨?_, fun _ => trivial, still, trivial⟩
    intro _
    exact ⟨.metadata current, .inl (.head _), current, _, rfl, rfl,
      ⟨now, still, rfl⟩, by simp [MetadataCall.expectedVersion]⟩

theorem keeps_updateSource {input : UpdateSyncedNotebookSourceInput} :
    Keeps (StampRule (.updateSource rules input)) (Source.updateSource rules input) := by
  refine keeps_assertNotFenced.bind fun _ => ?_
  refine (keeps_mutateSource fun source => ?_).bind fun source => ?_
  · exact (keeps_orRaise _).bind fun _ => (keeps_orRaise _).map
  · intro past
    refine emits_seq (Q := fun out es => ∀ now, out = .ok now → lastClock es = some now)
      ⟨trivial, fun now => by rintro _ ⟨⟩; rfl⟩ ?_
    intro now es _ read
    refine emits_seq (emits_touchMeta (read now rfl)) ?_
    intro _ es _ _
    exact keeps_updateEntry.map es

theorem keeps_deleteVersion (paging : SyncPaging) (id : VersionId) :
    Keeps (StampRule call) (deleteVersion paging id) := by
  intro past
  refine emits_seq (emits_listAllKeys (fun _ _ => trivial)) ?_
  intro workspaceKeys es _ only
  refine emits_seq (emits_listAllKeys (fun _ _ => trivial)) ?_
  intro gitKeys es _ only'
  refine keeps_bucketDeleteAll ?_ es
  rintro key member es rfl
  simp only [List.mem_cons, reduceCtorEq, List.mem_append, false_or] at member
  rcases member with inside | inside
  · exact absurd (only _ inside) (by simp [isWorkspaceKey])
  · exact absurd (only' _ inside) (by simp [isGitKey])

theorem keeps_settleWrites : Keeps (StampRule call) (settleWrites id writes) := by
  induction writes with
  | nil => exact keeps_ret
  | cons write rest ih =>
    refine Keeps.bind (Keeps.tryCatch ?_ fun _ => keeps_ret) fun failed => ?_
    · exact (keeps_bucketPut fun es same => by cases same).map
    · exact ih.map

theorem keeps_writeVersion : Keeps (StampRule call) (writeVersion paging id writes) := by
  refine keeps_settleWrites.bind fun failed => ?_
  cases failed with
  | none => exact keeps_ret
  | some err =>
    exact (keeps_ignoringErrors (keeps_deleteVersion paging id)).bind fun _ => keeps_raise

theorem emits_listPruned (paging : SyncPaging) (targets : List VersionId)
    (past : Log SyncStore) :
    Emits (StampRule call) (yields fun keys _ => SyncKey.metadata ∉ keys)
      (listPruned paging targets) past := by
  induction targets generalizing past with
  | nil => exact List.not_mem_nil
  | cons target rest ih =>
    refine emits_then (emits_listAllKeys (fun _ _ => trivial)) ?_
    intro keys es _ only
    refine emits_then (ih es) ?_
    intro others es _ clear member
    rcases List.mem_append.mp member with inside | inside
    · exact absurd (only _ inside) (by simp [isVersionObject])
    · exact clear inside

theorem keeps_pruneSyncedVersions : Keeps (StampRule call) (pruneSyncedVersions paging keep) := by
  refine keeps_ignoringErrors fun past => ?_
  refine emits_seq (emits_listAllKeys (fun _ _ => trivial)) ?_
  intro keys es _ _
  dsimp only
  split
  · trivial
  · next cutoff _ =>
    refine (keeps_askSync.bind keeps_orRaise).bind
      (fun _ => (keeps_askSync.bind keeps_orRaise).bind fun protectedIds past => ?_) es
    refine emits_seq (emits_listPruned paging _ past) ?_
    intro doomed es _ clear
    refine keeps_bucketDeleteAll ?_ es
    rintro key member es rfl
    exact absurd member clear

theorem keeps_advanceSource : Keeps (StampRule call) (advanceSource rules input versionId now) := by
  refine keeps_assertNotFenced.bind fun _ => (keeps_mutateSource fun source => ?_).bind fun _ => ?_
  · exact (keeps_orRaise _).bind fun _ => (keeps_orRaise _).map
  · exact (keeps_orRaise _).map

theorem keeps_commitSync : Keeps (StampRule (.sync rules paging input actor))
      (commitSync rules paging input actor source prepared gitFiles) := by
  refine keeps_askSync.bind fun now => ?_
  refine Keeps.bind (fun _ => ⟨trivial, fun _ => trivial⟩) fun versionId => ?_
  refine keeps_writeVersion.bind fun _ => ?_
  refine Keeps.bind (keeps_advanceSource.tryCatch fun err =>
    (keeps_ignoringErrors (keeps_deleteVersion paging versionId)).bind fun _ =>
      keeps_raise) fun keep => ?_
  refine Keeps.bind ((keeps_mutateStamped decides_activateMeta).map) fun _ => ?_
  refine (keeps_askSync.bind keeps_orRaise).bind fun _ => ?_
  exact keeps_pruneSyncedVersions.map

theorem keeps_sync : Keeps (StampRule (.sync rules paging input actor))
      (Source.sync rules paging input actor) := by
  refine keeps_getNotebook.bind fun notebook => Keeps.ite keeps_raise ?_
  refine (keeps_orRaise _).bind fun source => (keeps_orRaise _).bind fun prepared => ?_
  refine (keeps_orRaise _).bind fun gitFiles => Keeps.ite keeps_ret ?_
  exact (keeps_orRaise _).bind fun _ => keeps_commitSync

theorem metadataCall_keeps_rule : Keeps (StampRule call) call.run := by
  cases call with
  | update input expected =>
    exact keeps_updateNotebook.map
  | setSecurityLabels labels expected =>
    exact keeps_setNotebookLabels.map
  | commitSession code => exact keeps_commitSession
  | delete expected => exact (keeps_deleteNotebook expected).map
  | updateSource rules input =>
    exact keeps_updateSource.map
  | sync rules paging input actor =>
    exact keeps_sync.map

end Alone

/-! ## Runs -/

/-- A write of a call leaves a later stamp than it found. -/
def growsAt (past : Trace SyncStore) (x : Event SyncStore) : Bool :=
  match x.thread, x.effect .metadata, lookup SyncKey.metadata past with
  | some _, some (some (.metadata new)), some (.metadata old) => old.updatedAt < new.updatedAt
  | _, _, _ => true

/-- A call that stamps its clock writes only while the clock is ahead of the record. -/
def clockAheadAt (calls : Nat → MetadataCall) (past : Trace SyncStore) (x : Event SyncStore) :
    Bool :=
  match x.thread, x.effect .metadata, lookup SyncKey.metadata past with
  | some i, some (some (.metadata _)), some (.metadata old) =>
    !(calls i).stampsClock || (lastClock (own i past)).any fun clock => old.updatedAt < clock
  | _, _, _ => true

/-- The stamps of the records the calls have replaced. -/
def replacedStamps : Trace SyncStore → List Nat
  | [] => []
  | x :: past =>
    match x.thread, x.effect .metadata, lookup SyncKey.metadata past with
    | some _, some _, some (.metadata old) => old.updatedAt :: replacedStamps past
    | _, _, _ => replacedStamps past

/-- No call writes that expects the stamp of a record replaced before. -/
def refusesStaleAt (calls : Nat → MetadataCall) (past : Trace SyncStore) (x : Event SyncStore) :
    Bool :=
  match x.thread, x.effect .metadata with
  | some i, some _ => (calls i).expectedVersion.all fun version => version ∉ replacedStamps past
  | _, _ => true

variable {x : Event SyncStore} {past : Trace SyncStore}

section Runs

variable {calls : Nat → MetadataCall}

theorem metadata_written (history : History a seeds (fun i => (calls i).run) c)
    (moment : x :: past <:+ c.trace) (mine : x.thread = some i)
    (effect : x.effect .metadata = some now) : ∃ old new, now = some (.metadata new) ∧
      lookup SyncKey.metadata past = some (.metadata old) ∧
      Stamped (calls i) (own i past) old new := by
  have rule := history.guarantee (fun i => metadataCall_keeps_rule []) moment mine
  have did := Writer.at_effect (history.accepted.suffix moment) rule effect
  generalize x.op = o at did
  cases did with
  | created v condition creates holds => exact creates.elim
  | changed old v tag found changes =>
    obtain ⟨before, after, rfl, rfl, stamped⟩ := changes
    exact ⟨before, after, rfl, found, stamped⟩
  | removed removes => exact removes.elim

/-- One write leaves a later stamp exactly when its clock was not needed or was ahead. -/
theorem growsAt_iff (history : History a seeds (fun i => (calls i).run) c)
    (moment : x :: past <:+ c.trace) : growsAt past x = clockAheadAt calls past x := by
  cases thread : x.thread with
  | none => simp only [growsAt, clockAheadAt, thread]
  | some i =>
    cases effect : x.effect .metadata with
    | none => simp only [growsAt, clockAheadAt, thread, effect]
    | some now =>
      obtain ⟨old, new, rfl, found, ⟨clock, read, stamped⟩, _⟩ :=
        metadata_written history moment thread effect
      simp only [growsAt, clockAheadAt, thread, effect, found, read, stamped, MetadataCall.stamp]
      cases (calls i).stampsClock with
      | true => rfl
      | false => simpa using lt_nextIsoTimestamp

theorem replacedStamps_seeds (initial : Seeds a seeds) : replacedStamps seeds = [] := by
  have none := initial.anonymous
  clear initial
  induction seeds with
  | nil => rfl
  | cons e rest ih =>
    simp only [replacedStamps, none e (.head _)]
    exact ih fun e' member => none e' (.tail _ member)

/-- While the stamp grows, every replaced record's stamp is behind the stored one. -/
theorem replacedStamps_behind (history : History a seeds (fun i => (calls i).run) c)
    (initial : Seeds a seeds) (grows : Along (fun past x => growsAt past x = true) c.trace)
    (above : seeds <:+ t) (inside : t <:+ c.trace) :
    ∀ stamp ∈ replacedStamps t, ∃ current,
      lookup SyncKey.metadata t = some (.metadata current) ∧
        stamp < current.updatedAt := by
  refine lasts (P := fun t => ∀ stamp ∈ replacedStamps t, ∃ current,
    lookup SyncKey.metadata t = some (.metadata current) ∧
      stamp < current.updatedAt) above (by simp [replacedStamps_seeds initial]) ?_
  intro x past moment based behind stamp member
  have earlier := moment.trans inside
  obtain ⟨i, mine⟩ := history.thread_of_moment earlier based
  cases effect : x.effect .metadata with
  | none =>
    simp only [replacedStamps, mine, effect] at member
    rw [lookup_of_no_effect effect]
    exact behind stamp member
  | some now =>
    obtain ⟨old, new, rfl, found, _⟩ := metadata_written history earlier mine effect
    have later := grows.at earlier
    simp only [growsAt, mine, effect, found, decide_eq_true_eq] at later
    simp only [replacedStamps, mine, effect, found, List.mem_cons] at member
    refine ⟨new, lookup_of_effect effect, ?_⟩
    rcases member with rfl | replaced
    · exact later
    · obtain ⟨current, same, before⟩ := behind stamp replaced
      rw [found] at same
      cases same
      exact before.trans later

end Runs

/-- In every run of any number of metadata writers, however interleaved and whatever their wall
clocks show, the stamp grows with every write exactly as long as the writers that stamp their
clock write only when it is ahead of the record; and as long as it grows, no write is made for a
caller who read a record that has been replaced. -/
theorem stamps_grow_iff (a : Adapter SyncStore) (seeds : Trace SyncStore) (initial : Seeds a seeds)
    (calls : Nat → MetadataCall) (c : Config SyncStore HubError Unit)
    (reach : Reaches a ⟨seeds, fun i => (calls i).run⟩ c) :
    (Along (fun past x => growsAt past x = true) c.trace ↔
      Along (fun past x => clockAheadAt calls past x = true) c.trace) ∧
    (Along (fun past x => growsAt past x = true) c.trace →
      Along (fun past x => refusesStaleAt calls past x = true) c.trace) := by
  have history := reach.history initial
  refine ⟨?_, ?_⟩
  · simp only [along_iff]
    refine forall_congr' fun x => forall_congr' fun past => ?_
    exact ⟨fun grows moment => growsAt_iff history moment ▸ grows moment,
      fun ahead moment => (growsAt_iff history moment).symm ▸ ahead moment⟩
  · intro grows
    rw [along_iff]
    intro x past moment
    cases thread : x.thread with
    | none => simp only [refusesStaleAt, thread]
    | some i =>
      cases effect : x.effect .metadata with
      | none => simp only [refusesStaleAt, thread, effect]
      | some now =>
        simp only [refusesStaleAt, thread, effect, Option.all_eq_true, decide_eq_true_eq]
        intro version expects replaced
        obtain ⟨old, new, rfl, found, _, expected⟩ := metadata_written history moment thread effect
        obtain ⟨current, same, before⟩ := replacedStamps_behind history initial grows
          (history.after_seeds initial moment thread)
          moment.past version replaced
        rw [found] at same
        cases same
        exact absurd before (by rw [expected version expects]; exact Nat.lt_irrefl _)

/-! ## A settings update in the millisecond of the last write -/

namespace SameMillisecond

def adapter : Adapter SyncStore := ⟨fun _ version => version, 100⟩

/-- Every spelling is accepted as it is. -/
def rules : GitRules where
  normalizeRepo := some
  reposMatch := (· == ·)
  detectProvider _ := none
  repoHost _ := none
  repoOrigin _ := none
  isOwnerRepo _ := true
  trim := id
  quote := id
  normalizeWorkspaceRootPath := .ok
  normalizeEntryNotebook := .ok
  normalizeWorkspaceFilePath _ := .ok ()
  assertGitDirectoryLimits _ := .ok ()
  packWorkspace _ _ := none

def settings (branch : String) : GitSourceConfig := ⟨"acme/analytics", branch, "", "app.py"⟩

def notebook : NotebookMeta :=
  ⟨none, 1, 7, "report", "", .active, "owner", 0, 10, none, [], none, none, none, none, none⟩

def contents : List (SyncKey × SyncVal) :=
  [(.metadata, .metadata notebook),
    (.source, .source (.git ⟨settings "main", none, none, .push, none, none, none⟩))]

/-- One caller changes the branch; another one has read version 10 and sets a title. -/
def calls : Nat → MetadataCall
  | 0 => .updateSource rules ⟨settings "next", none⟩
  | _ => .update { title := some "renamed" } (some 10)

def start : Config SyncStore HubError Unit := ⟨seed adapter contents, fun i => (calls i).run⟩

/-- The clock of the settings update shows `clock`. The other caller's first read is answered from
a cache. -/
def moves (clock : Nat) : List (Move SyncStore) :=
  turns (B := SyncStore) 0 1 [.ok, .ok, .ok, .answer .wallClock clock, .ok, .ok] ++
  turns (B := SyncStore) 1 2 [.answer .readNotebookMeta (.ok notebook), .ok, .ok]

/-- The second caller's precondition is met and its write goes through. -/
def accepted : List (Move SyncStore) := [⟨1, 2, .answer .wallClock 12⟩, ⟨1, 2, .ok⟩]

def stampOf (t : Trace SyncStore) : Option Nat :=
  match lookup SyncKey.metadata t with
  | some (.metadata stored) => some stored.updatedAt
  | _ => none

def refused : Prog SyncStore HubError Unit → Bool
  | .raise (.preconditionFailed _) => true
  | _ => false

end SameMillisecond

open SameMillisecond

/-- A settings update in the millisecond of the record leaves its stamp, and a caller who read the
record before the update overwrites it. -/
theorem stale_update_accepted : ∃ c, Reaches adapter start c ∧
      ¬ Along (fun past x => growsAt past x = true) c.trace ∧
      ¬ Along (fun past x => refusesStaleAt calls past x = true) c.trace ∧
      stampOf c.trace = some 12 := by
  obtain ⟨c, reach, observed⟩ := Config.play_any adapter start (moves 10 ++ accepted)
    (fun c => ¬ Along (fun past x => growsAt past x = true) c.trace ∧
      ¬ Along (fun past x => refusesStaleAt calls past x = true) c.trace ∧
      stampOf c.trace = some 12) (by decide)
  exact ⟨c, reach, observed⟩

/-- The same calls with a clock that is ahead: the stale precondition is refused. -/
theorem stale_update_refused : ∃ c, Reaches adapter start c ∧ stampOf c.trace = some 11 ∧
      refused (c.prog 1) = true ∧ Along (fun past x => growsAt past x = true) c.trace ∧
      Along (fun past x => refusesStaleAt calls past x = true) c.trace := by
  obtain ⟨c, reach, observed⟩ := Config.play_any adapter start (moves 11)
    (fun c => stampOf c.trace = some 11 ∧ refused (c.prog 1) = true ∧
      Along (fun past x => clockAheadAt calls past x = true) c.trace) (by decide)
  obtain ⟨stamp, refused, ahead⟩ := observed
  obtain ⟨grows_iff, refuses⟩ := stamps_grow_iff adapter _ (seeds_seed _ _) calls c reach
  have grows := grows_iff.mpr ahead
  exact ⟨c, reach, stamp, refused, grows, refuses grows⟩

end MarimoHub.Guarantees
