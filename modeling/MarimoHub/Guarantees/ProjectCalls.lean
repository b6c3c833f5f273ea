import MarimoHub.Source.ProjectService
import MarimoHub.Guarantees.CatalogSwaps

/-!
# What the calls of the project service do, alone

Every call that touches a project record or its catalog entry keeps `ProjectRule`:
its catalog mutations are projections of a known kind, and it writes a record only
by compare-and-swap over the record it read, changing the labels only if it is a
call of `setSecurityLabels` for that project.
-/

namespace MarimoHub.Guarantees

open ObjectStore Source Prog

inductive ProjectCall where
  | setSecurityLabels (id : ProjectId) (labels : Option ResourceSecurityLabels) (actor : UserId)
      (expectedVersion : Option Nat)
  | updateProject (id : ProjectId) (input : UpdateProjectInput) (actor : UserId)
      (expectedVersion : Option Nat)
  | writeMembers (id : ProjectId) (deriveMembers : DeriveMembers) (actor : UserId)
  | claimProjectInvites (candidate : SnapshotProjectEntry) (resolved : List (String × UserId))
  | deleteProject (id : ProjectId) (actor : UserId) (expectedVersion : Option Nat)

def ProjectCall.run (engine : Engine) : ProjectCall → Hub Content Unit
  | .setSecurityLabels id labels actor expectedVersion => do
    let _ ← Source.setSecurityLabels id labels actor expectedVersion
  | .updateProject id input actor expectedVersion => do
    let _ ← Source.updateProject engine id input actor expectedVersion
  | .writeMembers id deriveMembers actor => do
    let _ ← Source.writeMembers engine id deriveMembers actor
  | .claimProjectInvites candidate resolved => do
    let _ ← Source.claimProjectInvites engine candidate resolved
  | .deleteProject id actor expectedVersion => do
    let _ ← Source.deleteProject id actor expectedVersion

/-- The project whose labels the call sets. -/
def ProjectCall.relabels : ProjectCall → Option ProjectId
  | .setSecurityLabels id _ _ _ => some id
  | _ => none

/-- The operations that clear the pending marker. -/
def finalizing (operation : String) : Bool :=
  operation = labelsOperation || operation = rollbackOperation

/-- The catalog mutations a call makes, with its own events before each. -/
inductive Projects (call : ProjectCall) : MutateCall → Events → Prop where
  | park (id : ProjectId) (actor : UserId) (before : Events) : call.relabels = some id →
      Projects call (projectEntryCall pendingOperation actor id parkSecurityLabels) before
  | finalize (operation : String) (id : ProjectId) (actor : UserId) (before : Events) :
      call.relabels = some id → finalizing operation = true →
      Projects call (projectEntryCall operation actor id (projectRecord id true)) before
  | routine (operation : String) (id : ProjectId) (actor : UserId) (before : Events) :
      Projects call (projectEntryCall operation actor id (projectRecord id false)) before
  | tombstone (operation : String) (id : ProjectId) (actor : UserId) (updated : Project)
      (c : Cond Content) (tag : Etag Content) (before : Events) :
      ⟨.put (.project id) (.project updated) c, .ok tag⟩ ∈ before →
      Projects call (projectEntryCall operation actor id (projectTombstone id updated)) before

/-- Records are never deleted, and written only over the record that was read. -/
def RecordRule (call : ProjectCall) (past : Events) : Op Content → Prop
  | .put (.project id) v c => ∃ (old new : Project) (tag : Etag Content),
      v = .project new ∧ c = .ifMatch tag ∧
      ⟨.get (.project id), .found (.project old) tag⟩ ∈ past ∧
      (call.relabels = some id ∨ new.securityLabels = old.securityLabels)
  | .delete (.project _) => False
  | _ => True

def ProjectRule (call : ProjectCall) (past : Events) (o : Op Content) : Prop :=
  SwapRule (Projects call) past o ∧ RecordRule call past o

variable {call : ProjectCall} {past : Events} {id : ProjectId} {old : Project}
  {expectedVersion expected : Option Nat} {o : Op Content} {actor : UserId} {engine : Engine}

theorem projectRule_of_readOnly (readOnly : ReadOnly o) : ProjectRule call past o := by
  refine ⟨swapRule_of_spares (spares_of_readOnly readOnly), ?_⟩
  cases o <;> first | exact readOnly.elim | trivial

theorem projectRule_of_catalogOp (op : CatalogOp o) (rule : SwapRule (Projects call) past o) :
    ProjectRule call past o := by
  refine ⟨rule, ?_⟩
  cases o with
  | put k v c => cases k <;> first | exact op.elim | trivial
  | delete k => cases k <;> first | exact op.elim | trivial
  | _ => trivial

/-! ## Projections -/

theorem loadProjectCatalogPatch_reads :
    (loadProjectCatalogPatch id entry finalize).OpsAll ReadOnly := by
  refine ⟨trivial, fun r => ?_⟩
  cases r with
  | found v tag => cases v <;> trivial
  | _ => trivial

theorem patchProjectFn_reads {patch : ProjectPatchFn}
    (reads : ∀ entry, (patch.load entry).OpsAll ReadOnly) (base : Snapshot) :
    ((patchProjectFn id patch).run base).OpsAll ReadOnly := by
  simp only [patchProjectFn]
  cases projectById base id with
  | none => trivial
  | some project => exact (reads project).bind fun _ => trivial

theorem emits_updateProjectEntry
    (may : Projects call (projectEntryCall operation actor id patch) past)
    (reads : ∀ entry, (patch.load entry).OpsAll ReadOnly) :
    Emits (ProjectRule call) (fun _ _ => True) (updateProjectEntry operation actor id patch)
      past := by
  refine (emits_mutateSnapshot (permits_of_swapRule may
    (fun _ _ op rule => projectRule_of_catalogOp op rule) ?_)).forget
  intro base
  exact (patchProjectFn_reads reads base).emits fun _ _ => projectRule_of_readOnly

theorem keeps_projectRecord
    (may : finalize = true → call.relabels = some id ∧ finalizing operation = true) :
    Keeps (ProjectRule call)
      (updateProjectEntry operation actor id (projectRecord id finalize)) := by
  intro past
  refine emits_updateProjectEntry ?_ fun entry => loadProjectCatalogPatch_reads
  cases finalize with
  | false => exact .routine operation id actor past
  | true => exact .finalize operation id actor past (may rfl).1 (may rfl).2

/-! ## Records -/

theorem readProject_only : ParsesOnly (B := Content) readProject .project := by
  intro v
  cases v with
  | project p => exact .inl ⟨p, rfl, rfl⟩
  | _ => exact .inr ⟨_, rfl⟩

/-- The labels change only where the call sets them. -/
def KeepsLabels (call : ProjectCall) (id : ProjectId) (old new : Project) : Prop :=
  call.relabels = some id ∨ new.securityLabels = old.securityLabels

/-- A new record derived from `old`, with reads only. -/
def Derives (call : ProjectCall) (id : ProjectId) (old : Project)
    (derive : Hub Content (Option Project)) : Prop :=
  ∀ es, Emits (fun _ o => ReadOnly o)
    (fun out _ => ∀ new, out = .ok (some new) → KeepsLabels call id old new) derive es

theorem projectRule_put (read : ⟨.get (.project id), .found (.project old) tag⟩ ∈ past)
    (labels : KeepsLabels call id old new) :
    ProjectRule call past (.put (.project id) (.project new) (.ifMatch tag)) :=
  ⟨trivial, old, new, tag, rfl, rfl, read, labels⟩

theorem emits_mutateProject (derives : ∀ old, Derives call id old (apply old)) :
    Emits (ProjectRule call)
      (yields (Mutated ReadOnly (fun _ => KeepsLabels call id) (.project id) .project))
      (mutateProject id apply) past :=
  emits_mutateRecord readProject_only (fun _ => projectRule_of_readOnly trivial)
    (fun _ _ => projectRule_of_readOnly) (fun old _ _ => derives old _)
    fun _ _ _ _ read labels => projectRule_put read labels

/-- The identity provider's latest answer. -/
def lastResolved : Events → List (String × UserId)
  | [] => []
  | ⟨.ask (.resolveIdentitiesByEmail _), some resolved⟩ :: _ => resolved
  | _ :: es => lastResolved es

/-- The rows after the invites of known users were claimed (`claimInviteRows`). -/
def claimedRows (engine : Engine) (members : List ProjectMember)
    (resolved : List (String × UserId)) : ClaimedInviteRows :=
  if hasInviteRows members then resolveInviteRows engine members resolved
  else noInviteClaims members

/-- The rows claimed are those of some answer; a provider was asked last. -/
def ClaimedWith (engine : Engine) (members : List ProjectMember) (resolver : InviteResolver)
    (claimed : ClaimedInviteRows) (es : Events) : Prop :=
  ∃ resolved, claimed = claimedRows engine members resolved ∧
    (resolver = .provider → resolved = lastResolved es)

section Members

variable {G : Rule Content} {resolver : InviteResolver} (reads : ∀ es o, ReadOnly o → G es o)
include reads

theorem emits_claimInviteRows : Emits G (yields (ClaimedWith engine members resolver))
    (claimInviteRows engine members resolver) past := by
  unfold claimInviteRows
  split
  · next invites =>
    cases resolver with
    | swept resolved => exact ⟨resolved, by simp [claimedRows, invites], by simp⟩
    | provider =>
      refine ⟨reads _ _ trivial, fun answer => ?_⟩
      cases answer with
      | none => trivial
      | some resolved => exact ⟨resolved, by simp [claimedRows, invites], fun _ => rfl⟩
  · next none => exact ⟨lastResolved past, by simp [claimedRows, none], fun _ => rfl⟩

/-- A roster change writes over the record it read the rows derived from that and from the rows
claimed. -/
theorem keeps_mutateMemberObject
    (writes : ∀ es old tag members claimed updatedAt,
      ⟨.get (.project id), .found (.project old) tag⟩ ∈ es →
      ClaimedWith engine old.members resolver claimed es → derive old claimed = .ok members →
      G es (.put (.project id) (.project { old with members, updatedAt }) (.ifMatch tag))) :
    Keeps G (mutateMemberObject engine id derive skip resolver) := by
  refine keeps_withCasRetry fun past => ?_
  rw [emits_bind, emits_bucketGet]
  refine ⟨reads _ _ trivial, ?_, trivial, trivial⟩
  intro v tag
  cases v with
  | project old =>
    show Emits G _ (if old.status = .deleted then _ else _) _
    split
    · trivial
    · refine emits_seq (emits_claimInviteRows reads) ?_
      intro claimed es grown told
      split
      · trivial
      · split
        · trivial
        · next members derived =>
          refine emits_dateNow_then (reads _ _ trivial) fun now => ?_
          rw [emits_bind, emits_casPut]
          refine ⟨writes _ old tag members claimed _ (.tail _ (grown.subset (.head _)))
            told derived, fun _ => trivial, trivial, trivial⟩
  | _ => trivial

end Members

/-! ## The calls -/

theorem keeps_checkVersionFirst :
    Keeps (ProjectRule call) (checkVersionFirst id expectedVersion) := by
  have reads : (checkVersionFirst id expectedVersion).OpsAll ReadOnly := by
    cases expectedVersion with
    | none => trivial
    | some expected =>
      refine OpsAll.bind ⟨trivial, fun r => ?_⟩ fun project => ?_
      · cases r with
        | found v tag => cases v <;> trivial
        | _ => trivial
      · unfold assertVersionMatch
        split <;> trivial
  exact reads.emits fun _ _ => projectRule_of_readOnly

/-- The version check and the tombstone check come first, then the clock is read. -/
theorem derives_checked {new : Nat → Project} (noLabels : Derives call id old deleted)
    (labels : ∀ now, KeepsLabels call id old (new now)) : Derives call id old (do
      assertVersionMatch old.updatedAt expected
      if old.status = .deleted then deleted
      else
        let now ← dateNow
        pure (some (new now))) := by
  intro es
  unfold assertVersionMatch
  split
  · rintro _ ⟨⟩
  · show Emits _ _ (if old.status = .deleted then _ else _) _
    split
    · exact noLabels es
    · refine ⟨trivial, fun now => ?_⟩
      rintro _ ⟨⟩
      exact labels now

theorem derives_raise : Derives call id old (.raise err) := by
  rintro es _ ⟨⟩

theorem keeps_unparkSecurityLabels (labels : call.relabels = some id) :
    Keeps (ProjectRule call) (unparkSecurityLabels id actor) :=
  keeps_ignoringErrors ((keeps_projectRecord fun _ => ⟨labels, by decide⟩).map)

theorem keeps_writeSecurityLabels (labels : call.relabels = some id) :
    Keeps (ProjectRule call) (writeSecurityLabels id normalized actor expectedVersion) := by
  have writes : Keeps (ProjectRule call)
      (mutateProject id (applySecurityLabels id normalized expectedVersion)) :=
    keeps_of_emits fun _ => emits_mutateProject fun _ =>
      derives_checked derives_raise fun _ => .inl labels
  refine Keeps.tryCatch writes.map fun err => ?_
  cases err with
  | preconditionFailed | notFound | moveInProgress =>
    exact (keeps_unparkSecurityLabels labels).bind fun _ => keeps_raise
  | _ => exact keeps_raise

theorem keeps_setSecurityLabels (relabels : call.relabels = some id) :
    Keeps (ProjectRule call) (setSecurityLabels id labels actor expectedVersion) := by
  refine keeps_checkVersionFirst.bind fun _ => Keeps.bind (fun es => ?_) fun _ => ?_
  · exact emits_updateProjectEntry (.park id actor es relabels) fun _ => trivial
  · refine (keeps_writeSecurityLabels relabels).bind fun _ => ?_
    exact (keeps_projectRecord fun _ => ⟨relabels, by decide⟩).map

theorem keeps_deleteProject :
    Keeps (ProjectRule call) (deleteProject id actor expectedVersion) := by
  intro past
  rw [deleteProject, emits_bind]
  have derives (old : Project) : Derives call id old (applyDelete expectedVersion old) :=
    derives_checked (by rintro es _ ⟨⟩) fun _ => .inr rfl
  refine (emits_mutateProject derives).mono ?_
  intro out es wrote
  match out with
  | .error err => trivial
  | .ok ⟨new, false⟩ => trivial
  | .ok ⟨new, true⟩ =>
    obtain ⟨_, tag, tag', rest, _, rfl, _⟩ := wrote
    refine emits_seq (emits_updateProjectEntry
      (.tombstone _ id actor new (.ifMatch tag) tag' _ (.head _)) ?_) fun _ _ _ _ => trivial
    intro entry
    exact loadProjectCatalogPatch_reads.bind fun _ => trivial

theorem keeps_routine : Keeps (ProjectRule call)
      (updateProjectEntry operation actor id (projectRecord id false)) :=
  keeps_projectRecord (by simp)

theorem keeps_updateProject :
    Keeps (ProjectRule call) (updateProject engine id input actor expectedVersion) := by
  have named (name : Option String) : Keeps (ProjectRule call) (do
      let updated ← mutateProject id (applyUpdate id name input expectedVersion)
      let _ ← updateProjectEntry "project.update" actor id (projectRecord id false)
      pure updated.value) := by
    refine Keeps.bind (keeps_of_emits fun _ => emits_mutateProject fun _ => ?_) fun _ =>
      keeps_routine.map
    exact derives_checked derives_raise fun _ => .inr rfl
  unfold updateProject
  cases input.name with
  | none => exact named none
  | some name => exact Keeps.bind (Keeps.bind (.ite keeps_raise keeps_ret) fun _ => keeps_ret) named

theorem keeps_memberObject :
    Keeps (ProjectRule call) (mutateMemberObject engine id deriveMembers skip resolver) :=
  keeps_mutateMemberObject (fun _ _ => projectRule_of_readOnly) fun _ _ _ _ _ _ read _ _ =>
    projectRule_put read (.inr rfl)

theorem keeps_claimProjectInvites :
    Keeps (ProjectRule call) (claimProjectInvites engine candidate resolved) := by
  refine Keeps.tryCatch (keeps_memberObject.bind fun result => ?_) fun err => ?_
  · exact Keeps.ite keeps_ret keeps_routine.map
  · exact Keeps.ite keeps_ret keeps_raise

theorem projectCall_keeps_rule (engine : Engine) (call : ProjectCall) :
    Keeps (ProjectRule call) (call.run engine) := by
  cases call with
  | setSecurityLabels => exact (keeps_setSecurityLabels rfl).map
  | updateProject => exact keeps_updateProject.map
  | writeMembers =>
    exact (keeps_memberObject.bind fun _ => keeps_routine.map).map
  | claimProjectInvites => exact keeps_claimProjectInvites.map
  | deleteProject => exact keeps_deleteProject.map

end MarimoHub.Guarantees
