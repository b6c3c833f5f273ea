import MarimoHub.ObjectStore.Record
import MarimoHub.Source.SessionCaps

/-!
# What one update makes of a session record

Every callback is looked at once: how it moves the status, what it keeps of the record
(`SessionStep`) and what the caps read of it (`CapStep`).
-/

namespace MarimoHub.Guarantees

open ObjectStore Source Prog

/-! ## Steps -/

/-- The statuses that may be stored after a status, at any later time. -/
def mayFollow : SessionStatus → SessionStatus → Bool
  | .starting, _ => true
  | .running, next => next ≠ .starting
  | .terminating, next => next = .terminating ∨ next = .terminated
  | status, next => next = status

theorem mayFollow_refl : mayFollow status status = true := by
  cases status <;> decide

theorem mayFollow_trans (left : mayFollow first second = true)
    (right : mayFollow second third = true) : mayFollow first third = true := by
  revert left right
  cases first <;> cases second <;> cases third <;> decide

variable {status next : SessionStatus} {session : Session}

theorem mayFollow_terminal (terminal : status.isTerminal = true)
    (follows : mayFollow status next = true) : next = status := by
  revert terminal follows
  cases status <;> cases next <;> decide

theorem mayFollow_of_active (active : status = .starting ∨ status = .running)
    (moved : next ≠ .starting) : mayFollow status next = true := by
  rcases active with rfl | rfl
  · rfl
  · simpa [mayFollow] using moved

/-- What an update keeps of the record it was decided from. -/
structure SessionStep (session next : Session) : Prop where
  status : mayFollow session.status next.status = true
  sandbox : session.status.isTerminal = true → next.sandboxId = session.sandboxId
  reclaimed : session.status.isTerminal = true → session.sandboxReclaimedAt.isSome = true →
    next.sandboxReclaimedAt.isSome = true
  pinned : next.sourceVersionId = session.sourceVersionId
  notebook : next.notebookId = session.notebookId

/-- What no update of a record changes. -/
def capIdentity (session : Session) : SessionId × ProjectId × UserId × Option SessionMode × Nat :=
  (session.sessionId, session.projectId, session.userId, session.mode, session.startedAt)

structure CapStep (session next : Session) : Prop where
  status : mayFollow session.status next.status = true
  identity : capIdentity next = capIdentity session
  sandbox : session.status ≠ .starting → holdsSandbox next = true → holdsSandbox session = true

/-- An update other than `setRunning`. -/
structure IdleStep (session next : Session) : Prop extends CapStep session next where
  idle : next.status = .running → session.status = .running

/-- What every update but `setRunning` makes of a record. -/
structure UpdateStep (session next : Session) : Prop where
  life : SessionStep session next
  idle : IdleStep session next

/-- An update that leaves the status and the sandbox fields alone. -/
theorem UpdateStep.of_same {next : Session} (status : next.status = session.status)
    (sandbox : next.sandboxId = session.sandboxId)
    (reclaimed : session.sandboxReclaimedAt.isSome = true → next.sandboxReclaimedAt.isSome = true)
    (pinned : next.sourceVersionId = session.sourceVersionId)
    (notebook : next.notebookId = session.notebookId)
    (identity : capIdentity next = capIdentity session) : UpdateStep session next := by
  have follows : mayFollow session.status next.status = true := by
    rw [status]
    exact mayFollow_refl
  refine ⟨⟨follows, fun _ => sandbox, fun _ => reclaimed, pinned, notebook⟩,
    ⟨follows, identity, ?_⟩, fun running => status ▸ running⟩
  intro _ held
  rw [holdsSandbox, sandbox, Bool.and_eq_true] at held
  rw [holdsSandbox, Bool.and_eq_true]
  refine ⟨held.1, ?_⟩
  cases given : session.sandboxReclaimedAt with
  | none => rfl
  | some at_ =>
    have kept := reclaimed (by rw [given]; rfl)
    rw [Option.isNone_iff_eq_none.mp held.2] at kept
    cases kept

theorem SessionStep.of_live {next : Session} (live : session.status.isTerminal = false)
    (status : mayFollow session.status next.status = true)
    (pinned : next.sourceVersionId = session.sourceVersionId)
    (notebook : next.notebookId = session.notebookId) : SessionStep session next :=
  ⟨status, fun terminal => by simp [live] at terminal, fun terminal => by simp [live] at terminal,
    pinned, notebook⟩

theorem UpdateStep.of_ended {next : Session} (live : session.status.isTerminal = false)
    (status : mayFollow session.status next.status = true) (ended : next.status ≠ .running)
    (pinned : next.sourceVersionId = session.sourceVersionId)
    (notebook : next.notebookId = session.notebookId)
    (identity : capIdentity next = capIdentity session)
    (sandbox : holdsSandbox next = holdsSandbox session) : UpdateStep session next where
  life := .of_live live status pinned notebook
  idle := ⟨⟨status, identity, fun _ held => sandbox ▸ held⟩, fun running => absurd running ended⟩

theorem nextStatus_terminate (edge : nextStatus status .terminate = some next) :
    (status = .starting ∨ status = .running) ∧ next = .terminating := by
  revert edge
  cases status <;> cases next <;> decide

theorem nextStatus_expire (edge : nextStatus status .expire = some next) :
    status.isTerminal = false ∧ mayFollow status next = true := by
  revert edge
  cases status <;> cases next <;> decide

theorem not_ending (alive : ¬ isEnding session = true) :
    session.status.isTerminal = false ∧
    (session.status = .starting ∨ session.status = .running) := by
  revert alive
  cases status : session.status <;>
    simp [isEnding, status, SessionStatus.isTerminal, terminalStatuses]

theorem UpdateStep.of_expired {target : SessionStatus}
    (edge : nextStatus session.status .expire = some target) :
    UpdateStep session { session with status := target } := by
  obtain ⟨live, follows⟩ := nextStatus_expire edge
  refine .of_ended live follows ?_ rfl rfl rfl rfl
  rintro rfl
  revert edge
  cases session.status <;> decide

/-! ## Callbacks -/

/-- Reading the clock and drawing identifiers. -/
def LocalOp : Op Runtime → Prop
  | .now => True
  | .mint => True
  | _ => False

/-- A callback only writes what `step` allows, and makes no request of its own. -/
def Decides (step : Session → Session → Prop) (apply : Session → Hub Runtime (Option Session)) :
    Prop :=
  ∀ session es, Emits (fun _ => LocalOp)
    (fun out _ => ∀ next, out = .ok (some next) → step session next) (apply session) es

section Callbacks

variable {p : Session → Prop} [DecidablePred p]
  {edit : Session → Session}

theorem Decides.mono (decides : Decides step apply)
    (weaker : ∀ session next, step session next → step' session next) : Decides step' apply :=
  fun session es => (decides session es).mono fun _ _ allowed next written =>
    weaker session next (allowed next written)

theorem decides_always (fine : ∀ session, step session (edit session)) :
    Decides step fun session => pure (some (edit session)) := by
  rintro session es _ ⟨⟩
  exact fine session

theorem decides_unless (fine : ∀ session, ¬ p session → step session (edit session)) :
    Decides step fun session => if p session then pure none else pure (some (edit session)) := by
  intro session es
  dsimp only
  split
  · rintro _ ⟨⟩
  · next passed =>
    rintro _ ⟨⟩
    exact fine session passed

theorem decides_when (fine : ∀ session, p session → step session (edit session)) :
    Decides step fun session => if p session then pure (some (edit session)) else pure none := by
  intro session es
  dsimp only
  split
  · next passed =>
    rintro _ ⟨⟩
    exact fine session passed
  · rintro _ ⟨⟩

end Callbacks

theorem decides_running :
    Decides (fun session next => SessionStep session next ∧ CapStep session next)
      (applyRunning args) := by
  intro session es
  rw [applyRunning]
  split
  · rintro _ ⟨⟩
  · next alive =>
    obtain ⟨live, active⟩ := not_ending alive
    refine ⟨trivial, fun now => ?_⟩
    rintro _ ⟨⟩
    have follows : mayFollow session.status .running = true := mayFollow_of_active active (by simp)
    exact ⟨.of_live live follows rfl rfl, follows, rfl, fun _ held => held⟩

theorem decides_extendExpiry : Decides UpdateStep (applyExtendExpiry expiresAt) :=
  decides_unless fun _ _ => .of_same rfl rfl id rfl rfl rfl

theorem decides_tighten : Decides UpdateStep (applyTighten deadline) :=
  decides_unless fun _ _ => .of_same rfl rfl id rfl rfl rfl

variable {surface : SurfaceId} {attemptId now : Nat}

theorem updateStep_setSurface :
    UpdateStep session (setSurface session surface state) := .of_same rfl rfl id rfl rfl rfl

theorem decides_surfaceStart :
    Decides UpdateStep (applySurfaceStart surface replace attemptId now) :=
  decides_when fun _ _ => updateStep_setSurface

theorem decides_surfaceForAttempt :
    Decides UpdateStep (applySurfaceForAttempt surface attemptId state) :=
  decides_when fun _ _ => updateStep_setSurface

theorem decides_surfaceStop : Decides UpdateStep (applySurfaceStop surface attemptId) := by
  intro session es
  rw [applySurfaceStop]
  split
  · rintro _ ⟨⟩
  · refine ⟨trivial, fun now => ?_⟩
    rintro _ ⟨⟩
    exact updateStep_setSurface

theorem decides_surfaceForStopAttempt :
    Decides UpdateStep (applySurfaceForStopAttempt surface attemptId state) :=
  decides_when fun _ _ => updateStep_setSurface

theorem decides_surface : Decides UpdateStep (applySurface surface state) :=
  decides_unless fun _ _ => updateStep_setSurface

theorem decides_reclaimed : Decides UpdateStep (applyReclaimed at_ expected) :=
  decides_unless fun _ _ => .of_same rfl rfl (fun _ => rfl) rfl rfl rfl

/-- Only a record that is still starting gets another sandbox, and it is in its queues anyway. -/
theorem decides_replaceSandbox : Decides UpdateStep (applyReplaceSandbox expected replacement) := by
  intro session es
  rw [applyReplaceSandbox]
  split
  · rintro _ ⟨⟩
  · next unchanged =>
    rintro _ ⟨⟩
    have starting : session.status = .starting := by
      by_contra moved
      exact unchanged (.inl moved)
    exact ⟨.of_live (by rw [starting]; rfl) mayFollow_refl rfl rfl,
      ⟨mayFollow_refl, rfl, fun moved => absurd starting moved⟩, id⟩

theorem decides_heartbeat : Decides UpdateStep applyHeartbeat := by
  intro session es
  rw [applyHeartbeat]
  refine emits_dateNow_then trivial fun now => ?_
  split
  · rintro _ ⟨⟩
  · split
    · rintro _ ⟨⟩
    · rintro _ ⟨⟩
      exact .of_same rfl rfl id rfl rfl rfl

theorem keeps_stopSurfaces : Keeps (fun _ => LocalOp) (stopSurfaces now surfaces) := by
  induction surfaces with
  | nil => exact keeps_ret
  | cons entry rest ih =>
    refine Keeps.bind ?_ fun _ => ih.map
    rw [stopSurface]
    split
    · exact keeps_ret
    · exact fun _ => ⟨trivial, fun _ => trivial⟩

/-- A stop is decided from a record that is starting or running. -/
structure TerminatingStep (session next : Session) : Prop extends SessionStep session next where
  active : session.status = .starting ∨ session.status = .running
  stopping : next.status = .terminating

theorem decides_terminating :
    Decides (fun session next => TerminatingStep session next ∧ IdleStep session next)
      (applyTerminating attribution) := by
  intro session es
  rw [applyTerminating]
  split
  · rintro _ ⟨⟩
  · next next edge =>
    obtain ⟨active, rfl⟩ := nextStatus_terminate edge
    refine emits_dateNow_then trivial fun now => ?_
    refine emits_seq (keeps_stopSurfaces _) ?_ (fun _ _ _ _ => by rintro _ ⟨⟩)
    rintro surfaces es _ _ _ ⟨⟩
    have live : session.status.isTerminal = false := by rcases active with h | h <;> rw [h] <;> rfl
    have follows : mayFollow session.status .terminating = true :=
      mayFollow_of_active active (by simp)
    exact ⟨⟨.of_live live follows rfl rfl, active, rfl⟩, ⟨follows, rfl, fun _ held => held⟩,
      by rintro ⟨⟩⟩

theorem decides_terminated : Decides UpdateStep applyTerminated := by
  refine decides_unless fun session _ => ?_
  cases terminal : session.status.isTerminal with
  | true => exact .of_same (by simp) rfl id rfl rfl rfl
  | false =>
    refine .of_ended terminal ?_ (by simp) rfl rfl rfl rfl
    revert terminal
    cases status : session.status <;> simp [SessionStatus.isTerminal, terminalStatuses, mayFollow]

theorem decides_failed {error : Option SessionError} : Decides UpdateStep (applyFailed error) := by
  refine decides_unless fun session alive => ?_
  obtain ⟨live, active⟩ := not_ending alive
  exact .of_ended live (mayFollow_of_active active (by simp)) (by simp) rfl rfl rfl rfl

/-! ## Updates -/

section Updates

variable {G : Rule Runtime} {past : Log Runtime}

/-- Every update is a callback of the loop, after clock and identifiers. -/
theorem emits_change {change : SessionUpdate} (locally : ∀ es o, LocalOp o → G es o)
    (running : ∀ args, change = .setRunning args → ∀ es,
      Emits G Q (mutateWithOutcome project sessionId (applyRunning args)) es)
    (mutated : ∀ apply, Decides UpdateStep apply → ∀ es,
      Emits G Q (mutateWithOutcome project sessionId apply) es) :
    Emits G Q (change.run project sessionId) past := by
  cases change with
  | setRunning args => exact running args rfl past
  | extendExpiry expiresAt => exact mutated _ decides_extendExpiry past
  | tightenAuthorizationDeadline deadline => exact mutated _ decides_tighten past
  | markSnapshotted at_ =>
    exact mutated (applySnapshotted at_)
      (decides_always fun _ => .of_same rfl rfl id rfl rfl rfl) past
  | beginSurfaceStart surface replaceReady =>
    exact ⟨locally _ _ trivial, fun attemptId => ⟨locally _ _ trivial, fun now =>
      mutated _ decides_surfaceStart _⟩⟩
  | setSurfaceStateForAttempt surface attemptId state =>
    exact mutated _ decides_surfaceForAttempt past
  | beginSurfaceStop surface =>
    exact ⟨locally _ _ trivial, fun attemptId => mutated _ decides_surfaceStop _⟩
  | setSurfaceStateForStopAttempt surface attemptId state =>
    exact mutated _ decides_surfaceForStopAttempt past
  | setSurfaceState surface state => exact mutated _ decides_surface past
  | markSandboxReclaimed at_ expected => exact mutated _ decides_reclaimed past
  | replaceStartingSandbox expected replacement =>
    exact mutated _ decides_replaceSandbox past
  | markTakeoverCaptureCompleted at_ =>
    exact mutated (applyCaptureCompleted at_)
      (decides_always fun _ => .of_same rfl rfl id rfl rfl rfl) past
  | heartbeat => exact mutated _ decides_heartbeat past
  | beginTerminating attribution =>
    exact mutated _ (decides_terminating.mono fun _ _ step => ⟨step.1.toSessionStep, step.2⟩) past
  | markTerminated => exact mutated _ decides_terminated past
  | markFailed error => exact mutated _ decides_failed past
  | markConnections activeConnections at_ =>
    exact mutated (applyConnections activeConnections at_)
      (decides_always fun _ => .of_same rfl rfl id rfl rfl rfl) past

theorem parseSession_only : ParsesOnly (B := Runtime) parseSession .session := by
  intro v
  cases v with
  | session session => exact .inl ⟨session, rfl, rfl⟩
  | _ => exact .inr ⟨_, rfl⟩

theorem emits_scanRecord
    (reads : G past (.get key)) (found : ∀ session tag, Q (.ok (some (session, tag)))
      (⟨.get key, .found (.session session) tag⟩ :: past))
    (skipped : ∀ r, r ≠ .fail → (∀ session tag, r ≠ .found (.session session) tag) →
      Q (.ok none) (⟨.get key, r⟩ :: past))
    (failed : ∀ err r, Q (.error err) (⟨.get key, r⟩ :: past)) :
    Emits G Q (scanRecord key) past := by
  rw [scanRecord, emits_bind, emits_bucketGet]
  refine ⟨reads, ?_, skipped _ (by simp) (by simp), failed _ _⟩
  intro v tag
  rw [andThen_ok]
  cases v with
  | session session => exact found session tag
  | _ => exact skipped _ (by simp) (by simp)

theorem emits_readAppPool (asks : G past (.ask (.appPool project notebook)))
    (done : ∀ out r, Q out (⟨.ask (.appPool project notebook), r⟩ :: past)) :
    Emits G Q (readAppPool project notebook) past := by
  refine ⟨asks, fun r => ?_⟩
  cases r with
  | ok pool => exact done _ _
  | error err => exact done _ _

/-! ## Scans -/

/-- Requests that write nothing. -/
def Reading : Op Runtime → Prop
  | .put _ _ _ => False
  | .delete _ => False
  | _ => True

theorem keeps_isPooledApp (reads : ∀ es o, Reading o → G es o) : Keeps G (isPooledApp session) := by
  intro past
  rw [isPooledApp]
  split
  · rw [emits_bind]
    refine emits_readAppPool (reads _ _ trivial) ?_
    intro out r
    cases out <;> trivial
  · trivial

def MayExpire (G : Rule Runtime) (key : RuntimeKey) : Prop :=
  ∀ es session tag target, ⟨.get key, .found (.session session) tag⟩ ∈ es →
    nextStatus session.status .expire = some target →
    G es (.put key (.session { session with status := target }) (.ifMatch tag))

theorem keeps_expireKey (reads : ∀ es o, Reading o → G es o) (puts : MayExpire G key) :
    Keeps G (expireKey now key) := by
  intro past
  rw [expireKey, emits_bind]
  refine emits_scanRecord (reads _ _ trivial) ?_ (fun _ _ _ => trivial) (fun _ _ => trivial)
  intro session tag
  rw [andThen_ok]
  dsimp only
  rw [expireOne]
  split
  · trivial
  · refine emits_seq (keeps_isPooledApp reads _) ?_
    intro pooled es grown _
    split
    · trivial
    · split
      · trivial
      · next target edge =>
        rw [putExpired, emits_tryCatch, emits_bind, emits_bucketPut]
        exact ⟨puts es session tag target (grown.subset (.head _)) edge, fun _ => trivial,
          trivial, trivial⟩

theorem keeps_expireAll (reads : ∀ es o, Reading o → G es o)
    (puts : ∀ key ∈ keys, MayExpire G key) : Keeps G (expireAll now keys) := by
  induction keys with
  | nil => exact keeps_ret
  | cons key rest ih =>
    exact (keeps_expireKey reads (puts key (.head _))).bind fun _ =>
      (ih fun other inside => puts other (.tail _ inside)).map

/-! ## The pinned version -/

theorem UpdateStep.of_rejected (error : SessionError) (starting : session.status = .starting) :
    UpdateStep session { session with status := .failed, error := some error } :=
  .of_ended (by rw [starting]; rfl) (by rw [starting]; rfl) (by simp) rfl rfl rfl rfl

theorem emits_getVersionPruneCutoff (reads : G past (.get (.versionPruneCutoff project notebook)))
    (absent : Q (.ok none) (⟨.get (.versionPruneCutoff project notebook), .absent⟩ :: past))
    (found : ∀ cutoff tag, Q (.ok (some cutoff))
      (⟨.get (.versionPruneCutoff project notebook), .found (.cutoff cutoff) tag⟩ :: past))
    (failed : ∀ err r, Q (.error err) (⟨.get (.versionPruneCutoff project notebook), r⟩ :: past)) :
    Emits G Q (getVersionPruneCutoff project notebook) past := by
  rw [getVersionPruneCutoff, emits_bind, emits_bucketGet]
  refine ⟨reads, ?_, absent, failed _ _⟩
  intro v tag
  cases v with
  | cutoff cutoff => exact found cutoff tag
  | _ => exact failed _ _

/-- The last request of a creation read a cutoff below the pinned version, or none. -/
def BelowPinned (session : Session) (version : VersionId) (past es : Log Runtime) : Prop :=
  ∃ r, es = ⟨.get (.versionPruneCutoff session.projectId session.notebookId), r⟩ :: past ∧
    (r = .absent ∨ ∃ cutoff tag, r = .found (.cutoff cutoff) tag ∧ cutoff < version)

/-- The rejection of a created session matches the tag its creation was given. -/
theorem emits_checkSourceVersion {version : VersionId} (reads : ∀ es o, Reading o → G es o)
    (puts : ∀ es error, past <:+ es → G es (.put (.session session.projectId session.sessionId)
      (.session { session with status := .failed, error := some error }) (.ifMatch tag))) :
    Emits G (fun out es => out = .ok () → BelowPinned session version past es)
      (checkSourceVersion session tag version) past := by
  have rejected {α : Type} {Q : Post Runtime HubError α}
      (r : GetRes Runtime) (error : SessionError) (err : HubError)
      (raised : ∀ err es, Q (.error err) es) : Emits G Q
        (failCreatedSession session tag error >>= fun _ => (.raise err : Hub Runtime α))
        (⟨.get (.versionPruneCutoff session.projectId session.notebookId), r⟩ :: past) := by
    refine emits_seq (Q := fun _ _ => True) ?_ (fun _ _ _ _ => raised _ _)
      (fun _ _ _ _ => raised _ _)
    rw [failCreatedSession, ignoringErrors, emits_tryCatch]
    dsimp only
    rw [emits_bind, emits_bucketPut]
    exact ⟨puts _ error (List.suffix_cons _ _), fun _ => trivial, trivial, trivial⟩
  rw [checkSourceVersion, emits_bind, emits_tryCatch]
  refine emits_getVersionPruneCutoff (reads _ _ trivial) ?_ ?_ ?_
  · intro _
    exact ⟨.absent, rfl, .inl rfl⟩
  · intro cutoff tag'
    rw [orElse_ok, andThen_ok]
    dsimp only
    split
    · exact rejected _ _ _ (by rintro _ _ ⟨⟩)
    · next above =>
      intro _
      exact ⟨_, rfl, .inr ⟨cutoff, tag', rfl, Nat.lt_of_not_le above⟩⟩
  · intro err r
    exact rejected r _ err (by rintro _ _ ⟨⟩)

end Updates

end MarimoHub.Guarantees
