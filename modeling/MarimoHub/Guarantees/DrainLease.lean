import MarimoHub.ObjectStore.Record
import MarimoHub.Source.EditorClaims

/-!
# The drain lease of a takeover

Workers that acquire, renew, advance, finish and release the drain lease recorded in one
editor claim. The four lease fields of the stored transfer are read as one optional lease
(`recordedLease`), on which every call acts as `LeaseStep` says; mutual exclusion, the order
of the stages and the progress deadline are facts about such steps.
-/

namespace MarimoHub.Guarantees

open ObjectStore Source

/-! ## Calls -/

inductive DrainStep where
  | acquire
  | renew
  | advance (stage : TakeoverDrainStage)
  | finish
  | release
deriving DecidableEq

/-- Calls that return nothing answer `none`. -/
def DrainStep.run (project : ProjectId) (notebook : NotebookId) (takeoverId leaseId : String) :
    DrainStep → Hub Runtime (Option Bool)
  | .acquire => do
    let held ← acquireTakeoverDrainLease project notebook takeoverId leaseId
    pure (some held)
  | .renew => do
    let renewed ← renewTakeoverDrainLease project notebook takeoverId leaseId
    pure (some renewed)
  | .advance stage => do
    let advanced ← advanceTakeoverDrainLease project notebook takeoverId leaseId stage
    pure (some advanced)
  | .finish => do
    finishTakeoverDrainLease project notebook takeoverId leaseId
    pure none
  | .release => do
    releaseTakeoverDrainLease project notebook takeoverId leaseId
    pure none

/-! ## What one call may do to the claim -/

section

variable (takeoverId leaseId : String) (before es : Log Runtime)

/-- What a drain call makes of the claim it read, and the clock it read after the events
`before`. -/
inductive DrainChange : DrainStep → EditorClaim → EditorClaim → Prop where
  | acquired (claim : EditorClaim) (transfer : Transfer) (now later : Nat) :
      drainingTransfer claim takeoverId = some transfer →
      hasActiveLease transfer now = false → es = ⟨.now, later⟩ :: ⟨.now, now⟩ :: before →
      DrainChange .acquire claim
        { claim with transfer := some (transfer.leased leaseId .capturing later) }
  | renewed (claim : EditorClaim) (transfer : Transfer) (now expiresAt deadline : Nat) :
      drainingTransfer claim takeoverId = some transfer →
      transfer.drainLeaseId = some leaseId → transfer.drainLeaseExpiresAt = some expiresAt →
      transfer.drainLeaseProgressDeadlineAt.or (some expiresAt) = some deadline →
      now < expiresAt → es = ⟨.now, now⟩ :: before →
      DrainChange .renew claim
        { claim with transfer := some { transfer with
          drainLeaseExpiresAt := some (min (now + takeoverDrainLeaseMs) deadline) } }
  | advanced (stage : TakeoverDrainStage) (claim : EditorClaim) (transfer : Transfer) (now : Nat) :
      drainingTransfer claim takeoverId = some transfer →
      transfer.drainLeaseId = some leaseId → transfer.drainLeaseExpiresAt.any (now < ·) = true →
      transfer.drainLeaseStage.all (fun current =>
        takeoverDrainStageOrder current < takeoverDrainStageOrder stage) = true →
      es = ⟨.now, now⟩ :: before →
      DrainChange (.advance stage) claim
        { claim with transfer := some (transfer.leased leaseId stage now) }
  | finished (claim : EditorClaim) (transfer : Transfer) :
      drainingTransfer claim takeoverId = some transfer → transfer.drainLeaseId = some leaseId →
      DrainChange .finish claim
        { claim with transfer := some { transfer.withoutLease with phase := .ready } }
  | released (claim : EditorClaim) (transfer : Transfer) :
      transferOf claim takeoverId = some transfer → transfer.drainLeaseId = some leaseId →
      DrainChange .release claim
        { claim with transfer := some transfer.withoutLease }

end

variable {takeoverId : String} {before es : Log Runtime} {step : DrainStep}
  {claim next : EditorClaim} {transfer : Transfer} {leaseId : String}

theorem DrainChange.holder (change : DrainChange takeoverId leaseId before es step claim next) :
    next.sessionId = claim.sessionId := by
  cases change <;> rfl

theorem parseEditorClaim_only : ParsesOnly (B := Runtime) parseEditorClaim .editorClaim := by
  intro v
  cases v with
  | editorClaim claim => exact .inl ⟨claim, rfl, rfl⟩
  | _ => exact .inr ⟨_, rfl⟩

/-- A callback on the claim writes what `step` allows, and only reads the clock. -/
def ClaimDecides (step : Log Runtime → Log Runtime → EditorClaim → EditorClaim → Prop)
    (apply : EditorClaim → Hub Runtime (Option EditorClaim)) : Prop :=
  ∀ claim before, Prog.Emits (fun _ o => o = .now)
    (fun out es => ∀ next, out = .ok (some next) → step before es claim next) (apply claim) before

theorem decides_acquire :
    ClaimDecides (fun before es => DrainChange takeoverId leaseId before es .acquire)
      (applyAcquire takeoverId leaseId) := by
  intro claim before
  rw [applyAcquire]
  split
  · rintro _ ⟨⟩
  · next transfer draining =>
    refine emits_dateNow_then rfl fun now => ?_
    split
    · rintro _ ⟨⟩
    · next inactive =>
      refine ⟨rfl, fun later => ?_⟩
      rintro _ ⟨⟩
      exact .acquired claim transfer now later draining (by simpa using inactive) rfl

theorem decides_renew :
    ClaimDecides (fun before es => DrainChange takeoverId leaseId before es .renew)
      (applyRenew takeoverId leaseId) := by
  intro claim before
  rw [applyRenew]
  split
  · rintro _ ⟨⟩
  · next transfer draining =>
    refine emits_dateNow_then rfl fun now => ?_
    split
    · next expiresAt deadline expires limit =>
      rw [expires] at limit
      split
      · rintro _ ⟨⟩
      · next renewable =>
        rintro _ ⟨⟩
        simp only [not_or, Decidable.not_not, Nat.not_le] at renewable
        exact .renewed claim transfer now expiresAt deadline draining renewable.1 expires limit
          renewable.2.1 rfl
    · rintro _ ⟨⟩

theorem decides_advance :
    ClaimDecides (fun before es => DrainChange takeoverId leaseId before es (.advance stage))
      (applyAdvance takeoverId leaseId stage) := by
  intro claim before
  rw [applyAdvance]
  split
  · rintro _ ⟨⟩
  · next transfer draining =>
    refine emits_dateNow_then rfl fun now => ?_
    split
    · rintro _ ⟨⟩
    · next held =>
      simp only [not_or, Decidable.not_not] at held
      split
      · rintro _ ⟨⟩
      · next forward =>
        rintro _ ⟨⟩
        refine .advanced stage claim transfer now draining held.1 held.2 ?_ rfl
        cases current : transfer.drainLeaseStage with
        | none => rfl
        | some current' => simpa [current] using forward

theorem decides_finish :
    ClaimDecides (fun before es => DrainChange takeoverId leaseId before es .finish)
      (applyFinish takeoverId leaseId) := by
  intro claim before
  rw [applyFinish]
  split
  · rintro _ ⟨⟩
  · next transfer draining =>
    split
    · rintro _ ⟨⟩
    · next held =>
      rintro _ ⟨⟩
      exact .finished claim transfer draining (not_not.mp held)

theorem decides_releaseLease :
    ClaimDecides (fun before es => DrainChange takeoverId leaseId before es .release)
      (applyReleaseLease takeoverId leaseId) := by
  intro claim before
  rw [applyReleaseLease]
  split
  · rintro _ ⟨⟩
  · next transfer current =>
    split
    · rintro _ ⟨⟩
    · next held =>
      rintro _ ⟨⟩
      exact .released claim transfer current (not_not.mp held)

/-! ## The recorded lease -/

structure DrainLease where
  id : String
  stage : TakeoverDrainStage
  expiresAt : Nat
  deadline : Nat
deriving DecidableEq

def Transfer.lease (transfer : Transfer) : Option DrainLease := do
  let id ← transfer.drainLeaseId
  let stage ← transfer.drainLeaseStage
  let expiresAt ← transfer.drainLeaseExpiresAt
  let deadline ← transfer.drainLeaseProgressDeadlineAt
  pure ⟨id, stage, expiresAt, deadline⟩

/-- The lease recorded in the stored claim. -/
def recordedLease : Option RuntimeVal → Option DrainLease
  | some (.editorClaim claim) => claim.transfer.bind Transfer.lease
  | _ => none

theorem lease_eq_some (recorded : Transfer.lease transfer = some lease) :
    transfer.drainLeaseId = some lease.id ∧ transfer.drainLeaseStage = some lease.stage ∧
      transfer.drainLeaseExpiresAt = some lease.expiresAt ∧
      transfer.drainLeaseProgressDeadlineAt = some lease.deadline := by
  simp only [Transfer.lease, Option.bind_eq_bind, Option.bind_eq_some_iff] at recorded
  obtain ⟨id, hid, stage, hstage, expiresAt, hexpires, deadline, hdeadline, same⟩ := recorded
  cases same
  exact ⟨hid, hstage, hexpires, hdeadline⟩

/-- The lease is bounded by its progress deadline and by one lease time from `now`. -/
structure LeaseSound (now : Nat) (lease : DrainLease) : Prop where
  deadline : lease.expiresAt ≤ lease.deadline
  fresh : lease.expiresAt ≤ now + takeoverDrainLeaseMs

theorem LeaseSound.later {now later : Nat} (sound : LeaseSound now lease)
    (after : now ≤ later) : LeaseSound later lease :=
  ⟨sound.deadline, Nat.le_trans sound.fresh (Nat.add_le_add_right after _)⟩

/-- A claim without a lease, or with all four fields of a sound one. -/
def ClaimSound (now : Nat) (claim : EditorClaim) : Prop :=
  ∀ transfer, claim.transfer = some transfer → transfer.drainLeaseId = none ∨
    ∃ lease, Transfer.lease transfer = some lease ∧ LeaseSound now lease

section

variable (leaseId : String) (seen wrote : Nat)

/-- What a call by the worker `leaseId` does to the recorded lease, when it read the claim
not before `seen` and wrote at `wrote`. -/
inductive LeaseStep : Option DrainLease → Option DrainLease → Prop where
  | acquired (old : Option DrainLease) (now : Nat) : seen ≤ now → now ≤ wrote →
      (∀ lease, old = some lease → lease.expiresAt ≤ wrote) →
      LeaseStep old (some ⟨leaseId, .capturing, now + takeoverDrainLeaseMs,
        now + takeoverDrainProgressTimeoutMs⟩)
  | renewed (lease : DrainLease) (now : Nat) : seen ≤ now → now ≤ wrote → lease.id = leaseId →
      LeaseStep (some lease) (some { lease with
        expiresAt := min (now + takeoverDrainLeaseMs) lease.deadline })
  | advanced (lease : DrainLease) (stage : TakeoverDrainStage) (now : Nat) : seen ≤ now →
      now ≤ wrote → lease.id = leaseId →
      takeoverDrainStageOrder lease.stage < takeoverDrainStageOrder stage →
      LeaseStep (some lease) (some ⟨leaseId, stage,
        now + takeoverDrainLeaseMs, now + takeoverDrainProgressTimeoutMs⟩)
  | ended (lease : DrainLease) : lease.id = leaseId → LeaseStep (some lease) none

end

section Lease

variable {leaseId : String} {seen wrote : Nat} {old new : Option DrainLease} {lease : DrainLease}

theorem LeaseStep.sound (step : LeaseStep leaseId seen wrote old new)
    (recorded : new = some lease) :
    LeaseSound wrote lease := by
  have longer : takeoverDrainLeaseMs ≤ takeoverDrainProgressTimeoutMs := by decide
  cases step with
  | acquired _ now after until_ _ =>
    cases recorded
    exact ⟨Nat.add_le_add_left longer _, Nat.add_le_add_right until_ _⟩
  | renewed lease now after until_ _ =>
    cases recorded
    exact ⟨Nat.min_le_right _ _, Nat.le_trans (Nat.min_le_left _ _) (Nat.add_le_add_right until_ _)⟩
  | advanced lease stage now after until_ _ _ =>
    cases recorded
    exact ⟨Nat.add_le_add_left longer _, Nat.add_le_add_right until_ _⟩
  | ended _ _ => cases recorded

/-- A sound lease that has not expired stays with its worker and does not get shorter, unless
that worker ends it. -/
theorem LeaseStep.keeps (step : LeaseStep leaseId seen wrote (some lease) new)
    (sound : LeaseSound seen lease) (active : wrote < lease.expiresAt) : leaseId = lease.id ∧
      (new = none ∨ ∃ later, new = some later ∧ later.id = lease.id ∧
        lease.expiresAt ≤ later.expiresAt) := by
  have longer (now : Nat) (after : seen ≤ now) : lease.expiresAt ≤ now + takeoverDrainLeaseMs :=
    Nat.le_trans sound.fresh (Nat.add_le_add_right after _)
  cases step with
  | acquired _ now after until_ expired =>
    exact absurd (expired lease rfl) (Nat.not_le.mpr active)
  | renewed _ now after until_ mine =>
    exact ⟨mine.symm, .inr ⟨_, rfl, rfl, Nat.le_min.mpr ⟨longer now after, sound.deadline⟩⟩⟩
  | advanced _ stage now after until_ mine _ =>
    exact ⟨mine.symm, .inr ⟨_, rfl, mine.symm, longer now after⟩⟩
  | ended _ mine => exact ⟨mine.symm, .inl rfl⟩

/-- The step starts a new tenure: no unexpired lease was recorded. -/
def StartsTenure (leaseId : String) (wrote : Nat) (old new : Option DrainLease) : Prop :=
  (∃ lease, new = some lease ∧ lease.id = leaseId ∧ lease.stage = .capturing) ∧
    ∀ lease, old = some lease → lease.expiresAt ≤ wrote

/-- Within a tenure the worker stays and the stage does not go back. -/
theorem LeaseStep.forward (step : LeaseStep leaseId seen wrote old new)
    (recorded : new = some later) : StartsTenure leaseId wrote old new ∨
      ∃ lease, old = some lease ∧ later.id = lease.id ∧
        takeoverDrainStageOrder lease.stage ≤ takeoverDrainStageOrder later.stage := by
  cases step with
  | acquired _ now after until_ expired => exact .inl ⟨⟨_, rfl, rfl, rfl⟩, expired⟩
  | renewed lease now after until_ mine =>
    cases recorded
    exact .inr ⟨lease, rfl, rfl, Nat.le_refl _⟩
  | advanced lease stage now after until_ mine ahead =>
    cases recorded
    exact .inr ⟨lease, rfl, mine.symm, Nat.le_of_lt ahead⟩
  | ended _ _ => cases recorded

end Lease

theorem transferOf_some (found : transferOf claim takeoverId = some transfer) :
    claim.transfer = some transfer :=
  (Option.filter_eq_some_iff.mp found).1

theorem drainingTransfer_some (found : drainingTransfer claim takeoverId = some transfer) :
    claim.transfer = some transfer :=
  transferOf_some (Option.filter_eq_some_iff.mp found).1

theorem ClaimSound.lease (sound : ClaimSound seen claim) (stored : claim.transfer = some transfer)
    (named : transfer.drainLeaseId = some leaseId) :
    ∃ lease, Transfer.lease transfer = some lease ∧ lease.id = leaseId ∧ LeaseSound seen lease := by
  rcases sound transfer stored with free | ⟨lease, recorded, good⟩
  · rw [free] at named
    cases named
  · have id := (lease_eq_some recorded).1
    rw [named] at id
    exact ⟨lease, recorded, (Option.some.inj id).symm, good⟩

theorem lease_renewed (recorded : Transfer.lease transfer = some lease)
    (expiresAt : Nat) : Transfer.lease { transfer with drainLeaseExpiresAt := some expiresAt } =
      some { lease with expiresAt := expiresAt } := by
  obtain ⟨id, stage, _, limit⟩ := lease_eq_some recorded
  simp [Transfer.lease, id, stage, limit]

section

variable (change : DrainChange takeoverId leaseId before es step claim next)
include change

theorem DrainChange.leaseStep
    (sound : ClaimSound seen claim)
    (clock : ∀ new now, es = new ++ before → ⟨.now, now⟩ ∈ new → seen ≤ now ∧ now ≤ wrote) :
    LeaseStep leaseId seen wrote (claim.transfer.bind Transfer.lease)
      (next.transfer.bind Transfer.lease) := by
  have leased {transfer} (stored : claim.transfer = some transfer)
      (named : transfer.drainLeaseId = some leaseId) :
      ∃ lease, Transfer.lease transfer = some lease ∧
      lease.id = leaseId ∧ claim.transfer.bind Transfer.lease = some lease := by
    obtain ⟨lease, recorded, mine, good⟩ := sound.lease stored named
    exact ⟨lease, recorded, mine, by rw [stored]; exact recorded⟩
  cases change with
  | acquired _ transfer now later draining inactive read =>
    have earlier := clock [⟨.now, later⟩, ⟨.now, now⟩] now read (by simp)
    have last := clock [⟨.now, later⟩, ⟨.now, now⟩] later read (by simp)
    refine .acquired _ later last.1 last.2 ?_
    intro lease recorded
    rw [drainingTransfer_some draining] at recorded
    obtain ⟨id, _, expires, _⟩ := lease_eq_some recorded
    simp only [hasActiveLease, id, expires, Option.isSome_some, Option.any_some, true_and,
      decide_eq_true_eq, decide_eq_false_iff_not, Nat.not_lt] at inactive
    exact Nat.le_trans inactive earlier.2
  | renewed _ transfer now expiresAt deadline draining named expires limit active read =>
    have bounds := clock [⟨.now, now⟩] now read (by simp)
    obtain ⟨lease, recorded, mine, old⟩ := leased (drainingTransfer_some draining) named
    obtain ⟨id, stage, expires', limit'⟩ := lease_eq_some recorded
    rw [limit'] at limit
    cases limit
    have new := lease_renewed recorded (min (now + takeoverDrainLeaseMs) lease.deadline)
    rw [old, Option.bind_some, new]
    exact .renewed lease now bounds.1 bounds.2 mine
  | advanced stage _ transfer now draining named active ahead read =>
    have bounds := clock [⟨.now, now⟩] now read (by simp)
    obtain ⟨lease, recorded, mine, old⟩ := leased (drainingTransfer_some draining) named
    rw [old]
    refine .advanced lease stage now bounds.1 bounds.2 mine ?_
    simpa [(lease_eq_some recorded).2.1] using ahead
  | finished _ transfer draining named =>
    obtain ⟨lease, recorded, mine, old⟩ := leased (drainingTransfer_some draining) named
    rw [old]
    exact .ended lease mine
  | released _ transfer current named =>
    obtain ⟨lease, recorded, mine, old⟩ := leased (transferOf_some current) named
    rw [old]
    exact .ended lease mine

theorem DrainChange.fields
    (sound : ClaimSound seen claim) : ∀ transfer, next.transfer = some transfer →
      transfer.drainLeaseId = none ∨ ∃ lease, Transfer.lease transfer = some lease := by
  intro transfer stored
  cases change with
  | acquired _ transfer now later draining inactive read =>
    cases stored
    exact .inr ⟨_, rfl⟩
  | renewed _ transfer now expiresAt deadline draining named expires limit active read =>
    cases stored
    obtain ⟨lease, recorded, _, _⟩ := sound.lease (drainingTransfer_some draining) named
    exact .inr ⟨_, lease_renewed recorded _⟩
  | advanced stage _ transfer now draining named active ahead read =>
    cases stored
    exact .inr ⟨_, rfl⟩
  | finished _ transfer draining named =>
    cases stored
    exact .inl rfl
  | released _ transfer current named =>
    cases stored
    exact .inl rfl

end

end MarimoHub.Guarantees
