import MarimoHub.Guarantees.ConstraintVerdicts

/-!
# Single and batched decisions

The passes of `authorize` and `authorizeMany` taken apart: what the baseline of an
allowed resource looks like, which slice of the batch settles a resource, and, for an
adapter that judges each label set by itself, that the batch decides as the single
calls do.
-/

namespace MarimoHub.Guarantees

open Source AuthorizationService

/-- The call returned an allow. -/
def Allows (result : Except Fault AuthorizationDecision) : Prop :=
  ∃ decision, result = .ok decision ∧ decision.isAllowed = true

/-- The call returned an allow at position `i`. -/
def AllowsAt (result : Except Fault (List AuthorizationDecision)) (i : Nat) : Prop :=
  ∃ decisions decision, result = .ok decisions ∧ decisions[i]? = some decision ∧
    decision.isAllowed = true

theorem bind_ok_iff {x : Except ε α} {f : α → Except ε β} :
    x >>= f = .ok b ↔ ∃ a, x = .ok a ∧ f a = .ok b := by
  cases x <;> simp [bind, Except.bind]

theorem map_ok_iff {x : Except ε α} {f : α → β} :
    x.map f = .ok b ↔ ∃ a, x = .ok a ∧ f a = b := by
  cases x <;> simp [Except.map]

theorem mapM_ok_iff {f : α → Except ε β} :
    xs.mapM f = .ok ys ↔ List.Forall₂ (fun y x => f x = .ok y) ys xs := by
  induction xs generalizing ys with
  | nil => cases ys <;> simp [pure, Except.pure]
  | cons x xs ih =>
    simp only [List.mapM_cons, bind_ok_iff, ih, List.forall₂_cons_right_iff, pure, Except.pure,
      Except.ok.injEq]
    grind

/-! ## Baselines -/

variable {decision : AuthorizationDecision} {sets : List ResourceSecurityLabels}
  {role : Option Role}

section Baseline

variable {svc : AuthorizationService} {resource : AuthorizationResource}

theorem decideRole_unexpiring
    (decided : svc.decideRole identity action resource role = .ok decision)
    (allowed : decision.isAllowed = true) : decision = .allowed decision.role none := by
  unfold decideRole at decided
  split at decided
  · cases decided
    unfold decideProject at allowed ⊢
    grind [AuthorizationDecision.isAllowed, AuthorizationDecision.role]
  · cases decided
    grind [AuthorizationDecision.isAllowed, AuthorizationDecision.role]
  · cases decided
    grind [AuthorizationDecision.isAllowed, AuthorizationDecision.role]
  · cases decided

theorem decideCredential_unexpiring
    (allowed : (decideCredential subject action resource role).isAllowed = true) :
    decideCredential subject action resource role = .allowed role none := by
  unfold decideCredential at allowed ⊢
  grind [AuthorizationDecision.isAllowed]

theorem labelSets_of_unscoped (unscoped : resource.project? = none) : resource.labelSets = [] := by
  cases resource <;> first | rfl | cases unscoped

theorem decideProjectScoped_allowed
    (baseline : svc.decideProjectScoped identity action resource project = .ok (decision, sets))
    (allowed : decision.isAllowed = true) :
    decision = .allowed decision.role none ∧ sets = resource.labelSets := by
  unfold decideProjectScoped at baseline
  split at baseline
  · cases baseline
    cases allowed
  · obtain ⟨found, decided, same⟩ := map_ok_iff.mp baseline
    cases same
    exact ⟨decideRole_unexpiring decided allowed, rfl⟩

theorem decideBaseline_allowed
    (baseline : svc.decideBaseline subject action resource = .ok (decision, sets))
    (allowed : decision.isAllowed = true) :
    decision = .allowed decision.role none ∧ sets = resource.labelSets := by
  unfold decideBaseline at baseline
  split at baseline
  · cases baseline
  · split at baseline
    · split at baseline
      · next unscoped =>
        cases baseline
        have same := decideCredential_unexpiring allowed
        exact ⟨by rw [same]; rfl, (labelSets_of_unscoped unscoped).symm⟩
      · cases baseline
        cases allowed
    · split at baseline
      · exact decideProjectScoped_allowed baseline allowed
      · have unscoped : resource.project? = none := by assumption
        cases baseline
        refine ⟨?_, (labelSets_of_unscoped unscoped).symm⟩
        unfold decideDeployment at allowed ⊢
        grind [AuthorizationDecision.isAllowed, AuthorizationDecision.role]
      · cases baseline

end Baseline

/-! ## One resource -/

@[simp] theorem isAllowed_withExpiry :
    (withExpiry expiresAt decision).isAllowed = decision.isAllowed := by
  cases decision <;> rfl

variable {resource : AuthorizationResource} {subject : AuthorizationSubject}
  {action : AuthorizationAction}

@[simp] theorem isAllowed_denialPrecedence :
    (denialPrecedence subject action resource decision).isAllowed = decision.isAllowed := by
  unfold denialPrecedence
  grind [AuthorizationDecision.isAllowed]

theorem settleCredential_denied (denied : decision.isAllowed = false) :
    settleCredential subject action resource decision = decision := by
  cases decision with
  | allowed role expiresAt => cases denied
  | denied category role reason => rfl

theorem withExpiry_decideCredential :
    withExpiry none (decideCredential subject action resource role) =
      decideCredential subject action resource role := by
  unfold decideCredential
  grind [withExpiry]

/-- What follows an allowing baseline: the constraint pass when there are labels, then
the credential. -/
def afterBaseline (svc : AuthorizationService) (now : Int) (subject : AuthorizationSubject)
    (action : AuthorizationAction) (resource : AuthorizationResource) (role : Option Role)
    (sets : List ResourceSecurityLabels) : Except Fault AuthorizationDecision :=
  if sets.isEmpty then .ok (decideCredential subject action resource role)
  else
    (svc.evaluateLabelSets now subject action sets).map fun
      | .unsatisfied reason => .denied .constraint role (some reason)
      | .satisfied expiresAt =>
        withExpiry (some expiresAt) (decideCredential subject action resource role)

section Single

variable {svc : AuthorizationService}

theorem authorize_of_baseline
    (baseline : svc.decideBaseline subject action resource = .ok (decision, sets)) :
    svc.authorize now subject action resource =
      if decision.isAllowed then afterBaseline svc now subject action resource decision.role sets
      else .ok (denialPrecedence subject action resource decision) := by
  unfold AuthorizationService.authorize afterBaseline
  simp only [baseline, bind, Except.bind]
  cases decision.isAllowed with
  | false => rfl
  | true =>
    cases sets.isEmpty with
    | true => rfl
    | false =>
      cases svc.evaluateLabelSets now subject action sets with
      | error fault => rfl
      | ok verdict => cases verdict <;> rfl

theorem authorize_of_fault (baseline : svc.decideBaseline subject action resource = .error fault) :
    svc.authorize now subject action resource = .error fault := by
  unfold AuthorizationService.authorize
  rw [baseline]
  rfl

/-- The three halves of an allow. -/
theorem authorize_allows_iff : Allows (svc.authorize now subject action resource) ↔
    ∃ decision, svc.decideBaseline subject action resource = .ok (decision, resource.labelSets) ∧
      decision.isAllowed = true ∧ (resource.labelSets ≠ [] → ∃ expiresAt,
        svc.evaluateLabelSets now subject action resource.labelSets = .ok (.satisfied expiresAt)) ∧
      (decideCredential subject action resource decision.role).isAllowed = true := by
  cases baseline : svc.decideBaseline subject action resource with
  | error fault =>
    rw [authorize_of_fault baseline]
    simp [Allows]
  | ok found =>
    obtain ⟨decision, sets⟩ := found
    rw [authorize_of_baseline baseline]
    cases allowed : decision.isAllowed with
    | false => simp [Allows, allowed]
    | true =>
      obtain ⟨_, rfl⟩ := decideBaseline_allowed baseline allowed
      simp only [Allows, Except.ok.injEq, Prod.mk.injEq, and_true, exists_eq_left',
        allowed, afterBaseline, List.isEmpty_iff]
      by_cases unlabelled : resource.labelSets = []
      · simp [unlabelled]
      · rw [if_neg unlabelled]
        cases evaluated : svc.evaluateLabelSets now subject action resource.labelSets with
        | error fault => simp [unlabelled, Except.map]
        | ok verdict =>
          cases verdict with
          | satisfied expiresAt => simp [Except.map]
          | unsatisfied reason => simp [unlabelled, Except.map, AuthorizationDecision.isAllowed]

theorem satisfiedAt_of_evaluate
    (evaluated : svc.evaluateLabelSets now subject action sets = .ok (.satisfied expiresAt)) :
    ∃ security context, ContextResolved svc now subject security context ∧ ∀ k < sets.length,
      SatisfiedAt (evaluateSets security.constraints context action sets) sets.length k := by
  unfold evaluateLabelSets at evaluated
  split at evaluated
  · cases evaluated
  · cases evaluated
  · next slots expiry batch =>
    cases clear : findDenied slots with
    | error fault =>
      rw [clear] at evaluated
      cases evaluated
    | ok found =>
      rw [clear] at evaluated
      cases found with
      | some reason => cases evaluated
      | none =>
        obtain ⟨security, context, resolved, read, _⟩ := constraintBatch_ok batch
        obtain ⟨raw, _, length, same⟩ := readVerdicts_array read
        have whole : findDenied ((slots.drop 0).take sets.length) = .ok none := by
          rw [List.drop_zero, List.take_of_length_le (by rw [same, List.length_map, length]), clear]
        have facts := satisfiedAt_of_slice batch (by omega) whole
        simpa only [Nat.zero_add] using facts

end Single

/-! ## A batch of resources -/

/-- The label sets a resource contributes to the batch. -/
def allowedSets (svc : AuthorizationService) (subject : AuthorizationSubject)
    (action : AuthorizationAction) (resource : AuthorizationResource) :
    List ResourceSecurityLabels :=
  match svc.decideBaseline subject action resource with
  | .ok (decision, sets) => if decision.isAllowed then sets else []
  | .error _ => []

variable
  {entry : AuthorizationDecision × List ResourceSecurityLabels}

section Many

variable {svc : AuthorizationService}

theorem batchSets_cons (decision : AuthorizationDecision) (sets : List ResourceSecurityLabels)
    (rest : List (AuthorizationDecision × List ResourceSecurityLabels)) :
    batchSets ((decision, sets) :: rest) =
      (if decision.isAllowed then sets else []) ++ batchSets rest := by
  unfold batchSets batched
  rw [List.filter_cons]
  cases decision.isAllowed with
  | false => rfl
  | true => cases sets <;> rfl

theorem batchSets_eq
    (decided : List.Forall₂ (fun b r => svc.decideBaseline subject action r = .ok b) baselines
      resources) : batchSets baselines = resources.flatMap (allowedSets svc subject action) ∧
    batchSets (List.zipWith (withPrecedence subject action) resources baselines) =
      resources.flatMap (allowedSets svc subject action) := by
  induction decided with
  | nil => exact ⟨rfl, rfl⟩
  | @cons baseline resource baselines resources here _ ih =>
    obtain ⟨decision, sets⟩ := baseline
    have contributes : allowedSets svc subject action resource =
        if decision.isAllowed then sets else [] := by
      unfold allowedSets
      rw [here]
    rw [List.zipWith_cons_cons, withPrecedence, batchSets_cons, batchSets_cons,
      isAllowed_denialPrecedence, ih.1, ih.2, List.flatMap_cons, contributes]
    exact ⟨rfl, rfl⟩

theorem correlate_cons_iff : correlate batch (entry :: rest) cursor = .ok out ↔
      ∃ here others, settleEntry batch cursor entry = .ok here ∧
        correlate batch rest (advance batch cursor entry) = .ok others ∧ out = here :: others := by
  simp only [correlate, bind_ok_iff, pure, Except.pure, Except.ok.injEq]
  grind

theorem advance_ok (decisions : BatchDecisions) (expiresAt : String) (cursor : Nat)
    (entry : AuthorizationDecision × List ResourceSecurityLabels) :
    advance (.ok decisions expiresAt) cursor entry = cursor + (batchSets [entry]).length := by
  obtain ⟨decision, sets⟩ := entry
  rw [batchSets_cons]
  unfold advance batched
  cases decision.isAllowed with
  | false => simp [batchSets]
  | true => cases sets <;> simp [batchSets]

theorem correlate_at (settled : correlate batch (before ++ entry :: after) cursor = .ok out) :
    ∃ position decision, out[before.length]? = some decision ∧
      settleEntry batch position entry = .ok decision ∧
      ∀ decisions expiresAt, batch = .ok decisions expiresAt →
        position = cursor + (batchSets before).length := by
  induction before generalizing cursor out with
  | nil =>
    obtain ⟨here, others, settledHere, _, rfl⟩ := correlate_cons_iff.mp settled
    exact ⟨cursor, here, rfl, settledHere, fun _ _ _ => rfl⟩
  | cons first before ih =>
    obtain ⟨here, others, _, settledRest, rfl⟩ := correlate_cons_iff.mp settled
    obtain ⟨position, decision, found, settledEntry, counted⟩ := ih settledRest
    refine ⟨position, decision, by simpa using found, settledEntry, ?_⟩
    rintro decisions expiresAt rfl
    rw [counted decisions expiresAt rfl, advance_ok]
    obtain ⟨firstDecision, firstSets⟩ := first
    simp only [batchSets_cons]
    simp [batchSets]
    omega

theorem allowed_of_settleEntry (settled : settleEntry batch cursor entry = .ok decision)
    (allowed : decision.isAllowed = true) : entry.1.isAllowed = true := by
  unfold settleEntry at settled
  split at settled
  · next joined => exact (Bool.and_eq_true_iff.mp joined).1
  · cases settled
    exact allowed

theorem clear_of_settleEntry (settled : settleEntry batch cursor entry = .ok decision)
    (allowed : decision.isAllowed = true) (labelled : entry.2 ≠ []) :
    ∃ decisions expiresAt, batch = .ok decisions expiresAt ∧
      sliceDenied decisions cursor entry.2.length = .ok none := by
  have baseline := allowed_of_settleEntry settled allowed
  have joined : batched entry = true := by simp [batched, baseline, labelled]
  unfold settleEntry at settled
  rw [if_pos joined] at settled
  cases batch with
  | failed reason =>
    cases settled
    cases allowed
  | ok decisions expiresAt =>
    obtain ⟨denied, found, same⟩ := map_ok_iff.mp settled
    cases denied with
    | none => exact ⟨decisions, expiresAt, rfl, found⟩
    | some reason =>
      cases same
      cases allowed

theorem correlate_unlabelled (empty : batchSets entries = []) :
    correlate batch entries cursor = .ok (entries.map (·.1)) := by
  induction entries generalizing cursor with
  | nil => rfl
  | cons entry rest ih =>
    obtain ⟨decision, sets⟩ := entry
    rw [batchSets_cons, List.append_eq_nil_iff] at empty
    have apart : batched (decision, sets) = false := by
      unfold batched
      cases allowed : decision.isAllowed with
      | false => rfl
      | true =>
        have none := empty.1
        rw [if_pos allowed] at none
        rw [none]
        rfl
    refine correlate_cons_iff.mpr ⟨decision, rest.map (·.1), ?_, ih empty.2, rfl⟩
    unfold settleEntry
    rw [apart]
    rfl

theorem settleBatch_eq
    (decided : List.Forall₂ (fun b r => svc.decideBaseline subject action r = .ok b) baselines
      resources) : svc.settleBatch now subject action (batchSets baselines)
        (List.zipWith (withPrecedence subject action) resources baselines) =
      correlate (svc.constraintBatch now subject action
          (resources.flatMap (allowedSets svc subject action)))
        (List.zipWith (withPrecedence subject action) resources baselines) 0 := by
  obtain ⟨sets, outSets⟩ := batchSets_eq decided
  unfold settleBatch
  rw [sets]
  split
  · next empty => rw [correlate_unlabelled (outSets.trans (List.isEmpty_iff.mp empty))]
  · rfl

theorem authorizeMany_ok_iff :
    svc.authorizeMany now subject action resources = .ok out ↔ ∃ baselines settled,
      List.Forall₂ (fun b r => svc.decideBaseline subject action r = .ok b) baselines resources ∧
      correlate (svc.constraintBatch now subject action
          (resources.flatMap (allowedSets svc subject action)))
        (List.zipWith (withPrecedence subject action) resources baselines) 0 = .ok settled ∧
      out = List.zipWith (settleCredential subject action) resources settled := by
  simp only [authorizeMany, bind_ok_iff, mapM_ok_iff, pure, Except.pure, Except.ok.injEq]
  constructor
  · rintro ⟨baselines, decided, settled, correlated, rfl⟩
    rw [settleBatch_eq decided] at correlated
    exact ⟨baselines, settled, decided, correlated, rfl⟩
  · rintro ⟨baselines, settled, decided, correlated, rfl⟩
    exact ⟨baselines, decided, settled, (settleBatch_eq decided).trans correlated, rfl⟩

/-- Behind an allow for a labelled resource: the batch came back, and no denial was found
in the slice that belongs to the resource. -/
theorem authorizeMany_allows
    (allows : AllowsAt (svc.authorizeMany now subject action (before ++ resource :: after))
      before.length) (labelled : resource.labelSets ≠ []) :
    allowedSets svc subject action resource = resource.labelSets ∧ ∃ decisions expiresAt,
      svc.constraintBatch now subject action
        ((before ++ resource :: after).flatMap (allowedSets svc subject action)) =
          .ok decisions expiresAt ∧
      sliceDenied decisions (before.flatMap (allowedSets svc subject action)).length
        resource.labelSets.length = .ok none := by
  obtain ⟨out, decision, returned, found, allowed⟩ := allows
  obtain ⟨baselines, settled, all, correlated, rfl⟩ := authorizeMany_ok_iff.mp returned
  have earlier := List.forall₂_take_append _ _ _ all
  have later := List.forall₂_drop_append _ _ _ all
  have split := List.take_append_drop before.length baselines
  generalize baselines.take before.length = firsts at earlier split
  generalize baselines.drop before.length = lasts at later split
  cases later with
  | @cons baseline _ lasts _ here _ =>
    obtain ⟨kind, sets⟩ := baseline
    have lengths : firsts.length = before.length := earlier.length_eq
    rw [← split, List.zipWith_append lengths.symm] at correlated
    obtain ⟨position, settledDecision, atPosition, settledEntry, counted⟩ :=
      correlate_at correlated
    rw [List.length_zipWith, lengths, Nat.min_self] at atPosition
    have final : decision = settleCredential subject action resource settledDecision := by
      rw [List.getElem?_zipWith, atPosition] at found
      simpa using found.symm
    have settledAllowed : settledDecision.isAllowed = true := by
      cases settledDecision with
      | allowed role expiresAt => rfl
      | denied category role reason =>
        rw [final] at allowed
        cases allowed
    have baselineAllowed : kind.isAllowed = true :=
      isAllowed_denialPrecedence.symm.trans
        (allowed_of_settleEntry settledEntry settledAllowed)
    obtain ⟨_, rfl⟩ := decideBaseline_allowed here baselineAllowed
    have contributes : allowedSets svc subject action resource = resource.labelSets := by
      unfold allowedSets
      rw [here]
      exact if_pos baselineAllowed
    refine ⟨contributes, ?_⟩
    obtain ⟨decisions, expiresAt, batch, clear⟩ :=
      clear_of_settleEntry settledEntry settledAllowed labelled
    refine ⟨decisions, expiresAt, batch, ?_⟩
    rw [counted decisions expiresAt batch, Nat.zero_add, (batchSets_eq earlier).2] at clear
    exact clear

end Many

/-! ## Adapters that judge each label set by itself -/

/-- For a context and an action, the adapter gives every resource a verdict of its own,
alone and in a batch; or it fails every call. -/
def JudgesEachSet (constraints : ResourceConstraintPolicy) : Prop :=
  ∀ context action,
    (∃ verdict : ConstraintResource → Js,
      (∀ r, constraints.evaluate context action r = .value (verdict r)) ∧
      ∀ rs, constraints.evaluateMany context action rs =
        .value (.array (rs.map fun r => some (verdict r)))) ∨
    ((∀ r v, constraints.evaluate context action r ≠ .value v) ∧
      ∀ rs v, constraints.evaluateMany context action rs ≠ .value v)

/-- The first denial among verdicts given set by set. -/
def firstDenied (judge : ResourceSecurityLabels → ConstraintDecision)
    (sets : List ResourceSecurityLabels) : Option ConstraintDenialReason :=
  sets.findSome? fun labels =>
    match judge labels with
    | .satisfied _ => none
    | .unsatisfied reason _ => some reason

theorem findDenied_map (judge : ResourceSecurityLabels → ConstraintDecision)
    (sets : List ResourceSecurityLabels) :
    findDenied (sets.map fun labels => some (judge labels)) = .ok (firstDenied judge sets) := by
  induction sets with
  | nil => rfl
  | cons labels rest ih =>
    cases verdict : judge labels with
    | satisfied evidence => simpa [firstDenied, findDenied, verdict] using ih
    | unsatisfied reason evidence => simp [firstDenied, findDenied, verdict]

theorem readVerdicts_failed (failed : ∀ v, answer ≠ .value v) :
    readVerdicts count answer = none := by
  cases answer with
  | value v => exact absurd rfl (failed v)
  | thrown => rfl
  | timedOut => rfl

/-- Such an adapter's answers are read set by set, or not at all. -/
theorem readVerdicts_of_judges
    (judges : JudgesEachSet constraints) (context : SubjectSecurityContext)
    (action : AuthorizationAction) :
    (∃ judge : ResourceSecurityLabels → ConstraintDecision, ∀ sets : List ResourceSecurityLabels,
      readVerdicts sets.length (evaluateSets constraints context action sets) =
        some (.array (sets.map fun labels => some (judge labels)))) ∨
    ∀ sets : List ResourceSecurityLabels,
      readVerdicts sets.length (evaluateSets constraints context action sets) = none := by
  rcases judges context action with ⟨verdict, alone, together⟩ | ⟨alone, together⟩
  · refine .inl ⟨fun labels => parseVerdict (verdict ⟨some labels⟩), fun sets => ?_⟩
    unfold evaluateSets
    split
    · rw [alone]
      rfl
    · rw [together]
      simp [readVerdicts]
  · refine .inr fun sets => ?_
    unfold evaluateSets
    split
    · next labels =>
      have failed := alone ⟨some labels⟩
      cases outcome : constraints.evaluate context action ⟨some labels⟩ with
      | value v => exact absurd outcome (failed v)
      | thrown => rfl
      | timedOut => rfl
    · exact readVerdicts_failed (together _)

/-- An entry settled by a verdict on its own label sets. -/
def settledBy (eval : List ResourceSecurityLabels → LabelVerdict)
    (entry : AuthorizationDecision × List ResourceSecurityLabels) : AuthorizationDecision :=
  if batched entry then
    match eval entry.2 with
    | .unsatisfied reason => .denied .constraint entry.1.role (some reason)
    | .satisfied expiresAt => .allowed entry.1.role (some expiresAt)
  else entry.1

/-- The constraint pass as a function of the label sets alone. -/
structure Evaluator (svc : AuthorizationService) (now : Int) (subject : AuthorizationSubject)
    (action : AuthorizationAction) (eval : List ResourceSecurityLabels → LabelVerdict) : Prop where
  alone : ∀ sets, svc.evaluateLabelSets now subject action sets = .ok (eval sets)
  together : ∀ entries,
    correlate (svc.constraintBatch now subject action (batchSets entries)) entries 0 =
      .ok (entries.map (settledBy eval))
  antitone : ∀ sets sets' expiresAt, sets ⊆ sets' → eval sets' = .satisfied expiresAt →
    eval sets = .satisfied expiresAt

/-- The verdict of a batch judged set by set. -/
def verdictOf (judge : ResourceSecurityLabels → ConstraintDecision) (expiresAt : String)
    (sets : List ResourceSecurityLabels) : LabelVerdict :=
  match firstDenied judge sets with
  | some reason => .unsatisfied reason
  | none => .satisfied expiresAt

theorem correlate_failed (reason : ConstraintDenialReason)
    (entries : List (AuthorizationDecision × List ResourceSecurityLabels)) (cursor : Nat) :
    correlate (.failed reason) entries cursor =
      .ok (entries.map (settledBy fun _ => .unsatisfied reason)) := by
  induction entries generalizing cursor with
  | nil => rfl
  | cons entry rest ih =>
    refine correlate_cons_iff.mpr ⟨_, _, ?_, ih _, rfl⟩
    unfold settleEntry settledBy
    split <;> rfl

theorem correlate_judged (judge : ResourceSecurityLabels → ConstraintDecision) (expiresAt : String)
    (entries : List (AuthorizationDecision × List ResourceSecurityLabels))
    (before : List ResourceSecurityLabels) :
    correlate (.ok (.array ((before ++ batchSets entries).map fun labels => some (judge labels)))
        expiresAt) entries before.length =
      .ok (entries.map (settledBy (verdictOf judge expiresAt))) := by
  induction entries generalizing before with
  | nil => rfl
  | cons entry rest ih =>
    obtain ⟨decision, sets⟩ := entry
    have passed := ih (before ++ batchSets [(decision, sets)])
    rw [List.append_assoc, List.length_append] at passed
    have joined : batchSets [(decision, sets)] ++ batchSets rest =
        batchSets ((decision, sets) :: rest) := by
      rw [batchSets_cons, batchSets_cons, List.append_assoc]
      rfl
    rw [joined] at passed
    refine correlate_cons_iff.mpr ⟨_, _, ?_, (advance_ok ..) ▸ passed, rfl⟩
    unfold settleEntry settledBy
    split
    · next inBatch =>
      have allowed : decision.isAllowed = true := (Bool.and_eq_true_iff.mp inBatch).1
      have slice : sliceDenied (.array ((before ++ batchSets ((decision, sets) :: rest)).map
          fun labels => some (judge labels))) before.length sets.length =
          .ok (firstDenied judge sets) := by
        simp only [sliceDenied]
        rw [← List.map_drop, List.drop_left, batchSets_cons, if_pos allowed, ← List.map_take,
          List.take_left, findDenied_map]
      simp only [slice, verdictOf]
      cases firstDenied judge sets <;> rfl
    · rfl

theorem exists_evaluator
    (judges : ∀ security, svc.security = some security → JudgesEachSet security.constraints) :
    ∃ eval, Evaluator svc now subject action eval := by
  have failing (reason : ConstraintDenialReason)
      (always : ∀ sets, svc.constraintBatch now subject action sets = .failed reason) :
      Evaluator svc now subject action fun _ => .unsatisfied reason := by
    refine ⟨fun sets => ?_, fun entries => ?_, fun _ _ _ _ satisfied => by cases satisfied⟩
    · unfold evaluateLabelSets
      rw [always]
    · rw [always]
      exact correlate_failed reason entries 0
  cases wired : svc.security with
  | none => exact ⟨_, failing .unavailable fun sets => by simp [constraintBatch, wired]⟩
  | some security =>
    cases resolved : svc.resolveSubjectContext now subject with
    | none =>
      exact ⟨_, failing .missingContext fun sets => by simp [constraintBatch, wired, resolved]⟩
    | some context =>
      rcases readVerdicts_of_judges (judges security wired) context action with
        ⟨judge, read⟩ | unread
      · have always (sets : List ResourceSecurityLabels) :
            svc.constraintBatch now subject action sets =
              .ok (.array (sets.map fun labels => some (judge labels))) context.expiresAt := by
          simp [constraintBatch, wired, resolved, read]
        refine ⟨verdictOf judge context.expiresAt, fun sets => ?_, fun entries => ?_, ?_⟩
        · unfold evaluateLabelSets verdictOf
          rw [always]
          simp only [findDenied_map]
          cases firstDenied judge sets <;> rfl
        · rw [always]
          exact correlate_judged judge context.expiresAt entries []
        · intro sets sets' expiresAt fewer satisfied
          unfold verdictOf at satisfied ⊢
          cases none_denied : firstDenied judge sets' with
          | some reason =>
            rw [none_denied] at satisfied
            cases satisfied
          | none =>
            rw [none_denied] at satisfied
            have clear : firstDenied judge sets = none := by
              unfold firstDenied at none_denied ⊢
              rw [List.findSome?_eq_none_iff] at none_denied ⊢
              exact fun labels member => none_denied labels (fewer member)
            rw [clear]
            exact satisfied
      · exact ⟨_, failing .unavailable fun sets => by
          simp [constraintBatch, wired, resolved, unread]⟩

section Each

variable {svc : AuthorizationService}

theorem authorize_passes (evaluator : Evaluator svc now subject action eval)
    (here : svc.decideBaseline subject action resource = .ok baseline) :
    svc.authorize now subject action resource = .ok (settleCredential subject action resource
      (settledBy eval (withPrecedence subject action resource baseline))) := by
  obtain ⟨decision, sets⟩ := baseline
  rw [authorize_of_baseline here]
  cases allowed : decision.isAllowed with
  | false =>
    have apart : batched (withPrecedence subject action resource (decision, sets)) = false := by
      simp [batched, withPrecedence, allowed]
    unfold settledBy
    rw [apart]
    exact congrArg Except.ok
      (settleCredential_denied (isAllowed_denialPrecedence.trans allowed)).symm
  | true =>
    obtain ⟨shape, _⟩ := decideBaseline_allowed here allowed
    generalize decision.role = role at shape
    subst shape
    cases sets with
    | nil =>
      simp only [↓reduceIte, afterBaseline, List.isEmpty_nil, settledBy, withPrecedence,
        denialPrecedence, batched, Bool.not_true, Bool.and_false,
        Bool.false_eq_true, settleCredential]
      rw [withExpiry_decideCredential]
    | cons labels rest =>
      simp only [afterBaseline, evaluator.alone, settledBy, withPrecedence]
      cases eval (labels :: rest) <;> rfl

theorem authorize_passes_all (evaluator : Evaluator svc now subject action eval)
    (decided : List.Forall₂ (fun b r => svc.decideBaseline subject action r = .ok b) baselines
      resources) : List.Forall₂ (fun d r => svc.authorize now subject action r = .ok d)
      (List.zipWith (settleCredential subject action) resources
        ((List.zipWith (withPrecedence subject action) resources baselines).map (settledBy eval)))
      resources := by
  induction decided with
  | nil => exact .nil
  | cons here _ ih => exact .cons (authorize_passes evaluator here) ih

theorem baselines_of_authorized
    (each : List.Forall₂ (fun d r => svc.authorize now subject action r = .ok d) out resources) :
    ∃ baselines, List.Forall₂ (fun b r => svc.decideBaseline subject action r = .ok b)
      baselines resources := by
  induction each with
  | nil => exact ⟨[], .nil⟩
  | @cons decision resource out resources here _ ih =>
    obtain ⟨baselines, rest⟩ := ih
    obtain ⟨found, baseline, -⟩ := bind_ok_iff.mp here
    exact ⟨found :: baselines, .cons baseline rest⟩

/-- Under such an adapter the batch decides as the single calls do. -/
theorem authorizeMany_each (evaluator : Evaluator svc now subject action eval) :
    svc.authorizeMany now subject action resources = .ok out ↔
      List.Forall₂ (fun d r => svc.authorize now subject action r = .ok d) out resources := by
  rw [authorizeMany_ok_iff]
  constructor
  · rintro ⟨baselines, settled, decided, correlated, rfl⟩
    rw [← (batchSets_eq decided).2, evaluator.together] at correlated
    cases correlated
    exact authorize_passes_all evaluator decided
  · intro each
    obtain ⟨baselines, decided⟩ := baselines_of_authorized each
    refine ⟨baselines, (List.zipWith (withPrecedence subject action) resources baselines).map
      (settledBy eval), decided, ?_, ?_⟩
    · rw [← (batchSets_eq decided).2]
      exact evaluator.together _
    · have passes := mapM_ok_iff.mpr (authorize_passes_all evaluator decided)
      rw [mapM_ok_iff.mpr each] at passes
      exact Except.ok.inj passes

end Each

end MarimoHub.Guarantees
