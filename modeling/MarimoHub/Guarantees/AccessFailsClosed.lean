import MarimoHub.Guarantees.AuthorizedBatch

/-!
# Labelled resources fail closed

Whatever the adapters do, access to a labelled resource needs a valid subject context
and an explicit satisfied verdict for each of its label sets (`FailsClosed`). A
further label set can only take access away if the adapter judges each label set by
itself (`JudgesEachSet`): one set is sent to `evaluate` and several to
`evaluateMany`, which an arbitrary adapter may answer differently. A grant can only
take access away from a credential that is not a service account, whose authority is
its grant.
-/

namespace MarimoHub.Guarantees

open Source AuthorizationService

/-! ## Explicit verdicts -/

/-- The answer to this batch is not an array of numbers. `authorizeMany` takes such an answer's
entries for verdicts that do not deny. -/
def NoNumberArray (svc : AuthorizationService) (now : Int) (subject : AuthorizationSubject)
    (action : AuthorizationAction) (sets : List ResourceSecurityLabels) : Prop :=
  ∀ security context items, ContextResolved svc now subject security context →
    evaluateSets security.constraints context action sets ≠ .value (.typedArray items)

/-- Every access to a labelled resource rests on a valid context and on an explicit
satisfied verdict for each of its label sets. In a batch the verdict stands where the
label set does. -/
structure FailsClosed (svc : AuthorizationService) (now : Int) (subject : AuthorizationSubject) :
    Prop where
  single : ∀ action resource, Allows (svc.authorize now subject action resource) →
    ∀ k < resource.labelSets.length, ∃ security context,
      ContextResolved svc now subject security context ∧
      SatisfiedAt (evaluateSets security.constraints context action resource.labelSets)
        resource.labelSets.length k
  many : ∀ action before resource after, NoNumberArray svc now subject action
      ((before ++ resource :: after).flatMap (allowedSets svc subject action)) →
    AllowsAt (svc.authorizeMany now subject action (before ++ resource :: after)) before.length →
    ∀ k < resource.labelSets.length, ∃ security context sets position,
      ContextResolved svc now subject security context ∧
      sets[position]? = resource.labelSets[k]? ∧
      sets = (before ++ resource :: after).flatMap (allowedSets svc subject action) ∧
      position = (before.flatMap (allowedSets svc subject action)).length + k ∧
      SatisfiedAt (evaluateSets security.constraints context action sets) sets.length position
  listed : ∀ action states k labels, states[k]? = some (some labels) →
    (svc.projectLabelConstraints now subject states action)[k]? = some (some true) →
    ∃ security context, ContextResolved svc now subject security context ∧
      SatisfiedAt (security.constraints.evaluateMany context (.project action)
        (states.map ConstraintResource.mk)) states.length k

section FailsClosed

theorem not_numbers (plain : NoNumberArray svc now subject action sets)
    (batch : svc.constraintBatch now subject action sets = .ok (.numbers length) expiresAt) :
    False := by
  obtain ⟨security, context, resolved, read, _⟩ := constraintBatch_ok batch
  unfold readVerdicts at read
  split at read
  · split at read <;> cases read
  · next items answer => exact plain security context items resolved answer
  · cases read

theorem fails_closed (subject : AuthorizationSubject) : FailsClosed svc now subject where
  single action resource allows := by
    intro k below
    obtain ⟨_, _, _, satisfied, _⟩ := authorize_allows_iff.mp allows
    have labelled : resource.labelSets ≠ [] := List.ne_nil_of_length_pos (Nat.zero_lt_of_lt below)
    obtain ⟨expiresAt, evaluated⟩ := satisfied labelled
    obtain ⟨security, context, resolved, verdicts⟩ := satisfiedAt_of_evaluate evaluated
    exact ⟨security, context, resolved, verdicts k below⟩
  many action before resource after plain allows := by
    intro k below
    have labelled : resource.labelSets ≠ [] := List.ne_nil_of_length_pos (Nat.zero_lt_of_lt below)
    obtain ⟨contributes, decisions, expiresAt, batch, clear⟩ := authorizeMany_allows allows labelled
    cases decisions with
    | numbers length => exact (not_numbers plain batch).elim
    | array slots =>
      have sets : (before ++ resource :: after).flatMap (allowedSets svc subject action) =
          before.flatMap (allowedSets svc subject action) ++ (resource.labelSets ++
            after.flatMap (allowedSets svc subject action)) := by
        rw [List.flatMap_append, List.flatMap_cons, contributes]
      obtain ⟨security, context, resolved, verdicts⟩ :=
        satisfiedAt_of_slice batch (by rw [sets]; simp) clear
      refine ⟨security, context, _, _, resolved, ?_, rfl, rfl, verdicts k below⟩
      rw [sets, List.getElem?_append_right (Nat.le_add_right _ _), Nat.add_sub_cancel_left,
        List.getElem?_append_left below]
  listed action states k labels labelled access := by
    have closed : ¬ (states.map fun labels => some labels.isNone)[k]? = some (some true) := by
      simp [labelled]
    unfold projectLabelConstraints at access
    split at access
    · next unlabelled =>
      have none_of := List.all_eq_true.mp unlabelled _ (List.mem_of_getElem? labelled)
      cases none_of
    · split at access
      · next security context wired resolved =>
        obtain ⟨security', facts⟩ := contextResolved_of_resolve resolved
        have same : security' = security := Option.some.inj (facts.wired.symm.trans wired)
        refine ⟨security, context, same ▸ facts, ?_⟩
        split at access
        · next slots answer =>
          split at access
          · exact absurd access closed
          · next counted =>
            obtain ⟨slot, _, slotAt, stateAt, passes⟩ := List.getElem?_zipWith_eq_some.mp access
            cases labelled.symm.trans stateAt
            obtain ⟨verdict, rfl, satisfied⟩ := Option.map_eq_some_iff.mp passes
            refine ⟨slots, verdict, answer, Decidable.not_not.mp counted, slotAt, ?_⟩
            cases parsed : parseConstraintDecision verdict with
            | none => simp [parsed] at satisfied
            | some decision =>
              cases decision with
              | satisfied evidence => exact saysSatisfied_of_parse parsed
              | unsatisfied reason evidence => simp [parsed] at satisfied
        · exact absurd access closed
      · exact absurd access closed

end FailsClosed

/-! ## Adding label sets -/

/-- The labels stay, or are added where there were none. -/
def LabelsAdded (labels labels' : Option ResourceSecurityLabels) : Prop :=
  labels = none ∨ labels' = labels

/-- The same resource with project labels, notebook labels or both added. -/
inductive AddsLabels : AuthorizationResource → AuthorizationResource → Prop where
  | deployment (appOnly : Option Bool) : AddsLabels (.deployment appOnly) (.deployment appOnly)
  | project (p : Project) (labels notebook notebook' : Option ResourceSecurityLabels) :
      LabelsAdded p.securityLabels labels → LabelsAdded notebook notebook' →
      AddsLabels (.project p notebook) (.project { p with securityLabels := labels } notebook')
  | session (p : Project) (session : SessionAdmissionRecord)
      (labels notebook notebook' : Option ResourceSecurityLabels) :
      LabelsAdded p.securityLabels labels → LabelsAdded notebook notebook' →
      AddsLabels (.session p session notebook)
        (.session { p with securityLabels := labels } session notebook')
  | sessionStart (p : Project) (mode : SessionMode)
      (labels notebook notebook' : Option ResourceSecurityLabels) :
      LabelsAdded p.securityLabels labels → LabelsAdded notebook notebook' →
      AddsLabels (.sessionStart p mode notebook)
        (.sessionStart { p with securityLabels := labels } mode notebook')

structure LabelsOnlyRestrict (svc : AuthorizationService) (now : Int)
    (subject : AuthorizationSubject) : Prop where
  single : ∀ action resource resource', AddsLabels resource resource' →
    Allows (svc.authorize now subject action resource') →
    Allows (svc.authorize now subject action resource)
  many : ∀ action resources resources' i, List.Forall₂ AddsLabels resources resources' →
    AllowsAt (svc.authorizeMany now subject action resources') i →
    AllowsAt (svc.authorizeMany now subject action resources) i
  listed : ∀ action states states' (k : Nat), List.Forall₂ LabelsAdded states states' →
    (svc.projectLabelConstraints now subject states' action)[k]? = some (some true) →
    (svc.projectLabelConstraints now subject states action)[k]? = some (some true)

variable {i : Nat} {resources resources' : List AuthorizationResource}

section Labels

variable {svc : AuthorizationService} {subject : AuthorizationSubject}
  {action : AuthorizationAction}

theorem toList_subset (added : LabelsAdded labels labels') : labels.toList ⊆ labels'.toList := by
  rcases added with rfl | rfl
  · exact List.nil_subset _
  · exact List.Subset.refl _

theorem labelSets_subset (adds : AddsLabels resource resource') :
    resource.labelSets ⊆ resource'.labelSets := by
  have both {a a' b b' : Option ResourceSecurityLabels} (left : LabelsAdded a a')
      (right : LabelsAdded b b') : a.toList ++ b.toList ⊆ a'.toList ++ b'.toList := by
    intro labels member
    rcases List.mem_append.mp member with inLeft | inRight
    · exact List.mem_append_left _ (toList_subset left inLeft)
    · exact List.mem_append_right _ (toList_subset right inRight)
  cases adds with
  | deployment appOnly => exact List.Subset.refl _
  | project p labels notebook notebook' left right => exact both left right
  | session p session labels notebook notebook' left right => exact both left right
  | sessionStart p mode labels notebook notebook' left right => exact both left right

/-- Two resources whose projects and role decisions agree have the same baseline
decision, whatever their label sets. -/
theorem decideBaseline_congr (kind : resource'.kind = resource.kind)
    (project : resource.project? = some p) (project' : resource'.project? = some p')
    (status : p'.status = p.status)
    (role : svc.role subject.identity p' = svc.role subject.identity p)
    (decided : ∀ role, svc.decideRole subject.identity action resource' role =
      svc.decideRole subject.identity action resource role) :
    (svc.decideBaseline subject action resource').map (·.1) =
      (svc.decideBaseline subject action resource).map (·.1) := by
  unfold decideBaseline scopeMismatch
  rw [kind, project, project']
  split
  · rfl
  · split
    · rfl
    · simp only [decideProjectScoped, status, role, decided]
      split
      · rfl
      · cases svc.decideRole subject.identity action resource (svc.role subject.identity p) <;> rfl

/-- The baseline decision does not read the labels. -/
theorem decideBaseline_adds (svc : AuthorizationService) (subject : AuthorizationSubject)
    (action : AuthorizationAction) (adds : AddsLabels resource resource') :
    (svc.decideBaseline subject action resource').map (·.1) =
      (svc.decideBaseline subject action resource).map (·.1) := by
  cases adds with
  | deployment appOnly => rfl
  | _ =>
    refine decideBaseline_congr rfl rfl rfl rfl rfl fun role => ?_
    cases action <;> rfl

theorem baseline_of_adds {found' : AuthorizationDecision × List ResourceSecurityLabels}
    (adds : AddsLabels resource resource')
    (baseline' : svc.decideBaseline subject action resource' = .ok found') :
    ∃ sets, svc.decideBaseline subject action resource = .ok (found'.1, sets) := by
  have same := (decideBaseline_adds svc subject action adds).symm
  rw [baseline'] at same
  obtain ⟨⟨_, sets⟩, baseline, rfl⟩ := map_ok_iff.mp same
  exact ⟨sets, baseline⟩

theorem decideCredential_adds (adds : AddsLabels resource resource') (role : Option Role) :
    decideCredential subject action resource' role =
      decideCredential subject action resource role := by
  cases adds <;> rfl

theorem getElem?_of_forall₂ (all : List.Forall₂ R xs ys) (found : xs[i]? = some x) :
    ∃ y, ys[i]? = some y ∧ R x y := by
  induction all generalizing i with
  | nil => simp at found
  | @cons first other xs ys here _ ih =>
    cases i with
    | zero =>
      cases found
      exact ⟨other, rfl, here⟩
    | succ i => exact ih found

section

variable (judges : ∀ security, svc.security = some security → JudgesEachSet security.constraints)

include judges

theorem labels_restrict_single (adds : AddsLabels resource resource')
    (allows : Allows (svc.authorize now subject action resource')) :
    Allows (svc.authorize now subject action resource) := by
  obtain ⟨eval, evaluator⟩ := exists_evaluator judges
  obtain ⟨decision, baseline', allowed, satisfied, credential⟩ := authorize_allows_iff.mp allows
  obtain ⟨sets, baseline⟩ := baseline_of_adds adds baseline'
  obtain ⟨_, rfl⟩ := decideBaseline_allowed baseline allowed
  rw [decideCredential_adds adds] at credential
  refine authorize_allows_iff.mpr ⟨decision, baseline, allowed, fun labelled => ?_, credential⟩
  have fewer := labelSets_subset adds
  have labelled' : resource'.labelSets ≠ [] := by
    intro none
    rw [none] at fewer
    exact labelled (List.subset_nil.mp fewer)
  obtain ⟨expiresAt, evaluated⟩ := satisfied labelled'
  rw [evaluator.alone] at evaluated ⊢
  exact ⟨expiresAt, congrArg Except.ok
    (evaluator.antitone _ _ expiresAt fewer (Except.ok.inj evaluated))⟩

/-- The call on the resource without the added labels returns as well. -/
theorem authorize_adds (adds : AddsLabels resource resource')
    (returned : svc.authorize now subject action resource' = .ok decision') :
    ∃ decision, svc.authorize now subject action resource = .ok decision ∧
      (decision'.isAllowed = true → decision.isAllowed = true) := by
  obtain ⟨eval, evaluator⟩ := exists_evaluator judges
  obtain ⟨_, baseline', -⟩ := bind_ok_iff.mp returned
  obtain ⟨sets, baseline⟩ := baseline_of_adds adds baseline'
  refine ⟨_, authorize_passes evaluator baseline, fun allowed => ?_⟩
  obtain ⟨decision, kept, access⟩ := labels_restrict_single judges adds ⟨_, returned, allowed⟩
  rw [authorize_passes evaluator baseline] at kept
  cases kept
  exact access

theorem authorize_adds_all (adds : List.Forall₂ AddsLabels resources resources')
    (each' : List.Forall₂ (fun d r => svc.authorize now subject action r = .ok d) out' resources') :
    ∃ out, List.Forall₂ (fun d r => svc.authorize now subject action r = .ok d) out resources ∧
      List.Forall₂ (fun d' d => d'.isAllowed = true → d.isAllowed = true) out' out := by
  induction adds generalizing out' with
  | nil =>
    cases each'
    exact ⟨[], .nil, .nil⟩
  | cons here _ ih =>
    cases each' with
    | cons returned each' =>
      obtain ⟨decision, kept, access⟩ := authorize_adds judges here returned
      obtain ⟨out, each, accesses⟩ := ih each'
      exact ⟨decision :: out, .cons kept each, .cons access accesses⟩

theorem labels_restrict_many (adds : List.Forall₂ AddsLabels resources resources')
    (allows : AllowsAt (svc.authorizeMany now subject action resources') i) :
    AllowsAt (svc.authorizeMany now subject action resources) i := by
  obtain ⟨eval, evaluator⟩ := exists_evaluator judges
  obtain ⟨out', decision', returned, found, allowed⟩ := allows
  obtain ⟨out, each, accesses⟩ :=
    authorize_adds_all judges adds ((authorizeMany_each evaluator).mp returned)
  obtain ⟨decision, kept, access⟩ := getElem?_of_forall₂ accesses found
  exact ⟨out, decision, (authorizeMany_each evaluator).mpr each, kept, access allowed⟩

/-- Under such an adapter, the list path lets an entry through when it is unlabelled or
its own verdict is satisfied. -/
theorem projectLabelConstraints_at {action : ProjectAction} :
    ∃ passes : ResourceSecurityLabels → Bool, ∀ states : List (Option ResourceSecurityLabels),
      svc.projectLabelConstraints now subject states action =
        states.map fun labels => some (labels.all passes) := by
  have of_labelled (passes : ResourceSecurityLabels → Bool)
      (decides : ∀ states, states.all (·.isNone) = false →
        svc.projectLabelConstraints now subject states action =
          states.map fun labels => some (labels.all passes)) :
      ∃ passes : ResourceSecurityLabels → Bool, ∀ states : List (Option ResourceSecurityLabels),
        svc.projectLabelConstraints now subject states action =
          states.map fun labels => some (labels.all passes) := by
    refine ⟨passes, fun states => ?_⟩
    cases none : states.all (·.isNone) with
    | true =>
      unfold projectLabelConstraints
      rw [if_pos none]
      refine List.map_congr_left fun labels member => ?_
      rw [Option.isNone_iff_eq_none.mp (List.all_eq_true.mp none labels member)]
      rfl
    | false => exact decides states none
  have failing (closed : ∀ states, states.all (·.isNone) = false →
      svc.projectLabelConstraints now subject states action =
        states.map fun labels => some labels.isNone) := by
    refine of_labelled (fun _ => false) fun states labelled => (closed states labelled).trans ?_
    exact List.map_congr_left fun labels _ => by cases labels <;> rfl
  cases wired : svc.security with
  | none => exact failing fun states labelled => by simp [projectLabelConstraints, wired, labelled]
  | some security =>
    cases resolved : svc.resolveSubjectContext now subject with
    | none =>
      exact failing fun states labelled => by
        simp [projectLabelConstraints, resolved, labelled]
    | some context =>
      rcases judges security wired context (.project action) with
        ⟨verdict, _, together⟩ | ⟨_, fails⟩
      · classical
        refine of_labelled (fun labels => (parseConstraintDecision (verdict ⟨some labels⟩)).any
          fun decision => decide (∃ evidence, decision = .satisfied evidence))
          fun states labelled => ?_
        unfold projectLabelConstraints
        simp only [labelled, wired, resolved, together, List.length_map, ne_eq,
          List.zipWith_map_left, List.zipWith_self]
        refine List.map_congr_left fun labels _ => ?_
        cases labels with
        | none => rfl
        | some labels =>
          cases parsed : parseConstraintDecision (verdict ⟨some labels⟩) with
          | none => simp [parsed]
          | some decision => cases decision <;> simp [parsed]
      · refine failing fun states labelled => ?_
        have failed := fails (states.map ConstraintResource.mk)
        cases answer : security.constraints.evaluateMany context (.project action)
            (states.map ConstraintResource.mk) with
        | value v => exact absurd answer (failed v)
        | _ => simp [projectLabelConstraints, wired, resolved, labelled, answer]

theorem labels_restrict_listed {action : ProjectAction} {k : Nat}
    (adds : List.Forall₂ LabelsAdded states states')
    (access : (svc.projectLabelConstraints now subject states' action)[k]? = some (some true)) :
    (svc.projectLabelConstraints now subject states action)[k]? = some (some true) := by
  obtain ⟨passes, decides⟩ := projectLabelConstraints_at judges
  rw [decides, List.getElem?_map] at access ⊢
  obtain ⟨labels', found', passed⟩ := Option.map_eq_some_iff.mp access
  obtain ⟨labels, found, added⟩ := getElem?_of_forall₂ adds.flip found'
  rw [found]
  rcases added with rfl | rfl
  · rfl
  · exact congrArg some passed

theorem labels_only_restrict : LabelsOnlyRestrict svc now subject where
  single _ _ _ := labels_restrict_single judges
  many _ _ _ _ := labels_restrict_many judges
  listed _ _ _ _ := labels_restrict_listed judges

end

end Labels

/-! ## Adding a grant -/

def withGrant (p : AuthenticatedPrincipal) (grant : TokenGrant) : AuthenticatedPrincipal :=
  { p with credential := { p.credential with grant := some grant } }

structure GrantOnlyRestricts (svc : AuthorizationService) (now : Int) (p : AuthenticatedPrincipal)
    (grant : TokenGrant) : Prop where
  single : ∀ action resource,
    Allows (svc.authorize now (.principal (withGrant p grant)) action resource) →
    Allows (svc.authorize now (.principal p) action resource)
  many : ∀ action resources i,
    AllowsAt (svc.authorizeMany now (.principal (withGrant p grant)) action resources) i →
    AllowsAt (svc.authorizeMany now (.principal p) action resources) i
  listed : ∀ action states,
    svc.projectLabelConstraints now (.principal (withGrant p grant)) states action =
      svc.projectLabelConstraints now (.principal p) states action

section Grants

variable {svc : AuthorizationService} {now : Int} {p : AuthenticatedPrincipal} {grant : TokenGrant}

/-- Without a grant a credential that is no service account's permits everything. -/
theorem decideCredential_ungranted (ungranted : p.credential.grant = none)
    (human : p.credential.kind ≠ .serviceAccount) (resource : AuthorizationResource)
    (role : Option Role) :
    decideCredential (.principal p) action resource role = .allowed role none := by
  simp [decideCredential, AuthorizationSubject.isServiceAccount, AuthorizationSubject.grant,
    AuthorizationSubject.credential, human, ungranted]

theorem decideBaseline_grant (human : p.credential.kind ≠ .serviceAccount)
    (resource : AuthorizationResource) :
    svc.decideBaseline (.principal (withGrant p grant)) action resource =
      svc.decideBaseline (.principal p) action resource := by
  simp [decideBaseline, AuthorizationSubject.isServiceAccount, AuthorizationSubject.credential,
    withGrant, human, AuthorizationSubject.identity]

/-- Decisions that differ at most in why they deny. -/
def SameAccess (d' d : AuthorizationDecision) : Prop :=
  d' = d ∨ d'.isAllowed = false ∧ d.isAllowed = false

/-- The correlation does not look at why an entry was denied. -/
theorem correlate_sameAccess
    (alike : List.Forall₂ (fun e' e => SameAccess e'.1 e.1 ∧ e'.2 = e.2) entries' entries)
    (settled : correlate batch entries' cursor = .ok out') :
    ∃ out, correlate batch entries cursor = .ok out ∧ List.Forall₂ SameAccess out' out := by
  induction alike generalizing cursor out' with
  | nil =>
    cases settled
    exact ⟨[], rfl, .nil⟩
  | @cons entry' entry entries' entries here _ ih =>
    obtain ⟨decision', others', settledHere, settledRest, rfl⟩ := correlate_cons_iff.mp settled
    obtain ⟨d', sets'⟩ := entry'
    obtain ⟨d, sets⟩ := entry
    obtain ⟨access, rfl⟩ := here
    have joins : batched (d', sets') = batched (d, sets') := by
      rcases access with rfl | ⟨denied', denied⟩
      · rfl
      · simp [batched, denied', denied]
    have next : advance batch cursor (d', sets') = advance batch cursor (d, sets') := by
      simp [advance, joins]
    rw [next] at settledRest
    obtain ⟨others, correlated, rest⟩ := ih settledRest
    have decided : ∃ decision, settleEntry batch cursor (d, sets') = .ok decision ∧
        SameAccess decision' decision := by
      rcases access with rfl | ⟨denied', denied⟩
      · exact ⟨decision', settledHere, .inl rfl⟩
      · have apart : batched (d, sets') = false := by simp [batched, denied]
        unfold settleEntry at settledHere ⊢
        rw [joins, apart] at settledHere
        rw [apart]
        cases settledHere
        exact ⟨d, rfl, .inr ⟨denied', denied⟩⟩
    obtain ⟨decision, settledEntry, sameAccess⟩ := decided
    exact ⟨decision :: others,
      correlate_cons_iff.mpr ⟨decision, others, settledEntry, correlated, rfl⟩,
      .cons sameAccess rest⟩

theorem sameAccess_denialPrecedence (subject' subject : AuthorizationSubject)
    (resource : AuthorizationResource) (decision : AuthorizationDecision) :
    SameAccess (denialPrecedence subject' action resource decision)
      (denialPrecedence subject action resource decision) := by
  cases decision with
  | allowed role expiresAt => exact .inl rfl
  | denied category role reason =>
    exact .inr ⟨isAllowed_denialPrecedence, isAllowed_denialPrecedence⟩

section

variable (ungranted : p.credential.grant = none) (human : p.credential.kind ≠ .serviceAccount)
  (same : svc.resolveSubjectContext now (.principal (withGrant p grant)) =
    svc.resolveSubjectContext now (.principal p))

include same

theorem constraintBatch_grant (sets : List ResourceSecurityLabels) :
    svc.constraintBatch now (.principal (withGrant p grant)) action sets =
      svc.constraintBatch now (.principal p) action sets := by
  unfold constraintBatch
  rw [same]

include ungranted human

theorem grant_restricts_single
    (allows : Allows (svc.authorize now (.principal (withGrant p grant)) action resource)) :
    Allows (svc.authorize now (.principal p) action resource) := by
  obtain ⟨decision, baseline, allowed, satisfied, _⟩ := authorize_allows_iff.mp allows
  rw [decideBaseline_grant human] at baseline
  refine authorize_allows_iff.mpr ⟨decision, baseline, allowed, fun labelled => ?_, ?_⟩
  · have evaluated := satisfied labelled
    unfold evaluateLabelSets at evaluated ⊢
    rwa [constraintBatch_grant same] at evaluated
  · rw [decideCredential_ungranted ungranted human]
    rfl

theorem grant_restricts_many
    (allows :
      AllowsAt (svc.authorizeMany now (.principal (withGrant p grant)) action resources) i) :
    AllowsAt (svc.authorizeMany now (.principal p) action resources) i := by
  obtain ⟨out', decision', returned, found, allowed⟩ := allows
  obtain ⟨baselines, settled', decided', correlated', rfl⟩ := authorizeMany_ok_iff.mp returned
  simp only [decideBaseline_grant human] at decided'
  have sets : allowedSets svc (.principal (withGrant p grant)) action =
      allowedSets svc (.principal p) action := by
    funext resource
    unfold allowedSets
    rw [decideBaseline_grant human]
  rw [constraintBatch_grant same, sets] at correlated'
  have alike : List.Forall₂ (fun e' e => SameAccess e'.1 e.1 ∧ e'.2 = e.2)
      (List.zipWith (withPrecedence (.principal (withGrant p grant)) action) resources baselines)
      (List.zipWith (withPrecedence (.principal p) action) resources baselines) := by
    clear correlated' found returned
    induction decided' with
    | nil => exact .nil
    | cons _ _ ih => exact .cons ⟨sameAccess_denialPrecedence _ _ _ _, rfl⟩ ih
  obtain ⟨settled, correlated, access⟩ := correlate_sameAccess alike correlated'
  obtain ⟨resource, settledDecision', resourceAt, settledAt, rfl⟩ :=
    List.getElem?_zipWith_eq_some.mp found
  obtain ⟨settledDecision, settledHere, alikeHere⟩ := getElem?_of_forall₂ access settledAt
  refine ⟨_, settleCredential (.principal p) action resource settledDecision,
    authorizeMany_ok_iff.mpr ⟨baselines, settled, decided', correlated, rfl⟩,
    List.getElem?_zipWith_eq_some.mpr ⟨_, _, resourceAt, settledHere, rfl⟩, ?_⟩
  cases settledDecision' with
  | denied category role reason => cases allowed
  | allowed role expiresAt =>
    rcases alikeHere with rfl | ⟨denied', _⟩
    · simp only [settleCredential, decideCredential_ungranted ungranted human]
      rfl
    · cases denied'

theorem grant_only_restricts : GrantOnlyRestricts svc now p grant where
  single _ _ := grant_restricts_single ungranted human same
  many _ _ _ := grant_restricts_many ungranted human same
  listed action states := by
    unfold projectLabelConstraints
    rw [same]

end

end Grants

/-- Access to labelled resources fails closed for every adapter; a label set added to a
request only restricts it if the adapter judges each set by itself, and a grant added
to a credential other than a service account's only restricts it. -/
theorem labelled_access_fails_closed (svc : AuthorizationService) (now : Int) :
    (∀ subject, FailsClosed svc now subject) ∧
    ((∀ security, svc.security = some security → JudgesEachSet security.constraints) →
      ∀ subject, LabelsOnlyRestrict svc now subject) ∧
    ∀ p grant, p.credential.grant = none → p.credential.kind ≠ .serviceAccount →
      svc.resolveSubjectContext now (.principal (withGrant p grant)) =
        svc.resolveSubjectContext now (.principal p) → GrantOnlyRestricts svc now p grant :=
  ⟨fails_closed, fun judges _ => labels_only_restrict judges, fun _ _ => grant_only_restricts⟩

namespace LabelledProject

def engine : Engine := ⟨id, fun _ => some 100, id, fun _ => false⟩

def satisfiedVerdict : Js := .object [("satisfied", .bool true)]

def deniedVerdict : Js :=
  .object [("satisfied", .bool false), ("reason", .string "constraint")]

/-- The provider's context, valid until time 100. -/
def context : Js := .object [("schemaVersion", .number 1), ("classification", .string "secret"),
  ("compartments", .array []), ("policyVersion", .string "v1"), ("expiresAt", .string "soon")]

def service (constraints : ResourceConstraintPolicy) : AuthorizationService :=
  ⟨engine, none, some ⟨constraints, some fun _ => .value context⟩⟩

/-- An adapter that satisfies every batch but denies every single set. -/
def inconsistent : AuthorizationService :=
  service ⟨fun _ _ _ => .value deniedVerdict,
    fun _ _ resources => .value (.array (resources.map fun _ => some satisfiedVerdict))⟩

def permissive : AuthorizationService :=
  service ⟨fun _ _ _ => .value satisfiedVerdict,
    fun _ _ resources => .value (.array (resources.map fun _ => some satisfiedVerdict))⟩

/-- An adapter that answers a batch with zeros. -/
def numeric : AuthorizationService :=
  service ⟨fun _ _ _ => .value deniedVerdict,
    fun _ _ resources => .value (.typedArray (resources.map fun _ => 0))⟩

def labels : ResourceSecurityLabels := ⟨"secret", []⟩

def project : Project :=
  ⟨1, "p", "", "user-1", [], none, .active, 0, [], some labels⟩

def owner : AuthenticatedPrincipal := ⟨⟨"user-1", "user-1@example.com", [], []⟩, ⟨.sso, none⟩⟩

def machine : AuthenticatedPrincipal :=
  ⟨⟨"robot", "robot@example.com", [], []⟩, ⟨.serviceAccount, none⟩⟩

def grant : TokenGrant := ⟨.only [.deployment .orgIntegrationManage, .project .projectRead], .all⟩

def read : AuthorizationAction := .project .projectRead

theorem allows_of_eq (role : Option Role) (expiresAt : Option String)
    (returned : result = .ok (.allowed role expiresAt)) : Allows result :=
  ⟨_, returned, rfl⟩

theorem not_allows_of_eq (category : AuthorizationDenialCategory) (role : Option Role)
    (reason : Option ConstraintDenialReason)
    (returned : result = .ok (.denied category role reason)) : ¬ Allows result := by
  rintro ⟨decision, same, allowed⟩
  rw [returned] at same
  cases same
  cases allowed

theorem judges : ∀ security, permissive.security = some security →
    JudgesEachSet security.constraints := by
  rintro security wired context action
  cases wired
  exact .inl ⟨fun _ => satisfiedVerdict, fun _ => rfl, fun _ => rfl⟩

end LabelledProject

open LabelledProject in
/-- With an adapter that answers single and batched evaluations differently, notebook
labels open a project whose own labels deny; and a grant is all the authority a
service account has. -/
theorem label_set_and_grant_open_access :
    (AddsLabels (.project project none) (.project project (some labels)) ∧
      ¬ Allows (inconsistent.authorize 0 (.principal owner) read (.project project none)) ∧
      Allows (inconsistent.authorize 0 (.principal owner) read (.project project (some labels)))) ∧
    ¬ Allows (permissive.authorize 0 (.principal machine) (.deployment .orgIntegrationManage)
      (.deployment none)) ∧ Allows (permissive.authorize 0 (.principal (withGrant machine grant))
      (.deployment .orgIntegrationManage) (.deployment none)) := by
  refine ⟨⟨.project project _ none _ (.inr rfl) (.inl rfl), ?_, ?_⟩, ?_, ?_⟩
  · exact not_allows_of_eq .constraint (some .admin) (some .constraint) (by decide)
  · exact allows_of_eq (some .admin) (some "soon") (by decide)
  · exact not_allows_of_eq .credentialAction none none (by decide)
  · exact allows_of_eq none none (by decide)

open LabelledProject in
/-- The condition on batch answers is needed: zeros let the labelled project through. -/
example : numeric.authorizeMany 0 (.principal owner) read [.project project (some labels)] =
    .ok [.allowed (some .admin) (some "soon")] := by decide

open LabelledProject in
theorem labelled_access_fails_closed_permissive :
    NoNumberArray permissive 0 (.principal owner) read [labels, labels] ∧
    Allows (permissive.authorize 0 (.principal owner) read (.project project (some labels))) ∧
    FailsClosed permissive 0 (.principal owner) ∧
    LabelsOnlyRestrict permissive 0 (.principal owner) ∧
    GrantOnlyRestricts permissive 0 owner grant := by
  have facts := labelled_access_fails_closed permissive 0
  refine ⟨?_, ?_, facts.1 _, facts.2.1 judges _, facts.2.2 owner grant rfl (by decide) rfl⟩
  · intro security context items resolved answer
    cases resolved.wired
    cases answer
  · exact allows_of_eq (some .admin) (some "soon") (by decide)

end MarimoHub.Guarantees
