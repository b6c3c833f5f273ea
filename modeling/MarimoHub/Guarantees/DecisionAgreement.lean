import MarimoHub.Guarantees.AccessFailsClosed

/-!
# One decision, three pipelines

`authorize`, `authorizeMany` and `analyze` each order the lifecycle, role, credential and
label denials by themselves. An analysis decides as the single call does under every
adapter, and a batch under an adapter that judges each label set by itself.
-/

namespace MarimoHub.Guarantees

open Source AuthorizationService

/-- An analysis goes through the same passes in another order. -/
theorem analyze_decides {svc : AuthorizationService} (resource : AuthorizationResource) :
    (svc.analyze now subject action resource).map (·.decision) =
      svc.authorize now subject action resource := by
  unfold analyze
  cases baseline : svc.decideBaseline subject action resource with
  | error fault => exact (authorize_of_fault baseline).symm
  | ok found =>
    obtain ⟨decision, sets⟩ := found
    rw [authorize_of_baseline baseline]
    simp only [bind, Except.bind, analyzeConstraints]
    cases allowed : decision.isAllowed with
    | false =>
      exact congrArg Except.ok (settleCredential_denied (isAllowed_denialPrecedence.trans allowed))
    | true =>
      obtain ⟨shape, _⟩ := decideBaseline_allowed baseline allowed
      rw [shape]
      cases sets with
      | nil => exact congrArg Except.ok withExpiry_decideCredential
      | cons labels rest =>
        unfold afterBaseline
        cases svc.evaluateLabelSets now subject action (labels :: rest) with
        | error fault => rfl
        | ok verdict => cases verdict <;> rfl

/-- The three pipelines decide alike: a batch returns when every single call does, and then
each position holds the decision of the single call. -/
theorem decisions_agree (svc : AuthorizationService) (now : Int) (subject : AuthorizationSubject)
    (action : AuthorizationAction)
    (judges : ∀ security, svc.security = some security → JudgesEachSet security.constraints) :
    (∀ resources decisions, svc.authorizeMany now subject action resources = .ok decisions ↔
      List.Forall₂ (fun d r => svc.authorize now subject action r = .ok d) decisions resources) ∧
    ∀ resource, (svc.analyze now subject action resource).map (·.decision) =
      svc.authorize now subject action resource := by
  obtain ⟨_, evaluator⟩ := exists_evaluator judges
  exact ⟨fun _ _ => authorizeMany_each evaluator, analyze_decides⟩

open LabelledProject in
theorem decisions_agree_permissive : permissive.authorizeMany 0 (.principal owner) read
        [.project project (some labels), .project { project with securityLabels := none } none] =
      .ok [.allowed (some .admin) (some "soon"), .allowed (some .admin) none] ∧
    (permissive.analyze 0 (.principal owner) read (.project project none)).map (·.decision) =
      .ok (.allowed (some .admin) (some "soon")) := by
  have alike := decisions_agree permissive 0 (.principal owner) read judges
  refine ⟨(alike.1 _ _).mpr (.cons (by decide) (.cons (by decide) .nil)), ?_⟩
  decide

end MarimoHub.Guarantees
