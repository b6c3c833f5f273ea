import MarimoHub.Source.AuthorizationService

/-!
# What a decision rests on

The facts behind one decision: the resolved subject context, the adapter's answer to
a batch of label sets and the verdict at each position of it. The batch of
`authorizeMany` is described by the resources it stands for, so that each verdict
is attributed to a position and not to a resource's own cursor arithmetic.
-/

namespace MarimoHub.Guarantees

open Source

/-- The bounds a context is validated against. -/
structure ValidContext (engine : Engine) (now : Int) (context : SubjectSecurityContext) : Prop where
  classification : isLabelToken context.classification = true
  compartments : ∀ token ∈ context.compartments, isLabelToken token = true
  policyVersion : isLabelToken context.policyVersion = true
  unexpired : ∃ expiry, engine.parseIsoTimestamp context.expiresAt = some expiry ∧ now < expiry

/-- The provider returned a value that validates as `context`. -/
structure ContextResolved (svc : AuthorizationService) (now : Int) (subject : AuthorizationSubject)
    (security : ResourceSecurityPolicy) (context : SubjectSecurityContext) : Prop where
  wired : svc.security = some security
  provided : ∃ resolve p raw, security.subjectContext = some resolve ∧ subject = .principal p ∧
    resolve p = .value raw ∧ validateSubjectSecurityContext svc.engine now raw = some context
  valid : ValidContext svc.engine now context

/-- The answer holds an explicit satisfied verdict at position `k`, and one slot for
each of `count` label sets. -/
def SatisfiedAt (answer : Outcome) (count k : Nat) : Prop :=
  ∃ slots v, answer = .value (.array slots) ∧ slots.length = count ∧ slots[k]? = some (some v) ∧
    v.SaysSatisfied

/-! ## Parsing -/

theorem token_of_parseToken (parsed : parseToken value = some token) :
    isLabelToken token = true := by
  unfold parseToken at parsed
  split at parsed
  · split at parsed
    · cases parsed
      assumption
    · cases parsed
  · cases parsed

theorem tokens_of_mapM {slots : List (Option Js)}
    (parsed : slots.mapM (fun slot => parseToken (slot.getD .undefined)) = some tokens) :
    ∀ token ∈ tokens, isLabelToken token = true := by
  induction slots generalizing tokens with
  | nil =>
    cases parsed
    simp
  | cons slot rest ih =>
    rw [List.mapM_cons] at parsed
    obtain ⟨head, headParsed, parsed⟩ := Option.bind_eq_some_iff.mp parsed
    obtain ⟨tail, tailParsed, parsed⟩ := Option.bind_eq_some_iff.mp parsed
    cases parsed
    intro token member
    rcases List.mem_cons.mp member with rfl | inTail
    · exact token_of_parseToken headParsed
    · exact ih tailParsed token inTail

theorem tokens_of_parseCompartments (parsed : parseCompartments value = some tokens) :
    ∀ token ∈ tokens, isLabelToken token = true := by
  unfold parseCompartments at parsed
  split at parsed
  · split at parsed
    · exact tokens_of_mapM parsed
    · cases parsed
  · cases parsed

theorem validContext_of_validate
    (validated : validateSubjectSecurityContext engine now value = some context) :
    ValidContext engine now context := by
  unfold validateSubjectSecurityContext at validated
  split at validated
  · cases validated
  · next parsedContext expiry parsed =>
    split at validated
    · cases validated
    · next unexpired =>
      cases validated
      unfold parseSubjectSecurityContext at parsed
      split at parsed
      · split at parsed
        · cases parsed
        · split at parsed
          · next classification compartments policyVersion expiresAt _ token tokens version _ =>
            obtain ⟨_, parsedAt, same⟩ := Option.map_eq_some_iff.mp parsed
            cases same
            refine ⟨token_of_parseToken token, ?_, token_of_parseToken version, expiry, parsedAt,
              Int.not_le.mp unexpired⟩
            intro item member
            have listed := (List.mem_insertionSort _).mp member
            exact tokens_of_parseCompartments tokens item (List.mem_eraseDups.mp listed)
          · cases parsed
      · cases parsed

theorem saysSatisfied_of_parse (parsed : parseConstraintDecision value = some (.satisfied
      evidence)) : value.SaysSatisfied := by
  unfold parseConstraintDecision at parsed
  split at parsed
  · assumption
  · split at parsed <;> cases parsed
  · cases parsed

theorem saysSatisfied_of_parseVerdict
    (parsed : AuthorizationService.parseVerdict value = .satisfied evidence) :
    value.SaysSatisfied := by
  unfold AuthorizationService.parseVerdict at parsed
  cases outcome : parseConstraintDecision value with
  | none =>
    rw [outcome] at parsed
    cases parsed
  | some decision =>
    rw [outcome] at parsed
    cases parsed
    exact saysSatisfied_of_parse outcome

/-! ## One batch -/

section Batch

open AuthorizationService

theorem findDenied_none_iff :
    findDenied slots = .ok none ↔
      ∀ slot ∈ slots, ∃ evidence, slot = some (.satisfied evidence) := by
  induction slots with
  | nil => simp [findDenied]
  | cons slot rest ih =>
    match slot with
    | none => simp [findDenied]
    | some (.unsatisfied reason evidence) => simp [findDenied]
    | some (.satisfied evidence) => simp [findDenied, ih]

section

variable (read : readVerdicts count answer = some (.array decisions))
include read

theorem readVerdicts_array :
    ∃ slots, answer = .value (.array slots) ∧ slots.length = count ∧
      decisions = slots.map (·.map parseVerdict) := by
  unfold readVerdicts at read
  split at read
  · next slots =>
    split at read
    · next exact_count =>
      cases read
      exact ⟨slots, rfl, exact_count, rfl⟩
    · cases read
  · split at read <;> cases read
  · cases read

theorem satisfiedAt_of_slot
    (slot : decisions[k]? = some (some (.satisfied evidence))) : SatisfiedAt answer count k := by
  obtain ⟨slots, same, length, rfl⟩ := readVerdicts_array read
  rw [List.getElem?_map] at slot
  obtain ⟨raw, atK, parsed⟩ := Option.map_eq_some_iff.mp slot
  obtain ⟨v, rfl, verdict⟩ := Option.map_eq_some_iff.mp parsed
  exact ⟨slots, v, same, length, atK, saysSatisfied_of_parseVerdict verdict⟩

end

theorem contextResolved_of_resolve (resolved : svc.resolveSubjectContext now subject = some
      context) : ∃ security, ContextResolved svc now subject security context := by
  unfold resolveSubjectContext at resolved
  split at resolved
  · next constraints resolve p wired =>
    split at resolved
    · cases resolved
    · next raw _ provided =>
      exact ⟨_, wired, ⟨resolve, p, raw, rfl, rfl, provided, resolved⟩,
        validContext_of_validate resolved⟩
    · cases resolved
    · cases resolved
  · cases resolved

/-- A batch that came back rests on a resolved context and an answer of the adapter. -/
theorem constraintBatch_ok {decisions : BatchDecisions}
    (batch : svc.constraintBatch now subject action sets = .ok decisions expiresAt) :
    ∃ security context, ContextResolved svc now subject security context ∧
      readVerdicts sets.length (evaluateSets security.constraints context action sets) =
        some decisions ∧ expiresAt = context.expiresAt := by
  unfold constraintBatch at batch
  split at batch
  · cases batch
  · next security wired =>
    split at batch
    · cases batch
    · next context resolved =>
      split at batch
      · next decisions' read =>
        cases batch
        obtain ⟨security', facts⟩ := contextResolved_of_resolve resolved
        have same : security' = security := Option.some.inj (facts.wired.symm.trans wired)
        exact ⟨security, context, same ▸ facts, read, rfl⟩
      · cases batch

theorem satisfiedAt_of_slice
    (batch : svc.constraintBatch now subject action sets = .ok (.array slots) expiresAt)
    (inside : cursor + count ≤ sets.length)
    (clear : findDenied ((slots.drop cursor).take count) = .ok none) :
    ∃ security context, ContextResolved svc now subject security context ∧ ∀ k < count,
      SatisfiedAt (evaluateSets security.constraints context action sets) sets.length
        (cursor + k) := by
  obtain ⟨security, context, resolved, read, _⟩ := constraintBatch_ok batch
  refine ⟨security, context, resolved, fun k below => ?_⟩
  have length : slots.length = sets.length := by
    obtain ⟨raw, _, rawLength, rfl⟩ := readVerdicts_array read
    rw [List.length_map, rawLength]
  have bound : cursor + k < slots.length := by omega
  have atK : ((slots.drop cursor).take count)[k]? = some slots[cursor + k] := by
    rw [List.getElem?_take, if_pos below, List.getElem?_drop, List.getElem?_eq_getElem bound]
  obtain ⟨evidence, satisfied⟩ := findDenied_none_iff.mp clear _ (List.mem_of_getElem? atK)
  have slot : slots[cursor + k]? = some (some (.satisfied evidence)) := by
    rw [List.getElem?_eq_getElem bound, satisfied]
  exact satisfiedAt_of_slot read slot

end Batch

end MarimoHub.Guarantees
