import Mathlib.Data.List.Sort
import MarimoHub.Source.Actions

/-!
# The resource security ports

`ports/subjectContext.ts`, `ports/resourceConstraints.ts` and the parsing of an
adapter's verdicts (`parseConstraintDecision`).

Adapters are outside the program: what they return is any JavaScript value. `Js` has
the values that are data: primitives, arrays, which may have holes, arrays of
numbers of a fixed element type, and plain objects. Values with behaviour of their
own (accessors, proxies, objects with an own `map`) are left out.
-/

namespace MarimoHub.Source

/-- Data an adapter may return. A `none` slot of an array is a hole. Of numbers only
equality with one is ever asked. -/
inductive Js where
  | undefined
  | null
  | bool (b : Bool)
  | number (n : Int)
  | string (s : String)
  | array (slots : List (Option Js))
  | typedArray (items : List Int)
  | object (fields : List (String × Js))

namespace Js

/-- `value.name`, for a name that is not a built-in property. -/
def get (name : String) : Js → Js
  | .object fields => (fields.lookup name).getD .undefined
  | _ => .undefined

end Js

/-! ## Security label tokens -/

def tokenStart (c : Char) : Bool := c.isAlphanum

def tokenRest (c : Char) : Bool := c.isAlphanum || ['.', '_', ':', '/', '-'].contains c

/-- `SECURITY_LABEL_TOKEN.test(value)`. -/
def isLabelToken (value : String) : Bool :=
  match value.toList with
  | [] => false
  | c :: rest => tokenStart c && rest.all tokenRest && decide (rest.length ≤ 63)

def maxSecurityCompartments : Nat := 64

/-! ## Subject context -/

/-- `SubjectSecurityContextSchema`; the schema version is always one. -/
structure SubjectSecurityContext where
  classification : String
  compartments : List String
  policyVersion : String
  expiresAt : String
deriving DecidableEq

/-- A label token string. -/
def parseToken : Js → Option String
  | .string s => if isLabelToken s then some s else none
  | _ => none

/-- `z.array(token).max(64)`; a hole reads as `undefined` and is rejected. -/
def parseCompartments : Js → Option (List String)
  | .array slots =>
    if slots.length ≤ maxSecurityCompartments then
      slots.mapM fun slot => parseToken (slot.getD .undefined)
    else none
  | _ => none

def contextFields : List String :=
  ["schemaVersion", "classification", "compartments", "policyVersion", "expiresAt"]

/-- `SubjectSecurityContextSchema.safeParse`, with the parsed expiry. -/
def parseSubjectSecurityContext (engine : Engine) (value : Js) :
    Option (SubjectSecurityContext × Int) :=
  match value with
  | .object fields =>
    if fields.any (fun field => !contextFields.contains field.1) then none
    else
      match value.get "schemaVersion", parseToken (value.get "classification"),
        parseCompartments (value.get "compartments"), parseToken (value.get "policyVersion"),
        value.get "expiresAt" with
      | .number 1, some classification, some compartments, some policyVersion, .string expiresAt =>
        (engine.parseIsoTimestamp expiresAt).map fun expiry =>
          (⟨classification, compartments, policyVersion, expiresAt⟩, expiry)
      | _, _, _, _, _ => none
  | _ => none

/-- `[...new Set(compartments)].sort()`. -/
def normalizeCompartments (compartments : List String) : List String :=
  compartments.eraseDups.insertionSort (· ≤ ·)

/-- Validation of an adapter-supplied context at the time `now`. -/
def validateSubjectSecurityContext (engine : Engine) (now : Int) (value : Js) :
    Option SubjectSecurityContext :=
  match parseSubjectSecurityContext engine value with
  | none => none
  | some (context, expiry) =>
    if expiry ≤ now then none
    else some { context with compartments := normalizeCompartments context.compartments }

/-! ## Constraint verdicts -/

inductive ConstraintDenialReason where
  | missingContext
  | constraint
  | unavailable
deriving DecidableEq

/-- `CONSTRAINT_DENIAL_REASONS`. -/
def parseReason : Js → Option ConstraintDenialReason
  | .string "missing-context" => some .missingContext
  | .string "constraint" => some .constraint
  | .string "unavailable" => some .unavailable
  | _ => none

/-- Diagnostic evidence. The scan over the missing compartments skips holes. -/
structure ConstraintEvidence where
  heldClassification : Option String
  requiredClassification : String
  classificationSatisfied : Bool
  missingCompartments : List (Option String)
deriving DecidableEq

inductive ConstraintDecision where
  | satisfied (evidence : Option ConstraintEvidence)
  | unsatisfied (reason : ConstraintDenialReason) (evidence : Option ConstraintEvidence)
deriving DecidableEq

def evidenceFields : List String :=
  ["heldClassification", "requiredClassification", "classificationSatisfied", "missingCompartments"]

/-- `null`, or a token. -/
def parseHeldClassification : Js → Option (Option String)
  | .null => some none
  | value => (parseToken value).map some

def parseMissingCompartments : Js → Option (List (Option String))
  | .array slots =>
    if slots.length ≤ maxSecurityCompartments then
      slots.mapM fun
        | none => some none
        | some item => (parseToken item).map some
    else none
  | _ => none

def parseConstraintEvidence (value : Js) : Option ConstraintEvidence :=
  match value with
  | .object fields =>
    if fields.any (fun field => !evidenceFields.contains field.1) then none
    else
      match parseHeldClassification (value.get "heldClassification"),
        parseToken (value.get "requiredClassification"), value.get "classificationSatisfied",
        parseMissingCompartments (value.get "missingCompartments") with
      | some held, some required, .bool satisfied, some missing =>
        some ⟨held, required, satisfied, missing⟩
      | _, _, _, _ => none
  | _ => none

/-- A malformed verdict is `none`; malformed or contradicting evidence is dropped. -/
def parseConstraintDecision (value : Js) : Option ConstraintDecision :=
  let evidence := parseConstraintEvidence (value.get "evidence")
  match value.get "satisfied" with
  | .bool true => some <| .satisfied <| evidence.filter fun e =>
      e.classificationSatisfied && e.missingCompartments.isEmpty
  | .bool false =>
    match parseReason (value.get "reason") with
    | none => none
    | some .constraint => some <| .unsatisfied .constraint <| evidence.filter fun e =>
        !e.classificationSatisfied || !e.missingCompartments.isEmpty
    | some reason => some (.unsatisfied reason none)
  | _ => none

/-- The value is an explicit satisfied verdict. -/
def Js.SaysSatisfied (value : Js) : Prop := value.get "satisfied" = .bool true

/-! ## The ports -/

/-- What an awaited adapter call under the deadline comes to. -/
inductive Outcome where
  | value (v : Js)
  | thrown
  | timedOut

inductive CredentialKind where
  | sso
  | personalAccessToken
  | externalAccessToken
  | serviceAccount
  | development
deriving DecidableEq

structure AuthCredential where
  kind : CredentialKind
  grant : Option TokenGrant
deriving DecidableEq

/-- `AuthenticatedPrincipal`. -/
structure AuthenticatedPrincipal extends IdentitySubject where
  credential : AuthCredential
deriving DecidableEq

/-- The bounded resource slice a constraint decision reads. -/
structure ConstraintResource where
  labels : Option ResourceSecurityLabels
deriving DecidableEq

structure ResourceConstraintPolicy where
  evaluate : SubjectSecurityContext → AuthorizationAction → ConstraintResource → Outcome
  evaluateMany : SubjectSecurityContext → AuthorizationAction → List ConstraintResource → Outcome

structure ResourceSecurityPolicy where
  constraints : ResourceConstraintPolicy
  /-- `subjectContext.resolve`, when a provider is wired. -/
  subjectContext : Option (AuthenticatedPrincipal → Outcome)

end MarimoHub.Source
