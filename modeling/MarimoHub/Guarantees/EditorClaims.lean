import MarimoHub.Guarantees.DrainLease

/-!
# Ownership of the editor claim

Any number of the calls that write one notebook's editor claim. Each of them replaces the
claim it read, so what a call does to the recorded holder is decided by the claim stored
right before (`ClaimChange`). Liveness is looked up in other objects in between; only a
claimant relies on it, and `ObservedNotLive` says what it saw.
-/

namespace MarimoHub.Guarantees

open ObjectStore Source Prog

/-! ## Calls -/

inductive EditorCall where
  | claimEditor (project : ProjectId) (notebook : NotebookId) (input : ClaimEditorInput)
  | releaseEditorFor (session : Session)
  | reserveTakeover (project : ProjectId) (notebook : NotebookId) (input : ReserveTakeoverInput)
  | setTakeoverPhase (project : ProjectId) (notebook : NotebookId) (takeoverId : String)
      (phase : TakeoverPhase) (replacement : Option SessionId)
  | completeTakeover (project : ProjectId) (notebook : NotebookId) (takeoverId : String)
      (replacement : SessionId)
  | cancelRequestedTakeover (project : ProjectId) (notebook : NotebookId) (takeoverId : String)
  | getEditorClaim (project : ProjectId) (notebook : NotebookId)
  | drain (project : ProjectId) (notebook : NotebookId) (takeoverId leaseId : String)
      (step : DrainStep)

/-- The caller's use of the result is not modelled. -/
def dropResult {α : Type} (p : Hub Runtime α) : Hub Runtime Unit := do
  let _ ← p
  pure ()

def EditorCall.run : EditorCall → Hub Runtime Unit
  | .claimEditor project notebook input => dropResult (Source.claimEditor project notebook input)
  | .releaseEditorFor session => Source.releaseEditorFor session
  | .reserveTakeover project notebook input =>
    dropResult (reserveTakeoverWithOutcome project notebook input)
  | .setTakeoverPhase project notebook takeoverId phase replacement =>
    dropResult (Source.setTakeoverPhase project notebook takeoverId phase replacement)
  | .completeTakeover project notebook takeoverId replacement =>
    dropResult (Source.completeTakeover project notebook takeoverId replacement)
  | .cancelRequestedTakeover project notebook takeoverId =>
    Source.cancelRequestedTakeover project notebook takeoverId
  | .getEditorClaim project notebook => dropResult (Source.getEditorClaim project notebook)
  | .drain project notebook takeoverId leaseId step =>
    dropResult (step.run project notebook takeoverId leaseId)

/-! ## What one call may do -/

section

variable (project : ProjectId) (notebook : NotebookId)

/-- The claimant read the claim and then found its holder neither live nor retiring. -/
def ObservedNotLive (holder : SessionId) (claim : EditorClaim) (es : Log Runtime) : Prop :=
  ∃ tag asked rest, es = asked ++ rest ∧
    ⟨.get (.editorClaim project notebook), .found (.editorClaim claim) tag⟩ ∈ rest ∧
    Runs (getLiveEditorHolder project notebook (some holder)) asked (.ret none)

/-- What a call makes of the claim it read. -/
inductive ClaimChange (es : Log Runtime) : EditorCall → EditorClaim → EditorClaim → Prop where
  | replaced (input : ClaimEditorInput) (claim next : EditorClaim) : claim.transfer = none →
      (∀ holder, claim.sessionId = some holder → ObservedNotLive project notebook holder claim es) →
      ClaimChange es (.claimEditor project notebook input) claim next
  | released (session : Session) (claim next : EditorClaim) :
      claim.sessionId = some session.sessionId → claim.transfer = none →
      ClaimChange es (.releaseEditorFor session) claim next
  | completed (replacement : SessionId) (claim next : EditorClaim) (transfer : Transfer) :
      claim.transfer = some transfer → transfer.phase = .ready →
      transfer.replacementSessionId = some replacement → next.sessionId = some replacement →
      ClaimChange es (.completeTakeover project notebook transfer.takeoverId replacement) claim next
  | kept (call : EditorCall) (claim next : EditorClaim) : next.sessionId = claim.sessionId →
      (∀ session, call = .releaseEditorFor session → claim.sessionId = some session.sessionId) →
      ClaimChange es call claim next

def claimWriter (call : EditorCall) : Writer Runtime where
  creates _ v c := c = .ifAbsent ∧ ∃ claim, v = .editorClaim claim ∧ ∃ input,
    call = .claimEditor project notebook input
  changes es old v := ∃ claim next, old = .editorClaim claim ∧ v = .editorClaim next ∧
    ClaimChange project notebook es call claim next
  removes _ := False

def EditorRule (call : EditorCall) (es : Log Runtime) (o : Op Runtime) : Prop :=
  (claimWriter project notebook call).Allows (.editorClaim project notebook) es o

end

variable {p : ProjectId} {n : NotebookId} {claim : EditorClaim} {tag : Etag Runtime}
  {past : Log Runtime} {input : ClaimEditorInput}

section Alone

variable {project : ProjectId} {notebook : NotebookId} {call : EditorCall} {takeoverId : String}
  {now : Nat}

theorem editorRule_change (read : ⟨.get (.editorClaim p n), .found (.editorClaim claim) tag⟩ ∈ es)
    (change : p = project → n = notebook → ClaimChange project notebook es call claim next) :
    EditorRule project notebook call es (.put (.editorClaim p n) (.editorClaim next)
      (.ifMatch tag)) := by
  intro same
  cases same
  exact ⟨.editorClaim claim, .inl read, claim, next, rfl, rfl, change rfl rfl⟩

theorem keeps_clock : Keeps (EditorRule project notebook call) dateNow := fun _ =>
  ⟨trivial, fun _ => trivial⟩

theorem keeps_mutateClaim (decides : ClaimDecides (fun _ _ => step) apply)
    (fine : ∀ es claim next, step claim next → p = project → n = notebook → ClaimChange project
      notebook es call claim next) :
    Keeps (EditorRule project notebook call) (mutateClaim p n apply) := by
  refine keeps_of_emits fun past => emits_mutateRecord (R := fun _ => step)
    parseEditorClaim_only (fun _ => trivial) ?_ (fun claim _ _ => decides claim _) ?_
  · rintro es _ rfl
    trivial
  · intro es tag claim next read stepped
    exact editorRule_change read (fine es claim next stepped)

/-- Callbacks that leave the recorded holder alone. -/
def SameHolder (claim next : EditorClaim) : Prop := next.sessionId = claim.sessionId

theorem decides_reserveOver {input : ReserveTakeoverInput} :
    Emits (fun _ o => o = .now) (fun out _ => ∀ next, out = .ok (some next) →
      SameHolder claim next) (reserveOver input claim) before := by
  rw [reserveOver]
  split
  · rintro _ ⟨⟩
  · refine ⟨rfl, fun now => ?_⟩
    rintro _ ⟨⟩
    rfl

theorem decides_reserve {input : ReserveTakeoverInput} :
    ClaimDecides (fun _ _ => SameHolder) (applyReserve input) := by
  intro claim before
  rw [applyReserve]
  split
  · exact decides_reserveOver
  · split
    · split
      · rintro _ ⟨⟩
      · rintro _ ⟨⟩
    · refine emits_dateNow_then rfl fun now => ?_
      split
      · exact decides_reserveOver
      · rintro _ ⟨⟩

theorem decides_phase :
    ClaimDecides (fun _ _ => SameHolder) (applyPhase takeoverId phase replacement) := by
  intro claim before
  rw [applyPhase]
  split
  · rintro _ ⟨⟩
  · rintro _ ⟨⟩
    rfl

theorem decides_cancel : ClaimDecides (fun _ _ => SameHolder) (applyCancel takeoverId) := by
  intro claim before
  rw [applyCancel]
  split
  · rintro _ ⟨⟩
    rfl
  · rintro _ ⟨⟩

/-- A completion hands the claim to the replacement that its own ready transfer names. -/
def Completes (takeoverId : String) (replacement : SessionId) (claim next : EditorClaim) : Prop :=
  ∃ transfer, claim.transfer = some transfer ∧ transfer.takeoverId = takeoverId ∧
    transfer.phase = .ready ∧ transfer.replacementSessionId = some replacement ∧
    next.sessionId = some replacement

theorem decides_complete : ClaimDecides (fun _ _ => Completes takeoverId replacement)
      (applyComplete takeoverId replacement) := by
  intro claim before
  rw [applyComplete]
  split
  · rintro _ ⟨⟩
  · next transfer found =>
    split
    · rintro _ ⟨⟩
    · next ready =>
      simp only [not_or, Decidable.not_not] at ready
      refine ⟨rfl, fun now => ?_⟩
      rintro _ ⟨⟩
      obtain ⟨stored, named⟩ := Option.filter_eq_some_iff.mp found
      exact ⟨transfer, stored, by simpa using named, ready.1, ready.2, rfl⟩

theorem keeps_getLiveEditorHolder :
    Keeps (EditorRule project notebook call) (getLiveEditorHolder p n holder) := by
  cases holder with
  | none => exact keeps_ret
  | some id =>
    refine Keeps.tryCatch (Keeps.bind ?_ fun session => ?_) fun _ => .ite keeps_ret keeps_raise
    · refine (keeps_bucketGet fun _ => trivial).bind fun found => ?_
      cases found with
      | none => exact keeps_raise
      | some object =>
        obtain ⟨v, tag⟩ := object
        cases v <;> first | exact keeps_ret | exact keeps_raise
    · refine .ite keeps_ret (keeps_clock.bind fun _ => .ite keeps_ret ?_)
      exact keeps_clock.map

section

variable (read : ⟨.get (.editorClaim p n), .found (.editorClaim claim) tag⟩ ∈ past)
include read

/-- A claimant replaces a holder it observed, or only names the replacement of a ready
takeover. -/
theorem emits_replaceClaim
    (observed : claim.transfer = none → ∀ holder, claim.sessionId = some holder → ObservedNotLive p
      n holder claim past) : Emits (EditorRule project notebook (.claimEditor p n input))
      (fun _ _ => True) (replaceClaim p n input now claim tag) past := by
  rw [replaceClaim, emits_bind, emits_casPut]
  refine ⟨editorRule_change read ?_, fun _ => trivial, trivial, trivial⟩
  rintro rfl rfl
  cases transfer : claim.transfer with
  | some current => exact .kept _ _ _ rfl (by rintro _ ⟨⟩)
  | none => exact .replaced input claim _ transfer (observed transfer)

theorem emits_claimOver :
    Emits (EditorRule project notebook (.claimEditor p n input))
      (fun _ _ => True) (claimOver p n input now claim tag) past := by
  rw [claimOver]
  split
  · trivial
  · split
    · trivial
    · next holder named =>
      split
      · trivial
      · rw [emits_bind]
        refine (keeps_getLiveEditorHolder past).traced.mono ?_
        rintro out es ⟨_, asked, rfl, runs⟩
        cases out with
        | error err => trivial
        | ok live =>
          cases live with
          | some session => trivial
          | none =>
            refine emits_replaceClaim (List.mem_append_right asked read) ?_
            intro free id stored
            have same : holder = some id := by
              rw [editorClaimHolder, free] at named
              exact (Except.ok.inj named).symm.trans stored
            subst same
            exact ⟨tag, asked, past, rfl, read, runs⟩

end

theorem keeps_claimEditor :
    Keeps (EditorRule project notebook (.claimEditor p n input)) (claimEditor p n input) := by
  refine keeps_withCasRetry fun past => ?_
  rw [claimAttempt, emits_bind, emits_bucketGet]
  refine ⟨trivial, ?_, ?_, trivial⟩
  · intro v tag
    refine emits_dateNow_then trivial fun now => ?_
    cases v with
    | editorClaim claim => exact emits_claimOver (.tail _ (.head _))
    | _ => trivial
  · rw [andThen_ok]
    refine emits_dateNow_then trivial fun now => ?_
    rw [emits_bind, emits_casPut]
    refine ⟨?_, fun _ => trivial, trivial, trivial⟩
    intro same
    cases same
    exact ⟨rfl, _, rfl, input, rfl⟩

theorem keeps_releaseEditorFor :
    Keeps (EditorRule project notebook (.releaseEditorFor session)) (releaseEditorFor session) := by
  intro past
  rw [releaseEditorFor]
  split
  · trivial
  · rw [ignoringErrors, emits_tryCatch, emits_bind, emits_bucketGet]
    refine ⟨trivial, ?_, trivial, trivial⟩
    intro v tag
    rw [andThen_ok]
    cases v with
    | editorClaim claim =>
      show Emits _ _ (if _ then _ else _) _
      split
      · trivial
      · next mine =>
        simp only [not_or, Decidable.not_not, Bool.not_eq_true, Option.isSome_eq_false_iff,
          Option.isNone_iff_eq_none] at mine
        refine emits_dateNow_then trivial fun now => ?_
        rw [emits_bind, emits_bucketPut]
        refine ⟨editorRule_change (.tail _ (.head _)) ?_, fun _ => trivial, trivial, trivial⟩
        rintro rfl rfl
        exact .released session claim _ mine.1 mine.2
    | _ => trivial

/-- Calls that are one swap by a callback that leaves the holder alone. -/
theorem keeps_sameHolder (decides : ClaimDecides (fun _ _ => SameHolder) apply)
    (other : ∀ session, call ≠ .releaseEditorFor session) :
    Keeps (EditorRule project notebook call) (mutateClaim p n apply) :=
  keeps_mutateClaim decides fun _ claim next same _ _ =>
    .kept call claim next same fun session is => absurd is (other session)

theorem keeps_cancelRequestedTakeover (other : ∀ session, call ≠ .releaseEditorFor session) :
    Keeps (EditorRule project notebook call) (cancelRequestedTakeover p n takeoverId) :=
  keeps_ignoringErrors ((keeps_sameHolder decides_cancel other).map)

theorem keeps_readEditorClaim : Keeps (EditorRule project notebook call) (readEditorClaim p n) := by
  intro past
  rw [readEditorClaim, emits_bind, emits_bucketGet]
  refine ⟨trivial, ?_, trivial, trivial⟩
  intro v tag
  cases v <;> trivial

theorem keeps_getEditorClaim (other : ∀ session, call ≠ .releaseEditorFor session) :
    Keeps (EditorRule project notebook call) (getEditorClaim p n) := by
  refine keeps_readEditorClaim.bind fun found => ?_
  cases found with
  | none => exact keeps_ret
  | some claim =>
    dsimp only
    split
    · exact keeps_ret
    · refine keeps_clock.bind fun _ => .ite ?_ keeps_ret
      exact (keeps_cancelRequestedTakeover other).bind fun _ => keeps_readEditorClaim

theorem keeps_drain {step : DrainStep} (other : ∀ session, call ≠ .releaseEditorFor session) :
    Keeps (EditorRule project notebook call) (step.run p n takeoverId leaseId) := by
  have same {step : DrainStep} {apply : EditorClaim → Hub Runtime (Option EditorClaim)}
      (decides : ClaimDecides (fun before es => DrainChange takeoverId leaseId before es step)
        apply) : Keeps (EditorRule project notebook call) (mutateClaim p n apply) := by
    refine keeps_sameHolder (fun claim before => (decides claim before).mono ?_) other
    intro out es' changed next written
    exact (changed next written).holder
  cases step with
  | acquire =>
    exact ((same decides_acquire).bind fun _ => keeps_clock.map).map
  | renew =>
    exact ((same decides_renew).map).map
  | advance stage =>
    refine Keeps.bind ((same decides_advance).bind fun _ => ?_) fun _ => keeps_ret
    exact .ite keeps_clock.map keeps_ret
  | finish =>
    exact ((same decides_finish).map).map
  | release =>
    refine Keeps.bind (keeps_ignoringErrors ?_) fun _ => keeps_ret
    exact (same decides_releaseLease).map

theorem keeps_dropResult {p : Hub Runtime α} (alone : Keeps (EditorRule project notebook call) p) :
    Keeps (EditorRule project notebook call) (dropResult p) := alone.map

end Alone

theorem editorCall_keeps_rule {notebook : NotebookId} :
    Keeps (EditorRule project notebook call) call.run := by
  cases call with
  | claimEditor p n input => exact keeps_dropResult keeps_claimEditor
  | releaseEditorFor session => exact keeps_releaseEditorFor
  | reserveTakeover => exact keeps_dropResult (keeps_sameHolder decides_reserve (by simp))
  | setTakeoverPhase => exact keeps_dropResult (keeps_sameHolder decides_phase (by simp))
  | completeTakeover p n takeoverId replacement =>
    refine keeps_dropResult (keeps_mutateClaim decides_complete ?_)
    rintro es claim next ⟨transfer, stored, rfl, ready, named, holder⟩ rfl rfl
    exact .completed replacement claim next transfer stored ready named holder
  | cancelRequestedTakeover => exact keeps_cancelRequestedTakeover (by simp)
  | getEditorClaim => exact keeps_dropResult (keeps_getEditorClaim (by simp))
  | drain => exact keeps_dropResult (keeps_drain (by simp))

/-! ## Runs -/

section

variable (project : ProjectId) (notebook : NotebookId)

/-- The session recorded as the holder of the notebook's editor claim. -/
def recordedEditor (t : Trace Runtime) : Option SessionId :=
  match lookup (RuntimeKey.editorClaim project notebook) t with
  | some (.editorClaim claim) => claim.sessionId
  | _ => none

/-- How a recorded holder may stop being one. -/
inductive HolderLeaves (calls : Nat → EditorCall) (holder : SessionId) (x : Event Runtime)
    (past : Trace Runtime) : Prop where
  | released (i : Nat) (session : Session) : x.thread = some i →
      calls i = .releaseEditorFor session → session.sessionId = holder →
      HolderLeaves calls holder x past
  | completed (i : Nat) (claim : EditorClaim) (transfer : Transfer) (replacement : SessionId) :
      x.thread = some i →
      lookup (RuntimeKey.editorClaim project notebook) past = some (.editorClaim claim) →
      claim.transfer = some transfer → transfer.phase = .ready →
      transfer.replacementSessionId = some replacement →
      calls i = .completeTakeover project notebook transfer.takeoverId replacement →
      HolderLeaves calls holder x past
  | replaced (i : Nat) (input : ClaimEditorInput) (claim : EditorClaim) : x.thread = some i →
      calls i = .claimEditor project notebook input →
      lookup (RuntimeKey.editorClaim project notebook) past = some (.editorClaim claim) →
      claim.transfer = none → ObservedNotLive project notebook holder claim (own i past) →
      HolderLeaves calls holder x past

end

variable {x : Event Runtime}

section Runs

variable {calls : Nat → EditorCall} {past : Trace Runtime}
  (run : History a seeds (fun i => (calls i).run) c) (moment : x :: past <:+ c.trace)
include run moment

theorem claim_event (project : ProjectId) (notebook : NotebookId) (mine : x.thread = some i) :
    lookup (RuntimeKey.editorClaim project notebook) (x :: past) =
      lookup (RuntimeKey.editorClaim project notebook) past ∨
    (lookup (RuntimeKey.editorClaim project notebook) past = none ∧
      ∃ input, calls i = .claimEditor project notebook input) ∨ ∃ claim next,
      lookup (RuntimeKey.editorClaim project notebook) past = some (.editorClaim claim) ∧
      lookup (RuntimeKey.editorClaim project notebook) (x :: past) = some (.editorClaim next) ∧
      ClaimChange project notebook (own i past) (calls i) claim next := by
  cases effect : x.effect (.editorClaim project notebook) with
  | none => exact .inl (lookup_of_no_effect effect)
  | some new =>
    have made := Writer.at_effect (run.accepted.suffix moment)
      (run.guarantee (fun _ => editorCall_keeps_rule []) moment mine) effect
    have left : lookup (RuntimeKey.editorClaim project notebook) (x :: past) = new :=
      lookup_of_effect effect
    generalize x.op = o at made
    cases made with
    | removed removes => exact removes.elim
    | created v cond creates holds =>
      obtain ⟨rfl, claim, rfl, input, call⟩ := creates
      exact .inr (.inl ⟨holds, input, call⟩)
    | changed old v tag stored changes =>
      obtain ⟨claim, next, rfl, rfl, change⟩ := changes
      exact .inr (.inr ⟨claim, next, stored, left, change⟩)

/-- The same for a claim that is held. -/
theorem held_event (mine : x.thread = some i)
    (held : recordedEditor project notebook past = some holder) :
    lookup (RuntimeKey.editorClaim project notebook) (x :: past) =
      lookup (RuntimeKey.editorClaim project notebook) past ∨ ∃ claim next,
      lookup (RuntimeKey.editorClaim project notebook) past = some (.editorClaim claim) ∧
      claim.sessionId = some holder ∧
      recordedEditor project notebook (x :: past) = next.sessionId ∧
      ClaimChange project notebook (own i past) (calls i) claim next := by
  rcases claim_event run moment project notebook mine with
    same | ⟨absent, _⟩ | ⟨claim, next, stored, left, change⟩
  · exact .inl same
  · rw [recordedEditor, absent] at held
    cases held
  · rw [recordedEditor, stored] at held
    exact .inr ⟨claim, next, stored, held, by rw [recordedEditor, left], change⟩

theorem holder_step (based : seeds <:+ past)
    (held : recordedEditor project notebook past = some holder) :
    recordedEditor project notebook (x :: past) = some holder ∨
      HolderLeaves project notebook calls holder x past := by
  obtain ⟨i, mine⟩ := run.thread_of_moment moment based
  rcases held_event run moment mine held with same | ⟨claim, next, stored, current, left, change⟩
  · left
    rw [recordedEditor, same]
    exact held
  · generalize which : calls i = call at change
    cases change with
    | replaced input _ _ free observed =>
      exact .inr (.replaced i input claim mine which stored free (observed holder current))
    | released session _ _ own _ =>
      exact .inr (.released i session mine which (Option.some.inj (own.symm.trans current)))
    | completed replacement _ _ transfer took ready named _ =>
      exact .inr (.completed i claim transfer replacement mine stored took ready named which)
    | kept _ _ _ same _ => exact .inl (left.trans (same.trans current))

end Runs

/-- Any interleaving of the calls that write a notebook's editor claim. A recorded holder
stays until its own release, a completed takeover, or a `claimEditor` that observed it as not
live; while a takeover is outstanding the holder only changes to its reserved replacement; a
release changes no claim of another session, and a cancellation changes no holder. -/
theorem editor_claim_ownership (a : Adapter Runtime) (seeds : Trace Runtime)
    (initial : Seeds a seeds) (calls : Nat → EditorCall) (project : ProjectId)
    (notebook : NotebookId) (c : Config Runtime HubError Unit)
    (reach : Reaches a ⟨seeds, fun i => (calls i).run⟩ c) :
    (∀ t u holder, seeds <:+ t → t <:+ u → u <:+ c.trace →
      recordedEditor project notebook t = some holder →
      recordedEditor project notebook u = some holder ∨ ∃ x past, (x :: past) <:+ u ∧ t <:+ past ∧
        recordedEditor project notebook past = some holder ∧
        HolderLeaves project notebook calls holder x past) ∧
    (∀ x past claim transfer, (x :: past) <:+ c.trace → seeds <:+ past →
      lookup (RuntimeKey.editorClaim project notebook) past = some (.editorClaim claim) →
      claim.transfer = some transfer →
      recordedEditor project notebook (x :: past) = claim.sessionId ∨
      ∃ replacement, transfer.replacementSessionId = some replacement ∧
        recordedEditor project notebook (x :: past) = some replacement) ∧
    ∀ x past i holder, (x :: past) <:+ c.trace → x.thread = some i →
      recordedEditor project notebook past = some holder →
      (∀ session, calls i = .releaseEditorFor session → session.sessionId ≠ holder →
        lookup (RuntimeKey.editorClaim project notebook) (x :: past) =
          lookup (RuntimeKey.editorClaim project notebook) past) ∧
      ∀ p n takeoverId, calls i = .cancelRequestedTakeover p n takeoverId →
        recordedEditor project notebook (x :: past) = some holder := by
  have run := reach.history initial
  refine ⟨?_, ?_, ?_⟩
  · intro t u holder based order below held
    refine until_run (P := fun w => recordedEditor project notebook w = some holder) order held ?_
    intro x past moment after still
    exact holder_step run (moment.trans below) (based.trans after) still
  · intro x past claim transfer moment based stored outstanding
    obtain ⟨i, mine⟩ := run.thread_of_moment moment based
    rcases claim_event run moment project notebook mine with
      same | ⟨absent, _⟩ | ⟨claim', next, stored', left, change⟩
    · left
      rw [recordedEditor, same, stored]
    · rw [stored] at absent
      cases absent
    · rw [stored] at stored'
      cases stored'
      generalize calls i = call at change
      cases change with
      | replaced _ _ _ free _ =>
        rw [outstanding] at free
        cases free
      | released _ _ _ _ free =>
        rw [outstanding] at free
        cases free
      | completed replacement _ _ found took _ named now =>
        rw [outstanding] at took
        cases took
        refine .inr ⟨replacement, named, ?_⟩
        rw [recordedEditor, left]
        exact now
      | kept _ _ _ same _ =>
        left
        rw [recordedEditor, left]
        exact same
  · intro x past i holder moment mine held
    rcases held_event run moment mine held with same | ⟨claim, next, _, current, left, change⟩
    · refine ⟨fun _ _ _ => same, fun _ _ _ _ => ?_⟩
      rw [recordedEditor, same]
      exact held
    · refine ⟨fun session call other => ?_, fun p n takeoverId call => ?_⟩
      · rw [call] at change
        cases change with
        | released _ _ _ own _ => exact absurd (Option.some.inj (own.symm.trans current)) other
        | kept _ _ _ _ own =>
          exact absurd (Option.some.inj ((own session rfl).symm.trans current)) other
      · rw [call] at change
        cases change with
        | kept _ _ _ same _ => exact left.trans (same.trans current)

namespace EditorScenario

def adapter : Adapter Runtime := ⟨fun _ version => version, 100⟩

/-- Session 7 holds the claim but has no record any more. -/
def contents : Trace Runtime := seed adapter
  [(.editorClaim 1 2, .editorClaim { sessionId := some 7, sharing := .shared, claimedAt := 0 })]

def calls : Nat → EditorCall
  | 0 => .claimEditor 1 2 { sessionId := 8, sharing := .shared, requestedBy := none }
  | 1 => .cancelRequestedTakeover 1 2 "t"
  | _ => .getEditorClaim 1 2

def schedule : List (Move Runtime) :=
  [⟨0, 1, .ok⟩, ⟨1, 1, .ok⟩, ⟨0, 1, .ok⟩] ++ turns 0 2 [.ok, .ok]

end EditorScenario

open EditorScenario in
/-- The claim of a session without a record passes to a claimant that looked it up. -/
theorem editor_claim_ownership_dead_holder :
    ∃ c, Reaches adapter ⟨contents, fun i => (calls i).run⟩ c ∧
      recordedEditor 1 2 c.trace = some 8 ∧
      ∃ x past, (x :: past) <:+ c.trace ∧ recordedEditor 1 2 past = some 7 ∧
        HolderLeaves 1 2 calls 7 x past := by
  obtain ⟨c, reach, now⟩ := Config.play_any adapter ⟨contents, fun i => (calls i).run⟩ schedule
    (fun c => recordedEditor 1 2 c.trace = some 8) (by decide)
  refine ⟨c, reach, now, ?_⟩
  have ends := (editor_claim_ownership adapter contents (seeds_seed _ _) calls 1 2 c reach).1
    contents c.trace 7 List.suffix_rfl reach.grows List.suffix_rfl rfl
  rcases ends with still | ⟨x, past, moment, _, held, leaves⟩
  · rw [now] at still
    cases still
  · exact ⟨x, past, moment, held, leaves⟩

end MarimoHub.Guarantees
