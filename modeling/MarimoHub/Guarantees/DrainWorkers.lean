import MarimoHub.Guarantees.DrainLease

/-!
# Workers that share a drain lease

A worker makes its calls one after another and may run renewals beside them, as the drain of
a takeover does. What it is told rests on the claim it wrote or read (`Backed`); the lease it
saw there stays recorded until it expires or the worker itself ends it (`lease_until`).
-/

namespace MarimoHub.Guarantees

open ObjectStore Source Prog

/-! ## Workers -/

/-- The lease a worker asks for, and the calls it makes one after another. -/
structure DrainWorker where
  leaseId : String
  steps : List DrainStep

/-- A worker goes on after a call that threw. -/
def runDrainSteps (project : ProjectId) (notebook : NotebookId) (takeoverId leaseId : String) :
    List DrainStep → Hub Runtime (List (Option Bool))
  | [] => pure []
  | step :: rest => do
    let answer ← (step.run project notebook takeoverId leaseId).tryCatch fun _ => pure none
    let answers ← runDrainSteps project notebook takeoverId leaseId rest
    pure (answer :: answers)

variable (project : ProjectId) (notebook : NotebookId) (takeoverId : String) (worker : DrainWorker)

def DrainWorker.run : Hub Runtime (List (Option Bool)) :=
  runDrainSteps project notebook takeoverId worker.leaseId worker.steps

variable (es : Log Runtime)

/-- The worker's last event completed a call that told it that it acquired, renewed or
advanced the lease. -/
def Told : Prop :=
  ∃ n answers, answers.getLast? = some (some true) ∧
    Runs (runDrainSteps project notebook takeoverId worker.leaseId (worker.steps.take n)) es
      (.ret answers)

/-- A drain call changes the claim it read, with only the clock read since. -/
def DrainWrite (takeoverId leaseId : String)
    (step : DrainStep) (es : Log Runtime) (claim next : EditorClaim) : Prop :=
  ∃ tag clock past, es = clock ++
      ⟨.get (.editorClaim project notebook), .found (.editorClaim claim) tag⟩ :: past ∧
    DrainChange takeoverId leaseId
      (⟨.get (.editorClaim project notebook), .found (.editorClaim claim) tag⟩ :: past) es step
      claim next

def drainWriter : Writer Runtime where
  creates _ _ _ := False
  changes es old v := ∃ claim next step, old = .editorClaim claim ∧ v = .editorClaim next ∧
    step ∈ worker.steps ∧
    DrainWrite project notebook takeoverId worker.leaseId step es claim next
  removes _ := False

def DrainRule (o : Op Runtime) : Prop :=
  (drainWriter project notebook takeoverId worker).Allows (.editorClaim project notebook) es o

/-- The claim names the worker's lease, which runs until `expiresAt`. -/
def NamesLease (claim : EditorClaim) (leaseId : String) (expiresAt : Nat) : Prop :=
  ∃ transfer, claim.transfer = some transfer ∧ transfer.drainLeaseId = some leaseId ∧
    transfer.drainLeaseExpiresAt = some expiresAt

/-- What a worker that is told it has the lease saw: the claim it wrote just now, or one it
wrote or read with only the clock read since, before the lease expires. -/
inductive Backed (key : RuntimeKey) (worker : DrainWorker) : Log Runtime → Prop where
  | wrote (claim : EditorClaim) (expiresAt : Nat) (c : Cond Runtime) (tag : Etag Runtime)
      (rest : Log Runtime) : NamesLease claim worker.leaseId expiresAt →
      Backed key worker (⟨.put key (.editorClaim claim) c, .ok tag⟩ :: rest)
  | checked (claim : EditorClaim) (expiresAt now : Nat) (seen : Ev Runtime)
      (clock rest : Log Runtime) : (∃ step ∈ worker.steps, step ≠ .renew) →
      NamesLease claim worker.leaseId expiresAt → now < expiresAt →
      (∃ tag, seen = ⟨.get key, .found (.editorClaim claim) tag⟩ ∨
        ∃ c, seen = ⟨.put key (.editorClaim claim) c, .ok tag⟩) →
      (∀ e ∈ clock, e.op = .now) →
      Backed key worker (⟨.now, now⟩ :: (clock ++ seen :: rest))

variable {leaseId : String} {now : Nat} {worker : DrainWorker} {step : DrainStep}
  {es : Log Runtime}

section Alone

variable {project : ProjectId} {notebook : NotebookId} {takeoverId : String}

theorem holdsLease_names (holds : holdsLease claim leaseId now = true) :
    ∃ expiresAt, NamesLease claim leaseId expiresAt ∧ now < expiresAt := by
  rw [holdsLease, Option.any_eq_true] at holds
  obtain ⟨transfer, stored, holds⟩ := holds
  simp only [decide_eq_true_eq, Option.any_eq_true] at holds
  obtain ⟨named, expiresAt, expires, active⟩ := holds
  exact ⟨expiresAt, ⟨transfer, stored, named, expires⟩, active⟩

theorem emits_mutateClaim (member : step ∈ worker.steps)
    (decides : ClaimDecides (fun before es => DrainChange takeoverId worker.leaseId before es step)
      apply) : Emits (DrainRule project notebook takeoverId worker)
      (yields (Mutated (· = .now) (DrainWrite project notebook takeoverId worker.leaseId step)
        (.editorClaim project notebook) .editorClaim))
          (mutateClaim project notebook apply) past := by
  refine emits_mutateRecord parseEditorClaim_only (fun _ => trivial) ?_ ?_ ?_
  · rintro es _ rfl
    trivial
  · intro claim tag past
    refine (decides claim _).adds.mono ?_
    rintro out _ ⟨changed, clock, rfl, _⟩ next written
    exact ⟨tag, clock, past, rfl, changed next written⟩
  · intro es tag claim next read changed _
    exact ⟨.editorClaim claim, .inl read, claim, next, step, rfl, rfl, member, changed⟩

theorem seen_of_mutated {step : Log Runtime → EditorClaim → EditorClaim → Prop}
    (mutated : Mutated (· = .now) step key .editorClaim outcome es) :
    ∃ seen clock rest, es = clock ++ seen :: rest ∧ (∀ e ∈ clock, e.op = .now) ∧
      ∃ tag, seen = ⟨.get key, .found (.editorClaim outcome.value) tag⟩ ∨
        ∃ c, seen = ⟨.put key (.editorClaim outcome.value) c, .ok tag⟩ := by
  obtain ⟨value, written⟩ := outcome
  cases written with
  | true =>
    obtain ⟨_, tag, tag', rest, _, rfl, _⟩ := mutated
    exact ⟨_, [], rest, rfl, by simp, tag', .inr ⟨_, rfl⟩⟩
  | false =>
    obtain ⟨tag, clock, rest, rfl, quiet⟩ := mutated
    exact ⟨_, clock, rest, rfl, quiet, tag, .inl rfl⟩

theorem backed_of_holds {step : Log Runtime → EditorClaim → EditorClaim → Prop}
    (more : ∃ step ∈ worker.steps, step ≠ .renew)
    (mutated : Mutated (· = .now) step key .editorClaim outcome es)
    (holds : holdsLease outcome.value worker.leaseId now = true) :
    Backed key worker (⟨.now, now⟩ :: es) := by
  obtain ⟨seen, clock, rest, rfl, quiet, shape⟩ := seen_of_mutated mutated
  obtain ⟨expiresAt, names, active⟩ := holdsLease_names holds
  exact .checked outcome.value expiresAt now seen clock rest more names active shape quiet

theorem emits_told {prog : Hub Runtime Bool}
    (told : Emits (DrainRule project notebook takeoverId worker)
      (fun out es => out = .ok true → Backed key worker es) prog past) :
    Emits (DrainRule project notebook takeoverId worker)
      (fun out es => out = .ok (some true) → Backed key worker es)
      (do let answer ← prog; pure (some answer)) past := by
  refine emits_seq told ?_ (fun _ _ _ _ => by rintro ⟨⟩)
  rintro answer es _ backed ⟨⟩
  exact backed rfl

theorem emits_drainStep (member : step ∈ worker.steps) :
    Emits (DrainRule project notebook takeoverId worker)
      (fun out es => out = .ok (some true) → Backed (.editorClaim project notebook) worker es)
      (step.run project notebook takeoverId worker.leaseId) past := by
  cases step with
  | acquire =>
    refine emits_told (emits_seq (emits_mutateClaim member decides_acquire) ?_
      (fun _ _ _ _ => by rintro ⟨⟩))
    intro outcome es _ mutated
    refine ⟨trivial, fun now => ?_⟩
    intro told
    exact backed_of_holds ⟨_, member, by simp⟩ mutated (Except.ok.inj told)
  | renew =>
    refine emits_told (emits_seq (emits_mutateClaim member decides_renew) ?_
      (fun _ _ _ _ => by rintro ⟨⟩))
    rintro ⟨next, _⟩ es _ mutated ⟨⟩
    obtain ⟨claim, tag, tag', rest, ⟨_, _, _, _, changed⟩, rfl, _⟩ := mutated
    cases changed with
    | renewed _ transfer now expiresAt deadline draining named expires limit active read =>
      exact .wrote _ _ _ _ _ ⟨_, rfl, named, rfl⟩
  | advance stage =>
    refine emits_told (emits_seq (emits_mutateClaim member decides_advance) ?_
      (fun _ _ _ _ => by rintro ⟨⟩))
    intro outcome es _ mutated
    split
    · refine ⟨trivial, fun now => ?_⟩
      intro told
      exact backed_of_holds ⟨_, member, by simp⟩ mutated (Except.ok.inj told)
    · rintro ⟨⟩
  | finish =>
    refine emits_seq (Q := fun _ _ => True) ?_ (fun _ _ _ _ => by rintro ⟨⟩)
      (fun _ _ _ _ => by rintro ⟨⟩)
    exact emits_seq (emits_mutateClaim member decides_finish) (fun _ _ _ _ => trivial)
  | release =>
    refine emits_seq (Q := fun _ _ => True) ?_ (fun _ _ _ _ => by rintro ⟨⟩)
      (fun _ _ _ _ => by rintro ⟨⟩)
    rw [releaseTakeoverDrainLease, ignoringErrors, emits_tryCatch]
    refine emits_seq (emits_mutateClaim member decides_releaseLease) (fun _ _ _ _ => trivial)

/-- A worker whose last answer is `true` has just been told so. -/
theorem emits_runDrainSteps (inside : ∀ step ∈ steps, step ∈ worker.steps)
      : Emits (DrainRule project notebook takeoverId worker)
      (fun out es => ∀ answers, out = .ok answers → answers.length = steps.length ∧
        (answers.getLast? = some (some true) → Backed (.editorClaim project notebook) worker es))
      (runDrainSteps project notebook takeoverId worker.leaseId steps) past := by
  induction steps generalizing past with
  | nil =>
    rintro _ ⟨⟩
    exact ⟨rfl, by simp⟩
  | cons step rest ih =>
    have one : Emits (DrainRule project notebook takeoverId worker) (fun out es =>
        out = .ok (some true) → Backed (.editorClaim project notebook) worker es)
        ((step.run project notebook takeoverId worker.leaseId).tryCatch
          fun _ => pure none) past := by
      rw [emits_tryCatch]
      refine (emits_drainStep (inside step (.head _))).mono ?_
      intro out es backed
      cases out with
      | ok answer => exact backed
      | error err => rintro ⟨⟩
    refine emits_seq one ?_ (fun _ _ _ _ => by rintro _ ⟨⟩)
    intro answer es _ backed
    rw [emits_bind]
    -- the answer of this call is the last one exactly if no call follows
    cases rest with
    | nil =>
      rintro _ ⟨⟩
      exact ⟨rfl, fun last => backed (congrArg Except.ok (Option.some.inj last))⟩
    | cons second others =>
      refine (ih (fun step member => inside step (.tail _ member))).mono ?_
      intro out es' later
      cases out with
      | error err => rintro _ ⟨⟩
      | ok answers =>
        obtain ⟨length, told⟩ := later answers rfl
        rintro _ ⟨⟩
        refine ⟨by simp [length], ?_⟩
        intro last
        cases answers with
        | nil => cases length
        | cons first more => exact told (by simpa using last)

end Alone

/-! ## Runs -/

variable {x : Event Runtime} {past t u : Trace Runtime} {lease : DrainLease} {i : Nat}
  {next : EditorClaim}

section Runs

variable {a : Adapter Runtime} {seeds : Trace Runtime} {project : ProjectId} {notebook : NotebookId}
  {takeoverId : String} {workers : Nat → DrainWorker}
  {c : Config Runtime HubError (List (Option Bool))}

theorem drainWorker_keeps_rule :
    Emits (DrainRule project notebook takeoverId worker) (fun _ _ => True)
      (worker.run project notebook takeoverId) [] :=
  (emits_runDrainSteps (fun _ member => member)).forget

/-- Stored claims have a sound lease or none. -/
def StoresSound (k : RuntimeKey) (t : Trace Runtime) : Prop :=
  ∀ claim, lookup k t = some (.editorClaim claim) → ClaimSound (lastTime t) claim

/-- What an event did to the claim, with the moment at which its worker had read it. -/
structure DrainEffect (seeds : Trace Runtime) (project : ProjectId) (notebook : NotebookId)
    (takeoverId : String) (worker : DrainWorker) (x : Event Runtime) (past : Trace Runtime) where
  claim : EditorClaim
  next : EditorClaim
  step : DrainStep
  before : Log Runtime
  es : Log Runtime
  read : Trace Runtime
  member : step ∈ worker.steps
  change : DrainChange takeoverId worker.leaseId before es step claim next
  stored : lookup (RuntimeKey.editorClaim project notebook) past = some (.editorClaim claim)
  left : lookup (RuntimeKey.editorClaim project notebook) (x :: past) =
    some (.editorClaim next)
  based : seeds <:+ read
  earlier : read <:+ past
  found : lookup (RuntimeKey.editorClaim project notebook) read = some (.editorClaim claim)
  clock : ∀ new now, es = new ++ before → ⟨.now, now⟩ ∈ new →
    lastTime read ≤ now ∧ now ≤ x.time

theorem drain_effect (initial : Seeds a seeds)
    (run : History a seeds (fun i => (workers i).run project notebook takeoverId) c)
    (moment : x :: past <:+ c.trace) (mine : x.thread = some i)
    (effect : x.effect (.editorClaim project notebook) = some new) :
    Nonempty (DrainEffect seeds project notebook takeoverId (workers i) x past) := by
  have accepted := run.accepted.suffix moment
  have made := Writer.at_effect accepted
    (run.guarantee (fun i => drainWorker_keeps_rule) moment mine) effect
  have left : lookup (RuntimeKey.editorClaim project notebook) (x :: past) = new :=
    lookup_of_effect effect
  generalize x.op = o at made
  cases made with
  | created _ _ creates _ => exact creates.elim
  | removed removes => exact removes.elim
  | changed old v tag stored changes =>
    obtain ⟨claim, next, step, rfl, rfl, member, tag', clock, before, ownEq, changed⟩ := changes
    obtain ⟨g, q, earlier, theirs, shape, rest⟩ := exists_own ⟨clock, ownEq.symm⟩
    have seen : own i (g :: q) = ⟨.get (.editorClaim project notebook),
        .found (.editorClaim claim) tag'⟩ :: before := by rw [own_cons theirs, shape, rest]
    refine ⟨⟨claim, next, step, _, _, q, member, changed, stored, left,
      run.after_seeds initial (earlier.trans moment.past) theirs,
      earlier.past, ((accepted.2.at earlier).tagged shape).1, ?_⟩⟩
    intro new now same member
    have cut : new = clock := List.append_cancel_right (same.symm.trans ownEq)
    subst cut
    have bounds := clock_between accepted earlier theirs (by rw [ownEq, seen]) member
    exact ⟨Nat.le_trans (accepted.2.at earlier).forward bounds.1, bounds.2⟩

theorem ClaimSound.later (sound : ClaimSound now claim)
    (forward : now ≤ after) : ClaimSound after claim := by
  intro transfer stored
  refine (sound transfer stored).imp id ?_
  rintro ⟨lease, recorded, good⟩
  exact ⟨lease, recorded, good.later forward⟩

theorem DrainEffect.leaseStep (done : DrainEffect seeds project notebook takeoverId worker x past)
    (sound : ClaimSound (lastTime done.read) done.claim) :
    LeaseStep worker.leaseId (lastTime done.read) x.time
      (recordedLease (lookup (RuntimeKey.editorClaim project notebook) past))
      (recordedLease (lookup (RuntimeKey.editorClaim project notebook) (x :: past))) := by
  rw [done.stored, done.left]
  exact done.change.leaseStep sound done.clock

/-- The lease recorded at a moment of the run. -/
def leaseAt (project : ProjectId) (notebook : NotebookId) (t : Trace Runtime) : Option DrainLease :=
  recordedLease (lookup (RuntimeKey.editorClaim project notebook) t)

theorem DrainChange.ends (change : DrainChange takeoverId leaseId before es step claim next)
    (sound : ClaimSound seen claim) (free : next.transfer.bind Transfer.lease = none) :
    step = .finish ∨ step = .release := by
  cases change with
  | acquired _ transfer now later draining inactive read => cases free
  | renewed _ transfer now expiresAt deadline draining named expires limit active read =>
    obtain ⟨lease, recorded, _, _⟩ := sound.lease (drainingTransfer_some draining) named
    rw [Option.bind_some, lease_renewed recorded] at free
    cases free
  | advanced stage _ transfer now draining named active ahead read => cases free
  | finished _ transfer draining named => exact .inl rfl
  | released _ transfer current named => exact .inr rfl

/-- What one event did to the recorded lease. -/
structure LeaseEvent (project : ProjectId) (notebook : NotebookId) (worker : DrainWorker)
    (seen : Nat) (x : Event Runtime) (past : Trace Runtime) : Prop where
  step : LeaseStep worker.leaseId seen x.time (leaseAt project notebook past)
    (leaseAt project notebook (x :: past))
  sound : ∀ lease, leaseAt project notebook past = some lease → LeaseSound seen lease
  ends : leaseAt project notebook (x :: past) = none →
    .finish ∈ worker.steps ∨ .release ∈ worker.steps
  effect : (x.effect (.editorClaim project notebook)).isSome = true

/-- The worker of the recorded lease ended it, by finishing the drain or by releasing. -/
def EndsLease (project : ProjectId) (notebook : NotebookId) (workers : Nat → DrainWorker)
    (leaseId : String) (x : Event Runtime) (past : Trace Runtime) : Prop :=
  ∃ i lease, x.thread = some i ∧ (workers i).leaseId = leaseId ∧
    (.finish ∈ (workers i).steps ∨ .release ∈ (workers i).steps) ∧
    leaseAt project notebook past = some lease ∧ lease.id = leaseId ∧
    leaseAt project notebook (x :: past) = none

section

variable (initial : Seeds a seeds)
  (run : History a seeds (fun i => (workers i).run project notebook takeoverId) c)
  (start : StoresSound (.editorClaim project notebook) seeds)
include initial run start

theorem stores_sound (based : seeds <:+ t) (below : t <:+ c.trace) :
    StoresSound (.editorClaim project notebook) t := by
  refine lasts (P := fun u => ∀ w, seeds <:+ w → w <:+ u →
    StoresSound (.editorClaim project notebook) w) based ?_ ?_ t based List.suffix_rfl
  · intro w above inside
    rw [inside.eq_of_length_le above.length_le]
    exact start
  · intro x past moment after sound w above inside
    rcases List.suffix_cons_iff.mp inside with rfl | earlier
    · intro claim found
      obtain ⟨i, mine⟩ := run.thread_of_moment (moment.trans below) after
      rcases found_cons found with old | effect
      · exact (sound past after List.suffix_rfl claim old).later
          (run.accepted.at (moment.trans below)).forward
      · obtain ⟨done⟩ := drain_effect initial run (moment.trans below) mine effect
        cases done.left.symm.trans found
        have good := sound done.read done.based done.earlier done.claim done.found
        have step := done.leaseStep good
        intro transfer stored
        refine (done.change.fields good transfer stored).imp id ?_
        rintro ⟨lease, recorded⟩
        refine ⟨lease, recorded, step.sound ?_⟩
        rw [done.left, recordedLease, stored]
        exact recorded
    · exact sound w above earlier

theorem leaseAt_sound (based : seeds <:+ t) (below : t <:+ c.trace)
    (recorded : leaseAt project notebook t = some lease) : LeaseSound (lastTime t) lease := by
  have sound := stores_sound initial run start based below
  rw [leaseAt] at recorded
  cases found : lookup (RuntimeKey.editorClaim project notebook) t with
  | none =>
    rw [found] at recorded
    cases recorded
  | some v =>
    rw [found] at recorded
    cases v with
    | editorClaim claim =>
      obtain ⟨transfer, stored, held⟩ := Option.bind_eq_some_iff.mp recorded
      obtain ⟨lease', same, _, good⟩ :=
        (sound claim found).lease stored (lease_eq_some held).1
      rw [held] at same
      cases same
      exact good
    | _ => cases recorded

theorem lease_event (moment : x :: past <:+ c.trace) (based : seeds <:+ past) :
    leaseAt project notebook (x :: past) = leaseAt project notebook past ∨
      ∃ i seen, x.thread = some i ∧ LeaseEvent project notebook (workers i) seen x past := by
  cases effect : x.effect (.editorClaim project notebook) with
  | none =>
    left
    rw [leaseAt, lookup_of_no_effect effect]
    rfl
  | some new =>
    obtain ⟨i, mine⟩ := run.thread_of_moment moment based
    obtain ⟨done⟩ := drain_effect initial run moment mine effect
    have toTrace := moment.past
    have good := stores_sound initial run start done.based (done.earlier.trans toTrace) done.claim
      done.found
    refine .inr ⟨i, lastTime done.read, mine, done.leaseStep good, ?_, ?_, by rw [effect]; rfl⟩
    · intro lease recorded
      refine leaseAt_sound initial run start done.based (done.earlier.trans toTrace) ?_
      rw [leaseAt, done.found, ← done.stored]
      exact recorded
    · intro free
      rw [leaseAt, done.left] at free
      rcases done.change.ends good free with same | same
      · exact .inl (same ▸ done.member)
      · exact .inr (same ▸ done.member)

/-- A recorded lease stays with its worker until it expires or that worker ends it. -/
theorem lease_until (based : seeds <:+ t) (order : t <:+ u) (below : u <:+ c.trace)
    (recorded : leaseAt project notebook t = some lease) :
    (∃ later, leaseAt project notebook u = some later ∧ later.id = lease.id ∧
      lease.expiresAt ≤ later.expiresAt) ∨
    ∃ x past, x :: past <:+ u ∧ t <:+ past ∧ (lease.expiresAt ≤ x.time ∨
      EndsLease project notebook workers lease.id x past) := by
  have found := until_run (P := fun w => ∃ later, leaseAt project notebook w = some later ∧
      later.id = lease.id ∧ lease.expiresAt ≤ later.expiresAt)
    (E := fun x past => lease.expiresAt ≤ x.time ∨
      EndsLease project notebook workers lease.id x past) order
    ⟨lease, recorded, rfl, Nat.le_refl _⟩ ?_
  · refine found.imp id ?_
    rintro ⟨x, past, moment, after, _, ends⟩
    exact ⟨x, past, moment, after, ends⟩
  · rintro x past moment after ⟨later, still, same, longer⟩
    rcases Nat.lt_or_ge x.time lease.expiresAt with active | expired
    · rcases lease_event initial run start (moment.trans below) (based.trans after) with
        kept | ⟨i, seen, mine, event⟩
      · exact .inl ⟨later, kept.trans still, same, longer⟩
      · have step := event.step
        rw [still] at step
        obtain ⟨theirs, gone | ⟨next, now, owner, more⟩⟩ :=
          step.keeps (event.sound later still) (Nat.lt_of_lt_of_le active longer)
        · exact .inr (.inr ⟨i, later, mine, theirs.trans same, event.ends gone, still, same, gone⟩)
        · exact .inl ⟨next, now, owner.trans same, Nat.le_trans longer more⟩
    · exact .inr (.inl expired)

theorem leaseAt_of_names (based : seeds <:+ t) (below : t <:+ c.trace)
    (found : lookup (RuntimeKey.editorClaim project notebook) t = some (.editorClaim claim))
    (names : NamesLease claim leaseId expiresAt) :
    ∃ lease, leaseAt project notebook t = some lease ∧ lease.id = leaseId ∧
      lease.expiresAt = expiresAt := by
  obtain ⟨transfer, stored, named, expires⟩ := names
  obtain ⟨lease, recorded, mine, _⟩ :=
    (stores_sound initial run start based below claim found).lease stored named
  refine ⟨lease, ?_, mine, ?_⟩
  · rw [leaseAt, found, recordedLease, stored]
    exact recorded
  · have same := (lease_eq_some recorded).2.2.1
    rw [expires] at same
    exact (Option.some.inj same).symm

end

theorem lookup_of_seen (accepted : Along (Accepts a) t) (moment : g :: q <:+ t)
    (shape : ∃ tag, g.toEv = ⟨.get k, .found (.editorClaim claim) tag⟩ ∨ ∃ cond, g.toEv = ⟨.put k
      (.editorClaim claim) cond, .ok tag⟩) : lookup k (g :: q) = some (.editorClaim claim) := by
  have accepts := accepted.at moment
  obtain ⟨tag, read | ⟨cond, wrote⟩⟩ := shape
  · have quiet : g.effect k = none := by
      obtain ⟨⟨o, r⟩, thread, time, applied⟩ := g
      cases read
      rfl
    rw [lookup_of_no_effect quiet]
    exact (accepts.tagged read).1
  · refine lookup_of_effect ?_
    simp [effect_put wrote, (accepts.responds_of wrote).2.2]

section

variable (initial : Seeds a seeds)
  (run : History a seeds (fun i => (workers i).run project notebook takeoverId) c)

include initial run

section

variable (start : StoresSound (.editorClaim project notebook) seeds)
include start

theorem told_recorded
    (apart : ∀ i j, i ≠ j → (workers i).leaseId = (workers j).leaseId →
      (∀ step ∈ (workers i).steps, step = .renew) ∨ ∀ step ∈ (workers j).steps, step = .renew)
    (moment : e :: past <:+ c.trace) (mine : e.thread = some i)
    (told : Told project notebook takeoverId (workers i) (own i (e :: past))) :
    ∃ lease, leaseAt project notebook (e :: past) = some lease ∧
      lease.id = (workers i).leaseId := by
  obtain ⟨n, answers, last, runs⟩ := told
  have based := run.after_seeds initial moment mine
  have backed := ((emits_runDrainSteps
    (fun _ member => List.mem_of_mem_take member)).runs runs).1 answers rfl
  have backed := backed.2 last
  generalize ownEq : own i (e :: past) = es at backed
  rw [own_cons mine] at ownEq
  cases backed with
  | wrote claim expiresAt cond tag rest names =>
    have shape := (List.cons.inj ownEq).1
    have stored := lookup_of_seen run.accepted moment ⟨tag, .inr ⟨cond, shape⟩⟩
    obtain ⟨lease, recorded, same, _⟩ := leaseAt_of_names initial run start
      (based.cons) moment stored names
    exact ⟨lease, recorded, same⟩
  | checked claim expiresAt now seen clock rest more names active shape quiet =>
    obtain ⟨head, tail⟩ := List.cons.inj ownEq
    have time : now = e.time := ((run.accepted.at moment).responds_of head).1
    obtain ⟨g, q, earlier, theirs, same, before⟩ := exists_own ⟨clock, tail.symm⟩
    have toTrace := earlier.trans moment.past
    have stored := lookup_of_seen run.accepted toTrace (by rw [same]; exact shape)
    have after := (run.after_seeds initial toTrace theirs).trans (List.suffix_cons g q)
    obtain ⟨lease, recorded, owner, expires⟩ := leaseAt_of_names initial run start after toTrace
      stored names
    rcases lease_until initial run start after (earlier.cons) moment
      recorded with ⟨later, still, same', _⟩ | ⟨x, p, inside, since, expired | ended⟩
    · exact ⟨later, still, same'.trans owner⟩
    · -- the clock was read before the lease expired
      have order : x.time ≤ e.time := time_le_lastTime (run.accepted.suffix moment) inside
      omega
    · obtain ⟨j, lease', who, sameId, finishing, held, _, gone⟩ := ended
      have changed : x.op ≠ .now := by
        intro op
        have quiet : x.effect (.editorClaim project notebook) = none := by
          rw [Event.effect, op]
        rw [leaseAt, lookup_of_no_effect quiet] at gone
        rw [leaseAt, gone] at held
        cases held
      by_cases ij : j = i
      · subst ij
        rcases List.suffix_cons_iff.mp inside with here | within
        · cases here
          exact absurd (congrArg Ev.op head) changed
        · have between := own_between theirs who since within (by rw [tail, same, before])
          exact absurd (quiet _ between) changed
      · rcases apart j i ij (sameId.trans owner) with only | only
        · rcases finishing with member | member
          · cases only _ member
          · cases only _ member
        · obtain ⟨step, member, other⟩ := more
          exact absurd (only step member) other

/-- Between two moments the lease has one worker and a stage that does not go back, unless
a new tenure started. -/
theorem stage_forward (based : seeds <:+ t) (order : t <:+ u) (below : u <:+ c.trace)
    (recorded : leaseAt project notebook t = some lease)
    (still : leaseAt project notebook u = some later) : (later.id = lease.id ∧
      takeoverDrainStageOrder lease.stage ≤ takeoverDrainStageOrder later.stage) ∨
    ∃ x past i, x :: past <:+ u ∧ t <:+ past ∧ x.thread = some i ∧
      StartsTenure (workers i).leaseId x.time (leaseAt project notebook past)
        (leaseAt project notebook (x :: past)) := by
  have found := until_run (P := fun w => ∀ later, leaseAt project notebook w = some later →
      later.id = lease.id ∧
        takeoverDrainStageOrder lease.stage ≤ takeoverDrainStageOrder later.stage)
    (E := fun x past => ∃ i, x.thread = some i ∧
      StartsTenure (workers i).leaseId x.time (leaseAt project notebook past)
        (leaseAt project notebook (x :: past))) order ?_ ?_
  · rcases found with kept | ⟨x, past, moment, after, _, i, mine, starts⟩
    · exact .inl (kept later still)
    · exact .inr ⟨x, past, i, moment, after, mine, starts⟩
  · intro later same
    rw [recorded] at same
    cases same
    exact ⟨rfl, Nat.le_refl _⟩
  · intro x past moment after kept
    rcases lease_event initial run start (moment.trans below) (based.trans after) with
      same | ⟨i, seen, mine, event⟩
    · exact .inl (fun later now => kept later (same.symm.trans now))
    · by_cases starts : StartsTenure (workers i).leaseId x.time (leaseAt project notebook past)
        (leaseAt project notebook (x :: past))
      · exact .inr ⟨i, mine, starts⟩
      · refine .inl fun later now => ?_
        rcases event.step.forward now with again | ⟨old, was, same, forward⟩
        · exact absurd again starts
        · have earlier := kept old was
          exact ⟨same.trans earlier.1, Nat.le_trans earlier.2 forward⟩

end

theorem ready_by_holder (moment : x :: past <:+ c.trace) (based : seeds <:+ past)
    (stored : lookup (RuntimeKey.editorClaim project notebook) past = some (.editorClaim
      claim)) (draining : claim.transfer = some transfer) (phase : transfer.phase = .draining)
    (left : lookup (RuntimeKey.editorClaim project notebook) (x :: past) = some (.editorClaim
      next)) (ready : next.transfer = some finished) (done : finished.phase = .ready) :
    ∃ i, x.thread = some i ∧ .finish ∈ (workers i).steps ∧
      transfer.drainLeaseId = some (workers i).leaseId := by
  obtain ⟨i, mine⟩ := run.thread_of_moment moment based
  have unready {found : Transfer} (same : claim.transfer = some found) : found.phase ≠ .ready := by
    rw [Option.some.inj (same.symm.trans draining), phase]
    decide
  cases effect : x.effect (.editorClaim project notebook) with
  | none =>
    rw [lookup_of_no_effect effect, stored] at left
    cases left
    exact absurd done (unready ready)
  | some new =>
    obtain ⟨⟨claim', next', step, before, es, _, member, change, before', after', _⟩⟩ :=
      drain_effect initial run moment mine effect
    cases stored.symm.trans before'
    cases left.symm.trans after'
    cases change with
    | acquired _ _ _ _ current | renewed _ _ _ _ _ current | advanced _ _ _ _ current =>
      cases ready
      exact (unready (drainingTransfer_some current) done).elim
    | finished _ found current named =>
      rw [Option.some.inj ((drainingTransfer_some current).symm.trans draining)] at named
      exact ⟨i, mine, member, named⟩
    | released _ _ current =>
      cases ready
      exact (unready (transferOf_some current) done).elim

end

end Runs

/-- Workers that share a monotone clock and call acquire, renew, advance, finish and release
on one takeover's lease, with every lease id used by one worker and the renewals it runs
beside its other calls. A worker is told that it has the lease only when every lease another
worker ever had recorded has expired or been ended by that worker; a lease keeps its worker,
and its stage does not go back, until a new tenure starts; only the worker of the recorded
lease moves a draining takeover to `ready`; and no lease outlasts its progress deadline. -/
theorem drain_lease_protocol (a : Adapter Runtime) (seeds : Trace Runtime)
    (initial : Seeds a seeds) (project : ProjectId) (notebook : NotebookId) (takeoverId : String)
    (start : StoresSound (.editorClaim project notebook) seeds) (workers : Nat → DrainWorker)
    (apart : ∀ i j, i ≠ j → (workers i).leaseId = (workers j).leaseId →
      (∀ step ∈ (workers i).steps, step = .renew) ∨ ∀ step ∈ (workers j).steps, step = .renew)
    (c : Config Runtime HubError (List (Option Bool)))
    (reach : Reaches a ⟨seeds, fun i => (workers i).run project notebook takeoverId⟩ c) :
    (∀ i e past t lease, (e :: past) <:+ c.trace → e.thread = some i →
      Told project notebook takeoverId (workers i) (own i (e :: past)) →
      seeds <:+ t → t <:+ (e :: past) → leaseAt project notebook t = some lease →
      lease.id ≠ (workers i).leaseId → ∃ x q, (x :: q) <:+ (e :: past) ∧ t <:+ q ∧
        (lease.expiresAt ≤ x.time ∨ EndsLease project notebook workers lease.id x q)) ∧
    (∀ t u lease later, seeds <:+ t → t <:+ u → u <:+ c.trace →
      leaseAt project notebook t = some lease → leaseAt project notebook u = some later →
      (later.id = lease.id ∧
        takeoverDrainStageOrder lease.stage ≤ takeoverDrainStageOrder later.stage) ∨
      ∃ x past i, (x :: past) <:+ u ∧ t <:+ past ∧ x.thread = some i ∧
        StartsTenure (workers i).leaseId x.time (leaseAt project notebook past)
          (leaseAt project notebook (x :: past))) ∧
    (∀ x past claim next transfer finished, (x :: past) <:+ c.trace → seeds <:+ past →
      lookup (RuntimeKey.editorClaim project notebook) past = some (.editorClaim claim) →
      claim.transfer = some transfer → transfer.phase = .draining →
      lookup (RuntimeKey.editorClaim project notebook) (x :: past) = some (.editorClaim next) →
      next.transfer = some finished → finished.phase = .ready →
      ∃ i, x.thread = some i ∧ .finish ∈ (workers i).steps ∧
        transfer.drainLeaseId = some (workers i).leaseId) ∧
    ∀ t lease, seeds <:+ t → t <:+ c.trace → leaseAt project notebook t = some lease →
      lease.expiresAt ≤ lease.deadline := by
  have run := reach.history initial
  refine ⟨?_, ?_, ?_, ?_⟩
  · intro i e past t lease moment mine told based order recorded other
    obtain ⟨own, now, same⟩ := told_recorded initial run start apart moment mine told
    rcases lease_until initial run start based order moment recorded with
      ⟨later, still, kept, _⟩ | ended
    · rw [now] at still
      cases still
      exact absurd (kept.symm.trans same) other
    · exact ended
  · intro t u lease later based order below recorded still
    exact stage_forward initial run start based order below recorded still
  · intro x past claim next transfer finished moment based stored draining phase left ready done
    exact ready_by_holder initial run moment based stored draining phase left ready done
  · intro t lease based below recorded
    exact (leaseAt_sound initial run start based below recorded).deadline

namespace DrainScenario

def adapter : Adapter Runtime := ⟨fun _ version => version, 100⟩

def transfer : Transfer :=
  { takeoverId := "t", requestedBy := "ada", expectedActivity := .idle, phase := .draining,
    requestedAt := 0 }

def claim : EditorClaim :=
  { sessionId := some 7, sharing := .exclusive, claimedAt := 0, transfer := some transfer }

def contents : Trace Runtime := seed adapter [(.editorClaim 1 2, .editorClaim claim)]

/-- Worker `a` drains and renews beside it; worker `b` tries to acquire. -/
def workers : Nat → DrainWorker
  | 0 => ⟨"a", [.acquire, .advance .snapshotting]⟩
  | 1 => ⟨"b", [.acquire]⟩
  | _ => ⟨"a", [.renew]⟩

theorem workers_apart (i j : Nat) (different : i ≠ j)
    (same : (workers i).leaseId = (workers j).leaseId) :
    (∀ step ∈ (workers i).steps, step = .renew) ∨ ∀ step ∈ (workers j).steps, step = .renew := by
  have renewing (n : Nat) : ∀ step ∈ (workers (n + 2)).steps, step = .renew := by
    simp [workers]
  match i, j with
  | n + 2, _ => exact .inl (renewing n)
  | _, n + 2 => exact .inr (renewing n)
  | 0, 0 => exact absurd rfl different
  | 1, 1 => exact absurd rfl different
  | 0, 1 => exact absurd same (by decide)
  | 1, 0 => exact absurd same (by decide)

theorem contents_sound : StoresSound (.editorClaim 1 2) contents := by
  intro stored found transfer same
  cases found
  cases same
  exact .inl rfl

/-- `a` acquires, `b` is refused, `a` renews and advances. -/
def schedule : List (Move Runtime) :=
  turns 0 1 [.ok, .ok, .ok, .ok] ++ [⟨0, 2, .ok⟩] ++ turns 1 3 [.ok, .ok, .ok] ++
    turns 2 4 [.ok, .ok, .ok] ++ turns 0 5 [.ok, .ok] ++ turns 0 6 [.ok, .ok]

end DrainScenario

open DrainScenario in
/-- After a refused acquisition, a renewal and an advance the lease is still the first
worker's, and no lease recorded on the way outlasted its deadline. -/
theorem drain_lease_protocol_one_holder :
    ∃ c, Reaches adapter ⟨contents, fun i => (workers i).run 1 2 "t"⟩ c ∧
      leaseAt 1 2 c.trace = some ⟨"a", .snapshotting, 600005, 1800005⟩ ∧
      ∀ t lease, contents <:+ t → t <:+ c.trace → leaseAt 1 2 t = some lease →
        lease.expiresAt ≤ lease.deadline := by
  obtain ⟨c, reach, observed⟩ := Config.play_any adapter
    ⟨contents, fun i => (workers i).run 1 2 "t"⟩ schedule (fun c =>
      leaseAt 1 2 c.trace = some ⟨"a", .snapshotting, 600005, 1800005⟩) (by decide)
  refine ⟨c, reach, observed, ?_⟩
  exact (drain_lease_protocol adapter contents (seeds_seed _ _) 1 2 "t" contents_sound workers
    workers_apart c reach).2.2.2

end MarimoHub.Guarantees
