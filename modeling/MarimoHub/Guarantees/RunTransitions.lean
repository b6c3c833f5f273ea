import MarimoHub.Guarantees.JobRule

/-!
# Transitions of one run record

Any number of `transition` calls. Each of them writes at most once and ends with that write, so
what a call reports and what it did to the record are read off its last event.
-/

namespace MarimoHub.Guarantees

open ObjectStore Source

structure TransitionCall where
  ref : RunRef
  event : RunEvent
  patching : RunPatching

def TransitionCall.start (call : TransitionCall) : Hub JobStore TransitionResult :=
  transition call.ref call.event call.patching

/-- The conditional write of a run record is atomic: a request that failed was not applied. -/
def recordPutAtomic (_ : Trace JobStore) (e : Event JobStore) : Bool :=
  match e.toEv with
  | ⟨.put (.record _) _ _, .fail⟩ => e.applied = false
  | _ => true

/-! ## One call, alone -/

/-- No write of the client was acknowledged. -/
def Unwritten (es : Log JobStore) : Prop :=
  ∀ k v c tag, (⟨.put k v c, .ok tag⟩ : Ev JobStore) ∉ es

variable {es : Log JobStore} {tag : Etag JobStore} {current next ended : JobRun}
  {event : RunEvent} {x : Event JobStore} {past t : Trace JobStore} {i : Nat}

theorem Unwritten.cons (unwritten : Unwritten es)
    (other : ∀ k v c tag, ev ≠ ⟨.put k v c, .ok tag⟩) : Unwritten (ev :: es) := by
  intro k v c tag member
  rcases List.mem_cons.mp member with same | inside
  · exact other k v c tag same.symm
  · exact unwritten k v c tag inside

/-- A call of a transition moves its record along an edge of its event, and stops then. -/
def TransitionRule (ref : RunRef) (es : Log JobStore) (o : Op JobStore) : Prop :=
  Unwritten es ∧
    match o with
    | .put k v c => k = .record ref ∧ ∃ current next event tag, v = .run next ∧
        c = .ifMatch tag ∧ Issued (B := JobStore) (.record ref) (.run current) tag es ∧
        nextRunStatus current.status event = some next.status
    | .delete _ => False
    | _ => True

/-- The last event of a call that reports a transition is its write. -/
def TransitionEnd (ref : RunRef) : Post JobStore HubError TransitionResult
  | .ok ⟨run, true⟩, es => ∃ tag tag' rest, Unwritten rest ∧
      es = ⟨.put (.record ref) (.run run) (.ifMatch tag), .ok tag'⟩ :: rest
  | _, es => Unwritten es

/-- The same, for the mutation a transition makes. -/
def MutationEnd (ref : RunRef) :
    Post JobStore HubError (ObjectMutationOutcome JobRun)
  | .ok outcome, es => TransitionEnd ref (.ok ⟨outcome.value, outcome.written⟩) es
  | .error _, es => Unwritten es

theorem settles_next (unwritten : Unwritten es)
    (read : ⟨.get (.record ref), .found (.run current) tag⟩ ∈ es)
    (step : RunStep event current next) :
    settles (TransitionRule ref) Unwritten (MutationEnd ref) (.record ref) .run tag current
      (.ok (some next)) es := by
  obtain ⟨patch, status, edge, rfl⟩ := step
  exact ⟨⟨unwritten, rfl, current, _, event, tag, rfl, rfl, .inl read, edge⟩,
    fun tag' => ⟨tag, tag', es, unwritten, rfl⟩, unwritten.cons (by simp),
    unwritten.cons (by simp)⟩

theorem emits_applyTransition (unwritten : Unwritten es)
    (read : ⟨.get (.record ref), .found (.run current) tag⟩ ∈ es) : Prog.Emits (TransitionRule ref)
      (settles (TransitionRule ref) Unwritten (MutationEnd ref) (.record ref) .run tag current)
      (applyTransition event patching current) es := by
  unfold applyTransition
  split
  · exact unwritten
  · next status edge =>
    cases patching with
    | fixed patch => exact settles_next unwritten read ⟨patch, status, edge, rfl⟩
    | stamped patch =>
      refine ⟨⟨unwritten, trivial⟩, fun now => ?_⟩
      exact settles_next (unwritten.cons (by simp)) (.tail _ read) ⟨patch now, status, edge, rfl⟩

theorem emits_transition_once {call : TransitionCall} :
    Prog.Emits (TransitionRule call.ref) (TransitionEnd call.ref) call.start [] := by
  have mutates : Prog.Emits (TransitionRule call.ref) (MutationEnd call.ref)
      (mutateObjectWithOutcome (.record call.ref) parseJobRun
        (applyTransition call.event call.patching) .run (runNotFound call.ref.run) defaultRetries)
      [] := by
    refine emits_mutateObjectWithOutcome (I := Unwritten) parseJobRun_only
      (fun _ unwritten => ⟨unwritten, trivial⟩) (fun _ _ unwritten => unwritten.cons (by simp))
      (fun _ _ unwritten => unwritten) ?_ (by simp [Unwritten])
    exact fun _ _ _ unwritten => emits_applyTransition (unwritten.cons (by simp)) (.head _)
  rw [TransitionCall.start, transition, Prog.emits_bind]
  refine mutates.mono ?_
  intro out es result
  cases out with
  | error err => exact result
  | ok outcome => exact result

/-! ## Runs -/

section Runs

variable {a : Adapter JobStore} {seeds : Trace JobStore} {calls : Nat → TransitionCall}
  {c : Config JobStore HubError TransitionResult}

section

variable (run : History a seeds (fun i => (calls i).start) c)
include run

theorem transition_effect (moment : x :: past <:+ c.trace)
    (based : seeds <:+ past) (effect : x.effect (.record ref) = some new) :
    ∃ i current next event tag r, x.thread = some i ∧ (calls i).ref = ref ∧
      new = some (.run next) ∧ lookup (JobKey.record ref) past = some (.run current) ∧
      nextRunStatus current.status event = some next.status ∧
      x.toEv = ⟨.put (.record ref) (.run next) (.ifMatch tag), r⟩ ∧ x.applied = true := by
  obtain ⟨i, mine⟩ := run.thread_of_moment moment based
  obtain ⟨v, cond, r, rfl, shape, applied, _, key, current, next, event, tag, rfl, rfl, issued,
    edge⟩ := written_under (run.guarantee (fun i => emits_transition_once) moment mine) effect (·.2)
  cases key
  have found := ((run.accepted.at moment).matched shape applied).1
  rw [issued.value (run.accepted.suffix moment.past)] at found
  exact ⟨i, current, next, event, tag, r, mine, rfl, rfl, found, edge, shape, applied⟩

theorem terminal_lasts (based : seeds <:+ u) (later : u <:+ t)
    (inside : t <:+ c.trace) (terminal : isTerminalRunStatus ended.status = true)
    (stored : lookup (JobKey.record ref) u = some (.run ended)) :
    lookup (JobKey.record ref) t = some (.run ended) := by
  refine value_lasts (P := (· = some (JobVal.run ended))) later stored ?_
  intro x past new moment after held effect
  obtain ⟨_, current, next, event, _, _, _, _, _, found, edge, _⟩ :=
    transition_effect run (moment.trans inside) (based.trans after) effect
  rw [held] at found
  cases found
  rw [nextRunStatus_terminal terminal] at edge
  cases edge

theorem writer_reports {cond : Cond JobStore} (wrote : ⟨.put k v cond, .ok tag⟩ ∈ own i c.trace) :
    ∃ next, c.prog i = .ret ⟨next, true⟩ ∧ v = .run next := by
  have here := (emits_transition_once.runs (run.threads i)).1
  cases position : c.prog i with
  | op o k =>
    rw [position] at here
    exact absurd wrote (here.1.1 _ _ _ _)
  | raise err =>
    rw [position] at here
    exact absurd wrote (here _ _ _ _)
  | ret result =>
    rw [position] at here
    obtain ⟨next, written⟩ := result
    cases written with
    | false => exact absurd wrote (here _ _ _ _)
    | true =>
      obtain ⟨_, _, rest, unwritten, split⟩ := here
      rw [split] at wrote
      rcases List.mem_cons.mp wrote with same | inside
      · cases same
        exact ⟨next, rfl, rfl⟩
      · exact absurd inside (unwritten _ _ _ _)

theorem reporter_wrote (returned : c.prog i = .ret ⟨next, true⟩) :
    ∃ x past tag tag', x :: past <:+ c.trace ∧ x.thread = some i ∧
      x.toEv = ⟨.put (.record (calls i).ref) (.run next) (.ifMatch tag), .ok tag'⟩ ∧
      x.effect (.record (calls i).ref) = some (some (.run next)) := by
  have here := run.returned emits_transition_once returned
  obtain ⟨tag, tag', rest, _, split⟩ := here
  obtain ⟨x, past, moment, mine, _, shape, effect, _⟩ := own_written run.accepted ⟨[], split.symm⟩
  exact ⟨x, past, tag, tag', moment, mine, shape, effect⟩

theorem ends_at_one_moment (moment : x :: past <:+ c.trace) (moment' : y :: q <:+ c.trace)
    (based : seeds <:+ past) (based' : seeds <:+ q)
    (wrote : x.effect (.record ref) = some (some (.run left)))
    (wrote' : y.effect (.record ref) = some (some (.run right)))
    (ended : isTerminalRunStatus left.status = true)
    (ended' : isTerminalRunStatus right.status = true) : x :: past = y :: q := by
  have never {x y : Event JobStore} {past q : Trace JobStore} {left right : JobRun}
      (moment' : y :: q <:+ c.trace) (based : seeds <:+ past) (order : x :: past <:+ q)
      (wrote : x.effect (.record ref) = some (some (.run left)))
      (wrote' : y.effect (.record ref) = some (some (.run right)))
      (ended : isTerminalRunStatus left.status = true) : False := by
    have after := based.trans (List.suffix_cons x past)
    have held := terminal_lasts run after order moment'.past ended (lookup_of_effect wrote)
    obtain ⟨_, current, _, event, _, _, _, _, _, found, edge, _⟩ :=
      transition_effect run moment' (after.trans order) wrote'
    rw [held] at found
    cases found
    rw [nextRunStatus_terminal ended] at edge
    cases edge
  rcases moments_ordered moment moment' with same | order | order
  · exact same
  · exact (never moment' based order wrote wrote' ended).elim
  · exact (never moment based' order wrote' wrote ended').elim

theorem ending_reported (atomic : Along (fun past e => recordPutAtomic past e = true) c.trace)
    (stored : lookup (JobKey.record ref) seeds = some (.run first))
    (active : isTerminalRunStatus first.status = false)
    (terminal : isTerminalRunStatus ended.status = true)
    (now : lookup (JobKey.record ref) c.trace = some (.run ended)) :
    ∃ x past i next, x :: past <:+ c.trace ∧ seeds <:+ past ∧ x.thread = some i ∧
      (calls i).ref = ref ∧ x.effect (.record ref) = some (some (.run next)) ∧
      isTerminalRunStatus next.status = true ∧ c.prog i = .ret ⟨next, true⟩ := by
  obtain ⟨later, same, _⟩ := run.grown
  have start : seeds <:+ c.trace := same ▸ List.suffix_append later seeds
  obtain ⟨x, past, moment, based, before, result, held, finished⟩ := becomes
    (P := fun u => ∃ r, lookup (B := JobStore) (.record ref) u = some (.run r) ∧
      isTerminalRunStatus r.status = true) start
    (by
      rintro ⟨r, found, ends⟩
      rw [stored] at found
      cases found
      rw [active] at ends
      cases ends)
    ⟨ended, now, terminal⟩
  rcases found_cons held with kept | effect
  · exact absurd ⟨result, kept, finished⟩ before
  · obtain ⟨i, _, next, _, tag, r, mine, call, same, _, _, shape, applied⟩ :=
      transition_effect run moment based effect
    cases same
    have fine := atomic.at moment
    have responds := (run.accepted.at moment).responds_of shape
    have inside : x.toEv ∈ own i c.trace := mem_own (moment.subset (.head _)) mine
    cases r with
    | ok tag' =>
      rw [shape] at inside
      obtain ⟨_, returned, same⟩ := writer_reports run inside
      cases same
      exact ⟨x, past, i, _, moment, based, mine, call, effect, finished, returned⟩
    | lost =>
      rw [applied] at responds
      cases responds.2
    | fail =>
      rw [recordPutAtomic, shape] at fine
      rw [applied] at fine
      cases fine

end

end Runs

/-- The call reports that it moved the run to a terminal status. -/
def ReportsEnd (ref : RunRef) (calls : Nat → TransitionCall)
    (c : Config JobStore HubError TransitionResult) (i : Nat) : Prop :=
  (calls i).ref = ref ∧ ∃ run, c.prog i = .ret ⟨run, true⟩ ∧ isTerminalRunStatus run.status = true

/-- Any number of transition calls on any replicas, over a store whose conditional writes of run
records are atomic. Every change of a record follows an edge of the run state machine; a
terminal record is never replaced; and once a record that had not ended has ended, exactly one
call reports having moved it there, and no call does before. -/
theorem run_ends_once (a : Adapter JobStore) (seeds : Trace JobStore) (initial : Seeds a seeds)
    (calls : Nat → TransitionCall) (c : Config JobStore HubError TransitionResult)
    (reach : Reaches a ⟨seeds, fun i => (calls i).start⟩ c)
    (atomic : Along (fun past e => recordPutAtomic past e = true) c.trace) (ref : RunRef) :
    (∀ x past new, (x :: past) <:+ c.trace → seeds <:+ past → x.effect (.record ref) = some new →
      ∃ current next event, lookup (JobKey.record ref) past = some (.run current) ∧
        new = some (.run next) ∧ nextRunStatus current.status event = some next.status) ∧
    (∀ u run, seeds <:+ u → u <:+ c.trace → isTerminalRunStatus run.status = true →
      lookup (JobKey.record ref) u = some (.run run) →
      lookup (JobKey.record ref) c.trace = some (.run run)) ∧
    ∀ first run, lookup (JobKey.record ref) seeds = some (.run first) →
      isTerminalRunStatus first.status = false →
      lookup (JobKey.record ref) c.trace = some (.run run) →
      (isTerminalRunStatus run.status = true → ∃! i, ReportsEnd ref calls c i) ∧
      (isTerminalRunStatus run.status = false → ∀ i, ¬ ReportsEnd ref calls c i) := by
  have history := reach.history initial
  refine ⟨?_, ?_, ?_⟩
  · intro x past new moment based effect
    obtain ⟨_, current, next, event, _, _, _, _, same, found, edge, _⟩ :=
      transition_effect history moment based effect
    exact ⟨current, next, event, found, same, edge⟩
  · intro u run based inside terminal stored
    exact terminal_lasts history based inside List.suffix_rfl terminal stored
  · intro first run stored active now
    constructor
    · intro terminal
      obtain ⟨x, past, i, next, moment, based, mine, call, wrote, ended, returned⟩ :=
        ending_reported history atomic stored active terminal now
      refine ⟨i, ⟨call, next, returned, ended⟩, ?_⟩
      rintro j ⟨same, other, returned', ended'⟩
      obtain ⟨y, q, _, _, moment', theirs, _, wrote'⟩ := reporter_wrote history returned'
      rw [same] at wrote'
      cases ends_at_one_moment history moment moment' based
        (history.after_seeds initial moment' theirs) wrote wrote' ended ended'
      exact Option.some.inj (theirs.symm.trans mine)
    · rintro active' i ⟨same, other, returned, ended⟩
      obtain ⟨y, q, _, _, moment, mine, _, wrote⟩ := reporter_wrote history returned
      rw [same] at wrote
      have lasting := terminal_lasts history ((history.after_seeds initial moment mine).trans
        (List.suffix_cons y q)) moment List.suffix_rfl ended (lookup_of_effect wrote)
      rw [lasting] at now
      cases now
      rw [active'] at ended
      cases ended

namespace TransitionScenario

def adapter : Adapter JobStore := ⟨fun _ version => version, 100⟩

def ref : RunRef := ⟨⟨1, 2, 3⟩, 4⟩

def queued : JobRun :=
  { ref := ref, status := .queued, trigger := .manual, timeoutSeconds := 1, queuedAt := 0 }

/-- A user cancels a run that fails. -/
def calls : Nat → TransitionCall
  | 0 => ⟨ref, .cancel, .stamped fun now => { finishedAt := some now, cancelledBy := some "ada" }⟩
  | _ => ⟨ref, .fail, .fixed {}⟩

/-- Both read the queued run; the cancellation is written first. -/
def schedule : List (Move JobStore) :=
  [⟨0, 1, .ok⟩, ⟨1, 1, .ok⟩] ++ turns 0 2 [.ok, .ok] ++ turns 1 3 [.ok, .ok]

def storedStatus (t : Trace JobStore) : Option RunStatus :=
  match lookup (JobKey.record ref) t with
  | some (.run run) => some run.status
  | _ => none

theorem lookup_of_storedStatus (stored : storedStatus t = some status) :
    ∃ run, lookup (JobKey.record ref) t = some (.run run) ∧ run.status = status := by
  unfold storedStatus at stored
  split at stored
  · next run found => exact ⟨run, found, Option.some.inj stored⟩
  · cases stored

def cancelled (c : Config JobStore HubError TransitionResult) : Bool :=
  storedStatus c.trace = some .cancelled ∧
    Along (fun past e => recordPutAtomic past e = true) c.trace ∧
    c.trace.any fun e => refused e.toEv
where
  refused : Ev JobStore → Bool
    | ⟨.put _ _ _, .lost⟩ => true
    | _ => false

end TransitionScenario

open TransitionScenario in
/-- The failure loses its write, and one call reports the end. -/
theorem run_ends_once_race : ∃ c, Reaches adapter
        ⟨seed adapter [(.record ref, .run queued)], fun i => (calls i).start⟩ c ∧
      cancelled c = true ∧ ∃! i, ReportsEnd ref calls c i := by
  obtain ⟨c, reach, observed⟩ := Config.play_any adapter
    ⟨seed adapter [(.record ref, .run queued)], fun i => (calls i).start⟩ schedule
    (cancelled ·) (by decide)
  obtain ⟨status, atomic, _⟩ := of_decide_eq_true observed
  obtain ⟨run, now, ended⟩ := lookup_of_storedStatus status
  refine ⟨c, reach, observed, ?_⟩
  exact ((run_ends_once adapter _ (seeds_seed _ _) calls c reach atomic ref).2.2 queued run rfl rfl
    now).1 (by rw [ended]; rfl)

end MarimoHub.Guarantees
