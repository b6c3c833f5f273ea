import MarimoHub.Guarantees.JobRule

/-!
# Run records in a run of the scheduler

What `JobRule` says about the whole trace. A record is created once and never deleted; later
values keep its key and its attempt number, and a record that has ended does not change. A
record that a claim asked to skip was created that way, since run identifiers are drawn for
one purpose (`DrawnFor.unique`).
-/

namespace MarimoHub.Guarantees

open ObjectStore Source

/-- A trace of clients that keep the rule, over a store that held nothing before. -/
structure JobHistory (a : Adapter JobStore) (t : Trace JobStore) : Prop where
  accepted : Along (Accepts a) t
  ruled : ∀ x past, (x :: past) <:+ t → ∃ i, x.thread = some i ∧ JobRule none (own i past) x.op

theorem JobHistory.of_reaches {calls : Nat → SchedulerCall}
    (reach : Reaches a ⟨[], fun i => (calls i).run⟩ c) : JobHistory a c.trace := by
  have run := reach.history (Seeds.empty a)
  refine ⟨run.accepted, fun x past moment => ?_⟩
  obtain ⟨i, mine⟩ := run.thread_of_moment moment (List.nil_suffix)
  exact ⟨i, mine, run.guarantee (fun i => schedulerCall_keeps_rule) moment mine⟩

theorem runRef_eq {left right : RunRef} (jobs : left.toJobRef = right.toJobRef)
    (runs : left.run = right.run) : left = right := by
  cases left
  cases right
  simp_all

/-! ## What writes a record -/

/-- The record `ref` as `JobRule` lets clients write it. -/
def runWriter (ref : RunRef) : Writer JobStore where
  creates es v c := c = .ifAbsent ∧ ∃ run, v = .run run ∧ CreatesRun es ref run
  changes _ old v := ∃ current event patch status, old = .run current ∧
    nextRunStatus current.status event = some status ∧ v = .run (current.patched patch status)
  removes _ := False

theorem JobRule.allows (rule : JobRule none es o)
    (ref : RunRef) : (runWriter ref).Allows (.record ref) es o := by
  cases o with
  | put key v c =>
    rintro rfl
    cases c with
    | any => exact rule.elim
    | ifAbsent => exact ⟨rfl, rule⟩
    | ifMatch tag =>
      obtain ⟨run, rfl, current, event, patch, status, issued, edge, rfl⟩ := rule
      exact ⟨_, issued, current, event, patch, status, rfl, edge, rfl⟩
  | delete key =>
    rintro rfl
    exact rule rfl
  | _ => trivial

/-- The run whose record is created by this event. -/
def createdRun (e : Event JobStore) : Option JobRun :=
  match e.op with
  | .put (.record _) (.run run) .ifAbsent => if e.applied then some run else none
  | _ => none

/-- Every run that was created, newest first. -/
def createdRuns (t : Trace JobStore) : List JobRun := t.filterMap createdRun

/-- The run was created at this event. -/
def CreatedAt (run : JobRun) (x : Event JobStore) (past : Trace JobStore) : Prop :=
  x.op = .put (.record run.ref) (.run run) .ifAbsent ∧ x.applied = true ∧
    lookup (JobKey.record run.ref) past = none

variable {run : JobRun} {x : Event JobStore} {past u : Trace JobStore}

theorem CreatedAt.stored (created : CreatedAt run x past) :
    lookup (JobKey.record run.ref) (x :: past) = some (.run run) := by
  refine lookup_of_effect ?_
  simp [Event.effect, created.1, created.2.1]

section Histories

variable {a : Adapter JobStore} {t : Trace JobStore}

section

variable (history : JobHistory a t)
include history

theorem JobHistory.suffix (earlier : past <:+ t) : JobHistory a past :=
  ⟨history.accepted.suffix earlier, fun x q moment => history.ruled x q (moment.trans earlier)⟩

/-- An event that changes a record creates it, or moves it along an edge. -/
theorem JobHistory.at_record (moment : x :: past <:+ t)
    (effect : x.effect (.record ref) = some new) :
    (∃ run i, new = some (.run run) ∧ x.thread = some i ∧ CreatesRun (own i past) ref run ∧
        CreatedAt run x past) ∨
      ∃ current event patch status, new = some (.run (current.patched patch status)) ∧
        lookup (JobKey.record ref) past = some (.run current) ∧
        nextRunStatus current.status event = some status := by
  obtain ⟨i, mine, rule⟩ := history.ruled x past moment
  have changed := Writer.at_effect (history.accepted.suffix moment) (rule.allows ref) effect
  generalize shape : x.op = o at changed
  cases changed with
  | created v c creates holds =>
    obtain ⟨rfl, run, rfl, made⟩ := creates
    have applied : x.applied = true := by
      obtain ⟨_, _, _, applied⟩ := effect_write effect
      exact applied
    refine .inl ⟨run, i, rfl, mine, made, ?_, applied, ?_⟩
    · rw [shape, made.ownKey]
    · rw [made.ownKey]
      exact holds
  | changed old v tag found changes =>
    obtain ⟨current, event, patch, status, rfl, edge, rfl⟩ := changes
    exact .inr ⟨current, event, patch, status, rfl, found, edge⟩
  | removed removes => exact removes.elim

/-- A stored record goes back to its creation, with the key and the attempt unchanged; one that
had ended when it was created is still the same. -/
theorem JobHistory.origin_of_record (found : lookup (JobKey.record ref) t = some v) :
    ∃ run first x past i, v = .run run ∧ run.ref = ref ∧ first.ref = ref ∧
      run.attempt = first.attempt ∧ (isTerminalRunStatus first.status = true → run = first) ∧
      x :: past <:+ t ∧ x.thread = some i ∧ CreatesRun (own i past) ref first ∧
      CreatedAt first x past := by
  induction t generalizing v with
  | nil => cases found
  | cons x past ih =>
    have before := history.suffix (List.suffix_cons x past)
    rcases found_cons found with kept | effect
    · obtain ⟨run, first, y, q, i, same, key, firstKey, attempt, ended, moment, rest⟩ :=
        ih before kept
      exact ⟨run, first, y, q, i, same, key, firstKey, attempt, ended, moment.cons, rest⟩
    · rcases history.at_record List.suffix_rfl effect with
        ⟨run, i, shape, mine, made, created⟩ | ⟨current, event, patch, status, shape, held, edge⟩
      · cases shape
        exact ⟨run, run, x, past, i, rfl, made.ownKey, made.ownKey, rfl, fun _ => rfl,
          List.suffix_rfl, mine, made, created⟩
      · cases shape
        obtain ⟨run, first, y, q, i, same, key, firstKey, attempt, ended, moment, rest⟩ :=
          ih before held
        cases same
        refine ⟨_, first, y, q, i, rfl, key, firstKey, attempt, ?_, moment.cons, rest⟩
        intro terminal
        -- no edge leaves the status it was created with
        rw [ended terminal, nextRunStatus_terminal terminal] at edge
        cases edge

theorem JobHistory.record_lasts (earlier : past <:+ t)
    (stored : lookup (JobKey.record ref) past ≠ none) :
    lookup (JobKey.record ref) t ≠ none := by
  refine value_lasts (P := (· ≠ none)) earlier stored ?_
  intro x q new moment _ held effect
  rcases history.at_record moment effect with ⟨run, _, rfl, _⟩ | ⟨_, _, _, _, rfl, _⟩ <;> simp

theorem JobHistory.ended_lasts (earlier : past <:+ t)
    (ended : isTerminalRunStatus run.status = true)
    (stored : lookup (JobKey.record ref) past = some (.run run)) :
    lookup (JobKey.record ref) t = some (.run run) := by
  refine value_lasts (P := (· = some (JobVal.run run))) earlier stored ?_
  intro x q new moment _ held effect
  rcases history.at_record moment effect with
    ⟨first, _, _, _, made, _, _, absent⟩ | ⟨current, event, _, _, _, found, edge⟩
  · rw [made.ownKey, held] at absent
    cases absent
  · rw [held] at found
    cases found
    rw [nextRunStatus_terminal ended] at edge
    cases edge

/-- What a client was given as a record was stored under the record's own key. -/
theorem JobHistory.recorded_held (recorded : Recorded run (own i t)) :
    ∃ u, u <:+ t ∧ lookup (JobKey.record run.ref) u = some (.run run) := by
  obtain ⟨ref, tag, issued⟩ := recorded
  obtain ⟨u, inside, held⟩ := issued.held history.accepted
  obtain ⟨run', _, _, _, _, same, key, _⟩ := (history.suffix inside).origin_of_record held
  cases same
  exact ⟨u, inside, key ▸ held⟩

theorem JobHistory.created_at (created : run ∈ createdRuns t) :
    ∃ x past i, x :: past <:+ t ∧ CreatedAt run x past ∧ CreatesRun (own i past) run.ref run := by
  obtain ⟨x, member, made⟩ := List.mem_filterMap.mp created
  obtain ⟨past, moment⟩ := exists_past member
  obtain ⟨i, _, rule⟩ := history.ruled x past moment
  unfold createdRun at made
  split at made
  · next ref found shape =>
    split at made
    · next applied =>
      cases made
      rw [shape] at rule
      obtain ⟨_, same, creates⟩ := rule
      cases same
      have key := creates.ownKey
      subst key
      refine ⟨x, past, i, moment, ⟨shape, applied, ?_⟩, creates⟩
      have wrote : x.effect (.record run.ref) = some (some (.run run)) := by
        simp [Event.effect, shape, applied]
      obtain ⟨c, r, putShape, done⟩ := effect_write wrote
      have op : x.op = .put (.record run.ref) (.run run) c := congrArg Ev.op putShape
      rw [shape] at op
      cases op
      exact (history.accepted.at moment).created putShape done
    · cases made
  · cases made

theorem JobHistory.created_once
    (moment : x :: past <:+ t) (moment' : x' :: past' <:+ t) (created : CreatedAt run x past)
    (created' : CreatedAt run' x' past') (same : run.ref = run'.ref) :
    x :: past = x' :: past' ∧ run = run' := by
  have lasting {run run' : JobRun} {x x' : Event JobStore} {past past' : Trace JobStore}
      (moment' : x' :: past' <:+ t) (created : CreatedAt run x past)
      (created' : CreatedAt run' x' past') (same : run.ref = run'.ref)
      (order : x :: past <:+ past') : False := by
    refine (history.suffix moment'.past).record_lasts order ?_ created'.2.2
    rw [← same, created.stored]
    simp
  rcases moments_ordered moment moment' with equal | order | order
  · refine ⟨equal, ?_⟩
    cases equal
    have op := created.1.symm.trans created'.1
    rw [Op.put.injEq, JobVal.run.injEq] at op
    exact op.2.1
  · exact (lasting moment' created created' same order).elim
  · exact (lasting moment created' created same.symm order).elim

/-! ## Identifiers -/

theorem JobHistory.put_drawn (inside : u <:+ t) (held : lookup (B := JobStore) key u = some v)
    (draws : ∀ es c, JobRule none es (.put key v c) →
      c = .ifAbsent ∧ ∃ rest, es = ⟨.mint, n⟩ :: rest) :
    ∃ i r, DrawnFor (B := JobStore) n ⟨.put key v .ifAbsent, r⟩ (own i t) := by
  obtain ⟨e, q, moment, wrote, _⟩ := lookup_moment held
  obtain ⟨c, r, shape, _⟩ := effect_write wrote
  obtain ⟨i, mine, rule⟩ := history.ruled e q (moment.trans inside)
  rw [congrArg Ev.op shape] at rule
  obtain ⟨rfl, rest, drawn⟩ := draws (own i q) c rule
  have grown := own_suffix (i := i) (moment.trans inside)
  rw [own_cons mine, shape, drawn] at grown
  exact ⟨i, r, DrawnFor.grow ⟨[], rest, rfl⟩ grown⟩

theorem JobHistory.claim_drawn (inside : u <:+ t)
    (held : lookup (JobKey.occurrence job minute) u = some (.occurrence occurrence)) :
    ∃ i r, DrawnFor (B := JobStore) occurrence.run
      ⟨.put (.occurrence job minute) (.occurrence occurrence) .ifAbsent, r⟩ (own i t) := by
  refine history.put_drawn inside held ?_
  rintro es c ⟨rfl, _, rest, ⟨⟩, drawn⟩
  exact ⟨rfl, rest, drawn⟩

theorem JobHistory.marker_drawn (inside : u <:+ t)
    (held : lookup (JobKey.marker ref) u = some (.marker marker)) :
    ∃ i r, DrawnFor (B := JobStore) marker.continuation
      ⟨.put (.marker ref) (.marker marker) .ifAbsent, r⟩ (own i t) := by
  refine history.put_drawn inside held ?_
  rintro es c ⟨rfl, _, rest, ⟨⟩, _, drawn⟩
  exact ⟨rfl, rest, drawn⟩

theorem JobHistory.skip_created (inside : u <:+ t)
    (held : lookup (JobKey.occurrence job minute) u = some (.occurrence occurrence))
    (skips : occurrence.outcome = some .skip) (named : occurrence.run = first.ref.run)
    (earlier : past <:+ t) (reason : Origin (own i past) first) : first.status = .skipped := by
  obtain ⟨j, r, drawn⟩ := history.claim_drawn inside held
  rw [named] at drawn
  cases reason with
  | manual now _ _ _ _ other =>
    have same := drawn.unique history.accepted (other.grow (own_suffix earlier))
    cases same
  | scheduled instant occurrence' tag status _ _ _ named' issued =>
    obtain ⟨u', inside', held'⟩ := issued.held (history.suffix earlier).accepted
    obtain ⟨j', r', drawn'⟩ := history.claim_drawn (inside'.trans earlier) held'
    rw [named'] at drawn'
    have same := drawn.unique history.accepted drawn'
    cases same
    rw [status, skips]
    rfl
  | retry finished marker tag later before job _ _ _ _ named' split _ _ _ =>
    obtain ⟨g, q, moment, _, shape, _⟩ := exists_own (i := i) ⟨later, split.symm⟩
    have read := (((history.suffix earlier).accepted.at moment).tagged shape).1
    obtain ⟨j', r', drawn'⟩ := history.marker_drawn (moment.past.trans earlier) read
    rw [named'] at drawn'
    have same := drawn.unique history.accepted drawn'
    cases same

/-- A finalization drops a marker only after the run has ended. -/
theorem JobHistory.ended_of_saw (saw : SawEnd ref (own i t) ∨ SawSkip ref (own i t)) :
    ∃ run, lookup (JobKey.record ref) t = some (.run run) ∧
      isTerminalRunStatus run.status = true := by
  rcases saw with ⟨run, rfl, ended, recorded⟩ |
    ⟨claimed, run, minute, occurrence, tag, tag', rfl, claim, named, skips, issued⟩
  · obtain ⟨u, inside, held⟩ := history.recorded_held recorded
    exact ⟨run, history.ended_lasts inside ended held, ended⟩
  · obtain ⟨u, inside, held⟩ := issued.held history.accepted
    obtain ⟨w, within, standing⟩ := claim.held history.accepted
    obtain ⟨_, first, x, past, j, same, key, firstKey, _, ended, moment, mine, made, _⟩ :=
      (history.suffix inside).origin_of_record held
    cases same
    have status := history.skip_created within standing skips (by rw [named, firstKey])
      (moment.past.trans inside) made.reason
    have terminal : isTerminalRunStatus first.status = true := by
      rw [status]
      rfl
    have same := ended terminal
    subst same
    exact ⟨run, history.ended_lasts inside terminal (key ▸ held), terminal⟩

end

end Histories

end MarimoHub.Guarantees
