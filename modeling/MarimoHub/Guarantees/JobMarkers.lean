import MarimoHub.Guarantees.JobRecords

/-!
# Every run that has not ended has a marker

The marker is written before the record and dropped by a finalization or as stale. A
finalization saw the run ended, which lasts. A pruner decided from older reads, and an enqueue
that repairs a run goes on with the marker a crashed one left, whose age says nothing about the
record now on its way: `staleDropSettled` is what a drop has to find for the invariant to
hold, and without it the invariant fails.
-/

namespace MarimoHub.Guarantees

open ObjectStore Source

/-! ## Conditions on a run -/

/-- An enqueue writes its record within the grace time. -/
def enqueueInTime (_ : Trace JobStore) (e : Event JobStore) : Bool :=
  match createdRun e with
  | some run => e.time ≤ run.queuedAt + danglingMarkerGraceMs
  | none => true

/-- When the marker tried by an event was made. -/
def triedMarker (ref : RunRef) (e : Event JobStore) : Option Nat :=
  match e.op with
  | .put (.marker key) (.marker marker) _ => if key = ref then some marker.createdAt else none
  | _ => none

/-- Whether the client's last event dropped the history entry of the run. -/
def afterIndexDrop (ref : RunRef) : Log JobStore → Bool
  | ⟨.delete (.runIndex key), _⟩ :: _ => key = ref
  | _ => false

variable (c : Config JobStore HubError Unit) (past : Trace JobStore) (e : Event JobStore)

/-- The marker a pruner drops as stale. -/
def staleDrop : Option RunRef :=
  match e.op, e.thread with
  | .delete (.marker ref), some i =>
    if e.applied ∧ afterIndexDrop ref (own i past) then some ref else none
  | _, _ => none

/-- A stale marker is dropped while the run has no record, and every enqueue that tried the
marker did so longer than the grace time ago. -/
def staleDropSettled : Bool :=
  match staleDrop past e with
  | some ref =>
    (lookup (JobKey.record ref) past).isNone && past.all fun g =>
      match triedMarker ref g with
      | some createdAt => createdAt + danglingMarkerGraceMs < e.time
      | none => true
  | none => true

/-- The run whose marker was refused. -/
def refusedMarker : Ev JobStore → Option RunRef
  | ⟨.put (.marker ref) _ _, .lost⟩ => some ref
  | _ => none

/-- A marker that is refused is there. -/
def refusalFaithful : Bool :=
  match refusedMarker e.toEv with
  | some ref => (lookup (JobKey.marker ref) past).isSome
  | none => true

/-! ## Markers stay -/

variable {x : Event JobStore} {past : Trace JobStore} {ref : RunRef} {run : JobRun}

section Histories

theorem JobHistory.marker_removed (history : JobHistory a t) (moment : x :: past <:+ t)
    (removed : x.effect (.marker ref) = some none) :
    (∃ run, lookup (JobKey.record ref) past = some (.run run) ∧
        isTerminalRunStatus run.status = true) ∨ staleDrop past x = some ref := by
  obtain ⟨i, mine, rule⟩ := history.ruled x past moment
  obtain ⟨r, shape, applied⟩ := effect_remove removed
  rw [congrArg Ev.op shape] at rule
  have before := history.suffix moment.past
  rcases rule with saw | saw | ⟨r', rest, last⟩
  · exact .inl (before.ended_of_saw (.inl saw))
  · exact .inl (before.ended_of_saw (.inr saw))
  · refine .inr ?_
    simp [staleDrop, congrArg Ev.op shape, mine, applied, last, afterIndexDrop]

theorem staleDrop_settled (stale : staleDrop past x = some ref)
    (settled : staleDropSettled past x = true) : lookup (JobKey.record ref) past = none ∧
      ∀ g ∈ past, ∀ createdAt, triedMarker ref g = some createdAt →
        createdAt + danglingMarkerGraceMs < x.time := by
  rw [staleDropSettled, stale] at settled
  obtain ⟨absent, old⟩ := (Bool.and_eq_true _ _).mp settled
  refine ⟨Option.isNone_iff_eq_none.mp absent, fun g member createdAt tried => ?_⟩
  have fine := List.all_eq_true.mp old g member
  rw [tried] at fine
  exact of_decide_eq_true fine

/-- Right after its marker was tried, a run has one. -/
theorem JobHistory.marker_after_try (history : JobHistory a t) (moment : g :: q <:+ t)
    (shape : g.toEv = ⟨.put (.marker ref) (.marker marker) .ifAbsent, r⟩) (answered : r ≠ .fail)
    (faithful : refusalFaithful q g = true) :
    lookup (JobKey.marker ref) (g :: q) ≠ none := by
  have responds := (history.accepted.at moment).responds_of shape
  cases r with
  | ok tag =>
    have wrote : g.effect (.marker ref) = some (some (.marker marker)) := by
      simp [effect_put shape, responds.2.2]
    rw [lookup_of_effect wrote]
    simp
  | lost =>
    rw [refusalFaithful, shape] at faithful
    rw [lookup_of_no_effect]
    · exact Option.isSome_iff_ne_none.mp faithful
    · simp [effect_put shape, responds.2]
  | fail => exact (answered rfl).elim

theorem JobHistory.marker_at_creation (history : JobHistory a t)
    (inTime : Along (fun past e => enqueueInTime past e = true) t)
    (settled : Along (fun past e => staleDropSettled past e = true) t)
    (faithful : Along (fun past e => refusalFaithful past e = true) t)
    (moment : x :: past <:+ t) (made : CreatesRun (own i past) run.ref run)
    (created : CreatedAt run x past) : lookup (JobKey.marker run.ref) past ≠ none := by
  have below := moment.past
  obtain ⟨op, applied, absent⟩ := created
  have soon : x.time ≤ run.queuedAt + danglingMarkerGraceMs := by
    have fine := inTime.at moment
    rw [enqueueInTime, createdRun, op] at fine
    simpa [applied] using fine
  obtain ⟨marker, r, member, age, answered⟩ := made.marked
  obtain ⟨g, q, tried, _, shape⟩ := exists_own_mem member
  have start := history.marker_after_try (tried.trans below) shape answered
    (faithful.at (tried.trans below))
  refine value_lasts (P := (· ≠ none)) tried start ?_
  intro y u new between after held effect
  cases new with
  | some v => simp
  | none =>
    -- a removal in between is excluded: there is no record yet, and the attempt is recent
    rcases history.marker_removed (between.trans below) effect with
      ⟨ended, stored, _⟩ | stale
    · refine absurd absent ((history.suffix below).record_lasts between.past ?_)
      rw [stored]
      simp
    · obtain ⟨_, old⟩ := staleDrop_settled stale (settled.at (between.trans below))
      have late := old g (after.subset (.head _)) marker.createdAt
        (by simp [triedMarker, congrArg Ev.op shape])
      have order := time_le history.accepted between moment
      omega

end Histories

/-- Every interleaving of triggered runs, transitions, ticks (which repair, finalize and prune),
executions and marker pruning, in which every enqueue writes its record within the grace time and
every refusal of a marker is faithful. If each stale marker is dropped only while its run has no
record and no enqueue of the run began within the grace time, then every stored record that has
not ended has a marker, in every state. -/
theorem active_run_has_marker (a : Adapter JobStore) (calls : Nat → SchedulerCall)
    (c : Config JobStore HubError Unit) (reach : Reaches a ⟨[], fun i => (calls i).run⟩ c)
    (inTime : Along (fun past e => enqueueInTime past e = true) c.trace)
    (faithful : Along (fun past e => refusalFaithful past e = true) c.trace)
    (settled : Along (fun past e => staleDropSettled past e = true) c.trace)
    (ref : RunRef) (run : JobRun)
    (stored : lookup (JobKey.record ref) c.trace = some (.run run))
    (active : isTerminalRunStatus run.status = false) :
    lookup (JobKey.marker ref) c.trace ≠ none := by
  have history := JobHistory.of_reaches reach
  generalize c.trace = t at *
  induction t generalizing run with
  | nil => cases stored
  | cons x past ih =>
    have before := history.suffix (List.suffix_cons x past)
    -- the marker was there before the event, and the event kept it
    have standing : lookup (JobKey.marker ref) past ≠ none := by
      rcases found_cons stored with kept | effect
      · exact ih run active inTime.2 faithful.2 settled.2 kept before
      · rcases history.at_record List.suffix_rfl effect with
          ⟨first, i, shape, _, made, created⟩ | ⟨current, event, _, _, shape, held, edge⟩
        · have key := made.ownKey
          subst key
          exact history.marker_at_creation inTime settled faithful List.suffix_rfl made created
        · refine ih current ?_ inTime.2 faithful.2 settled.2 held before
          cases ended : isTerminalRunStatus current.status with
          | false => rfl
          | true =>
            rw [nextRunStatus_terminal ended] at edge
            cases edge
    cases effect : x.effect (.marker ref) with
    | none => rwa [lookup_of_no_effect effect]
    | some new =>
      rw [lookup_of_effect effect]
      cases new with
      | some v => simp
      | none =>
        obtain ⟨r, shape, _⟩ := effect_remove effect
        have kept : x.effect (.record ref) = none := by simp [effect_delete shape]
        rw [lookup_of_no_effect kept] at stored
        rcases history.marker_removed List.suffix_rfl effect with ⟨ended, held, terminal⟩ | stale
        · rw [held] at stored
          cases stored
          rw [terminal] at active
          cases active
        · obtain ⟨absent, _⟩ := staleDrop_settled stale settled.1
          rw [absent] at stored
          cases stored

namespace MarkerScenario

def adapter : Adapter JobStore := ⟨fun _ version => version, 100⟩

def job : JobRef := ⟨1, 2, 3⟩

/-- A job that is due once, at instant 0. -/
def definition : JobDefinition where
  enabled := true
  schedule := some (some fun cursor => if cursor < 0 then some 0 else none)
  retry := none
  timeoutSeconds := none
  forbidConcurrency := false
  notifyFailure := false
  notifySuccess := false

def config : JobSchedulerConfig where
  catchupWindowMs := 700000
  maxConcurrentRuns := 1
  maxConcurrentRunsPerProject := 1
  defaultTimeoutMs := 1000
  maxTimeoutMs := 1000

/-- A tick that crashes, a pruner, and a tick that repairs. -/
def calls : Nat → SchedulerCall
  | 1 => .pruneStaleMarkers (.single _)
  | _ => .tick config ⟨.single _, .single _⟩

/-- The first steps of firing the job. -/
def fires (i time id : Nat) : List (Move JobStore) :=
  turns i time [.answer (.takeMutation job) (.ok true), .answer (.isDeleting job) (.ok false),
    .answer (.loadJob job) (.ok (some definition)), .id id]

/-- The first tick claims the occurrence for run 100, puts its marker and crashes. -/
def crashed : List (Move JobStore) :=
  turns (B := JobStore) 0 0 [.ok, .answer .indexedJobs (.ok [job]), .ok] ++ fires 0 0 100 ++
    turns 0 0 [.ok, .ok, .id 101, .ok]

/-- The pruner sees the marker past its grace time and no record, and drops the history entry. -/
def prunes : List (Move JobStore) := List.replicate 6 ⟨1, 600001, .ok⟩

/-- The second tick finds the claim without a record and writes the run. -/
def repairs (seen : Nat) : List (Move JobStore) :=
  [⟨2, 600002, .ok⟩, ⟨2, 600002, .answer .indexedJobs (.ok [job])⟩] ++
    List.replicate seen ⟨2, 600002, .ok⟩ ++ fires 2 600002 102 ++
    List.replicate 4 ⟨2, 600002, .ok⟩ ++ [⟨2, 600002, .id 103⟩] ++
    List.replicate 3 ⟨2, 600002, .ok⟩

def storedRun (t : Trace JobStore) : Option JobRun :=
  match lookup (JobKey.record ⟨job, 100⟩) t with
  | some (.run run) => some run
  | _ => none

theorem lookup_of_storedRun (stored : storedRun t = some run) :
    lookup (JobKey.record ⟨job, 100⟩) t = some (.run run) := by
  unfold storedRun at stored
  split at stored
  · next found =>
    cases stored
    exact found
  · cases stored

/-- Run 100 is queued, and its enqueue and the refusals were as assumed. -/
def queuedInTime : Bool :=
  (storedRun c.trace).map JobRun.status = some .queued ∧
    Along (fun past e => enqueueInTime past e = true) c.trace ∧
    Along (fun past e => refusalFaithful past e = true) c.trace

def unmarked : Bool :=
  queuedInTime c ∧ lookup (JobKey.marker ⟨job, 100⟩) c.trace = none

def settledDrop : Bool :=
  queuedInTime c ∧ Along (fun past e => staleDropSettled past e = true) c.trace ∧
    c.trace.any fun e => match e.op with
      | .delete (.marker _) => e.applied
      | _ => false

end MarkerScenario

open MarkerScenario in
/-- The pruner drops the marker after the repair has gone on with it and written the record:
run 100 is queued and no tick will find it. -/
theorem active_run_loses_marker : ∃ c run, Reaches adapter ⟨[], fun i => (calls i).run⟩ c ∧
      Along (fun past e => enqueueInTime past e = true) c.trace ∧
      Along (fun past e => refusalFaithful past e = true) c.trace ∧
      lookup (JobKey.record ⟨job, 100⟩) c.trace = some (.run run) ∧
      isTerminalRunStatus run.status = false ∧
      lookup (JobKey.marker ⟨job, 100⟩) c.trace = none := by
  obtain ⟨c, reach, observed⟩ := Config.play_any adapter ⟨[], fun i => (calls i).run⟩
    (crashed ++ prunes ++ repairs 3 ++ [⟨1, 600003, .ok⟩]) (unmarked ·) (by decide)
  obtain ⟨queued, absent⟩ := of_decide_eq_true observed
  obtain ⟨status, inTime, faithful⟩ := of_decide_eq_true queued
  obtain ⟨run, stored, same⟩ := Option.map_eq_some_iff.mp status
  exact ⟨c, run, reach, inTime, faithful, lookup_of_storedRun stored, by rw [same]; rfl, absent⟩

open MarkerScenario in
/-- When the pruner is done before the repair starts, the repair puts a marker of its own. -/
theorem active_run_has_marker_repaired :
    ∃ c, Reaches adapter ⟨[], fun i => (calls i).run⟩ c ∧ settledDrop c = true ∧
      lookup (JobKey.marker ⟨job, 100⟩) c.trace ≠ none := by
  obtain ⟨c, reach, observed⟩ := Config.play_any adapter ⟨[], fun i => (calls i).run⟩
    (crashed ++ prunes ++ [⟨1, 600001, .ok⟩] ++ repairs 1) (settledDrop ·) (by decide)
  obtain ⟨queued, settled, _⟩ := of_decide_eq_true observed
  obtain ⟨status, inTime, faithful⟩ := of_decide_eq_true queued
  obtain ⟨run, stored, same⟩ := Option.map_eq_some_iff.mp status
  exact ⟨c, reach, observed, active_run_has_marker adapter calls c reach inTime faithful
    settled _ run (lookup_of_storedRun stored) (by rw [same]; rfl)⟩

end MarimoHub.Guarantees
