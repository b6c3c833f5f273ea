import Mathlib.Data.List.Nodup
import Mathlib.Data.List.Range
import MarimoHub.Guarantees.JobRecords

/-!
# Retry chains

A finalization enqueues the retry of a failed run under the continuation its marker names. It
may be replayed as long as the marker stands, so a run has one retry as long as its marker is
one and the same. An enqueue that is replayed after the run's marker is gone puts a new marker
with a new continuation, although the record exists: `markerBeforeRecord` excludes that, and
without it an attempt can be made twice.
-/

namespace MarimoHub.Guarantees

open ObjectStore Source

/-- A marker takes effect only while its run has no record. -/
def markerBeforeRecord (past : Trace JobStore) (e : Event JobStore) : Bool :=
  match e.op with
  | .put (.marker ref) _ _ =>
    e.applied = false ∨ lookup (JobKey.record ref) past = none
  | _ => true

/-- The run records that retry `root`, and retry those. -/
inductive RetryChain (t : Trace JobStore) (root : JobRun) : JobRun → Prop where
  | root : root ∈ createdRuns t → RetryChain t root root
  | retry (parent child : JobRun) : RetryChain t root parent → child ∈ createdRuns t →
      child.ref.toJobRef = parent.ref.toJobRef → child.retryOf = some parent.ref.run →
      RetryChain t root child

variable {root run : JobRun}

variable {t : Trace JobStore}

theorem RetryChain.created (chain : RetryChain t root run) : run ∈ createdRuns t := by
  cases chain with
  | root created => exact created
  | retry _ _ _ created _ _ => exact created

theorem RetryChain.sameJob (chain : RetryChain t root run) :
    run.ref.toJobRef = root.ref.toJobRef := by
  induction chain with
  | root _ => rfl
  | retry _ _ _ _ same _ ih => exact same.trans ih

/-- The retries allowed by an answer about the job. -/
def allowedRetries (job : JobRef) : Ev JobStore → Nat
  | ⟨.ask (.loadJob asked), .ok (some definition)⟩ =>
    if asked = job then (definition.retry.map Prod.fst).getD 0 else 0
  | _ => 0

/-- Every answer about the job allows at most `maxRetries` retries. -/
def AllowsRetries (job : JobRef) (maxRetries : Nat) (t : Trace JobStore) : Prop :=
  ∀ e ∈ t, allowedRetries job e.toEv ≤ maxRetries

theorem retryAllowed_bound (allowed : (retryAllowed job finished).isSome = true) :
    ∃ most backoff, job.retry = some (most, backoff) ∧ finished.attempt ≤ most := by
  unfold retryAllowed at allowed
  split at allowed
  · next most backoff policy =>
    split at allowed
    · next fine => exact ⟨most, backoff, policy, fine.2⟩
    · cases allowed
  · cases allowed

section Histories

variable {a : Adapter JobStore} {t : Trace JobStore}

/-- What the enqueue of a retry was based on. -/
theorem JobHistory.retry_based (history : JobHistory a t)
    (created : child ∈ createdRuns t) (parentCreated : parent ∈ createdRuns t)
    (same : child.ref.toJobRef = parent.ref.toJobRef)
    (retries : child.retryOf = some parent.ref.run) :
    ∃ x past q, ∃ marker : JobRunMarker, x :: past <:+ t ∧ CreatedAt parent x past ∧
      x :: past <:+ q ∧ q <:+ t ∧
      lookup (JobKey.marker parent.ref) q = some (.marker marker) ∧
      marker.continuation = child.ref.run ∧ child.attempt = parent.attempt + 1 := by
  obtain ⟨y, older, i, moment, _, made⟩ := history.created_at created
  obtain ⟨x, past, _, begun, atCreation, _⟩ := history.created_at parentCreated
  have below := moment.past
  cases made.reason with
  | manual _ _ _ _ original _ =>
    rw [retries] at original
    cases original
  | scheduled _ _ _ _ _ _ original _ _ =>
    rw [retries] at original
    cases original
  | retry finished marker tag later earlier _ _ job of_run attempt named split recorded _ _ =>
    have parentKey : finished.ref = parent.ref :=
      runRef_eq (job.symm.trans same) (Option.some.inj (of_run.symm.trans retries))
    obtain ⟨g, q, read, _, shape, ownRest⟩ := exists_own ⟨later, split.symm⟩
    have inside := read.past.trans below
    obtain ⟨u, within, held⟩ := (history.suffix inside).recorded_held (ownRest ▸ recorded)
    obtain ⟨_, first, x', past', _, found, key, firstKey, sameAttempt, _, begun', _, _,
      atCreation'⟩ :=
      (history.suffix (within.trans inside)).origin_of_record held
    cases found
    obtain ⟨sameMoment, sameRun⟩ := history.created_once begun
      (begun'.trans (within.trans inside)) atCreation atCreation'
      (by rw [firstKey, parentKey])
    cases sameMoment
    subst sameRun
    refine ⟨x, past, q, marker, begun, atCreation, begun'.trans within, inside, ?_, named,
      by rw [attempt, sameAttempt]⟩
    rw [← parentKey]
    exact (((history.suffix below).accepted.at read).tagged shape).1

theorem JobHistory.attempt_bounds (history : JobHistory a t)
    (created : run ∈ createdRuns t) (allowed : AllowsRetries run.ref.toJobRef maxRetries t) :
    1 ≤ run.attempt ∧ run.attempt ≤ 1 + maxRetries := by
  obtain ⟨x, past, i, moment, _, made⟩ := history.created_at created
  cases made.reason with
  | manual _ _ _ first _ _ => omega
  | scheduled _ _ _ _ _ first _ _ _ => omega
  | retry finished marker tag later earlier definition _ job _ attempt _ _ _ loaded fine =>
    obtain ⟨most, backoff, policy, few⟩ := retryAllowed_bound fine
    obtain ⟨e, q, asked, _, question⟩ := exists_own_mem loaded
    rw [← job] at question
    have bound := allowed e ((asked.trans moment.past).subset (.head _))
    rw [question, allowedRetries, if_pos rfl, policy] at bound
    have few' : finished.attempt ≤ maxRetries := Nat.le_trans few bound
    omega

/-- A retry was enqueued for a run whose record its client had been given, and that record was
created with the same attempt number. So the numbers go down to one along the chain. -/
theorem JobHistory.chain_from_one (history : JobHistory a t) (created : run ∈ createdRuns t) :
    ∃ root, root.attempt = 1 ∧ RetryChain t root run := by
  induction number : run.attempt using Nat.strong_induction_on generalizing run with
  | _ n ih =>
    subst number
    obtain ⟨_, past, i, moment, _, made⟩ := history.created_at created
    cases made.reason with
    | manual _ _ _ first _ _ => exact ⟨run, first, .root created⟩
    | scheduled _ _ _ _ _ first _ _ _ => exact ⟨run, first, .root created⟩
    | retry finished _ _ later _ _ _ job of_run attempt _ split recorded _ _ =>
      have known := Recorded.grow recorded ((List.suffix_cons ..).trans ⟨later, split.symm⟩)
      obtain ⟨u, inside, held⟩ := (history.suffix moment.past).recorded_held known
      have within := inside.trans moment.past
      obtain ⟨_, parent, y, q, _, found, _, key, same, _, begun, _, _, atCreation⟩ :=
        (history.suffix within).origin_of_record held
      cases found
      have parentCreated : parent ∈ createdRuns t := by
        refine List.mem_filterMap.mpr ⟨y, (begun.trans within).subset (.head _), ?_⟩
        simp [createdRun, atCreation.1, atCreation.2.1]
      obtain ⟨root, one, chain⟩ := ih parent.attempt (by omega) parentCreated rfl
      exact ⟨root, one, .retry parent run chain created (by rw [job, key]) (by rw [of_run, key])⟩

theorem RetryChain.attempt_le (history : JobHistory a t) (chain : RetryChain t root run) :
    root.attempt ≤ run.attempt := by
  induction chain with
  | root _ => exact Nat.le_refl _
  | retry parent child above created same of_parent ih =>
    obtain ⟨_, _, _, _, _, _, _, _, _, _, attempt⟩ :=
      history.retry_based created above.created same of_parent
    omega

section

variable (history : JobHistory a t)
  (before : Along (fun past e => markerBeforeRecord past e = true) t)
include history before

/-- From its creation on, a run has the marker it had then, or none. -/
theorem JobHistory.marker_kept
    (created : CreatedAt run x past) (after : x :: past <:+ q) (inside : q <:+ t)
    (held : lookup (JobKey.marker run.ref) q = some v) :
    lookup (JobKey.marker run.ref) (x :: past) = some v := by
  revert held
  refine value_lasts (P := (· = some v → lookup (JobKey.marker run.ref) (x :: past) =
    some v)) after id ?_
  rintro y u _ moment above kept effect rfl
  obtain ⟨c, r, shape, applied⟩ := effect_write effect
  have fine := before.at (moment.trans inside)
  rw [markerBeforeRecord, congrArg Ev.op shape] at fine
  have absent : lookup (JobKey.record run.ref) u = none := by
    simpa [applied] using fine
  have lasting := (history.suffix (moment.trans inside).past).record_lasts
    above (by rw [created.stored]; simp)
  exact (lasting absent).elim

theorem JobHistory.retry_unique
    (parentCreated : parent ∈ createdRuns t) (leftCreated : left ∈ createdRuns t)
    (rightCreated : right ∈ createdRuns t) (leftJob : left.ref.toJobRef = parent.ref.toJobRef)
    (rightJob : right.ref.toJobRef = parent.ref.toJobRef)
    (leftOf : left.retryOf = some parent.ref.run) (rightOf : right.retryOf = some parent.ref.run) :
    left = right := by
  obtain ⟨x, past, q, marker, begun, atCreation, after, inside, held, named, _⟩ :=
    history.retry_based leftCreated parentCreated leftJob leftOf
  obtain ⟨x', past', q', marker', begun', atCreation', after', inside', held', named', _⟩ :=
    history.retry_based rightCreated parentCreated rightJob rightOf
  obtain ⟨sameMoment, _⟩ := history.created_once begun begun' atCreation atCreation' rfl
  cases sameMoment
  have first := history.marker_kept before atCreation after inside held
  have second := history.marker_kept before atCreation after' inside' held'
  rw [first] at second
  cases second
  have sameRef := runRef_eq (leftJob.trans rightJob.symm) (named.symm.trans named')
  obtain ⟨y, w, _, moment, created, _⟩ := history.created_at leftCreated
  obtain ⟨y', w', _, moment', created', _⟩ := history.created_at rightCreated
  exact (history.created_once moment moment' created created' sameRef).2

theorem RetryChain.unique (one : RetryChain t root left)
    (other : RetryChain t root right) (same : left.attempt = right.attempt) : left = right := by
  induction one generalizing right with
  | root _ =>
    cases other with
    | root _ => rfl
    | retry parent _ above created job of_parent =>
      obtain ⟨_, _, _, _, _, _, _, _, _, _, attempt⟩ :=
        history.retry_based created above.created job of_parent
      have grows := above.attempt_le history
      omega
  | retry parent child above created job of_parent ih =>
    obtain ⟨_, _, _, _, _, _, _, _, _, _, attempt⟩ :=
      history.retry_based created above.created job of_parent
    cases other with
    | root _ =>
      have grows := above.attempt_le history
      omega
    | retry parent' _ above' created' job' of_parent' =>
      obtain ⟨_, _, _, _, _, _, _, _, _, _, attempt'⟩ :=
        history.retry_based created' above'.created job' of_parent'
      have parents := ih above' (by omega)
      subst parents
      exact history.retry_unique before above.created created created' job job' of_parent of_parent'

end

end Histories

/-- Every interleaving of triggered runs, transitions, ticks, executions and marker pruning, with
crashes, replays of finalizations and failed marker deletions, for a job whose definition allows
at most `maxRetries` retries. If a marker takes effect only while its run has no record, the
retry chain of every run has one record for each attempt number and at most `1 + maxRetries`
records. -/
theorem retry_chain_bounded (a : Adapter JobStore) (calls : Nat → SchedulerCall)
    (c : Config JobStore HubError Unit) (reach : Reaches a ⟨[], fun i => (calls i).run⟩ c)
    (root : JobRun) (maxRetries : Nat)
    (allowed : AllowsRetries root.ref.toJobRef maxRetries c.trace)
    (before : Along (fun past e => markerBeforeRecord past e = true) c.trace) :
    (∀ left right, RetryChain c.trace root left → RetryChain c.trace root right →
      left.attempt = right.attempt → left = right) ∧
    ∀ runs : List JobRun, runs.Nodup → (∀ run ∈ runs, RetryChain c.trace root run) →
      runs.length ≤ 1 + maxRetries := by
  have history := JobHistory.of_reaches reach
  constructor
  · intro left right one other same
    exact one.unique history before other same
  · intro runs distinct members
    have attempts : (runs.map JobRun.attempt).Nodup := by
      refine distinct.map_on ?_
      intro left here right there same
      exact (members left here).unique history before (members right there) same
    have inside : runs.map JobRun.attempt ⊆ List.range' 1 (1 + maxRetries) := by
      intro attempt listed
      obtain ⟨run, member, rfl⟩ := List.mem_map.mp listed
      have chain := members run member
      have bounds := history.attempt_bounds chain.created (by rw [chain.sameJob]; exact allowed)
      rw [List.mem_range'_1]
      omega
    have count := (List.subperm_of_subset attempts inside).length_le
    rwa [List.length_map, List.length_range'] at count

/-- Every run record of every interleaving, also where attempts are made twice: it is numbered at
most one more than the retries the job's definitions allow, and it belongs to a retry chain that
begins with an attempt numbered one. -/
theorem attempts_go_back_to_one (a : Adapter JobStore) (calls : Nat → SchedulerCall)
    (c : Config JobStore HubError Unit) (reach : Reaches a ⟨[], fun i => (calls i).run⟩ c)
    (run : JobRun) (created : run ∈ createdRuns c.trace) :
    (∃ root, root.attempt = 1 ∧ RetryChain c.trace root run) ∧
    ∀ maxRetries, AllowsRetries run.ref.toJobRef maxRetries c.trace →
      run.attempt ≤ 1 + maxRetries := by
  have history := JobHistory.of_reaches reach
  constructor
  · exact history.chain_from_one created
  · intro maxRetries allowed
    exact (history.attempt_bounds created allowed).2

namespace RetryScenario

def adapter : Adapter JobStore := ⟨fun _ version => version, 100⟩

def job : JobRef := ⟨1, 2, 3⟩

/-- A job with two retries and no schedule. -/
def definition : JobDefinition where
  enabled := true
  schedule := none
  retry := some (2, 0)
  timeoutSeconds := none
  forbidConcurrency := false
  notifyFailure := false
  notifySuccess := false

def config : JobSchedulerConfig where
  catchupWindowMs := 0
  maxConcurrentRuns := 1
  maxConcurrentRunsPerProject := 1
  defaultTimeoutMs := 1000
  maxTimeoutMs := 1000

def first : JobRun := queuedRun (manualInput job "ada" 1) 100 0

def second : JobRun := queuedRun (retryInput first 101 0) 101 0

def third (id : RunId) : JobRun := queuedRun (retryInput second id 0) id 0

/-- A user's run, ticks, and the execution each tick starts of the run it admitted. -/
def calls : Nat → SchedulerCall
  | 0 => .trigger job "ada" 1
  | 2 => .dispatch first
  | 4 => .dispatch second
  | 6 => .dispatch (third 102)
  | _ => .tick config ⟨.single _, .single _⟩

def oks (n : Nat) : List (Choice JobStore) := List.replicate n .ok

def loads : Choice JobStore := .answer (.loadJob job) (.ok (some definition))

/-- A tick lists so many markers twice. -/
def lists (i markers : Nat) : List (Move JobStore) :=
  turns i 0 ([.ok, .answer .indexedJobs (.ok [])] ++ oks (2 + 4 * markers))

/-- A queued run that is not being executed is admitted at the end of the tick. -/
def admits (i : Nat) (run : RunId) : List (Move JobStore) :=
  turns i 0 [.answer (.executing ⟨job, run⟩) false, loads]

/-- A run whose context does not load fails. -/
def fails (i : Nat) (run : RunId) : List (Move JobStore) :=
  turns i 0 ([.ok, .answer (.loadContext ⟨job, run⟩) (.error .storage)] ++ oks 3 ++
    [.answer (.finalizedExternally ⟨job, run⟩) false])

/-- Finalizing a failed run: the writes of its retry, and the deletion of its marker. -/
def finalizes (i : Nat) (run continuation : RunId) (writes : Nat) (dropped : Choice JobStore) :
    List (Move JobStore) :=
  turns i 0 ([.answer (.takeMutation job) (.ok true), .ok, .answer (.audit ⟨job, run⟩) (.ok ()),
    loads, .answer (.isDeleting job) (.ok false), loads] ++ oks 2 ++ [.id continuation] ++
    oks writes ++ [loads, dropped, .answer (.keptMutation job) true])

/-- The first attempt is enqueued, admitted by a tick, fails and is retried. -/
def firstFails (dropped : Choice JobStore) : List (Move JobStore) :=
  turns 0 0 ([.id 100, .ok, .id 101] ++ oks 3) ++ lists 1 1 ++ admits 1 100 ++ fails 2 100 ++
    finalizes 2 100 102 3 dropped

def secondFails (continuation : RunId) : List (Move JobStore) :=
  fails 4 101 ++ finalizes 4 101 continuation 3 .ok

/-- Both markers are deleted. -/
def retried : List (Move JobStore) :=
  firstFails .ok ++ lists 3 1 ++ admits 3 101 ++ secondFails 103

/-- The deletion of the first marker fails twice: when the first attempt ended, and when the tick
that admits the second one replays that. So the next tick enqueues attempt two again after it has
been finalized, with another continuation, and the tick after that retries it once more. -/
def replayed : List (Move JobStore) :=
  firstFails (.fail false) ++ lists 3 2 ++ admits 3 101 ++ finalizes 3 100 103 4 (.fail false) ++
    secondFails 104 ++ lists 5 2 ++ admits 5 102 ++ finalizes 5 100 105 4 .ok ++ lists 7 2 ++
    [⟨7, 0, .answer (.executing ⟨job, 102⟩) true⟩] ++ finalizes 7 101 106 3 .ok

instance (maxRetries : Nat) (t : Trace JobStore) : Decidable (AllowsRetries job maxRetries t) := by
  unfold AllowsRetries
  infer_instance

/-- The runs that were created, of a job that allows two retries, by calls that have returned. -/
def creates (runs : List JobRun) (returned : List Nat) (c : Config JobStore HubError Unit) : Bool :=
  AllowsRetries job 2 c.trace ∧ createdRuns c.trace = runs ∧
    ∀ i ∈ returned, (c.prog i).value? = some ()

def createsOnce (c : Config JobStore HubError Unit) : Bool :=
  creates [third 102, second, first] [0, 1, 2, 3, 4] c ∧
    Along (fun past e => markerBeforeRecord past e = true) c.trace

theorem chain_of_created (ids : List RunId)
    (created : createdRuns t = ids.map third ++ [second, first]) :
    RetryChain t first first ∧ RetryChain t first second ∧
      ∀ id ∈ ids, RetryChain t first (third id) := by
  have one : RetryChain t first first := .root (by rw [created]; simp)
  have two : RetryChain t first second := .retry first second one (by rw [created]; simp) rfl rfl
  refine ⟨one, two, fun id listed => .retry second (third id) two ?_ rfl rfl⟩
  rw [created]
  exact List.mem_append_left _ (List.mem_map_of_mem listed)

theorem replayed_reaches : ∃ c, Reaches adapter ⟨[], fun i => (calls i).run⟩ c ∧
    creates [third 105, third 102, second, first] [0, 1, 2, 3, 4, 5, 7] c = true :=
  Config.play_any adapter _ replayed (creates _ _ ·) (by decide +kernel)

end RetryScenario

open RetryScenario in
/-- Two records for attempt three, and four records for a job that allows two retries: a run of
whole ticks, and of executions of the runs they admitted. -/
theorem retry_chain_forks :
    ∃ c, Reaches adapter ⟨[], fun i => (calls i).run⟩ c ∧ AllowsRetries job 2 c.trace ∧
      (∀ i ∈ [0, 1, 2, 3, 4, 5, 7], c.prog i = .ret ()) ∧
      (∃ left right, RetryChain c.trace first left ∧ RetryChain c.trace first right ∧
        left.attempt = right.attempt ∧ left ≠ right) ∧
      ∃ runs : List JobRun, runs.Nodup ∧ (∀ run ∈ runs, RetryChain c.trace first run) ∧
        1 + 2 < runs.length := by
  obtain ⟨c, reach, observed⟩ := replayed_reaches
  obtain ⟨allowed, created, returned⟩ := of_decide_eq_true observed
  obtain ⟨one, two, three⟩ := chain_of_created [105, 102] created
  refine ⟨c, reach, allowed, fun i member => Prog.value?_eq_some.mp (returned i member),
    ⟨third 105, third 102, three _ (by simp), three _ (by simp), rfl, by decide⟩,
    [third 105, third 102, second, first], by decide, ?_, by decide⟩
  intro run member
  simp only [List.mem_cons, List.not_mem_nil, or_false] at member
  rcases member with rfl | rfl | rfl | rfl
  · exact three _ (by simp)
  · exact three _ (by simp)
  · exact two
  · exact one

open RetryScenario in
/-- When the first marker is deleted the chain has three records. -/
theorem retry_chain_bounded_three :
    ∃ c, Reaches adapter ⟨[], fun i => (calls i).run⟩ c ∧ createsOnce c = true ∧
      RetryChain c.trace first (third 102) ∧
      ∀ runs : List JobRun, runs.Nodup → (∀ run ∈ runs, RetryChain c.trace first run) →
        runs.length ≤ 1 + 2 := by
  obtain ⟨c, reach, observed⟩ := Config.play_any adapter ⟨[], fun i => (calls i).run⟩
    retried (createsOnce ·) (by decide)
  obtain ⟨made, before⟩ := of_decide_eq_true observed
  obtain ⟨allowed, created, _⟩ := of_decide_eq_true made
  exact ⟨c, reach, observed, (chain_of_created [102] created).2.2 _ (by simp),
    (retry_chain_bounded adapter calls c reach first 2 allowed before).2⟩

open RetryScenario in
/-- The second record of attempt three, in the run that forks. -/
theorem attempts_go_back_from_third :
    ∃ c, Reaches adapter ⟨[], fun i => (calls i).run⟩ c ∧ third 105 ∈ createdRuns c.trace ∧
      (∃ root, root.attempt = 1 ∧ RetryChain c.trace root (third 105)) ∧
      ∀ maxRetries, AllowsRetries job maxRetries c.trace →
        (third 105).attempt ≤ 1 + maxRetries := by
  obtain ⟨c, reach, observed⟩ := replayed_reaches
  have created : third 105 ∈ createdRuns c.trace := by simp [(of_decide_eq_true observed).2.1]
  exact ⟨c, reach, created, attempts_go_back_to_one adapter calls c reach _ created⟩

end MarimoHub.Guarantees
