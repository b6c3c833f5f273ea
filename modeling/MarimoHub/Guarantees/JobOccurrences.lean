import MarimoHub.Guarantees.JobRecords

/-!
# One run for each scheduled occurrence

A tick creates the first attempt of an occurrence under the run identifier its claim names, so
there is one as long as there is one claim. Retention deletes claims that have passed its horizon;
a tick that read the clock long ago can still put one after that. `claimInTime` excludes such
a late claim, and without it an occurrence can get two runs.
-/

namespace MarimoHub.Guarantees

open ObjectStore Source Prog

/-! ## Retention, alone -/

/-- How long retention keeps runs and claims. -/
def retentionSpan (config : JobSchedulerConfig) (retentionMs : Nat) : Nat :=
  max retentionMs config.catchupWindowMs

variable {retentionMs : Nat}

section Rules

theorem keeps_readRuns : Keeps (JobRule (some span)) (readRuns keys) := by
  induction keys with
  | nil => exact keeps_ret
  | cons key rest ih =>
    cases key with
    | runIndex run =>
      exact (keeps_bucketGet fun _ => trivial).bind fun _ => ih.map
    | _ => exact ih

theorem keeps_listRunPages : Keeps (JobRule (some span)) (listRunPages pages) := by
  induction pages with
  | nil => exact keeps_ret
  | cons page rest ih =>
    refine (keeps_bucketList fun _ => trivial).bind fun _ => ?_
    exact keeps_readRuns.bind fun _ => ih.map

theorem keeps_pruneRun : Keeps (JobRule (some span)) (pruneRun run) := by
  refine (keeps_bucketGet fun _ => trivial).bind fun found => ?_
  cases found with
  | some _ => exact keeps_ret
  | none =>
    refine (keeps_bucketDelete fun _ => by simp [JobRule]).bind fun _ => ?_
    exact (keeps_bucketDelete fun _ => trivial).map

theorem keeps_pruneRuns : Keeps (JobRule (some span)) (pruneRuns cutoff runs) := by
  induction runs with
  | nil => exact keeps_ret
  | cons run rest ih =>
    refine Keeps.bind ?_ fun _ => ih.map
    exact .ite keeps_pruneRun keeps_ret

theorem emits_pruneJob (job : JobRef) (retentionMs now occurrenceRetentionMs : Nat)
    (paging : JobPaging job) (clock : ⟨.now, now⟩ ∈ past)
    (kept : span ≤ max retentionMs occurrenceRetentionMs) :
    Emits (JobRule (some span)) (yields fun _ _ => True)
      (pruneJob job retentionMs now occurrenceRetentionMs paging) past := by
  refine keeps_listRunPages.seq fun runs es first => ?_
  refine keeps_pruneRuns.seq fun pruned es' second => ?_
  refine emits_seq (emits_listPages paging.occurrences.pages es' fun _ _ _ _ => trivial) ?_ ?_
  · intro keys es'' third _
    refine emits_seq (emits_bucketDeleteAll _ es'' ?_) ?_ ?_
    · intro key member later fourth
      obtain ⟨_, stale⟩ := List.mem_filter.mp member
      cases key with
      | occurrence owner minute =>
        have old := of_decide_eq_true stale
        refine ⟨span, now, rfl, ?_, by omega⟩
        exact (first.trans (second.trans (third.trans fourth))).subset clock
      | _ => cases stale
    · intro _ _ _ _
      trivial
    · intro _ _ _ _
      trivial
  · intro _ _ _ _
    trivial

theorem emits_pruneJobs (clock : ⟨.now, now⟩ ∈ past) :
    Emits (JobRule (some (retentionSpan config retentionMs))) (yields fun _ _ => True)
      (pruneJobs config retentionMs now paging jobs) past := by
  induction jobs generalizing past with
  | nil => trivial
  | cons job rest ih =>
    have here := emits_pruneJob job retentionMs now _ (paging.job job) clock
      (Nat.le_max_right retentionMs (retentionSpan config retentionMs))
    refine emits_then (emits_caught here fun _ _ _ => trivial) ?_
    intro _ es grown _
    refine emits_then (ih (grown.subset clock)) ?_
    intro _ _ _ _
    trivial

theorem emits_pruneAll :
    Emits (JobRule (some (retentionSpan config retentionMs))) (yields fun _ _ => True)
      (pruneAll config retentionMs paging) past := by
  refine emits_dateNow_then trivial fun now => ?_
  refine keeps_indexedJobs.seq fun jobs es grown => ?_
  refine emits_then (emits_pruneJobs (grown.subset (.head _))) ?_
  intro runsPruned es _ _
  exact keeps_pruneStaleMarkers.map.yields

end Rules

/-! ## Calls -/

/-- The calls of the scheduler, and its retention pass. -/
inductive RetentionCall where
  | scheduler (call : SchedulerCall)
  | prune (paging : JobPrunePaging)

def RetentionCall.run (config : JobSchedulerConfig) (retentionMs : Nat) :
    RetentionCall → Hub JobStore Unit
  | .scheduler call => call.run
  | .prune paging => dropValue (pruneAll config retentionMs paging)

theorem retentionCall_keeps_rule {call : RetentionCall} :
    Emits (JobRule (some (retentionSpan config retentionMs))) (yields fun _ _ => True)
      (call.run config retentionMs) [] := by
  cases call with
  | scheduler call => exact schedulerCall_keeps_rule
  | prune paging => exact emits_dropValue emits_pruneAll

/-! ## Claims -/

/-- A claim takes effect before retention may have deleted an earlier one. -/
def claimInTime (span : Nat) (_ : Trace JobStore) (e : Event JobStore) : Bool :=
  match e.op with
  | .put (.occurrence _ minute) _ _ => e.applied = false ∨
    (e.time : Int) ≤ minuteInstant minute + span
  | _ => true

/-- Whether the run is the first attempt of the job's occurrence in a minute. -/
def IsFirstAttempt (job : JobRef) (minute : Int) (run : JobRun) : Prop :=
  run.ref.toJobRef = job ∧ run.attempt = 1 ∧ run.scheduledFor.map occurrenceMinute = some minute

variable {minute : Int}

section Histories

variable {a : Adapter JobStore} {t : Trace JobStore} {span : Nat}

theorem claim_deleted_late (accepted : Along (Accepts a) t) (moment : d :: q <:+ t)
    (rule : JobRule (some span) (own i q) d.op)
    (removed : d.effect (.occurrence job minute) = some none) :
    minuteInstant minute + span < (d.time : Int) := by
  obtain ⟨r, shape, _⟩ := effect_remove removed
  rw [congrArg Ev.op shape] at rule
  obtain ⟨_, now, same, clock, late⟩ := rule
  cases same
  obtain ⟨g, u, read, _, question⟩ := exists_own_mem clock
  have clockTime : now = g.time :=
    ((accepted.at (read.trans moment.past)).responds_of question).1
  have order := time_le accepted read moment
  omega

variable (accepted : Along (Accepts a) t)
  (ruled : ∀ x past, x :: past <:+ t → ∃ i, JobRule (some span) (own i past) x.op)
  (inTime : Along (fun past e => claimInTime span past e = true) t)

include accepted ruled inTime

theorem claim_put_once (moment : x :: past <:+ t) (moment' : x' :: past' <:+ t)
    (wrote : x.effect (.occurrence job minute) = some (some v))
    (wrote' : x'.effect (.occurrence job minute) = some (some v')) : x :: past = x' :: past' := by
  have never {x x' : Event JobStore} {past past' : Trace JobStore} {v v' : JobVal}
      (moment' : x' :: past' <:+ t) (wrote : x.effect (.occurrence job minute) = some (some v))
      (wrote' : x'.effect (.occurrence job minute) = some (some v'))
      (order : x :: past <:+ past') : False := by
    obtain ⟨c, r, shape, applied⟩ := effect_write wrote'
    have op : x'.op = .put (.occurrence job minute) v' c := congrArg Ev.op shape
    obtain ⟨i, rule⟩ := ruled x' past' moment'
    rw [op] at rule
    obtain ⟨rfl, _⟩ := rule
    have absent := (accepted.at moment').created shape applied
    have soon : (x'.time : Int) ≤ minuteInstant minute + span := by
      have fine := inTime.at moment'
      rw [claimInTime, op] at fine
      simpa [applied] using fine
    -- between the two the claim was deleted, which is too late for the second
    have below := moment'.past
    obtain ⟨d, q, between, _, stored, gone⟩ := becomes
      (P := fun u => lookup (JobKey.occurrence job minute) u = none) order
      (by rw [lookup_of_effect wrote]; simp) absent
    have removed : d.effect (.occurrence job minute) = some none := by
      cases effect : d.effect (.occurrence job minute) with
      | none => exact absurd (lookup_of_no_effect effect ▸ gone) stored
      | some new =>
        rw [lookup_of_effect effect] at gone
        rw [gone]
    obtain ⟨j, rule'⟩ := ruled d q (between.trans below)
    have late := claim_deleted_late accepted (between.trans below) rule' removed
    have order' := time_le accepted between moment'
    omega
  rcases moments_ordered moment moment' with same | order | order
  · exact same
  · exact (never moment' wrote wrote' order).elim
  · exact (never moment wrote' wrote order).elim

theorem claim_unique (inside : u <:+ t) (inside' : u' <:+ t)
    (held : lookup (JobKey.occurrence job minute) u = some v)
    (held' : lookup (JobKey.occurrence job minute) u' = some v') : v = v' := by
  obtain ⟨x, past, moment, wrote, _⟩ := lookup_moment held
  obtain ⟨x', past', moment', wrote', _⟩ := lookup_moment held'
  have same := claim_put_once accepted ruled inTime (moment.trans inside) (moment'.trans inside')
    wrote wrote'
  cases same
  rw [wrote] at wrote'
  cases wrote'
  rfl

omit inTime in
theorem attempt_pos (inside : u <:+ t)
    (held : lookup (JobKey.record ref) u = some (.run run)) : 1 ≤ run.attempt := by
  induction u generalizing run with
  | nil => cases held
  | cons x past ih =>
    rcases found_cons held with kept | effect
    · exact ih inside.past kept
    · obtain ⟨c, r, shape, applied⟩ := effect_write effect
      obtain ⟨i, rule⟩ := ruled x past inside
      rw [congrArg Ev.op shape] at rule
      cases c with
      | any => exact rule.elim
      | ifAbsent =>
        obtain ⟨_, same, made⟩ := rule
        cases same
        cases made.reason with
        | manual _ _ _ first _ _ => omega
        | scheduled _ _ _ _ _ first _ _ _ => omega
        | retry _ _ _ _ _ _ _ _ _ attempt _ _ _ _ _ => omega
      | ifMatch tag =>
        obtain ⟨_, same, current, event, patch, status, issued, _, rfl⟩ := rule
        cases same
        have found := ((accepted.at inside).matched shape applied).1
        rw [issued.value (accepted.suffix inside.past)] at found
        show 1 ≤ current.attempt
        exact ih inside.past found

omit inTime in
/-- A first attempt is created under the identifier of a claim that was stored. -/
theorem first_attempt_claimed (created : run ∈ createdRuns t)
    (first : IsFirstAttempt job minute run) :
    ∃ u occurrence, u <:+ t ∧ occurrence.run = run.ref.run ∧
      lookup (JobKey.occurrence job minute) u = some (.occurrence occurrence) := by
  obtain ⟨owner, attempt, scheduledFor⟩ := first
  obtain ⟨x, member, made⟩ := List.mem_filterMap.mp created
  obtain ⟨past, moment⟩ := exists_past member
  obtain ⟨i, rule⟩ := ruled x past moment
  have below := moment.past
  unfold createdRun at made
  split at made
  · next ref found shape =>
    split at made
    · cases made
      rw [shape] at rule
      obtain ⟨_, same, creates⟩ := rule
      cases same
      cases creates.reason with
      | manual _ _ unscheduled _ _ _ =>
        rw [unscheduled] at scheduledFor
        cases scheduledFor
      | scheduled instant occurrence tag _ scheduled _ _ named issued =>
        rw [scheduled] at scheduledFor
        cases scheduledFor
        obtain ⟨u, inside, held⟩ := issued.held (accepted.suffix below)
        rw [owner] at held
        exact ⟨u, occurrence, inside.trans below, named, held⟩
      | retry finished marker tag later earlier _ _ _ _ next _ split recorded _ _ =>
        obtain ⟨key, tag', issued⟩ := recorded
        have grown : earlier <:+ own i past := by
          rw [split]
          exact (List.suffix_append later _).past
        obtain ⟨u, inside, held⟩ := (issued.mono grown.subset).held (accepted.suffix below)
        have positive := attempt_pos accepted ruled (inside.trans below) held
        omega
    · cases made
  · cases made

end Histories

/-- Every interleaving of ticks on any number of replicas (which claim, repair, finalize and
prune markers), retention passes, executions, triggered runs and transitions, with crashes. If
every claim takes effect no later than its occurrence plus the time retention keeps claims, at
most one first attempt is created for each occurrence of each job. -/
theorem occurrence_fires_once (a : Adapter JobStore) (config : JobSchedulerConfig)
    (retentionMs : Nat) (calls : Nat → RetentionCall) (c : Config JobStore HubError Unit)
    (reach : Reaches a ⟨[], fun i => (calls i).run config retentionMs⟩ c)
    (inTime : Along (fun past e => claimInTime (retentionSpan config retentionMs) past e = true)
      c.trace)
    (job : JobRef) (minute : Int) (left right : JobRun) (leftCreated : left ∈ createdRuns c.trace)
    (rightCreated : right ∈ createdRuns c.trace) (leftFirst : IsFirstAttempt job minute left)
    (rightFirst : IsFirstAttempt job minute right) : left.ref = right.ref := by
  have run := reach.history (Seeds.empty a)
  have ruled (x : Event JobStore) (past : Trace JobStore) (moment : x :: past <:+ c.trace) :
      ∃ i, JobRule (some (retentionSpan config retentionMs)) (own i past) x.op := by
    obtain ⟨i, mine⟩ := run.thread_of_moment moment List.nil_suffix
    exact ⟨i, run.guarantee (fun i => retentionCall_keeps_rule) moment mine⟩
  obtain ⟨u, claim, inside, named, held⟩ :=
    first_attempt_claimed run.accepted ruled leftCreated leftFirst
  obtain ⟨u', claim', inside', named', held'⟩ :=
    first_attempt_claimed run.accepted ruled rightCreated rightFirst
  cases claim_unique run.accepted ruled inTime inside inside' held held'
  exact runRef_eq (leftFirst.1.trans rightFirst.1.symm) (named.symm.trans named')

namespace OccurrenceScenario

def adapter : Adapter JobStore := ⟨fun _ version => version, 100⟩

def job : JobRef := ⟨1, 2, 3⟩

/-- A job that is due at instant 0 and a minute later. -/
def definition : JobDefinition where
  enabled := true
  schedule := some (some fun cursor =>
    if cursor < 0 then some 0 else if cursor < 60000 then some 60000 else none)
  retry := none
  timeoutSeconds := none
  forbidConcurrency := false
  notifyFailure := false
  notifySuccess := false

def config : JobSchedulerConfig where
  catchupWindowMs := 10
  maxConcurrentRuns := 1
  maxConcurrentRunsPerProject := 1
  defaultTimeoutMs := 1000
  maxTimeoutMs := 1000

/-- Ticks and a retention pass. -/
def calls : Nat → RetentionCall
  | 2 => .prune ⟨fun _ => ⟨.single _, .single _⟩, .single _⟩
  | _ => .scheduler (.tick config ⟨.single _, .single _⟩)

/-- A tick that has read the clock lists `seen` objects and goes up to its claim. -/
def loads (i time seen run : Nat) : List (Move JobStore) :=
  [⟨i, time, .answer .indexedJobs (.ok [job])⟩] ++ List.replicate (seen + 1) ⟨i, time, .ok⟩ ++
    turns (B := JobStore) i time [.answer (.takeMutation job) (.ok true),
      .answer (.isDeleting job) (.ok false), .answer (.loadJob job) (.ok (some definition)),
      .id run]

/-- A tick that claims the occurrence and writes the run. -/
def fires (i time seen run continuation : Nat) : List (Move JobStore) :=
  loads i time seen run ++ turns i time [.ok, .ok, .id continuation] ++
    List.replicate 3 ⟨i, time, .ok⟩

/-- Retention lists the job's run and its claim, and deletes the claim. -/
def prunes (time : Nat) : List (Move JobStore) :=
  [⟨2, time, .ok⟩, ⟨2, time, .answer .indexedJobs (.ok [job])⟩] ++ List.replicate 4 ⟨2, time, .ok⟩

/-- The first tick reads the clock at 5 and goes on at 20. -/
def slow : List (Move JobStore) :=
  [⟨0, 5, .ok⟩, ⟨1, 5, .ok⟩] ++ fires 1 5 0 100 101 ++ prunes 20 ++ fires 0 20 2 102 103

/-- Of two ticks that are at the claim of the first occurrence one loses it, retention deletes the
claim, and a third tick fires the second occurrence. -/
def prompt : List (Move JobStore) :=
  [⟨0, 5, .ok⟩, ⟨1, 5, .ok⟩] ++ loads 0 5 0 102 ++ fires 1 5 0 100 101 ++
    turns 0 5 [.lost, .ok, .ok] ++ prunes 20 ++
    [⟨3, 60005, .ok⟩] ++ fires 3 60005 2 104 105

instance (minute : Int) (run : JobRun) : Decidable (IsFirstAttempt job minute run) := by
  unfold IsFirstAttempt
  infer_instance

/-- The identifiers of the first attempts for the occurrence. -/
def firstAttempts (minute : Int) (t : Trace JobStore) : List RunId :=
  ((createdRuns t).filter fun run => IsFirstAttempt job minute run).map fun run => run.ref.run

theorem exists_of_firstAttempts (id : RunId) (listed : id ∈ firstAttempts minute t) :
    ∃ run ∈ createdRuns t, IsFirstAttempt job minute run ∧ run.ref.run = id := by
  obtain ⟨run, member, same⟩ := List.mem_map.mp listed
  obtain ⟨inside, first⟩ := List.mem_filter.mp member
  exact ⟨run, inside, of_decide_eq_true first, same⟩

def firesTwice (c : Config JobStore HubError Unit) : Bool :=
  firstAttempts 0 c.trace = [102, 100]

/-- A claim was deleted, and every claim was put in time. -/
def firesInTime (c : Config JobStore HubError Unit) : Bool :=
  firstAttempts 0 c.trace = [100] ∧ firstAttempts 1 c.trace = [104] ∧
    Along (fun past e => claimInTime (retentionSpan config 0) past e = true) c.trace ∧
    lookup (JobKey.occurrence job 0) c.trace = none

end OccurrenceScenario

open OccurrenceScenario in
/-- Retention has deleted the claim of the first run when the slow tick puts its own. -/
theorem occurrence_fires_twice :
    ∃ c left right, Reaches adapter ⟨[], fun i => (calls i).run config 0⟩ c ∧
      left ∈ createdRuns c.trace ∧ right ∈ createdRuns c.trace ∧ IsFirstAttempt job 0 left ∧
      IsFirstAttempt job 0 right ∧ left.ref ≠ right.ref := by
  obtain ⟨c, reach, observed⟩ := Config.play_any adapter ⟨[], fun i => (calls i).run config 0⟩ slow
    (firesTwice ·) (by decide)
  have runs := of_decide_eq_true observed
  obtain ⟨left, leftCreated, leftFirst, leftId⟩ :=
    exists_of_firstAttempts 100 (by rw [runs]; decide)
  obtain ⟨right, rightCreated, rightFirst, rightId⟩ :=
    exists_of_firstAttempts 102 (by rw [runs]; decide)
  refine ⟨c, left, right, reach, leftCreated, rightCreated, leftFirst, rightFirst, ?_⟩
  intro same
  rw [same, rightId] at leftId
  cases leftId

open OccurrenceScenario in
/-- Two occurrences, each with the one first attempt. -/
theorem occurrence_fires_once_kept :
    ∃ c, Reaches adapter ⟨[], fun i => (calls i).run config 0⟩ c ∧ firesInTime c = true ∧
      ∀ minute ∈ [0, 1], ∃ left ∈ createdRuns c.trace, IsFirstAttempt job minute left ∧
        ∀ right ∈ createdRuns c.trace, IsFirstAttempt job minute right → left.ref = right.ref := by
  obtain ⟨c, reach, observed⟩ := Config.play_any adapter ⟨[], fun i => (calls i).run config 0⟩
    prompt (firesInTime ·) (by decide +kernel)
  obtain ⟨earlier, later, inTime, _⟩ := of_decide_eq_true observed
  have once (minute : Int) (id : RunId) (listed : id ∈ firstAttempts minute c.trace) :
      ∃ left ∈ createdRuns c.trace, IsFirstAttempt job minute left ∧
        ∀ right ∈ createdRuns c.trace, IsFirstAttempt job minute right → left.ref = right.ref := by
    obtain ⟨left, created, first, _⟩ := exists_of_firstAttempts id listed
    exact ⟨left, created, first, fun right rightCreated =>
      occurrence_fires_once adapter config 0 calls c reach inTime job minute left right created
        rightCreated first⟩
  refine ⟨c, reach, observed, ?_⟩
  simp only [List.forall_mem_cons]
  exact ⟨once 0 100 (by simp [earlier]), once 1 104 (by simp [later]), by simp⟩

end MarimoHub.Guarantees
