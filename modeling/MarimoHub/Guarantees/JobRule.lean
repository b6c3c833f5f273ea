import MarimoHub.ObjectStore.Record
import MarimoHub.Source.JobScheduler

/-!
# What the job calls do, alone

Every call that touches run records, markers and occurrence claims keeps one rule about its
own events (`JobRule`): a record is created after its marker was tried, and for a reason
(`Origin`); it is replaced only along an edge of the run state machine; a marker is dropped
by a finalization that saw the run ended or skipped, or by the pruning of a stale marker; and
only retention drops records and claims.
-/

namespace MarimoHub.Guarantees

open ObjectStore Source Prog

/-! ## The rule -/

/-- The client was given `run` as a stored record, by a read or by its own write. -/
def Recorded (run : JobRun) (es : Log JobStore) : Prop :=
  ∃ ref tag, Issued (B := JobStore) (.record ref) (.run run) tag es

variable (ref : RunRef)

/-- The run's marker was created or found standing. -/
def MarkerTried (createdAt : Nat) (es : Log JobStore) : Prop :=
  ∃ marker r, ⟨.put (.marker ref) (.marker marker) .ifAbsent, r⟩ ∈ es ∧
    marker.createdAt = createdAt ∧ r ≠ .fail

/-- The status of the run a claim with this outcome asks for. -/
def startStatus (outcome : Option ClaimOutcome) : RunStatus :=
  if outcome = some .skip then .skipped else .queued

/-- Why a scheduler call creates a run. -/
inductive Origin (es : Log JobStore) (run : JobRun) : Prop where
  | manual (now : Nat) : run.status = .queued → run.scheduledFor = none → run.attempt = 1 →
      run.retryOf = none → DrawnFor run.ref.run ⟨.now, now⟩ es → Origin es run
  | scheduled (instant : Int) (occurrence : JobOccurrence) (tag : Etag JobStore) :
      run.status = startStatus occurrence.outcome → run.scheduledFor = some instant →
      run.attempt = 1 → run.retryOf = none → occurrence.run = run.ref.run →
      Issued (B := JobStore) (.occurrence run.ref.toJobRef (occurrenceMinute instant))
        (.occurrence occurrence) tag es → Origin es run
  | retry (finished : JobRun) (marker : JobRunMarker) (tag : Etag JobStore)
      (later earlier : Log JobStore) (job : JobDefinition) :
      run.status = .queued → run.ref.toJobRef = finished.ref.toJobRef →
      run.retryOf = some finished.ref.run → run.attempt = finished.attempt + 1 →
      marker.continuation = run.ref.run →
      es = later ++ ⟨.get (.marker finished.ref), .found (.marker marker) tag⟩ :: earlier →
      Recorded finished earlier →
      ⟨.ask (.loadJob finished.ref.toJobRef), .ok (some job)⟩ ∈ es →
      (retryAllowed job finished).isSome = true → Origin es run

variable (es : Log JobStore)

structure CreatesRun (ref : RunRef) (run : JobRun) : Prop where
  ownKey : run.ref = ref
  marked : MarkerTried ref run.queuedAt es
  reason : Origin es run

/-- A record that was read moves along an edge of the state machine. -/
def Moves (ref : RunRef) (tag : Etag JobStore) (next : JobRun) : Prop :=
  ∃ current event patch status, Issued (B := JobStore) (.record ref) (.run current) tag es ∧
    nextRunStatus current.status event = some status ∧ next = current.patched patch status

/-- The run was seen to have ended. -/
def SawEnd : Prop :=
  ∃ run, run.ref = ref ∧ isTerminalRunStatus run.status = true ∧ Recorded run es

/-- A claim asked for the run to be skipped, and its record was read or written. -/
def SawSkip : Prop :=
  ∃ claimed run minute occurrence tag tag', run.ref = ref ∧
    Issued (B := JobStore) (.occurrence claimed.toJobRef minute) (.occurrence occurrence) tag es ∧
    occurrence.run = claimed.run ∧ occurrence.outcome = some .skip ∧
    Issued (B := JobStore) (.record claimed) (.run run) tag' es

/-- The run's history entry was just dropped. -/
def DropsStale : Prop :=
  ∃ r rest, es = ⟨.delete (.runIndex ref), r⟩ :: rest

/-- What a call may do after its own events. With a `horizon` it may also drop what retention
drops: records, and claims that many milliseconds past their occurrence. -/
def JobRule (horizon : Option Nat) (es : Log JobStore) : Op JobStore → Prop
  | .put (.record ref) v .ifAbsent => ∃ run, v = .run run ∧ CreatesRun es ref run
  | .put (.record ref) v (.ifMatch tag) => ∃ run, v = .run run ∧ Moves es ref tag run
  | .put (.record _) _ .any => False
  | .put (.marker ref) v c => c = .ifAbsent ∧ ∃ marker rest, v = .marker marker ∧
      marker.ref = ref ∧ es = ⟨.mint, marker.continuation⟩ :: rest
  | .put (.occurrence _ _) v c => c = .ifAbsent ∧ ∃ occurrence rest, v = .occurrence occurrence ∧
      es = ⟨.mint, occurrence.run⟩ :: rest
  | .delete (.record _) => horizon ≠ none
  | .delete (.occurrence _ minute) => ∃ span now : Nat, horizon = some span ∧ ⟨.now, now⟩ ∈ es ∧
      minuteInstant minute + span < now
  | .delete (.marker ref) => SawEnd ref es ∨ SawSkip ref es ∨ DropsStale ref es
  | _ => True

/-! ## Evidence lasts -/

variable {tag : Etag JobStore} {es later earlier : Log JobStore} {α : Type} {finished : JobRun}
  {marker : JobRunMarker}

theorem Recorded.grow (recorded : Recorded run es) (grown : es <:+ later) : Recorded run later := by
  obtain ⟨ref, tag, issued⟩ := recorded
  exact ⟨ref, tag, issued.mono grown.subset⟩

/-- A reason for a run stays one. -/
theorem Origin.grow (origin : Origin es run) (grown : es <:+ later) : Origin later run := by
  cases origin with
  | manual now queued unscheduled first fresh drawn =>
    exact .manual now queued unscheduled first fresh (drawn.grow grown)
  | scheduled instant occurrence tag status scheduled first fresh named issued =>
    exact .scheduled instant occurrence tag status scheduled first fresh named
      (issued.mono grown.subset)
  | retry finished marker tag new earlier job queued same parent attempt named split recorded
      loaded allowed =>
    obtain ⟨more, rfl⟩ := grown
    subst split
    exact .retry finished marker tag (more ++ new) earlier job queued same parent attempt named
      (by rw [List.append_assoc]) recorded (List.mem_append_right more loaded) allowed

theorem SawEnd.of_recorded (ended : isTerminalRunStatus run.status = true)
    (recorded : Recorded run es) : SawEnd run.ref es := ⟨run, rfl, ended, recorded⟩

/-! ## Runs -/

section Rules

variable {horizon : Option Nat} {past : Log JobStore} {job : JobRef} {ref : RunRef}
  {event : RunEvent} {now : Nat} {outcome : ClaimOutcome}
  {config : JobSchedulerConfig} {claimed : JobRun}

@[simp] theorem emits_ask (q : JobQuery) (past : Log JobStore)
    (Q : Post JobStore HubError (JobAnswer q)) : Emits G Q (ask q) past ↔
      G past (.ask q) ∧ ∀ r, Q (.ok r) (⟨.ask q, r⟩ :: past) := Iff.rfl

theorem emits_loadJob : Emits (JobRule horizon)
      (yields fun found es => es = ⟨.ask (.loadJob job), .ok found⟩ :: past)
      (loadJob job) past := by
  refine ⟨trivial, fun answer => emits_orRaise.returns ?_⟩
  rintro found es _ ⟨rfl, rfl⟩
  rfl

theorem keeps_ask : Keeps (JobRule horizon) (ask q) := fun _ =>
  ⟨trivial, fun _ => trivial⟩

theorem keeps_isDeleting : Keeps (JobRule horizon) (isDeleting job) :=
  keeps_ask.bind keeps_orRaise

theorem keeps_indexedJobs : Keeps (JobRule horizon) indexedJobs :=
  keeps_ask.bind keeps_orRaise

/-- What the work establishes has to outlast the check that the lease was kept. -/
theorem emits_withJobMutation {work : Hub JobStore α}
    (lasts : ∀ a es later, es <:+ later → P a es → P a later)
    (works : ∀ es, past <:+ es → Emits (JobRule horizon) (yields P) work es) :
    Emits (JobRule horizon) (yields P) (withJobMutation job work) past := by
  rw [withJobMutation, emits_bind]
  refine ⟨trivial, fun answer => ?_⟩
  refine emits_then emits_orRaise ?_
  rintro acquired es grown ⟨_, rfl⟩
  split
  · refine emits_then (works _ (List.suffix_cons _ past)) ?_
    intro result es _ done
    rw [emits_bind, emits_ask]
    refine ⟨trivial, fun kept => ?_⟩
    rw [andThen_ok]
    split
    · exact lasts _ _ _ (List.suffix_cons _ _) done
    · trivial
  · trivial

theorem emits_getRun : Emits (JobRule horizon) (yields fun run es =>
      ∃ tag, Issued (B := JobStore) (.record ref) (.run run) tag es) (getRun ref) past := by
  rw [getRun, emits_bind, emits_bucketGet]
  refine ⟨trivial, ?_, trivial, trivial⟩
  intro v tag
  cases v with
  | run run => exact ⟨tag, .inl (.head _)⟩
  | _ => trivial

theorem keeps_runExists : Keeps (JobRule horizon) (runExists ref) := by
  refine (keeps_bucketGet fun _ => trivial).bind fun found => ?_
  cases found with
  | none => exact keeps_ret
  | some _ => exact keeps_ret

/-- The marker is tried before the record; a record that stands is read back. -/
theorem emits_writeRun (reason : Origin past run) :
    Emits (JobRule horizon) (yields fun written es =>
      ∃ tag, Issued (B := JobStore) (.record run.ref) (.run written) tag es)
        (writeRun run) past := by
  refine emits_createId_then trivial fun continuation => ?_
  refine emits_then (emits_putIfAbsent ⟨rfl, _, _, rfl, rfl, rfl⟩) ?_
  rintro _ es grown ⟨r, rfl, answered, _⟩
  refine emits_then (emits_putIfAbsent trivial) ?_
  rintro _ es grown' ⟨r', rfl, _, _⟩
  refine emits_then (emits_putIfAbsent ⟨run, rfl, rfl, ?_,
    reason.grow (grown.trans grown').past⟩) ?_
  · exact ⟨⟨run.ref, continuation, run.queuedAt⟩, r, by simp, rfl, answered⟩
  rintro created es _ ⟨r'', rfl, _, stored⟩
  split
  · next made =>
    obtain ⟨tag, rfl⟩ := stored made
    exact ⟨tag, .inr ⟨_, .head _⟩⟩
  · exact emits_getRun

/-- Under a given identifier a run needs a reason. -/
theorem emits_enqueue (given : input.runId = some run)
    (reason : ∀ es now, past <:+ es → Origin es (queuedRun input run now)) :
    Emits (JobRule horizon) (yields fun written es => Recorded written es)
      (enqueue input) past := by
  rw [enqueue, given]
  show Emits _ _ (dateNow >>= fun now => writeRun (queuedRun input run now)) _
  refine ⟨trivial, fun now => (emits_writeRun (reason _ now (List.suffix_cons _ past))).returns ?_⟩
  rintro written es _ ⟨tag, issued⟩
  exact ⟨_, tag, issued⟩

/-- Without one it is a first attempt under an identifier drawn for it. -/
theorem emits_enqueueFresh (fresh : input.runId = none)
    (unscheduled : input.scheduledFor = none) (first : input.attempt = none)
    (original : input.retryOf = none) :
    Emits (JobRule horizon) (yields fun written es => Recorded written es)
      (enqueue input) past := by
  rw [enqueue, fresh]
  refine emits_createId_then trivial fun run => ?_
  refine ⟨trivial, fun now => (emits_writeRun ?_).returns ?_⟩
  · refine .manual now rfl unscheduled ?_ original ⟨[], past, rfl⟩
    rw [queuedRun, first]
    rfl
  · rintro written es _ ⟨tag, issued⟩
    exact ⟨_, tag, issued⟩

theorem emits_writeSkipped
    (reason : ∀ es now, past <:+ es → Origin es (skippedRun job scheduledFor timeout why run now)) :
    Emits (JobRule horizon) (yields fun written es =>
        ∃ tag, Issued (B := JobStore) (.record ⟨job, run⟩) (.run written) tag es)
      (writeSkipped job (some run) scheduledFor timeout why) past := by
  show Emits _ _ (dateNow >>= fun now =>
    writeRun (skippedRun job scheduledFor timeout why run now)) _
  exact ⟨trivial, fun now => emits_writeRun (reason _ now (List.suffix_cons _ past))⟩

/-! ## Transitions -/

theorem parseJobRun_only : ParsesOnly (B := JobStore) parseJobRun .run := by
  intro v
  cases v with
  | run run => exact .inl ⟨run, rfl, rfl⟩
  | _ => exact .inr ⟨_, rfl⟩

/-- A run that has ended has no further transition. -/
theorem nextRunStatus_terminal (ended : isTerminalRunStatus status = true) :
    nextRunStatus status event = none := by
  revert ended
  cases status <;> cases event <;> decide

/-- The edge a transition takes. -/
def RunStep (event : RunEvent) (current next : JobRun) : Prop :=
  ∃ patch status, nextRunStatus current.status event = some status ∧
    next = current.patched patch status

/-- Reading the clock is all a patch does. -/
theorem decides_applyTransition : Emits (fun _ o => o = .now)
      (fun out _ => ∀ next, out = .ok (some next) → RunStep event current next)
      (applyTransition event patching current) past := by
  unfold applyTransition
  split
  · rintro next ⟨⟩
  · next status edge =>
    cases patching with
    | fixed patch =>
      rintro next ⟨⟩
      exact ⟨patch, status, edge, rfl⟩
    | stamped patch =>
      refine ⟨rfl, ?_⟩
      rintro now next ⟨⟩
      exact ⟨patch now, status, edge, rfl⟩

/-- The run that is returned was written, or read where there is no edge. -/
theorem emits_transition : Emits (JobRule horizon) (yields fun result es => Recorded result.run es)
      (transition ref event patching) past := by
  refine emits_then (emits_mutateRecord parseJobRun_only (fun _ => trivial)
    (by rintro _ _ rfl; trivial) (fun current tag past => decides_applyTransition) ?_) ?_
  · rintro es tag current next read ⟨patch, status, edge, same⟩
    exact ⟨next, rfl, current, event, patch, status, .inl read, edge, same⟩
  · rintro ⟨value, written⟩ es _ result
    cases written with
    | true =>
      obtain ⟨current, tag, tag', rest, _, rfl, _⟩ := result
      exact ⟨ref, tag', .inr ⟨_, .head _⟩⟩
    | false =>
      obtain ⟨tag, new, rest, rfl, _⟩ := result
      exact ⟨ref, tag, .inl (by simp)⟩

/-! ## Markers -/

theorem emits_readActive : Emits (JobRule horizon) (yields fun result es =>
      ∀ run, result.1.run = some run → Recorded run es) (readActive marker) past := by
  rw [readActive, emits_bind, emits_bucketGet]
  refine ⟨trivial, ?_, ?_, trivial⟩
  · intro v tag
    cases v with
    | run run =>
      rintro _ ⟨⟩
      exact ⟨marker.ref, tag, .inl (.head _)⟩
    | _ => rintro _ ⟨⟩
  · rintro _ ⟨⟩

theorem emits_activeEntry : Emits (JobRule horizon) (yields fun result es =>
      ∀ entry run, result.1 = some entry → entry.run = some run → Recorded run es)
      (activeEntry key) past := by
  rw [activeEntry, emits_bind, emits_bucketGet]
  refine ⟨trivial, ?_, ?_, trivial⟩
  · intro v tag
    cases v with
    | marker marker =>
      refine emits_then emits_readActive ?_
      rintro result es _ recorded entry run ⟨⟩ found
      exact recorded run found
    | _ => rintro _ _ ⟨⟩
  · rintro _ _ ⟨⟩

/-- The records a snapshot shows were read. -/
def SnapshotRead (entries : List ActiveRun) (es : Log JobStore) : Prop :=
  ∀ entry ∈ entries, ∀ run, entry.run = some run → Recorded run es

theorem emits_activeEntries :
    Emits (JobRule horizon) (yields fun snapshot es => SnapshotRead snapshot.entries es)
      (activeEntries keys) past := by
  induction keys generalizing past with
  | nil => rintro _ ⟨⟩
  | cons key rest ih =>
    refine emits_then emits_activeEntry ?_
    intro result es _ read
    refine emits_then ih ?_
    intro others es' grown recorded entry member run found
    rcases List.mem_append.mp member with here | there
    · exact (read entry run (Option.mem_toList.mp here) found).grow grown
    · exact recorded entry there run found

/-- A snapshot shows no record that was not read. -/
theorem emits_listActiveSnapshot :
    Emits (JobRule horizon) (yields fun snapshot es => SnapshotRead snapshot.entries es)
      (listActiveSnapshot paging) past := by
  refine emits_seq (emits_listPages paging.pages past fun _ _ _ _ => trivial) ?_ ?_
  · intro keys es _ _
    exact emits_activeEntries
  · intro _ _ _ _
    trivial

theorem emits_deleteMarker (allowed : JobRule horizon past (.delete (.marker ref))) :
    Emits (JobRule horizon) (yields fun _ _ => True) (deleteMarker ref) past := by
  rw [deleteMarker, ignoringErrors, emits_tryCatch, emits_bucketDelete]
  exact ⟨allowed, trivial, trivial⟩

/-- The read of the marker is the last event. -/
theorem emits_getMarker :
    Emits (JobRule horizon) (yields fun found es => ∀ marker, found = some marker →
      ∃ tag, es = ⟨.get (.marker ref), .found (.marker marker) tag⟩ :: past)
      (getMarker ref) past := by
  rw [getMarker, emits_bind, emits_bucketGet]
  refine ⟨trivial, ?_, ?_, trivial⟩
  · intro v tag
    cases v with
    | marker marker =>
      rintro _ ⟨⟩
      exact ⟨tag, rfl⟩
    | _ => trivial
  · rintro _ ⟨⟩

/-- The history entry goes first, which allows the marker to go. -/
theorem keeps_pruneDanglingMarker : Keeps (JobRule horizon) (pruneDanglingMarker marker) := by
  intro past
  rw [pruneDanglingMarker, emits_bind, emits_bucketDelete]
  refine ⟨trivial, ?_, trivial⟩
  exact (emits_deleteMarker (.inr (.inr ⟨_, _, rfl⟩))).forget

theorem keeps_pruneIfMissing : Keeps (JobRule horizon) (pruneIfMissing marker) := by
  refine keeps_runExists.bind fun _ => .ite keeps_ret ?_
  exact keeps_pruneDanglingMarker.map

theorem keeps_pruneEntries : Keeps (JobRule horizon) (pruneEntries now entries) := by
  induction entries with
  | nil => exact keeps_ret
  | cons entry rest ih =>
    refine Keeps.bind ?_ fun _ => ih.map
    exact .ite (keeps_pruneIfMissing.tryCatch fun _ => keeps_ret) keeps_ret

theorem keeps_pruneStaleMarkers : Keeps (JobRule horizon) (pruneStaleMarkers paging now) :=
  (keeps_of_emits fun _ => emits_listActiveSnapshot).bind fun _ =>
    keeps_pruneEntries

/-! ## Finalization -/

/-- A run whose job is gone is cancelled along an edge like any other. -/
theorem keeps_cancelRunIfDeleted : Keeps (JobRule horizon) (cancelRunIfDeleted run) := by
  refine (keeps_of_emits fun _ => emits_loadJob).bind fun found => ?_
  cases found with
  | some job => exact keeps_ret
  | none =>
    exact (keeps_of_emits fun _ => emits_transition).map

theorem keeps_audit : Keeps (JobRule horizon) (audit run) :=
  keeps_ask.bind keeps_orRaise

theorem keeps_notify {job : JobDefinition} : Keeps (JobRule horizon) (notify job run) :=
  .ite (keeps_ask.bind keeps_orRaise) keeps_ret

/-- The retry runs under the continuation of the marker that was read. -/
theorem emits_enqueueRetry {job : JobDefinition}
    (split : past = later ++ ⟨.get (.marker finished.ref), .found (.marker marker) tag⟩ :: earlier)
    (recorded : Recorded finished earlier)
    (loaded : ⟨.ask (.loadJob finished.ref.toJobRef), .ok (some job)⟩ ∈ past)
    (allowed : (retryAllowed job finished).isSome = true) :
    Emits (JobRule horizon) (yields fun _ _ => True)
      (enqueueRetry finished marker.continuation backoff) past := by
  refine keeps_isDeleting.seq fun deleting es first => ?_
  split
  · trivial
  · refine emits_then emits_loadJob ?_
    intro found es' second _
    cases found with
    | none => trivial
    | some current =>
      refine emits_dateNow_then trivial fun now => ?_
      have reason : ∀ es'' queuedAt, (⟨.now, now⟩ :: es' : Log JobStore) <:+ es'' →
          Origin es'' (queuedRun (retryInput finished marker.continuation (now + backoff * 1000))
            marker.continuation queuedAt) := by
        intro es'' queuedAt third
        have grown := (first.trans second).trans third.past
        refine Origin.grow ?_ grown
        exact .retry finished marker tag later earlier job rfl rfl rfl rfl rfl split recorded loaded
          allowed
      refine emits_then (emits_enqueue rfl reason) fun retryRun _ _ _ => ?_
      exact keeps_cancelRunIfDeleted.map.yields

/-- The job is loaded after the marker was read, and decides on the retry. -/
theorem emits_afterRun
    (split : past = ⟨.get (.marker finished.ref), .found (.marker marker) tag⟩ :: earlier)
    (recorded : Recorded finished earlier) :
    Emits (JobRule horizon) (yields fun _ _ => True)
      (afterRun finished marker.continuation) past := by
  unfold afterRun
  split
  · refine keeps_audit.seq fun _ es first => ?_
    split
    · trivial
    · refine emits_then emits_loadJob ?_
      intro found es' second loaded
      cases found with
      | none => trivial
      | some job =>
        dsimp only
        cases allowed : retryAllowed job finished with
        | none => exact keeps_notify.yields
        | some backoff =>
          obtain ⟨later, rfl⟩ := first.trans second
          subst split
          have answered : ⟨.ask (.loadJob finished.ref.toJobRef), .ok (some job)⟩ ∈
              later ++ ⟨.get (.marker finished.ref), .found (.marker marker) tag⟩ :: earlier := by
            rw [loaded]
            exact .head _
          exact emits_enqueueRetry rfl recorded answered (by rw [allowed]; rfl)
  · trivial

/-- The marker goes last, after the retry was enqueued. -/
theorem emits_finalizeLocked (recorded : Recorded finished past)
    (ends : ∀ es, past <:+ es → JobRule horizon es (.delete (.marker finished.ref))) :
    Emits (JobRule horizon) (yields fun _ _ => True) (finalizeLocked finished) past := by
  refine emits_then emits_getMarker ?_
  intro found es grown read
  cases found with
  | none => trivial
  | some marker =>
    obtain ⟨tag, rfl⟩ := read marker rfl
    refine emits_then (emits_afterRun rfl recorded) ?_
    intro _ es' grown' _
    exact emits_deleteMarker (ends es' (grown.trans grown'))

/-- Only a run that has ended is finalized. -/
theorem emits_finalize (recorded : Recorded finished past) :
    Emits (JobRule horizon) (yields fun _ _ => True) (finalize finished) past := by
  unfold finalize
  split
  · next ended =>
    refine emits_withJobMutation (fun _ _ _ _ _ => trivial) ?_
    intro es grown
    refine emits_finalizeLocked (recorded.grow grown) ?_
    intro later grown'
    exact .inl (.of_recorded ended ((recorded.grow grown).grow grown'))
  · trivial

/-! ## Firing -/

/-- What a claim attempt tells about the claim that stands. -/
def ClaimSeen (job : JobRef) (minute : Int) (run : RunId) (outcome : ClaimOutcome)
    (es : Log JobStore) : OccurrenceClaim → Prop
  | .claimed => ∃ occurrence tag, occurrence.run = run ∧ occurrence.outcome = some outcome ∧
      Issued (B := JobStore) (.occurrence job minute) (.occurrence occurrence) tag es
  | .standing none => True
  | .standing (some existing) =>
      ∃ tag, Issued (B := JobStore) (.occurrence job minute) (.occurrence existing) tag es

/-- Claimed or not, the caller knows the claim that stands. -/
theorem emits_claimOccurrence :
    Emits (JobRule horizon) (yields fun claim es => ClaimSeen job minute run outcome es claim)
      (claimOccurrence job minute run firedAt outcome) (⟨.mint, run⟩ :: past) := by
  refine emits_then (emits_putIfAbsent ⟨rfl, _, _, rfl, rfl⟩) ?_
  rintro created es _ ⟨r, rfl, _, stored⟩
  split
  · next made =>
    obtain ⟨tag, rfl⟩ := stored made
    exact ⟨_, tag, rfl, rfl, .inr ⟨_, .head _⟩⟩
  · rw [emits_bind, emits_bucketGet]
    refine ⟨trivial, ?_, trivial, trivial⟩
    intro v tag
    cases v with
    | occurrence occurrence => exact ⟨tag, .inl (.head _)⟩
    | _ => trivial

/-- A skipped run is finalized at once, and any other enqueued under the identifier of the claim. -/
theorem emits_writeClaimed {ref : JobRef} {job : JobDefinition}
    {claimed : Bool} (agreed : outcome = occurrence.outcome.getD .run)
    (issued : Issued (B := JobStore) (.occurrence ref (occurrenceMinute instant))
      (.occurrence occurrence) tag past) :
    Emits (JobRule horizon) (yields fun _ _ => True)
      (writeClaimed config ref job instant occurrence.run outcome claimed) past := by
  have status : startStatus occurrence.outcome = if outcome = .skip then .skipped else .queued := by
    rw [agreed]
    rcases occurrence.outcome with _ | _ | _ <;> rfl
  cases outcome with
  | skip =>
    refine emits_then (emits_writeSkipped ?_) ?_
    · intro es now grown
      exact .scheduled instant occurrence tag status.symm rfl rfl rfl rfl (issued.mono grown.subset)
    · rintro skipped es grown ⟨tag', stored⟩
      refine emits_then (emits_finalizeLocked ⟨_, tag', stored⟩ ?_) ?_
      · intro later grown'
        have skips : occurrence.outcome = some .skip := by
          rcases which : occurrence.outcome with _ | _ | _ <;> rw [which] at agreed <;> cases agreed
        exact .inr (.inl ⟨⟨ref, occurrence.run⟩, skipped, _, occurrence, tag, tag', rfl,
          issued.mono (grown.trans grown').subset, rfl, skips, stored.mono grown'.subset⟩)
      · intro _ _ _ _
        trivial
  | run =>
    have enqueued : Emits (JobRule horizon) (yields fun _ _ => True)
        (enqueueScheduled config ref job occurrence.run instant) past := by
      refine emits_then (emits_enqueue rfl ?_) ?_
      · intro es now grown
        exact .scheduled instant occurrence tag status.symm rfl rfl rfl rfl
          (issued.mono grown.subset)
      · intro queued _ _ _
        exact keeps_cancelRunIfDeleted.map.yields
    refine emits_then enqueued ?_
    intro done es _ _
    split <;> trivial

/-- Where a claim stands without its run, the run is written for that claim. -/
theorem emits_fireOccurrence {ref : JobRef} {job : JobDefinition} :
    Emits (JobRule horizon) (yields fun _ _ => True)
      (fireOccurrence config ref job now instant outcome) past := by
  refine emits_createId_then trivial fun run => ?_
  refine emits_then emits_claimOccurrence ?_
  intro claim es _ seen
  cases claim with
  | claimed =>
    obtain ⟨occurrence, tag, rfl, agreed, issued⟩ := seen
    exact emits_writeClaimed (by rw [agreed]; rfl) issued
  | standing existing =>
    cases existing with
    | none => trivial
    | some existing =>
      obtain ⟨tag, issued⟩ := seen
      refine keeps_runExists.seq fun found es' grown => ?_
      split
      · trivial
      · exact emits_writeClaimed rfl (issued.mono grown.subset)

theorem keeps_fire (config : JobSchedulerConfig) (ref : JobRef) (now : Nat) (hasActive : Bool) :
    Keeps (JobRule horizon) (fire config ref now hasActive) := by
  refine keeps_of_emits fun _ => emits_withJobMutation
    (fun _ _ _ _ _ => trivial) fun _ _ => Keeps.yields ?_
  refine keeps_isDeleting.bind fun _ => .ite keeps_ret ?_
  refine (keeps_of_emits fun _ => emits_loadJob).bind fun found => ?_
  cases found with
  | none => exact keeps_ret
  | some job =>
    show Keeps _ (fireJob config ref now hasActive job)
    unfold fireJob
    split
    · split
      · exact keeps_ret
      · exact keeps_of_emits fun _ => emits_fireOccurrence
    · exact keeps_ret

/-- A job that fails to fire does not keep the next from firing. -/
theorem keeps_fireJobs (config : JobSchedulerConfig) (now : Nat) (jobs active : List JobRef)
    (result : TickResult) : Keeps (JobRule horizon) (fireJobs config now jobs active result) := by
  induction jobs generalizing active result with
  | nil => exact keeps_ret
  | cons job rest ih =>
    refine (((keeps_fire config job now _).map).tryCatch fun _ => keeps_ret).bind fun outcome => ?_
    cases outcome with
    | none => exact ih active result.failed
    | some outcome => exact ih _ _

/-! ## The tick -/

theorem keeps_destroySandbox {id : Option Nat} : Keeps (JobRule horizon) (destroySandbox id) := by
  cases id with
  | none => exact keeps_ret
  | some id => exact keeps_ask

/-- The run that is finalized is the one the transition returned. -/
theorem emits_watchdog :
    Emits (JobRule horizon) (yields fun _ _ => True) (watchdog config run now) past := by
  unfold watchdog
  split
  · refine keeps_destroySandbox.seq fun _ _ _ => ?_
    refine emits_then emits_transition fun outcome es _ recorded => ?_
    split
    · exact emits_then (emits_finalize recorded) fun _ _ _ _ => trivial
    · trivial
  · trivial

/-- A record is finalized as the snapshot read it. -/
theorem emits_handleEntry (config : JobSchedulerConfig) (now : Nat) (state : TickState)
    (entry : ActiveRun) (read : ∀ run, entry.run = some run → Recorded run past) :
    Emits (JobRule horizon) (yields fun _ _ => True) (handleEntry config now state entry) past := by
  unfold handleEntry
  split
  · refine emits_caught (emits_then (P := fun _ _ => True) ?_ ?_) fun _ _ _ => trivial
    · unfold dropDangling
      split
      · exact keeps_pruneIfMissing.yields
      · trivial
    · intro _ _ _ _
      trivial
  · next run found =>
    split
    · refine emits_caught (emits_then (emits_finalize (read run found)) ?_) fun _ _ _ => trivial
      intro _ _ _ _
      trivial
    · split
      · rw [handleQueued, emits_bind, emits_ask]
        refine ⟨trivial, fun executing => ?_⟩
        rw [andThen_ok]
        split
        · trivial
        · exact (keeps_cancelRunIfDeleted.map.tryCatch fun _ => keeps_ret).yields
      · refine emits_then emits_watchdog ?_
        intro reclaimed es _ _
        split <;> trivial

theorem emits_handleEntries (config : JobSchedulerConfig) (now : Nat) (entries : List ActiveRun)
    (state : TickState) (read : SnapshotRead entries past) :
    Emits (JobRule horizon) (yields fun _ _ => True) (handleEntries config now entries state)
      past := by
  induction entries generalizing state past with
  | nil => trivial
  | cons entry rest ih =>
    refine emits_then (emits_handleEntry config now state entry (read entry (.head _))) ?_
    intro state es grown _
    refine ih state ?_
    intro other member run found
    exact (read other (.tail _ member) run found).grow grown

/-- The runs that are handled come from a snapshot taken after the firing. -/
theorem emits_tick {paging : TickPaging} :
    Emits (JobRule horizon) (yields fun _ _ => True) (tick config paging) past := by
  refine emits_dateNow_then trivial fun now => ?_
  refine keeps_indexedJobs.seq fun jobs es _ => ?_
  refine emits_then emits_listActiveSnapshot ?_
  intro beforeFire es _ _
  refine (keeps_fireJobs config now _ _ _).seq fun fired es _ => ?_
  refine emits_then emits_listActiveSnapshot ?_
  intro active es _ read
  refine emits_then (emits_handleEntries config now active.entries _ read) ?_
  intro _ _ _ _
  trivial

/-! ## Execution -/

/-- Whatever fails, the run that is returned was recorded. -/
theorem emits_recoverRun (recorded : Recorded claimed past) :
    Emits (JobRule horizon) (yields Recorded) (recoverRun claimed err) past := by
  unfold recoverRun
  split
  · refine emits_caught (emits_getRun.returns ?_) ?_
    · rintro run es _ ⟨tag, issued⟩
      exact ⟨_, tag, issued⟩
    · intro _ es grown
      exact recorded.grow grown
  · refine emits_caught (emits_then emits_transition ?_) ?_
    · intro outcome es _ moved
      exact moved
    · intro _ es grown
      exact recorded.grow grown

theorem emits_exportRun {started : JobRun} :
    Emits (JobRule horizon) (yields Recorded) (exportRun started) past := by
  rw [exportRun, emits_bind]
  refine ⟨trivial, fun captured => ?_⟩
  refine emits_then emits_orRaise ?_
  intro capture es _ _
  rw [emits_bind]
  refine ⟨trivial, fun written => ?_⟩
  refine emits_then emits_orRaise ?_
  intro _ es _ _
  refine emits_then emits_transition ?_
  intro outcome es _ moved
  exact moved

theorem emits_startRun : Emits (JobRule horizon) (yields Recorded) (startRun claimed) past := by
  refine emits_then emits_transition ?_
  intro started es _ _
  split
  · exact emits_exportRun
  · trivial

theorem emits_runClaimed (recorded : Recorded claimed past) :
    Emits (JobRule horizon) (yields Recorded) (runClaimed claimed sandboxId) past := by
  rw [runClaimed, emits_bind]
  refine ⟨trivial, fun prepared => ?_⟩
  have before :=
    recorded.grow (List.suffix_cons ⟨.ask (.prepareSandbox claimed.ref), prepared⟩ past)
  cases prepared with
  | error err => exact emits_recoverRun before
  | ok ready =>
    refine emits_then (emits_caught emits_startRun ?_) ?_
    · intro err es grown
      exact emits_recoverRun (before.grow grown)
    · intro final es _ done
      exact ⟨trivial, fun _ => done.grow (List.suffix_cons _ es)⟩

theorem emits_execute : Emits (JobRule horizon) (yields Recorded) (execute queued) past := by
  refine emits_dateNow_then trivial fun startedAt => ?_
  rw [emits_bind]
  refine ⟨trivial, fun loaded => ?_⟩
  cases loaded with
  | error err =>
    refine emits_then emits_transition ?_
    intro outcome es _ moved
    exact moved
  | ok ready =>
    refine emits_createId_then trivial fun sandboxId => ?_
    rw [emits_bind]
    refine ⟨trivial, fun provisioned => ?_⟩
    refine emits_then emits_transition ?_
    intro claimed es _ moved
    split
    · exact emits_runClaimed moved
    · exact moved

/-- The run that is finalized is the one the execution ended with. -/
theorem emits_dispatch (run : JobRun) :
    Emits (JobRule horizon) (yields fun _ _ => True) (dispatch run) past := by
  refine emits_caught (emits_then emits_execute ?_) fun _ _ _ => trivial
  intro finished es _ recorded
  rw [emits_bind, emits_ask]
  refine ⟨trivial, fun external => ?_⟩
  rw [andThen_ok]
  split
  · trivial
  · exact emits_finalize (recorded.grow (List.suffix_cons _ es))

end Rules

/-! ## Calls -/

/-- The calls of the scheduler and of the routes that enqueue and cancel runs. -/
inductive SchedulerCall where
  /-- A run asked for by a user. -/
  | trigger (job : JobRef) (user : UserId) (timeoutSeconds : Nat)
  | transition (run : RunRef) (event : RunEvent) (patching : RunPatching)
  | tick (config : JobSchedulerConfig) (paging : TickPaging)
  /-- The execution that a tick starts of a run it admitted. A run of the system may have it at any
  time, whether or not there was such a tick. -/
  | dispatch (run : JobRun)
  | pruneStaleMarkers (paging : Pages JobStore isMarkerKey)

/-- The caller's use of the result is not modelled. -/
def dropValue {α : Type} (p : Hub JobStore α) : Hub JobStore Unit := do
  let _ ← p
  pure ()

def manualInput (job : JobRef) (user : UserId) (timeoutSeconds : Nat) : EnqueueRunInput where
  job := job
  trigger := .manual
  triggeredBy := some user
  timeoutSeconds := timeoutSeconds

/-- The default of `now` is the clock. -/
def pruneMarkersNow (paging : Pages JobStore isMarkerKey) : Hub JobStore Nat := do
  let now ← dateNow
  pruneStaleMarkers paging now

def SchedulerCall.run : SchedulerCall → Hub JobStore Unit
  | .trigger job user timeout => dropValue (enqueue (manualInput job user timeout))
  | .transition run event patching => dropValue (Source.transition run event patching)
  | .tick config paging => dropValue (Source.tick config paging)
  | .dispatch run => Source.dispatch run
  | .pruneStaleMarkers paging => dropValue (pruneMarkersNow paging)

theorem emits_dropValue (emits : Emits (JobRule horizon) (yields P) p past) :
    Emits (JobRule horizon) (yields fun _ _ => True) (dropValue p) past :=
  emits_then emits fun _ _ _ _ => trivial

/-- Every call of the scheduler keeps the rule, with or without retention. -/
theorem schedulerCall_keeps_rule {call : SchedulerCall} :
    Emits (JobRule horizon) (yields fun _ _ => True) call.run [] := by
  cases call with
  | trigger job user timeout => exact emits_dropValue (emits_enqueueFresh rfl rfl rfl rfl)
  | transition run event patching => exact emits_dropValue emits_transition
  | tick config paging => exact emits_dropValue emits_tick
  | dispatch run => exact emits_dispatch run
  | pruneStaleMarkers paging =>
    refine emits_dropValue (P := fun _ _ => True) ?_
    exact ⟨trivial, fun now => keeps_pruneStaleMarkers.yields⟩

end MarimoHub.Guarantees
