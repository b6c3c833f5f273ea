import MarimoHub.ObjectStore.Record
import MarimoHub.Guarantees.ProjectCalls

/-!
# Projected labels agree with the record

Setting the labels of a project parks the projection, writes the record and
finalizes. The pending marker is one bit of the catalog entry, shared by all
mutations: one call's finalization, or the rollback of a rejected call, clears it
while another call is still on its way to its record write. The projection is then
determinate and wrong (`cleared_marker_exposes_stale_labels`).

The projection agrees with the record in every run in which no record write finds
the marker cleared, and nobody writes labels between the record read and the catalog
swap of a finalizing attempt. A routine projection needs no such condition: it
projects labels only over an entry without a marker, and while that entry is current
no labels are written.
-/

namespace MarimoHub.Guarantees

open ObjectStore Source Prog

/-! ## The property -/

/-- The labels an entry shows, when they are determinate. -/
def projectedLabels (entry : SnapshotProjectEntry) : Option (Option ResourceSecurityLabels) :=
  if entry.securityLabelsPending then none else entry.securityLabels

/-- The labels of the authoritative record. -/
def recordLabels (id : ProjectId) (t : Trace Content) : Option (Option ResourceSecurityLabels) :=
  match lookup (Key.project id) t with
  | some (.project p) => some p.securityLabels
  | _ => none

def LabelsAgree (t : Trace Content) : Prop :=
  ∀ snap ∈ currentSnapshot t, ∀ entry ∈ snap.projects, ∀ labels ∈ projectedLabels entry,
    recordLabels entry.id t = some labels

instance decidableLabelsAgree (t : Trace Content) : Decidable (LabelsAgree t) :=
  inferInstanceAs (Decidable (∀ snap ∈ currentSnapshot t, ∀ entry ∈ snap.projects,
    ∀ labels ∈ projectedLabels entry, recordLabels entry.id t = some labels))

/-! ## The condition -/

section Condition

variable (calls : Nat → ProjectCall)

/-- The project whose record the event gives new labels. -/
def labelWrite (e : Event Content) : Option ProjectId :=
  match e.thread, e.op with
  | some i, .put (.project id) _ _ =>
    if e.applied = true ∧ (calls i).relabels = some id then some id else none
  | _, _ => none

/-- Every entry of the project carries the pending marker. -/
def parked (id : ProjectId) (t : Trace Content) : Bool :=
  match currentSnapshot t with
  | some snap => snap.projects.all fun entry => entry.id ≠ id || entry.securityLabelsPending
  | none => true

/-- New labels are written while the marker is in place. -/
def writesParked (past : Trace Content) (e : Event Content) : Bool :=
  match labelWrite calls e with
  | some id => parked id past
  | none => true

def readsProject (id : ProjectId) : Op Content → Bool
  | .get (.project id') => id' = id
  | _ => false

/-- Nobody wrote labels of the project since client `i` last read its record. -/
def unchangedSinceRead (i : Nat) (id : ProjectId) : Trace Content → Bool
  | [] => true
  | e :: past =>
    if e.thread = some i ∧ readsProject id e.op = true then true
    else labelWrite calls e ≠ some id && unchangedSinceRead i id past

/-- A swap that clears the marker projects the labels the record has. -/
def finalizesUnchanged (past : Trace Content) (e : Event Content) : Bool :=
  match e.thread, committed e with
  | some i, some cat =>
    match (calls i).relabels, lookup cat.currentSnapshotKey past with
    | some id, some (.snapshot s) =>
      !finalizing s.operation || unchangedSinceRead calls i id past
    | _, _ => true
  | _, _ => true

end Condition

/-! ## What the callbacks do to the entries -/

theorem projectById_mem {id : ProjectId}
    (found : projectById snap id = some project) : project ∈ snap.projects ∧ project.id = id := by
  exact ⟨List.mem_reverse.mp (List.mem_of_find?_eq_some found), by
    simpa using List.find?_some found⟩

variable {finalize : Bool} {updated p : Project} {e g : Event Content}
  {past q : Trace Content} {i : Nat} {s : Attempt} {tag : Etag Content}

theorem patched_of_runs {id : ProjectId}
    (runs : Runs ((patchProjectFn id patch).run base) es (.ret result))
    (changed : result ≠ .draft base) {P : SnapshotProjectEntry → Events → ProjectPatch → Prop}
    (loads : ∀ project, Emits (fun _ _ => True) (fun out es => ∀ loaded, out = .ok loaded → P
      project es (loaded.getD fun entry => entry)) (patch.load project) []) :
    ∃ project edit, projectById base id = some project ∧ P project es edit ∧
      result.value = patchProjects base id edit := by
  simp only [patchProjectFn] at runs
  cases found : projectById base id with
  | none =>
    rw [found] at runs
    have alone : Emits (fun _ _ => True) (fun out _ => out = .ok (MutateResult.draft base))
        (pure (.draft base) : Hub Content MutateResult) [] := rfl
    cases (alone.runs runs).1
    exact absurd rfl changed
  | some project =>
    rw [found] at runs
    have alone : Emits (fun _ _ => True) (fun out es => ∀ r, out = .ok r →
        ∃ edit, P project es edit ∧ r.value = patchProjects base id edit) (do
          let projectPatch ← patch.load project
          pure (MutateResult.fresh (patchProjects base id (projectPatch.getD fun entry => entry))))
        [] := by
      rw [emits_bind]
      refine (loads project).mono ?_
      intro out es loaded
      cases out with
      | error err => rintro _ ⟨⟩
      | ok patch =>
        rintro _ ⟨⟩
        exact ⟨_, loaded patch rfl, rfl⟩
    obtain ⟨edit, facts⟩ := (alone.runs runs).1 result rfl
    exact ⟨project, edit, rfl, facts⟩

/-- The record was read and projected, or was missing. -/
def Loaded (id : ProjectId) (finalize : Bool) (missing : ProjectPatch)
    (project : SnapshotProjectEntry) (es : Events) (edit : ProjectPatch) : Prop :=
  (∃ p tag, es = [⟨.get (.project id), .found (.project p) tag⟩] ∧
    edit = projectCatalogPatch p project finalize) ∨
  (es = [⟨.get (.project id), .absent⟩] ∧ edit = missing)

theorem emits_loadProjectCatalogPatch {id : ProjectId} (missing : ProjectPatch) :
    Emits (fun _ _ => True) (fun out es => ∀ loaded, out = .ok loaded →
      Loaded id finalize missing project es (loaded.getD missing))
      (loadProjectCatalogPatch id project finalize) [] := by
  simp only [loadProjectCatalogPatch, emits_bind, emits_bucketGet, andThen_ok, emits_pure]
  refine ⟨trivial, ?_, ?_, ?_⟩
  · intro v tag
    cases v with
    | project p =>
      rintro _ ⟨⟩
      exact .inl ⟨p, tag, rfl, rfl⟩
    | _ => rintro _ ⟨⟩
  · rintro _ ⟨⟩
    exact .inr ⟨rfl, rfl⟩
  · rintro _ ⟨⟩

theorem loads_projectRecord {id : ProjectId} (project : SnapshotProjectEntry) :
    Emits (fun _ _ => True) (fun out es => ∀ loaded, out = .ok loaded →
      Loaded id finalize (fun entry => entry) project es (loaded.getD fun entry => entry))
      ((projectRecord id finalize).load project) [] :=
  emits_loadProjectCatalogPatch _

theorem loads_projectTombstone {id : ProjectId} (project : SnapshotProjectEntry) :
    Emits (fun _ _ => True) (fun out es => ∀ loaded, out = .ok loaded →
      Loaded id false (projectCatalogPatch updated project false) project es
        (loaded.getD fun entry => entry)) ((projectTombstone id updated).load project) [] := by
  refine emits_seq (emits_loadProjectCatalogPatch (projectCatalogPatch updated project false)) ?_
    (fun _ _ _ _ => by rintro _ ⟨⟩)
  rintro loaded es _ outcome _ ⟨⟩
  exact outcome loaded rfl

theorem projectedLabels_routine
    (shown : labels ∈ projectedLabels (projectCatalogPatch p project false entry)) :
    project.securityLabelsPending = false ∧ p.securityLabels = labels := by
  cases pending : project.securityLabelsPending <;>
    simp [projectedLabels, projectCatalogPatch, securityLabelsProjection, pending] at shown
  exact ⟨rfl, shown.2⟩

/-- A patch of one project's entries keeps the others' agreement. -/
theorem agree_of_patched {id : ProjectId}
    (records : ∀ id, recordLabels id (e :: past) = recordLabels id past)
    (current : currentSnapshot (e :: past) = some new) (was : currentSnapshot past = some base)
    (agree : LabelsAgree past) (patched : new.projects = (patchProjects base id edit).projects)
    (named : ∀ entry, (edit entry).id = entry.id)
    (shown : ∀ entry ∈ base.projects, entry.id = id → ∀ labels ∈ projectedLabels (edit entry),
      recordLabels id past = some labels) : LabelsAgree (e :: past) := by
  intro snap isCurrent entry member labels projected
  rw [current] at isCurrent
  cases isCurrent
  rw [records]
  rw [patched] at member
  obtain ⟨old, oldMember, rfl⟩ := List.mem_map.mp member
  by_cases same : old.id = id
  · simp only [same, if_true] at projected ⊢
    rw [named, same]
    exact shown old oldMember same labels projected
  · simp only [same] at projected ⊢
    exact agree base was old oldMember labels projected

/-! ## Traces of project calls -/

structure LabelHistory (a : Adapter Content) (contents : List (Key × Val))
    (calls : Nat → ProjectCall) (t : Trace Content) : Prop extends
    SwapHistory a contents (fun i => Projects (calls i)) t where
  records : ∀ e past i, (e :: past) <:+ t → e.thread = some i →
    RecordRule (calls i) (own i past) e.op

namespace LabelHistory

variable {a : Adapter Content} {contents : List (Key × Val)} {calls : Nat → ProjectCall}
  {t : Trace Content}

theorem quiet_of_unchanged {id : ProjectId} (unchanged : unchangedSinceRead calls i id past = true)
    (moment : g :: q <:+ past)
    (last : ∀ x m, x :: m <:+ past → g :: q <:+ m → x.thread = some i → readsProject id x.op =
      false) : ∀ x m, x :: m <:+ past → g :: q <:+ m → labelWrite calls x ≠ some id := by
  induction past with
  | nil => simp at moment
  | cons head tail ih =>
    intro x m xMoment after
    -- `head` is no own read of the record, since `g` was the last one
    have inside : g :: q <:+ tail := by
      rcases List.suffix_cons_iff.mp xMoment with same | below
      · cases same
        exact after
      · exact after.trans below.past
    have other : ¬ (head.thread = some i ∧ readsProject id head.op = true) := by
      rintro ⟨thread, reads⟩
      rw [last head tail List.suffix_rfl inside thread] at reads
      cases reads
    simp only [unchangedSinceRead, if_neg other, Bool.and_eq_true, decide_eq_true_eq] at unchanged
    rcases List.suffix_cons_iff.mp xMoment with same | below
    · cases same
      exact unchanged.1
    · exact ih unchanged.2 inside (fun x' m' moment' => last x' m' (moment'.cons)) x m below after

section

variable (history : LabelHistory a contents calls t)

include history

theorem record_effect {id : ProjectId} (moment : e :: past <:+ t) (mine : e.thread = some i)
    (effect : e.effect (.project id) = some w) :
    ∃ new, w = some (.project new) ∧ (labelWrite calls e = some id ∨
      ∃ old, lookup (Key.project id) past = some (.project old) ∧
        new.securityLabels = old.securityLabels) := by
  obtain ⟨v, c, r, rfl, shape, applied, old, new, tag, rfl, rfl, read, relabels | same⟩ :=
    written_under (history.records e past i moment mine) effect False.elim
  · have op : e.op = .put (.project id) (.project new) (.ifMatch tag) := congrArg Ev.op shape
    refine ⟨new, rfl, .inl ?_⟩
    simp [labelWrite, mine, op, applied, relabels]
  · refine ⟨new, rfl, .inr ⟨old, ?_, same⟩⟩
    -- the write found the record its tag was issued for
    obtain ⟨g, q, gMoment, _, gShape⟩ := exists_own_mem read
    have toTrace := gMoment.trans moment.past
    rw [← ((history.accepted.at toTrace).tagged gShape).2]
    exact ((history.accepted.at moment).matched shape applied).1

theorem recordLabels_step {id : ProjectId} (moment : e :: past <:+ t) (mine : e.thread = some i)
    (quiet : labelWrite calls e ≠ some id) :
    recordLabels id (e :: past) = recordLabels id past := by
  unfold recordLabels
  rw [lookup_cons]
  cases effect : e.effect (.project id) with
  | none => rfl
  | some w =>
    obtain ⟨new, rfl, writes | ⟨old, found, same⟩⟩ := history.record_effect moment mine effect
    · exact absurd writes quiet
    · simp [found, same]

theorem recordLabels_stable {id : ProjectId} (based : seed a contents <:+ q) (above : q <:+ past)
    (below : past <:+ t) (quiet : ∀ x m, x :: m <:+ past → q <:+ m → labelWrite calls x ≠ some
      id) : recordLabels id past = recordLabels id q := by
  refine lasts (P := (recordLabels id · = recordLabels id q)) above rfl ?_
  intro x m moment inside before
  rw [← before]
  cases thread : x.thread with
  | none =>
    have seeded := history.seeds x m (moment.trans below) thread
    exact absurd (seeded.trans (based.trans inside)) (not_earlier rfl)
  | some i => exact history.recordLabels_step (moment.trans below) thread (quiet x m moment inside)

theorem record_present {id : ProjectId} (stored : Stored (B := Content) (.project id) v
      t) : lookup (Key.project id) t ≠ none := by
  refine lookup_ne_none stored fun e member removed => ?_
  cases thread : e.thread with
  | none =>
    obtain ⟨v, same, _⟩ := effect_seed (history.seeded e member thread) removed
    cases same
  | some i =>
    obtain ⟨past, moment⟩ := exists_past member
    obtain ⟨new, same, _⟩ := history.record_effect moment thread removed
    cases same

theorem suffix (earlier : past <:+ t) : LabelHistory a contents calls past where
  toSwapHistory := history.toSwapHistory.suffix earlier
  records e past' i moment := history.records e past' i (moment.trans earlier)

theorem record_read {id : ProjectId} (earlier : past <:+ t)
    (unswapped : Unswapped before s.earlier) (ownEq : own i past = s.prepared call)
    (missing : s.callback = [⟨.get (.project id), .absent⟩])
    (written : ⟨.put (.project id) (.project updated) c, .ok tag⟩ ∈ before) : False := by
  obtain ⟨g, q, _, moment, _, shape, older, _⟩ := history.callback_moment earlier ownEq missing
  have inTrace := (moment.trans earlier).past
  obtain ⟨new, split, _⟩ := unswapped
  obtain ⟨x, qx, xMoment, _, xShape⟩ :=
    exists_own_mem (older _ (split ▸ List.mem_append_right new written))
  have done := ((history.accepted.at (xMoment.trans inTrace)).responds_of xShape).2.2
  have stored : Stored (B := Content) (.project id) (.project updated) q :=
    ⟨x, xMoment.subset (.head _), by rw [effect_put xShape, done]; simp⟩
  have gone := (history.accepted.at (moment.trans earlier)).responds_of shape
  exact (history.suffix inTrace).record_present stored gone.1

theorem recordLabels_of_read {id : ProjectId} (moment : g :: q <:+ past) (below : past <:+ t)
    (mine : g.thread = some i) (shape : g.toEv = ⟨.get (.project id), .found (.project p) tag⟩)
    (quiet : ∀ x m, x :: m <:+ past → g :: q <:+ m → labelWrite calls x ≠ some id) :
    recordLabels id past = some p.securityLabels := by
  have inTrace := moment.trans below
  have based := (history.based g q i inTrace mine).trans (List.suffix_cons g q)
  rw [history.recordLabels_stable based moment below quiet]
  have found := (history.accepted.at inTrace).responds_of shape
  have op : g.op = .get (.project id) := congrArg Ev.op shape
  simp [recordLabels, Event.effect, op, found.1]

/-- While an entry without the marker is current, its labels are not written. -/
theorem quiet_of_unparked (parkedWrites : Along (fun past e => writesParked calls past e = true) t) 
    (moment : e :: past <:+ t) (swap : Swapped call before s i e past)
    (based : seed a contents <:+ qc)
    (read : lookup Key.catalog qc = some (.catalog s.catalog)) (member : project ∈ s.base.projects)
    (unparked : project.securityLabelsPending = false)
    (xMoment : x :: m <:+ past) (after : qc <:+ m) : labelWrite calls x ≠ some project.id := by
  intro writes
  have earlier := moment.past
  have current := history.currentSnapshot_between moment swap based after xMoment.past read
  have marked := parkedWrites.at (xMoment.trans earlier)
  simp only [writesParked, writes, parked, current, List.all_eq_true] at marked
  have here := marked project member
  simp [unparked] at here

/-! ## Preservation -/

section

variable (parkedWrites : Along (fun past e => writesParked calls past e = true) t)
include parkedWrites

/-- The swap of a projection of the record, routine or finalizing. -/
theorem agree_of_loaded {id : ProjectId}
    (moment : e :: past <:+ t) (swap : Swapped call before s i e past)
    (found : projectById s.base id = some project)
    (loaded : Loaded id finalize missing project s.callback edit)
    (patched : s.result.value = patchProjects s.base id edit) (agree : LabelsAgree past)
    (unchanged : finalize = true → unchangedSinceRead calls i id past = true)
    (absent : s.callback = [⟨.get (.project id), .absent⟩] → missing = fun entry => entry) :
    LabelsAgree (e :: past) := by
  have earlier := moment.past
  obtain ⟨r, shape⟩ := swap.shape
  have records (id' : ProjectId) : recordLabels id' (e :: past) = recordLabels id' past := by
    simp [recordLabels, effect_put shape]
  have current := history.currentSnapshot_swap moment swap
  have was := currentSnapshot_of_lookup (history.current_of_swap moment swap)
    (history.lookup_base moment swap)
  have projects : s.result.value.projects = (patchProjects s.base id edit).projects :=
    congrArg Snapshot.projects patched
  obtain ⟨member, rfl⟩ := projectById_mem found
  rcases loaded with ⟨p, tag, single, rfl⟩ | ⟨single, rfl⟩
  · obtain ⟨g, q, qc, gMoment, gMine, gShape, _, below, based, read, last⟩ :=
      history.callback_moment earlier swap.prepared single
    refine agree_of_patched records current was agree projects (fun _ => rfl) ?_
    intro entry _ _ labels shown
    -- either way nobody wrote labels since the record was read
    have settled (quiet : ∀ x m, x :: m <:+ past → g :: q <:+ m →
        labelWrite calls x ≠ some project.id) :=
      history.recordLabels_of_read gMoment earlier gMine gShape quiet
    cases finalize with
    | true =>
      cases shown
      refine settled (quiet_of_unchanged (unchanged rfl) gMoment ?_)
      intro x m xMoment after also
      have own := last x m xMoment after also
      simp only [List.mem_cons, List.not_mem_nil, or_false] at own
      rcases own with same | same | same <;>
        rw [congrArg Ev.op same] <;> rfl
    | false =>
      obtain ⟨unparked, rfl⟩ := projectedLabels_routine shown
      refine settled fun x m xMoment after => ?_
      exact history.quiet_of_unparked parkedWrites moment swap based read member unparked xMoment
        (below.trans after.past)
  · rw [absent single] at projects
    refine agree_of_patched records current was agree projects (fun _ => rfl) ?_
    intro entry entryMember same labels shown
    rw [← same]
    exact agree s.base was entry entryMember labels shown

section

variable (unchangedFinalizes : Along (fun past e => finalizesUnchanged calls past e = true) t)
include unchangedFinalizes

theorem agree_swap
    (moment : e :: past <:+ t) (mine : e.thread = some i) (effect : e.effect .catalog = some w)
    (agree : LabelsAgree past) : LabelsAgree (e :: past) := by
  obtain ⟨call, before, s, may, swap, rfl⟩ := history.swap_of_commit moment mine effect
  obtain ⟨r, shape⟩ := swap.shape
  have valid := swap.valid
  cases may with
  | park id actor before relabels =>
    obtain ⟨project, edit, _, rfl, patched⟩ := patched_of_runs valid.runs valid.changed
      (P := fun _ _ edit => edit = fun target =>
        { target with securityLabels := none, securityLabelsPending := true })
      (fun _ => by rintro _ ⟨⟩; rfl)
    have was := currentSnapshot_of_lookup (history.current_of_swap moment swap)
      (history.lookup_base moment swap)
    have projects : s.result.value.projects = _ := congrArg Snapshot.projects patched
    refine agree_of_patched (fun id' => by simp [recordLabels, effect_put shape])
      (history.currentSnapshot_swap moment swap) was agree projects
      (fun _ => rfl) ?_
    intro entry _ _ labels shown
    simp [projectedLabels] at shown
  | finalize operation id actor before relabels names =>
    obtain ⟨project, edit, found, loaded, patched⟩ :=
      patched_of_runs valid.runs valid.changed loads_projectRecord
    refine history.agree_of_loaded parkedWrites moment swap found loaded patched agree
      (fun _ => ?_) fun _ => rfl
    have check := unchangedFinalizes.at moment
    have draft := history.lookup_draft moment swap
    have named : finalizing (s.snapshot (projectEntryCall operation actor id
        (projectRecord id true))).operation = true := names
    simpa only [finalizesUnchanged, mine, committed_of_effect effect, relabels, Attempt.pointer,
      newCatalog, draft, named, Bool.not_true, Bool.false_or] using check
  | routine operation id actor before =>
    obtain ⟨project, edit, found, loaded, patched⟩ :=
      patched_of_runs valid.runs valid.changed loads_projectRecord
    exact history.agree_of_loaded parkedWrites moment swap found loaded patched agree (by simp)
      fun _ => rfl
  | tombstone operation id actor updated c tag before written =>
    obtain ⟨project, edit, found, loaded, patched⟩ :=
      patched_of_runs valid.runs valid.changed loads_projectTombstone
    refine history.agree_of_loaded parkedWrites moment swap found loaded patched agree (by simp)
      fun missing => ?_
    exact (history.record_read moment.past valid.unswapped swap.prepared missing written).elim

theorem agree_step
    (moment : e :: past <:+ t) (mine : e.thread = some i) (agree : LabelsAgree past) :
    LabelsAgree (e :: past) := by
  cases effect : e.effect .catalog with
  | some w =>
    exact history.agree_swap parkedWrites unchangedFinalizes moment mine effect agree
  | none =>
    intro snap current entry member labels shown
    have was := history.currentSnapshot_kept moment mine effect current
    by_cases writes : labelWrite calls e = some entry.id
    · -- the entry carries the marker, so it shows nothing
      have marked := parkedWrites.at moment
      simp only [writesParked, writes, parked, was, List.all_eq_true] at marked
      have pending := marked entry member
      simp only [ne_eq, not_true_eq_false, decide_false, Bool.false_or] at pending
      simp [projectedLabels, pending] at shown
    · rw [history.recordLabels_step moment mine writes]
      exact agree snap was entry member labels shown

end

end

end

theorem agree_run (history : LabelHistory a contents calls (later ++ seed a contents))
    (parkedWrites : Along (fun past e => writesParked calls past e = true)
      (later ++ seed a contents))
    (unchangedFinalizes : Along (fun past e => finalizesUnchanged calls past e = true)
      (later ++ seed a contents))
    (named : ∀ e ∈ later, ∃ i, e.thread = some i) (agree : LabelsAgree (seed a contents)) :
    LabelsAgree (later ++ seed a contents) := by
  induction later with
  | nil => exact agree
  | cons e past ih =>
    have earlier := List.suffix_cons e (past ++ seed a contents)
    have before := ih (history.suffix earlier) parkedWrites.2 unchangedFinalizes.2
      fun e' member => named e' (.tail _ member)
    obtain ⟨i, mine⟩ := named e (.head _)
    exact history.agree_step parkedWrites unchangedFinalizes List.suffix_rfl mine before

end LabelHistory

/-- In every run of label mutations and routine calls in which labels are written only
under the marker, and nobody writes labels between a finalizing attempt's record read
and its swap, determinate projected labels are those of the record. -/
theorem projected_labels_agree (a : Adapter Content) (contents : List (Key × Val))
    (initial : InitialCatalog a contents) (agree : LabelsAgree (seed a contents)) (engine : Engine)
    (calls : Nat → ProjectCall) (c : Config Content HubError Unit)
    (reach : Reaches a ⟨seed a contents, fun i => (calls i).run engine⟩ c)
    (parkedWrites : Along (fun past e => writesParked calls past e = true) c.trace)
    (unchangedFinalizes : Along (fun past e => finalizesUnchanged calls past e = true) c.trace) :
    LabelsAgree c.trace := by
  have run := reach.history (seeds_seed a contents)
  have rules : ∀ e past i, e :: past <:+ c.trace → e.thread = some i →
      ProjectRule (calls i) (own i past) e.op := fun e past i moment mine =>
    run.guarantee (fun i => projectCall_keeps_rule engine (calls i) []) moment mine
  have history : LabelHistory a contents calls c.trace :=
    ⟨swap_history initial run fun e past i moment mine => (rules e past i moment mine).1,
      fun e past i moment mine => (rules e past i moment mine).2⟩
  obtain ⟨later, same, named⟩ := run.grown
  rw [same] at history parkedWrites unchangedFinalizes ⊢
  exact history.agree_run parkedWrites unchangedFinalizes named agree

/-! ## Overlapping mutations -/

namespace Overlap

def adapter : Adapter Content := ⟨fun _ version => version, 1⟩

def engine : Engine := ⟨id, fun _ => none, id, fun _ => false⟩

def entry : SnapshotProjectEntry :=
  ⟨7, "p", "", .active, 0, none, none, none, none, none, some none, false⟩

def contents : List (Key × Val) :=
  [(.catalog, .catalog ⟨1, 0, 0, .snapshot 0, none⟩),
    (.snapshot 0, .snapshot ⟨0, 1, 0, "project.create", "user-1", [entry]⟩),
    (.project 7, .project ⟨7, "p", "", "user-1", [], none, .active, 0, [], none⟩)]

def calls : Nat → ProjectCall
  | 0 => .setSecurityLabels 7 (some ⟨"internal", []⟩) "user-1" none
  | 1 => .setSecurityLabels 7 (some ⟨"secret", []⟩) "user-2" none
  | _ => .updateProject 7 ⟨none, none, some "d", none⟩ "user-1" none

theorem initial : InitialCatalog adapter contents := by
  refine ⟨by decide, ?_, ?_⟩
  · intro n v member
    simp [contents] at member
    simp [member.1, adapter]
  · intro v member
    simp [contents] at member
    exact ⟨_, member, rfl, by decide⟩

/-- Parking the projection; `n` and the next identifier are drawn. -/
def park (i n : Nat) : List (Move Content) :=
  turns i n [.ok, .ok, .ok, .id n, .ok, .ok, .ok, .id (n + 1), .ok]

/-- Writing the record. -/
def write (i n : Nat) : List (Move Content) := turns i n [.ok, .ok, .ok]

/-- Projecting the record. -/
def project (i n : Nat) : List (Move Content) := ⟨i, n, .ok⟩ :: park i n

/-- The second mutation parks before the first writes, and writes after the first has
finalized. -/
def overlapping : List (Move Content) :=
  park 0 1 ++ park 1 3 ++ write 0 5 ++ project 0 6 ++ write 1 8

/-- The first mutation crashes after its record write; a routine update and the second
mutation follow. -/
def oneAfterAnother : List (Move Content) :=
  park 0 1 ++ write 0 3 ++ write 2 4 ++ project 2 5 ++ park 1 7 ++ write 1 9 ++ project 1 10

/-- The projected labels of the first entry. -/
def shown (t : Trace Content) : Option (Option ResourceSecurityLabels) :=
  match currentSnapshot t with
  | some ⟨_, _, _, _, _, entry :: _⟩ => projectedLabels entry
  | _ => none

end Overlap

open Overlap

/-- The first mutation's finalization clears the marker the second one relies on. -/
theorem cleared_marker_exposes_stale_labels : LabelsAgree (seed adapter contents) ∧
    ∃ c, Reaches adapter ⟨seed adapter contents, fun i => (calls i).run engine⟩ c ∧
      shown c.trace = some (some ⟨"internal", []⟩) ∧
      recordLabels 7 c.trace = some (some ⟨"secret", []⟩) ∧ ¬ LabelsAgree c.trace := by
  refine ⟨by decide, ?_⟩
  obtain ⟨c, reach, observed⟩ := Config.play_any adapter
    ⟨seed adapter contents, fun i => (calls i).run engine⟩ overlapping
    (fun c => shown c.trace = some (some ⟨"internal", []⟩) ∧
      recordLabels 7 c.trace = some (some ⟨"secret", []⟩) ∧ ¬ LabelsAgree c.trace) (by decide)
  exact ⟨c, reach, observed⟩

theorem projected_labels_agree_one_after_another : ∃ c, Reaches adapter ⟨seed adapter contents,
        fun i => (calls i).run engine⟩ c ∧
      shown c.trace = some (some ⟨"secret", []⟩) ∧ LabelsAgree c.trace := by
  obtain ⟨c, reach, observed⟩ := Config.play_any adapter
    ⟨seed adapter contents, fun i => (calls i).run engine⟩ oneAfterAnother
    (fun c => shown c.trace = some (some ⟨"secret", []⟩) ∧
      Along (fun past e => writesParked calls past e = true) c.trace ∧
      Along (fun past e => finalizesUnchanged calls past e = true) c.trace) (by decide)
  have facts := observed
  exact ⟨c, reach, facts.1, projected_labels_agree _ _ initial (by decide) engine _
    c reach facts.2.1 facts.2.2⟩

end MarimoHub.Guarantees
