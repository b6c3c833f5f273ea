import MarimoHub.Guarantees.SessionLifecycle

/-!
# Pinned versions and pruning

A creation writes its record and then reads the prune cutoff; a prune pass raises the cutoff
and then scans the records. The cutoff never decreases, so a pass that may delete the version
a creation was admitted with raised the cutoff after the creation read it, and the scan that
follows sees the record.
-/

namespace MarimoHub.Guarantees

open ObjectStore Source Prog

/-! ## What a delete is based on -/

/-- The last event of a raised cutoff: the write of it, or a read of one at least as high. -/
def RaisedTo (k : RuntimeKey) (cutoff : VersionId) (e : Ev Runtime) : Prop :=
  (∃ c tag, e = ⟨.put k (.cutoff cutoff) c, .ok tag⟩) ∨
    ∃ current tag, e = ⟨.get k, .found (.cutoff current) tag⟩ ∧ cutoff ≤ current

/-- A record under `key` was not listed, or was read and adds its version to `versions`. -/
def Scanned (notebook : NotebookId) (versions : List VersionId) (key : RuntimeKey)
    (es : Log Runtime) : Prop :=
  (∃ page entries, page key = true ∧ ⟨.list page, .entries entries⟩ ∈ es ∧
      ∀ entry ∈ entries, entry.key ≠ key) ∨
    ∃ r, ⟨.get key, r⟩ ∈ es ∧ r ≠ .fail ∧ ∀ session tag version,
      r = .found (.session session) tag → session.status ∈ presentStatuses →
      session.notebookId = notebook → session.sourceVersionId = some version → version ∈ versions

variable {notebook : NotebookId} {es es' : Log Runtime} {project : ProjectId}
  {version : VersionId} {versions : List VersionId}

theorem Scanned.mono (scanned : Scanned notebook versions key es) (grown : es ⊆ es')
    (more : versions ⊆ versions') : Scanned notebook versions' key es' := by
  rcases scanned with ⟨page, entries, inside, listed, missing⟩ | ⟨r, read, answered, adds⟩
  · exact .inl ⟨page, entries, inside, grown listed, missing⟩
  · refine .inr ⟨r, grown read, answered, ?_⟩
    intro session tag version found present same source
    exact more (adds session tag version found present same source)

/-- A version that a pass may delete: the cutoff was raised to it, and the scan of the project's
sessions that followed did not protect it. -/
def Doomed (project : ProjectId) (notebook : NotebookId) (version : VersionId)
    (es : Log Runtime) : Prop :=
  ∃ later raised earlier cutoff versions, es = later ++ raised :: earlier ∧
    RaisedTo (.versionPruneCutoff project notebook) cutoff raised ∧ version ≤ cutoff ∧
    version ∉ versions ∧
    ∀ key, isProjectSessionKey project key = true → Scanned notebook versions key later

theorem Doomed.grow (doomed : Doomed project notebook version es) (grown : es <:+ es') :
    Doomed project notebook version es' := by
  obtain ⟨later, raised, earlier, cutoff, versions, rfl, rest⟩ := doomed
  obtain ⟨top, rfl⟩ := grown
  refine ⟨top ++ later, raised, earlier, cutoff, versions, by simp, rest.1, rest.2.1,
    rest.2.2.1, ?_⟩
  intro key inside
  exact (rest.2.2.2 key inside).mono (List.subset_append_right top later) (List.Subset.refl _)

def isCutoffKey : RuntimeKey → Bool
  | .versionPruneCutoff _ _ => true
  | _ => false

/-- The cutoff is created, or replaced by a higher one. -/
def cutoffWriter : Writer Runtime where
  creates _ v c := c = .ifAbsent ∧ ∃ cutoff, v = .cutoff cutoff
  changes _ old v := ∃ current cutoff, old = .cutoff current ∧ v = .cutoff cutoff ∧ current < cutoff
  removes _ := False

/-- What a prune pass may do: raise cutoffs and delete doomed versions. -/
def PruneRule (k : RuntimeKey) (es : Log Runtime) : Op Runtime → Prop
  | .put j v c => isCutoffKey j = true ∧ (j = k → cutoffWriter.Writes k es v c)
  | .delete j => ∃ project notebook version path, j = .version project notebook version path ∧
      Doomed project notebook version es
  | _ => True

section Alone

theorem emits_advanceVersionPruneCutoff :
    Emits (PruneRule k) (fun out es => out = .ok () → ∃ raised earlier,
      es = raised :: earlier ∧ RaisedTo (.versionPruneCutoff project notebook) cutoff raised)
      (advanceVersionPruneCutoff project notebook cutoff) past := by
  refine emits_withCasRetry (I := fun _ => True) ?_ (fun _ _ => by rintro ⟨⟩) _ past trivial
  intro past _
  rw [advanceAttempt, emits_bind, emits_bucketGet]
  refine ⟨trivial, ?_, ?_, by rintro ⟨⟩⟩
  · intro v tag
    cases v with
    | cutoff current =>
      show Emits _ _ (if cutoff ≤ current then _ else _) _
      split
      · next reached =>
        intro _
        exact ⟨_, past, rfl, .inr ⟨current, tag, rfl, reached⟩⟩
      · next below =>
        rw [emits_bind, emits_casPut]
        refine ⟨⟨rfl, ?_⟩, fun tag' _ => ⟨_, _, rfl, .inl ⟨_, tag', rfl⟩⟩, trivial, by rintro ⟨⟩⟩
        rintro rfl
        exact ⟨.cutoff current, .inl (.head _), current, cutoff, rfl, rfl, Nat.lt_of_not_le below⟩
    | _ => rintro ⟨⟩
  · rw [andThen_ok, emits_bind, emits_casPut]
    exact ⟨⟨rfl, fun _ => ⟨rfl, cutoff, rfl⟩⟩, fun tag _ => ⟨_, _, rfl, .inl ⟨_, tag, rfl⟩⟩,
      trivial, by rintro ⟨⟩⟩

theorem emits_pinnedVersions :
    Emits (PruneRule k) (fun out es => ∃ new, es = new ++ past ∧ ∀ versions,
      out = .ok versions → ∀ key ∈ keys, Scanned notebook versions key new)
      (pinnedVersions notebook keys) past := by
  induction keys generalizing past with
  | nil => exact ⟨[], rfl, by simp⟩
  | cons key rest ih =>
    have one : Emits (PruneRule k) (fun out es => ∃ r, es = ⟨.get key, r⟩ :: past ∧
        ∀ version, out = .ok version → r ≠ .fail ∧ ∀ session tag pinned,
          r = .found (.session session) tag → session.status ∈ presentStatuses →
          session.notebookId = notebook → session.sourceVersionId = some pinned →
          version = some pinned) (pinnedVersion notebook key) past := by
      rw [pinnedVersion, emits_bind]
      refine emits_scanRecord trivial ?_ ?_ ?_
      · intro session tag
        refine ⟨_, rfl, ?_⟩
        rintro version ⟨⟩
        refine ⟨by simp, ?_⟩
        rintro _ _ pinned ⟨⟩ present same source
        rw [if_pos ⟨present, same⟩]
        exact source
      · intro r answered other
        refine ⟨r, rfl, ?_⟩
        rintro version ⟨⟩
        exact ⟨answered, fun session tag _ found => absurd found (other session tag)⟩
      · intro err r
        exact ⟨r, rfl, by rintro _ ⟨⟩⟩
    rw [pinnedVersions, emits_bind]
    refine one.mono ?_
    rintro out _ ⟨r, rfl, read⟩
    cases out with
    | error err => exact ⟨[⟨.get key, r⟩], rfl, by rintro _ ⟨⟩⟩
    | ok version =>
      rw [andThen_ok, emits_bind]
      refine ih.mono ?_
      rintro out _ ⟨new, rfl, scanned⟩
      cases out with
      | error err => exact ⟨new ++ [⟨.get key, r⟩], by simp, by rintro _ ⟨⟩⟩
      | ok others =>
        refine ⟨new ++ [⟨.get key, r⟩], by simp, ?_⟩
        rintro _ ⟨⟩ key' member
        obtain ⟨answered, adds⟩ := read version rfl
        rcases List.mem_cons.mp member with rfl | inside
        · refine .inr ⟨r, by simp, answered, ?_⟩
          intro session tag pinned found present same source
          rw [adds session tag pinned found present same source]
          simp
        · exact (scanned others rfl key' inside).mono (List.subset_append_left _ _)
            (List.subset_append_right _ _)

/-- Every session record of the project was scanned. -/
theorem emits_listProtectedVersionIds :
    Emits (PruneRule k) (fun out es => ∀ versions, out = .ok versions →
      ∃ new, es = new ++ past ∧ ∀ key, isProjectSessionKey project key = true →
        Scanned notebook versions key new)
      (listProtectedVersionIds project notebook paging) past := by
  rw [listProtectedVersionIds, emits_bind]
  refine (emits_listPages paging.pages past fun _ _ _ _ => trivial).mono ?_
  rintro out _ ⟨first, rfl, listed⟩
  cases out with
  | error err => rintro _ ⟨⟩
  | ok keys =>
    rw [andThen_ok, emits_bind]
    refine emits_pinnedVersions.mono ?_
    rintro out _ ⟨second, rfl, scanned⟩
    cases out with
    | error err => rintro _ ⟨⟩
    | ok versions =>
      rw [andThen_ok, emits_bind]
      refine emits_readAppPool trivial ?_
      intro out r
      cases out with
      | error err => rintro _ ⟨⟩
      | ok pool =>
        rintro _ ⟨⟩
        refine ⟨⟨.ask (.appPool project notebook), r⟩ :: (second ++ first), by simp, ?_⟩
        intro key inside
        obtain ⟨page, member, shown⟩ := paging.covers key inside
        obtain ⟨entries, event, has⟩ := (listed keys rfl).every page member
        by_cases present : key ∈ keys
        · -- it was listed, so it was read
          exact (scanned versions rfl key present).mono
            (List.subset_cons_of_subset _ (List.subset_append_left second first))
            (List.subset_append_left _ _)
        · refine .inl ⟨page, entries, shown, by simp [event], ?_⟩
          rintro entry here rfl
          exact present (has entry here shown)

theorem emits_listTargets : Emits (PruneRule k) (fun out _ => ∀ keys, out = .ok keys → ∀ key ∈ keys,
      ∃ target ∈ targets, isVersionKey project notebook target key = true)
      (listTargets project notebook paging targets) past := by
  induction targets generalizing past with
  | nil =>
    rintro _ ⟨⟩
    simp
  | cons target rest ih =>
    refine emits_seq (emits_listPages (paging target).pages past fun _ _ _ _ => trivial) ?_
      (fun _ _ _ _ => by rintro _ ⟨⟩)
    rintro keys es _ ⟨new, _, listed⟩
    refine emits_seq ih ?_ (fun _ _ _ _ => by rintro _ ⟨⟩)
    rintro others es' _ inside _ ⟨⟩ key member
    rcases List.mem_append.mp member with here | there
    · obtain ⟨page, among, shown⟩ := (listed keys rfl).only key here
      exact ⟨target, .head _, (paging target).inside page among key shown⟩
    · obtain ⟨target', among, shown⟩ := inside others rfl key there
      exact ⟨target', .tail _ among, shown⟩

theorem prunable_le_cutoff (last : ((versionFolders keys).take n).getLast? = some cutoff)
    (member : version ∈ (versionFolders keys).take n) : version ≤ cutoff := by
  have sorted : (versionFolders keys).Pairwise (· ≤ ·) :=
    List.pairwise_insertionSort _ _
  obtain ⟨front, same⟩ := List.getLast?_eq_some_iff.mp last
  have ordered := sorted.sublist (List.take_sublist n (versionFolders keys))
  rw [same] at ordered member
  rcases List.mem_append.mp member with before | here
  · exact (List.pairwise_append.mp ordered).2.2 version before cutoff (.head _)
  · exact Nat.le_of_eq (List.mem_singleton.mp here)

theorem keeps_pruneVersions {max : Nat} :
    Keeps (PruneRule k) (pruneVersions project notebook max keep paging) := by
  refine keeps_ignoringErrors fun past => ?_
  refine emits_seq (emits_listPages paging.folders.pages past fun _ _ _ _ => trivial) ?_
  intro keys es _ _
  dsimp only
  split
  · trivial
  · next cutoff last =>
    refine emits_seq emits_advanceVersionPruneCutoff ?_
    intro _ es₁ _ advanced
    obtain ⟨raised, earlier, rfl, reached⟩ := advanced rfl
    refine emits_seq emits_listProtectedVersionIds ?_
    intro versions es₂ _ scan
    obtain ⟨later, rfl, scanned⟩ := scan versions rfl
    refine emits_seq emits_listTargets ?_
    intro doomed es₃ grown listed
    refine emits_bucketDeleteAll doomed es₃ ?_
    intro key member es₄ grown'
    obtain ⟨target, among, shape⟩ := listed doomed rfl key member
    obtain ⟨prunable, unprotected⟩ := List.mem_filter.mp among
    have reaches := prunable_le_cutoff last prunable
    cases key with
    | version p n v path =>
      simp only [isVersionKey, decide_eq_true_eq] at shape
      obtain ⟨rfl, rfl, rfl⟩ := shape
      refine ⟨p, n, v, path, rfl, Doomed.grow ?_ (grown.trans grown')⟩
      refine ⟨later, raised, earlier, cutoff, versions, rfl, reached, reaches, ?_, scanned⟩
      simp only [decide_eq_true_eq, List.mem_cons, not_or] at unprotected
      exact unprotected.2
    | _ => simp [isVersionKey] at shape

end Alone

/-! ## Runs -/

inductive VersionCall where
  | session (call : SessionCall)
  | prune (project : ProjectId) (notebook : NotebookId) (max : Nat) (keep : VersionId)
      (paging : PrunePaging project notebook)

def VersionCall.run : VersionCall → Hub Runtime (Option SessionResult)
  | .session call => do
    let result ← call.run
    pure (some result)
  | .prune project notebook max keep paging => do
    pruneVersions project notebook max keep paging
    pure none

def VersionRule (k : RuntimeKey) : VersionCall → Rule Runtime
  | .session call => SessionRule k call
  | .prune _ _ _ _ _ => PruneRule k

theorem versionCall_keeps_rule (k : RuntimeKey) (call : VersionCall) :
    Emits (VersionRule k call) (fun _ _ => True) call.run [] := by
  cases call with
  | session call => exact emits_seq sessionCall_keeps_rule (fun _ _ _ _ => trivial)
  | prune => exact keeps_pruneVersions.map []

variable {call : VersionCall} {id : SessionId} {i : Nat} {past t : Trace Runtime}
  {v : RuntimeVal} {r : PutRes Runtime} {session : Session}

/-- What a call may do to a cutoff. -/
theorem VersionRule.cutoff (rule : VersionRule (.versionPruneCutoff project notebook) call es o) :
    cutoffWriter.Allows (.versionPruneCutoff project notebook) es o := by
  cases call with
  | session call =>
    cases o with
    | put j v c =>
      rintro rfl
      cases rule.1
    | delete j =>
      rintro rfl
      cases rule.1
    | _ => trivial
  | prune _ _ _ _ _ =>
    cases o with
    | put j v c => exact rule.2
    | delete j =>
      rintro rfl
      obtain ⟨_, _, _, _, same, _⟩ := rule
      cases same
    | _ => trivial

/-- Prune passes write no session record. -/
def recordWriter (k : RuntimeKey) : VersionCall → Writer Runtime
  | .session call => sessionWriter k call
  | .prune _ _ _ _ _ => ⟨fun _ _ _ => False, fun _ _ _ => False, fun _ => False⟩

theorem VersionRule.record (rule : VersionRule (.session project id) call es o) :
    (recordWriter (.session project id) call).Allows (.session project id) es o := by
  cases call with
  | session call => exact SessionRule.allows rule
  | prune _ _ _ _ _ =>
    cases o with
    | put j v c =>
      rintro rfl
      cases rule.1
    | delete j =>
      rintro rfl
      obtain ⟨_, _, _, _, same, _⟩ := rule
      cases same
    | _ => trivial

section Runs

variable {a : Adapter Runtime} {seeds : Trace Runtime} {calls : Nat → VersionCall}
  {c : Config Runtime HubError (Option SessionResult)}

/-- Only client `i` creates the record. -/
def SoleCreator (k : RuntimeKey) (i : Nat) (t : Trace Runtime) : Prop :=
  ∀ e ∈ t, ∀ v j, e.op = .put k v .any → e.thread = some j → j = i

/-- The record is stored and not terminal. -/
def Alive (k : RuntimeKey) (t : Trace Runtime) : Prop :=
  ∃ session, lookup k t = some (.session session) ∧ session.status.isTerminal = false

theorem mayFollow_alive (follows : mayFollow status next = true)
    (alive : next.isTerminal = false) : status.isTerminal = false := by
  revert follows alive
  cases status <;> cases next <;> decide

theorem present_of_alive (alive : status.isTerminal = false) : status ∈ presentStatuses := by
  revert alive
  cases status <;> decide

/-- What a creation fixed of its record. -/
def Pinned (k : RuntimeKey) (notebook : NotebookId) (version : VersionId) (t : Trace Runtime) :
    Prop :=
  ∀ session, lookup k t = some (.session session) →
    session.notebookId = notebook ∧ session.sourceVersionId = some version

section

variable (run : History a seeds (fun i => (calls i).run) c)
include run

theorem cutoff_lasts (based : seeds <:+ t) (order : t <:+ u) (below : u <:+ c.trace)
    (stored : lookup (RuntimeKey.versionPruneCutoff project notebook) t = some (.cutoff
      cutoff)) : ∃ later, lookup (RuntimeKey.versionPruneCutoff project notebook) u =
      some (.cutoff later) ∧ cutoff ≤ later := by
  refine value_lasts (P := fun stored => ∃ later, stored = some (RuntimeVal.cutoff later) ∧
    cutoff ≤ later) order ⟨cutoff, stored, Nat.le_refl _⟩ ?_
  rintro x past new moment after ⟨current, found, reached⟩ effect
  obtain ⟨i, mine⟩ := run.thread_of_moment (moment.trans below) (based.trans after)
  have made := Writer.at_effect (run.accepted.suffix (moment.trans below))
    (run.guarantee (fun i => versionCall_keeps_rule (.versionPruneCutoff project notebook)
      (calls i)) (moment.trans below) mine).cutoff effect
  generalize x.op = o at made
  cases made with
  | removed removes => exact removes.elim
  | created v cond creates holds =>
    obtain ⟨rfl, _⟩ := creates
    rw [show lookup _ past = none from holds] at found
    cases found
  | changed old v tag was changes =>
    obtain ⟨current', next, rfl, rfl, higher⟩ := changes
    rw [found] at was
    cases was
    exact ⟨next, rfl, Nat.le_trans reached (Nat.le_of_lt higher)⟩

theorem record_step (moment : x :: past <:+ c.trace) (based : seeds <:+ past)
    (sole : SoleCreator (.session project id) i (x :: past))
    (created : ⟨.put (.session project id) v .any, r⟩ ∈ own i past) :
    lookup (RuntimeKey.session project id) (x :: past) =
        lookup (RuntimeKey.session project id) past ∨
      lookup (RuntimeKey.session project id) (x :: past) = none ∨
      ∃ session next, SessionStep session next ∧
        lookup (RuntimeKey.session project id) past = some (.session session) ∧
        lookup (RuntimeKey.session project id) (x :: past) = some (.session next) := by
  cases effect : x.effect (.session project id) with
  | none => exact .inl (lookup_of_no_effect effect)
  | some new =>
    have left : lookup (RuntimeKey.session project id) (x :: past) = new :=
      lookup_of_effect effect
    obtain ⟨j, mine⟩ := run.thread_of_moment moment based
    have made := Writer.at_effect (run.accepted.suffix moment)
      (run.guarantee (fun i => versionCall_keeps_rule (.session project id) (calls i)) moment
        mine).record effect
    generalize which : calls j = call at made
    generalize shape : x.op = o at made
    cases call with
    | prune _ _ _ _ _ => cases made <;> contradiction
    | session call =>
      cases made with
      | removed _ => exact .inr (.inl left)
      | changed old v' tag was changes =>
        obtain ⟨session, next, rfl, rfl, step⟩ := changes
        exact .inr (.inr ⟨session, next, step, was, left⟩)
      | created v' cond creates _ =>
        -- the creator has put the record before, and puts it once
        obtain ⟨_, rfl, _, fresh⟩ := creates
        cases sole x (.head _) v' j shape mine
        exact absurd created (fresh v r)

/-- A record that is alive later is alive, and pinned as it was created, at every moment
since its creation. -/
theorem alive_between (based : seeds <:+ start) (first : start <:+ mid)
    (second : mid <:+ past) (below : past <:+ c.trace)
    (sole : SoleCreator (.session project id) i past)
    (created : ⟨.put (.session project id) v .any, r⟩ ∈ own i start)
    (pinned : Pinned (.session project id) notebook version start)
    (alive : Alive (.session project id) past) :
    Alive (.session project id) mid ∧ Pinned (.session project id) notebook version mid := by
  have step {x : Event Runtime} {q : Trace Runtime} (moment : x :: q <:+ past)
      (after : start <:+ q) := record_step run (moment.trans below) (based.trans after)
    (fun e member => sole e (moment.subset member)) ((own_suffix after).subset created)
  constructor
  · by_contra dead
    refine absurd alive (lasts (P := fun w => ¬ Alive (.session project id) w) second dead ?_)
    rintro x q moment after gone ⟨next, stored, live⟩
    rcases step moment (first.trans after) with same | none | ⟨session, next', moved, was, now⟩
    · exact gone ⟨next, same.symm.trans stored, live⟩
    · rw [none] at stored
      cases stored
    · rw [now] at stored
      cases stored
      exact gone ⟨session, was, mayFollow_alive moved.status live⟩
  · refine lasts first pinned ?_
    intro x q moment after kept next stored
    rcases step (moment.trans second) after with same | none | ⟨session, next', moved, was, now⟩
    · exact kept next (same.symm.trans stored)
    · rw [none] at stored
      cases stored
    · rw [now] at stored
      cases stored
      obtain ⟨notebookEq, versionEq⟩ := kept session was
      exact ⟨moved.notebook.trans notebookEq, moved.pinned.trans versionEq⟩

/-- A scan at moments at which a pinned record is alive protects its version. -/
theorem scanned_protects (scanned : Scanned notebook versions (.session project id) later)
    (moments : ∀ ev ∈ later, ∃ h q, h :: q <:+ c.trace ∧ h.toEv = ev ∧ Alive (.session project
      id) q ∧ Pinned (.session project id) notebook version q) : version ∈ versions := by
  rcases scanned with ⟨page, entries, shown, listed, missing⟩ | ⟨r, read, answered, adds⟩
  · obtain ⟨h, q, moment, shape, ⟨session, stored, _⟩, _⟩ := moments _ listed
    have lists := ((run.accepted.at moment).responds_of shape).1
    have entry :=
      (lists (.session project id) (uploaded (B := Runtime) (.session project id) q)).mpr
      ⟨shown, by rw [stored]; rfl, rfl⟩
    exact absurd rfl (missing _ entry)
  · obtain ⟨h, q, moment, shape, ⟨session, stored, live⟩, pinned⟩ := moments _ read
    have responds := (run.accepted.at moment).responds_of shape
    cases r with
    | fail => exact absurd rfl answered
    | absent =>
      rw [show lookup _ q = none from responds.1] at stored
      cases stored
    | found v tag =>
      have found := responds.1
      rw [stored] at found
      cases found
      obtain ⟨sameNotebook, sameVersion⟩ := pinned session stored
      exact adds session tag version rfl (present_of_alive live) sameNotebook sameVersion

theorem raised_stored (moment : g :: q <:+ c.trace) (raised : RaisedTo k cutoff g.toEv) :
    ∃ current, lookup k (g :: q) = some (.cutoff current) ∧ cutoff ≤ current := by
  rcases raised with ⟨cond, tag, shape⟩ | ⟨current, tag, shape, reached⟩
  · refine ⟨cutoff, lookup_of_effect ?_, Nat.le_refl _⟩
    simp [effect_put shape, ((run.accepted.at moment).responds_of shape).2.2]
  · have quiet : g.effect k = none := by
      obtain ⟨⟨o, r⟩, thread, time, applied⟩ := g
      cases shape
      rfl
    exact ⟨current, (lookup_of_no_effect quiet).trans ((run.accepted.at moment).tagged shape).1,
      reached⟩

end

theorem creation_admitted (call : calls i = .session (.create input))
    (source : input.sourceVersionId = some version)
    (returned : Runs (calls i).run es (.ret (some (.created session)))) :
    session.notebookId = input.notebookId ∧ session.sourceVersionId = some version ∧
      ∃ tag rest r, es = ⟨.get (.versionPruneCutoff input.projectId input.notebookId), r⟩ ::
          ⟨.put (.session input.projectId session.sessionId) (.session session) .any, .ok tag⟩ ::
          rest ∧
        (r = .absent ∨ ∃ cutoff tag, r = .found (.cutoff cutoff) tag ∧ cutoff < version) := by
  have alone : Emits (SessionRule (.session 0 0) (.create input)) (fun out es => ∀ session,
      out = .ok (some (.created session)) → Admitted input (.ok session) es) (calls i).run [] := by
    rw [call]
    refine emits_seq (Q := fun out es => ∀ session, out = .ok (.created session) →
      Admitted input (.ok session) es) ?_ ?_ (fun _ _ _ _ => by rintro _ ⟨⟩)
    · refine emits_seq emits_createSession ?_ (fun _ _ _ _ => by rintro _ ⟨⟩)
      rintro session es _ admitted _ ⟨⟩
      exact admitted
    · rintro result es _ admitted session ⟨⟩
      exact admitted session rfl
  obtain ⟨id, now, tag, rest, rfl, checked⟩ := (alone.runs returned).1 session rfl
  obtain ⟨r, same, below⟩ := checked version source
  exact ⟨rfl, source, tag, rest, r, same, below⟩

/-- A pinned version whose session is alive is not doomed. -/
theorem pinned_not_doomed (initial : Seeds a seeds)
    (run : History a seeds (fun i => (calls i).run) c)
    (call : calls i = .session (.create input)) (other : i ≠ j)
    (source : input.sourceVersionId = some version) (below : past <:+ c.trace)
    (returned : Runs (calls i).run (own i past) (.ret (some (.created session))))
    (sole : SoleCreator (.session input.projectId session.sessionId) i past)
    (alive : Alive (.session input.projectId session.sessionId) past)
    (doomed : Doomed input.projectId input.notebookId version (own j past)) : False := by
  obtain ⟨sameNotebook, sameVersion, tag, rest, r, ownEq, lower⟩ :=
    creation_admitted call source returned
  obtain ⟨b, qb, readMoment, readMine, readShape, ownRead⟩ :=
    exists_own ⟨[], ownEq.symm⟩
  obtain ⟨e, qe, putMoment, putMine, putShape, _⟩ :=
    exists_own ⟨[], ownRead.symm⟩
  obtain ⟨later, raised, earlier, cutoff, versions, ownPrune, reached, high, unprotected, scan⟩ :=
    doomed
  obtain ⟨g, q, raiseMoment, raiseMine, raiseShape, ownRaise⟩ :=
    exists_own ⟨later, ownPrune.symm⟩
  obtain ⟨current, stored, least⟩ := raised_stored run (raiseMoment.trans below)
    (raiseShape ▸ reached)
  have seeded := run.after_seeds initial (raiseMoment.trans below) raiseMine
  -- the cutoff was raised after the creation read it
  have order : b :: qb <:+ q := by
    rcases moments_ordered readMoment raiseMoment with same | before | after
    · cases same
      exact absurd (Option.some.inj (readMine.symm.trans raiseMine)) other
    · exact before
    · obtain ⟨more, found, grown⟩ := cutoff_lasts run (seeded.cons) after
        (readMoment.trans below).past stored
      have responds := (run.accepted.at (readMoment.trans below)).responds_of readShape
      rcases lower with rfl | ⟨seen, tag', rfl, less⟩
      · rw [show lookup _ qb = none from responds.1] at found
        cases found
      · rw [show lookup _ qb = _ from responds.1] at found
        cases found
        exact absurd (Nat.le_trans high (Nat.le_trans least grown)) (Nat.not_le.mpr less)
  -- so everything the scan saw came after the record was put
  have putInside : e :: qe <:+ past :=
    putMoment.trans readMoment.past
  have created : lookup (RuntimeKey.session input.projectId session.sessionId) (e :: qe) =
      some (.session session) := by
    refine lookup_of_effect ?_
    simp [effect_put putShape, ((run.accepted.at (putInside.trans below)).responds_of putShape).2.2]
  refine unprotected (scanned_protects run (scan (.session input.projectId session.sessionId)
    (by simp [isProjectSessionKey])) ?_)
  intro ev member
  obtain ⟨h, qh, seenMoment, _, shape, after⟩ := exists_own_after raiseMoment raiseMine
    (by rw [ownPrune, own_cons raiseMine, raiseShape, ownRaise]) member
  refine ⟨h, qh, seenMoment.trans below, shape, ?_⟩
  refine alive_between run (v := .session session) (r := .ok tag)
    ((run.after_seeds initial (putInside.trans below) putMine).cons)
    (putMoment.trans (order.trans
      ((List.suffix_cons g q).trans after)).past) seenMoment.past below sole
    ?_ ?_ alive
  · rw [own_cons putMine, putShape]
    exact .head _
  · intro found same
    rw [created] at same
    cases same
    exact ⟨sameNotebook, sameVersion⟩

end Runs

/-- Any interleaving of session creations, record updates, expiry scans, reaper passes and
prune passes. Once a creation has returned a session pinned to a version, nothing deletes an
object of that version while the session's record (the one this creation put, with no other
creation under its id) is stored and not terminal; and a stored cutoff never decreases. -/
theorem pinned_version_survives (a : Adapter Runtime) (seeds : Trace Runtime)
    (initial : Seeds a seeds) (calls : Nat → VersionCall)
    (c : Config Runtime HubError (Option SessionResult))
    (reach : Reaches a ⟨seeds, fun i => (calls i).run⟩ c) :
    (∀ i input session version x past path, calls i = .session (.create input) →
      input.sourceVersionId = some version → (x :: past) <:+ c.trace →
      Runs (calls i).run (own i past) (.ret (some (.created session))) →
      SoleCreator (.session input.projectId session.sessionId) i past →
      Alive (.session input.projectId session.sessionId) past →
      x.op ≠ .delete (.version input.projectId input.notebookId version path)) ∧
    ∀ project notebook t u cutoff, seeds <:+ t → t <:+ u → u <:+ c.trace →
      lookup (RuntimeKey.versionPruneCutoff project notebook) t = some (.cutoff cutoff) →
      ∃ later, lookup (RuntimeKey.versionPruneCutoff project notebook) u =
        some (.cutoff later) ∧ cutoff ≤ later := by
  have run := reach.history initial
  constructor
  · intro i input session version x past path call source moment returned sole alive deletes
    have below := moment.past
    obtain ⟨_, _, tag, rest, r, ownEq, _⟩ := creation_admitted call source returned
    obtain ⟨b, qb, inside, mine, _⟩ := exists_own ⟨[], ownEq.symm⟩
    have based := (run.after_seeds initial (inside.trans below) mine).trans inside.past
    obtain ⟨j, theirs⟩ := run.thread_of_moment moment based
    have rule := run.guarantee (fun i => versionCall_keeps_rule (.session 0 0) (calls i)) moment
      theirs
    rw [deletes] at rule
    cases which : calls j with
    | session call' =>
      rw [which] at rule
      cases rule.1
    | prune project notebook max keep paging =>
      rw [which] at rule
      obtain ⟨_, _, _, _, same, doomed⟩ := rule
      cases same
      have other : i ≠ j := by
        rintro rfl
        rw [call] at which
        cases which
      exact pinned_not_doomed initial run call other source below returned sole alive doomed
  · intro project notebook t u cutoff based order below stored
    exact cutoff_lasts run based order below stored

namespace PruneScenario

def adapter : Adapter Runtime := ⟨fun _ version => version, 100⟩

/-- Three versions of notebook 2 of project 1. -/
def contents : Trace Runtime := seed adapter
  [(.version 1 2 6 "nb.py", .file "c"), (.version 1 2 5 "nb.py", .file "b"),
    (.version 1 2 4 "nb.py", .file "a")]

def input : CreateSessionInput :=
  { notebookId := 2, projectId := 1, userId := "ada", sessionId := some 7,
    sourceVersionId := some 5 }

/-- A session is pinned to version 5, and a pass keeps one version beside the pinned ones. -/
def calls : Nat → VersionCall
  | 0 => .session (.create input)
  | _ => .prune 1 2 1 6 ⟨.single _, .single _, fun _ => .single _⟩

def schedule : List (Move Runtime) :=
  [⟨0, 1, .ok⟩, ⟨1, 1, .ok⟩, ⟨0, 1, .ok⟩, ⟨0, 2, .ok⟩] ++ turns 1 2 [.ok, .ok] ++
    turns (B := Runtime) 1 3 [.ok, .ok, .answer (.appPool 1 2) (.ok none)] ++ turns 1 4 [.ok, .ok]

def returnedId : Prog Runtime HubError (Option SessionResult) → Option SessionId
  | .ret (some (.created session)) => some session.sessionId
  | _ => none

def deletedVersion : Op Runtime → Option VersionId
  | .delete (.version _ _ version _) => some version
  | _ => none

def isAlive (t : Trace Runtime) : Bool :=
  match lookup (RuntimeKey.session 1 7) t with
  | some (.session session) => !session.status.isTerminal
  | _ => false

def putsRecord : Op Runtime → Bool
  | .put (.session 1 7) _ .any => true
  | _ => false

/-- The last event of the run is the pass deleting version 4. -/
def ended (c : Config Runtime HubError (Option SessionResult)) : Bool :=
  match c.trace with
  | x :: past => returnedId (c.prog 0) = some 7 ∧ x.thread = some 1 ∧
      deletedVersion x.op = some 4 ∧ isAlive past ∧
      past.all fun e => putsRecord e.op → e.thread = some 0
  | [] => false

theorem ret_of_returnedId (returned : returnedId p = some id) :
    ∃ session, p = .ret (some (.created session)) ∧ session.sessionId = id := by
  unfold returnedId at returned
  split at returned
  · next session => exact ⟨session, rfl, Option.some.inj returned⟩
  · cases returned

theorem alive_of_isAlive (alive : isAlive t = true) : Alive (.session 1 7) t := by
  unfold isAlive at alive
  split at alive
  · next session stored => exact ⟨session, stored, by simpa using alive⟩
  · cases alive

end PruneScenario

open PruneScenario in
/-- The pass deletes version 4 and, while session 7 is alive, nothing of version 5. -/
theorem pinned_version_survives_pass :
    ∃ c x past, Reaches adapter ⟨contents, fun i => (calls i).run⟩ c ∧ c.trace = x :: past ∧
      Alive (.session 1 7) past ∧ deletedVersion x.op = some 4 ∧
      ∀ path, x.op ≠ .delete (.version 1 2 5 path) := by
  obtain ⟨c, reach, observed⟩ := Config.play_any adapter ⟨contents, fun i => (calls i).run⟩ schedule
    (ended ·) (by decide)
  unfold ended at observed
  split at observed
  · next x past same =>
    obtain ⟨returned, thread, deleted, alive, sole⟩ := of_decide_eq_true observed
    obtain ⟨session, result, id⟩ := ret_of_returnedId returned
    have threads := (reach.history (seeds_seed _ _)).threads 0
    rw [same, own_cons_other (by simp [thread]), result] at threads
    refine ⟨c, x, past, reach, same, alive_of_isAlive alive, deleted, fun path => ?_⟩
    refine (pinned_version_survives adapter contents (seeds_seed _ _) calls c reach).1 0 input
      session 5 x past path rfl rfl (same ▸ List.suffix_rfl) threads ?_ ?_
    · rw [id]
      intro e member v j puts mine
      have only := of_decide_eq_true (List.all_eq_true.mp sole e member)
      rw [puts, mine] at only
      exact Option.some.inj (only rfl)
    · rw [id]
      exact alive_of_isAlive alive
  · cases observed

end MarimoHub.Guarantees
