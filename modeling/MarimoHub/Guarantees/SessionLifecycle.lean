import MarimoHub.Guarantees.SessionUpdates

/-!
# The lifecycle of a session record

Any number of record updates, expiry scans and reaper passes around one `createSession`.
Every write to the record but the creating one matches the value it was decided from, so
it is enough to look at what one callback makes of the record it is given (`SessionStep`).
-/

namespace MarimoHub.Guarantees

open ObjectStore Source Prog

variable {session next : Session} {es past : Log Runtime} {tag : Etag Runtime}
  {key : RuntimeKey}

theorem SessionStep.reapable (step : SessionStep session next)
    (reapable : isReapable session = true) : isReapable next = true := by
  simp only [isReapable, decide_eq_true_eq] at reapable ⊢
  obtain ⟨terminal, free⟩ := reapable
  refine ⟨by rw [mayFollow_terminal terminal step.status]; exact terminal, ?_⟩
  rcases free with absent | reclaimed
  · exact .inl ((step.sandbox terminal).trans absent)
  · exact .inr (step.reclaimed terminal reclaimed)

/-! ## Calls -/

inductive SessionCall where
  | create (input : CreateSessionInput)
  | update (project : ProjectId) (id : SessionId) (change : SessionUpdate)
  | expireStale (paging : Pages Runtime isSessionKey)
  | reapTerminated (paging : Pages Runtime isSessionKey) (retentionMs : Nat)

inductive SessionResult where
  | created (session : Session)
  | updated (outcome : ObjectMutationOutcome Session)
  | counted (count : Nat)

def SessionCall.run : SessionCall → Hub Runtime SessionResult
  | .create input => .created <$> createSession input
  | .update project id change => .updated <$> change.run project id
  | .expireStale paging => .counted <$> Source.expireStale paging
  | .reapTerminated paging retentionMs => .counted <$> Source.reapTerminated paging retentionMs

def SessionCall.isCreate : SessionCall → Bool
  | .create _ => true
  | _ => false

/-- The record was read by the client as one that may be reaped. -/
def SeenReapable (k : RuntimeKey) (es : Log Runtime) : Prop :=
  ∃ session tag, ⟨.get k, .found (.session session) tag⟩ ∈ es ∧ isReapable session = true

/-- What a call may do to the record under `k`. -/
def sessionWriter (k : RuntimeKey) (call : SessionCall) : Writer Runtime where
  creates es v c := call.isCreate = true ∧ c = .any ∧
    (∃ session, v = .session session ∧ session.status = .starting) ∧
    ∀ w r, ⟨.put k w .any, r⟩ ∉ es
  changes _ old v := ∃ session next, old = .session session ∧ v = .session next ∧
    SessionStep session next
  removes es := SeenReapable k es

/-- Only session records are written and removed. -/
def SessionRule (k : RuntimeKey) (call : SessionCall) (es : Log Runtime) : Op Runtime → Prop
  | .put j v c => isSessionKey j = true ∧ (j = k → (sessionWriter k call).Writes k es v c)
  | .delete j => isSessionKey j = true ∧ (j = k → (sessionWriter k call).removes es)
  | _ => True

variable {o : Op Runtime} {k : RuntimeKey} {call : SessionCall} {project : ProjectId}
  {id : SessionId}

theorem SessionRule.allows (rule : SessionRule k call es o) :
    (sessionWriter k call).Allows k es o := by
  cases o with
  | put j v c => exact rule.2
  | delete j => exact rule.2
  | _ => trivial

theorem sessionRule_of_local (quiet : LocalOp o) : SessionRule k call es o := by
  cases o <;> trivial

section Alone

variable {k : RuntimeKey} {call : SessionCall} {now : Nat}

/-- A matching write of what a callback made of the record that was read. -/
theorem sessionRule_change
    (issued : Issued (B := Runtime) (.session project id) (.session session) tag es)
    (step : SessionStep session next) :
    SessionRule k call es (.put (.session project id) (.session next) (.ifMatch tag)) := by
  refine ⟨rfl, ?_⟩
  rintro rfl
  exact ⟨.session session, issued, session, next, rfl, rfl, step⟩

/-- How an update ended. -/
def Updated (step : Session → Session → Prop) (key : RuntimeKey) :
    Post Runtime HubError (ObjectMutationOutcome Session) :=
  yields (Mutated LocalOp (fun _ => step) key .session)

theorem emits_mutateWithOutcome (decides : Decides step apply)
    (fine : ∀ session next, step session next → SessionStep session next) :
    Emits (SessionRule k call) (Updated step (.session project id))
      (mutateWithOutcome project id apply) past :=
  emits_mutateRecord parseSession_only (fun _ => trivial) (fun _ _ => sessionRule_of_local)
    (fun session _ _ => decides session _)
    (fun _ _ _ _ read stepped => sessionRule_change (.inl read) (fine _ _ stepped))

theorem emits_update (project : ProjectId) (id : SessionId) (change : SessionUpdate) :
    Emits (SessionRule k call) (Updated SessionStep (.session project id))
      (change.run project id) past := by
  refine emits_change (fun _ _ => sessionRule_of_local) ?_ ?_
  · intro args _ es
    exact emits_mutateWithOutcome (decides_running.mono fun _ _ step => step.1)
      (fun _ _ step => step)
  · intro apply decides es
    exact emits_mutateWithOutcome (decides.mono fun _ _ step => step.life) (fun _ _ step => step)

theorem emits_beginTerminating :
    Emits (SessionRule k call) (Updated TerminatingStep (.session project id))
      ((SessionUpdate.beginTerminating attribution).run project id) past :=
  emits_mutateWithOutcome (decides_terminating.mono fun _ _ step => step.1)
    (fun _ _ step => step.toSessionStep)

theorem sessionRule_of_reading (reading : Reading o) : SessionRule k call es o := by
  cases o with
  | put => exact reading.elim
  | delete => exact reading.elim
  | _ => trivial

theorem emits_expireAll (shape : ∀ key ∈ keys, isSessionKey key = true) :
    Emits (SessionRule k call) (fun _ _ => True) (expireAll now keys) past := by
  refine keeps_expireAll (fun _ _ => sessionRule_of_reading) ?_ past
  intro key listed es session tag target read edge
  cases key with
  | session project id => exact sessionRule_change (.inl read) (UpdateStep.of_expired edge).life
  | _ => cases shape _ listed

/-- Every key to be deleted was read as a record that may be reaped. -/
theorem emits_reapCandidates :
    Emits (SessionRule k call) (fun out es => ∀ toDelete, out = .ok toDelete →
      ∀ key ∈ toDelete, key ∈ keys ∧ SeenReapable key es) (reapCandidates now retentionMs keys)
      past := by
  induction keys generalizing past with
  | nil =>
    rintro _ ⟨⟩
    simp
  | cons key rest ih =>
    have one : Emits (SessionRule k call) (fun out es => out = .ok true → SeenReapable key es)
        (isReapCandidate now retentionMs key) past := by
      rw [isReapCandidate, emits_bind]
      refine emits_scanRecord trivial ?_ (fun _ _ _ => by rintro ⟨⟩) (fun _ _ => by rintro ⟨⟩)
      intro session tag candidate
      have reapable := Except.ok.inj candidate
      simp only [decide_eq_true_eq] at reapable
      exact ⟨session, tag, .head _, reapable.1⟩
    refine emits_seq one ?_ (fun _ _ _ _ => by rintro _ ⟨⟩)
    intro candidate es _ seen
    refine emits_seq ih ?_ (fun _ _ _ _ => by rintro _ ⟨⟩)
    intro others es' grown listed
    rintro toDelete ⟨⟩ key' member
    split at member
    · next yes =>
      rcases List.mem_cons.mp member with rfl | inside
      · obtain ⟨session, tag, read, reapable⟩ := seen (congrArg Except.ok yes)
        exact ⟨.head _, session, tag, grown.subset read, reapable⟩
      · exact (listed others rfl key' inside).imp (List.mem_cons_of_mem _) id
    · exact (listed others rfl key' member).imp (List.mem_cons_of_mem _) id

theorem SeenReapable.grow (seen : SeenReapable key es)
    (grown : es <:+ es') : SeenReapable key es' := by
  obtain ⟨session, tag, read, reapable⟩ := seen
  exact ⟨session, tag, grown.subset read, reapable⟩

theorem emits_listSessions {paging : Pages Runtime p} :
    Emits (SessionRule k call) (fun out _ => ∀ keys, out = .ok keys → ∀ key ∈ keys, p key = true)
      (listAllKeys paging) past := by
  refine (emits_listPages paging.pages past fun _ _ _ _ => trivial).mono ?_
  rintro out es ⟨new, rfl, listed⟩ keys done key member
  obtain ⟨page, inside, shown⟩ := (listed keys done).only key member
  exact paging.inside page inside key shown

/-- A creation that succeeded: the record was put, and a pinned version was then checked. -/
def Admitted (input : CreateSessionInput) : Post Runtime HubError Session
  | .ok session, es => ∃ id now tag rest, session = newSession input id now ∧
      ∀ version, input.sourceVersionId = some version → BelowPinned session version
        (⟨.put (.session input.projectId id) (.session session) .any, .ok tag⟩ :: rest) es
  | .error _, _ => True

theorem emits_createSession :
    Emits (SessionRule k (.create input)) (Admitted input) (createSession input) [] := by
  have chosen : Emits (SessionRule k (.create input))
      (fun _ es => ∀ w r, ⟨.put k w .any, r⟩ ∉ es) (chooseSessionId input.sessionId) [] := by
    cases input.sessionId with
    | some id => simp [chooseSessionId]
    | none => exact ⟨trivial, by simp⟩
  refine emits_seq chosen ?_
  intro id early _ quiet
  refine emits_dateNow_then trivial fun now => ?_
  rw [emits_bind, emits_bucketPut]
  refine ⟨?_, ?_, trivial, trivial⟩
  · exact ⟨rfl, fun _ => ⟨rfl, rfl, ⟨_, rfl, rfl⟩, by simpa using quiet⟩⟩
  · intro tag
    split
    · next unpinned =>
      refine ⟨id, now, tag, [], rfl, ?_⟩
      intro version pinned
      rw [unpinned] at pinned
      cases pinned
    · next version pinned =>
      refine emits_seq (emits_checkSourceVersion (fun _ _ => sessionRule_of_reading) ?_) ?_
      · intro es error grown
        exact sessionRule_change (.inr ⟨.any, grown.subset (.head _)⟩)
          (UpdateStep.of_rejected error rfl).life
      intro _ es _ checked
      refine ⟨id, now, tag, ⟨.now, now⟩ :: early, rfl, ?_⟩
      intro version' pinned'
      rw [pinned] at pinned'
      cases pinned'
      exact checked rfl

end Alone

theorem sessionCall_keeps_rule : Emits (SessionRule k call) (fun _ _ => True) call.run [] := by
  cases call with
  | create input =>
    exact emits_seq emits_createSession fun _ _ _ _ => trivial
  | update project id change =>
    exact emits_seq (emits_update project id change) fun _ _ _ _ => trivial
  | expireStale paging =>
    refine emits_seq (Q := fun _ _ => True) ?_ (fun _ _ _ _ => trivial)
    refine emits_dateNow_then trivial fun now => ?_
    refine emits_seq emits_listSessions ?_
    intro keys es _ listed
    exact emits_expireAll (listed keys rfl)
  | reapTerminated paging retentionMs =>
    refine emits_seq (Q := fun _ _ => True) ?_ (fun _ _ _ _ => trivial)
    refine emits_dateNow_then trivial fun now => ?_
    refine emits_seq emits_listSessions ?_
    intro keys es _ listed
    refine emits_seq emits_reapCandidates ?_
    intro toDelete es _ seen
    refine emits_seq (emits_bucketDeleteAll toDelete es ?_) (fun _ _ _ _ => trivial)
    intro key member es' grown
    obtain ⟨inside, reapable⟩ := seen toDelete rfl key member
    refine ⟨listed keys rfl key inside, ?_⟩
    rintro rfl
    exact reapable.grow grown

/-! ## Runs -/

variable {x : Event Runtime} {i : Nat} {t : Trace Runtime} {v : RuntimeVal} {P : Session → Prop}

section Runs

variable {a : Adapter Runtime} {seeds : Trace Runtime} {calls : Nat → SessionCall}
  {c : Config Runtime HubError SessionResult} {k : RuntimeKey}

/-- What one event of the run did to the record. -/
theorem session_effect (run : History a seeds (fun i => (calls i).run) c) {past : Trace Runtime}
    (moment : x :: past <:+ c.trace) (mine : x.thread = some i)
    (effect : x.effect k = some new) :
    (sessionWriter k (calls i)).Effect a k (own i past) past x.op new :=
  Writer.at_effect (run.accepted.suffix moment)
    (run.guarantee (fun _ => sessionCall_keeps_rule) moment mine).allows effect

/-- The event is the creating write of the record. -/
def Creates (k : RuntimeKey) (calls : Nat → SessionCall) (e : Event Runtime) : Prop :=
  ∃ i v, e.thread = some i ∧ (calls i).isCreate = true ∧ e.op = .put k v .any

section

variable (run : History a seeds (fun i => (calls i).run) c)

include run

theorem created_before (absent : lookup k seeds = none) (based : seeds <:+ t)
    (below : t <:+ c.trace) (stored : lookup k t ≠ none) :
    ∃ e past, e :: past <:+ t ∧ seeds <:+ past ∧ Creates k calls e := by
  obtain ⟨e, past, moment, after, missing, present⟩ :=
    becomes (P := fun u => lookup k u ≠ none) based (by simp [absent]) stored
  have missing : lookup k past = none := by simpa using missing
  obtain ⟨i, mine⟩ := run.thread_of_moment (moment.trans below) after
  cases effect : e.effect k with
  | none =>
    rw [lookup_of_no_effect effect] at present
    exact absurd missing present
  | some new =>
    rw [lookup_of_effect effect] at present
    refine ⟨e, past, moment, after, ?_⟩
    have made := session_effect run (moment.trans below) mine effect
    generalize shape : e.op = o at made
    cases made with
    | removed _ => exact absurd rfl present
    | changed old v tag found _ =>
      rw [missing] at found
      cases found
    | created v cond creates _ =>
      obtain ⟨call, rfl, _⟩ := creates
      exact ⟨i, v, mine, call, shape⟩

section

variable (absent : lookup k seeds = none)
  (once : ∀ i j, (calls i).isCreate = true → (calls j).isCreate = true → i = j)
include absent once

/-- After the record was stored no event creates it again: the only `createSession` of the
run puts it once. -/
theorem not_created_again (based : seeds <:+ t) (stored : lookup k t ≠ none) {past : Trace Runtime}
    {cond : Cond Runtime} (after : t <:+ past) (moment : x :: past <:+ c.trace)
    (creates : (sessionWriter k (calls i)).creates (own i past) v cond) : False := by
  have toTrace := moment.past
  obtain ⟨e, q, earlier, _, j, w, theirs, call, shape⟩ :=
    created_before run absent based (after.trans toTrace) stored
  obtain ⟨create, _, _, fresh⟩ := creates
  cases once i j create call
  obtain ⟨⟨o, r⟩, thread, time, applied⟩ := e
  cases shape
  exact fresh w r (mem_own ((earlier.trans after).subset (.head _)) theirs)

section

variable (keeps : ∀ session next, SessionStep session next → P session → P next)
include keeps

/-- A step keeps what every update keeps of a stored record. -/
theorem session_step_keeps
    (based : seeds <:+ t) (stored : lookup k t ≠ none) {past : Trace Runtime} (after : t <:+ past)
    (moment : x :: past <:+ c.trace)
    (holds : ∀ v, lookup k past = some v → ∃ session, v = .session session ∧ P session) :
    ∀ v, lookup k (x :: past) = some v → ∃ session, v = .session session ∧ P session := by
  intro v found
  rcases found_cons found with kept | effect
  · exact holds v kept
  · obtain ⟨i, mine⟩ := run.thread_of_moment moment (based.trans after)
    have made := session_effect run moment mine effect
    generalize x.op = o at made
    cases made with
    | created _ cond creates _ =>
      exact (not_created_again run absent once based stored after moment creates).elim
    | changed old _ tag before changes =>
      obtain ⟨session, next, rfl, rfl, step⟩ := changes
      obtain ⟨session', same, kept⟩ := holds _ before
      cases same
      exact ⟨next, rfl, keeps session next step kept⟩

/-- What holds of the stored record at one moment, and every update keeps, holds of it at
every later moment at which it is stored. -/
theorem session_lasts
    {u : Trace Runtime} (based : seeds <:+ t) (order : t <:+ u) (below : u <:+ c.trace)
    (found : lookup k t = some (.session session)) (holds : P session) :
    ∀ v, lookup k u = some v → ∃ later, v = .session later ∧ P later := by
  refine lasts (P := fun w => ∀ v, lookup (B := Runtime) k w = some v →
    ∃ later, v = .session later ∧ P later) order ?_ ?_
  · intro v same
    rw [found] at same
    cases same
    exact ⟨session, rfl, holds⟩
  · intro x past moment after kept
    exact session_step_keeps run absent once keeps based (by simp [found]) after
      (moment.trans below) kept

end

end

theorem stored_session (absent : lookup k seeds = none) (based : seeds <:+ t)
    (below : t <:+ c.trace) (found : lookup k t = some v) : ∃ session, v = .session session := by
  refine value_lasts (P := (∀ v, · = some v → ∃ session, v = RuntimeVal.session session)) based
    (by simp [absent]) ?_ v found
  rintro x past _ moment after kept effect v rfl
  obtain ⟨i, mine⟩ := run.thread_of_moment (moment.trans below) after
  have made := session_effect run (moment.trans below) mine effect
  generalize x.op = o at made
  cases made with
  | created _ cond creates _ =>
    obtain ⟨_, _, ⟨session, same, _⟩, _⟩ := creates
    exact ⟨session, same⟩
  | changed old _ tag before changes =>
    obtain ⟨_, next, _, same, _⟩ := changes
    exact ⟨next, same⟩

/-- A stop that was told it made the transition found the record starting or running and
left it terminating. -/
theorem told_terminating (call : calls i = .update project id (.beginTerminating attribution))
    (told : c.prog i = .ret (.updated ⟨session, true⟩)) :
    ∃ e past before, e :: past <:+ c.trace ∧ e.thread = some i ∧
      lookup (RuntimeKey.session project id) past = some (.session before) ∧
      (before.status = .starting ∨ before.status = .running) ∧
      lookup (RuntimeKey.session project id) (e :: past) = some (.session session) ∧
      session.status = .terminating := by
  have alone : Emits (SessionRule (.session project id) (calls i)) (fun out es => ∀ session,
      out = .ok (.updated ⟨session, true⟩) →
        Updated TerminatingStep (.session project id) (.ok ⟨session, true⟩) es)
          (calls i).run [] := by
    rw [call]
    refine emits_seq emits_beginTerminating ?_ (fun _ _ _ _ => by rintro _ ⟨⟩)
    rintro outcome es _ updated session ⟨⟩
    exact updated
  obtain ⟨before, tag, tag', rest, step, ownEq, read⟩ := run.returned alone told session rfl
  obtain ⟨e, past, moment, mine, _, old, new⟩ := own_swapped run.accepted
    ⟨[], ownEq.symm⟩ (.inl read)
  exact ⟨e, past, before, moment, mine, old, step.active, new, step.stopping⟩

end

end Runs

/-- One `createSession` with any number of updates, expiry scans and reaper passes: between
any two moments at which the record is stored its status only moves as `mayFollow` allows,
so a terminal status stays, `terminating` is only followed by `terminated`, and nothing
returns to `starting`; at most one stop is told that it made the transition; and a removed
record is terminal, without a sandbox or with a reclaimed one. -/
theorem session_record_lifecycle (a : Adapter Runtime) (seeds : Trace Runtime)
    (initial : Seeds a seeds) (calls : Nat → SessionCall)
    (once : ∀ i j, (calls i).isCreate = true → (calls j).isCreate = true → i = j)
    (project : ProjectId) (id : SessionId)
    (absent : lookup (RuntimeKey.session project id) seeds = none)
    (c : Config Runtime HubError SessionResult)
    (reach : Reaches a ⟨seeds, fun i => (calls i).run⟩ c) :
    (∀ t u v w, seeds <:+ t → t <:+ u → u <:+ c.trace →
      lookup (RuntimeKey.session project id) t = some v →
      lookup (RuntimeKey.session project id) u = some w →
      ∃ session later, v = .session session ∧ w = .session later ∧
        mayFollow session.status later.status = true) ∧ (∀ i j by_ by' session session',
      calls i = .update project id (.beginTerminating by_) →
      calls j = .update project id (.beginTerminating by') →
      c.prog i = .ret (.updated ⟨session, true⟩) → c.prog j = .ret (.updated ⟨session', true⟩) →
      i = j) ∧ ∀ x past v, (x :: past) <:+ c.trace → seeds <:+ past →
      x.effect (.session project id) = some none →
      lookup (RuntimeKey.session project id) past = some v →
      ∃ session, v = .session session ∧ isReapable session = true := by
  have run := reach.history initial
  have follows {t u : Trace Runtime} {session : Session} (based : seeds <:+ t) (order : t <:+ u)
      (below : u <:+ c.trace)
      (found : lookup (RuntimeKey.session project id) t = some (.session session)) :=
    session_lasts run absent once
      (fun _ _ step before => mayFollow_trans before step.status) based order below found
      mayFollow_refl
  refine ⟨?_, ?_, ?_⟩
  · intro t u v w based order below found later
    obtain ⟨session, rfl⟩ := stored_session run absent based (order.trans below) found
    obtain ⟨session', rfl, moved⟩ := follows based order below found w later
    exact ⟨session, session', rfl, rfl, moved⟩
  · intro i j by_ by' session session' call call' told told'
    obtain ⟨e, past, before, moment, mine, found, active, left, stopping⟩ :=
      told_terminating run call told
    obtain ⟨e', past', before', moment', theirs, found', active', left', stopping'⟩ :=
      told_terminating run call' told'
    -- the later stop would have found the record terminating
    have never {u w : Trace Runtime} {stopped active : Session} (based : seeds <:+ u)
        (order : u <:+ w) (below : w <:+ c.trace)
        (left : lookup (RuntimeKey.session project id) u = some (.session stopped))
        (stopping : stopped.status = .terminating)
        (found : lookup (RuntimeKey.session project id) w = some (.session active))
        (live : active.status = .starting ∨ active.status = .running) : False := by
      obtain ⟨_, same, moved⟩ := follows based order below left _ found
      cases same
      rw [stopping] at moved
      rcases live with status | status <;> simp [status, mayFollow] at moved
    have based := (run.after_seeds initial moment mine).trans (List.suffix_cons e past)
    have based' := (run.after_seeds initial moment' theirs).trans (List.suffix_cons e' past')
    rcases moments_ordered moment moment' with same | earlier | later
    · cases same
      exact Option.some.inj (mine.symm.trans theirs)
    · exact (never based earlier moment'.past left stopping found' active').elim
    · exact (never based' later moment.past left' stopping' found active).elim
  · intro x past v moment based removed found
    obtain ⟨i, mine⟩ := run.thread_of_moment moment based
    have made := session_effect run moment mine removed
    generalize x.op = o at made
    cases made with
    | removed seen =>
      obtain ⟨session, tag, read, reapable⟩ := seen
      obtain ⟨g, q, earlier, theirs, shape⟩ := exists_own_mem read
      have toTrace := moment.past
      have stored := ((run.accepted.at (earlier.trans toTrace)).tagged shape).1
      have after := run.after_seeds initial (earlier.trans toTrace) theirs
      exact session_lasts run absent once (fun _ _ step => step.reapable) after
        earlier.past toTrace stored reapable v found

namespace SessionScenario

def adapter : Adapter Runtime := ⟨fun _ version => version, 100⟩

def input : CreateSessionInput :=
  { notebookId := 2, projectId := 1, userId := "ada", sessionId := some 7, sandboxId := some 3 }

/-- Session 7 is created, stopped twice and torn down. -/
def calls : Nat → SessionCall
  | 0 => .create input
  | 1 => .update 1 7 (.beginTerminating none)
  | 2 => .update 1 7 (.beginTerminating (some "bob"))
  | 3 => .update 1 7 .markTerminated
  | _ => .expireStale (.single _)

theorem calls_once (i j : Nat) (left : (calls i).isCreate = true)
    (right : (calls j).isCreate = true) : i = j := by
  have zero : ∀ n, (calls n).isCreate = true → n = 0
    | 0, _ => rfl
    | 1, create => by cases create
    | 2, create => by cases create
    | 3, create => by cases create
    | n + 4, create => by cases create
  rw [zero i left, zero j right]

/-- Both stops read the starting record, the first one wins, and the teardown follows. -/
def twoStops : List (Move Runtime) :=
  turns 0 1 [.ok, .ok] ++ [⟨1, 2, .ok⟩, ⟨2, 2, .ok⟩, ⟨1, 2, .ok⟩, ⟨2, 3, .ok⟩, ⟨1, 3, .ok⟩] ++
  turns 2 3 [.ok, .ok] ++ turns 3 4 [.ok, .ok]

def toldTrue : Prog Runtime HubError SessionResult → Bool
  | .ret (.updated outcome) => outcome.written
  | _ => false

theorem ret_of_toldTrue (told : toldTrue p = true) :
    ∃ session, p = .ret (.updated ⟨session, true⟩) := by
  unfold toldTrue at told
  split at told
  · next outcome =>
    obtain ⟨session, written⟩ := outcome
    cases told
    exact ⟨session, rfl⟩
  · cases told

def isTerminated : Option RuntimeVal → Bool
  | some (.session session) => session.status = .terminated
  | _ => false

end SessionScenario

open SessionScenario in
/-- The loser of two stops is not told that it made the transition, and the record ends
terminated. -/
theorem session_record_lifecycle_two_stops : ∃ c, Reaches adapter ⟨[], fun i => (calls i).run⟩ c ∧
      isTerminated (lookup (RuntimeKey.session 1 7) c.trace) = true ∧
      (∃ session, c.prog 1 = .ret (.updated ⟨session, true⟩)) ∧
      ∀ session, c.prog 2 ≠ .ret (.updated ⟨session, true⟩) := by
  obtain ⟨c, reach, told, ended⟩ := Config.play_any adapter ⟨[], fun i => (calls i).run⟩ twoStops
    (fun c => toldTrue (c.prog 1) = true ∧
      isTerminated (lookup (RuntimeKey.session 1 7) c.trace) = true) (by decide)
  obtain ⟨session, returned⟩ := ret_of_toldTrue told
  refine ⟨c, reach, ended, ⟨session, returned⟩, ?_⟩
  intro session' returned'
  have same := (session_record_lifecycle adapter [] (Seeds.empty _) calls calls_once 1 7 rfl c
    reach).2.1 1 2 none (some "bob") session session' rfl rfl returned returned'
  exact absurd same (by decide)

end MarimoHub.Guarantees
