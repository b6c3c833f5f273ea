import Mathlib.Data.Finset.Max
import Mathlib.Data.Prod.Lex
import MarimoHub.Guarantees.SessionCapQueue

/-!
# Concurrent starts under a cap

A start is admitted by its rank among the records it reads after it wrote its own. The rank is by
the time the record carries, which was read before the record was written, so a start that is slow
to write can rank before one that was admitted already and is not running yet: then both are
admitted. Where records become visible in the order of their ranks the cap holds. In any order of
events, as many starts are admitted as there are places left, because whatever ranks before the
first start that is rejected is admitted.
-/

namespace MarimoHub.Guarantees

open ObjectStore Source

/-! ## Scopes -/

section Scope

variable {request request' : StartRequest}
  {id : SessionId}

theorem mode_of_identity
    (same : capIdentity session = capIdentity (newSession (request.record id) id now)) :
    sessionMode session = request.mode ∧ session.userId = request.input.userId ∧
      session.projectId = request.input.projectId := by
  simp only [capIdentity, Prod.mk.injEq] at same
  obtain ⟨_, project, user, mode, _⟩ := same
  refine ⟨?_, user, project⟩
  rw [sessionMode, mode]
  cases kind : request.mode <;> simp only [StartRequest.record, kind] <;> rfl

theorem in_queue_of_cap (checks : cap ∈ request.caps deps)
    (same : capIdentity session = capIdentity (newSession (request.record id) id now))
    (active : isActive session = true) :
    cap.queue.keys (fileOf session) = true ∧ cap.queue.holds session = true := by
  obtain ⟨mode, user, project⟩ := mode_of_identity same
  rw [StartRequest.caps, capsFor] at checks
  cases kind : request.mode with
  | app =>
    rw [kind] at checks mode
    simp only [capScope, List.mem_cons, List.not_mem_nil, or_false] at checks
    rcases checks with rfl | rfl <;>
      simp [CapQueue.keys, CapQueue.holds, fileOf, isProjectSessionKey, isSessionKey, active, mode,
        user, project, capScope]
  | edit =>
    rw [kind] at checks mode
    simp only [capScope, List.mem_singleton] at checks
    subst checks
    simp [CapQueue.keys, CapQueue.holds, fileOf, isSessionKey, active, mode, user, capScope]

theorem cap_of_in_queue (checks : cap ∈ request.caps deps)
    (same : capIdentity session = capIdentity (newSession (request'.record id) id now))
    (filed : cap.queue.keys (fileOf session) = true) (held : cap.queue.holds session = true) :
    cap ∈ request'.caps deps := by
  obtain ⟨mode, user, project⟩ := mode_of_identity same
  rw [StartRequest.caps, capsFor] at checks ⊢
  cases kind : request.mode with
  | app =>
    rw [kind] at checks
    simp only [capScope, List.mem_cons, List.not_mem_nil, or_false] at checks
    rcases checks with rfl | rfl
    · simp only [CapQueue.holds, Bool.and_eq_true, decide_eq_true_eq, mode] at held
      simp only [CapQueue.keys, fileOf, isProjectSessionKey, decide_eq_true_eq, project] at filed
      rw [held.2, filed]
      exact .head _
    · simp only [CapQueue.holds, Bool.and_eq_true, decide_eq_true_eq, mode, user] at held
      rw [held.2, held.1.1]
      exact .tail _ (.head _)
  | edit =>
    rw [kind] at checks
    simp only [capScope, List.mem_singleton] at checks
    subst checks
    simp only [CapQueue.holds, Bool.and_eq_true, decide_eq_true_eq, mode, user] at held
    rw [held.2, held.1.1]
    exact .head _

/-- Texts that differ early differ whatever follows. -/
theorem text_ne {first second : String} (n : Nat) (left : n < first.toList.length)
    (right : n < second.toList.length) (differ : first.toList[n]? ≠ second.toList[n]?)
    {mid mid' rest rest' : String} : first ++ mid ++ rest ≠ second ++ mid' ++ rest' := by
  intro same
  have chars := congrArg (fun text => text.toList[n]?) same
  simp only [String.toList_append, List.append_assoc] at chars
  rw [List.getElem?_append_left left, List.getElem?_append_left right] at chars
  exact differ chars

theorem appsPerProjectReached_ne {max other : Int} :
    appsPerProjectReached max ≠ appsPerUserReached other :=
  text_ne 29 (by decide +kernel) (by decide +kernel) (by decide +kernel)

/-- The error of a cap tells it from the other caps of the start. -/
theorem cap_of_reached (checks : cap ∈ request.caps deps)
    (also : other ∈ request.caps deps) (same : cap.reached = other.reached) : cap = other := by
  rw [StartRequest.caps, capsFor] at checks also
  have apart (max max' : Option Int) (queue queue' : CapQueue) (early late : Bool) :
      Cap.reached ⟨max, appsPerProjectReached, queue, early⟩ ≠
        Cap.reached ⟨max', appsPerUserReached, queue', late⟩ := by
    intro equal
    exact appsPerProjectReached_ne (HubError.resourceExhausted.inj equal)
  cases kind : request.mode with
  | app =>
    rw [kind] at checks also
    simp only [capScope, List.mem_cons, List.not_mem_nil, or_false] at checks also
    rcases checks with rfl | rfl <;> rcases also with rfl | rfl
    · rfl
    · exact absurd same (apart _ _ _ _ _ _)
    · exact absurd same.symm (apart _ _ _ _ _ _)
    · rfl
  | edit =>
    rw [kind] at checks also
    simp only [capScope, List.mem_singleton] at checks also
    rw [checks, also]

end Scope

/-! ## Starts that passed -/

/-- The start checks the cap and its recheck ended with the verdict. -/
def RecheckedFor (deps : StartDeps) (calls : Nat → CapCall) (cap : Cap)
    (verdict : Except HubError Unit) (t : Trace Runtime) (i : Nat) (session : Session) : Prop :=
  ∃ request, cap ∈ request.caps deps ∧ RecheckEnded deps (calls i) request session verdict (own i t)

/-- The start passed its recheck and its session is active. -/
def PassedActive (deps : StartDeps) (calls : Nat → CapCall) (cap : Cap) (t : Trace Runtime)
    (i : Nat) : Prop :=
  ∃ session record, RecheckedFor deps calls cap (.ok ()) t i session ∧
    lookup (fileOf session) t = some (.session record) ∧ isActive record = true

/-- When a start writes its record, every active session of the queue is running or ranks before
it, and the start does not leave it out of the count. -/
def CreatedInRank (deps : StartDeps) (calls : Nat → CapCall) (cap : Cap) (past : Trace Runtime)
    (x : Event Runtime) : Prop :=
  ∀ i request session, x.thread = some i → calls i = .start request → cap ∈ request.caps deps →
    x.op = .put (fileOf session) (.session session) .any →
    some session.sessionId ≠ request.temporaryToRetire ∧
    ∀ key other, lookup key past = some (.session other) → cap.queue.keys key = true →
      cap.queue.holds other = true → isActive other = true →
      some other.sessionId ≠ request.temporaryToRetire ∧
        (other.status = .running ∨ Precedes other session)

variable {i : Nat} {x : Event Runtime} {past : Trace Runtime} {seen : List Session}
  {es : Log Runtime} {session found first second : Session} {beyond : Bool}

section Run

variable {deps : StartDeps} {calls : Nat → CapCall} {cap : Cap} {limit : Nat}

/-- A start that wrote its record. -/
structure Entrant (deps : StartDeps) (calls : Nat → CapCall) (cap : Cap) (i : Nat)
    (session : Session) (x : Event Runtime) (past : Trace Runtime) : Prop where
  made : FiledAt calls (fileOf session) i session x past
  effect : x.effect (fileOf session) = some (some (.session session))
  checks : ∃ request id now, calls i = .start request ∧ cap ∈ request.caps deps ∧
    session = newSession (request.record id) id now

theorem in_queue_of_entrant (entrant : Entrant deps calls cap i session x past) :
    cap.queue.keys (fileOf session) = true := by
  obtain ⟨request, id, now, _, checks, rfl⟩ := entrant.checks
  exact (in_queue_of_cap checks rfl rfl).1

/-- The read of the queue in a recheck. -/
structure View (deps : StartDeps) (calls : Nat → CapCall) (t : Trace Runtime) (cap : Cap)
    (limit i : Nat) (beyond : Bool) (session : Session) (start : Trace Runtime)
    (seen : List Session)
    (es : Log Runtime) (request : StartRequest) : Prop where
  called : calls i = .start request
  checks : cap ∈ request.caps deps
  read : QueueRead (request.recheckPaging cap.queue).pages seen es
  rank : ranksOver session.sessionId limit ((cap.queue.sorted seen).filter fun other =>
    some other.sessionId ≠ request.temporaryToRetire) = beyond
  during : During t start (fun q => ∀ session' verdict,
    ¬ RecheckEnded deps (calls i) request session' verdict (own i q)) es

theorem CapRun.entered (run : CapRun a deps seeds calls c)
    (checked : cap.limit = some limit)
    (ended : RecheckedFor deps calls cap verdict c.trace i session) :
    ∃ x past, x :: past <:+ c.trace ∧ Entrant deps calls cap i session x past ∧
      ∀ beyond, (verdict = .ok () ∧ beyond = false ∨ verdict = .error cap.reached ∧ beyond = true) →
        ∃ seen es request, View deps calls c.trace cap limit i beyond session (x :: past) seen es
          request := by
  obtain ⟨request, checks, finished⟩ := ended
  have start := finished.1
  obtain ⟨id, now, x, past, reads, filed, moment, made, effect, justified, during⟩ :=
    run.recheck finished
  refine ⟨x, past, moment, ⟨made, effect, request, id, now, start, checks, filed⟩, ?_⟩
  have view {beyond : Bool} (ranked : Ranked request id cap limit beyond reads) :
      ∃ seen es request, View deps calls c.trace cap limit i beyond session (x :: past) seen es
        request := by
    obtain ⟨seen, new, inside, read, rank⟩ := ranked
    have named : session.sessionId = id := by rw [filed]; rfl
    refine ⟨seen, new, request, start, checks, read, named ▸ rank, ?_⟩
    exact fun ev member => during ev (inside.subset member)
  rintro beyond (⟨rfl, rfl⟩ | ⟨rfl, rfl⟩)
  · exact view (justified cap checks limit checked)
  · rcases justified with broken | ⟨other, also, limit', checked', same, ranked⟩
    · cases broken
    · cases cap_of_reached checks also same
      rw [checked] at checked'
      cases checked'
      exact view ranked

/-- While a recheck reads, its own record is found not to run. -/
theorem CapRun.own_waits (run : CapRun a deps seeds calls c)
    (moment : x :: past <:+ c.trace) (entrant : Entrant deps calls cap i session x past)
    (view : View deps calls c.trace cap limit i beyond session (x :: past) seen es request)
    (member : found ∈ seen) (same : found.sessionId = session.sessionId) :
    found.status ≠ .running ∧ capIdentity session = capIdentity found := by
  have based : seeds <:+ x :: past :=
    (run.history.after_seeds run.initial moment entrant.made.mine).cons
  obtain ⟨_, q, below, after, waiting, stored⟩ := run.seen_stored based view.read view.during member
  have key := run.file_of_id moment entrant.made (based.trans after) below stored same
  rw [key] at stored
  constructor
  · intro running
    obtain ⟨request', session', ended, _⟩ :=
      run.cleared after below entrant.made entrant.effect stored running
    have called := ended.1
    rw [view.called] at called
    cases called
    exact waiting session' _ ended
  · exact (run.settled_of_created moment entrant.made).identity after below
      (lookup_of_effect entrant.effect) stored

theorem Precedes.of_identity (early : Precedes first second)
    (left : capIdentity first = capIdentity third) (right : capIdentity second = capIdentity
      fourth) : Precedes third fourth := by
  simp only [capIdentity, Prod.mk.injEq] at left right
  rw [Precedes, ← left.1, ← left.2.2.2.2, ← right.1, ← right.2.2.2.2]
  exact early

/-- A start that was admitted and is active goes before one that was created later, whenever that
one looks. -/
theorem CapRun.ahead_of_later (run : CapRun a deps seeds calls c)
    (ordered : Along (CreatedInRank deps calls cap) c.trace)
    (moment : x :: past <:+ c.trace) (entrant : Entrant deps calls cap i session x past)
    (earlier : y :: q <:+ past) (first : Entrant deps calls cap j other y q)
    (stays : lookup (fileOf other) c.trace = some (.session record))
    (active : isActive record = true) (after : x :: past <:+ u)
    (below : u <:+ c.trace) :
    ∃ found, lookup (fileOf other) u = some (.session found) ∧ isActive found = true ∧
      capIdentity other = capIdentity found ∧
      (∀ request, calls i = .start request → some found.sessionId ≠ request.temporaryToRetire) ∧
      (found.status = .running ∨ Precedes found session) := by
  have inside : past <:+ c.trace := moment.past
  have settled := run.settled_of_created (earlier.trans inside) first.made
  have created : lookup (fileOf other) (y :: q) = some (.session other) :=
    lookup_of_effect first.effect
  have later : y :: q <:+ u := earlier.trans after.past
  -- active at the end, so active when the later start looks and when it was created
  obtain ⟨found, here, now⟩ := settled.before
    (fun _ _ step => step.active) later below List.suffix_rfl stays active
  obtain ⟨former, before, was⟩ := settled.before (P := fun s => isActive s = true ∧
      (found.status ≠ .running → s.status ≠ .running))
    (fun _ _ step good => ⟨step.active good.1, fun waits running =>
      good.2 waits (step.running running good.1)⟩)
    earlier after.past below here ⟨now, id⟩
  have same := settled.identity later below created here
  have same' := settled.identity earlier inside created before
  obtain ⟨request', id, started, _, checks, rfl⟩ := first.checks
  obtain ⟨counted, holds⟩ := in_queue_of_cap checks same'.symm was.1
  obtain ⟨request, _, _, called, mine, _⟩ := entrant.checks
  have condition :=
    (ordered.at moment) i request session entrant.made.mine called mine entrant.made.op
  rw [← fileOf_of_identity same'] at counted
  obtain ⟨kept, rank⟩ := condition.2 _ former before counted holds was.1
  have names : former.sessionId = found.sessionId := by
    have equal := same'.symm.trans same
    simp only [capIdentity, Prod.mk.injEq] at equal
    exact equal.1
  refine ⟨found, here, now, same, ?_, ?_⟩
  · intro other called'
    rw [called] at called'
    cases called'
    exact names ▸ kept
  · by_cases running : found.status = .running
    · exact .inl running
    · exact .inr ((rank.resolve_left (was.2 running)).of_identity (same'.symm.trans same) rfl)

end Run

/-- One image for each element, none of them shared. -/
theorem images_of_each {α β : Type} {P : α → β → Prop} {js : List α} (distinct : js.Nodup)
    (each : ∀ j ∈ js, ∃ b, P j b) (apart : ∀ j ∈ js, ∀ j' ∈ js, ∀ b, P j b → P j' b → j = j') :
    ∃ images : List β, images.Nodup ∧ images.length = js.length ∧ ∀ b ∈ images,
    ∃ j ∈ js, P j b := by
  choose f holds using each
  refine ⟨js.attach.map fun j => f j.1 j.2, ?_, by simp, fun b member => ?_⟩
  · refine (List.nodup_attach.mpr distinct).map fun j j' same => Subtype.ext ?_
    exact apart j j.2 j' j'.2 _ (holds j j.2) (same ▸ holds j' j'.2)
  · obtain ⟨j, _, rfl⟩ := List.mem_map.mp member
    exact ⟨j, j.2, holds j j.2⟩

/-- Where records are written in the order of their ranks, no more starts than the cap allows have
passed and are active. -/
theorem passed_within_cap {a : Adapter Runtime} {deps : StartDeps} {calls : Nat → CapCall}
    {c : Config Runtime HubError CapResult} {cap : Cap} {limit : Nat}
    (reach : Reaches a ⟨[], fun i => (calls i).run deps⟩ c) (checked : cap.limit = some limit)
    (ordered : Along (CreatedInRank deps calls cap) c.trace) (threads : List Nat)
    (distinct : threads.Nodup) (passed : ∀ i ∈ threads, PassedActive deps calls cap c.trace i) :
    threads.length ≤ limit := by
  by_contra more
  have run : CapRun a deps [] calls c :=
    ⟨.empty a, (fun _ _ found => by cases found), reach.history (.empty a)⟩
  have entered : ∀ i ∈ threads, ∃ n session x past, past.length = n ∧ x :: past <:+ c.trace ∧
      Entrant deps calls cap i session x past ∧
      (∃ record, lookup (fileOf session) c.trace = some (.session record) ∧
        isActive record = true) ∧
      ∃ seen es request, View deps calls c.trace cap limit i false session (x :: past) seen es
        request := by
    intro i member
    obtain ⟨session, record, ended, stored, active⟩ := passed i member
    obtain ⟨x, past, moment, entrant, views⟩ := run.entered checked ended
    exact ⟨_, session, x, past, rfl, moment, entrant, ⟨record, stored, active⟩,
      views false (.inl ⟨rfl, rfl⟩)⟩
  choose! position entry using entered
  have some_thread : threads.toFinset.Nonempty := by
    cases threads with
    | nil => exact absurd (Nat.zero_le _) more
    | cons i rest => exact ⟨i, by simp⟩
  -- the start that was created last
  obtain ⟨z, member, last⟩ := Finset.exists_max_image threads.toFinset position some_thread
  rw [List.mem_toFinset] at member
  obtain ⟨session, x, past, place, moment, entrant, ⟨record, stored, active⟩, seen, es,
    request, view⟩ := entry z member
  have settled := run.settled_of_created moment entrant.made
  have condition := (ordered.at moment) z request session entrant.made.mine view.called view.checks
    entrant.made.op
  let line := (cap.queue.sorted seen).filter fun other =>
    some other.sessionId ≠ request.temporaryToRetire
  -- each other start is in the line, ahead of it
  have ahead : ∀ j ∈ threads.erase z, ∃ found, (found ∈ line ∧
      (found.status = .running ∨ Precedes found session)) ∧
      ∃ other y q, y :: q <:+ c.trace ∧ Entrant deps calls cap j other y q ∧
        fileOf other = fileOf found := by
    intro j inside
    obtain ⟨differs, among⟩ := (distinct.mem_erase_iff).mp inside
    obtain ⟨other, y, q, place', moment', entrant', ⟨record', stored', active'⟩, _⟩ := entry j among
    have earlier : y :: q <:+ past := by
      have order := last j (List.mem_toFinset.mpr among)
      rcases moments_ordered moment' moment with same | before | after
      · cases same
        exact absurd (Option.some.inj (entrant'.made.mine.symm.trans entrant.made.mine)) differs
      · exact before
      · have longer := after.length_le
        rw [List.length_cons] at longer
        omega
    obtain ⟨found, sees, good⟩ := run.stored_seen view.read view.during
      (in_queue_of_entrant entrant') fun u after below _ =>
        run.ahead_of_later ordered moment entrant earlier entrant' stored' active' after below
    obtain ⟨live, same, kept, rank⟩ := good
    obtain ⟨request', id', now', _, checks', rfl⟩ := entrant'.checks
    have holds := (in_queue_of_cap checks' same.symm live).2
    refine ⟨found, ⟨mem_sorted.mpr ⟨⟨sees, holds⟩, ?_⟩, rank⟩, _, y, q, moment', entrant',
      fileOf_of_identity same⟩
    exact decide_eq_true (kept request view.called)
  obtain ⟨front, once, length, from_⟩ := images_of_each (distinct.erase z) ahead (by
    rintro j _ j' _ found ⟨_, other, y, q, moment', made, same⟩
      ⟨_, other', y', q', moment'', made', same'⟩
    have keys : fileOf other' = fileOf other := same'.trans same.symm
    have made' := made'.made
    rw [keys] at made'
    cases run.created_once moment' moment'' made.made made'
    exact Option.some.inj (made.made.mine.symm.trans made'.mine))
  -- so its rank is over the limit
  have beyond : ranksOver session.sessionId limit line = true := by
    refine ranksOver_of_ahead (sorted_pairwise _ _ _) ?_ once
      (fun found among => (from_ found among).choose_spec.2.1.1) ?_ ?_
    · obtain ⟨found, sees, live, same⟩ := run.stored_seen view.read view.during
        (in_queue_of_entrant entrant)
        (R := fun s => isActive s = true ∧ capIdentity session = capIdentity s)
        fun u after below _ => by
          obtain ⟨found, here, now⟩ := settled.before
            (fun _ _ step => step.active) after below List.suffix_rfl stored active
          exact ⟨found, here, now,
            settled.identity after below (lookup_of_effect entrant.effect) here⟩
      obtain ⟨_, id', now', _, checks', filed⟩ := entrant.checks
      have names : found.sessionId = session.sessionId := (congrArg Prod.fst same).symm
      refine ⟨found, mem_sorted.mpr ⟨⟨sees, ?_⟩, ?_⟩, names⟩
      · exact (in_queue_of_cap checks' (same.symm.trans (congrArg capIdentity filed)) live).2
      · rw [names]
        exact decide_eq_true condition.1
    · intro found among mine inLine named
      obtain ⟨_, _, ⟨_, rank⟩, _⟩ := from_ found among
      obtain ⟨waits, same⟩ := run.own_waits moment entrant view (mem_sorted.mp inLine).1.1 named
      exact byCapOrder_ahead waits (rank.imp_right fun early => early.of_identity rfl same)
    · rw [length, List.length_erase_of_mem member]
      omega
  rw [view.rank] at beyond
  cases beyond

/-! ## Two starts of one user -/

variable {key : RuntimeKey} {a : Adapter Runtime} {seeds : Trace Runtime}
  {c : Config Runtime HubError CapResult}

/-- A start that returned passed its recheck; its session is that of the one record it put. -/
theorem passed_of_returned
    (history : History a seeds (fun i => (calls i).run deps) c) (called : calls i = .start request)
    (checks : cap ∈ request.caps deps) (returned : c.prog i = .ret (.started result))
    (only : ∀ other v r, ⟨.put other v .any, r⟩ ∈ own i c.trace → other = key) :
    ∃ session, RecheckedFor deps calls cap (.ok ()) c.trace i session ∧ fileOf session = key := by
  obtain ⟨request', session, ended⟩ := history.returned capCall_emits returned
  cases ended.1.symm.trans called
  refine ⟨session, ⟨request, checks, ended⟩, ?_⟩
  obtain ⟨rest, inside, _, _, tag, _, _, _, _, _, put, rfl, _⟩ := ended.rechecked
  exact only _ _ _ (inside.subset (List.mem_append_right _ (put.subset (.head _))))

namespace TwoStarts

def adapter : Adapter Runtime := ⟨fun _ version => version, 10⟩

def paging : CapPaging := fun queue =>
  DistinctPages.single (B := Runtime) queue.keys

def deps : StartDeps :=
  { maxConcurrentSessionsPerUser := some 1, toSessionError := fun _ => ⟨"", ""⟩ }

def cap : Cap := ⟨some 1, sessionsPerUserReached, .ofUser "ada" .user, false⟩

def request (notebook : NotebookId) : StartRequest where
  mode := .edit
  input := { notebookId := notebook, projectId := 0, userId := "ada" }
  preflightPaging := paging
  recheckPaging := paging
  provision := .ok { sandboxUrl := "url" }

/-- Two starts for one user on different notebooks. -/
def calls : Nat → CapCall
  | 0 => .start (request 0)
  | 1 => .start (request 1)
  | _ => .expireStale (Pages.single (B := Runtime) isSessionKey)

/-- The only record a client put is the one of the session. -/
def putsOnly (key : RuntimeKey) (es : Log Runtime) : Bool :=
  es.all fun ev => match ev.op with
    | .put other _ .any => other = key
    | _ => true

theorem only_of_putsOnly (all : putsOnly key es = true) (other : RuntimeKey) (v : RuntimeVal)
    (r : PutRes Runtime) (member : ⟨.put other v .any, r⟩ ∈ es) : other = key :=
  of_decide_eq_true (List.all_eq_true.mp all _ member)

/-- The start returned, and its record is stored and active. -/
def runs (i : Nat) (id : SessionId) (c : Config Runtime HubError CapResult) : Bool :=
  (match c.prog i with
    | .ret (.started _) => true
    | _ => false) &&
  putsOnly (.session 0 id) (own i c.trace) &&
  match lookup (RuntimeKey.session 0 id) c.trace with
    | some (.session record) => isActive record
    | _ => false

theorem passed_of_runs {deps : StartDeps} {cap : Cap} {id : SessionId}
    (history : History adapter seeds (fun i => (calls i).run deps) c)
    (called : calls i = .start start) (checks : cap ∈ start.caps deps)
    (ended : runs i id c = true) : PassedActive deps calls cap c.trace i := by
  rw [runs, Bool.and_eq_true, Bool.and_eq_true] at ended
  obtain ⟨⟨returned, only⟩, stored⟩ := ended
  split at returned
  · next result done =>
    obtain ⟨session, rechecked, named⟩ := passed_of_returned history called checks done
      (only_of_putsOnly only)
    split at stored
    · next record found => exact ⟨session, record, rechecked, named ▸ found, stored⟩
    · cases stored
  · cases returned

def failed : RuntimeVal → Bool
  | .session session => session.status = .failed
  | _ => false

/-- The condition on a write, decided over the keys that were written before. -/
def inRank (past : Trace Runtime) (x : Event Runtime) : Bool :=
  match x.op with
  | .put _ (.session session) .any => (touched past).all fun key =>
    match lookup key past with
    | some (.session other) => other.status = .running ∨ Precedes other session
    | _ => true
  | _ => true

theorem createdInRank_of_inRank (ranked : inRank past x = true) :
    CreatedInRank deps calls cap past x := by
  intro i start session mine called _ op
  have kept (other : SessionId) : some other ≠ start.temporaryToRetire := by
    match i with
    | 0 =>
      cases called
      exact Option.some_ne_none _
    | 1 =>
      cases called
      exact Option.some_ne_none _
    | n + 2 => cases called
  refine ⟨kept _, fun key other found _ _ _ => ⟨kept _, ?_⟩⟩
  rw [inRank, op] at ranked
  have here := List.all_eq_true.mp ranked key (mem_touched_of_lookup (by rw [found]; rfl))
  rw [found] at here
  exact of_decide_eq_true here

/-- The second start comes when the first one runs. -/
def inTurn : List (Move Runtime) :=
  ⟨0, 0, .id 10⟩ :: List.replicate 8 ⟨0, 1, .ok⟩ ++ ⟨1, 2, .id 11⟩ :: List.replicate 7 ⟨1, 2, .ok⟩

/-- The first start reads the clock and is slow to write; the second is admitted meanwhile. -/
def overtaken : List (Move Runtime) :=
  [⟨0, 0, .id 10⟩, ⟨0, 1, .ok⟩] ++
  [⟨1, 1, .id 11⟩] ++ turns 1 2 [.ok, .ok, .ok, .ok] ++
  List.replicate 8 ⟨0, 3, .ok⟩ ++ List.replicate 4 ⟨1, 4, .ok⟩

end TwoStarts

section TwoStarts

open TwoStarts

/-- A second start in turn is rejected, and the first one stays the only one. -/
theorem start_in_turn_rejected : ∃ c, Reaches adapter ⟨[], fun i => (calls i).run deps⟩ c ∧
    Along (CreatedInRank deps calls cap) c.trace ∧
    (∀ i ∈ [0], PassedActive deps calls cap c.trace i) ∧
    (∃ session, lookup (RuntimeKey.session 0 11) c.trace = some (.session session) ∧
      session.status = .failed) ∧ [0].length ≤ 1 := by
  obtain ⟨c, reach, observed⟩ := Config.play_any adapter ⟨[], fun i => (calls i).run deps⟩ inTurn
    (fun c => runs 0 10 c && decide (Along (fun past x => inRank past x = true)
      c.trace) && (lookup (RuntimeKey.session 0 11) c.trace).any failed) (by decide)
  simp only [Bool.and_eq_true, decide_eq_true_eq] at observed
  obtain ⟨⟨first, ranked⟩, second⟩ := observed
  have ordered : Along (CreatedInRank deps calls cap) c.trace :=
    ranked.mono fun _ _ => createdInRank_of_inRank
  have passed : ∀ i ∈ [0], PassedActive deps calls cap c.trace i := by
    intro i member
    cases List.mem_singleton.mp member
    exact passed_of_runs (reach.history (.empty _)) rfl (.head _) first
  refine ⟨c, reach, ordered, passed, ?_, passed_within_cap reach rfl ordered [0] (by simp) passed⟩
  cases found : lookup (RuntimeKey.session 0 11) c.trace with
  | none =>
    rw [found] at second
    cases second
  | some v =>
    rw [found] at second
    cases v with
    | session session => exact ⟨session, rfl, of_decide_eq_true second⟩
    | _ => cases second

/-- Both starts pass the recheck of a cap of one and are active at the same time. -/
theorem overtaken_start_passes : ∃ c, Reaches adapter ⟨[], fun i => (calls i).run deps⟩ c ∧
    cap.limit = some 1 ∧ (∀ i ∈ [0, 1], PassedActive deps calls cap c.trace i) ∧
    ¬ [0, 1].length ≤ 1 := by
  obtain ⟨c, reach, observed⟩ := Config.play_any adapter ⟨[], fun i => (calls i).run deps⟩ overtaken
    (fun c => runs 0 10 c && runs 1 11 c) (by decide)
  rw [Bool.and_eq_true] at observed
  have history := reach.history (.empty _)
  refine ⟨c, reach, rfl, ?_, by decide⟩
  intro i member
  rcases List.mem_cons.mp member with rfl | rest
  · exact passed_of_runs history rfl (.head _) observed.1
  · cases List.mem_singleton.mp rest
    exact passed_of_runs history rfl (.head _) observed.2

/-! ## How many pass -/

/-- The initial contents: each session under its name. -/
def filed (sessions : List Session) : List (RuntimeKey × RuntimeVal) :=
  sessions.map fun session => (fileOf session, .session session)

/-- The sessions that have a place in the queue. -/
def occupying (queue : CapQueue) (sessions : List Session) : List Session :=
  sessions.filter fun session => queue.keys (fileOf session) && queue.holds session

theorem lookup_filed
    (found : lookup key (seed a (filed sessions)) = some v) :
    ∃ session ∈ sessions, key = fileOf session ∧ v = .session session := by
  obtain ⟨e, past, moment, effect, _⟩ := lookup_moment found
  obtain ⟨w, value, listed⟩ := effect_seed (moment.subset (.head _)) effect
  cases value
  obtain ⟨session, member, same⟩ := List.mem_map.mp listed
  cases same
  exact ⟨session, member, rfl, rfl⟩

/-- The recheck let the start pass, or rejected it because of the cap. -/
def DecidedBy (deps : StartDeps) (calls : Nat → CapCall) (cap : Cap) (t : Trace Runtime)
    (i : Nat) : Prop :=
  (∃ session, RecheckedFor deps calls cap (.ok ()) t i session) ∨
    ∃ session, RecheckedFor deps calls cap (.error cap.reached) t i session

section Run

variable {deps : StartDeps} {calls : Nat → CapCall} {cap : Cap}

/-- A session that a recheck sees ahead of a rejected start was there before, or belongs to a start
that passed, or to a rejected one that precedes. -/
theorem CapRun.origin_of_seen (run : CapRun a deps seeds calls c) {request : StartRequest}
    (moment : x :: past <:+ c.trace) (entrant : Entrant deps calls cap i session x past)
    (view : View deps calls c.trace cap limit i beyond session (x :: past) seen es request)
    {own_ : Session} (mine : own_ ∈ seen) (named : own_.sessionId = session.sessionId)
    (member : found ∈ seen) (holds : cap.queue.holds found = true)
    (differ : found.sessionId ≠ session.sessionId) (ahead : byCapOrder found own_ = true) :
    (∃ former, lookup (fileOf found) seeds = some (.session former) ∧
        cap.queue.keys (fileOf former) = true ∧ cap.queue.holds former = true) ∨
      ∃ j other y q, y :: q <:+ c.trace ∧ Entrant deps calls cap j other y q ∧
        fileOf other = fileOf found ∧
        (Cleared deps (calls j) (fileOf other) (own j c.trace) ∨ Precedes other session) := by
  have based : seeds <:+ x :: past :=
    (run.history.after_seeds run.initial moment entrant.made.mine).cons
  obtain ⟨counted, q, below, after, _, stored⟩ :=
    run.seen_stored based view.read view.during member
  rcases run.origin (based.trans after) below stored with
    ⟨former, seed⟩ | ⟨j, other, y, p, earlier, made, effect⟩
  · obtain ⟨former', seed', held⟩ := (run.settled_of_seed seed).before
      (fun _ _ step held => step.holds _ held)
      List.suffix_rfl (based.trans after) below stored holds
    exact .inl ⟨former', seed', (run.filed _ former' seed').1 ▸ counted, held⟩
  · have same := (run.settled_of_created (earlier.trans below) made).identity earlier below
      (lookup_of_effect effect) stored
    obtain ⟨_, request', id, now, called, rfl, name, _⟩ := made.filed
    have checks := cap_of_in_queue view.checks same.symm counted holds
    rw [name] at made effect
    refine .inr
      ⟨j, _, y, p, earlier.trans below, ⟨made, effect, request', id, now, called, checks, rfl⟩,
      name.symm, ?_⟩
    rw [name] at stored
    by_cases running : found.status = .running
    · have cleared := run.cleared earlier below made effect stored running
      exact .inl (cleared.grow (own_suffix below))
    · obtain ⟨waits, identity⟩ := run.own_waits moment entrant view mine named
      have early := byCapOrder_waiting running (named ▸ differ) ahead
      exact .inr (early.of_identity same.symm identity.symm)

end Run

theorem not_precedes_of_rank
    (order : toLex (first.startedAt, first.sessionId) ≤ toLex (second.startedAt, second.sessionId))
      : ¬ Precedes second first := by
  exact fun early => (precedes_iff.mp early).not_ge order

theorem nodup_line {queue : CapQueue} {keep : Session → Bool} (once : (seen.map fileOf).Nodup) :
    (((queue.sorted seen).filter keep).map fileOf).Nodup := by
  have held : ((seen.filter queue.holds).map fileOf).Nodup :=
    (List.filter_sublist.map fileOf).nodup once
  have sorted : ((queue.sorted seen).map fileOf).Nodup :=
    (((List.perm_insertionSort _ _).map fileOf).nodup_iff).mpr held
  exact (List.filter_sublist.map fileOf).nodup sorted

/-- The name of the record a start created. -/
noncomputable def fileOfStart (calls : Nat → CapCall) (t : Trace Runtime) (i : Nat) : RuntimeKey :=
  haveI : Nonempty RuntimeKey := ⟨.session 0 0⟩
  Classical.epsilon fun key => ∃ session x past, (x :: past) <:+ t ∧ key = fileOf session ∧
    FiledAt calls key i session x past

theorem fileOfStart_eq {calls : Nat → CapCall} (moment : x :: past <:+ t)
    (made : FiledAt calls (fileOf session) i session x past) :
    fileOfStart calls t i = fileOf session := by
  obtain ⟨other, y, q, moment', name, made'⟩ := Classical.epsilon_spec
    (p := fun key => ∃ session x past, x :: past <:+ t ∧ key = fileOf session ∧
      FiledAt calls key i session x past) ⟨_, session, x, past, moment, rfl, made⟩
  cases created_by_once moment moment' made made'
  exact name

theorem FiledAt.event {calls : Nat → CapCall} (made : FiledAt calls key i session x past)
    (moment : x :: past <:+ t) : ∃ r, ⟨.put key (.session session) .any, r⟩ ∈ own i t := by
  have inside := own_suffix (i := i) moment
  rw [own_cons made.mine] at inside
  have member := inside.subset (.head _)
  obtain ⟨⟨o, r⟩, thread, time, applied⟩ := x
  cases made.op
  exact ⟨r, member⟩

/-- Of any starts in the scope of a cap that all write their records and are decided by it, as many
pass as the sessions that were there before leave places. -/
theorem enough_starts_pass {a : Adapter Runtime} {deps : StartDeps} {calls : Nat → CapCall}
    {c : Config Runtime HubError CapResult} {cap : Cap} {limit : Nat} {sessions : List Session}
    (older : ∀ session ∈ sessions, session.sessionId < a.firstId)
    (reach : Reaches a ⟨seed a (filed sessions), fun i => (calls i).run deps⟩ c)
    (checked : cap.limit = some limit) (starts : List Nat)
    (decided : ∀ i ∈ starts, DecidedBy deps calls cap c.trace i)
    (alone : ∀ i request, calls i = .start request → cap ∈ request.caps deps → i ∉ starts →
      ∀ key v r, ⟨.put key v .any, r⟩ ∉ own i c.trace) :
    ∃ passing : List Nat, passing.Sublist starts ∧
      (∀ i ∈ passing, ∃ session, RecheckedFor deps calls cap (.ok ()) c.trace i session) ∧
      min starts.length (limit - (occupying cap.queue sessions).length) ≤ passing.length := by
  classical
  have initial := seeds_seed a (filed sessions)
  have run : CapRun a deps (seed a (filed sessions)) calls c := by
    refine ⟨initial, fun key session found => ?_, reach.history initial⟩
    obtain ⟨other, member, named, same⟩ := lookup_filed found
    cases same
    exact ⟨named, older _ member⟩
  let passing := starts.filter fun i =>
    ∃ session, RecheckedFor deps calls cap (.ok ()) c.trace i session
  have passes : ∀ i ∈ passing, ∃ session, RecheckedFor deps calls cap (.ok ()) c.trace i session :=
    fun i member => of_decide_eq_true (List.mem_filter.mp member).2
  refine ⟨passing, List.filter_sublist, passes, ?_⟩
  by_cases all : ∀ i ∈ starts, ∃ session, RecheckedFor deps calls cap (.ok ()) c.trace i session
  · have whole : passing = starts :=
      List.filter_eq_self.mpr fun i member => decide_eq_true (all i member)
    rw [whole]
    exact Nat.min_le_left _ _
  -- the rejected start that ranks first
  have rejected : ∀ i ∈ starts.filter (fun i => i ∉ passing), ∃ rank : Lex (Nat × Nat),
      ∃ session : Session,
      rank = toLex (session.startedAt, session.sessionId) ∧
        RecheckedFor deps calls cap (.error cap.reached) c.trace i session := by
    intro i member
    obtain ⟨inside, fails⟩ := List.mem_filter.mp member
    rcases decided i inside with good | ⟨session, bad⟩
    · exact absurd (List.mem_filter.mpr ⟨inside, decide_eq_true good⟩) (of_decide_eq_true fails)
    · exact ⟨_, session, rfl, bad⟩
  have nonempty : (starts.filter fun i => i ∉ passing).toFinset.Nonempty := by
    push Not at all
    obtain ⟨i, inside, fails⟩ := all
    refine ⟨i, List.mem_toFinset.mpr (List.mem_filter.mpr ⟨inside, decide_eq_true ?_⟩)⟩
    intro good
    obtain ⟨session, ended⟩ := passes i good
    exact fails session ended
  choose! rank entry using rejected
  obtain ⟨f, member, least⟩ := Finset.exists_min_image _ rank nonempty
  rw [List.mem_toFinset] at member
  obtain ⟨session, place, ended⟩ := entry f member
  obtain ⟨x, past, moment, entrant, views⟩ := run.entered checked ended
  obtain ⟨seen, es, request, view⟩ := views true (.inr ⟨rfl, rfl⟩)
  obtain ⟨mine, inLine, named, ahead, sublist, full, before⟩ :=
    ahead_of_ranksOver (sorted_pairwise _ _ _) view.rank
  have based : seed a (filed sessions) <:+ x :: past :=
    (run.history.after_seeds run.initial moment entrant.made.mine).cons
  have once : (ahead.map fileOf).Nodup :=
    (sublist.map fileOf).nodup (nodup_line (run.seen_nodup based view.read view.during))
  -- whatever is ahead of it was there before or passed
  have admitted : ahead.map fileOf ⊆
      (occupying cap.queue sessions).map fileOf ++ passing.map (fileOfStart calls c.trace) := by
    intro key among
    obtain ⟨found, here, rfl⟩ := List.mem_map.mp among
    obtain ⟨differ, order⟩ := before found here
    obtain ⟨⟨sees, holds⟩, _⟩ := mem_sorted.mp (sublist.subset here)
    rcases run.origin_of_seen moment entrant view (mem_sorted.mp inLine).1.1 named sees holds differ
      order with ⟨former, seed, counted, held⟩ | ⟨j, other, y, q, moment', entrant', same, reason⟩
    · obtain ⟨old, listed, name, value⟩ := lookup_filed seed
      cases value
      refine List.mem_append_left _ (List.mem_map.mpr ⟨former, List.mem_filter.mpr ⟨listed, ?_⟩,
        name.symm⟩)
      rw [counted, held]
      rfl
    · have inside : j ∈ starts := by
        by_contra outside
        obtain ⟨request', _, _, called, checks, _⟩ := entrant'.checks
        obtain ⟨r, event⟩ := entrant'.made.event moment'
        exact alone j request' called checks outside _ _ r event
      have good : j ∈ passing := by
        by_contra fails
        rcases reason with ⟨request', session', ended', _⟩ | early
        · obtain ⟨request'', _, _, called, checks, _⟩ := entrant'.checks
          cases ended'.1.symm.trans called
          exact fails
            (List.mem_filter.mpr ⟨inside, decide_eq_true ⟨session', request', checks, ended'⟩⟩)
        · have among' : j ∈ starts.filter fun i => i ∉ passing :=
            List.mem_filter.mpr ⟨inside, decide_eq_true fails⟩
          obtain ⟨session', place', ended'⟩ := entry j among'
          obtain ⟨x', past', moment'', entrant'', _⟩ := run.entered checked ended'
          cases created_by_once moment' moment'' entrant'.made entrant''.made
          have order' := least j (List.mem_toFinset.mpr among')
          rw [place, place'] at order'
          exact not_precedes_of_rank order' early
      refine List.mem_append_right _ (List.mem_map.mpr ⟨j, good, ?_⟩)
      rw [← same]
      exact fileOfStart_eq moment' entrant'.made
  have count := (once.subperm admitted).length_le
  rw [List.length_append, List.length_map, List.length_map, List.length_map] at count
  omega

namespace OnePlaceLeft

/-- A running session of the user. -/
def older : Session where
  sessionId := 1
  notebookId := 2
  projectId := 0
  userId := "ada"
  status := .running
  startedAt := 0
  lastHeartbeat := 0

def deps : StartDeps :=
  { maxConcurrentSessionsPerUser := some 2, toSessionError := fun _ => ⟨"", ""⟩ }

def cap : Cap := ⟨some 2, sessionsPerUserReached, .ofUser "ada" .user, false⟩

/-- As in `overtaken`; every listing shows the older session too. -/
def overlapping : List (Move Runtime) :=
  [⟨0, 0, .id 10⟩, ⟨0, 1, .ok⟩] ++ ⟨1, 1, .id 11⟩ :: List.replicate 5 ⟨1, 2, .ok⟩ ++
  List.replicate 9 ⟨0, 3, .ok⟩ ++ List.replicate 4 ⟨1, 4, .ok⟩

end OnePlaceLeft

/-- One session is there and the cap is two: of two overlapping starts at least one passes. -/
theorem start_takes_last_place : ∃ c, Reaches adapter ⟨seed adapter (filed [OnePlaceLeft.older]),
      fun i => (calls i).run OnePlaceLeft.deps⟩ c ∧
    (∀ i ∈ [0, 1], DecidedBy OnePlaceLeft.deps calls OnePlaceLeft.cap c.trace i) ∧
    occupying OnePlaceLeft.cap.queue [OnePlaceLeft.older] = [OnePlaceLeft.older] ∧
    ∃ passing : List Nat, passing.Sublist [0, 1] ∧
      (∀ i ∈ passing, ∃ session, RecheckedFor OnePlaceLeft.deps calls OnePlaceLeft.cap
        (.ok ()) c.trace i session) ∧ 1 ≤ passing.length := by
  obtain ⟨c, reach, observed⟩ := Config.play_any adapter
    ⟨seed adapter (filed [OnePlaceLeft.older]), fun i => (calls i).run OnePlaceLeft.deps⟩
    OnePlaceLeft.overlapping (fun c => runs 0 10 c && runs 1 11 c) (by decide)
  rw [Bool.and_eq_true] at observed
  have history := reach.history (seeds_seed adapter (filed [OnePlaceLeft.older]))
  have decided : ∀ i ∈ [0, 1], DecidedBy OnePlaceLeft.deps calls OnePlaceLeft.cap c.trace i := by
    intro i member
    rcases List.mem_cons.mp member with rfl | rest
    · obtain ⟨session, _, rechecked, _⟩ := passed_of_runs history rfl (.head _) observed.1
      exact .inl ⟨session, rechecked⟩
    · cases List.mem_singleton.mp rest
      obtain ⟨session, _, rechecked, _⟩ := passed_of_runs history rfl (.head _) observed.2
      exact .inl ⟨session, rechecked⟩
  refine ⟨c, reach, decided, by decide, ?_⟩
  refine enough_starts_pass (by decide) reach rfl [0, 1] decided ?_
  intro i request called _ outside
  match i with
  | 0 => exact absurd (.head _) outside
  | 1 => exact absurd (.tail _ (.head _)) outside
  | n + 2 => cases called

end TwoStarts

end MarimoHub.Guarantees
