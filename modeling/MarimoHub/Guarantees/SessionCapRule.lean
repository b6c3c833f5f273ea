import MarimoHub.Guarantees.SessionLifecycle

/-!
# What the calls around a start do to session records

Only a start creates a record, under the identifier it drew, and only a start that passed its
recheck turns its record to `running`. Every other write matches the record it was made from and
keeps what the caps read of it (`CapStep`). A recheck that decided has listed the queue of each of
its caps and read what it listed (`Rechecked`).
-/

namespace MarimoHub.Guarantees

open ObjectStore Source Prog

/-! ## What one update may do -/

variable {session next : Session} {es past later : Log Runtime} {o : Op Runtime}
  {beyond : Nat → List Session → Bool} {reads : List ReadCap}

section

variable (step : CapStep session next)
include step

theorem CapStep.active (active : isActive next = true) :
    isActive session = true := by
  have follows := step.status
  revert follows active
  cases before : session.status <;> cases after : next.status <;>
    simp [isActive, activeStatuses, before, after, mayFollow]

theorem CapStep.running (running : session.status = .running)
    (active : isActive next = true) : next.status = .running := by
  have follows := step.status
  rw [running] at follows
  revert follows active
  cases after : next.status <;> simp [isActive, activeStatuses, after, mayFollow]

theorem CapStep.mode : sessionMode next = sessionMode session := by
  have same := step.identity
  simp only [capIdentity, Prod.mk.injEq] at same
  rw [sessionMode, sessionMode, same.2.2.2.1]

theorem CapStep.user : next.userId = session.userId := by
  have same := step.identity
  simp only [capIdentity, Prod.mk.injEq] at same
  exact same.2.2.1

theorem CapStep.holds (queue : CapQueue)
    (held : queue.holds next = true) : queue.holds session = true := by
  have occupies (counts : Bool)
      (occupied : (isActive next || (counts && holdsSandbox next)) = true) :
      (isActive session || (counts && holdsSandbox session)) = true := by
    rw [Bool.or_eq_true, Bool.and_eq_true] at occupied ⊢
    rcases occupied with active | ⟨counted, sandbox⟩
    · exact .inl (step.active active)
    · by_cases starting : session.status = .starting
      · exact .inl (by simp [isActive, activeStatuses, starting])
      · exact .inr ⟨counted, step.sandbox starting sandbox⟩
  cases queue with
  | appsOfProject project =>
    simp only [CapQueue.holds, Bool.and_eq_true, step.mode] at held ⊢
    exact ⟨by simpa using occupies true (by simpa using held.1), held.2⟩
  | ofUser user scope =>
    simp only [CapQueue.holds, Bool.and_eq_true, step.mode, step.user] at held ⊢
    exact ⟨⟨held.1.1, occupies _ held.1.2⟩, held.2⟩

end

/-! ## Calls -/

/-- `setRunning` is called by starts only. -/
def startsSession : SessionUpdate → Bool
  | .setRunning _ => true
  | _ => false

inductive CapCall where
  | start (request : StartRequest)
  | update (project : ProjectId) (id : SessionId) (change : SessionUpdate)
      (idle : startsSession change = false)
  | expireStale (paging : Pages Runtime isSessionKey)
  | reapTerminated (paging : Pages Runtime isSessionKey) (retentionMs : Nat)

inductive CapResult where
  | started (session : Session)
  | updated (outcome : ObjectMutationOutcome Session)
  | counted (count : Nat)

def CapCall.run (deps : StartDeps) : CapCall → Hub Runtime CapResult
  | .start request => .started <$> startSession deps request
  | .update project id change _ => .updated <$> change.run project id
  | .expireStale paging => .counted <$> Source.expireStale paging
  | .reapTerminated paging retentionMs => .counted <$> Source.reapTerminated paging retentionMs

/-- The key a record is filed under. -/
def fileOf (session : Session) : RuntimeKey := .session session.projectId session.sessionId

variable (deps : StartDeps) (call : CapCall)

/-- A run of the start up to its recheck. -/
def RecheckEnded (request : StartRequest) (session : Session)
    (verdict : Except HubError Unit) (es : Log Runtime) : Prop :=
  call = .start request ∧ ∃ run, run <:+ es ∧
    Runs (createRechecked deps request) run (.ret (session, verdict))

variable (key : RuntimeKey)

/-- The start whose record this is passed its recheck. -/
def Cleared (es : Log Runtime) : Prop :=
  ∃ request session, RecheckEnded deps call request session (.ok ()) es ∧ key = fileOf session

/-- A start writes one record, that of the identifier it drew. -/
def Files (es : Log Runtime) (session : Session) : Prop :=
  (∀ other v r, ⟨.put other v .any, r⟩ ∉ es) ∧
    ∃ request id now, call = .start request ∧ session = newSession (request.record id) id now ∧
      key = fileOf session ∧ FirstAfterDraw key id es

/-- A change of a record; `mayRun` is what turning it to `running` takes. -/
def CapChange (mayRun : Prop) (old v : RuntimeVal) : Prop :=
  ∃ session next, old = .session session ∧ v = .session next ∧ CapStep session next ∧
    (next.status = .running → session.status = .running ∨ mayRun)

def capWriter : Writer Runtime where
  creates es v c := c = .any ∧ ∃ session, v = .session session ∧ Files call key es session
  changes es := CapChange (Cleared deps call key es)
  removes _ := True

def CapRule (es : Log Runtime) : Op Runtime → Prop
  | .put key v c => (capWriter deps call key).Writes key es v c
  | _ => True

variable {deps : StartDeps} {call : CapCall}

theorem CapRule.allows (rule : CapRule deps call es o) (key : RuntimeKey) :
    (capWriter deps call key).Allows key es o := by
  cases o with
  | put j v c =>
    rintro rfl
    exact rule
  | delete j => exact fun _ => trivial
  | _ => trivial

section Alone

variable {deps : StartDeps} {call : CapCall} {G : Rule Runtime}
  {id : SessionId} {now : Nat} {keys : List RuntimeKey} {paging : CapPaging}
  {excluded : Option SessionId} {request : StartRequest}

theorem capRule_of_reading (reading : Reading o) : CapRule deps call es o := by
  cases o with
  | put => exact reading.elim
  | _ => trivial

theorem capRule_of_local (quiet : LocalOp o) : CapRule deps call es o := by
  cases o <;> trivial

theorem IdleStep.change (step : IdleStep session next) :
    CapChange mayRun (.session session) (.session next) :=
  ⟨session, next, rfl, rfl, step.toCapStep, fun running => .inl (step.idle running)⟩

theorem keeps_idleUpdate
    (idle : startsSession change = false) : Keeps (CapRule deps call) (change.run project id) := by
  intro past
  refine emits_change (fun _ _ => capRule_of_local) ?_ ?_
  · rintro args rfl
    cases idle
  · intro apply decides es
    refine (emits_mutateRecord parseSession_only (fun _ => trivial) (fun _ _ => capRule_of_local)
      (fun session _ _ => decides session _) ?_).forget
    intro es tag session next read step
    exact ⟨.session session, .inl read, step.idle.change⟩

theorem emits_setRunning (cleared : ∀ es, past <:+ es → Cleared deps call (fileOf session) es) :
    Emits (CapRule deps call) (fun _ _ => True)
      ((SessionUpdate.setRunning args).run session.projectId session.sessionId) past := by
  have alone : Emits (fun es o => Cleared deps call (fileOf session) es → CapRule deps call es o)
      (fun _ _ => True) ((SessionUpdate.setRunning args).run session.projectId session.sessionId)
      past := by
    refine (emits_mutateRecord parseSession_only (fun _ _ => trivial)
      (fun _ _ quiet _ => capRule_of_local quiet)
      (fun session _ _ => decides_running session _) ?_).forget
    intro es tag current next read step passed
    exact ⟨.session current, .inl read, current, next, rfl, rfl, step.2, fun _ => .inr passed⟩
  exact alone.weaken fun es o grown allowed => allowed (cleared es grown)

theorem keeps_expired : Keeps (CapRule deps call) (expireAll now keys) := by
  refine keeps_expireAll (fun _ _ => capRule_of_reading) ?_
  intro key _ es session tag target read edge
  exact ⟨.session session, .inl read, (UpdateStep.of_expired edge).idle.change⟩

theorem keeps_listing {paging : Pages Runtime p} :
    Keeps (CapRule deps call) (listAllKeys paging) := fun past =>
  (emits_shownPages paging.pages past fun _ _ => trivial).forget

theorem keeps_reapCandidates : Keeps (CapRule deps call) (reapCandidates now retentionMs keys) := by
  induction keys with
  | nil => exact keeps_ret
  | cons key rest ih =>
    have one : Keeps (CapRule deps call) (isReapCandidate now retentionMs key) := by
      intro past
      rw [isReapCandidate, emits_bind]
      exact emits_scanRecord trivial (fun _ _ => trivial) (fun _ _ _ => trivial)
        (fun _ _ => trivial)
    exact one.bind fun _ => ih.map

/-! ## Reading a queue -/

/-- The session of an answer, if it is one. -/
def foundSession : GetRes Runtime → Option Session
  | .found (.session session) _ => some session
  | _ => none

/-- The keys were read, and `seen` are the sessions found. -/
def Gathered : List RuntimeKey → List Session → Log Runtime → Prop
  | [], seen, _ => seen = []
  | key :: rest, seen, es => ∃ r others, ⟨.get key, r⟩ ∈ es ∧ r ≠ .fail ∧
      seen = (foundSession r).toList ++ others ∧ Gathered rest others es

theorem Gathered.grow (gathered : Gathered keys seen es) (inside : es ⊆
      later) : Gathered keys seen later := by
  induction keys generalizing seen with
  | nil => exact gathered
  | cons key rest ih =>
    obtain ⟨r, others, read, answered, split, below⟩ := gathered
    exact ⟨r, others, inside read, answered, split, ih below⟩

/-- The pages were listed, and then what they showed was read. -/
def QueueRead (pages : List (RuntimeKey → Bool)) (seen : List Session) (es : Log Runtime) :
    Prop :=
  ∃ keys listed reads, reads ++ listed = es ∧ PagesShown pages keys listed ∧
    Gathered keys seen reads

theorem emits_scanSessions (reads : ∀ es o, Reading o → G es o) :
    Emits G (fun out es => ∃ new, es = new ++ past ∧ match out with
      | .ok seen => Gathered keys seen new
      | .error err => err = .storage) (scanSessions keys) past := by
  induction keys generalizing past with
  | nil => exact ⟨[], rfl, rfl⟩
  | cons key rest ih =>
    have go (r : GetRes Runtime) (here : Option (Session × Etag Runtime)) (answered : r ≠ .fail)
        (same : here.map Prod.fst = foundSession r) : Emits G (fun out es =>
          ∃ new, es = new ++ past ∧ match out with
          | .ok seen => Gathered (key :: rest) seen new
          | .error err => err = .storage)
        (scanSessions rest >>= fun others => pure ((here.map Prod.fst).toList ++ others))
        (⟨.get key, r⟩ :: past) := by
      rw [emits_bind]
      refine ih.mono ?_
      rintro out es ⟨new, rfl, gathered⟩
      refine (?_ : andThen G _ _ out _)
      cases out with
      | error err => exact ⟨new ++ [⟨.get key, r⟩], by simp, gathered⟩
      | ok others =>
        refine ⟨new ++ [⟨.get key, r⟩], by simp, r, others, by simp, answered, by rw [same], ?_⟩
        exact gathered.grow (List.subset_append_left _ _)
    rw [scanSessions, emits_bind, scanRecord, emits_bind, emits_bucketGet]
    refine ⟨reads _ _ trivial, ?_, go .absent none (by simp) rfl, [_], rfl, rfl⟩
    intro v tag
    cases v with
    | session session => exact go _ (some (session, tag)) (by simp) rfl
    | _ => exact go _ none (by simp) rfl

theorem emits_queue_list (reads : ∀ es o, Reading o → G es o) {queue : CapQueue} :
    Emits G (fun out es => ∃ new, es = new ++ past ∧ match out with
      | .ok sessions => ∃ seen, sessions = queue.sorted seen ∧
          QueueRead (paging queue).pages seen new
      | .error err => err = .storage) (queue.list paging) past := by
  rw [CapQueue.list, emits_bind]
  refine (emits_shownPages _ past fun _ _ => reads _ _ trivial).mono ?_
  rintro out es ⟨listed, rfl, shown⟩
  refine (?_ : andThen G _ _ out _)
  cases out with
  | error err => exact ⟨listed, rfl, shown⟩
  | ok keys =>
    rw [andThen_ok, emits_bind]
    refine (emits_scanSessions reads).mono ?_
    rintro out es ⟨scanned, rfl, gathered⟩
    refine (?_ : andThen G _ _ out _)
    cases out with
    | error err => exact ⟨scanned ++ listed, by simp, gathered⟩
    | ok seen =>
      exact ⟨scanned ++ listed, by simp, seen, rfl, keys, listed, scanned, rfl, shown, gathered⟩

/-- What was read for a cap. -/
structure CapRead (excluded : Option SessionId) (paging : CapPaging) (es : Log Runtime)
    (read : ReadCap) : Prop where
  limit : read.cap.limit = some read.limit
  failed : ∀ err, read.sessions = .error err → err = .storage
  shown : ∀ sessions, read.sessions = .ok sessions → ∃ seen new, new <:+: es ∧
    QueueRead (paging read.cap.queue).pages seen new ∧
    sessions = (read.cap.queue.sorted seen).filter fun session => some session.sessionId ≠ excluded

theorem CapRead.grow {read : ReadCap} (was : CapRead excluded paging es read)
    (inside : es <:+: later) : CapRead excluded paging later read := by
  refine ⟨was.limit, was.failed, fun sessions done => ?_⟩
  obtain ⟨seen, new, part, shown⟩ := was.shown sessions done
  exact ⟨seen, new, part.trans inside, shown⟩

/-- Every cap that is checked was read. -/
structure CapsRead (excluded : Option SessionId) (paging : CapPaging) (caps : List Cap)
    (es : Log Runtime) (reads : List ReadCap) : Prop where
  every : ∀ cap ∈ caps, cap.limit.isSome = true → ∃ read ∈ reads, read.cap = cap
  each : ∀ read ∈ reads, read.cap ∈ caps ∧ CapRead excluded paging es read

theorem emits_readCapQueues (readsOnly : ∀ es o, Reading o → G es o) {caps : List Cap} :
    Emits G (fun out es => ∃ new reads, es = new ++ past ∧ out = .ok reads ∧
      CapsRead excluded paging caps new reads) (readCapQueues excluded paging caps) past := by
  induction caps generalizing past with
  | nil => exact ⟨[], [], rfl, rfl, by simp, by simp⟩
  | cons cap rest ih =>
    rw [readCapQueues]
    split
    · next unchecked =>
      refine ih.mono ?_
      rintro out es ⟨new, reads, rfl, rfl, every, each⟩
      refine ⟨new, reads, rfl, rfl, ?_, fun read member => ?_⟩
      · intro cap' member checked
        rcases List.mem_cons.mp member with rfl | inside
        · rw [unchecked] at checked
          cases checked
        · exact every cap' inside checked
      · exact ⟨.tail _ (each read member).1, (each read member).2⟩
    · next limit checked =>
      rw [emits_bind, emits_settled]
      refine (emits_queue_list readsOnly).mono ?_
      rintro out es ⟨here, rfl, listed⟩
      rw [andThen_ok, emits_bind]
      refine ih.mono ?_
      rintro _ es ⟨later, reads, rfl, rfl, every, each⟩
      refine ⟨later ++ here, _, by simp, rfl, ?_, ?_⟩
      · intro cap' member checked'
        rcases List.mem_cons.mp member with rfl | inside
        · exact ⟨_, .head _, rfl⟩
        · obtain ⟨read, among, same⟩ := every cap' inside checked'
          exact ⟨read, .tail _ among, same⟩
      · intro read member
        rcases List.mem_cons.mp member with rfl | inside
        · refine ⟨.head _, checked, ?_, ?_⟩
          · intro err failed
            cases out with
            | ok sessions => cases failed
            | error error =>
              cases failed
              exact listed
          · intro sessions done
            cases out with
            | error error => cases done
            | ok all =>
              cases done
              obtain ⟨seen, rfl, shown⟩ := listed
              exact ⟨seen, here, ⟨later, [], by simp⟩, shown, rfl⟩
        · exact ⟨.tail _ (each read inside).1, (each read inside).2.grow ⟨[], here, by simp⟩⟩

/-! ## The recheck -/

theorem capVerdict_ok (passed : capVerdict beyond reads = .ok ()) :
    ∀ read ∈ reads, ∃ sessions, read.sessions = .ok sessions ∧
    beyond read.limit sessions = false := by
  induction reads with
  | nil => simp
  | cons first rest ih =>
    rw [capVerdict] at passed
    split at passed
    · cases passed
    · next sessions done =>
      split at passed
      · cases passed
      · next below =>
        intro read member
        rcases List.mem_cons.mp member with rfl | inside
        · exact ⟨sessions, done, Bool.eq_false_iff.mpr below⟩
        · exact ih passed read inside

theorem capVerdict_error (failed : capVerdict beyond reads = .error err) :
    ∃ read ∈ reads, read.sessions = .error err ∨
      ∃ sessions, read.sessions = .ok sessions ∧ beyond read.limit sessions = true ∧
        err = read.cap.reached := by
  induction reads with
  | nil => cases failed
  | cons first rest ih =>
    rw [capVerdict] at failed
    split at failed
    · next error broken =>
      cases failed
      exact ⟨first, .head _, .inl broken⟩
    · next sessions done =>
      split at failed
      · next above =>
        cases failed
        exact ⟨first, .head _, .inr ⟨sessions, done, above, rfl⟩⟩
      · obtain ⟨read, member, outcome⟩ := ih failed
        exact ⟨read, .tail _ member, outcome⟩

/-- The recheck of a cap read the queue and found the session's rank over the limit or not. -/
def Ranked (request : StartRequest) (id : SessionId) (cap : Cap) (limit : Nat) (beyond : Bool)
    (es : Log Runtime) : Prop :=
  ∃ seen new, new <:+: es ∧ QueueRead (request.recheckPaging cap.queue).pages seen new ∧
    ranksOver id limit ((cap.queue.sorted seen).filter fun session =>
      some session.sessionId ≠ request.temporaryToRetire) = beyond

/-- What a verdict says about the queues that were read. -/
def Justified (deps : StartDeps) (request : StartRequest) (id : SessionId) (es : Log Runtime) :
    Except HubError Unit → Prop
  | .ok _ => ∀ cap ∈ request.caps deps, ∀ limit, cap.limit = some limit →
      Ranked request id cap limit false es
  | .error err => err = .storage ∨ ∃ cap ∈ request.caps deps, ∃ limit, cap.limit = some limit ∧
      err = cap.reached ∧ Ranked request id cap limit true es

theorem emits_recheck (readsOnly : ∀ es o, Reading o → G es o) :
    Emits G (fun out es => ∃ new, es = new ++ past ∧ Justified deps request id new out)
      (assertCapAfterCreate deps request.mode request.input.projectId request.input.userId id
        request.temporaryToRetire request.recheckPaging) past := by
  rw [assertCapAfterCreate, checkCapQueues, emits_bind]
  refine (emits_readCapQueues readsOnly).mono ?_
  rintro _ es ⟨new, reads, rfl, rfl, every, each⟩
  rw [andThen_ok]
  cases verdict : capVerdict (ranksOver id) reads with
  | ok _ =>
    refine ⟨new, rfl, fun cap member limit checked => ?_⟩
    obtain ⟨read, among, rfl⟩ := every cap member (by rw [checked]; rfl)
    obtain ⟨sessions, done, below⟩ := capVerdict_ok verdict read among
    obtain ⟨seen, part, inside, shown, rfl⟩ := (each read among).2.shown sessions done
    have same := (each read among).2.limit
    rw [checked] at same
    cases same
    exact ⟨seen, part, inside, shown, below⟩
  | error err =>
    refine ⟨new, rfl, ?_⟩
    obtain ⟨read, among, broken | ⟨sessions, done, above, rfl⟩⟩ := capVerdict_error verdict
    · exact .inl ((each read among).2.failed err broken)
    · obtain ⟨seen, part, inside, shown, rfl⟩ := (each read among).2.shown sessions done
      exact .inr ⟨read.cap, (each read among).1, read.limit, (each read among).2.limit, rfl, seen,
        part, inside, shown, above⟩

/-! ## The start -/

theorem emits_fileSession (unwritten : ∀ other v r, ⟨.put other v .any, r⟩ ∉ past)
    (drawn : FirstAfterDraw (B := Runtime) (.session request.input.projectId id) id past) :
    Emits (CapRule deps (.start request)) (yields fun session es =>
      ∃ now tag rest, session = newSession (request.record id) id now ∧
        ⟨.mint, id⟩ ∈ rest ∧
        (⟨.put (fileOf session) (.session session) .any, .ok tag⟩ :: rest) <:+ es)
      (createSession (request.record id)) past := by
  refine (?_ : Emits _ _ (dateNow >>= fun now => _) past)
  rw [emits_bind, emits_dateNow]
  refine ⟨trivial, fun now => ?_⟩
  have minted : ⟨.mint, id⟩ ∈ (⟨.now, now⟩ : Ev Runtime) :: past := by
    obtain ⟨later, earlier, rfl, _⟩ := drawn
    simp
  rw [andThen_ok]
  rw [emits_bind, emits_bucketPut]
  refine ⟨⟨rfl, _, rfl, by simpa using unwritten, request, id, now, rfl, rfl, rfl, ?_⟩, ?_, trivial,
    trivial⟩
  · obtain ⟨later, earlier, rfl, clear⟩ := drawn
    refine ⟨⟨.now, now⟩ :: later, earlier, rfl, fun ev member => ?_⟩
    rcases List.mem_cons.mp member with rfl | inside
    · rintro ⟨_, _, _, ⟨⟩⟩
    · exact clear ev inside
  · intro tag
    split
    · exact ⟨now, tag, _, rfl, minted, List.suffix_rfl⟩
    · next version pinned =>
      refine emits_seq (emits_checkSourceVersion (fun _ _ => capRule_of_reading) ?_) ?_
      · intro es error grown
        exact ⟨_, .inr ⟨.any, grown.subset (.head _)⟩,
          (UpdateStep.of_rejected error rfl).idle.change⟩
      intro _ es grown _
      exact ⟨now, tag, _, rfl, minted, grown⟩

/-- The record was put, and then the caps were rechecked. -/
def Rechecked (deps : StartDeps) (request : StartRequest) (session : Session)
    (verdict : Except HubError Unit) (es : Log Runtime) : Prop :=
  ∃ id now tag rest before recheck, session = newSession (request.record id) id now ∧
    ⟨.mint, id⟩ ∈ rest ∧
    (⟨.put (fileOf session) (.session session) .any, .ok tag⟩ :: rest) <:+ before ∧
    es = recheck ++ before ∧ Justified deps request id recheck verdict

theorem emits_createRechecked : Emits (CapRule deps (.start request)) (yields fun rechecked es =>
      Rechecked deps request rechecked.1 rechecked.2 es) (createRechecked deps request) [] := by
  refine emits_createId_then trivial fun id => ?_
  have preflight : Emits (fun _ => Reading) (fun _ _ => True)
      (enforceSessionCap deps request.mode request.input.projectId request.input.userId
        request.temporaryToRetire request.preflightPaging) [⟨.mint, id⟩] := by
    rw [enforceSessionCap, checkCapQueues, emits_bind]
    refine (emits_readCapQueues (fun _ _ reading => reading)).mono ?_
    rintro _ es ⟨new, reads, rfl, rfl, _⟩
    rw [andThen_ok]
    split <;> trivial
  refine emits_seq (preflight.adds.weaken fun es o _ => capRule_of_reading) ?_
  rintro _ es _ ⟨_, new, rfl, reading⟩
  refine emits_then (emits_fileSession ?_ ⟨new, [], rfl, ?_⟩) ?_
  · intro other v r member
    rcases List.mem_append.mp member with inside | last
    · exact reading _ inside
    · cases List.mem_singleton.mp last
  · rintro ev member ⟨v, c, r, rfl⟩
    exact reading _ member
  · rintro session es _ ⟨now, tag, rest, filed, minted, put⟩
    rw [emits_bind, emits_settled]
    refine (emits_recheck (fun _ _ => capRule_of_reading)).mono ?_
    rintro verdict es ⟨recheck, rfl, justified⟩
    exact ⟨id, now, tag, rest, _, recheck, filed, minted, put, rfl, justified⟩

theorem emits_abandonStart {failure : StartFailure} (failed : ∀ err es, Q (.error err) es) :
    Emits (CapRule deps call) Q (abandonStart deps session failure) past := by
  cases failure <;>
    refine emits_seq (keeps_ignoringErrors (Keeps.map (keeps_idleUpdate ?_)) past)
      (fun _ _ _ _ => failed _ _) (fun _ _ _ _ => failed _ _) <;>
    rfl

theorem emits_markRunning (cleared : ∀ es, past <:+ es → Cleared deps call (fileOf session) es) :
    Emits (CapRule deps call) (fun _ _ => True) (markRunning session args) past := by
  refine emits_dateNow_then trivial fun now => ?_
  split
  · trivial
  · refine emits_seq (emits_setRunning fun es grown => ?_) (fun _ _ _ _ => trivial)
    exact cleared es grown.past

/-- A start only goes on to run after a recheck it passed; a start that returned passed it. -/
theorem emits_startSession : Emits (CapRule deps (.start request)) (yields fun _ es =>
      ∃ session, RecheckEnded deps (.start request) request session (.ok ()) es)
      (startSession deps request) [] := by
  rw [startSession, emits_bind]
  refine emits_createRechecked.traced.mono ?_
  rintro out es ⟨_, run, same, runs⟩
  cases out with
  | error err => trivial
  | ok rechecked =>
    obtain ⟨session, verdict⟩ := rechecked
    rw [andThen_ok]
    cases verdict with
    | error err =>
      rw [finishStart]
      exact emits_abandonStart fun _ _ => trivial
    | ok _ =>
      have ended (later : Log Runtime) (grown : es <:+ later) :
          RecheckEnded deps (.start request) request session (.ok ()) later := by
        refine ⟨rfl, run, ?_, runs⟩
        rw [List.append_nil] at same
        exact same ▸ grown
      rw [finishStart]
      split
      · exact emits_abandonStart fun _ _ => trivial
      · next args provided =>
        rw [emits_bind, emits_settled]
        refine (emits_markRunning fun later grown =>
          ⟨request, session, ended later grown, rfl⟩).grown.mono ?_
        rintro out later ⟨_, grown⟩
        cases out with
        | error err => exact emits_abandonStart fun _ _ => trivial
        | ok updated =>
          split
          · exact emits_abandonStart fun _ _ => trivial
          · exact ⟨session, ended later grown⟩

end Alone

/-- What a call may do, and what a start that returned has passed. -/
def CapOutcome (deps : StartDeps) (call : CapCall) : Post Runtime HubError CapResult
  | .ok (.started _), es => ∃ request session, RecheckEnded deps call request session (.ok ()) es
  | _, _ => True

theorem capCall_emits : Emits (CapRule deps call) (CapOutcome deps call) (call.run deps) [] := by
  cases call with
  | start request =>
    refine emits_seq emits_startSession ?_
    rintro _ es _ ⟨session, ended⟩
    exact ⟨request, session, ended⟩
  | update project id change idle =>
    exact emits_seq (keeps_idleUpdate idle []) (fun _ _ _ _ => trivial)
  | expireStale paging =>
    refine emits_seq (Q := fun _ _ => True) ?_ (fun _ _ _ _ => trivial)
    refine ⟨trivial, fun now => ?_⟩
    exact keeps_listing.bind (fun keys => keeps_expired) _
  | reapTerminated paging retentionMs =>
    refine emits_seq (Q := fun _ _ => True) ?_ (fun _ _ _ _ => trivial)
    refine ⟨trivial, fun now => ?_⟩
    exact keeps_listing.bind (fun keys => keeps_reapCandidates.bind
      fun _ => (keeps_bucketDeleteAll fun _ _ _ => trivial).map) _

end MarimoHub.Guarantees
