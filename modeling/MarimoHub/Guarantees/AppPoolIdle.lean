import MarimoHub.Guarantees.AppPoolRuns

/-!
# When a reconcile pass retires an idle member

A reconcile pass decides outside the store which members to retire and decides again inside the
write that retires them. `idle_since` is back-dated to the last presence the record still knows,
so the question is what the record forgets. An edit at a reading of the clock forgets no presence
before that reading, unless the admission is taken back (`Accounts.edit`); a call that read the
pool long before it writes is the only other way to lose one (`idle_retirement_after_presence`,
`stalled_leave_hides_presence`).
-/

namespace MarimoHub.Guarantees.AppPools

open ObjectStore Source.AppPools Prog
open Source hiding AppPool AppPoolMember

/-! ## What the record remembers -/

/-- The assignment of that generation, or every assignment of the session that is left, is present
up to `reached`. -/
def ReachesTo (session : AppSessionId) (generation reached : Nat)
    (assignments : List AppPoolAssignment) : Prop :=
  (∃ assignment ∈ assignments, assignment.sessionId = session ∧
    assignment.generation = generation ∧ reached ≤ appPresenceExpiresAt assignment) ∨
  ∀ assignment ∈ assignments, assignment.sessionId = session →
    reached ≤ appPresenceExpiresAt assignment

/-- The record accounts for a presence of the session up to `reached`, also if it is over. -/
structure Accounts (session : AppSessionId) (generation reached : Nat) (pool : AppPool) : Prop where
  idle : ∀ member ∈ pool.members, member.sessionId = session →
    ∀ since, member.idleSince = some since → reached ≤ since
  present : ReachesTo session generation reached pool.assignments

variable {assignments before after : List AppPoolAssignment} {generation reached n since : Nat}
  {pool : AppPool}

theorem ReachesTo.filter (reaches : ReachesTo session generation reached assignments)
    (kept : (∀ assignment ∈ assignments, assignment.sessionId = session → assignment.generation =
      generation → keep assignment = true) ∨ ∀ assignment ∈ assignments, assignment.sessionId =
      session → keep assignment = false) :
    ReachesTo session generation reached (assignments.filter keep) := by
  rcases reaches with ⟨assignment, listed, mine, own, bound⟩ | all
  · rcases kept with stays | gone
    · exact .inl ⟨assignment, List.mem_filter.mpr ⟨listed, stays assignment listed mine own⟩, mine,
        own, bound⟩
    · refine .inr fun other inside same => ?_
      obtain ⟨old, keeps⟩ := List.mem_filter.mp inside
      rw [gone other old same] at keeps
      cases keeps
  · exact .inr fun other inside => all other (List.mem_filter.mp inside).1

theorem presence_of_kept
    (kept : assignment ∈ keptAssignments n pool) : n < appPresenceExpiresAt assignment := by
  obtain ⟨_, _, _, _, _, present, _⟩ := kept_from kept
  rw [isPresent, decide_eq_true_eq] at present
  rcases present with some | grace
  · obtain ⟨visit, member⟩ := List.exists_mem_of_ne_nil _ some
    exact Nat.lt_of_lt_of_le (live_of_kept kept member) (expiresAt_le_presence assignment member)
  · exact Nat.lt_of_lt_of_le grace (grace_le_presence assignment)

theorem le_lastPresence (listed : assignment ∈ assignments) :
    ∃ last, lastPresence assignments assignment.sessionId = some last ∧
      appPresenceExpiresAt assignment ≤ last := by
  have mine : assignment ∈ assignments.filter
      fun item => item.sessionId = assignment.sessionId :=
    List.mem_filter.mpr ⟨listed, decide_eq_true rfl⟩
  rw [lastPresence]
  split
  · next empty =>
    rw [empty] at mine
    cases mine
  · exact ⟨_, rfl, (foldl_max_le_iff.mp (Nat.le_refl _)).2 _ (List.mem_map_of_mem mine)⟩

theorem lastPresence_none (absent : ∀ assignment ∈ assignments, assignment.sessionId ≠ session) :
    lastPresence assignments session = none := by
  have empty : assignments.filter (fun item => item.sessionId = session) = [] := by
    rw [List.filter_eq_nil_iff]
    intro item member
    simpa using absent item member
  rw [lastPresence, empty]

/-- A member is idle since the time it was before, or since the last presence, or since now. -/
theorem since_of_settleIdle (idle : (settleIdle n before after member).idleSince = some since) :
    member.idleSince = some since ∨ member.idleSince = none ∧
      since = (lastPresence before member.sessionId).getD n := by
  rw [settleIdle] at idle
  split at idle
  · cases idle
  · cases former : member.idleSince with
    | none =>
      simp only [former] at idle
      exact .inr ⟨rfl, (Option.some.inj idle).symm⟩
    | some time =>
      simp only [former] at idle
      exact .inl idle

/-- Presence recorded when a member turns idle is over by then. -/
theorem presence_le_since (sound : Sound pool) (inside : member ∈ pool.members)
    (idle : (settleIdle n (pool.assignments.flatMap splitAssignment) (keptAssignments n pool)
      member).idleSince = some since)
    (listed : assignment ∈ pool.assignments) (same : assignment.sessionId = member.sessionId) :
    appPresenceExpiresAt assignment ≤ since := by
  rw [split_of_sound sound] at idle
  rcases since_of_settleIdle idle with former | ⟨_, rfl⟩
  · refine absurd same (sound.idle member inside ?_ assignment listed)
    rw [former]
    rfl
  · obtain ⟨last, found, bound⟩ := le_lastPresence listed
    rw [← same, found]
    exact bound

section Edits

theorem Accounts.expire (accounts : Accounts session generation reached pool) (sound : Sound pool)
    (later : reached ≤ n) : Accounts session generation reached (expireAppPresence n pool) := by
  refine ⟨?_, .inr fun assignment kept _ =>
    Nat.le_of_lt (Nat.lt_of_le_of_lt later (presence_of_kept kept))⟩
  intro settled inside same since idle
  obtain ⟨member, listed, rfl⟩ := List.mem_map.mp inside
  rw [sessionId_settleIdle] at same
  by_cases any : ∃ assignment ∈ pool.assignments, assignment.sessionId = session
  · obtain ⟨assignment, present, mine, reaches⟩ : ∃ assignment ∈ pool.assignments,
        assignment.sessionId = session ∧ reached ≤ appPresenceExpiresAt assignment := by
      rcases accounts.present with ⟨assignment, present, mine, _, reaches⟩ | all
      · exact ⟨assignment, present, mine, reaches⟩
      · obtain ⟨assignment, present, mine⟩ := any
        exact ⟨assignment, present, mine, all assignment present mine⟩
    exact Nat.le_trans reaches (presence_le_since sound listed idle present (mine.trans same.symm))
  · rw [split_of_sound sound] at idle
    rcases since_of_settleIdle idle with former | ⟨_, rfl⟩
    · exact accounts.idle member listed same since former
    · rw [lastPresence_none]
      · exact later
      · intro assignment present mine
        exact any ⟨assignment, present, mine.trans same⟩

/-- An edit forgets no presence before its reading, unless it takes the admission back. -/
theorem Accounts.edit (accounts : Accounts session generation reached pool) (sound : Sound pool)
    (later : reached ≤ n) (stays : ¬ taken generation)
    (edit : PoolEdit policy added taken n pool next) :
    Accounts session generation reached next := by
  cases edit with
  | expire => exact accounts.expire sound later
  | relabel deletedAt latest => exact ⟨accounts.idle, accounts.present⟩
  | alter members altered =>
    refine ⟨?_, accounts.present⟩
    intro member' inside' same since idle
    obtain ⟨member, inside, changed⟩ := altered.mem_right inside'
    rw [changed.session] at same
    rcases changed.idle with kept | none
    · exact accounts.idle member inside same since (kept ▸ idle)
    · rw [none] at idle
      cases idle
  | join member _ _ awake _ =>
    refine ⟨?_, accounts.present⟩
    intro other inside same since idle
    rcases List.mem_append.mp inside with old | new
    · exact accounts.idle other old same since idle
    · rw [List.mem_singleton.mp new, awake] at idle
      cases idle
  | assign member assignment _ _ _ _ reaches _ =>
    refine ⟨accounts.idle, ?_⟩
    rcases accounts.present with ⟨found, listed, rest⟩ | all
    · exact .inl ⟨found, List.mem_append_left _ listed, rest⟩
    · refine .inr fun other inside same => ?_
      rcases List.mem_append.mp inside with old | new
      · exact all other old same
      · rw [List.mem_singleton.mp new]
        exact Nat.le_trans later reaches
  | touch assignments touched =>
    refine ⟨accounts.idle, ?_⟩
    rcases accounts.present with ⟨found, listed, mine, own, reaches⟩ | all
    · obtain ⟨found', listed', changed⟩ := touched.mem_left listed
      exact .inl ⟨found', listed', changed.session.trans mine, changed.generation.trans own,
        Nat.le_trans (Nat.le_min.mpr ⟨reaches, later⟩) changed.presence⟩
    · refine .inr fun other' inside' same => ?_
      obtain ⟨other, inside, changed⟩ := touched.mem_right inside'
      have reaches := all other inside (changed.session ▸ same)
      exact Nat.le_trans (Nat.le_min.mpr ⟨reaches, later⟩) changed.presence
  | remove members gone fewer _ =>
    refine ⟨fun member inside => accounts.idle member (fewer.subset inside), ?_⟩
    refine accounts.present.filter ?_
    by_cases same : session = gone
    · exact .inr fun assignment _ mine => decide_eq_false (not_not.mpr (mine.trans same))
    · exact .inl fun assignment _ mine _ => decide_eq_true (mine ▸ same)
  | vacate gone =>
    refine ⟨accounts.idle, accounts.present.filter ?_⟩
    cases dropped : gone session with
    | true => exact .inr fun assignment _ mine => by rw [mine, dropped]; rfl
    | false => exact .inl fun assignment _ mine _ => by rw [mine, dropped]; rfl
  | withdraw drop given =>
    refine ⟨accounts.idle, accounts.present.filter (.inl ?_)⟩
    intro assignment listed _ own
    cases dropped : drop assignment with
    | true => exact absurd (own ▸ given assignment listed dropped) stays
    | false => rfl

end Edits

/-! ## Runs -/

def isPoolRead : Op AppStore → Bool
  | .get .pool => true
  | _ => false

/-- When the client read the pool last. -/
def readTime (i : Nat) : Trace AppStore → Nat
  | [] => 0
  | e :: past => if e.thread = some i ∧ isPoolRead e.op then e.time else readTime i past

/-- `u` is a state of the run at that time. -/
structure StandsAt (t u : Trace AppStore) (time : Nat) : Prop where
  reached : u <:+ t
  since : lastTime u ≤ time
  till : ∀ e, (e :: u) <:+ t → time ≤ e.time

/-- Whoever writes the pool after `u` read it at that time or later. -/
def Settled (t u : Trace AppStore) (time : Nat) : Prop :=
  ∀ w p i, (w :: p) <:+ t → u <:+ p → w.thread = some i → w.effect .pool ≠ none →
    time ≤ readTime i p

/-- The call that made the admission of the generation took it back. -/
def TakenBack (t : Trace AppStore) (generation : Nat) : Prop :=
  ∃ w p i, (w :: p) <:+ t ∧ w.thread = some i ∧ w.effect .pool ≠ none ∧
    TakesBack (own i p) generation

variable {q : Trace AppStore}

section Runs

theorem readTime_of_quiet (read : g :: q <:+ past) (mine : g.thread = some i)
    (reads : g.op = .get .pool)
    (between : own i past = new ++ own i (g :: q)) (quiet : ∀ ev ∈ new, Quiet ev.op) :
    readTime i past = g.time := by
  induction past generalizing new with
  | nil => exact absurd (List.suffix_nil.mp read) (List.cons_ne_nil g q)
  | cons e past ih =>
    rcases List.suffix_cons_iff.mp read with same | inside
    · cases same
      rw [readTime, if_pos ⟨mine, by rw [reads]; rfl⟩]
    · by_cases own_ : e.thread = some i
      · rw [own_cons own_] at between
        cases new with
        | nil =>
          have longer := (own_suffix (i := i) inside).length_le
          have same := congrArg List.length between
          rw [List.nil_append, List.length_cons] at same
          omega
        | cons first rest =>
          obtain ⟨rfl, after⟩ := List.cons.inj between
          have calm := quiet _ (.head _)
          rw [readTime, if_neg]
          · exact ih inside after fun ev member => quiet ev (.tail _ member)
          · rintro ⟨_, isRead⟩
            revert calm isRead
            cases e.op <;> simp [Quiet, isPoolRead]
      · rw [own_cons_other own_] at between
        rw [readTime, if_neg fun both => own_ both.1]
        exact ih inside between quiet

theorem Wrote.readTime (wrote : Wrote policy x past i next g q) : readTime i past = g.time := by
  obtain ⟨new, between, quiet⟩ := wrote.between
  exact readTime_of_quiet wrote.read wrote.reader wrote.reads between quiet

/-- A write by a call that read the pool late enough forgets nothing. -/
theorem PoolRun.accounts_write (run : PoolRun a policy (x :: past))
    (wrote : Wrote policy x past i next g q) (late : reached ≤ g.time)
    (stays : ¬ TakesBack (own i past) generation)
    (accounts : Accounts session generation reached (poolAt past)) :
    Accounts session generation reached next := by
  obtain ⟨clock, revised⟩ := run.revised wrote
  have sound := (run.suffix (List.suffix_cons x past)).sound.2
  rw [wrote.unchanged] at accounts sound
  have remains : ¬ TakesBack (own i (g :: q)) generation :=
    fun takes => stays (takesBack_grow takes (own_suffix wrote.read))
  have kept := revised.at_write
    (P := fun n pool => Sound pool ∧ reached ≤ n ∧ Accounts session generation reached pool)
    run.accepted wrote.read wrote.reader
    (fun n m pool later kept => ⟨kept.1, Nat.le_trans kept.2.1 later, kept.2.2⟩)
    (fun n y z _ kept edit =>
      ⟨kept.1.edit edit, kept.2.1, kept.2.2.edit kept.1 kept.2.1 remains edit⟩)
    ⟨sound, late, accounts⟩
  exact kept.2.2

theorem PoolRun.accounts (run : PoolRun a policy t) (above : u <:+ t)
    (settled : Settled t u reached) (stays : ¬ TakenBack t generation)
    (start : Accounts session generation reached (poolAt u)) :
    Accounts session generation reached (poolAt t) := by
  refine lasts (P := fun v => Accounts session generation reached (poolAt v)) above start ?_
  intro x past moment inside held
  cases effect : x.effect .pool with
  | none =>
    rw [poolAt_of_no_effect effect]
    exact held
  | some new =>
    obtain ⟨i, next, g, q, rfl, wrote⟩ := (run.suffix moment).wrote effect
    have changes : x.effect .pool ≠ none := effect ▸ Option.some_ne_none _
    rw [poolAt_of_effect effect]
    refine (run.suffix moment).accounts_write wrote ?_ ?_ held
    · rw [← wrote.readTime]
      exact settled x past i moment inside wrote.mine changes
    · exact fun takes => stays ⟨x, past, i, moment, wrote.mine, changes, takes⟩

/-- A presence that is recorded is accounted for. -/
theorem Sound.accounts (sound : Sound pool)
    (listed : assignment ∈ pool.assignments) (reaches : reached ≤ appPresenceExpiresAt assignment) :
    Accounts assignment.sessionId assignment.generation reached pool := by
  refine ⟨?_, .inl ⟨assignment, listed, rfl, rfl, reaches⟩⟩
  intro member inside same since idle
  refine absurd same.symm (sound.idle member inside ?_ assignment listed)
  rw [idle]
  rfl

end Runs

/-! ## What a reconcile pass retires -/

/-- Where the synchronization of a pass reads the pool: at its start, and again after a refused
write. -/
def synchronizesNext : Log AppStore → Bool
  | [] => true
  | ⟨.put .pool _ _, .lost⟩ :: _ => true
  | _ => false

/-- The pass has read the pool for another reason than to synchronize it. -/
def pastSynchronization : Log AppStore → Bool
  | [] => false
  | ev :: rest => isPoolRead ev.op && !synchronizesNext rest || pastSynchronization rest

/-- When the record is expired at one reading, the member is idle for long enough at another. -/
def IsDue (policy : AppPoolPolicy) (new : Log AppStore) (pool : AppPool)
    (member : AppPoolMember) : Prop :=
  ∃ first second since, ⟨.now, first⟩ ∈ new ∧ ⟨.now, second⟩ ∈ new ∧
    (settleIdle first (pool.assignments.flatMap splitAssignment) (keptAssignments first pool)
      member).idleSince = some since ∧ since + policy.idleMs ≤ second

/-- Where the members that are retiring in `next` come from. -/
def RetiresDue (policy : AppPoolPolicy) (new : Log AppStore) (pool next : AppPool) : Prop :=
  ∀ member' ∈ next.members, member'.state = .retiring → ∃ member ∈ pool.members,
    member.sessionId = member'.sessionId ∧
      (member.state = .retiring ∨ member.state = .starting ∨ IsDue policy new pool member)

def RetireRule (policy : AppPoolPolicy) (es : Log AppStore) : Op AppStore → Prop
  | .put k v c => k = .pool → pastSynchronization es = true → ∃ pool next new base,
      v = .pool next ∧ es = new ++ base ∧ (∀ ev ∈ new, Quiet ev.op) ∧ ReadFrom base pool c ∧
        RetiresDue policy new pool next
  | _ => True

section Pass

variable {policy : AppPoolPolicy} {new base es : Log AppStore} {pool next : AppPool}

theorem permits_retireRule : Permits (RetireRule policy) :=
  ⟨fun _ => trivial, fun _ o quiet => by cases o <;> first | exact quiet.elim | trivial⟩

theorem state_settleIdle : (settleIdle now before after member).state = member.state := by
  rw [settleIdle]
  split <;> rfl

theorem mem_modifyFirst
    (inside : y ∈ modifyFirst p f l) : y ∈ l ∨ ∃ x, l.find? p = some x ∧ y = f x := by
  have changed : List.Forall₂ (fun x y => y = x ∨ l.find? p = some x ∧ y = f x) l
      (modifyFirst p f l) :=
    forall₂_modifyFirst_of_find (fun _ => .inl rfl) fun _ found => .inr ⟨found, rfl⟩
  obtain ⟨x, listed, same | found⟩ := changed.mem_right inside
  · exact .inl (same ▸ listed)
  · exact .inr ⟨x, found⟩

theorem retiring_of_expire
    (inside : member' ∈ (expireAppPresence n pool).members) (retiring : member'.state = .retiring) :
    ∃ member ∈ pool.members, member.sessionId = member'.sessionId ∧ member.state = .retiring := by
  obtain ⟨member, listed, rfl⟩ := List.mem_map.mp inside
  rw [state_settleIdle] at retiring
  exact ⟨member, listed, sessionId_settleIdle.symm, retiring⟩

theorem retiresDue_expire : RetiresDue policy new pool (expireAppPresence n pool) := by
  intro member' inside retiring
  obtain ⟨member, listed, same, already⟩ := retiring_of_expire inside retiring
  exact ⟨member, listed, same, .inl already⟩

theorem retiresDue_remove : RetiresDue policy new pool (expireAppPresence n { pool with
      members := pool.members.filter fun member => member.sessionId ≠ session }) := by
  intro member' inside retiring
  obtain ⟨member, listed, same, already⟩ := retiring_of_expire inside retiring
  exact ⟨member, (List.mem_filter.mp listed).1, same, .inl already⟩

/-- What the retirement decision says of a member that was not starting or retiring. -/
theorem due_of_decision (decided : routeAppRetirement policy pool member now ≠ .retain) :
    member.state = .retiring ∨ member.state = .starting ∨
      ∃ since, member.idleSince = some since ∧ since + policy.idleMs ≤ now := by
  rw [routeAppRetirement] at decided
  split at decided
  · next state => exact .inl state
  · next state => exact .inr (.inl state)
  · split at decided
    · next idle =>
      obtain ⟨since, found, long⟩ := (Option.any_eq_true _ _).mp idle.2
      exact .inr (.inr ⟨since, found, of_decide_eq_true long⟩)
    · exact absurd rfl decided

theorem retiresDue_retire
    (found : (expireAppPresence first pool).members.find? (isMember session) = some member)
    (decided : routeAppRetirement policy (expireAppPresence first pool) member second ≠ .retain)
    (early : ⟨.now, first⟩ ∈ new) (late : ⟨.now, second⟩ ∈ new) :
    RetiresDue policy new pool (expireAppPresence third { expireAppPresence first pool with
      members := modifyFirst (isMember session) retireMember
        (expireAppPresence first pool).members }) := by
  intro member' inside retiring
  obtain ⟨retired, listed, same, state⟩ := retiring_of_expire inside retiring
  rcases mem_modifyFirst listed with old | ⟨other, again, rfl⟩
  · obtain ⟨former, present, alike, already⟩ := retiring_of_expire old state
    exact ⟨former, present, alike.trans same, .inl already⟩
  · rw [found] at again
    cases again
    obtain ⟨former, present, rfl⟩ := List.mem_map.mp (List.mem_of_find?_eq_some found)
    have due := due_of_decision decided
    rw [state_settleIdle] at due
    refine ⟨former, present, sessionId_settleIdle.symm.trans same, ?_⟩
    rcases due with state | state | ⟨since, idle, long⟩
    · exact .inl state
    · exact .inr (.inl state)
    · exact .inr (.inr ⟨first, second, since, early, late, idle, long⟩)

theorem retireRule_put (read : ReadFrom base pool c) (quiet : ∀ ev ∈ new, Quiet ev.op)
    (retires : RetiresDue policy new pool next) :
    RetireRule policy (new ++ base) (.put .pool (.pool next) c) := fun _ _ =>
  ⟨pool, next, new, base, rfl, rfl, quiet, read, retires⟩

theorem keeps_retireIfDue (session : AppSessionId) :
    Keeps (RetireRule policy) (mutatePool (retireIfDue policy session)) := by
  intro past
  refine (permits_retireRule.mutatePool (R := fun _ _ _ => True) lasting_true ?_ past
    trivial).forget
  intro base pool c read _
  refine emits_dateNow_then trivial fun first => ?_
  dsimp only
  split
  · refine ⟨trivial, fun new split quiet _ => ?_⟩
    rw [split]
    exact retireRule_put read quiet retiresDue_expire
  · next member found =>
    refine emits_dateNow_then trivial fun second => ?_
    split
    · refine ⟨trivial, fun new split quiet _ => ?_⟩
      rw [split]
      exact retireRule_put read quiet retiresDue_expire
    · next decided =>
      refine ⟨trivial, fun third => ⟨trivial, fun _ _ _ _ => ?_⟩⟩
      change RetireRule policy ([⟨.now, third⟩, ⟨.now, second⟩, ⟨.now, first⟩] ++ base) _
      exact retireRule_put read (by simp [Quiet])
        (retiresDue_retire found decided (by simp) (by simp))

theorem keeps_removal (session : AppSessionId) :
    Keeps (RetireRule policy) (removeMember session) := by
  intro past
  refine (permits_retireRule.mutatePool (R := fun _ _ _ => True) lasting_true ?_ past
    trivial).forget
  intro base pool c read _
  refine ⟨trivial, fun n => ⟨trivial, fun new split quiet _ => ?_⟩⟩
  rw [split]
  exact retireRule_put read quiet retiresDue_remove

theorem isPoolRead_of_quiet (quiet : Quiet o) : isPoolRead o = false := by
  cases o <;> first | exact quiet.elim | rfl

theorem pastSynchronization_quiet (quiet : ∀ ev ∈ new, Quiet ev.op) :
    pastSynchronization (new ++ es) = pastSynchronization es := by
  induction new with
  | nil => rfl
  | cons ev rest ih =>
    rw [List.cons_append, pastSynchronization, isPoolRead_of_quiet (quiet ev (.head _)),
      Bool.false_and]
    exact ih fun other member => quiet other (.tail _ member)

/-- The synchronization itself is not past the synchronization. -/
theorem emits_synchronize :
    Emits (RetireRule policy) (fun _ _ => True) (synchronize service none) [] := by
  have during {past new : Log AppStore} {r : GetRes AppStore}
      (before : synchronizesNext past = true ∧ pastSynchronization past = false)
      (quiet : ∀ ev ∈ new, Quiet ev.op) :
      pastSynchronization (new ++ ⟨.get .pool, r⟩ :: past) = false := by
    rw [pastSynchronization_quiet quiet, pastSynchronization, before.1, before.2]
    rfl
  refine permits_retireRule.synchronizeFrom policy service none
    (P := fun past => synchronizesNext past = true ∧ pastSynchronization past = false)
    ?_ ?_ _ _ ⟨rfl, rfl⟩
  · intro past r new pool next c before _ quiet _ _ _ passed
    rw [during before quiet] at passed
    cases passed
  · intro past r new v c before quiet
    refine ⟨rfl, ?_⟩
    rw [pastSynchronization, during before quiet]
    rfl

theorem emits_reconcile :
    Emits (RetireRule service.policy) (fun _ _ => True) (reconcile service) [] := by
  rw [reconcile, emits_bind]
  refine emits_synchronize.mono fun out es _ => ?_
  cases out with
  | error err => trivial
  | ok snapshot =>
    exact permits_retireRule.reconcileMembers service keeps_retireIfDue keeps_removal snapshot
      snapshot.members es

end Pass

/-! ## Every run -/

/-- The event is a write of the client that retires a ready or draining member of the pool. -/
structure RetiresMember (x : Event AppStore) (past : Trace AppStore) (i : Nat)
    (member : AppPoolMember) : Prop where
  mine : x.thread = some i
  inside : member ∈ (poolAt past).members
  active : member.state = .ready ∨ member.state = .draining
  commits : ∃ next, x.effect .pool = some (some (.pool next)) ∧
    ∃ retired ∈ next.members, retired.sessionId = member.sessionId ∧ retired.state = .retiring

section Every

/-- The member was due by readings of the clock between the read of the pool and the write. -/
theorem RetiresMember.due (retires : RetiresMember x past i member)
    (run : PoolRun a policy (x :: past)) (rule : RetireRule policy (own i past) x.op)
    (passed : pastSynchronization (own i past) = true) :
    ∃ first since, readTime i past ≤ first ∧ since + policy.idleMs ≤ x.time ∧
      (settleIdle first ((poolAt past).assignments.flatMap splitAssignment)
        (keptAssignments first (poolAt past)) member).idleSince = some since := by
  obtain ⟨next, effect, retired, after, same, state⟩ := retires.commits
  obtain ⟨c, r, shape, applied⟩ := effect_write effect
  rw [congrArg Ev.op shape] at rule
  obtain ⟨pool, written, new, base, value, split, quiet, read, due⟩ := rule rfl passed
  cases value
  obtain ⟨g, q, moment, reader, reads, rfl, _, here⟩ :=
    read.at_write run.accepted split shape applied
  rw [← here] at due
  obtain ⟨former, listed, alike, cause⟩ := due retired after state
  have sound := (run.suffix (List.suffix_cons x past)).sound.2
  have equal : former = member := sound.unique listed retires.inside (alike.trans same)
  rw [equal] at cause
  rcases cause with already | starting | ⟨first, second, since, early, late, idle, long⟩
  · rcases retires.active with active | active <;> rw [active] at already <;> cases already
  · rcases retires.active with active | active <;> rw [active] at starting <;> cases starting
  · refine ⟨first, since, ?_, ?_, idle⟩
    · rw [readTime_of_quiet moment reader reads split quiet]
      exact (clock_between run.accepted moment reader split early).1
    · exact Nat.le_trans long (clock_between run.accepted moment reader split late).2

end Every

/-- When the retirement step of a reconcile pass retires a ready or draining member, no presence of
that member was recorded in the idle time before: of the states at which no call was between its
read of the pool and a later write of it, none had an unexpired one, but for admissions that were
taken back; and no presence in the record that is replaced reaches into that time. -/
theorem idle_retirement_after_presence (a : Adapter AppStore) (service : AppPoolService)
    (calls : Nat → PoolCall) {c : Config AppStore HubError Unit}
    (reach : Reaches a ⟨[], fun i => (calls i).prog service⟩ c) {r : Nat}
    (pass : calls r = .reconcile) {x : Event AppStore} {past : Trace AppStore}
    (moment : (x :: past) <:+ c.trace) (passed : pastSynchronization (own r past) = true)
    {member : AppPoolMember} (retires : RetiresMember x past r member) :
    (∀ time u, x.time < time + service.policy.idleMs → time ≤ x.time → StandsAt past u time →
      Settled (x :: past) u time → ∀ assignment ∈ (poolAt u).assignments,
        assignment.sessionId = member.sessionId → ¬ TakenBack past assignment.generation →
          appPresenceExpiresAt assignment ≤ time) ∧
    ∀ assignment ∈ (poolAt past).assignments, assignment.sessionId = member.sessionId →
      appPresenceExpiresAt assignment + service.policy.idleMs ≤ x.time := by
  have run := (PoolRun.of_reaches reach).suffix moment
  have before := run.suffix (List.suffix_cons x past)
  have rule : RetireRule service.policy (own r past) x.op := by
    have history := reach.history (Seeds.empty a)
    refine history.guarantee (G := fun i es o => i = r → RetireRule service.policy es o)
      (Q := fun _ _ _ => True) (fun i => ?_) moment retires.mine rfl
    by_cases same : i = r
    · rw [same, pass]
      exact emits_reconcile.weaken fun _ _ _ allowed _ => allowed
    · exact ((poolCall_keeps_rule []).weaken fun _ _ _ _ mine => absurd mine same).forget
  obtain ⟨first, since, late, long, idle⟩ := retires.due run rule passed
  constructor
  · intro time u recent _ stands settled assignment listed mine stays
    by_contra unexpired
    have sound := (before.suffix stands.reached).sound.2
    have start := sound.accounts listed (Nat.le_of_not_le unexpired)
    obtain ⟨next, effect, _⟩ := retires.commits
    have changes : x.effect .pool ≠ none := effect ▸ Option.some_ne_none _
    have read := settled x past r List.suffix_rfl stands.reached retires.mine changes
    have kept := before.accounts stands.reached
      (fun w p i inside => settled w p i (inside.cons)) stays start
    have expired := kept.expire before.sound.2 (Nat.le_trans read late)
    have bound := expired.idle _ (List.mem_map_of_mem retires.inside)
      (sessionId_settleIdle.trans mine.symm) since idle
    omega
  · intro assignment listed mine
    have ended := presence_le_since before.sound.2 retires.inside idle listed mine
    omega

namespace IdleSession

def service (leaseMs : Nat) : AppPoolService where
  project := 1
  notebook := 2
  policy := { userLeaseMs := leaseMs, reconnectGraceMs := 1, idleMs := 10 }
  localeBefore _ _ := false

def calls : Nat → PoolCall
  | 0 => .admission ⟨"ana", 7, 100⟩ (some "tab")
  | 1 => .complete (.drawn 1) (.drawn 3)
  | 2 => .leave "ana" (.drawn 1) ⟨"tab", 0⟩
  | _ => .reconcile

def adapter : Adapter AppStore := ⟨fun _ n => n, 0⟩

def session : AppSession where
  sessionId := .drawn 1
  projectId := 1
  notebookId := 2
  mode := .app
  status := .running
  userId := "ana"
  sandboxId := some 2
  sourceVersionId := some 7
  startedAt := 0
  authorizationExpiresAt := none
  appPool := true
  outside := nofun

def member (since : Nat) : AppPoolMember where
  sessionId := .drawn 1
  sandboxId := 2
  userId := "ana"
  sourceVersionId := some 7
  state := .ready
  createdAt := 0
  operationToken := .drawn 3
  operationExpiresAt := 100
  idleSince := some since

def retired (since : Nat) : AppPool where
  latestVersionId := some 7
  members := [retireMember (member since)]

def assignment (expiresAt : Nat) : AppPoolAssignment :=
  ⟨some "tab", "ana", .drawn 1, 0, [⟨"tab", expiresAt⟩], none⟩

/-- A visit starts at 0, and a pass finds the member idle at 100. -/
def schedule (between : List (Move AppStore)) : List (Move AppStore) :=
  turns (B := AppStore) 0 0 [.id 0, .ok, .answer .listActiveByProject (.ok []), .ok, .ok,
    .id 1, .id 2, .id 3, .ok, .answer .committedVersion (.ok (some 7)), .ok, .ok,
    .answer .committedVersion (.ok (some 7))] ++
  turns 1 0 [.ok, .ok, .ok, .ok] ++ between ++
  turns (B := AppStore) 3 100 [.ok, .answer (.getSession (.drawn 1)) (.ok session), .ok, .ok,
    .ok, .ok, .answer (.probe (.drawn 1)) (.ok (some 0)), .ok, .ok, .ok, .ok, .ok]

/-- A leave that reads the clock at 0 and reaches the store at 100. -/
def leave : List (Move AppStore) := turns 2 0 [.ok, .ok] ++ [⟨2, 100, .ok⟩]

/-- The run ends with the write that retires the member. -/
def endsRetired (since : Nat) : Trace AppStore → Bool
  | [] => false
  | x :: past => x.thread = some 3 && x.time = 100 && pastSynchronization (own 3 past) &&
      (poolAt past).members = [member since] &&
      x.effect .pool = some (some (.pool (retired since)))

theorem retires_of_end (ends : endsRetired since t = true) :
    ∃ x past, t = x :: past ∧ x.time = 100 ∧ pastSynchronization (own 3 past) = true ∧
      RetiresMember x past 3 (member since) := by
  cases t with
  | nil => cases ends
  | cons x past =>
    simp only [endsRetired, Bool.and_eq_true, decide_eq_true_eq] at ends
    obtain ⟨⟨⟨⟨mine, time⟩, passed⟩, members⟩, effect⟩ := ends
    refine ⟨x, past, rfl, time, passed, mine, ?_, .inl rfl, retired since, effect,
      retireMember (member since), ?_⟩
    · rw [members]
      exact List.mem_singleton_self _
    · exact ⟨List.mem_singleton_self _, rfl, rfl⟩

/-- The state so many events before the last one, which the next event ends at 100. -/
def stoodTill (n expiresAt : Nat) (t : Trace AppStore) : Bool :=
  match t.drop n with
  | e :: u => lastTime u = 0 && e.time = 100 && (poolAt u).assignments = [assignment expiresAt]
  | [] => false

theorem standsAt_of_stood (stood : stoodTill (n + 1) expiresAt (x :: past) = true) :
    ∃ e u, past.drop n = e :: u ∧ StandsAt past u 95 ∧
      assignment expiresAt ∈ (poolAt u).assignments := by
  rw [stoodTill] at stood
  split at stood
  · next e u dropped =>
    simp only [Bool.and_eq_true, decide_eq_true_eq] at stood
    obtain ⟨⟨since, till⟩, listed⟩ := stood
    have inside : e :: u <:+ past := by
      rw [← dropped]
      exact List.drop_suffix n past
    refine ⟨e, u, dropped, ⟨inside.past, since ▸ Nat.zero_le _, ?_⟩, ?_⟩
    · intro e' inside'
      have same := (List.suffix_of_suffix_length_le inside' inside (Nat.le_refl _)).eq_of_length rfl
      cases same
      rw [till]
      decide
    · rw [listed]
      exact List.mem_singleton_self _
  · cases stood

/-- Whoever wrote the pool among the last `n` events read it at that time or later. -/
def readLate (time : Nat) : Nat → Trace AppStore → Bool
  | n + 1, w :: p => (w.effect .pool = none || w.thread.all (time ≤ readTime · p)) &&
      readLate time n p
  | _, _ => true

theorem settled_of_readLate (late : readLate time n t = true) (rest : t.drop n = u) :
    Settled t u time := by
  intro w p i moment above mine changes
  induction n generalizing t with
  | zero =>
    rw [List.drop_zero] at rest
    subst rest
    have whole := moment.length_le
    have part := above.length_le
    rw [List.length_cons] at whole
    omega
  | succ n ih =>
    cases t with
    | nil => cases List.suffix_nil.mp moment
    | cons e t =>
      simp only [readLate, Bool.and_eq_true, Bool.or_eq_true, decide_eq_true_eq] at late
      rcases List.suffix_cons_iff.mp moment with same | inside
      · cases same
        simpa [mine, changes] using late.1
      · exact ih late.2 rest inside

/-- No client that drew the generation wrote the pool twice. -/
def writtenOnce (generation : Nat) : Trace AppStore → Bool
  | [] => true
  | w :: p => (w.effect .pool = none || w.thread.all fun i =>
      !((own i p).any (match · with | ⟨.mint, n⟩ => n = generation | _ => false) &&
        (own i p).any (match ·.op with | .put .pool _ _ => true | _ => false))) &&
      writtenOnce generation p

theorem not_takenBack (once : writtenOnce generation t = true) : ¬ TakenBack t generation := by
  rintro ⟨w, p, i, moment, mine, changes, drawn, pool, c, tag, written, _⟩
  induction t with
  | nil => cases List.suffix_nil.mp moment
  | cons e t ih =>
    simp only [writtenOnce, Bool.and_eq_true, Bool.or_eq_true, decide_eq_true_eq] at once
    rcases List.suffix_cons_iff.mp moment with same | inside
    · cases same
      have here := once.1.resolve_left changes
      rw [mine, Option.all_some, Bool.not_eq_true', Bool.and_eq_false_iff] at here
      rcases here with unused | unwritten
      · exact absurd (List.any_eq_false.mp unused _ drawn) (by simp)
      · exact absurd (List.any_eq_false.mp unwritten _ written) (by simp)
    · exact ih once.2 inside

end IdleSession

open IdleSession

/-- A visit whose lease ends at 50 and is left in the record: at 95 it stands there expired, and at
100 the member is retired, idle since 50. -/
theorem idle_session_retired : ∃ c x past u,
    Reaches adapter ⟨[], fun i => (calls i).prog (service 50)⟩ c ∧ (x :: past) <:+ c.trace ∧
    x.time = 100 ∧ RetiresMember x past 3 (member 50) ∧ StandsAt past u 95 ∧
    Settled (x :: past) u 95 ∧ ¬ TakenBack past 0 ∧
    (∃ assignment ∈ (poolAt u).assignments, assignment.sessionId = (member 50).sessionId ∧
      appPresenceExpiresAt assignment = 50 ∧ appPresenceExpiresAt assignment ≤ 95) ∧
    ∀ assignment ∈ (poolAt past).assignments, assignment.sessionId = (member 50).sessionId →
      appPresenceExpiresAt assignment + 10 ≤ x.time := by
  obtain ⟨c, reach, observed⟩ := Config.play_any adapter
    ⟨[], fun i => (calls i).prog (service 50)⟩ (schedule [])
    (fun c => endsRetired 50 c.trace && stoodTill 11 50 c.trace && readLate 95 12 c.trace &&
      writtenOnce 0 c.trace.tail) (by decide)
  simp only [Bool.and_eq_true] at observed
  obtain ⟨⟨⟨ends, stood⟩, late⟩, once⟩ := observed
  obtain ⟨x, past, whole, time, passed, retires⟩ := retires_of_end ends
  rw [whole] at stood late once
  obtain ⟨e, u, dropped, stands, listed⟩ := standsAt_of_stood stood
  have moment : x :: past <:+ c.trace := whole ▸ List.suffix_rfl
  have settled : Settled (x :: past) u 95 := by
    apply settled_of_readLate late
    rw [List.drop_succ_cons, ← List.drop_drop (i := 1) (j := 10), dropped, List.drop_one,
      List.tail_cons]
  have stays : ¬ TakenBack past 0 := not_takenBack once
  have idle := idle_retirement_after_presence adapter (service 50) calls reach rfl moment
    passed retires
  refine ⟨c, x, past, u, reach, moment, time, retires, stands, settled, stays, ?_, idle.2⟩
  refine ⟨_, listed, rfl, rfl, ?_⟩
  exact idle.1 95 u (by rw [time]; decide) (by rw [time]; decide) stands settled _ listed rfl stays

/-- A leave that read the clock at 0 and is written at 100 back-dates the end of the visit: the
member is retired at 100 although its lease stood unexpired in the record at 95. -/
theorem stalled_leave_hides_presence : ∃ c x past u, Reaches adapter
      ⟨[], fun i => (calls i).prog (service 1000)⟩ c ∧ calls 3 = .reconcile ∧
    (x :: past) <:+ c.trace ∧ pastSynchronization (own 3 past) = true ∧
    RetiresMember x past 3 (member 1) ∧
    x.time < 95 + (service 1000).policy.idleMs ∧ 95 ≤ x.time ∧ StandsAt past u 95 ∧
    ∃ assignment ∈ (poolAt u).assignments, assignment.sessionId = (member 1).sessionId ∧
        95 < appPresenceExpiresAt assignment := by
  obtain ⟨c, reach, observed⟩ := Config.play_any adapter
    ⟨[], fun i => (calls i).prog (service 1000)⟩ (schedule leave)
    (fun c => endsRetired 1 c.trace && stoodTill 12 1000 c.trace) (by decide)
  rw [Bool.and_eq_true] at observed
  obtain ⟨x, past, whole, time, passed, retires⟩ := retires_of_end observed.1
  have stood := observed.2
  rw [whole] at stood
  obtain ⟨_, u, _, stands, listed⟩ := standsAt_of_stood stood
  refine ⟨c, x, past, u, reach, rfl, whole ▸ List.suffix_rfl, passed, retires, ?_, ?_, stands,
    assignment 1000, listed, rfl, by decide⟩
  · rw [time]
    decide
  · rw [time]
    decide

end MarimoHub.Guarantees.AppPools
