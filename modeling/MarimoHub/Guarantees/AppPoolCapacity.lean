import MarimoHub.Guarantees.AppPoolRuns

/-!
# App pools stay within their limits

From an empty pool, whatever calls run and however they interleave: every assignment refers to a
member of the pool, a member that was not adopted holds no more visits than the limit of visits,
and of each version there is at most one current member more than the limit of sessions, the
one a replacement starts beside the member it replaces.
-/

namespace MarimoHub.Guarantees.AppPools

open ObjectStore Source.AppPools
open Source hiding AppPool AppPoolMember

/-- No member that was not adopted holds more visits than allowed. -/
def Roomy (policy : AppPoolPolicy) (pool : AppPool) : Prop :=
  ∀ member ∈ pool.members, member.legacy = false → ∀ limit,
    policy.maxVisitsPerSession = some limit →
      appOccupancy pool.assignments member.sessionId ≤ limit

/-- From `n` on, no version has more current members than allowed, and one. -/
def Capped (policy : AppPoolPolicy) (n : Nat) (pool : AppPool) : Prop :=
  ∀ version now limit, n ≤ now → policy.maxSessionsPerVersion = some limit →
    (currentVersionMembers pool version now).length ≤ limit + 1

section Edits

variable {n now : Nat}
  {pool next : AppPool} {assignments before after : List AppPoolAssignment}
  {version : VersionId}

theorem Roomy.sublist (roomy : Roomy policy pool) (fewer : assignments.Sublist pool.assignments) :
    Roomy policy { pool with assignments := assignments } := by
  intro member inside mine limit given
  exact Nat.le_trans (fewer.countP_le) (roomy member inside mine limit given)

theorem legacy_settleIdle : (settleIdle now before after member).legacy = member.legacy := by
  rw [settleIdle]
  split <;> rfl

theorem appOccupancy_kept (sound : Sound pool) :
    appOccupancy (keptAssignments n pool) session ≤ appOccupancy pool.assignments session := by
  rw [keptAssignments, split_of_sound sound]
  refine Nat.le_trans (List.Sublist.countP_le List.filter_sublist) ?_
  rw [List.countP_map]
  exact Nat.le_refl _

theorem appOccupancy_touched
    (touched : List.Forall₂ (Touched n) assignments assignments') (session : AppSessionId) :
    appOccupancy assignments' session = appOccupancy assignments session := by
  rw [appOccupancy, appOccupancy]
  induction touched with
  | nil => rfl
  | cons first _ ih => simp only [List.countP_cons, first.session, ih]

theorem appOccupancy_of_absent (sound : Sound pool)
    (absent : ∀ member ∈ pool.members, member.sessionId ≠ session) :
    appOccupancy pool.assignments session = 0 := by
  rw [appOccupancy, List.countP_eq_zero]
  intro assignment listed same
  obtain ⟨member, inside, refers⟩ := sound.refs assignment listed
  exact absent member inside (refers.trans (of_decide_eq_true same))

theorem Roomy.edit (positive : ∀ limit, policy.maxVisitsPerSession = some limit → 1 ≤ limit)
    (sound : Sound pool) (roomy : Roomy policy pool)
    (edit : PoolEdit policy added taken n pool next) : Roomy policy next := by
  cases edit with
  | expire =>
    intro member inside mine limit given
    obtain ⟨old, listed, rfl⟩ := List.mem_map.mp inside
    rw [legacy_settleIdle] at mine
    rw [sessionId_settleIdle]
    exact Nat.le_trans (appOccupancy_kept sound) (roomy old listed mine limit given)
  | relabel deletedAt latest => exact roomy
  | alter members altered =>
    intro member' inside' mine limit given
    obtain ⟨member, inside, changed⟩ := altered.mem_right inside'
    rw [changed.session]
    exact roomy member inside (changed.legacy.symm.trans mine) limit given
  | join member _ fresh _ _ =>
    intro other inside mine limit given
    rcases List.mem_append.mp inside with old | new
    · exact roomy other old mine limit given
    · rw [List.mem_singleton.mp new, appOccupancy_of_absent sound fresh]
      exact Nat.zero_le _
  | assign member assignment inside _ named _ _ room =>
    intro other present mine limit given
    have before := roomy other present mine limit given
    rw [appOccupancy, List.countP_append, List.countP_singleton, ← appOccupancy]
    split
    · next same =>
      rw [decide_eq_true_eq, named] at same
      rw [sound.unique inside present same] at room
      rcases room with legacy | room
      · rw [mine] at legacy
        cases legacy
      · have enough := positive limit given
        rcases room limit given with below | none <;> omega
    · exact before
  | touch assignments touched =>
    intro member inside mine limit given
    rw [appOccupancy_touched touched]
    exact roomy member inside mine limit given
  | remove members session fewer _ =>
    intro member inside mine limit given
    exact Nat.le_trans (List.Sublist.countP_le List.filter_sublist)
      (roomy member (fewer.subset inside) mine limit given)
  | vacate gone => exact roomy.sublist List.filter_sublist
  | withdraw drop _ => exact roomy.sublist List.filter_sublist

theorem isCurrent_settleIdle :
    isCurrent version now (settleIdle at_ before after member) = isCurrent version now member := by
  rw [settleIdle]
  split <;> rfl

theorem length_currentVersionMembers (pool : AppPool) (version : VersionId) (now : Nat) :
    (currentVersionMembers pool version now).length =
      pool.members.countP (isCurrent version now) := List.countP_eq_length_filter.symm

theorem countP_altered (altered : List.Forall₂ (Altered n) members members') (later : n ≤ now) :
    members'.countP (isCurrent version now) ≤ members.countP (isCurrent version n) := by
  induction altered with
  | nil => exact Nat.le_refl _
  | @cons member member' _ _ first _ ih =>
    rw [List.countP_cons, List.countP_cons]
    have one : (if isCurrent version now member' = true then 1 else 0) ≤
        (if isCurrent version n member = true then 1 else 0) := by
      split
      · next current => exact Nat.le_of_eq (if_pos (first.current version now later current)).symm
      · exact Nat.zero_le _
    omega

/-- At most one member is left out by leaving one session out. -/
theorem length_le_of_replaced (sound : Sound pool) (version : VersionId) (now : Nat)
    (replaced : AppSessionId) : (currentVersionMembers pool version now).length ≤
      ((currentVersionMembers pool version now).filter
        fun other => other.sessionId ≠ replaced).length + 1 := by
  have distinct : ((currentVersionMembers pool version now).map
      fun member => member.sessionId).Nodup :=
    sound.ids.sublist (List.filter_sublist.map _)
  generalize currentVersionMembers pool version now = members at distinct
  have once : members.countP (fun other => other.sessionId = replaced) ≤ 1 := by
    have counted := List.nodup_iff_count_le_one.mp distinct replaced
    rw [List.count, List.countP_map] at counted
    refine Nat.le_trans (Nat.le_of_eq (List.countP_congr fun member _ => ?_)) counted
    simp
  have total := List.length_eq_countP_add_countP (l := members)
    fun other => decide (other.sessionId ≠ replaced)
  have rest : members.countP (fun other => decide ¬ decide (other.sessionId ≠ replaced) = true) =
      members.countP fun other => other.sessionId = replaced :=
    List.countP_congr fun member _ => by simp
  rw [← List.countP_eq_length_filter]
  omega

theorem Capped.edit (sound : Sound pool) (capped : Capped policy n pool)
    (edit : PoolEdit policy added taken n pool next) : Capped policy n next := by
  intro version now limit later given
  have before := capped version now limit later given
  have start := capped version n limit (Nat.le_refl n) given
  rw [length_currentVersionMembers] at before start ⊢
  cases edit with
  | expire =>
    have same : (expireAppPresence n pool).members.countP (isCurrent version now) =
        pool.members.countP (isCurrent version now) := by
      rw [expireAppPresence, List.countP_map]
      exact List.countP_congr fun member _ => by
        rw [Function.comp_apply, isCurrent_settleIdle]
    rw [same]
    exact before
  | alter members altered => exact Nat.le_trans (countP_altered altered later) start
  | join member _ _ _ room =>
    rw [List.countP_append, List.countP_singleton]
    split
    · next current =>
      simp only [isCurrent, Bool.and_eq_true, decide_eq_true_eq] at current
      rcases room with legacy | room
      · rw [legacy] at current
        cases current.1.1.1
      · obtain ⟨replaced, below⟩ := room version limit current.1.1.2 given
        have apart := length_le_of_replaced sound version n replaced
        rw [length_currentVersionMembers] at apart
        have fewer : pool.members.countP (isCurrent version now) ≤
            pool.members.countP (isCurrent version n) :=
          List.countP_mono_left fun other _ => isCurrent_earlier later
        omega
    · exact before
  | remove members session fewer _ =>
    exact Nat.le_trans (fewer.countP_le) before
  | _ => exact before

end Edits

/-! ## Every run -/

/-- In every state a run of the service reaches from an empty pool: assignments refer to members,
members hold no more visits than allowed, and each version has at most one current member more
than allowed, at any time from now on. -/
theorem app_pool_within_limits (a : Adapter AppStore) (service : AppPoolService)
    (positive : ∀ limit, service.policy.maxVisitsPerSession = some limit → 1 ≤ limit)
    (calls : Nat → PoolCall) {c : Config AppStore HubError Unit}
    (reach : Reaches a ⟨[], fun i => (calls i).prog service⟩ c) {pool : AppPool}
    (stored : lookup AppKey.pool c.trace = some (.pool pool)) :
    (∀ assignment ∈ pool.assignments,
      ∃ member ∈ pool.members, member.sessionId = assignment.sessionId) ∧
    (∀ member ∈ pool.members, member.legacy = false → ∀ limit,
      service.policy.maxVisitsPerSession = some limit →
        appOccupancy pool.assignments member.sessionId ≤ limit) ∧
    ∀ version now limit, lastTime c.trace ≤ now →
      service.policy.maxSessionsPerVersion = some limit →
        (currentVersionMembers pool version now).length ≤ limit + 1 := by
  have run := PoolRun.of_reaches reach
  have kept := run.always
    (P := fun n pool => Roomy service.policy pool ∧ Capped service.policy n pool)
    ⟨nofun, fun _ _ _ _ _ => Nat.zero_le _⟩
    (fun n m pool later kept => ⟨kept.1, fun version now limit after given =>
      kept.2 version now limit (Nat.le_trans later after) given⟩)
    (fun added taken n pool next sound kept edit =>
      ⟨kept.1.edit positive sound edit, kept.2.edit sound edit⟩)
  rw [poolAt_of_lookup stored] at kept
  have sound := run.sound.2
  rw [poolAt_of_lookup stored] at sound
  exact ⟨sound.refs, kept.1, kept.2⟩

namespace TwoVisits

/-- A session serves one visit, and a version has two sessions. -/
def service : AppPoolService where
  project := 1
  notebook := 2
  policy := { maxVisitsPerSession := some 1, maxSessionsPerVersion := some 2, userLeaseMs := 10,
              reconnectGraceMs := 1, idleMs := 5 }
  localeBefore _ _ := false

def calls (i : Nat) : PoolCall := .admission ⟨if i = 0 then "ana" else "bob", 7, 100⟩ none

def adapter : Adapter AppStore := ⟨fun _ n => n, 0⟩

/-- A visit after the synchronization, with the ids it draws from `n` on; the version is still the
committed one. -/
def placed (i n : Nat) : List (Move AppStore) :=
  turns i 0 [.ok, .id n, .id (n + 1), .id (n + 2), .ok, .answer .committedVersion (.ok (some 7)),
    .ok, .ok, .answer .committedVersion (.ok (some 7))]

/-- The second visit finds the first one's session, which is not there yet. -/
def schedule : List (Move AppStore) :=
  turns (B := AppStore) 0 0 [.id 0, .ok, .answer .listActiveByProject (.ok []), .ok] ++
  placed 0 1 ++
  turns (B := AppStore) 1 0 [.id 4, .ok, .answer (.getSession (.drawn 1)) (.error (.notFound "")),
    .ok, .ok] ++ placed 1 5

def member (n : Nat) (user : UserId) : AppPoolMember where
  sessionId := .drawn n
  sandboxId := n + 1
  userId := user
  sourceVersionId := some 7
  state := .starting
  createdAt := 0
  operationToken := .drawn (n + 2)
  operationExpiresAt := 100

def pool : AppPool where
  latestVersionId := some 7
  members := [member 1 "ana", member 5 "bob"]
  assignments := [⟨some "api", "ana", .drawn 1, 0, [⟨"api", 100⟩], none⟩,
    ⟨some "api", "bob", .drawn 5, 4, [⟨"api", 100⟩], none⟩]

end TwoVisits

open TwoVisits

/-- Two visits fill the pool: each session holds the one visit allowed, and the version has its two
sessions. -/
theorem two_visits_fill_pool : ∃ c, Reaches adapter ⟨[], fun i => (calls i).prog service⟩ c ∧
    lookup AppKey.pool c.trace = some (.pool pool) ∧
    (∀ member ∈ pool.members, appOccupancy pool.assignments member.sessionId = 1 ∧
      appOccupancy pool.assignments member.sessionId ≤ 1) ∧
    (currentVersionMembers pool 7 0).length = 2 ∧
    (currentVersionMembers pool 7 0).length ≤ 2 + 1 := by
  obtain ⟨c, reach, stored, time⟩ := Config.play_any adapter ⟨[], fun i => (calls i).prog service⟩
    schedule (fun c => lookup AppKey.pool c.trace = some (.pool pool) ∧
      lastTime c.trace = 0) (by decide)
  obtain ⟨_, visits, sessions⟩ :=
    app_pool_within_limits adapter service (by decide) calls reach stored
  refine ⟨c, reach, stored, fun member listed => ⟨?_, ?_⟩, by decide, ?_⟩
  · revert member
    decide
  · exact visits member listed (by revert member; decide) 1 rfl
  · exact sessions 7 0 2 (Nat.le_of_eq time) rfl

end MarimoHub.Guarantees.AppPools
