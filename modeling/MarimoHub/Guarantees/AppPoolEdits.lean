import MarimoHub.Source.AppPoolService

/-!
# Edits of an app pool

What the router and the service do to the record of a pool, as a sequence of a few kinds of edits
at a reading of the clock. Everything a run keeps true of the record is proved once for each kind
of edit, and the functions of the source are shown to make such edits.
-/

namespace MarimoHub.Guarantees.AppPools

open ObjectStore Source.AppPools
open Source hiding AppPool AppPoolMember

/-- A change of a member after which it counts as current only if it did at `n`. -/
structure Altered (n : Nat) (member member' : AppPoolMember) : Prop where
  session : member'.sessionId = member.sessionId
  legacy : member'.legacy = member.legacy
  idle : member'.idleSince = member.idleSince ∨ member'.idleSince = none
  current : ∀ version now, n ≤ now → isCurrent version now member' = true →
    isCurrent version n member = true

/-- A change of an assignment that does not end its presence before `n`. -/
structure Touched (n : Nat) (assignment assignment' : AppPoolAssignment) : Prop where
  session : assignment'.sessionId = assignment.sessionId
  visit : assignment'.visitId = assignment.visitId
  generation : assignment'.generation = assignment.generation
  presence : min (appPresenceExpiresAt assignment) n ≤ appPresenceExpiresAt assignment'

/-- Room for a member of its version, one member apart that it may replace. -/
def HasSessionRoom (policy : AppPoolPolicy) (n : Nat) (pool : AppPool) (member : AppPoolMember) :
    Prop :=
  ∀ version limit, member.sourceVersionId = some version →
    policy.maxSessionsPerVersion = some limit → ∃ replaced,
      ((currentVersionMembers pool version n).filter
        fun other => other.sessionId ≠ replaced).length < limit

/-- Room for a visit: its session is below the limit, or it has none. -/
def HasVisitRoom (policy : AppPoolPolicy) (pool : AppPool) (session : AppSessionId) : Prop :=
  ∀ limit, policy.maxVisitsPerSession = some limit →
    appOccupancy pool.assignments session < limit ∨ appOccupancy pool.assignments session = 0

section

variable (policy : AppPoolPolicy) (added : AppSessionId → Prop) (taken : Nat → Prop) (n : Nat)

/-- One edit at the reading `n`. The sessions in `added` are those the call may add, and the
generations in `taken` those of admissions their own call takes back. -/
inductive PoolEdit : AppPool → AppPool → Prop where
  | expire (pool : AppPool) : PoolEdit pool (expireAppPresence n pool)
  | relabel (pool : AppPool) (deletedAt : Option Nat) (latest : Option VersionId) :
      PoolEdit pool { pool with deletedAt := deletedAt, latestVersionId := latest }
  | alter (pool : AppPool) (members : List AppPoolMember) :
      List.Forall₂ (Altered n) pool.members members →
      PoolEdit pool { pool with members := members }
  | join (pool : AppPool) (member : AppPoolMember) : added member.sessionId →
      (∀ other ∈ pool.members, other.sessionId ≠ member.sessionId) → member.idleSince = none →
      (member.legacy = true ∨ HasSessionRoom policy n pool member) →
      PoolEdit pool { pool with members := pool.members ++ [member] }
  | assign (pool : AppPool) (member : AppPoolMember) (assignment : AppPoolAssignment) :
      member ∈ pool.members → member.idleSince = none →
      assignment.sessionId = member.sessionId → assignment.visitId.isSome = true →
      n ≤ appPresenceExpiresAt assignment →
      (member.legacy = true ∨ HasVisitRoom policy pool member.sessionId) →
      PoolEdit pool { pool with assignments := pool.assignments ++ [assignment] }
  | touch (pool : AppPool) (assignments : List AppPoolAssignment) :
      List.Forall₂ (Touched n) pool.assignments assignments →
      PoolEdit pool { pool with assignments := assignments }
  | remove (pool : AppPool) (members : List AppPoolMember) (session : AppSessionId) :
      members.Sublist pool.members →
      (∀ member ∈ pool.members, member ∉ members → member.sessionId = session) →
      PoolEdit pool { pool with
        members := members
        assignments := pool.assignments.filter fun item => item.sessionId ≠ session }
  | vacate (pool : AppPool) (gone : AppSessionId → Bool) :
      PoolEdit pool { pool with
        assignments := pool.assignments.filter fun item => !gone item.sessionId }
  | withdraw (pool : AppPool) (drop : AppPoolAssignment → Bool) :
      (∀ item ∈ pool.assignments, drop item = true → taken item.generation) →
      PoolEdit pool { pool with
        assignments := pool.assignments.filter fun item => !drop item }

end

/-- Edits at one reading. -/
abbrev PoolEdits (policy : AppPoolPolicy) (added : AppSessionId → Prop) (taken : Nat → Prop)
    (n : Nat) : AppPool → AppPool → Prop :=
  Relation.ReflTransGen (PoolEdit policy added taken n)

/-! ## Changing one element -/

section First

variable {l l' : List α}

theorem forall₂_modifyFirst_of_find (same : ∀ x, R x x)
    (changed : ∀ x, l.find? p = some x → R x (f x)) : List.Forall₂ R l (modifyFirst p f l) := by
  induction l with
  | nil => exact .nil
  | cons x rest ih =>
    rw [modifyFirst]
    split
    · next here =>
      exact .cons (changed x (List.find?_cons_of_pos here))
        (List.forall₂_same.mpr fun y _ => same y)
    · next other =>
      exact .cons (same x) (ih fun y found =>
        changed y ((List.find?_cons_of_neg other).trans found))

theorem forall₂_modifyFirst (same : ∀ x, R x x) (changed : ∀ x, R x (f x)) :
    List.Forall₂ R l (modifyFirst p f l) :=
  forall₂_modifyFirst_of_find same fun x _ => changed x

theorem mem_modifyFirst_of_find (found : l.find? p = some x) : f x ∈ modifyFirst p f l := by
  induction l with
  | nil => cases found
  | cons y rest ih =>
    rw [modifyFirst]
    by_cases here : p y = true
    · rw [List.find?_cons_of_pos here] at found
      cases found
      rw [if_pos here]
      exact .head _
    · rw [List.find?_cons_of_neg here] at found
      rw [if_neg here]
      exact .tail _ (ih found)

end First

/-! ## Members -/

variable {members : List AppPoolMember}

section Members

variable {n now : Nat} {version : VersionId} {member : AppPoolMember}

theorem isReusable_earlier (earlier : n ≤ now) (reusable : isReusableMember member now = true) :
    isReusableMember member n = true := by
  simp only [isReusableMember, decide_eq_true_eq] at reusable ⊢
  exact ⟨reusable.1, reusable.2.imp_right fun before => Nat.lt_of_le_of_lt earlier before⟩

theorem isCurrent_earlier (earlier : n ≤ now) (current : isCurrent version now member = true) :
    isCurrent version n member = true := by
  simp only [isCurrent, Bool.and_eq_true] at current ⊢
  exact ⟨current.1, isReusable_earlier earlier current.2⟩

theorem altered_refl (member : AppPoolMember) : Altered n member member :=
  ⟨rfl, rfl, .inl rfl, fun _ _ later => isCurrent_earlier later⟩

theorem altered_clearIdle (member : AppPoolMember) : Altered n member (clearIdle member) :=
  ⟨rfl, rfl, .inr rfl, fun _ _ later => isCurrent_earlier later⟩

theorem altered_retireMember (member : AppPoolMember) : Altered n member (retireMember member) :=
  ⟨rfl, rfl, .inl rfl, fun _ _ _ current => by
    simp [isCurrent, isReusableMember, retireMember] at current⟩

theorem altered_drainStale (member : AppPoolMember) :
    Altered n member (drainStale version member) := by
  rw [drainStale]
  split
  · exact ⟨rfl, rfl, .inl rfl, fun _ _ _ current => by simp [isCurrent] at current⟩
  · exact altered_refl member

theorem altered_bindSandbox (member : AppPoolMember) :
    Altered n member (bindSandbox sandboxId member) :=
  ⟨rfl, rfl, .inl rfl, fun _ _ later => isCurrent_earlier later⟩

/-- A reservation that still holds counts as current already. -/
theorem altered_completeMember (starting : member.state = .starting)
    (holds : n < member.operationExpiresAt) : Altered n member (completeMember pool member) := by
  refine ⟨rfl, rfl, .inl rfl, fun version now _ current => ?_⟩
  simp only [isCurrent, Bool.and_eq_true] at current ⊢
  refine ⟨⟨current.1.1, ?_⟩, ?_⟩
  · simp [starting]
  · simp [isReusableMember, starting, holds]

theorem altered_map (each : ∀ member, Altered n member (f member)) :
    List.Forall₂ (Altered n) members (members.map f) :=
  List.forall₂_map_right_iff.mpr (List.forall₂_same.mpr fun member _ => each member)

end Members

/-! ## Presence -/

section Presence

theorem foldl_max_le_iff {l : List Nat} :
    l.foldl max start ≤ bound ↔ start ≤ bound ∧ ∀ x ∈ l, x ≤ bound := by
  induction l generalizing start with
  | nil => simp
  | cons x rest ih => rw [List.foldl_cons, ih, Nat.max_le, List.forall_mem_cons, and_assoc]

variable {assignment : AppPoolAssignment} {visit : VisitLease} {n expiresAt : Nat}

theorem presence_le_iff : appPresenceExpiresAt assignment ≤ n ↔
    assignment.graceUntil.getD 0 ≤ n ∧ ∀ visit ∈ assignment.visits, visit.expiresAt ≤ n := by
  rw [appPresenceExpiresAt, foldl_max_le_iff, List.forall_mem_map]

theorem expiresAt_le_presence (assignment : AppPoolAssignment)
    (member : visit ∈ assignment.visits) :
    visit.expiresAt ≤ appPresenceExpiresAt assignment :=
  (presence_le_iff.mp (Nat.le_refl _)).2 visit member

theorem grace_le_presence (assignment : AppPoolAssignment) :
    assignment.graceUntil.getD 0 ≤ appPresenceExpiresAt assignment :=
  (presence_le_iff.mp (Nat.le_refl _)).1

theorem touched_refl (assignment : AppPoolAssignment) : Touched n assignment assignment :=
  ⟨rfl, rfl, rfl, Nat.min_le_left _ _⟩

theorem exists_renewed :
    ∃ visit ∈ renewVisits visitId expiresAt visits, expiresAt ≤ visit.expiresAt := by
  induction visits with
  | nil => exact ⟨_, .head _, Nat.le_refl _⟩
  | cons visit rest ih =>
    rw [renewVisits]
    split
    · exact ⟨_, .head _, Nat.le_max_right _ _⟩
    · obtain ⟨found, member, bound⟩ := ih
      exact ⟨found, .tail _ member, bound⟩

theorem le_presence_renewed :
    expiresAt ≤ appPresenceExpiresAt (renewAppVisit visitId expiresAt assignment) := by
  obtain ⟨visit, member, bound⟩ := exists_renewed
  exact Nat.le_trans bound
    (expiresAt_le_presence (renewAppVisit visitId expiresAt assignment) member)

/-- A renewal lasts beyond the reading it was made by. -/
theorem touched_renewAppVisit (assignment : AppPoolAssignment) :
    Touched n assignment (renewAppVisit visitId (n + lease) assignment) :=
  ⟨rfl, rfl, rfl, Nat.le_trans (Nat.min_le_right _ _)
    (Nat.le_trans (Nat.le_add_right _ _) le_presence_renewed)⟩

/-- Where every visit was still unexpired, leaving one of them keeps a presence or starts the
grace. -/
theorem touched_leaveVisit (live : ∀ visit ∈ assignment.visits, n < visit.expiresAt) :
    Touched n assignment (leaveVisit policy visitId n assignment) := by
  refine ⟨rfl, rfl, rfl, Nat.le_trans (Nat.min_le_right _ _) ?_⟩
  rcases remaining : assignment.visits.filter fun item => item.visitId ≠ visitId with
    _ | ⟨visit, rest⟩
  · have grace : (leaveVisit policy visitId n assignment).graceUntil =
        some (n + policy.reconnectGraceMs) := if_pos remaining
    have bound := grace_le_presence (leaveVisit policy visitId n assignment)
    rw [grace] at bound
    exact Nat.le_trans (Nat.le_add_right _ _) bound
  · have inside : visit ∈ assignment.visits.filter fun item => item.visitId ≠ visitId := by
      rw [remaining]
      exact .head _
    exact Nat.le_trans (Nat.le_of_lt (live visit (List.mem_filter.mp inside).1))
      (expiresAt_le_presence (leaveVisit policy visitId n assignment) inside)

/-- Visits shortened to no earlier than `n`. -/
def Shortened (n : Nat) (visit visit' : VisitLease) : Prop :=
  visit'.visitId = visit.visitId ∧ min visit.expiresAt n ≤ visit'.expiresAt

theorem touched_shortened (shortened : List.Forall₂ (Shortened n) assignment.visits visits) :
    Touched n assignment { assignment with visits := visits } := by
  refine ⟨rfl, rfl, rfl, ?_⟩
  by_contra early
  have whole : appPresenceExpiresAt assignment ≤
      appPresenceExpiresAt { assignment with visits := visits } := by
    refine presence_le_iff.mpr
      ⟨grace_le_presence { assignment with visits := visits }, fun visit member => ?_⟩
    obtain ⟨visit', also, bound⟩ := shortened.mem_left member
    have later := expiresAt_le_presence { assignment with visits := visits } also
    have kept := bound.2
    omega
  omega

end Presence

/-! ## The router -/

variable {session : AppSessionId} {assignment : AppPoolAssignment}
  {member : AppPoolMember}

section Router

variable
  {pool : AppPool} {version : VersionId}

theorem edits_observeVersion :
    PoolEdits policy added taken n pool (observeVersion version (expireAppPresence n pool)) :=
  .head (.expire pool) (.tail (.single (.relabel _ _ (some version)))
    (.alter _ _ (altered_map altered_drainStale)))

/-- The session is new to the pool. -/
structure IsNew (session : AppSessionId) (pool : AppPool) : Prop where
  members : ∀ member ∈ pool.members, member.sessionId ≠ session
  assignments : ∀ assignment ∈ pool.assignments, assignment.sessionId ≠ session

theorem sessionId_settleIdle :
    (settleIdle now before after member).sessionId = member.sessionId := by
  rw [settleIdle]
  split <;> rfl

theorem sessionId_drainStale : (drainStale version member).sessionId = member.sessionId := by
  rw [drainStale]
  split <;> rfl

theorem sessionId_split (member : piece ∈ splitAssignment assignment) :
    piece.sessionId = assignment.sessionId := by
  rw [splitAssignment] at member
  split at member
  · obtain ⟨visit, _, rfl⟩ := List.mem_map.mp member
    rfl
  · rw [List.mem_singleton.mp member]

theorem kept_from (kept : assignment ∈ keptAssignments now pool) :
    ∃ old ∈ pool.assignments, ∃ piece ∈ splitAssignment old,
      assignment = dropExpiredVisits now piece ∧ isPresent now assignment = true ∧
        isLive now pool.members assignment.sessionId = true := by
  obtain ⟨inside, present⟩ := List.mem_filter.mp kept
  rw [Bool.and_eq_true] at present
  obtain ⟨piece, among, rfl⟩ := List.mem_map.mp inside
  obtain ⟨old, member, split⟩ := List.mem_flatMap.mp among
  exact ⟨old, member, piece, split, rfl, present⟩

theorem IsNew.expire (fresh : IsNew session pool) (now : Nat) :
    IsNew session (expireAppPresence now pool) := by
  constructor
  · intro member inside
    obtain ⟨old, listed, rfl⟩ := List.mem_map.mp inside
    rw [sessionId_settleIdle]
    exact fresh.members old listed
  · intro assignment inside
    obtain ⟨old, listed, piece, split, rfl, _⟩ := kept_from inside
    change piece.sessionId ≠ session
    rw [sessionId_split split]
    exact fresh.assignments old listed

theorem IsNew.observe (fresh : IsNew session pool) (version : VersionId) :
    IsNew session (observeVersion version pool) := by
  refine ⟨?_, fresh.assignments⟩
  intro member inside
  obtain ⟨old, listed, rfl⟩ := List.mem_map.mp inside
  rw [sessionId_drainStale]
  exact fresh.members old listed

theorem IsNew.unoccupied (fresh : IsNew session pool) :
    appOccupancy pool.assignments session = 0 := by
  rw [appOccupancy, List.countP_eq_zero]
  intro assignment inside
  simp [fresh.assignments assignment inside]

/-- A member as an admission reserves it. -/
structure IsReservation (version : VersionId) (member : AppPoolMember) : Prop where
  version : member.sourceVersionId = some version
  awake : member.idleSince = none

theorem firstSorted_mem (first : firstSorted before members = some member) : member ∈ members := by
  have among (rest : List AppPoolMember) (best : AppPoolMember) :
      rest.foldl (fun best next => if before next best then next else best) best ∈
        best :: rest := by
    induction rest generalizing best with
    | nil => exact .head _
    | cons next rest ih =>
      rw [List.foldl_cons]
      split
      · exact .tail _ (ih next)
      · rcases List.mem_cons.mp (ih best) with same | inside
        · rw [same]
          exact .head _
        · exact .tail _ (.tail _ inside)
  cases members with
  | nil => cases first
  | cons head rest =>
    cases first
    exact among rest head

theorem edits_reuseVisit (reading : input.now = n) :
    PoolEdits policy added taken n pool (reuseVisit policy input pool existing).pool := by
  have whole : (reuseVisit policy input pool existing).pool = { pool with
      assignments := modifyFirst (isVisit input.userId input.visitId)
        (renewAppVisit input.visitId (input.now + policy.userLeaseMs)) pool.assignments
      members := modifyFirst (fun member => member.sessionId = existing.sessionId) clearIdle
        pool.members } := by
    rw [reuseVisit]
    split <;> rfl
  rw [whole, reading]
  have renewed : List.Forall₂ (Touched n) pool.assignments
      (modifyFirst (isVisit input.userId input.visitId)
        (renewAppVisit input.visitId (n + policy.userLeaseMs)) pool.assignments) :=
    forall₂_modifyFirst touched_refl (fun assignment => touched_renewAppVisit assignment)
  exact .tail (.single (.touch pool _ renewed)) (.alter { pool with assignments := _ } _
    (forall₂_modifyFirst altered_refl altered_clearIdle))

theorem le_admissionLease : now ≤ admissionLease policy member now := by
  rw [admissionLease]
  split
  · exact Nat.le_trans (Nat.le_add_right _ _) (Nat.le_max_right _ _)
  · exact Nat.le_add_right _ _

theorem le_presence_admitted :
    input.now ≤ appPresenceExpiresAt (admittedAssignment policy input member) :=
  Nat.le_trans le_admissionLease
    (expiresAt_le_presence (admittedAssignment policy input member) (.head _))

theorem edits_assignTo (reading : input.now = n)
    (inside : member ∈ pool.members) (room : HasVisitRoom policy pool member.sessionId) :
    PoolEdits policy added taken n pool (assignTo policy input kind pool member).pool := by
  have found : pool.members.find? (fun item => item = member) = some member := by
    have present : (pool.members.find? fun item => decide (item = member)).isSome = true :=
      List.find?_isSome.mpr ⟨member, inside, decide_eq_true rfl⟩
    obtain ⟨other, first⟩ := Option.isSome_iff_exists.mp present
    have same := List.find?_some first
    rw [first, of_decide_eq_true same]
  refine .tail (.single (.alter pool
    (modifyFirst (fun item => item = member) clearIdle pool.members)
    (forall₂_modifyFirst altered_refl altered_clearIdle))) ?_
  exact .assign _ (clearIdle member) (admittedAssignment policy input member)
    (mem_modifyFirst_of_find found) rfl rfl rfl
    (reading ▸ le_presence_admitted) (.inr room)

theorem edits_routeApp (reading : input.now = n)
    (fresh : IsNew input.reservation.sessionId pool) (mine : added input.reservation.sessionId)
    (reservation : IsReservation input.versionId input.reservation) :
    PoolEdits service.policy added taken n pool (routeApp service pool input).pool := by
  have observed : PoolEdits service.policy added taken n pool
      (observeVersion input.versionId (expireAppPresence n pool)) := edits_observeVersion
  have unknown := (fresh.expire n).observe input.versionId
  rw [routeApp, reading]
  generalize observeVersion input.versionId (expireAppPresence n pool) = next at observed unknown
  cases existing : next.assignments.find? (isVisit input.userId input.visitId) with
  | some assignment => exact observed.trans (edits_reuseVisit reading)
  | none =>
    dsimp only
    cases available : firstSorted (sortsBefore service next.assignments)
        ((currentVersionMembers next input.versionId n).filter
          (hasVisitCapacity service.policy next.assignments)) with
    | some member =>
      obtain ⟨current, capacity⟩ := List.mem_filter.mp (firstSorted_mem available)
      refine observed.trans (edits_assignTo reading (List.mem_filter.mp current).1 ?_)
      intro limit given
      rw [hasVisitCapacity, given, Option.all_some, decide_eq_true_eq] at capacity
      exact .inl capacity
    | none =>
      dsimp only
      split
      · next capacity =>
        refine (observed.tail (.join next input.reservation mine unknown.members reservation.awake
          (.inr ?_))).trans (edits_assignTo reading (by simp) ?_)
        · intro version limit named given
          rw [reservation.version] at named
          cases named
          rw [hasSessionCapacity, given, Option.all_some, decide_eq_true_eq] at capacity
          exact ⟨.other 0, Nat.lt_of_le_of_lt (List.length_filter_le _ _) capacity⟩
        · exact fun _ _ => .inr unknown.unoccupied
      · exact observed

theorem edits_reserveAppReplacement {input : AppReplacement} (reading : input.now = n)
    (fresh : IsNew input.reservation.sessionId pool) (mine : added input.reservation.sessionId)
    (reservation : IsReservation input.versionId input.reservation) :
    PoolEdits policy added taken n pool (reserveAppReplacement policy pool input).pool := by
  have observed : PoolEdits policy added taken n pool
      (observeVersion input.versionId (expireAppPresence n pool)) := edits_observeVersion
  have unknown := (fresh.expire n).observe input.versionId
  rw [reserveAppReplacement, reading]
  generalize observeVersion input.versionId (expireAppPresence n pool) = next at observed unknown
  cases previous : (currentVersionMembers next input.versionId n).find?
      fun member => member.replacesSessionId = some input.replacesSessionId with
  | some member => exact observed
  | none =>
    dsimp only
    split
    · next capacity =>
      refine observed.tail (.join next
        { input.reservation with replacesSessionId := some input.replacesSessionId }
        mine unknown.members reservation.awake (.inr ?_))
      intro version limit named given
      rw [reservation.version] at named
      cases named
      rw [hasSessionCapacity, given, Option.all_some, decide_eq_true_eq] at capacity
      exact ⟨input.replacesSessionId, capacity⟩
    · exact observed

end Router

/-! ## The service -/

section Service

variable {policy : AppPoolPolicy} {added : AppSessionId → Prop} {taken : Nat → Prop} {n : Nat}
  {pool : AppPool}
  {assignments : List AppPoolAssignment}

theorem edit_retireFirst (p : AppPoolMember → Bool) (pool : AppPool) :
    PoolEdit policy added taken n pool
      { pool with members := modifyFirst p retireMember pool.members } :=
  .alter pool _ (forall₂_modifyFirst altered_refl altered_retireMember)

theorem edit_wakeMember (session : AppSessionId) (pool : AppPool) :
    PoolEdit policy added taken n pool (wakeMember session pool) :=
  .alter pool _ (forall₂_modifyFirst altered_refl altered_clearIdle)

theorem edit_bindSandbox : PoolEdit policy added taken n pool
      { pool with
        members := modifyFirst (isMember session) (bindSandbox sandboxId) pool.members } :=
  .alter pool _ (forall₂_modifyFirst altered_refl altered_bindSandbox)

theorem edit_completeMember (found : pool.members.find? (isMember session) = some member)
    (starting : member.state = .starting) (holds : n < member.operationExpiresAt) :
    PoolEdit policy added taken n pool
      { pool with
        members := modifyFirst (isMember session) (completeMember pool) pool.members } := by
  refine .alter pool _ (forall₂_modifyFirst_of_find altered_refl ?_)
  intro other first
  cases found.symm.trans first
  exact altered_completeMember starting holds

/-- The record is left as it is, or the member goes with its assignments. -/
theorem edit_releasePool (session : AppSessionId) (token : OperationToken) (pool : AppPool) :
    releasePool session token pool = pool ∨
      ∀ n, PoolEdit policy added taken n pool (releasePool session token pool) := by
  rw [releasePool]
  split
  · exact .inl rfl
  · split
    · refine .inr fun n => .remove pool _ session List.eraseP_sublist ?_
      intro member inside erased
      by_contra other
      have kept : ¬ isMember session member = true := by simp [isMember, other]
      exact erased ((List.mem_eraseP_of_neg kept).mpr inside)
    · exact .inl rfl

theorem edits_invalidatePool :
    PoolEdits policy added taken n pool (invalidatePool session pool) := by
  have vacated : PoolEdit policy added taken n
      { pool with members := modifyFirst (isMember session) retireMember pool.members } _ :=
    .vacate _ fun other => other = session
  refine .tail (.single (edit_retireFirst (isMember session) pool)) ?_
  simpa [invalidatePool] using vacated

theorem edits_tombstone :
    PoolEdits policy added taken n pool { pool with
      deletedAt := some deletedAt
      members := pool.members.map retireMember
      assignments := [] } := by
  have vacated : PoolEdit policy added taken n
      { pool with deletedAt := some deletedAt, members := pool.members.map retireMember } _ :=
    .vacate _ fun _ => true
  refine .tail (.tail (.single (.relabel pool (some deletedAt) pool.latestVersionId))
    (.alter _ (pool.members.map retireMember) (altered_map altered_retireMember))) ?_
  simpa using vacated

theorem edit_renewPresence :
    PoolEdit policy added taken n pool (renewPresence policy userId session visit n pool) :=
  .touch pool _ (forall₂_modifyFirst touched_refl touched_renewAppVisit)

theorem le_presence_legacy (userId : UserId) (session : AppSessionId) (generation : Nat) :
    n ≤ appPresenceExpiresAt (legacyAssignment policy userId session generation n) :=
  Nat.le_trans (Nat.le_add_right _ _) le_presence_renewed

theorem edits_registerLegacy (found : pool.members.find? (isPresentMember session) = some member)
    (legacy : member.legacy = true) :
    PoolEdits policy added taken n pool (wakeMember session { pool with
      assignments := pool.assignments ++
        [legacyAssignment policy userId session generation n] }) := by
  have present := List.find?_some found
  simp only [isPresentMember, Bool.and_eq_true, decide_eq_true_eq] at present
  refine .tail (.single (edit_wakeMember session pool)) ?_
  exact .assign (wakeMember session pool) (clearIdle member)
    (legacyAssignment policy userId session generation n)
    (mem_modifyFirst_of_find found) rfl present.1.symm rfl
    (le_presence_legacy userId session generation) (.inl legacy)

theorem edits_recordPresence : PoolEdits policy added taken n pool
      (recordPresence policy userId session visit legacyVisit n pool assignment).pool := by
  have renewed : PoolEdits policy added taken n pool
      (wakeMember session (renewPresence policy userId session visit n pool)) :=
    .tail (.single edit_renewPresence) (edit_wakeMember session _)
  rw [recordPresence]
  split
  · split
    · exact renewed
    · exact .refl
  · split
    · exact renewed
    · exact .single (edit_wakeMember session pool)

theorem live_of_kept {visit : VisitLease} (kept : assignment ∈ keptAssignments n pool)
    (member : visit ∈ assignment.visits) : n < visit.expiresAt := by
  obtain ⟨old, _, piece, _, rfl, _⟩ := kept_from kept
  exact of_decide_eq_true (List.mem_filter.mp member).2

theorem edits_leavePool {visit : AppVisit} : PoolEdits policy added taken n pool
      (leavePool policy userId session visit n (expireAppPresence n pool)) := by
  have expired : PoolEdits policy added taken n pool (expireAppPresence n pool) :=
    .single (.expire pool)
  rw [leavePool]
  split
  · exact expired
  · split
    · refine expired.tail (.touch _ _ (forall₂_modifyFirst_of_find touched_refl ?_))
      intro item first
      exact touched_leaveVisit fun other member =>
        live_of_kept (List.mem_of_find?_eq_some first) member
    · exact expired

/-! Removing a member before presence is expired drops its assignments, because it is not live. -/

theorem lastPresence_filter (different : session ≠ other) :
    lastPresence (assignments.filter fun item => item.sessionId ≠ other) session =
      lastPresence assignments session := by
  have same : (assignments.filter fun item => item.sessionId ≠ other).filter
      (fun item => item.sessionId = session) =
      assignments.filter fun item => item.sessionId = session := by
    rw [List.filter_filter]
    refine List.filter_congr fun item _ => ?_
    by_cases here : item.sessionId = session <;> simp [here, different]
  rw [lastPresence, lastPresence, same]

theorem flatMap_split_filter :
    (assignments.filter fun item => item.sessionId ≠ session).flatMap splitAssignment =
      (assignments.flatMap splitAssignment).filter fun item => item.sessionId ≠ session := by
  induction assignments with
  | nil => rfl
  | cons item rest ih =>
    rw [List.flatMap_cons, List.filter_append, ← ih]
    by_cases here : item.sessionId = session
    · have gone : (splitAssignment item).filter (fun piece => piece.sessionId ≠ session) = [] := by
        rw [List.filter_eq_nil_iff]
        intro piece member
        simp [sessionId_split member, here]
      rw [gone, List.nil_append, List.filter_cons_of_neg (by simp [here])]
    · have whole : (splitAssignment item).filter (fun piece => piece.sessionId ≠ session) =
          splitAssignment item := by
        rw [List.filter_eq_self]
        intro piece member
        simp [sessionId_split member, here]
      rw [whole, List.filter_cons_of_pos (by simp [here]), List.flatMap_cons]

section

variable (absent : ∀ member ∈ pool.members, member.sessionId ≠ session)
include absent

theorem kept_dropped :
    keptAssignments now { pool with
      assignments := pool.assignments.filter fun item => item.sessionId ≠ session } =
      keptAssignments now pool := by
  have dead : isLive now pool.members session = false := by
    simp only [isLive, List.any_eq_false, decide_eq_true_eq]
    exact fun member inside live => absent member inside live.2
  rw [keptAssignments, keptAssignments]
  rw [flatMap_split_filter, List.filter_map, List.filter_map, List.filter_filter]
  refine congrArg _ (List.filter_congr fun item _ => ?_)
  by_cases here : item.sessionId = session
  · have same : (dropExpiredVisits now item).sessionId = session := here
    simp [same, dead]
  · simp [here]

theorem expire_dropped :
    expireAppPresence now { pool with
      assignments := pool.assignments.filter fun item => item.sessionId ≠ session } =
      expireAppPresence now pool := by
  rw [expireAppPresence, kept_dropped absent]
  rw [flatMap_split_filter]
  congr 1
  refine List.map_congr_left fun member inside => ?_
  rw [settleIdle, settleIdle, lastPresence_filter (absent member inside)]

end

theorem edits_removeMember : PoolEdits policy added taken n pool (expireAppPresence n { pool with
      members := pool.members.filter fun member => member.sessionId ≠ session }) := by
  have absent : ∀ member ∈ pool.members.filter (fun member => member.sessionId ≠ session),
      member.sessionId ≠ session := by
    intro member inside
    simpa using (List.mem_filter.mp inside).2
  rw [← expire_dropped absent]
  refine .tail (.single (.remove pool _ session List.filter_sublist ?_)) (.expire _)
  intro member inside removed
  by_contra other
  exact removed (List.mem_filter.mpr ⟨inside, decide_eq_true other⟩)

end Service

end MarimoHub.Guarantees.AppPools
