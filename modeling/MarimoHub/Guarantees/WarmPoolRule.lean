import Mathlib.Data.List.Perm.Basic
import MarimoHub.ObjectStore.Record
import MarimoHub.Source.WarmPool

/-!
# What the warm pool's calls do to its record

Every call alone. A write of the record moves members along their states in place, drops a
member that was seen retiring or whose session is done with it, adds members under identifiers
drawn for them, or puts back a creation that left the record (`PoolRule`). A sandbox is destroyed
only after its member was seen retiring. No write gives a pool more creating and ready members
than it had or than its replica is configured for (`Kept`).
-/

namespace MarimoHub.Guarantees

open ObjectStore Source Prog

inductive WarmCall where
  | reserve (service : WarmPoolService) (request : ClaimRequest)
  | claim (service : WarmPoolService) (request : ClaimRequest)
  | probe (service : WarmPoolService) (claim : WarmPoolClaim)
  | handoff (service : WarmPoolService) (claim : WarmPoolClaim)
  | abandon (service : WarmPoolService) (claim : WarmPoolClaim)
  | sweep (service : WarmPoolService)

def WarmCall.service : WarmCall → WarmPoolService
  | .reserve service _ => service
  | .claim service _ => service
  | .probe service _ => service
  | .handoff service _ => service
  | .abandon service _ => service
  | .sweep service => service

/-- What a reservation yields; the other calls answer nothing. -/
def WarmCall.start : WarmCall → Hub WarmStore (Option WarmPoolClaim)
  | .reserve service request => Source.reserve service request
  | .claim service request => Source.claim service request
  | .probe service held => do Source.probe service held; pure none
  | .handoff service held => do Source.handoff service held; pure none
  | .abandon service held => do Source.abandon service held; pure none
  | .sweep service => do Source.sweep service; pure none

/-- The call abandons the claim that `member` stands for. -/
def WarmCall.Abandons (call : WarmCall) (member : WarmPoolMember) : Prop :=
  ∃ service held, call = .abandon service held ∧
    held.member.sandboxId = member.sandboxId ∧ held.member.token = member.token

/-- Whose writes a rule is about: which creations the client may put back, and which new members
it may add. -/
structure Upkeep where
  call : WarmCall
  founded : Log WarmStore → String → SandboxId → Prop
  creates : Log WarmStore → WarmPoolRecord → WarmPoolRecord → Prop

abbrev Upkeep.service (u : Upkeep) : WarmPoolService := u.call.service

/-! ## Members and records -/

/-- The states a member passes through, in order. -/
def stage : MemberState → Nat
  | .creating => 0
  | .ready => 1
  | .claimed => 2
  | .retiring => 3

/-- What one write may do to a member. -/
inductive MemberStep (call : WarmCall) (member : WarmPoolMember) : WarmPoolMember → Prop where
  | same : MemberStep call member member
  | advanced (next : WarmPoolMember) : next.sandboxId = member.sandboxId →
      stage member.state ≤ stage next.state → stage member.state < stage .claimed →
      MemberStep call member next
  | assigned : MemberStep call member { member with assigned := true }
  | retired : (member.assigned = true → call.Abandons member) →
      MemberStep call member { member with state := .retiring }

variable {member next current : WarmPoolMember} {key : String} {members : List WarmPoolMember}
  {pool : WarmPool} {pools : List WarmPool} {id : SandboxId} {call : WarmCall}

theorem MemberStep.id_eq (step : MemberStep call member next) :
    next.sandboxId = member.sandboxId := by
  cases step with
  | same => rfl
  | advanced _ same => exact same
  | assigned => rfl
  | retired => rfl

theorem stage_le_retiring : stage state ≤ stage .retiring := by
  cases state <;> decide

/-- No write takes a member back to an earlier state. -/
theorem MemberStep.stage_le (step : MemberStep call member next) :
    stage member.state ≤ stage next.state := by
  cases step with
  | same => exact Nat.le_refl _
  | advanced _ _ forward => exact forward
  | assigned => exact Nat.le_refl _
  | retired => exact stage_le_retiring

abbrev Entry : Type := String × WarmPoolMember

/-- The entries of two records correspond, each within its pool. -/
def InPlace (R : WarmPoolMember → WarmPoolMember → Prop) : List Entry → List Entry → Prop :=
  List.Forall₂ fun e e' => e'.1 = e.1 ∧ R e.2 e'.2

section Entries

variable {R : WarmPoolMember → WarmPoolMember → Prop} {old new : List Entry}
  {record : WarmPoolRecord} {rest : List WarmPool}

theorem entries_cons : (WarmPoolRecord.mk (pool :: rest)).entries =
      pool.members.map (pool.key, ·) ++ (WarmPoolRecord.mk rest).entries := rfl

theorem inPlace_refl (reflexive : ∀ m, R m m) : InPlace R entries entries :=
  List.forall₂_same.mpr fun e _ => ⟨rfl, reflexive e.2⟩

theorem inPlace_pool (steps : List.Forall₂ R members members') :
    InPlace R (members.map (key, ·)) (members'.map (key, ·)) := by
  rw [InPlace, List.forall₂_map_left_iff, List.forall₂_map_right_iff]
  exact steps.imp fun _ _ step => ⟨rfl, step⟩

theorem inPlace_append (first : InPlace R left left')
    (second : InPlace R right right') : InPlace R (left ++ right) (left' ++ right') :=
  List.rel_append first second

/-- Every entry of the new record comes from one of the old. -/
theorem InPlace.source (steps : InPlace R old new) (member : (key, next) ∈ new) :
    ∃ current, (key, current) ∈ old ∧ R current next := by
  obtain ⟨⟨_, current⟩, found, rfl, step⟩ := steps.mem_right member
  exact ⟨current, found, step⟩

/-- Every entry of the old record is still there, changed or not. -/
theorem InPlace.target (steps : InPlace R old new) (member : (key, current) ∈ old) :
    ∃ next, (key, next) ∈ new ∧ R current next := by
  obtain ⟨⟨_, next⟩, found, rfl, step⟩ := steps.mem_left member
  exact ⟨next, found, step⟩

theorem getOrCreate_key (record : WarmPoolRecord) (key : String) :
    (getOrCreateWarmPool record key).key = key := by
  unfold getOrCreateWarmPool
  cases found : record.pools.find? fun pool => pool.key = key with
  | none => rfl
  | some pool => simpa using List.find?_some found

/-- A stored pool takes the place of the pool that the lookup finds, or comes last. -/
theorem setWarmPool_split (pool : WarmPool) (pools : List WarmPool) : ∃ front behind,
    (∀ other ∈ front, other.key ≠ pool.key) ∧ setWarmPool pool pools = front ++ pool :: behind ∧
      (pools = front ++ getOrCreateWarmPool ⟨pools⟩ pool.key :: behind ∨
        pools = front ∧ behind = [] ∧ (getOrCreateWarmPool ⟨pools⟩ pool.key).members = []) := by
  induction pools with
  | nil => exact ⟨[], [], by simp, rfl, .inr ⟨rfl, rfl, rfl⟩⟩
  | cons head rest ih =>
    rw [setWarmPool]
    by_cases same : head.key = pool.key
    · exact ⟨[], rest, by simp, by simp [same], by simp [getOrCreateWarmPool, same]⟩
    · obtain ⟨front, behind, others, set, before⟩ := ih
      have found : getOrCreateWarmPool ⟨head :: rest⟩ pool.key =
          getOrCreateWarmPool ⟨rest⟩ pool.key := by simp [getOrCreateWarmPool, same]
      refine ⟨head :: front, behind, List.forall_mem_cons.mpr ⟨same, others⟩,
        by simp [same, set], ?_⟩
      rw [found]
      exact before.imp (congrArg _) fun both => ⟨congrArg _ both.1, both.2⟩

/-- Storing a pool replaces one block of entries. -/
theorem entries_split (pools : List WarmPool) (named : pool.key = key) : ∃ before behind,
    (WarmPoolRecord.mk pools).entries =
      before ++ ((getOrCreateWarmPool ⟨pools⟩ key).members.map (key, ·) ++ behind) ∧
    (WarmPoolRecord.mk (setWarmPool pool pools)).entries =
      before ++ (pool.members.map (key, ·) ++ behind) := by
  subst named
  obtain ⟨front, behind, _, set, found⟩ := setWarmPool_split pool pools
  refine ⟨(WarmPoolRecord.mk front).entries, (WarmPoolRecord.mk behind).entries, ?_, ?_⟩
  · have keyed := getOrCreate_key ⟨pools⟩ pool.key
    generalize getOrCreateWarmPool ⟨pools⟩ pool.key = old at found keyed ⊢
    rcases found with rfl | ⟨rfl, rfl, empty⟩
    · simp [WarmPoolRecord.entries, keyed]
    · simp [WarmPoolRecord.entries, empty]
  · simp [set, WarmPoolRecord.entries]

theorem entries_setWarmPool (reflexive : ∀ m, R m m) (named : pool.key = key)
    (steps : List.Forall₂ R (getOrCreateWarmPool ⟨pools⟩ key).members pool.members) :
    InPlace R (WarmPoolRecord.mk pools).entries
      (WarmPoolRecord.mk (setWarmPool pool pools)).entries := by
  obtain ⟨before, behind, was, is⟩ := entries_split pools named
  rw [was, is]
  exact inPlace_append (inPlace_refl reflexive)
    (inPlace_append (inPlace_pool steps) (inPlace_refl reflexive))

/-- A pool stored with further members adds their entries and no others. -/
theorem entries_pushed (named : pool.key = key)
    (pushed : pool.members = (getOrCreateWarmPool ⟨pools⟩ key).members ++ added) :
    (WarmPoolRecord.mk (setWarmPool pool pools)).entries.Perm
      (added.map (key, ·) ++ (WarmPoolRecord.mk pools).entries) := by
  obtain ⟨before, behind, was, is⟩ := entries_split pools named
  rw [was, is, pushed, List.map_append, List.append_assoc, ← List.append_assoc before,
    ← List.append_assoc before, ← List.append_assoc (added.map _),
    ← List.append_assoc (before ++ _)]
  exact List.perm_append_comm.append_right _

theorem mem_entries_setWarmPool (inside : member ∈ pool.members) :
    (pool.key, member) ∈ (WarmPoolRecord.mk (setWarmPool pool pools)).entries := by
  obtain ⟨before, behind, _, is⟩ := entries_split pools (rfl : pool.key = _)
  simp [is, inside]

/-- The lookup of a key finds the pool that was stored under it. -/
theorem getOrCreate_setWarmPool (pool : WarmPool) (pools : List WarmPool) :
    getOrCreateWarmPool ⟨setWarmPool pool pools⟩ pool.key = pool := by
  obtain ⟨front, behind, others, set, _⟩ := setWarmPool_split pool pools
  have none : (front.find? fun other => other.key = pool.key) = none := by simpa using others
  simp [getOrCreateWarmPool, set, none]

theorem mem_entries_of_pool (inside : member ∈ (getOrCreateWarmPool ⟨pools⟩ key).members) :
    (key, member) ∈ (WarmPoolRecord.mk pools).entries := by
  unfold getOrCreateWarmPool at inside
  cases found : pools.find? fun pool => pool.key = key with
  | none => simp [found] at inside
  | some pool =>
    simp only [found] at inside
    have named : pool.key = key := by simpa using List.find?_some found
    refine List.mem_flatMap.mpr ⟨pool, List.mem_of_find?_eq_some found, ?_⟩
    exact List.mem_map.mpr ⟨member, inside, by rw [named]⟩

/-- Only the member that the lookup finds is replaced. -/
theorem forall₂_replaceFirst (reflexive : ∀ m, R m m)
    (found : (members.find? fun m => m.sandboxId = id) = some current) (step : R current next) :
    List.Forall₂ R members (replaceFirst id next members) := by
  induction members with
  | nil => simp at found
  | cons head rest ih =>
    rw [replaceFirst]
    by_cases same : head.sandboxId = id
    · simp only [List.find?_cons, same, decide_true, Option.some.injEq] at found
      rw [if_pos same, found]
      exact .cons step (List.forall₂_same.mpr fun m _ => reflexive m)
    · simp only [List.find?_cons, same] at found
      rw [if_neg same]
      exact .cons (reflexive head) (ih found)

theorem mem_replaceFirst (found : (members.find? fun m => m.sandboxId = id) = some current) :
    next ∈ replaceFirst id next members := by
  induction members with
  | nil => simp at found
  | cons head rest ih =>
    rw [replaceFirst]
    by_cases same : head.sandboxId = id
    · rw [if_pos same]
      exact .head _
    · simp only [List.find?_cons, same] at found
      rw [if_neg same]
      exact .tail _ (ih found)

theorem findMember_cons : findMember ⟨pool :: rest⟩ id =
      (pool.members.find? fun m => m.sandboxId = id).or (findMember ⟨rest⟩ id) := by
  rw [findMember, List.flatMap_cons, List.find?_append]
  rfl

theorem findMember_id (found : findMember record id = some current) : current.sandboxId = id := by
  simpa using List.find?_some found

theorem findMember_entry (found : findMember record id = some current) :
    ∃ key, (key, current) ∈ record.entries := by
  obtain ⟨pool, listed, inside⟩ := List.mem_flatMap.mp (List.mem_of_find?_eq_some found)
  exact ⟨pool.key, List.mem_flatMap.mpr ⟨pool, listed, List.mem_map.mpr ⟨current, inside, rfl⟩⟩⟩

/-- A member is replaced in the first pool that lists its sandbox. -/
theorem replaceMember_split (next : WarmPoolMember) (found : findMember ⟨pools⟩ id = some current) :
    ∃ front pool behind, pools = front ++ pool :: behind ∧
      (pool.members.find? fun m => m.sandboxId = id) = some current ∧ replaceMember id next pools =
        front ++ { pool with members := replaceFirst id next pool.members } :: behind := by
  induction pools with
  | nil => simp [findMember] at found
  | cons pool rest ih =>
    rw [findMember_cons] at found
    rw [replaceMember]
    cases here : pool.members.find? fun m => m.sandboxId = id with
    | some m =>
      have same : m = current := by simpa [here] using found
      have any : pool.members.any (fun m => m.sandboxId = id) = true :=
        List.any_eq_true.mpr
          ⟨m, List.mem_of_find?_eq_some here, by simpa using List.find?_some here⟩
      exact ⟨[], pool, rest, rfl, here.trans (congrArg _ same), by simp [any]⟩
    | none =>
      have any : ¬ pool.members.any (fun m => m.sandboxId = id) = true := by
        intro some
        obtain ⟨m, inside, named⟩ := List.any_eq_true.mp some
        exact List.find?_eq_none.mp here m inside named
      obtain ⟨front, other, behind, rfl, first, replaced⟩ := ih (by simpa [here] using found)
      exact ⟨pool :: front, other, behind, rfl, first, by rw [if_neg any, replaced]; rfl⟩

theorem entries_replaceMember (reflexive : ∀ m, R m m)
    (found : findMember ⟨pools⟩ id = some current) (step : R current next) :
    InPlace R (WarmPoolRecord.mk pools).entries
        (WarmPoolRecord.mk (replaceMember id next pools)).entries ∧
      ∃ key, (key, next) ∈ (WarmPoolRecord.mk (replaceMember id next pools)).entries := by
  obtain ⟨front, pool, behind, rfl, here, replaced⟩ := replaceMember_split next found
  rw [replaced]
  simp only [WarmPoolRecord.entries, List.flatMap_append]
  refine ⟨inPlace_append (inPlace_refl reflexive) (inPlace_append
    (inPlace_pool (forall₂_replaceFirst reflexive here step)) (inPlace_refl reflexive)),
      pool.key, ?_⟩
  simp [mem_replaceFirst here]

/-- A removal drops the entries with the member's sandbox and token, in every pool. -/
theorem entries_without (member : WarmPoolMember) (pools : List WarmPool) :
    (WarmPoolRecord.mk (pools.map (withoutMember member))).entries =
      (WarmPoolRecord.mk pools).entries.filter fun e =>
        e.2.sandboxId ≠ member.sandboxId ∨ e.2.token ≠ member.token := by
  induction pools with
  | nil => rfl
  | cons pool rest ih =>
    rw [List.map_cons, entries_cons, entries_cons, ih, List.filter_append, List.filter_map]
    rfl

/-- A change of every pool that keeps its key changes the entries in place. -/
theorem entries_map (named : ∀ pool, (change pool).key = pool.key)
    (steps : ∀ pool, List.Forall₂ R pool.members (change pool).members) :
    InPlace R (WarmPoolRecord.mk pools).entries (WarmPoolRecord.mk (pools.map change)).entries := by
  induction pools with
  | nil => exact .nil
  | cons pool rest ih =>
    rw [List.map_cons, entries_cons, entries_cons, named]
    exact inPlace_append (inPlace_pool (steps pool)) ih

/-- Distinct pools keep distinct keys. -/
def Tidy (old new : WarmPoolRecord) : Prop :=
  (old.pools.map WarmPool.key).Nodup → (new.pools.map WarmPool.key).Nodup

theorem tidy_map (named : ∀ pool, (f pool).key = pool.key) : Tidy record ⟨record.pools.map f⟩ := by
  intro distinct
  rw [List.map_map]
  exact (congrArg List.Nodup (List.map_congr_left fun pool _ => named pool)).mpr distinct

theorem tidy_replaceMember : Tidy record ⟨replaceMember id next record.pools⟩ := by
  have same (pools : List WarmPool) :
      (replaceMember id next pools).map WarmPool.key = pools.map WarmPool.key := by
    induction pools with
    | nil => rfl
    | cons pool rest ih =>
      rw [replaceMember]
      split
      · rfl
      · rw [List.map_cons, ih, List.map_cons]
  intro distinct
  exact (congrArg List.Nodup (same record.pools)).mpr distinct

theorem mem_setWarmPool (inside : pool' ∈ setWarmPool pool pools) :
    pool' = pool ∨ pool' ∈ pools := by
  obtain ⟨front, behind, _, set, found⟩ := setWarmPool_split pool pools
  generalize getOrCreateWarmPool ⟨pools⟩ pool.key = old at found
  rcases found with rfl | ⟨rfl, rfl, _⟩ <;> simp [set] at inside ⊢ <;> tauto

theorem tidy_setWarmPool : Tidy record ⟨setWarmPool pool record.pools⟩ := by
  obtain ⟨pools⟩ := record
  obtain ⟨front, behind, others, set, found⟩ := setWarmPool_split pool pools
  have keyed := getOrCreate_key ⟨pools⟩ pool.key
  generalize getOrCreateWarmPool ⟨pools⟩ pool.key = old at found keyed
  intro distinct
  rw [set]
  rcases found with rfl | ⟨rfl, rfl, _⟩
  · simpa [keyed] using distinct
  · rw [List.map_append, List.nodup_append]
    exact ⟨distinct, List.nodup_singleton _, by simpa using others⟩

/-- Where the keys are distinct the lookup misses no entry. -/
theorem mem_pool_of_entries (distinct : (pools.map WarmPool.key).Nodup)
    (listed : (key, member) ∈ (WarmPoolRecord.mk pools).entries) :
    member ∈ (getOrCreateWarmPool ⟨pools⟩ key).members := by
  induction pools with
  | nil => simp [WarmPoolRecord.entries] at listed
  | cons head rest ih =>
    rw [List.map_cons, List.nodup_cons] at distinct
    rcases List.mem_append.mp listed with here | later
    · obtain ⟨_, inside, same⟩ := List.mem_map.mp here
      cases same
      simpa [getOrCreateWarmPool] using inside
    · have other : head.key ≠ key := by
        rintro rfl
        obtain ⟨pool, among, within⟩ := List.mem_flatMap.mp later
        obtain ⟨_, _, same⟩ := List.mem_map.mp within
        exact distinct.1 (List.mem_map.mpr ⟨pool, among, congrArg Prod.fst same⟩)
      simpa only [getOrCreateWarmPool, List.find?_cons, other, decide_false]
        using ih distinct.2 later

end Entries

/-! ## The rule -/

def IsPut (ev : Ev WarmStore) : Prop := ∃ k v c r, ev = ⟨.put k v c, r⟩

/-- The client was given a record with this entry. -/
def Saw (b key : String) (member : WarmPoolMember) (es : Log WarmStore) : Prop :=
  ∃ record tag, Issued b record tag es ∧ (key, member) ∈ record.entries

variable (b : String)

/-- The record a write under condition `c` replaces. -/
def ReadFor (old : WarmPoolRecord) (c : Cond WarmStore) (es : Log WarmStore) : Prop :=
  (∃ tag, c = .ifMatch tag ∧ ⟨.get b, .found old tag⟩ ∈ es) ∨ (c = .ifAbsent ∧ old = {})

/-- The session the member was claimed for has reclaimed its sandbox, or is gone. -/
def Released (id : SandboxId) (token : Nat) (es : Log WarmStore) : Prop :=
  ∃ key member destination, Saw b key member es ∧ member.sandboxId = id ∧ member.token = token ∧
    member.destination = some destination ∧
    ((∃ session : Session, session.sandboxId = some id ∧ session.sandboxReclaimedAt ≠ none ∧
        ⟨.ask (.getSession destination.project destination.session), .ok session⟩ ∈ es) ∨
      ∃ err : HubError, err.isNotFound = true ∧
        ⟨.ask (.getSession destination.project destination.session), .error err⟩ ∈ es)

/-- The client saw the member retiring. -/
def SawRetiring (id : SandboxId) (es : Log WarmStore) : Prop :=
  ∃ key member, Saw b key member es ∧ member.sandboxId = id ∧ member.state = .retiring

variable (config : WarmPoolConfig) (service : WarmPoolService) (es : Log WarmStore)

/-- The client's own write added a member under an identifier it had drawn for it. -/
def Founded (key : String) (id : SandboxId) : Prop :=
  ∃ v c tag pre rest later member,
    es = later ++ ⟨.put b v c, .ok tag⟩ :: (pre ++ ⟨.mint, id⟩ :: rest) ∧
      (∀ ev ∈ pre, ¬ IsPut ev) ∧ (key, member) ∈ v.entries ∧ member.sandboxId = id

section

variable (call : WarmCall) (b : String) (founded : String → SandboxId → Prop)
  (es : Log WarmStore) (old new : WarmPoolRecord)

/-- What a write may do besides adding new members. -/
inductive Change : Prop where
  | stepped : InPlace (MemberStep call) old.entries new.entries → Change
  | dropped (member : WarmPoolMember) :
      SawRetiring b member.sandboxId es ∨ Released b member.sandboxId member.token es →
      new.entries = old.entries.filter (fun e =>
        e.2.sandboxId ≠ member.sandboxId ∨ e.2.token ≠ member.token) →
      Change
  | restored (key : String) (member : WarmPoolMember) : member.state = .retiring →
      founded key member.sandboxId →
      (∀ m ∈ (getOrCreateWarmPool old key).members, m.sandboxId ≠ member.sandboxId) →
      new.entries.Perm ((key, member) :: old.entries) → Change

end

/-- New members, under identifiers drawn since the client's last write. -/
def CreatesMembers (old new : WarmPoolRecord) : Prop :=
  ∃ pre rest added, es = pre ++ rest ∧ (∀ ev ∈ pre, ¬ IsPut ev) ∧
    new.entries.Perm (added ++ old.entries) ∧
    (added.map fun e => e.2.sandboxId).reverse.Sublist (drawn pre)

def spareCount (pool : WarmPool) : Nat := pool.members.countP isSpare

/-- How many members a replica wants in a pool. -/
def targetSize (key : String) : Nat :=
  if key ∈ desiredKeys config then config.size else 0

def isCreating (entry : Entry) : Bool := entry.2.state = .creating

/-- The client read a claimed member and then learnt that its session has reclaimed the sandbox,
or, after the handoff, that the session is gone. -/
def SessionDone (member : WarmPoolMember) (es : Log WarmStore) : Prop :=
  ∃ key seen destination answer later earlier,
    es = later ++ ⟨.ask (.getSession destination.project destination.session), answer⟩ :: earlier ∧
    Saw b key seen earlier ∧ seen.sandboxId = member.sandboxId ∧ seen.token = member.token ∧
    seen.destination = some destination ∧
    ((∃ session : Session, answer = .ok session ∧ session.sandboxId = some member.sandboxId ∧
        session.sandboxReclaimedAt ≠ none) ∨
      ∃ err : HubError, answer = .error err ∧ err.isNotFound = true ∧ seen.assigned = true)

def LetGo (member : WarmPoolMember) (es : Log WarmStore) : Prop :=
  ⟨.ask (.destroy member.sandboxId), .ok ()⟩ ∈ es ∨ SessionDone b member es

/-- The client knows a moment at which no pool was above its target. -/
def Trimmed : Prop :=
  ⟨.get b, .absent⟩ ∈ es ∨ ∃ record tag, Issued b record tag es ∧
    ∀ pool ∈ record.pools, spareCount pool ≤ targetSize config pool.key

/-- No pool gets more spare members than a pool of its key had, or than the replica wants. -/
def SpareBound (old new : WarmPoolRecord) : Prop :=
  ∀ pool ∈ new.pools, (∃ before ∈ old.pools, before.key = pool.key ∧
    spareCount pool ≤ spareCount before) ∨ spareCount pool ≤ targetSize config pool.key

structure Kept (old new : WarmPoolRecord) : Prop where
  removed : ∀ key member, (key, member) ∈ old.entries →
    (∀ e ∈ new.entries, e.2.sandboxId ≠ member.sandboxId) → LetGo service.backend member es
  spare : SpareBound service.config old new
  reserved : old.entries.countP isCreating < new.entries.countP isCreating →
    Trimmed service.backend service.config es

def UpkeepRule (u : Upkeep) (es : Log WarmStore) : Op WarmStore → Prop
  | .put k v c => k = u.service.backend ∧ ∃ old, ReadFor u.service.backend old c es ∧ Tidy old v ∧
      (Change u.call u.service.backend (u.founded es) es old v ∨ u.creates es old v) ∧
      Kept u.service es old v
  | .delete _ => False
  | .ask (.destroy id) => SawRetiring u.service.backend id es
  | _ => True

def PoolRule (call : WarmCall) : Rule WarmStore :=
  UpkeepRule ⟨call, Founded call.service.backend, CreatesMembers⟩

/-- The rule of a fill: it adds nothing but creations that were `founded`. -/
def RefillRule (call : WarmCall) (founded : String → SandboxId → Prop) :
    Rule WarmStore :=
  UpkeepRule ⟨call, fun _ => founded, fun _ _ _ => False⟩

variable {es es' : Log WarmStore}
  {b : String} {config : WarmPoolConfig} {service : WarmPoolService} {call : WarmCall}
  {record old new : WarmPoolRecord} {founded : String → SandboxId → Prop}

theorem Saw.sublist (saw : Saw b key member es) (inside : es.Sublist es') :
    Saw b key member es' := by
  obtain ⟨record, tag, issued, listed⟩ := saw
  exact ⟨record, tag, issued.mono inside.subset, listed⟩

theorem SawRetiring.sublist (saw : SawRetiring b id es) (inside : es.Sublist es') :
    SawRetiring b id es' := by
  obtain ⟨key, member, seen, named, retiring⟩ := saw
  exact ⟨key, member, seen.sublist inside, named, retiring⟩

theorem Released.sublist (released : Released b id token es)
    (inside : es.Sublist es') : Released b id token es' := by
  obtain ⟨key, member, destination, seen, named, tokened, claimed, told⟩ := released
  refine ⟨key, member, destination, seen.sublist inside, named, tokened, claimed, ?_⟩
  rcases told with ⟨session, holds, reclaimed, answered⟩ | ⟨err, missing, answered⟩
  · exact .inl ⟨session, holds, reclaimed, inside.subset answered⟩
  · exact .inr ⟨err, missing, inside.subset answered⟩

theorem ReadFor.sublist (read : ReadFor b old c es) (inside : es.Sublist es') :
    ReadFor b old c es' := by
  rcases read with ⟨tag, cond, found⟩ | empty
  · exact .inl ⟨tag, cond, inside.subset found⟩
  · exact .inr empty

theorem Change.mono (change : Change call b founded es old new) (inside : es.Sublist es')
    (grows : ∀ key id, founded key id → founded' key id) : Change call b founded' es' old new := by
  cases change with
  | stepped steps => exact .stepped steps
  | dropped member why same =>
    exact .dropped member (why.imp (·.sublist inside) (·.sublist inside)) same
  | restored key member retiring own absent same =>
    exact .restored key member retiring (grows _ _ own) absent same

/-- The answer still comes after the read it is about. -/
theorem SessionDone.sublist (done : SessionDone b member es)
    (inside : es.Sublist es') : SessionDone b member es' := by
  obtain ⟨key, seen, destination, answer, later, earlier, rfl, saw, facts⟩ := done
  obtain ⟨newer, older, rfl, _, below⟩ := List.append_sublist_iff.mp inside
  obtain ⟨top, bottom, rfl, found, rest⟩ := List.cons_sublist_iff.mp below
  obtain ⟨first, second, rfl⟩ := List.append_of_mem found
  refine ⟨key, seen, destination, answer, newer ++ first, second ++ bottom, by simp, ?_, facts⟩
  exact saw.sublist (rest.trans (List.sublist_append_right _ _))

theorem LetGo.sublist (letGo : LetGo b member es) (inside : es.Sublist es') : LetGo b member es' :=
  letGo.imp (fun destroyed => inside.subset destroyed) (·.sublist inside)

theorem Trimmed.sublist (trimmed : Trimmed b config es)
    (inside : es.Sublist es') : Trimmed b config es' := by
  rcases trimmed with absent | ⟨record, tag, issued, bounded⟩
  · exact .inl (inside.subset absent)
  · exact .inr ⟨record, tag, issued.mono inside.subset, bounded⟩

theorem Kept.sublist (kept : Kept service es old new) (inside : es.Sublist es') :
    Kept service es' old new where
  removed key member listed gone := (kept.removed key member listed gone).sublist inside
  spare := kept.spare
  reserved more := (kept.reserved more).sublist inside

/-- A fill keeps to every rule for its call that counts its creations as founded. -/
theorem RefillRule.upkeep (rule : RefillRule call founded es o) (inside : es.Sublist es')
    (grows : ∀ key id, founded key id → founded' es' key id) :
    UpkeepRule ⟨call, founded', creates⟩ es' o := by
  cases o with
  | put k v c =>
    obtain ⟨same, old, read, tidy, change | none, kept⟩ := rule
    · exact ⟨same, old, read.sublist inside, tidy, .inl (change.mono inside grows),
        kept.sublist inside⟩
    · exact none.elim
  | delete k => exact rule
  | ask q =>
    cases q with
    | destroy id => exact SawRetiring.sublist rule inside
    | _ => trivial
  | _ => trivial

/-- What a fill may do does not depend on what else is done side by side with it. -/
theorem refillRule_sublist (es es' : Log WarmStore) (o : Op WarmStore)
    (inside : es.Sublist es') (rule : RefillRule call founded es o) :
    RefillRule call founded es' o :=
  RefillRule.upkeep rule inside fun _ _ own => own

theorem Founded.grow (founded : Founded b es key id) (grown : es <:+ es') :
    Founded b es' key id := by
  obtain ⟨more, rfl⟩ := grown
  obtain ⟨v, c, tag, pre, rest, later, member, rfl, facts⟩ := founded
  exact ⟨v, c, tag, pre, rest, more ++ later, member, by simp, facts⟩

/-- A fill begun after `past` keeps to the rule of the whole call. -/
theorem poolRule_of_refillRule (grown : past <:+ es)
    (rule : RefillRule call (Founded call.service.backend past) es o) : PoolRule call es o :=
  RefillRule.upkeep rule (List.Sublist.refl es) fun _ _ own => own.grow grown

/-! ## What keeps to the rule -/

/-- A write that adds no new members and keeps to the rule. -/
structure Allowed (call : WarmCall) (service : WarmPoolService)
    (founded : String → SandboxId → Prop) (es : Log WarmStore) (old new : WarmPoolRecord) :
    Prop where
  change : Change call service.backend founded es old new
  kept : Kept service es old new

theorem isSpare_iff : isSpare member = true ↔ stage member.state ≤ 1 := by
  unfold isSpare
  cases member.state <;> decide

/-- No member becomes spare again. -/
theorem MemberStep.spare (step : MemberStep call member next) (spare : isSpare next = true) :
    isSpare member = true :=
  isSpare_iff.mpr (Nat.le_trans step.stage_le (isSpare_iff.mp spare))

theorem countP_le_of_forall₂ {old new : List α}
    (back : ∀ x y, R x y → p y = true → p x = true) (steps : List.Forall₂ R old new) :
    new.countP p ≤ old.countP p := by
  induction steps with
  | nil => exact Nat.le_refl _
  | @cons x y _ _ step _ ih =>
    rw [List.countP_cons, List.countP_cons]
    by_cases after : p y = true
    · rw [if_pos after, if_pos (back x y step after)]
      omega
    · rw [if_neg after]
      omega

/-- A write that changes members in place lets none go and reserves none. -/
theorem allowed_of_steps (steps : InPlace (MemberStep call) old.entries new.entries)
    (spare : SpareBound service.config old new) : Allowed call service founded es old new where
  change := .stepped steps
  kept.removed key member listed gone := by
    obtain ⟨next, inside, step⟩ := steps.target listed
    exact absurd step.id_eq (gone _ inside)
  kept.spare := spare
  kept.reserved more := by
    have fewer : new.entries.countP isCreating ≤ old.entries.countP isCreating := by
      refine countP_le_of_forall₂ ?_ steps
      rintro x y ⟨_, step⟩ creating
      have state : y.2.state = .creating := of_decide_eq_true creating
      have forward := step.stage_le
      rw [state] at forward
      refine decide_eq_true ?_
      cases before : x.2.state <;> rw [before] at forward <;> first | rfl | simp [stage] at forward
    omega

theorem spareCount_le (steps : List.Forall₂ (MemberStep call) pool.members members) :
    members.countP isSpare ≤ spareCount pool :=
  countP_le_of_forall₂ (fun _ _ => MemberStep.spare) steps

theorem spareCount_replaceMember (step : MemberStep call current next)
    (found : findMember ⟨pools⟩ id = some current) : ∀ pool ∈ replaceMember id next pools,
      ∃ before ∈ pools, before.key = pool.key ∧ spareCount pool ≤ spareCount before := by
  obtain ⟨front, changed, behind, rfl, first, replaced⟩ := replaceMember_split next found
  intro pool inside
  rw [replaced] at inside
  simp only [List.mem_append, List.mem_cons] at inside ⊢
  rcases inside with early | rfl | late
  · exact ⟨pool, .inl early, rfl, Nat.le_refl _⟩
  · exact ⟨changed, .inr (.inl rfl), rfl,
      spareCount_le (forall₂_replaceFirst (fun _ => .same) first step)⟩
  · exact ⟨pool, .inr (.inr late), rfl, Nat.le_refl _⟩

theorem allowed_replaceMember (found : findMember record id = some current)
    (step : MemberStep call current next) :
    Allowed call service founded es record ⟨replaceMember id next record.pools⟩ :=
  allowed_of_steps (entries_replaceMember (fun _ => .same) found step).1
    fun pool inside => .inl (spareCount_replaceMember step found pool inside)

theorem getOrCreate_mem : getOrCreateWarmPool record key ∈ record.pools ∨
      (getOrCreateWarmPool record key).members = [] := by
  unfold getOrCreateWarmPool
  cases found : record.pools.find? fun pool => pool.key = key with
  | none => exact .inr rfl
  | some pool => exact .inl (List.mem_of_find?_eq_some found)

/-- A pool that was not stored before had no spare members. -/
theorem spareBound_setWarmPool (named : pool.key = key)
    (fewer : spareCount pool ≤ spareCount (getOrCreateWarmPool record key)) :
    SpareBound config record ⟨setWarmPool pool record.pools⟩ := by
  intro other inside
  rcases mem_setWarmPool inside with rfl | listed
  · rcases getOrCreate_mem with listed | empty
    · exact .inl ⟨_, listed, (getOrCreate_key record key).trans named.symm, fewer⟩
    · have none : spareCount (getOrCreateWarmPool record key) = 0 := by
        rw [spareCount, empty, List.countP_nil]
      exact .inr (Nat.le_trans fewer (none ▸ Nat.zero_le _))
  · exact .inl ⟨other, listed, rfl, Nat.le_refl _⟩

theorem allowed_setWarmPool (named : pool.key = key)
    (steps : List.Forall₂ (MemberStep call) (getOrCreateWarmPool record key).members pool.members) :
    Allowed call service founded es record ⟨setWarmPool pool record.pools⟩ :=
  allowed_of_steps (entries_setWarmPool (fun _ => .same) named steps)
    (spareBound_setWarmPool named (spareCount_le steps))

/-- Failure counts and retry times are free to change. -/
theorem allowed_bookkeeping (named : pool.key = key)
    (same : pool.members = (getOrCreateWarmPool record key).members) :
    Allowed call service founded es record ⟨setWarmPool pool record.pools⟩ := by
  refine allowed_setWarmPool named ?_
  rw [same]
  exact List.forall₂_same.mpr fun _ _ => .same

/-- A creation of its own that left the record is put back, retiring. -/
theorem allowed_restored (mine : founded key member.sandboxId)
    (absent : ∀ m ∈ (getOrCreateWarmPool record key).members, m.sandboxId ≠ member.sandboxId) :
    Allowed call service founded es record ⟨setWarmPool { getOrCreateWarmPool record key with
        members := (getOrCreateWarmPool record key).members ++
          [{ member with state := .retiring }] } record.pools⟩ := by
  have named : ({ getOrCreateWarmPool record key with
      members := (getOrCreateWarmPool record key).members ++
        [{ member with state := .retiring }] } : WarmPool).key = key := getOrCreate_key record key
  have pushed := entries_pushed named rfl
  refine ⟨.restored key { member with state := .retiring } rfl mine absent pushed, ?_, ?_, ?_⟩
  · intro k m listed gone
    exact absurd rfl (gone (k, m) (pushed.symm.subset (List.mem_append_right _ listed)))
  · refine spareBound_setWarmPool named (Nat.le_of_eq ?_)
    simp [spareCount, isSpare]
  · intro more
    rw [pushed.countP_eq] at more
    simp [isCreating] at more

/-- A creation that was claimed meanwhile is left alone. -/
theorem allowed_reclaimPool (mine : founded key member.sandboxId) :
    Allowed call service founded es record
      ⟨setWarmPool (reclaimPool member (getOrCreateWarmPool record key)) record.pools⟩ := by
  have named := getOrCreate_key record key
  unfold reclaimPool
  split
  · next absent =>
    refine allowed_restored mine ?_
    intro m inside same
    exact List.find?_eq_none.mp absent m inside (decide_eq_true same)
  · next current found =>
    split
    · next passed =>
      refine allowed_setWarmPool named (forall₂_replaceFirst (fun _ => .same) found ?_)
      obtain ⟨_, unclaimed⟩ := passed
      by_cases retiring : current.state = .retiring
      · have same : { current with state := .retiring } = current := by rw [← retiring]
        rw [same]
        exact .same
      · refine .advanced _ rfl stage_le_retiring ?_
        cases stated : current.state with
        | creating => decide
        | ready => decide
        | claimed => exact absurd stated unclaimed
        | retiring => exact absurd stated retiring
    · exact allowed_bookkeeping named rfl

/-- A retiring or released member may go, if nothing goes with it that was not let go of. -/
theorem allowed_without (why : SawRetiring service.backend member.sandboxId es ∨
      Released service.backend member.sandboxId member.token es)
    (letGo : ∀ m : WarmPoolMember, m.sandboxId = member.sandboxId → m.token = member.token →
      LetGo service.backend m es) :
    Allowed call service founded es record ⟨record.pools.map (withoutMember member)⟩ := by
  have entries := entries_without member record.pools
  refine ⟨.dropped member why entries, ?_, ?_, ?_⟩
  · intro key m listed gone
    by_cases same : m.sandboxId = member.sandboxId ∧ m.token = member.token
    · exact letGo m same.1 same.2
    · have stays :
        (key, m) ∈ (WarmPoolRecord.mk (record.pools.map (withoutMember member))).entries := by
        rw [entries]
        refine List.mem_filter.mpr ⟨listed, decide_eq_true ?_⟩
        by_cases named : m.sandboxId = member.sandboxId
        · exact .inr fun tokened => same ⟨named, tokened⟩
        · exact .inl named
      exact absurd rfl (gone _ stays)
  · intro pool inside
    obtain ⟨before, listed, rfl⟩ := List.mem_map.mp inside
    exact .inl ⟨before, listed, rfl, List.Sublist.countP_le List.filter_sublist⟩
  · intro more
    have fewer : (WarmPoolRecord.mk (record.pools.map (withoutMember member))).entries.countP
        isCreating ≤ record.entries.countP isCreating := by
      rw [entries]
      exact List.Sublist.countP_le List.filter_sublist
    omega

/-- A trim retires spare members and changes no others. -/
theorem forall₂_retireExcess (excess : Nat) (members : List WarmPoolMember) :
    List.Forall₂ (MemberStep call) members (retireExcess excess members) := by
  induction members generalizing excess with
  | nil => exact .nil
  | cons member rest ih =>
    rw [retireExcess]
    split
    · next spare =>
      refine .cons (.advanced _ rfl stage_le_retiring ?_) (ih _)
      rcases of_decide_eq_true spare.2 with stated | stated <;> rw [stated] <;> decide
    · exact .cons .same (ih _)

/-- As many are retired as are in excess. -/
theorem countP_retireExcess :
    (retireExcess excess members).countP isSpare = members.countP isSpare - excess := by
  induction members generalizing excess with
  | nil => simp [retireExcess]
  | cons member rest ih =>
    rw [retireExcess]
    split
    · next spare =>
      have retired : isSpare { member with state := .retiring } = false := by simp [isSpare]
      rw [List.countP_cons_of_neg (by simp [retired]), ih, List.countP_cons_of_pos spare.2]
      omega
    · next kept =>
      by_cases spare : isSpare member = true
      · have zero : excess = 0 := by
          by_contra some
          exact kept ⟨Nat.pos_of_ne_zero some, spare⟩
        subst zero
        rw [List.countP_cons_of_pos spare, ih, List.countP_cons_of_pos spare]
        rfl
      · rw [List.countP_cons_of_neg spare, ih, List.countP_cons_of_neg spare]

/-- A trimmed pool is within its target and no larger than it was. -/
theorem spareCount_trimPool : spareCount (trimPool config pool) ≤ targetSize config pool.key ∧
      spareCount (trimPool config pool) ≤ spareCount pool := by
  have count : spareCount (trimPool config pool) =
      spareCount pool - (spareCount pool - targetSize config pool.key) :=
    countP_retireExcess
  omega

theorem allowed_trim :
    Allowed call service founded es record ⟨record.pools.map (trimPool config)⟩ := by
  refine allowed_of_steps (entries_map (fun _ => rfl) fun pool =>
    forall₂_retireExcess _ pool.members) ?_
  intro pool inside
  obtain ⟨before, listed, rfl⟩ := List.mem_map.mp inside
  exact .inl ⟨before, listed, rfl, spareCount_trimPool.2⟩

end MarimoHub.Guarantees
