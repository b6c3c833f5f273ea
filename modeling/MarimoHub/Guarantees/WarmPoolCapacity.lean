import MarimoHub.Guarantees.WarmPool

/-!
# What leaves the warm pool, and how far it grows

A member leaves the record only after its sandbox was destroyed or the session it was handed to
was found done with it. No write gives a pool more creating and ready members than it had or than
its replica is configured for; a sweep trims the pools before it reserves creations, so after a
reservation every pool is within its size, whatever the record held before.
-/

namespace MarimoHub.Guarantees

open ObjectStore Source Prog

/-! ## Runs -/

variable {b key : String} {member : WarmPoolMember} {config : WarmPoolConfig}
  {past : Trace WarmStore} {i : Nat}

section Runs

variable {calls : Nat → WarmCall} {size : String → Nat}

theorem record_written (history : History a seeds (fun i => (calls i).start) c)
    (moment : x :: past <:+ c.trace) (mine : x.thread = some i) (effect : x.effect b = some new) :
    ∃ v, new = some v ∧ (calls i).service.backend = b ∧
      Kept (calls i).service (own i past) (recordAt b past) v := by
  obtain ⟨v, cond, r, rfl, shape, applied, rfl, old, read, _, _, kept⟩ := written_under
    (history.guarantee (fun i => warmCall_keeps_rule) moment mine) effect False.elim
  have current := read.current (history.accepted.suffix moment) shape applied
  exact ⟨v, rfl, rfl, current ▸ kept⟩

/-- Every pool of the record is within its size. -/
def WithinSize (size : String → Nat) (record : WarmPoolRecord) : Prop :=
  ∀ pool ∈ record.pools, spareCount pool ≤ size pool.key

theorem targetSize_le (sized : ∀ key ∈ desiredKeys config, config.size ≤ size key) :
    targetSize config key ≤ size key := by
  unfold targetSize
  split
  · next desired => exact sized key desired
  · exact Nat.zero_le _

theorem WithinSize.step (within : WithinSize size old)
    (spare : SpareBound config old new) (sized : ∀ key ∈ desiredKeys config, config.size ≤ size
      key) : WithinSize size new := by
  intro pool inside
  rcases spare pool inside with ⟨before, listed, named, fewer⟩ | target
  · rw [← named]
    exact Nat.le_trans fewer (within before listed)
  · exact Nat.le_trans target (targetSize_le sized)

/-- The moment a sweep learnt that the pools are trimmed. -/
theorem Trimmed.held (trimmed : Trimmed b config (own i past))
    (history : History a seeds (fun i => (calls i).start) c) (initial : Seeds a seeds)
    (inside : past <:+ c.trace) (sized : ∀ key ∈ desiredKeys config, config.size ≤ size key) :
    ∃ u, seeds <:+ u ∧ u <:+ past ∧ WithinSize size (recordAt b u) := by
  have accepted := history.accepted.suffix inside
  rcases trimmed with absent | ⟨record, tag, issued, bounded⟩
  · obtain ⟨e, q, moment, mine, shape⟩ := exists_own_mem absent
    have gone := ((accepted.at moment).responds_of shape).1
    refine ⟨q, history.after_seeds initial (moment.trans inside) mine, moment.past, ?_⟩
    rw [recordAt, gone]
    intro pool none
    cases none
  · have within : WithinSize size record := fun pool inside =>
      Nat.le_trans (bounded pool inside) (targetSize_le sized)
    rcases issued with read | ⟨cond, wrote⟩
    · obtain ⟨e, q, moment, mine, shape⟩ := exists_own_mem read
      refine ⟨q, history.after_seeds initial (moment.trans inside) mine, moment.past, ?_⟩
      rw [recordAt, ((accepted.at moment).tagged shape).1]
      exact within
    · obtain ⟨e, q, moment, mine, shape⟩ := exists_own_mem wrote
      refine ⟨e :: q, (history.after_seeds initial (moment.trans inside) mine).trans
        (List.suffix_cons e q), moment, ?_⟩
      rw [recordAt_of_effect q (v := record) (by
        simp [effect_put shape, ((accepted.at moment).responds_of shape).2.2])]
      exact within

theorem withinSize_lasts (history : History a seeds (fun i => (calls i).start) c)
    (sized : ∀ i, ∀ key ∈ desiredKeys (calls i).service.config, (calls i).service.config.size ≤
      size key) (based : seeds <:+ u) (above : u <:+ t) (inside : t <:+ c.trace)
    (within : WithinSize size (recordAt b u)) : WithinSize size (recordAt b t) := by
  refine lasts (P := fun t => WithinSize size (recordAt b t)) above within ?_
  intro x past moment above within
  have earlier := moment.trans inside
  obtain ⟨i, mine⟩ := history.thread_of_moment earlier (based.trans above)
  cases effect : x.effect b with
  | none =>
    rw [recordAt_of_no_effect past effect]
    exact within
  | some new =>
    obtain ⟨v, rfl, _, kept⟩ := record_written history earlier mine effect
    rw [recordAt_of_effect past effect]
    exact within.step kept.spare (sized i)

end Runs

/-- The sandbox was destroyed, and the provider said so. -/
def DestroyedBefore (id : SandboxId) (past : Trace WarmStore) : Prop :=
  ∃ x ∈ past, x.toEv = ⟨.ask (.destroy id), .ok ()⟩

/-- The entry, identified by its sandbox and claim, was handed to a session; after it was read as
such, the session was found to have reclaimed the sandbox, or to be gone. -/
def SessionFoundDone (b : String) (member : WarmPoolMember) (past : Trace WarmStore) : Prop :=
  ∃ u key seen destination x q, u <:+ q ∧ (key, seen) ∈ (recordAt b u).entries ∧
    seen.sandboxId = member.sandboxId ∧ seen.token = member.token ∧
    seen.destination = some destination ∧ (x :: q) <:+ past ∧
    ((∃ session : Session,
        x.toEv = ⟨.ask (.getSession destination.project destination.session), .ok session⟩ ∧
        session.sandboxId = some member.sandboxId ∧ session.sandboxReclaimedAt ≠ none) ∨
      ∃ err : HubError, err.isNotFound = true ∧ seen.assigned = true ∧
        x.toEv = ⟨.ask (.getSession destination.project destination.session), .error err⟩)

theorem SessionDone.found (done : SessionDone b member (own i past))
    (accepted : Along (Accepts a) past) : SessionFoundDone b member past := by
  obtain ⟨key, seen, destination, answer, later, earlier, split, saw, named, tokened, claimed,
    why⟩ := done
  obtain ⟨x, q, moment, _, shape, before⟩ := exists_own (split ▸ List.suffix_append later _)
  rw [← before] at saw
  obtain ⟨u, inside, listed⟩ := saw.held (accepted.suffix moment).2
  refine ⟨u, key, seen, destination, x, q, inside, listed, named, tokened, claimed, moment, ?_⟩
  rcases why with ⟨session, rfl, holds, reclaimed⟩ | ⟨err, rfl, missing, assigned⟩
  · exact .inl ⟨session, shape, holds, reclaimed⟩
  · exact .inr ⟨err, missing, assigned, shape⟩

/-- In every run of any number of reservations, handoffs, abandonments and sweeps with their fills,
from any stored records: when a write takes a member's entry out of the record, its sandbox was
destroyed before or its session found done with it; and when a write reserves creations, every
pool of the record is within the size the replicas are configured with. -/
theorem warm_members_kept_within_size (a : Adapter WarmStore) (seeds : Trace WarmStore)
    (initial : Seeds a seeds) (calls : Nat → WarmCall) (size : String → Nat)
    (sized : ∀ i, ∀ key ∈ desiredKeys (calls i).service.config,
      (calls i).service.config.size ≤ size key)
    (c : Config WarmStore HubError (Option WarmPoolClaim))
    (reach : Reaches a ⟨seeds, fun i => (calls i).start⟩ c) (b : String) (x : Event WarmStore)
    (past : Trace WarmStore) (moment : (x :: past) <:+ c.trace) (based : seeds <:+ past)
    (v : WarmPoolRecord) (wrote : x.effect b = some (some v)) :
    (∀ key member, (key, member) ∈ (recordAt b past).entries →
      (∀ e ∈ v.entries, e.2.sandboxId ≠ member.sandboxId) →
      DestroyedBefore member.sandboxId past ∨ SessionFoundDone b member past) ∧
    ((recordAt b past).entries.countP isCreating < v.entries.countP isCreating →
      ∀ pool ∈ v.pools, pool.members.countP isSpare ≤ size pool.key) := by
  have history := reach.history initial
  obtain ⟨i, mine⟩ := history.thread_of_moment moment based
  have inside := moment.past
  obtain ⟨v', same, rfl, kept⟩ := record_written history moment mine wrote
  cases same
  refine ⟨?_, ?_⟩
  · intro key member listed gone
    rcases kept.removed key member listed gone with destroyed | done
    · obtain ⟨y, q, earlier, _, shape⟩ := exists_own_mem destroyed
      exact .inl ⟨y, earlier.subset (.head _), shape⟩
    · exact .inr (done.found (history.accepted.suffix inside))
  · intro more
    obtain ⟨u, above, below, within⟩ :=
      (kept.reserved more).held history initial inside (sized i)
    have here := withinSize_lasts history sized above below inside within
    exact here.step kept.spare (sized i)

/-! ## A creation that fails -/

namespace FailedCreation

def adapter : Adapter WarmStore := ⟨fun _ version => version, 1⟩

def service : WarmPoolService where
  backend := "b"
  config := ⟨true, 1, [{ key := "p" }], 10, 0, none⟩

def start : Config WarmStore HubError (Option WarmPoolClaim) :=
  ⟨[], fun _ => (WarmCall.sweep service).start⟩

/-- The sweep reserves a creation. -/
def reservation : List (Move WarmStore) :=
  turns 0 0 [.ok, .ok, .ok, .ok, .ok, .id 1, .id 2, .ok]

/-- The boot fails; the member is retired, its sandbox destroyed and its entry removed. -/
def removal : List (Move WarmStore) :=
  turns 0 1 [.answer (.boot 1 { key := "p" }) .failed, .ok, .ok, .ok, .ok, .ok, .ok,
    .answer (.destroy 1) (.ok ()), .ok, .ok]

def created : WarmPoolMember :=
  { sandboxId := 1, state := .creating, token := 2, createdAt := 0, readyUntil := 1800000,
    operationUntil := 10 }

/-- The record after the reservation, before the removal and after it. -/
def reserved : WarmPoolRecord := ⟨[{ key := "p", members := [created] }]⟩
def retired : WarmPoolRecord := ⟨[⟨"p", 1, 5001, [{ created with state := .retiring }]⟩]⟩
def emptied : WarmPoolRecord := ⟨[⟨"p", 1, 5001, []⟩]⟩

/-- The records before and after the last event, when it is a write. -/
def lastWrite : Trace WarmStore → Option (WarmPoolRecord × WarmPoolRecord)
  | [] => none
  | x :: past =>
    match x.effect "b" with
    | some (some v) => some (recordAt "b" past, v)
    | _ => none

theorem lastWrite_some (last : lastWrite t = some (old, v)) :
    ∃ x past, t = x :: past ∧ x.effect "b" = some (some v) ∧ recordAt "b" past = old := by
  cases t with
  | nil => cases last
  | cons x past =>
    rw [lastWrite] at last
    split at last
    · next wrote =>
      cases last
      exact ⟨x, past, rfl, wrote, rfl⟩
    · cases last

end FailedCreation

open FailedCreation

/-- A sweep reserves one creation, which keeps the pool within its size; the creation fails and
its entry leaves the record after its sandbox was destroyed. -/
theorem failed_creation_removed : ∃ c, Reaches adapter start c ∧ lastWrite (c.trace.drop 10) =
        some ({}, reserved) ∧ (∀ pool ∈ reserved.pools, pool.members.countP isSpare ≤ 1) ∧
      recordAt "b" c.trace = emptied ∧ (DestroyedBefore 1 c.trace ∨
        SessionFoundDone "b" { created with state := .retiring } c.trace) := by
  obtain ⟨c, reach, observed⟩ := Config.play_any adapter start (reservation ++ removal)
    (fun c => lastWrite (c.trace.drop 10) = some ({}, reserved) ∧ lastWrite c.trace =
        some (retired, emptied)) (by decide)
  obtain ⟨reserved, removed⟩ := observed
  have sized (_ : Nat) : ∀ key ∈ desiredKeys (WarmCall.sweep service).service.config,
      (WarmCall.sweep service).service.config.size ≤ 1 := fun _ _ => Nat.le_refl 1
  obtain ⟨x, past, first, wrote, before⟩ := lastWrite_some reserved
  obtain ⟨y, q, last, wrote', before'⟩ := lastWrite_some removed
  have within := (warm_members_kept_within_size adapter [] (Seeds.empty _) _
    (fun _ => 1) sized c reach "b" x past (first ▸ List.drop_suffix 10 c.trace) List.nil_suffix _
    wrote).2
  have gone := (warm_members_kept_within_size adapter [] (Seeds.empty _) _
    (fun _ => 1) sized c reach "b" y q (last ▸ List.suffix_rfl) List.nil_suffix _ wrote').1
  rw [before] at within
  rw [before'] at gone
  refine ⟨c, reach, reserved, ?_, ?_, ?_⟩
  · exact within (by decide)
  · rw [last, recordAt_of_effect q wrote']
  · have done := gone "p" { created with state := .retiring } (by decide) (by decide)
    have later : q <:+ c.trace := last ▸ List.suffix_cons y q
    rcases done with ⟨e, member, shape⟩ | ⟨u, key, seen, destination, e, p, rest⟩
    · exact .inl ⟨e, later.subset member, shape⟩
    · obtain ⟨inside, listed, named, tokened, claimed, moment, why⟩ := rest
      exact .inr ⟨u, key, seen, destination, e, p, inside, listed, named, tokened, claimed,
        moment.trans later, why⟩

end MarimoHub.Guarantees
