import MarimoHub.ObjectStore.Record
import MarimoHub.Source.MaintenanceLock

/-!
# Exclusion of the maintenance lease

A call writes leases of its own holder only, and takes another holder's place only after it saw
the clock past the end of that holder's lease (`lockWriter`). So the last lease a holder wrote is
the stored one or has expired (`lease_stored_or_expired`): whoever is told that it holds the lock
took it when no other holder's lease was running (`one_running_lease`). A release is a lease that
ends when it is written.
-/

namespace MarimoHub.Guarantees.Maintenance

open ObjectStore Source Source.Maintenance Prog

/-! ## One call -/

/-- Another holder's lease is replaced only by an acquisition that saw the clock past its end. -/
def lockWriter (call : LockCall) : Writer LockStore where
  creates _ v cond := cond = .ifAbsent ∧ ∃ expiresAt, v = some ⟨call.holder, expiresAt⟩
  changes es old v := (∃ expiresAt, v = some ⟨call.holder, expiresAt⟩) ∧
    ∀ current, old = some current → current.holder ≠ call.holder →
      (∃ ttlMs, call = .acquire call.holder ttlMs) ∧
        ∃ now, ⟨.now, now⟩ ∈ es ∧ current.expiresAt ≤ now
  removes _ := False

/-- The last thing a call did was to write a lease, and the write was acknowledged. -/
def LeaseWritten (holder : String) (es : Log LockStore) : Prop :=
  ∃ expiresAt cond tag rest, es = ⟨.put () (some ⟨holder, expiresAt⟩) cond, .ok tag⟩ :: rest

theorem run_writes : Emits ((lockWriter call).Allows ()) (yields fun told es =>
      told = true → LeaseWritten call.holder es) call.run past := by
  have created (es : Log LockStore) (expiresAt : Nat) :
      (lockWriter call).Allows () es (.put () (some ⟨call.holder, expiresAt⟩) .ifAbsent) :=
    fun _ => ⟨rfl, expiresAt, rfl⟩
  cases call with
  | acquire holder ttlMs =>
    simp only [LockCall.run, tryAcquire, tryCreate, putIfAbsent, emits_bind, emits_dateNow,
      andThen_ok, emits_tryCatch, emits_bucketPut]
    refine ⟨trivial, fun now => ⟨created _ _, fun tag _ => ⟨_, _, tag, _, rfl⟩, ?_, trivial⟩⟩
    simp only [andThen_error, orElse_error, emits_pure, andThen_ok,
      Bool.false_eq_true, if_false, emits_bind, emits_bucketGet]
    refine ⟨trivial, fun v etag => ?_, ?_, trivial⟩
    · have replaced (es : Log LockStore) (read : ⟨.get (), .found v etag⟩ ∈ es)
          (taken : ∀ lease, v = some lease → lease.holder ≠ holder →
            ∃ now, ⟨.now, now⟩ ∈ es ∧ lease.expiresAt ≤ now) :
          Emits ((lockWriter (.acquire holder ttlMs)).Allows ()) (yields fun told es =>
            told = true → LeaseWritten holder es) (replaceLease ⟨holder, now + ttlMs⟩ etag) es := by
        simp only [replaceLease, emits_tryCatch, emits_bind, emits_bucketPut]
        exact ⟨fun _ => ⟨v, .inl read, ⟨_, rfl⟩, fun lease same other =>
            ⟨⟨ttlMs, rfl⟩, taken lease same other⟩⟩,
          fun tag _ => ⟨_, _, tag, _, rfl⟩, by rintro ⟨⟩, trivial⟩
      cases v with
      | none => exact replaced _ (by simp) (by rintro _ ⟨⟩)
      | some lease =>
        by_cases same : lease.holder = holder
        · simp only [heldByOther, if_pos same]
          exact replaced _ (by simp) (by rintro _ ⟨⟩ other; exact absurd same other)
        · simp only [andThen_ok, emits_bind, heldByOther, if_neg same, emits_dateNow]
          refine ⟨trivial, fun seen => ?_⟩
          by_cases running : seen < lease.expiresAt
          · simp [running, yields]
          · simp only [running]
            refine replaced _ (by simp) ?_
            rintro _ ⟨⟩ _
            exact ⟨seen, by simp, Nat.le_of_not_lt running⟩
    · simp only [emits_tryCatch, emits_bind, emits_bucketPut]
      exact ⟨created _ _, fun tag _ => ⟨_, _, tag, _, rfl⟩, by rintro ⟨⟩, trivial⟩
  | release holder aborted =>
    simp only [LockCall.run, release, emits_bind, emits_bucketGet]
    refine ⟨trivial, fun v etag => ?_, by rintro ⟨⟩, trivial⟩
    cases v with
    | none => rintro ⟨⟩
    | some lease =>
      simp only [andThen_ok]
      rw [emits_ite]
      refine ⟨fun _ => by rintro ⟨⟩, fun goes => ?_⟩
      obtain ⟨_, mine⟩ := not_or.mp goes
      simp only [emits_bind, emits_dateNow, andThen_ok, ignoringErrors,
        emits_tryCatch, emits_bucketPut]
      refine ⟨trivial, fun now => ⟨fun _ => ⟨some lease, .inl (by simp), ⟨now, rfl⟩, ?_⟩,
        fun _ => by rintro ⟨⟩, by rintro ⟨⟩, by rintro ⟨⟩⟩⟩
      rintro _ ⟨⟩ other
      exact absurd other mine

/-! ## Whole runs -/

variable {i : Nat}

section Runs

variable {a : Adapter LockStore} {seeds past : Trace LockStore} {calls : Nat → LockCall}
  {c : Config LockStore HubError Bool} {x : Event LockStore} {holder : String}

/-- The lease a client's event stored. -/
def leaseStored (x : Event LockStore) : Option LockRecord :=
  if x.thread = none then none else (x.effect ()).join.join

/-- When the last lease that was written for a holder ends. -/
def lastLease (holder : String) : Trace LockStore → Option Nat
  | [] => none
  | x :: past => (((leaseStored x).filter (·.holder = holder)).map LockRecord.expiresAt).or
      (lastLease holder past)

theorem at_write (history : History a seeds (fun i => (calls i).run) c)
    (moment : x :: past <:+ c.trace) (mine : x.thread = some i) (effect : x.effect () = some new) :
    (∃ expiresAt, new = some (some ⟨(calls i).holder, expiresAt⟩)) ∧
      ∀ current, lookup () past = some (some current) → current.holder ≠ (calls i).holder →
        (∃ ttlMs, calls i = .acquire (calls i).holder ttlMs) ∧ current.expiresAt ≤ x.time := by
  have accepted := history.accepted.suffix moment
  have allows := history.guarantee (fun i => run_writes) moment mine
  have did := Writer.at_effect accepted allows effect
  generalize x.op = o at did
  cases did with
  | created v cond writes absent =>
    obtain ⟨rfl, expiresAt, rfl⟩ := writes
    refine ⟨⟨expiresAt, rfl⟩, fun current found => ?_⟩
    rw [show lookup () past = none from absent] at found
    cases found
  | changed old v tag found changes =>
    obtain ⟨⟨expiresAt, rfl⟩, takes⟩ := changes
    refine ⟨⟨expiresAt, rfl⟩, fun current stored other => ?_⟩
    rw [found] at stored
    obtain ⟨acquires, now, read, gone⟩ := takes current (Option.some.inj stored) other
    obtain ⟨g, q, earlier, _, shape⟩ := exists_own_mem read
    have clock : now = g.time := ((accepted.2.at earlier).responds_of shape).1
    have order := time_le accepted earlier List.suffix_rfl
    exact ⟨acquires, by omega⟩
  | removed never => exact never.elim

theorem lastLease_seeds (initial : Seeds a seeds) : lastLease holder seeds = none := by
  have anonymous := initial.anonymous
  clear initial
  induction seeds with
  | nil => rfl
  | cons x past ih =>
    have rest := ih fun e member => anonymous e (.tail _ member)
    simp [lastLease, leaseStored, anonymous x (.head _), rest]

/-- The last lease written for a holder is the stored one, or it has expired. -/
theorem lease_stored_or_expired (initial : Seeds a seeds)
    (history : History a seeds (fun i => (calls i).run) c)
    (inside : u <:+ c.trace) (based : seeds <:+ u) : lastLease holder u = some expiresAt →
      lookup () u = some (some ⟨holder, expiresAt⟩) ∨ expiresAt ≤ lastTime u := by
  refine lasts (P := fun u => lastLease holder u = some expiresAt →
    lookup () u = some (some ⟨holder, expiresAt⟩) ∨ expiresAt ≤ lastTime u) based ?_ ?_
  · rw [lastLease_seeds initial]
    exact nofun
  intro x past below above kept last
  have moment := below.trans inside
  have forward : lastTime past ≤ x.time := (history.accepted.at moment).forward
  obtain ⟨i, mine⟩ := history.thread_of_moment moment above
  cases effect : x.effect () with
  | none =>
    simp only [lastLease, leaseStored, effect, Option.join_none, ite_self] at last
    rw [lookup_of_no_effect effect]
    exact (kept last).imp_right fun gone => Nat.le_trans gone forward
  | some new =>
    obtain ⟨⟨later, rfl⟩, takes⟩ := at_write history moment mine effect
    rw [lookup_of_effect effect]
    by_cases same : (calls i).holder = holder
    · simp only [lastLease, leaseStored, effect, mine, same] at last
      simp only [reduceCtorEq, if_false, Option.join_some, Option.filter_some, decide_true, if_true,
        Option.map_some, Option.some_or, Option.some.injEq] at last
      exact .inl (by rw [same, last])
    · simp only [lastLease, leaseStored, effect, mine] at last
      simp only [reduceCtorEq, if_false, Option.join_some, Option.filter_some, same] at last
      rcases kept last with stored | gone
      · exact .inr (takes _ stored (Ne.symm same)).2
      · exact .inr (Nat.le_trans gone forward)

/-- The write that made a call tell its caller that it holds the lease. -/
structure Wins (calls : Nat → LockCall) (c : Config LockStore HubError Bool) (i : Nat)
    (x : Event LockStore) (past : Trace LockStore) : Prop where
  moment : (x :: past) <:+ c.trace
  mine : x.thread = some i
  last : own i c.trace = own i (x :: past)
  stored : ∃ expiresAt, x.effect () = some (some (some ⟨(calls i).holder, expiresAt⟩))

theorem wins_of_told (history : History a seeds (fun i => (calls i).run) c)
    (told : c.prog i = .ret true) : ∃ x past, Wins calls c i x past := by
  obtain ⟨expiresAt, cond, tag, rest, wrote⟩ := history.returned run_writes told rfl
  obtain ⟨x, past, moment, mine, before, shape, effect, _⟩ :=
    own_written history.accepted ⟨[], wrote.symm⟩
  refine ⟨x, past, moment, mine, ?_, expiresAt, effect⟩
  rw [own_cons mine, before, shape, wrote]

/-- When one holder wins after another, the other's lease has ended. -/
theorem Wins.after (initial : Seeds a seeds) (history : History a seeds (fun i => (calls i).run) c)
    (first : Wins calls c i x past) (second : Wins calls c j y q) (order : x :: past <:+ q)
    (other : (calls i).holder ≠ (calls j).holder) :
    ∃ expiresAt, lastLease (calls i).holder q = some expiresAt ∧ expiresAt ≤ y.time := by
  have written : ∃ expiresAt, lastLease (calls i).holder q = some expiresAt := by
    refine lasts (P := fun u => ∃ expiresAt, lastLease (calls i).holder u = some expiresAt)
      order ?_ ?_
    · obtain ⟨expiresAt, effect⟩ := first.stored
      exact ⟨expiresAt, by simp [lastLease, leaseStored, effect, first.mine]⟩
    · rintro z u _ _ ⟨expiresAt, last⟩
      rw [lastLease, last]
      cases ((leaseStored z).filter (·.holder = (calls i).holder)).map LockRecord.expiresAt with
      | none => exact ⟨expiresAt, rfl⟩
      | some newer => exact ⟨newer, rfl⟩
  obtain ⟨expiresAt, last⟩ := written
  refine ⟨expiresAt, last, ?_⟩
  have inside := second.moment.past
  have based := history.after_seeds initial second.moment second.mine
  obtain ⟨_, effect⟩ := second.stored
  rcases lease_stored_or_expired initial history inside based last with stored | gone
  · exact ((at_write history second.moment second.mine effect).2 _ stored other).2
  · exact Nat.le_trans gone (history.accepted.at second.moment).forward

/-- Two holders that were told they hold the lock won one after the other, the later one when
the lease of the earlier one had ended, by its time or by a release; and a release leaves
another holder's lease as it is. -/
theorem one_running_lease (initial : Seeds a seeds) (calls : Nat → LockCall)
    (reach : Reaches a ⟨seeds, fun i => (calls i).run⟩ c) :
    (∀ i j, c.prog i = .ret true → c.prog j = .ret true → (calls i).holder ≠ (calls j).holder →
      ∃ x past y q, Wins calls c i x past ∧ Wins calls c j y q ∧ ((x :: past) <:+ q ∧
            (∃ expiresAt, lastLease (calls i).holder q = some expiresAt ∧ expiresAt ≤ y.time) ∨
          (y :: q) <:+ past ∧
            ∃ expiresAt, lastLease (calls j).holder past = some expiresAt ∧ expiresAt ≤ x.time)) ∧
    ∀ k holder aborted z past lease, calls k = .release holder aborted → z.thread = some k →
      (z :: past) <:+ c.trace → lookup () past = some (some lease) → lease.holder ≠ holder →
        lookup () (z :: past) = some (some lease) := by
  have history := reach.history initial
  constructor
  · intro i j toldI toldJ other
    obtain ⟨x, past, winsI⟩ := wins_of_told history toldI
    obtain ⟨y, q, winsJ⟩ := wins_of_told history toldJ
    refine ⟨x, past, y, q, winsI, winsJ, ?_⟩
    rcases moments_ordered winsI.moment winsJ.moment with same | before | after
    · cases same
      have one := winsI.mine.symm.trans winsJ.mine
      cases one
      exact absurd rfl other
    · exact .inl ⟨before, winsI.after initial history winsJ before other⟩
    · exact .inr ⟨after, winsJ.after initial history winsI after (Ne.symm other)⟩
  · intro k holder aborted z past lease call mine moment stored other
    cases effect : z.effect () with
    | none => rw [lookup_of_no_effect effect, stored]
    | some new =>
      have taken := (at_write history moment mine effect).2 lease stored
      rw [call] at taken
      obtain ⟨⟨_, ⟨⟩⟩, _⟩ := taken other

end Runs

/-! ## A run -/

namespace Steal

def adapter : Adapter LockStore := ⟨fun _ version => version, 0⟩

def calls : Nat → LockCall
  | 0 => .acquire "a" 10
  | 1 => .acquire "b" 10
  | _ => .release "a" false

def start : Config LockStore HubError Bool := ⟨[], fun i => (calls i).run⟩

/-- The first replica takes the lease and reads it to release it; the second one steals it once it
has expired, and then the release is written. -/
def schedule : List (Move LockStore) :=
  turns 0 0 [.ok, .ok] ++ turns 2 5 [.ok, .ok] ++ turns 1 10 [.ok, .lost, .ok, .ok] ++
    [⟨1, 11, .ok⟩, ⟨2, 12, .ok⟩]

/-- The last event is the late write of the release, over the lease of the second replica. -/
def endsReleasing : Trace LockStore → Bool
  | [] => false
  | z :: past => z.thread = some 2 && lookup () past = some (some ⟨"b", 20⟩)

end Steal

/-- Both replicas hold the lease, one after the other, and the late release leaves it to the
second. -/
theorem lease_stolen_after_its_end : ∃ c, Reaches Steal.adapter Steal.start c ∧
    (∃ x past y q, Wins Steal.calls c 0 x past ∧ Wins Steal.calls c 1 y q ∧ ((x :: past) <:+ q ∧
          (∃ expiresAt, lastLease "a" q = some expiresAt ∧ expiresAt ≤ y.time) ∨ (y :: q) <:+ past ∧
          ∃ expiresAt, lastLease "b" past = some expiresAt ∧ expiresAt ≤ x.time)) ∧
    ∃ z past, (z :: past) <:+ c.trace ∧ z.thread = some 2 ∧
      lookup () past = some (some ⟨"b", 20⟩) ∧ lookup () (z :: past) = some (some ⟨"b", 20⟩) := by
  obtain ⟨c, reach, first, second, ends⟩ := Config.play_any Steal.adapter Steal.start Steal.schedule
    (fun c => (c.prog 0).value? = some true ∧ (c.prog 1).value? = some true ∧
      Steal.endsReleasing c.trace = true) (by decide +kernel)
  obtain ⟨wins, kept⟩ := one_running_lease (Seeds.empty _) Steal.calls reach
  refine ⟨c, reach, wins 0 1 (value?_eq_some.mp first) (value?_eq_some.mp second) (by decide), ?_⟩
  cases shape : c.trace with
  | nil =>
    rw [shape] at ends
    cases ends
  | cons z past =>
    rw [shape, Steal.endsReleasing, Bool.and_eq_true, decide_eq_true_eq, decide_eq_true_eq] at ends
    refine ⟨z, past, List.suffix_rfl, ends.1, ends.2, ?_⟩
    exact kept 2 "a" false z past _ rfl ends.1 (shape ▸ List.suffix_rfl) ends.2 (by decide)

end MarimoHub.Guarantees.Maintenance
