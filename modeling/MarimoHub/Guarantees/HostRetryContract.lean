import Mathlib.Data.List.Infix
import MarimoHub.Guarantees.HostRetryLeases

/-!
# The retry contract

What a client of the idempotency records may rely on, in every run of any calls on an empty store.
`host_retry_contract`: a claim dispatched without a runtime is exclusive until its owner settles or
binds it, a receipt answers every later request until it expires or is refreshed, and an owner that
was replaced can no longer dispatch or finish. `binding_not_reclaimed_late`: how old a runtime
binding may be when a new claim carries it.
-/

namespace MarimoHub.Guarantees.HostRetries

open ObjectStore Source Source.HostRetries

variable {a : Adapter RetryStore} {digest : String → String → String} {calls : Nat → HostCall}
  {t past q : Trace RetryStore} {x y : Event RetryStore} {d : String} {owner other : Nat}

/-! ## Exclusive dispatch -/

/-- A dispatch of this owner without a runtime takes effect. -/
def DispatchesUnbound (calls : Nat → HostCall) (d : String) (owner : Nat) (x : Event RetryStore) :
    Prop :=
  ∃ i claim sessionId, x.thread = some i ∧ calls i = .dispatch claim sessionId ∧
    isBound sessionId = false ∧ claim.key = .hostRetry d ∧ claim.owner = owner ∧
    (x.effect (.hostRetry d)).isSome = true

variable {i : Nat}

theorem RetryRun.updated (run : RetryRun a digest calls (x :: past)) (mine : x.thread = some i)
    (call : (∃ sessionId, calls i = .dispatch claim sessionId) ∨ ∃ reply, calls i = .finish claim
      reply) (effect : (x.effect (.hostRetry d)).isSome = true) :
    ∃ old new, lookup (RetryKey.hostRetry d) past = some (.record old) ∧
      old.wellFormed = true ∧ old.owner = some claim.owner ∧
      lookup (RetryKey.hostRetry d) (x :: past) = some (.record new) ∧
      RetryChange digest (.hostRetry d) (own i past) (calls i) old new := by
  obtain ⟨value, written⟩ := Option.isSome_iff_exists.mp effect
  obtain ⟨j, also, step⟩ := run.step written
  cases Option.some.inj (mine.symm.trans also)
  cases step with
  | created new _ creates =>
    obtain ⟨_, _, _, _, _, _, _, called, _⟩ := creates
    rcases call with ⟨_, call⟩ | ⟨_, call⟩ <;> rw [call] at called <;> cases called
  | removed called =>
    rcases call with ⟨_, call⟩ | ⟨_, call⟩ <;> rw [call] at called <;> cases called
  | changed old new present parsed change =>
    refine ⟨old, new, present, parsed, ?_, lookup_of_effect written, change⟩
    rcases call with ⟨_, call⟩ | ⟨_, call⟩
    · rw [call] at change
      cases change with
      | dispatched _ _ _ _ owned _ => exact owned
    · rw [call] at change
      cases change with
      | finished _ _ _ _ _ _ _ owned _ => exact owned

theorem RetryRun.dispatched_held (run : RetryRun a digest calls (x :: past))
    (dispatches : DispatchesUnbound calls d owner x) : HeldBy d owner (x :: past) := by
  obtain ⟨i, claim, sessionId, mine, call, unbound, _, rfl, effect⟩ := dispatches
  obtain ⟨old, new, _, _, owned, stored, change⟩ := run.updated mine (.inl ⟨_, call⟩) effect
  rw [call] at change
  cases change with
  | dispatched => exact ⟨_, stored, owned, rfl, unbound⟩

theorem RetryRun.not_obtained (run : RetryRun a digest calls (y :: q)) (held : HeldBy d owner q) :
    ¬ Obtains calls d other y := by
  intro obtains
  obtain ⟨record, found, owned, dispatched, unbound⟩ := held
  obtain ⟨_, now, _, _, previous, claimed⟩ := run.obtained obtains
  have stored := claimed.stored
  rw [found] at stored
  cases previous with
  | none => cases stored
  | some old =>
    cases stored
    exact (decide_claim claimed.decided).1 (HeldBy.held owned dispatched unbound)

/-! ## Receipts -/

/-- A finish with a reply of success writes the receipt `record`, recorded to expire then. -/
def FinishesWith (calls : Nat → HostCall) (d : String) (reply : HostRetryReply)
    (record : HostRetryRecord) (expires : Nat) (x : Event RetryStore) : Prop :=
  ∃ i claim, x.thread = some i ∧ calls i = .finish claim (some reply) ∧
    100 ≤ reply.status ∧ reply.status < 400 ∧
    x.effect (.hostRetry d) = some (some (.record record)) ∧ record.expires = some expires

variable {record : HostRetryRecord}

theorem RetryRun.receipt (run : RetryRun a digest calls (x :: past))
    (finishes : FinishesWith calls d reply record expires x) : Receipt reply expires record := by
  obtain ⟨i, claim, mine, call, low, high, effect, expiry⟩ := finishes
  obtain ⟨old, new, _, parsed, _, stored, change⟩ :=
    run.updated mine (.inr ⟨_, call⟩) (by rw [effect]; rfl)
  rw [lookup_of_effect effect] at stored
  cases stored
  rw [call] at change
  cases change with
  | finished _ _ _ now =>
    have success : reply.status < 400 := high
    have valid : reply.status ≤ 599 := by omega
    simp only [settleHostRetryClaim,
      Option.filter_some, decide_eq_true_eq, if_pos success] at expiry ⊢
    refine ⟨?_, rfl, rfl, expiry⟩
    simp only [HostRetryRecord.wellFormed, Bool.and_eq_true] at parsed ⊢
    exact ⟨⟨⟨rfl, parsed.1.1.2⟩, parsed.1.2⟩, by simp [low, valid]⟩

variable {scope key fingerprint : String} {refresh : Bool}

/-- Every write of an acquisition follows a decision to claim. -/
theorem decided_of_rule
    (rule : RetryRule digest (.acquire scope key fingerprint refresh) es (.put (.hostRetry d) v c))
      : ∃ new, Decided (.hostRetry d) fingerprint refresh es (.claim new) := by
  have created (creates : (retryWriter digest (.hostRetry d)
      (.acquire scope key fingerprint refresh)).creates es v c) :
      ∃ new, Decided (.hostRetry d) fingerprint refresh es (.claim new) := by
    obtain ⟨_, _, _, _, _, _, _, owner, now, earlier, call, _, _, trail⟩ := creates
    cases call
    exact ⟨_, none, owner, now, _, earlier, rfl, trail, rfl⟩
  have writes := rule d rfl
  cases c with
  | any => exact created writes
  | ifAbsent => exact created writes
  | ifMatch tag =>
    obtain ⟨_, _, old, new, rfl, rfl, parsed, change⟩ := writes
    cases change with
    | claimed _ _ _ _ _ _ owner now tag' earlier _ decided trail =>
      exact ⟨new, some old, owner, now, _, earlier, ⟨parsed, tag', rfl⟩, trail, decided⟩

section AfterReceipt

variable (run : RetryRun a digest calls t) (undeleted : Undeleted d t)
  (finishes : FinishesWith calls d reply record expires x) (moment : x :: past <:+ t)
  (fresh : own j past = []) (apart : x.thread ≠ some j) (early : lastTime t < expires)
  (quiet : ∀ y q, y :: q <:+ t → x :: past <:+ q → ¬ Refreshes calls d y)
include run undeleted finishes moment fresh apart early quiet

theorem RetryRun.sees_receipt (read : g :: p <:+ t) (mine : g.thread = some j) :
    lookup (RetryKey.hostRetry d) p = some (.record record) := by
  have after : x :: past <:+ p := by
    rcases moments_ordered moment read with same | before | before
    · cases same
      exact absurd mine apart
    · exact before
    · have inside := own_suffix (i := j) before
      rw [fresh, own_cons mine] at inside
      cases List.suffix_nil.mp inside
  have inside : p <:+ t := read.past
  have start := (run.suffix moment).receipt finishes
  obtain ⟨_, _, _, _, _, _, effect, _⟩ := finishes
  have time : lastTime p < expires := Nat.lt_of_le_of_lt
    ((run.accepted.at read).forward.trans (time_le_lastTime run.accepted read)) early
  rcases (run.suffix inside).receipt_until (fun e member => undeleted e (inside.subset member))
    start after (lookup_of_effect effect) time with kept | ⟨z, u, between, above, _, refreshes⟩
  · exact kept
  · exact absurd refreshes (quiet z u (between.trans inside) above)

theorem RetryRun.decides_reply (inside : es <:+ own j t)
    (decided : Decided (.hostRetry d) record.fingerprint false es decision) :
    decision = .reply reply := by
  obtain ⟨previous, owner, now, seen, earlier, saw, rfl, rfl⟩ := decided
  have start := (run.suffix moment).receipt finishes
  have reading : now < expires := by
    obtain ⟨h, u, clock, _, shape, _⟩ := exists_own inside
    rw [((run.accepted.at clock).responds_of shape).1]
    exact Nat.lt_of_le_of_lt (time_le_lastTime run.accepted clock) early
  have trail : seen :: earlier <:+ own j t :=
    (List.suffix_cons _ _).past.trans inside
  obtain ⟨g, p, read, mine, shape, _⟩ := exists_own trail
  have found := run.sees_receipt undeleted finishes moment fresh apart early quiet read mine
  have accepts := run.accepted.at read
  cases previous with
  | none =>
    have absent := (accepts.responds_of (shape.trans saw)).1
    rw [found] at absent
    cases absent
  | some old =>
    obtain ⟨_, tag, event⟩ := saw
    have same := (accepts.tagged (shape.trans event)).1
    rw [found] at same
    cases same
    exact start.decides reading

end AfterReceipt

/-! ## The contract -/

/-- A dispatch or finish of this claim. -/
def HostCall.updates (claim : HostRetryClaim) (call : HostCall) : Prop :=
  (∃ sessionId, call = .dispatch claim sessionId) ∨ ∃ reply, call = .finish claim reply

theorem RetryRun.replaced (run : RetryRun a digest calls t) (first : Obtains calls d owner x)
    (second : Obtains calls d other y) (order : x :: past <:+ q) (moment : y :: q <:+ t)
    (above : y :: q <:+ u) (inside : u <:+ t) : Unheld d owner u := by
  refine (run.suffix inside).owner_gone first (order.cons) above ?_
  intro record found owned
  obtain ⟨_, _, _, _, _, latest, _, _, effect, owner'⟩ := second
  rw [lookup_of_effect effect] at found
  cases found
  rw [owned] at owner'
  cases owner'
  have same := run.obtained_once (order.trans moment.past) moment first
    ⟨_, _, _, _, _, record, ‹_›, ‹_›, effect, owned⟩
  exact not_earlier same order

section Calls

variable
  (history : History a [] (fun i => (calls i).prog digest) c)
  (run : RetryRun a digest calls c.trace)
include history run

/-- A request that begins after the finish, and before its receipt expires or is refreshed, is
answered with the reply or fails with its bucket request. -/
theorem receipt_answers (undeleted : Undeleted d c.trace)
    (finishes : FinishesWith calls d reply record expires x) (moment : x :: past <:+ c.trace)
    (call : calls j = .acquire scope key record.fingerprint false) (here : digest scope key = d)
    (fresh : own j past = []) (early : lastTime c.trace < expires)
    (quiet : ∀ y q, y :: q <:+ c.trace → x :: past <:+ q → ¬ Refreshes calls d y) :
    (∀ result, c.prog j = .ret result → result = .acquired (.reply reply)) ∧
      ∀ err, c.prog j = .raise err → err = .storage := by
  have alone := hostCall_emits digest (calls j) []
  have other : x.thread ≠ some j := by
    obtain ⟨i, claim, mine, finish, _⟩ := finishes
    intro same
    cases Option.some.inj (mine.symm.trans same)
    rw [call] at finish
    cases finish
  have decides {es : Log RetryStore} {decision : HostRetryAcquireDecision}
      (inside : es <:+ own j c.trace)
      (decided : Decided (.hostRetry d) record.fingerprint false es decision) :
      decision = .reply reply :=
    run.decides_reply undeleted finishes moment fresh other early quiet inside decided
  -- a write would follow a decision to claim
  have unwritten : ¬ ∃ ev ∈ own j c.trace, Puts (B := RetryStore) (.hostRetry d) ev := by
    rintro ⟨ev, member, v, cond, r, rfl⟩
    obtain ⟨e, p, wrote, mine, shape⟩ := exists_own_mem member
    have rule := history.guarantee (fun i => hostCall_emits digest (calls i) []) wrote mine
    have op : e.op = .put (.hostRetry d) v cond := congrArg Ev.op shape
    rw [call, op] at rule
    obtain ⟨new, decided⟩ := decided_of_rule rule
    cases decides (own_suffix wrote.past) decided
  constructor
  · intro result returned
    have ends := history.returned alone returned
    rw [call] at ends
    match result, ends with
    | .acquired (.claimed _), put =>
      rw [CallOutcome, here] at put
      exact absurd put unwritten
    | .acquired (.reply other), decided =>
      rw [CallOutcome, here] at decided
      cases decides List.suffix_rfl decided
      rfl
    | .acquired .pending, decided =>
      rw [CallOutcome, here] at decided
      cases decides List.suffix_rfl decided
  · intro err raised
    have ends := history.raised alone raised
    rw [call, CallOutcome, here] at ends
    rcases ends with storage | put | decided | ⟨v, tag, read, broken⟩
    · exact storage
    · exact absurd put unwritten
    · cases decides List.suffix_rfl decided
    · obtain ⟨g, p, reads, mine, shape⟩ := exists_own_mem read
      have found := run.sees_receipt undeleted finishes moment fresh other early quiet reads mine
      rw [((run.accepted.at reads).tagged shape).1] at found
      cases found
      have parsed := ((run.suffix moment).receipt finishes).parsed
      rw [readRecord, if_pos parsed] at broken
      cases broken

theorem replaced_rejected (first : Obtains calls d owner x)
    (second : Obtains calls d other y) (order : x :: past <:+ q) (moment : y :: q <:+ c.trace)
    (here : claim.key = .hostRetry d) (owned : claim.owner = owner)
    (updates : (calls i).updates claim) (fresh : own i q = []) (result : HostResult) :
    c.prog i ≠ .ret result := by
  intro returned
  have ends := history.returned (hostCall_emits digest (calls i) []) returned
  have swapped : UpdateOutcome claim (own i c.trace) := by
    rcases updates with ⟨_, call⟩ | ⟨_, call⟩ <;> rw [call] at ends <;> exact ends
  obtain ⟨record, next, tag, tag', rest, held, trail, read⟩ := swapped
  have member : ⟨.get claim.key, .found (.record record) tag⟩ ∈ own i c.trace := by
    rw [trail]
    exact .tail _ read
  obtain ⟨g, p, reads, mine, shape⟩ := exists_own_mem member
  rw [here] at shape
  have present := ((run.accepted.at reads).tagged shape).1
  rcases moments_ordered moment reads with same | before | before
  · cases same
    obtain ⟨_, _, _, _, _, _, _, _, effect, _⟩ := second
    rw [Event.effect, congrArg Ev.op shape] at effect
    cases effect
  · exact run.replaced first second order moment before reads.past record present (owned ▸ held)
  · have inside := own_suffix (i := i) before
    rw [fresh, own_cons mine] at inside
    cases List.suffix_nil.mp inside

end Calls

/-- In every run of acquisitions, dispatches, finishes and compactions that deletes no record:
between a dispatch without a runtime and its settlement nobody obtains a claim; after a finish with
a reply of success, and until its expiry or a refresh, a request with the same fingerprint is
answered with that reply; and once another claim was obtained, dispatches and finishes of the
earlier owner have no effect and do not return. -/
theorem host_retry_contract (a : Adapter RetryStore) (digest : String → String → String)
    (calls : Nat → HostCall) {c : Config RetryStore HubError HostResult}
    (reach : Reaches a (hosts digest calls) c) (d : String) (undeleted : Undeleted d c.trace) :
    (∀ x past y q owner other, DispatchesUnbound calls d owner x → Obtains calls d other y →
      (x :: past) <:+ q → (y :: q) <:+ c.trace →
      ∃ z p, (z :: p) <:+ q ∧ (x :: past) <:+ p ∧ Settles calls d owner z) ∧
    (∀ x past reply record expires j scope key, FinishesWith calls d reply record expires x →
      (x :: past) <:+ c.trace → calls j = .acquire scope key record.fingerprint false →
      digest scope key = d → own j past = [] → lastTime c.trace < expires →
      (∀ y q, (y :: q) <:+ c.trace → (x :: past) <:+ q → ¬ Refreshes calls d y) →
      (∀ result, c.prog j = .ret result → result = .acquired (.reply reply)) ∧
        ∀ err, c.prog j = .raise err → err = .storage) ∧
    ∀ x past y q owner other i claim, Obtains calls d owner x → Obtains calls d other y →
      (x :: past) <:+ q → (y :: q) <:+ c.trace → claim.key = .hostRetry d →
      claim.owner = owner → (calls i).updates claim →
      (∀ z p, (z :: p) <:+ c.trace → (y :: q) <:+ p → z.thread = some i →
        z.effect (.hostRetry d) = none) ∧ (own i q = [] → ∀ result, c.prog i ≠ .ret result) := by
  obtain ⟨history, run⟩ := run_of_reaches reach
  refine ⟨?_, ?_, ?_⟩
  · intro x past y q owner other dispatches obtains order moment
    have inside : q <:+ c.trace := moment.past
    have start := (run.suffix (order.trans inside)).dispatched_held dispatches
    rcases (run.suffix inside).held_until (fun e member => undeleted e (inside.subset member))
      order start with held | ⟨z, p, earlier, above, _, settles⟩
    · exact absurd obtains ((run.suffix moment).not_obtained held)
    · exact ⟨z, p, earlier, above, settles⟩
  · intro x past reply record expires j scope key finishes moment call here fresh early quiet
    exact receipt_answers history run undeleted finishes moment call here fresh early quiet
  · intro x past y q owner other i claim first second order moment here owned updates
    refine ⟨?_, replaced_rejected history run first second order moment here owned updates⟩
    intro z p later above mine
    by_contra changed
    obtain ⟨old, _, present, _, held, _⟩ := (run.suffix later).updated mine updates
      (Option.isSome_iff_ne_none.mpr changed)
    exact run.replaced first second order moment above later.past old present (owned ▸ held)

namespace SharedKey

def adapter : Adapter RetryStore := ⟨fun _ version => version, 0⟩

def oneKey (_ _ : String) : String := "k"

def claim : HostRetryClaim := ⟨.hostRetry "k", 1, none⟩

def reply : HostRetryReply := ⟨201, "created"⟩

/-- A run is started and finished; its reply may be refreshed, and is asked for again. -/
def requests : Nat → HostCall
  | 0 => .acquire "user" "key" "run" false
  | 1 => .dispatch claim (some "session")
  | 2 => .finish claim (some reply)
  | 3 => .acquire "user" "key" "run" true
  | _ => .acquire "user" "key" "run" false

def receipt : HostRetryRecord where
  fingerprint := "run"
  claimedAt := 0
  sessionId := some "session"
  dispatched := true
  expires := some 300000
  reply := some reply

def finished : List (Move RetryStore) :=
  turns 0 0 [.ok, .id 1, .ok, .ok] ++ turns 1 0 [.ok, .ok] ++ turns 2 0 [.ok, .ok, .ok]

/-- The finish of the run, before the last request began. -/
def isFinish (x : Event RetryStore) (past : Trace RetryStore) : Bool :=
  x.thread = some 2 ∧ x.effect (.hostRetry "k") = some (some (.record receipt)) ∧
    (own 4 past).isEmpty

theorem finishes_of_check (check : isFinish x past = true) :
    FinishesWith requests "k" reply receipt 300000 x ∧ own 4 past = [] := by
  rw [isFinish, decide_eq_true_eq] at check
  obtain ⟨thread, effect, fresh⟩ := check
  exact ⟨⟨2, claim, thread, rfl, by decide, by decide, effect, rfl⟩, List.isEmpty_iff.mp fresh⟩

end SharedKey

section SharedKey

open SharedKey

/-- A request repeated after its receipt was written is answered from it. -/
theorem retry_answered_from_receipt : ∃ c x past, Reaches adapter (hosts oneKey requests) c ∧
    FinishesWith requests "k" reply receipt 300000 x ∧
    (x :: past) <:+ c.trace ∧ own 4 past = [] ∧ lastTime c.trace < 300000 ∧
    c.prog 4 = .ret (.acquired (.reply reply)) := by
  obtain ⟨c, reach, observed⟩ := Config.play_any adapter (hosts oneKey requests)
    (finished ++ turns 4 299999 [.ok, .id 2, .ok])
    (fun c => decide ((∀ e ∈ c.trace, e.effect (.hostRetry "k") ≠ some none) ∧
        (∀ e ∈ c.trace, e.thread ≠ some 3) ∧ lastTime c.trace < 300000) &&
      atMoment 3 isFinish c.trace && (c.prog 4).value?.isSome) (by decide)
  simp only [Bool.and_eq_true, decide_eq_true_eq] at observed
  obtain ⟨⟨⟨undeleted, unrefreshed, early⟩, moment⟩, returned⟩ := observed
  obtain ⟨x, past, moment, check⟩ := exists_moment moment
  obtain ⟨finishes, fresh⟩ := finishes_of_check check
  obtain ⟨result, returned⟩ := Option.isSome_iff_exists.mp returned
  have returned := Prog.value?_eq_some.mp returned
  have quiet (y : Event RetryStore) (q : Trace RetryStore) (later : y :: q <:+ c.trace)
      (_ : x :: past <:+ q) : ¬ Refreshes requests "k" y := by
    rintro ⟨i, scope, key, fingerprint, owner, thread, call, _⟩
    have refresher : i = 3 := by
      match i, call with
      | 3, _ => rfl
    exact unrefreshed y (later.subset (.head _)) (refresher ▸ thread)
  have answers := (host_retry_contract adapter oneKey requests reach "k"
    undeleted).2.1 x past _ _ _ 4 "user" "key" finishes moment rfl rfl fresh early quiet
  have same := answers.1 result returned
  exact ⟨c, x, past, reach, finishes, moment, fresh, early, same ▸ returned⟩

/-- A refresh replaces the receipt by a claim: the next request, long before the receipt would have
expired, is told to wait. -/
theorem refresh_hides_receipt : ∃ c x past, Reaches adapter (hosts oneKey requests) c ∧
    FinishesWith requests "k" reply receipt 300000 x ∧
    (x :: past) <:+ c.trace ∧ own 4 past = [] ∧ lastTime c.trace < 300000 ∧
    requests 4 = .acquire "user" "key" receipt.fingerprint false ∧
    c.prog 4 = .ret (.acquired .pending) := by
  obtain ⟨c, reach, observed⟩ := Config.play_any adapter (hosts oneKey requests)
    (finished ++ turns 3 1 [.ok, .id 2, .ok, .ok] ++ turns 4 2 [.ok, .id 3, .ok])
    (fun c => decide (lastTime c.trace < 300000) && atMoment 7 isFinish c.trace &&
      decide ((c.prog 4).value? = some (.acquired .pending))) (by decide)
  simp only [Bool.and_eq_true, decide_eq_true_eq] at observed
  obtain ⟨⟨early, moment⟩, returned⟩ := observed
  obtain ⟨x, past, moment, check⟩ := exists_moment moment
  obtain ⟨finishes, fresh⟩ := finishes_of_check check
  exact ⟨c, x, past, reach, finishes, moment, fresh, early, rfl, Prog.value?_eq_some.mp returned⟩

/-! ## Bindings -/

/-- A dispatch binds a claim made at `claimedAt` to a runtime. -/
def Binds (calls : Nat → HostCall) (d session : String) (claimedAt : Nat) (past : Trace RetryStore)
    (x : Event RetryStore) : Prop :=
  ∃ i claim old, x.thread = some i ∧ calls i = .dispatch claim (some session) ∧ session ≠ "" ∧
    lookup (RetryKey.hostRetry d) past = some (.record old) ∧ old.bound = false ∧
    old.claimedAt = claimedAt ∧ (x.effect (.hostRetry d)).isSome = true

variable {claimedAt now : Nat}

variable {session : String}

theorem Binds.named (binds : Binds calls d session claimedAt past x) : session ≠ "" := by
  obtain ⟨_, _, _, _, _, named, _⟩ := binds
  exact named

theorem RetryRun.binds_anchored (run : RetryRun a digest calls (x :: past))
    (binds : Binds calls d session claimedAt past x) : Anchored d claimedAt (x :: past) := by
  obtain ⟨i, claim, old, mine, call, _, found, _, rfl, effect⟩ := binds
  obtain ⟨old', new, present, _, owned, stored, change⟩ := run.updated mine (.inl ⟨_, call⟩) effect
  rw [found] at present
  cases present
  have timely := ((run.suffix (List.suffix_cons x past)).timely old found).2 (by rw [owned]; rfl)
  intro record latest
  rw [stored] at latest
  cases latest
  rw [call] at change
  cases change with
  | dispatched => exact timely.expiry (Nat.le_refl old.claimedAt)

variable {old : HostRetryRecord}

/-- The age of an anchored receipt is not less than the age of the claim it is anchored to. -/
theorem young_of_receiptAge
    (anchored : old.expires.getD (old.claimedAt + hostRetryWindowMs) ≤ claimedAt +
      hostRetryWindowMs)
    (recent : receiptAge old now < hostRetryRefreshMs) : now < claimedAt + hostRetryRefreshMs := by
  rw [receiptAge] at recent
  cases expiry : old.expires with
  | none =>
    simp only [expiry, Option.getD_none] at anchored recent
    omega
  | some expires =>
    simp only [expiry, Option.getD_some] at anchored recent
    omega

theorem leaseState_free (free : leaseState record now = .free) :
    record.claimedAt + hostClaimLeaseMs ≤ now := by
  rw [leaseState] at free
  split at free
  · split at free
    · assumption
    · cases free
  · split at free
    · cases free
    · split at free <;> cases free

theorem leaseState_rebind (rebind : leaseState record now = .rebind) :
    receiptAge record now < hostRetryRefreshMs := by
  rw [leaseState] at rebind
  split at rebind
  · split at rebind <;> cases rebind
  · split at rebind
    · cases rebind
    · split at rebind
      · next both => exact both.2
      · cases rebind

/-- A claim that carries the binding of the record it replaces is young enough. -/
theorem claim_of_binding
    (decided : decideHostRetryAcquire (some old) fingerprint refresh owner now = .claim
      (claimRecord (some old) fingerprint owner now))
    (bound : (claimRecord (some old) fingerprint owner now).bound = true)
    (timely : old.owner.isSome = true → Timely old.claimedAt old)
    (anchored : old.expires.getD (old.claimedAt + hostRetryWindowMs) ≤ claimedAt +
      hostRetryWindowMs) : now < claimedAt + hostRetryWindowMs ∧
      (old.owner.isSome = true ∨ old.reply.isSome = true →
        now < claimedAt + hostRetryRefreshMs) := by
  have retained : isRetained (some old) now = true := by
    rw [claimRecord] at bound
    split at bound
    · assumption
    · cases bound
  obtain ⟨notHeld, noReply, _⟩ := decide_claim decided
  have window : hostRetryRefreshMs ≤ hostRetryWindowMs := by decide
  have rebound (rebind : leaseState old now = .rebind) : now < claimedAt + hostRetryRefreshMs :=
    young_of_receiptAge anchored (leaseState_rebind rebind)
  have lease (owned : old.owner.isSome = true) : leaseOf (some old) now = leaseState old now := by
    simp [leaseOf, owned]
  rw [isRetained, decide_eq_true_eq] at retained
  rcases retained with rebind | live
  · have owned : old.owner.isSome = true := by
      by_contra unowned
      simp [leaseOf, unowned] at rebind
    rw [lease owned] at rebind
    have young := rebound rebind
    exact ⟨by omega, fun _ => young⟩
  · cases expiry : old.expires with
    | none => simp [expiry] at live
    | some expires =>
      rw [expiry, Option.getD_some] at live
      have limit : expires ≤ claimedAt + hostRetryWindowMs := by simpa [expiry] using anchored
      refine ⟨by omega, ?_⟩
      rintro (owned | replied)
      · rw [lease owned] at notHeld
        cases state : leaseState old now with
        | held => exact absurd state notHeld
        | rebind => exact rebound state
        | free =>
          -- the lease of an undispatched claim outlives what it was given of the window
          have lapsed := leaseState_free state
          have early := (timely owned).2 expires expiry
          simp only [hostClaimLeaseMs, hostRetryWindowMs] at lapsed early
          omega
      · obtain ⟨reply, replied⟩ := Option.isSome_iff_exists.mp replied
        have kept : isRetained (some old) now = true := by simp [isRetained, expiry, live]
        simp only [storedReply, Option.bind_some, replied, kept, Bool.true_and,
          Option.filter_eq_none_iff, Option.some.injEq, forall_eq'] at noReply
        refine young_of_receiptAge anchored ?_
        simp only [Bool.or_eq_true, decide_eq_true_eq, not_or, Int.not_le] at noReply
        exact noReply.2

/-- In every run, a new claim carries a binding only if, at the clock reading of its acquisition,
the claim under which the binding was dispatched is younger than the retry window; and younger
than the refresh age, unless the claim it replaces was released without a reply of success. -/
theorem binding_not_reclaimed_late (a : Adapter RetryStore) (digest : String → String → String)
    (calls : Nat → HostCall) {c : Config RetryStore HubError HostResult}
    (reach : Reaches a (hosts digest calls) c) {d session : String} {x y : Event RetryStore}
    {past q : Trace RetryStore} {claimedAt owner : Nat} {old new : HostRetryRecord}
    (binds : Binds calls d session claimedAt past x)
    (order : (x :: past) <:+ q) (moment : (y :: q) <:+ c.trace)
    (carried : ∀ u, (x :: past) <:+ u → u <:+ q → CarriedIn d session u)
    (obtains : Obtains calls d owner y)
    (found : lookup (RetryKey.hostRetry d) q = some (.record old))
    (granted : y.effect (.hostRetry d) = some (some (.record new))) (bound : new.bound = true) :
    new.claimedAt < claimedAt + hostRetryWindowMs ∧
      (old.owner.isSome = true ∨ old.reply.isSome = true →
        new.claimedAt < claimedAt + hostRetryRefreshMs) := by
  have run := (run_of_reaches reach).2.suffix moment
  have earlier := run.suffix (List.suffix_cons y q)
  have anchored := earlier.anchored binds.named order carried
    ((earlier.suffix order).binds_anchored binds) old found
  obtain ⟨_, now, fingerprint, refresh, previous, claimed⟩ := run.obtained obtains
  have stored := claimed.stored
  rw [found] at stored
  cases previous with
  | none => cases stored
  | some former =>
    cases stored
    have effect := claimed.effect
    rw [granted] at effect
    cases effect
    rw [claimRecord_owner.2.1]
    exact claim_of_binding claimed.decided bound (earlier.timely _ found).2 anchored

namespace LostReply

/-- A bound run is released without a reply, or not at all, and retried. -/
def retries : Nat → HostCall
  | 0 => .acquire "user" "key" "run" true
  | 1 => .dispatch claim (some "session")
  | 2 => .finish claim none
  | _ => .acquire "user" "key" "run" true

def bound : List (Move RetryStore) :=
  turns 0 0 [.ok, .id 1, .ok, .ok] ++ turns 1 0 [.ok, .ok]

/-- Client 3 claims the record again at this time. -/
def retried (time : Nat) : List (Move RetryStore) :=
  turns 3 time [.ok, .id 2, .ok, .ok]

def claimed : HostRetryRecord :=
  { fingerprint := "run", owner := some 1, claimedAt := 0, dispatched := false }

/-- The record of the second claim. -/
def reclaimed (time : Nat) : HostRetryRecord where
  fingerprint := "run"
  owner := some 2
  claimedAt := time
  sessionId := some "session"
  dispatched := false
  expires := some 300000

def carries (t : Trace RetryStore) : Bool :=
  match lookup (RetryKey.hostRetry "k") t with
  | some (.record record) => record.sessionId = some "session"
  | _ => false

/-- The second claim, where the binding was dispatched `n` events before it and kept since. -/
def isReclaim (time n : Nat) (y : Event RetryStore) (q : Trace RetryStore) : Bool :=
  decide (y.thread = some 3 ∧ y.effect (.hostRetry "k") = some (some (.record (reclaimed time)))) &&
    atMoment n (fun x past => decide (x.thread = some 1 ∧
      (x.effect (RetryKey.hostRetry "k")).isSome = true ∧
      lookup (B := RetryStore) (.hostRetry "k") past = some (.record claimed)) &&
      q.tails.all fun u => decide (u.length ≤ past.length) || carries u) q

theorem carried_of_carries (check : carries t = true) : CarriedIn "k" "session" t := by
  rw [carries] at check
  split at check
  · next record found => exact ⟨record, found, of_decide_eq_true check⟩
  · cases check

theorem reclaims_of_check
    (check : isReclaim time n y q = true) : ∃ x past, Binds retries "k" "session" 0 past x ∧
      x :: past <:+ q ∧ (∀ u, x :: past <:+ u → u <:+ q → CarriedIn "k" "session" u) ∧
      Obtains retries "k" 2 y ∧
      y.effect (.hostRetry "k") = some (some (.record (reclaimed time))) := by
  rw [isReclaim, Bool.and_eq_true, decide_eq_true_eq] at check
  obtain ⟨⟨thread, effect⟩, moment⟩ := check
  obtain ⟨x, past, moment, check⟩ := exists_moment moment
  simp only [Bool.and_eq_true, decide_eq_true_eq, List.all_eq_true, Bool.or_eq_true] at check
  obtain ⟨⟨binder, binding, found⟩, kept⟩ := check
  refine ⟨x, past, ⟨1, claim, claimed, binder, rfl, by decide, found, rfl, rfl, binding⟩,
    moment, ?_, ⟨3, _, _, _, _, _, thread, rfl, effect, rfl⟩, effect⟩
  intro u above inside
  rcases kept u ((List.mem_tails u q).mpr inside) with short | carried
  · have long := above.length_le
    rw [List.length_cons] at long
    omega
  · exact carried_of_carries carried

end LostReply

open LostReply

/-- The holder crashes after binding its run; a retry within four minutes gets the binding. -/
theorem crashed_holder_rebinds : ∃ c x past y q, Reaches adapter (hosts oneKey retries) c ∧
    Binds retries "k" "session" 0 past x ∧ (x :: past) <:+ q ∧ (y :: q) <:+ c.trace ∧
    y.effect (.hostRetry "k") = some (some (.record (reclaimed 130000))) ∧
    (reclaimed 130000).claimedAt < 0 + hostRetryWindowMs ∧
    (reclaimed 130000).claimedAt < 0 + hostRetryRefreshMs := by
  obtain ⟨c, reach, observed⟩ := Config.play_any adapter (hosts oneKey retries)
    (bound ++ retried 130000)
    (fun c => atMoment 0 (fun y q => isReclaim 130000 3 y q && decide
      (lookup (RetryKey.hostRetry "k") q = some (.record
        { claimed with dispatched := true, sessionId := some "session" }))) c.trace)
    (by decide)
  obtain ⟨y, q, moment, check⟩ := exists_moment observed
  rw [Bool.and_eq_true, decide_eq_true_eq] at check
  obtain ⟨x, past, binds, order, carried, obtains, granted⟩ := reclaims_of_check check.1
  obtain ⟨window, refresh⟩ := binding_not_reclaimed_late adapter oneKey retries reach binds order
    moment carried obtains check.2 granted (by decide)
  exact ⟨c, x, past, y, q, reach, binds, order, moment, granted, window, refresh (.inl rfl)⟩

/-- The reply of a bound run is lost, and its holder releases the claim. Four minutes after the run
was claimed a retry is granted a claim with the binding. -/
theorem released_binding_outlives_refresh : ∃ c x past y q,
    Reaches adapter (hosts oneKey retries) c ∧
    Binds retries "k" "session" 0 past x ∧ (x :: past) <:+ q ∧ (y :: q) <:+ c.trace ∧
    (∀ u, (x :: past) <:+ u → u <:+ q → CarriedIn "k" "session" u) ∧ Obtains retries "k" 2 y ∧
    y.effect (.hostRetry "k") = some (some (.record (reclaimed 240000))) ∧
    (reclaimed 240000).bound = true ∧ 0 + hostRetryRefreshMs ≤ (reclaimed 240000).claimedAt := by
  obtain ⟨c, reach, observed⟩ := Config.play_any adapter (hosts oneKey retries)
    (bound ++ turns 2 10 [.ok, .ok, .ok] ++ retried 240000)
    (fun c => atMoment 0 (isReclaim 240000 6) c.trace) (by decide)
  obtain ⟨y, q, moment, check⟩ := exists_moment observed
  obtain ⟨x, past, binds, order, carried, obtains, granted⟩ := reclaims_of_check check
  exact ⟨c, x, past, y, q, reach, binds, order, moment, carried, obtains, granted, by decide,
    by decide⟩

end SharedKey

end MarimoHub.Guarantees.HostRetries
