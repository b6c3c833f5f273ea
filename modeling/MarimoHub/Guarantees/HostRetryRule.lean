import MarimoHub.ObjectStore.Record
import MarimoHub.Source.HostRetryStore

/-!
# What the calls on an idempotency record do

Hosts acquire, dispatch and finish, and maintenance compacts. Each call is a client of its own, so
the dispatches and finishes of a claim may come in any order and from anywhere. `RetryChange` says
what a call may make of the record it read; `hostCall_emits` derives it, and the outcome of a call,
from the calls' code.
-/

namespace MarimoHub.Guarantees.HostRetries

open ObjectStore Source Source.HostRetries Prog

inductive HostCall where
  | acquire (scope key fingerprint : String) (refresh : Bool)
  | dispatch (claim : HostRetryClaim) (sessionId : Option String)
  | finish (claim : HostRetryClaim) (reply : Option HostRetryReply)
  | compact

inductive HostResult where
  | acquired (acquisition : HostRetryAcquisition)
  | done
  | compacted (count : Nat)
deriving DecidableEq

variable (digest : String → String → String)

def HostCall.prog : HostCall → Hub RetryStore HostResult
  | .acquire scope key fingerprint refresh => do
    let acquisition ← HostRetries.acquire digest scope key fingerprint refresh
    pure (.acquired acquisition)
  | .dispatch claim sessionId => do
    HostRetries.dispatch claim sessionId
    pure .done
  | .finish claim reply => do
    HostRetries.finish claim reply
    pure .done
  | .compact => do
    let count ← compactExpired
    pure (.compacted count)

/-! ## Changes of the record -/

section

variable (digest : String → String → String) (k : RetryKey) (es : Log RetryStore)

/-- What a call made of the record it read. -/
inductive RetryChange : HostCall → HostRetryRecord → HostRetryRecord → Prop where
  | claimed (scope key fingerprint : String) (refresh : Bool) (old new : HostRetryRecord)
      (owner now : Nat) (tag : Etag RetryStore) (earlier : Log RetryStore) :
      k = .hostRetry (digest scope key) →
      decideHostRetryAcquire (some old) fingerprint refresh owner now = .claim new →
      es = ⟨.now, now⟩ :: ⟨.mint, owner⟩ :: ⟨.get k, .found (.record old) tag⟩ :: earlier →
      RetryChange (.acquire scope key fingerprint refresh) old new
  | dispatched (claim : HostRetryClaim) (sessionId : Option String) (old : HostRetryRecord) :
      claim.key = k → old.owner = some claim.owner →
      (old.bound = true → sessionId = old.sessionId) →
      RetryChange (.dispatch claim sessionId) old
        { old with dispatched := true, sessionId := sessionId }
  | finished (claim : HostRetryClaim) (reply : Option HostRetryReply) (old : HostRetryRecord)
      (now : Nat) (tag : Etag RetryStore) (earlier : Log RetryStore) :
      claim.key = k → old.owner = some claim.owner →
      es = ⟨.now, now⟩ :: ⟨.get k, .found (.record old) tag⟩ :: earlier →
      RetryChange (.finish claim reply) old (settleHostRetryClaim old reply now)
  | compacted (old : HostRetryRecord) (now : Nat) (tag : Etag RetryStore)
      (earlier : Log RetryStore) : old.owner = none → old.expires.getD 0 ≤ now →
      es = ⟨.now, now⟩ :: ⟨.get k, .found (.record old) tag⟩ :: earlier →
      RetryChange .compact old (compactedRecord old)

end

/-- A call created the record. -/
def RetryCreates (k : RetryKey) (call : HostCall)
    (es : Log RetryStore) (new : HostRetryRecord) : Prop :=
  ∃ scope key fingerprint refresh owner now earlier,
    call = .acquire scope key fingerprint refresh ∧ k = .hostRetry (digest scope key) ∧
    new = claimRecord none fingerprint owner now ∧
    es = ⟨.now, now⟩ :: ⟨.mint, owner⟩ :: ⟨.get k, .absent⟩ :: earlier

def retryWriter (k : RetryKey) (call : HostCall) : Writer RetryStore where
  creates es v c := c = .ifAbsent ∧ ∃ new, v = .record new ∧ RetryCreates digest k call es new
  changes es old v := ∃ record new, old = .record record ∧ v = .record new ∧
    record.wellFormed = true ∧ RetryChange digest k es call record new
  removes _ := call = .compact

def RetryRule (call : HostCall) (es : Log RetryStore) (o : Op RetryStore) : Prop :=
  ∀ d, (retryWriter digest (.hostRetry d) call).Allows (.hostRetry d) es o

variable {digest : String → String → String} {k : RetryKey} {now owner : Nat}
  {scope key fingerprint : String} {refresh : Bool} {tag : Etag RetryStore}
  {past : Log RetryStore} {claim : HostRetryClaim} {previous : Option HostRetryRecord}

theorem rule_swap (read : ⟨.get k, .found (.record old) tag⟩ ∈ es) (parsed : old.wellFormed = true)
    (change : RetryChange digest k es call old new) :
    RetryRule digest call es (.put k (.record new) (.ifMatch tag)) := by
  rintro d rfl
  exact ⟨_, .inl read, old, new, rfl, rfl, parsed, change⟩

/-! ## Reading -/

theorem readRecord_cases (v : RetryVal) :
    (∃ record, v = .record record ∧ record.wellFormed = true ∧ readRecord v = pure record) ∨
      readRecord v = .raise .storedObject := by
  cases v with
  | record record =>
    by_cases good : record.wellFormed = true
    · exact .inl ⟨record, rfl, good, by rw [readRecord, if_pos good]⟩
    · exact .inr (by rw [readRecord, if_neg good])
  | cleanup after => exact .inr rfl
  | corrupt => exact .inr rfl

/-- The record an acquisition found. -/
def Saw (k : RetryKey) (ev : Ev RetryStore) : Option HostRetryRecord → Prop
  | none => ev = ⟨.get k, .absent⟩
  | some record => record.wellFormed = true ∧ ∃ tag, ev = ⟨.get k, .found (.record record) tag⟩

/-- The last operations of the call led to this decision. -/
def Decided (k : RetryKey) (fingerprint : String) (refresh : Bool) (es : Log RetryStore)
    (decision : HostRetryAcquireDecision) : Prop :=
  ∃ previous owner now seen earlier, Saw k seen previous ∧
    es = ⟨.now, now⟩ :: ⟨.mint, owner⟩ :: seen :: earlier ∧
    decideHostRetryAcquire previous fingerprint refresh owner now = decision

/-- How an acquisition ends. -/
def AcquireOutcome (k : RetryKey) (fingerprint : String) (refresh : Bool) :
    Post RetryStore HubError HostRetryAcquisition
  | .ok (.claimed _), es => ∃ ev ∈ es, Puts k ev
  | .ok (.reply reply), es => Decided k fingerprint refresh es (.reply reply)
  | .ok .pending, es => Decided k fingerprint refresh es .pending
  | .error err, es => err = .storage ∨ (∃ ev ∈ es, Puts k ev) ∨
      Decided k fingerprint refresh es .conflict ∨
      ∃ v tag, ⟨.get k, .found v tag⟩ ∈ es ∧ readRecord v = .raise .storedObject

/-! ## Acquiring -/

theorem claimRecord_owner : (claimRecord previous fingerprint owner now).owner = some owner ∧
      (claimRecord previous fingerprint owner now).claimedAt = now ∧
      (claimRecord previous fingerprint owner now).dispatched = false := by
  cases previous with
  | none => exact ⟨rfl, rfl, rfl⟩
  | some record =>
    rw [claimRecord]
    split <;> exact ⟨rfl, rfl, rfl⟩

/-- The record of a claim is that of a record not held, without a reply that answers. -/
theorem decide_claim
    (decided : decideHostRetryAcquire previous fingerprint refresh owner now = .claim new) :
    leaseOf previous now ≠ .held ∧ storedReply previous refresh now = none ∧
      new = claimRecord previous fingerprint owner now := by
  rw [decideHostRetryAcquire] at decided
  split at decided
  · cases decided
  · split at decided
    · cases decided
    · next free =>
      split at decided
      · cases decided
      · next nothing =>
        cases decided
        exact ⟨free, nothing, rfl⟩

theorem emits_settleAcquire (here : k = .hostRetry (digest scope key))
    (previous : Option HostRetryRecord) (saw : Saw k seen previous)
    (same : ∀ record, previous = some record → ∃ tag, seen = ⟨.get k, .found (.record record) tag⟩
      ∧ replacing object = .ifMatch tag) (absent : previous = none → replacing object = .ifAbsent) :
    Emits (RetryRule digest (.acquire scope key fingerprint refresh))
      (retrying (fun es => ∃ ev ∈ es, Puts k ev) (AcquireOutcome k fingerprint refresh))
      (settleAcquire k object owner (decideHostRetryAcquire previous fingerprint refresh owner now))
      (⟨.now, now⟩ :: ⟨.mint, owner⟩ :: seen :: past) := by
  cases decision : decideHostRetryAcquire previous fingerprint refresh owner now with
  | conflict => exact .inr (.inr (.inl ⟨previous, owner, now, seen, past, saw, rfl, decision⟩))
  | pending => exact ⟨previous, owner, now, seen, past, saw, rfl, decision⟩
  | reply reply => exact ⟨previous, owner, now, seen, past, saw, rfl, decision⟩
  | claim new =>
    have put (r : PutRes RetryStore) : ∃ ev ∈ (⟨.put k (.record new) (replacing object), r⟩ ::
        ⟨.now, now⟩ :: ⟨.mint, owner⟩ :: seen :: past : Log RetryStore), Puts k ev :=
      ⟨_, .head _, _, _, r, rfl⟩
    rw [settleAcquire, emits_bind, emits_casPut]
    refine ⟨?_, fun tag => put _, put _, .inl rfl⟩
    cases previous with
    | none =>
      rw [absent rfl]
      rintro d rfl
      refine ⟨rfl, new, rfl, scope, key, fingerprint, refresh, owner, now, past, rfl, here,
        (decide_claim decision).2.2, ?_⟩
      rw [saw]
    | some record =>
      obtain ⟨tag, shape, condition⟩ := same record rfl
      rw [condition]
      refine rule_swap (by simp [shape]) saw.1 ?_
      exact .claimed scope key fingerprint refresh record new owner now tag past here decision
        (by rw [shape])

theorem emits_acquireOnce (here : k = .hostRetry (digest scope key)) :
    Emits (RetryRule digest (.acquire scope key fingerprint refresh))
      (retrying (fun es => ∃ ev ∈ es, Puts k ev) (AcquireOutcome k fingerprint refresh))
      (acquireOnce k fingerprint refresh) past := by
  rw [acquireOnce, emits_bind, emits_bucketGet]
  refine ⟨fun _ => trivial, ?_, ?_, .inl rfl⟩
  · intro v tag
    rw [andThen_ok, readRecord?]
    rcases readRecord_cases v with ⟨record, rfl, parsed, reads⟩ | broken
    · rw [reads]
      refine ⟨fun _ => trivial, fun owner => ⟨fun _ => trivial, fun now => ?_⟩⟩
      refine emits_settleAcquire here (some record) ⟨parsed, tag, rfl⟩ ?_ (by simp)
      rintro _ ⟨⟩
      exact ⟨tag, rfl, rfl⟩
    · rw [broken]
      exact .inr (.inr (.inr ⟨v, tag, .head _, broken⟩))
  · refine ⟨fun _ => trivial, fun owner => ⟨fun _ => trivial, fun now => ?_⟩⟩
    exact emits_settleAcquire here none rfl (by simp) fun _ => rfl

theorem emits_acquire : Emits (RetryRule digest (.acquire scope key fingerprint refresh))
      (AcquireOutcome (.hostRetry (digest scope key)) fingerprint refresh)
      (HostRetries.acquire digest scope key fingerprint refresh) past := by
  exact emits_withCasRetry_succ (fun _ => emits_acquireOnce rfl) (fun _ put => .inr (.inl put))

/-! ## Dispatching and finishing -/

/-- A call on a claim that returned swapped a record of its owner. -/
def UpdateOutcome (claim : HostRetryClaim) (es : Log RetryStore) : Prop :=
  ∃ record next tag tag' rest, record.owner = some claim.owner ∧
    es = ⟨.put claim.key (.record next) (.ifMatch tag), .ok tag'⟩ :: rest ∧
    ⟨.get claim.key, .found (.record record) tag⟩ ∈ rest

section Update

variable {change : HostRetryRecord → Hub RetryStore HostRetryRecord}
  (decides : ∀ record tag past, record.owner = some claim.owner → Emits (fun _ o => o = .now)
    (yields fun next es => RetryChange digest claim.key es call record next) (change record)
    (⟨.get claim.key, .found (.record record) tag⟩ :: past))
include decides

theorem emits_updateOnce : Emits (RetryRule digest call)
      (retrying (fun _ => True) (yields fun _ => UpdateOutcome claim))
      (updateOnce claim change) past := by
  rw [updateOnce, emits_bind, emits_bucketGet]
  refine ⟨fun _ => trivial, ?_, trivial, trivial⟩
  intro v tag
  rw [andThen_ok, emits_bind]
  rcases readRecord_cases v with ⟨record, rfl, parsed, reads⟩ | broken
  · rw [reads, emits_pure, andThen_ok]
    split
    · exact retrying_error trivial trivial
    · next owned =>
      have mine := not_not.mp owned
      have changes : Emits (RetryRule digest call) _ _ _ :=
        (decides record tag past mine).adds.weaken (by rintro es _ _ rfl _; trivial)
      rw [emits_bind]
      refine changes.mono ?_
      rintro out es ⟨result, new, rfl, _⟩
      cases out with
      | error err => exact retrying_error trivial trivial
      | ok next =>
        have read : ⟨.get claim.key, .found (.record record) tag⟩ ∈
            new ++ ⟨.get claim.key, .found (.record record) tag⟩ :: past := by simp
        rw [andThen_ok, emits_bind, emits_casPut]
        refine ⟨rule_swap read parsed result, fun tag' => ?_, trivial, trivial⟩
        exact ⟨record, next, tag, tag', _, mine, rfl, read⟩
  · rw [broken]
    trivial

theorem emits_update : Emits (RetryRule digest call) (yields fun _ => UpdateOutcome claim)
      (update claim change) past :=
  emits_withCasRetry (fun _ _ => emits_updateOnce decides) (fun _ _ => trivial) _ past trivial

end Update

theorem emits_dispatch (claim : HostRetryClaim) (sessionId : Option String) :
    Emits (RetryRule digest (.dispatch claim sessionId))
      (yields fun _ => UpdateOutcome claim) (HostRetries.dispatch claim sessionId) past := by
  refine emits_update (fun record tag past mine => ?_)
  rw [dispatchRecord]
  split
  · trivial
  · next free =>
    refine .dispatched claim sessionId record rfl mine fun bound => ?_
    by_contra different
    exact free ⟨bound, different⟩

theorem emits_finish : Emits (RetryRule digest (.finish claim reply))
      (yields fun _ => UpdateOutcome claim) (HostRetries.finish claim reply) past := by
  refine emits_update (fun record tag past mine => ?_)
  exact ⟨rfl, fun now => .finished claim reply record now tag past rfl mine rfl⟩

/-! ## Compacting -/

theorem emits_compactSettled (parsed : record.wellFormed = true) (unowned : record.owner = none)
    (ended : record.expires.getD 0 ≤ now) : Emits (RetryRule digest .compact) (fun _ _ => True)
      (compactSettled listed record tag age)
      (⟨.now, now⟩ :: ⟨.get listed, .found (.record record) tag⟩ :: past) := by
  rw [compactSettled]
  split
  · rw [emits_bind, emits_bucketDelete]
    exact ⟨fun _ _ => rfl, trivial, trivial⟩
  · split
    · trivial
    · rw [emits_tryCatch, emits_bind, emits_bucketPut]
      refine ⟨?_, fun _ => trivial, trivial, trivial⟩
      exact rule_swap (by simp) parsed (.compacted record now tag past unowned ended rfl)

theorem keeps_compactObject : Keeps (RetryRule digest .compact) (compactObject listed) := by
  intro past
  refine emits_dateNow_then (fun _ => trivial) fun now => ?_
  dsimp only
  split
  · trivial
  · rw [emits_bind, emits_bucketGet]
    refine ⟨fun _ => trivial, fun v tag => ?_, trivial, trivial⟩
    rw [andThen_ok, emits_bind, readSkipping, emits_tryCatch]
    rcases readRecord_cases v with ⟨record, rfl, parsed, reads⟩ | broken
    · rw [reads]
      change Emits _ _ (compactRecord _ _ _ (some record)) _
      rw [compactRecord]
      split
      · trivial
      · next owner =>
        refine emits_dateNow_then (fun _ => trivial) fun later => ?_
        split
        · trivial
        · next ended =>
          exact emits_compactSettled parsed (by simpa using owner) (Nat.le_of_not_lt ended)
    · rw [broken]
      trivial

theorem keeps_compactPage : Keeps (RetryRule digest .compact) (compactPage page) := by
  induction page with
  | nil => exact keeps_ret
  | cons listed rest ih =>
    exact keeps_compactObject.bind fun _ => ih.map

theorem keeps_compactExpired : Keeps (RetryRule digest .compact) compactExpired := by
  have reads (object : Option (BucketObject RetryStore)) :
      Keeps (RetryRule digest .compact) (readCursor object) := by
    cases object with
    | none => exact keeps_ret
    | some object =>
      rw [readCursor]
      split
      · exact keeps_ret
      · exact keeps_raise
  have stores (object : Option (BucketObject RetryStore)) (after : Option String) :
      Keeps (RetryRule digest .compact) (storeCursor object after) := by
    refine Keeps.tryCatch ((keeps_bucketPut fun _ => ?_).map) ?_
    · rintro d ⟨⟩
    · intro err
      cases err <;> first | exact keeps_ret | exact keeps_raise
  refine (keeps_bucketGet fun _ _ => trivial).bind fun object =>
    (reads object).bind fun cursor => ?_
  refine (keeps_bucketList fun _ _ => trivial).bind fun listed => ?_
  exact keeps_compactPage.bind fun _ => (stores _ _).map

/-! ## All calls -/

/-- How a call ends. -/
def CallOutcome (digest : String → String → String) :
    HostCall → Post RetryStore HubError HostResult
  | .acquire scope key fingerprint refresh, .ok (.acquired acquisition), es =>
    AcquireOutcome (.hostRetry (digest scope key)) fingerprint refresh (.ok acquisition) es
  | .acquire _ _ _ _, .ok _, _ => False
  | .acquire scope key fingerprint refresh, .error err, es =>
    AcquireOutcome (.hostRetry (digest scope key)) fingerprint refresh (.error err) es
  | .dispatch claim _, .ok _, es => UpdateOutcome claim es
  | .finish claim _, .ok _, es => UpdateOutcome claim es
  | _, _, _ => True

theorem hostCall_emits (digest : String → String → String) (call : HostCall)
    (past : Log RetryStore) :
    Emits (RetryRule digest call) (CallOutcome digest call) (call.prog digest) past := by
  cases call with
  | acquire scope key fingerprint refresh =>
    exact emits_seq emits_acquire (fun _ _ _ result => result) fun _ _ _ result => result
  | dispatch claim sessionId =>
    exact emits_seq (emits_dispatch claim sessionId) (fun _ _ _ result => result)
  | finish claim reply =>
    exact emits_seq emits_finish (fun _ _ _ result => result)
  | compact =>
    exact emits_seq (keeps_compactExpired past) (fun _ _ _ _ => trivial)

end MarimoHub.Guarantees.HostRetries
