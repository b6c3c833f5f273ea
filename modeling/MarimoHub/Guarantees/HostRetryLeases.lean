import MarimoHub.Guarantees.HostRetryRule

/-!
# Leases, receipts and bindings of an idempotency record

Any number of acquisitions, dispatches, finishes and compactions on the records of a store that
starts empty. `RetryRun.step` says what one event does to a record. From it: the times a record
holds lie in the past of the clock (`RetryRun.timely`), an owner that lost the record does not get
it back (`RetryRun.owner_gone`), a dispatch without a binding is held until its owner settles it
(`RetryRun.held_until`), a receipt answers until it expires or is refreshed
(`RetryRun.receipt_until`), and a carried binding stays anchored to the claim under which it was
dispatched (`RetryRun.anchored`).
-/

namespace MarimoHub.Guarantees.HostRetries

open ObjectStore Source Source.HostRetries

variable {a : Adapter RetryStore} {digest : String → String → String} {calls : Nat → HostCall}
  {t past q u : Trace RetryStore} {x y : Event RetryStore} {d fingerprint : String}
  {now owner expires i : Nat} {record : HostRetryRecord} {reply : HostRetryReply}
  {earlier : Log RetryStore}

/-- The events of the calls, from an empty store. -/
structure RetryRun (a : Adapter RetryStore) (digest : String → String → String)
    (calls : Nat → HostCall) (t : Trace RetryStore) : Prop where
  accepted : Along (Accepts a) t
  rule : ∀ e past, (e :: past) <:+ t →
    ∃ i, e.thread = some i ∧ RetryRule digest (calls i) (own i past) e.op

/-- The calls, none of which has begun. -/
def hosts (digest : String → String → String) (calls : Nat → HostCall) :
    Config RetryStore HubError HostResult :=
  ⟨[], fun i => (calls i).prog digest⟩

theorem run_of_reaches (reach : Reaches a (hosts digest calls) c) :
    History a [] (fun i => (calls i).prog digest) c ∧ RetryRun a digest calls c.trace := by
  have history := reach.history (.empty a)
  refine ⟨history, history.accepted, ?_⟩
  intro e past moment
  obtain ⟨i, mine⟩ := history.thread_of_moment moment (List.nil_suffix)
  exact ⟨i, mine, history.guarantee (fun i => hostCall_emits digest (calls i) []) moment mine⟩

theorem RetryRun.suffix (run : RetryRun a digest calls t) (earlier : past <:+ t) :
    RetryRun a digest calls past :=
  ⟨run.accepted.suffix earlier, fun e q moment => run.rule e q (moment.trans earlier)⟩

/-! ## One event -/

section

variable (digest : String → String → String) (calls : Nat → HostCall) (d : String) (i : Nat)
  (past : Trace RetryStore)

/-- What an event that changed the record did. -/
inductive RetryStep : Option RetryVal → Prop where
  | created (new : HostRetryRecord) : lookup (RetryKey.hostRetry d) past = none →
      RetryCreates digest (.hostRetry d) (calls i) (own i past) new →
      RetryStep (some (.record new))
  | changed (old new : HostRetryRecord) :
      lookup (RetryKey.hostRetry d) past = some (.record old) → old.wellFormed = true →
      RetryChange digest (.hostRetry d) (own i past) (calls i) old new →
      RetryStep (some (.record new))
  | removed : calls i = .compact → RetryStep none

end

theorem RetryRun.step (run : RetryRun a digest calls (x :: past))
    (effect : x.effect (.hostRetry d) = some new) :
    ∃ i, x.thread = some i ∧ RetryStep digest calls d i past new := by
  obtain ⟨i, mine, rule⟩ := run.rule x past List.suffix_rfl
  refine ⟨i, mine, ?_⟩
  have did := Writer.at_effect run.accepted (rule d) effect
  generalize x.op = o at did
  cases did with
  | created v c creates holds =>
    obtain ⟨rfl, record, rfl, creates⟩ := creates
    exact .created record holds creates
  | changed old v tag found changes =>
    obtain ⟨record, next, rfl, rfl, parsed, change⟩ := changes
    exact .changed record next found parsed change
  | removed call => exact .removed call

/-- The clock a client read last lies between the time it read the record and the present. -/
theorem reading_between (mid : Log RetryStore) (accepted : Along (Accepts a) (x :: past))
    (split : own i past = ⟨.now, now⟩ :: (mid ++ ⟨o, r⟩ :: earlier)) :
    ∃ g q, g :: q <:+ past ∧ g.toEv = ⟨o, r⟩ ∧ g.time ≤ now ∧ now ≤ x.time := by
  have inside : (⟨o, r⟩ :: earlier) <:+ own i past := ⟨⟨.now, now⟩ :: mid, by rw [split]; simp⟩
  obtain ⟨g, q, moment, mine, shape, before⟩ := exists_own inside
  have later : own i past = (⟨.now, now⟩ :: mid) ++ own i (g :: q) := by
    rw [own_cons mine, shape, before, split]
    simp
  exact ⟨g, q, moment, shape, clock_between accepted moment mine later (.head _)⟩

/-- The record that was read, and when, under a reading of the clock. -/
theorem read_before (mid : Log RetryStore) (accepted : Along (Accepts a) (x :: past))
    (split : own i past = ⟨.now, now⟩ :: (mid ++ ⟨.get k, .found (.record old) tag⟩ :: earlier)) :
    ∃ g q, g :: q <:+ past ∧ lookup k q = some (.record old) ∧ lastTime q ≤ now ∧
      now ≤ x.time := by
  obtain ⟨g, q, moment, shape, before, after⟩ := reading_between mid accepted split
  have accepts := accepted.2.at moment
  exact ⟨g, q, moment, (accepts.tagged shape).1, Nat.le_trans accepts.forward before, after⟩

/-! ## Times -/

/-- The times of a record are not ahead of the clock. -/
def Timely (now : Nat) (record : HostRetryRecord) : Prop :=
  record.claimedAt ≤ now ∧ ∀ expires, record.expires = some expires →
    expires ≤ now + hostRetryWindowMs

theorem Timely.later {later : Nat} (timely : Timely now record) (order : now ≤ later) :
    Timely later record :=
  ⟨Nat.le_trans timely.1 order, fun expires found =>
    Nat.le_trans (timely.2 expires found) (Nat.add_le_add_right order _)⟩

/-- The expiry a record has, or is given when it is recovered or settled. -/
theorem Timely.expiry (timely : Timely now record) (bound : anchor ≤ now) :
    record.expires.getD (anchor + hostRetryWindowMs) ≤ now + hostRetryWindowMs := by
  cases found : record.expires with
  | none => exact Nat.add_le_add_right bound _
  | some expires => exact timely.2 expires found

variable {later : Nat}

theorem Timely.claimRecord (fingerprint : String) (owner : Nat) (order : now ≤ later)
    (timely : ∀ record, previous = some record → Timely later record) :
    Timely later (claimRecord previous fingerprint owner now) := by
  cases previous with
  | none => exact ⟨order, by simp [HostRetries.claimRecord]⟩
  | some record =>
    rw [HostRetries.claimRecord]
    split
    · refine ⟨order, ?_⟩
      rintro _ ⟨⟩
      exact (timely record rfl).expiry (timely record rfl).1
    · exact ⟨order, by simp⟩

theorem Timely.settle (timely : Timely later record) (order : now ≤ later)
    (reply : Option HostRetryReply) : Timely later (settleHostRetryClaim record reply now) := by
  rw [settleHostRetryClaim]
  split
  · exact timely
  · refine ⟨timely.1, ?_⟩
    rintro _ ⟨⟩
    split
    · split
      · exact timely.expiry timely.1
      · exact timely.expiry order
    · exact Nat.zero_le _

/-- The times of a stored record lie in the past, and those of a claimed one before its claim. -/
def StoredTimely (d : String) (t : Trace RetryStore) : Prop :=
  ∀ record, lookup (RetryKey.hostRetry d) t = some (.record record) → Timely (lastTime t) record ∧
    (record.owner.isSome = true → Timely record.claimedAt record)

theorem RetryRun.timely (run : RetryRun a digest calls t) : StoredTimely d t := by
  refine every_moment (fun _ found => by cases found) ?_
  intro x past moment all record found
  have inside := run.suffix moment
  have order := inside.accepted.1.forward
  rcases found_cons found with kept | effect
  · obtain ⟨before, owned⟩ := all past List.suffix_rfl record kept
    exact ⟨before.later order, owned⟩
  obtain ⟨i, mine, step⟩ := inside.step effect
  cases step with
  | created _ absent creates =>
    obtain ⟨_, _, fingerprint, _, owner, now, _, _, _, rfl, trail⟩ := creates
    obtain ⟨_, _, _, _, _, upper⟩ := reading_between [⟨.mint, owner⟩] inside.accepted trail
    exact ⟨Timely.claimRecord fingerprint owner upper (by simp),
      fun _ => Timely.claimRecord fingerprint owner (Nat.le_refl now) (by simp)⟩
  | changed old _ present _ change =>
    obtain ⟨before, owned⟩ := all past List.suffix_rfl old present
    have before := before.later order
    generalize calls i = call at change
    cases change with
    | claimed _ _ fingerprint _ _ _ owner now _ _ _ decided trail =>
      obtain ⟨_, u, earlier, read, lower, upper⟩ :=
        read_before [⟨.mint, owner⟩] inside.accepted trail
      have when := ((all u earlier.past old read).1).later lower
      rw [(decide_claim decided).2.2, claimRecord_owner.2.1]
      refine ⟨Timely.claimRecord fingerprint owner upper ?_,
        fun _ => Timely.claimRecord fingerprint owner (Nat.le_refl now) ?_⟩
      · rintro _ ⟨⟩
        exact before
      · rintro _ ⟨⟩
        exact when
    | dispatched => exact ⟨before, owned⟩
    | finished _ reply _ now _ _ _ _ trail =>
      obtain ⟨_, _, _, _, _, upper⟩ := read_before [] inside.accepted trail
      refine ⟨before.settle upper reply, fun claimed => ?_⟩
      rw [settleHostRetryClaim] at claimed ⊢
      split at claimed
      · next kept =>
        rw [if_pos kept]
        exact owned claimed
      · cases claimed
    | compacted => exact ⟨⟨before.1, by rintro _ ⟨⟩; exact Nat.zero_le _⟩, nofun⟩

/-! ## Owners -/

/-- An attempt obtains the claim with this owner. -/
def Obtains (calls : Nat → HostCall) (d : String) (owner : Nat) (x : Event RetryStore) : Prop :=
  ∃ i scope key fingerprint refresh record, x.thread = some i ∧
    calls i = .acquire scope key fingerprint refresh ∧
    x.effect (.hostRetry d) = some (some (.record record)) ∧ record.owner = some owner

/-- The claim was written by client `i`, which decided so from the record `previous` and the
reading `now` of the clock. -/
structure ObtainedBy (digest : String → String → String) (calls : Nat → HostCall) (d : String)
    (owner : Nat) (past : Trace RetryStore) (x : Event RetryStore) (i now : Nat)
    (fingerprint : String) (refresh : Bool) (previous : Option HostRetryRecord) : Prop where
  mine : x.thread = some i
  call : ∃ scope key, calls i = .acquire scope key fingerprint refresh ∧ d = digest scope key
  trail : ∃ seen earlier, Saw (.hostRetry d) seen previous ∧
    own i past = ⟨.now, now⟩ :: ⟨.mint, owner⟩ :: seen :: earlier
  stored : lookup (RetryKey.hostRetry d) past = previous.map RetryVal.record
  decided : decideHostRetryAcquire previous fingerprint refresh owner now =
    .claim (claimRecord previous fingerprint owner now)
  effect : x.effect (.hostRetry d) =
    some (some (.record (claimRecord previous fingerprint owner now)))

theorem RetryRun.obtained (run : RetryRun a digest calls (x :: past))
    (obtains : Obtains calls d owner x) : ∃ i now fingerprint refresh previous,
      ObtainedBy digest calls d owner past x i now fingerprint refresh previous := by
  obtain ⟨i, scope, key, fingerprint, refresh, record, mine, call, effect, owned⟩ := obtains
  obtain ⟨j, also, step⟩ := run.step effect
  cases Option.some.inj (mine.symm.trans also)
  cases step with
  | created _ absent creates =>
    obtain ⟨scope', key', fingerprint', refresh', owner', now, earlier, same, here, rfl, trail⟩ :=
      creates
    rw [call] at same
    cases same
    cases owned
    exact ⟨i, now, fingerprint, refresh, none, mine,
      ⟨scope, key, call, RetryKey.hostRetry.inj here⟩,
      ⟨_, earlier, rfl, trail⟩, absent, rfl, effect⟩
  | changed old _ present parsed change =>
    rw [call] at change
    cases change with
    | claimed _ _ _ _ _ _ owner' now tag earlier here decided trail =>
      have shape := (decide_claim decided).2.2
      rw [shape] at owned effect decided
      rw [claimRecord_owner.1] at owned
      cases owned
      exact ⟨i, now, fingerprint, refresh, some old, mine,
        ⟨scope, key, call, RetryKey.hostRetry.inj here⟩, ⟨_, earlier, ⟨parsed, tag, rfl⟩, trail⟩,
        present, decided, effect⟩

theorem RetryRun.obtained_once (run : RetryRun a digest calls t) (left : x :: past <:+ t)
    (right : y :: q <:+ t) (first : Obtains calls d owner x) (second : Obtains calls d owner y) :
    x :: past = y :: q := by
  have puts {z : Event RetryStore} (obtains : Obtains calls d owner z) :
      Puts (B := RetryStore) (.hostRetry d) z.toEv := by
    obtain ⟨_, _, _, _, _, record, _, _, effect, _⟩ := obtains
    obtain ⟨c, r, shape, _⟩ := effect_write effect
    exact ⟨_, c, r, shape⟩
  have clear (now : Nat) : ∀ ev ∈ ([⟨.now, now⟩] : Log RetryStore),
      ¬ Puts (B := RetryStore) (.hostRetry d) ev := by
    rintro ev member ⟨v, c, r, shape⟩
    rw [List.mem_singleton.mp member] at shape
    cases shape
  obtain ⟨i, now, _, _, _, one⟩ := (run.suffix left).obtained first
  obtain ⟨j, now', _, _, _, other⟩ := (run.suffix right).obtained second
  obtain ⟨_, _, _, trail⟩ := one.trail
  obtain ⟨_, _, _, trail'⟩ := other.trail
  exact first_after_mint run.accepted left right one.mine other.mine (puts first) (puts second)
    trail (clear now) trail' (clear now')

/-- Nobody with this owner holds the record. -/
def Unheld (d : String) (owner : Nat) (t : Trace RetryStore) : Prop :=
  ∀ record, lookup (RetryKey.hostRetry d) t = some (.record record) →
    record.owner ≠ some owner

theorem RetryRun.owner_gone (run : RetryRun a digest calls t) (obtains : Obtains calls d owner x)
    (before : x :: past <:+ u) (start : u <:+ t) (gone : Unheld d owner u) :
    Unheld d owner t := by
  refine lasts start gone ?_
  intro y q moment above earlier record found
  have inside := run.suffix moment
  -- nobody obtains the claim of this owner a second time
  have never : ¬ Obtains calls d owner y := by
    intro again
    exact not_earlier (run.obtained_once moment (before.trans start) again obtains).symm
      (before.trans above)
  rcases found_cons found with kept | effect
  · exact earlier record kept
  · intro owned
    obtain ⟨i, mine, step⟩ := inside.step effect
    cases step with
    | created _ _ creates =>
      obtain ⟨scope, key, fingerprint, refresh, _, _, _, call, _⟩ := creates
      exact never ⟨i, scope, key, fingerprint, refresh, record, mine, call, effect, owned⟩
    | changed old _ present _ change =>
      generalize called : calls i = call at change
      cases change with
      | claimed scope key fingerprint refresh =>
        exact never ⟨i, scope, key, fingerprint, refresh, record, mine, called, effect, owned⟩
      | dispatched => exact earlier old present owned
      | finished _ reply _ now =>
        rw [settleHostRetryClaim] at owned
        split at owned
        · exact earlier old present owned
        · cases owned
      | compacted => cases owned

/-! ## A dispatch without a binding -/

/-- No record of this key is deleted. -/
def Undeleted (d : String) (t : Trace RetryStore) : Prop :=
  ∀ e ∈ t, e.effect (.hostRetry d) ≠ some none

/-- The record is dispatched by this owner and not bound to a runtime. -/
def HeldBy (d : String) (owner : Nat) (t : Trace RetryStore) : Prop :=
  ∃ record, lookup (RetryKey.hostRetry d) t = some (.record record) ∧
    record.owner = some owner ∧ record.dispatched = true ∧ record.bound = false

/-- The owner's finish with a reply, or a dispatch that binds the claim after all. -/
def Settles (calls : Nat → HostCall) (d : String) (owner : Nat) (x : Event RetryStore) : Prop :=
  ∃ i claim, x.thread = some i ∧ claim.key = .hostRetry d ∧ claim.owner = owner ∧
    ((∃ reply, calls i = .finish claim (some reply)) ∨
      ∃ sessionId, isBound sessionId = true ∧ calls i = .dispatch claim sessionId) ∧
    (x.effect (.hostRetry d)).isSome = true

theorem HeldBy.held (owned : record.owner = some owner) (dispatched : record.dispatched = true)
    (unbound : record.bound = false) : leaseOf (some record) now = .held := by
  simp [leaseOf, leaseState, owned, dispatched, unbound]

theorem RetryRun.held_until (run : RetryRun a digest calls t) (undeleted : Undeleted d t)
    (start : u <:+ t) (held : HeldBy d owner u) :
    HeldBy d owner t ∨ ∃ z p, z :: p <:+ t ∧ u <:+ p ∧ HeldBy d owner p ∧
      Settles calls d owner z := by
  refine until_run start held ?_
  intro y q moment above ⟨record, found, owned, dispatched, unbound⟩
  cases effect : y.effect (.hostRetry d) with
  | none => exact .inl ⟨record, (lookup_of_no_effect effect).trans found, owned,
    dispatched, unbound⟩
  | some new =>
    have present : (y.effect (.hostRetry d)).isSome = true := by rw [effect]; rfl
    have after : lookup (RetryKey.hostRetry d) (y :: q) = new := lookup_of_effect effect
    obtain ⟨i, mine, step⟩ := (run.suffix moment).step effect
    cases step with
    | created _ absent _ =>
      rw [absent] at found
      cases found
    | removed _ => exact absurd effect (undeleted y (moment.subset (.head _)))
    | changed old _ stored _ change =>
      rw [stored] at found
      cases found
      generalize called : calls i = call at change
      cases change with
      | claimed _ _ _ _ _ _ _ _ _ _ _ decided _ =>
        exact absurd (HeldBy.held owned dispatched unbound) (decide_claim decided).1
      | dispatched claim sessionId _ here mine' _ =>
        rw [owned] at mine'
        cases bound : isBound sessionId with
        | true => exact .inr ⟨i, claim, mine, here, (Option.some.inj mine').symm,
            .inr ⟨sessionId, bound, called⟩, present⟩
        | false => exact .inl ⟨_, after, owned, rfl, bound⟩
      | finished claim reply _ now _ _ here mine' _ =>
        rw [owned] at mine'
        cases reply with
        | some reply => exact .inr ⟨i, claim, mine, here, (Option.some.inj mine').symm,
            .inl ⟨reply, called⟩, present⟩
        | none =>
          rw [settleHostRetryClaim, if_pos ⟨rfl, dispatched, by simp [unbound]⟩] at after
          exact .inl ⟨record, after, owned, dispatched, unbound⟩
      | compacted _ _ _ _ unowned _ _ =>
        rw [owned] at unowned
        cases unowned

/-! ## A receipt -/

/-- The record is a receipt that answers with `reply` until `expires`. -/
structure Receipt (reply : HostRetryReply) (expires : Nat) (record : HostRetryRecord) : Prop where
  parsed : record.wellFormed = true
  unowned : record.owner = none
  answers : record.reply = some reply
  until_then : record.expires = some expires

/-- A refresh obtains a claim. -/
def Refreshes (calls : Nat → HostCall) (d : String) (x : Event RetryStore) : Prop :=
  ∃ i scope key fingerprint owner, x.thread = some i ∧
    calls i = .acquire scope key fingerprint true ∧ Obtains calls d owner x

section

variable (receipt : Receipt reply expires record)
include receipt

theorem Receipt.decides (before : now < expires) :
    decideHostRetryAcquire (some record) record.fingerprint false owner now = .reply reply := by
  have free : leaseOf (some record) now = .free := by simp [leaseOf, receipt.unowned]
  have retained : isRetained (some record) now = true := by
    simp [isRetained, receipt.until_then, before]
  have stored : storedReply (some record) false now = some reply := by
    simp [storedReply, receipt.answers, retained]
  simp [decideHostRetryAcquire, free, stored]

theorem Receipt.conflicts
    (before : now < expires) (other : record.fingerprint ≠ fingerprint) :
    decideHostRetryAcquire (some record) fingerprint refresh owner now = .conflict := by
  have retained : isRetained (some record) now = true := by
    simp [isRetained, receipt.until_then, before]
  simp [decideHostRetryAcquire, retained, other]

theorem Receipt.not_claimed (before : now < expires) :
    decideHostRetryAcquire (some record) fingerprint false owner now ≠ .claim new := by
  by_cases same : record.fingerprint = fingerprint
  · rw [← same, receipt.decides before]
    simp
  · rw [receipt.conflicts before same]
    simp

end

/-- A receipt stays until its expiry, up to a refresh. -/
theorem RetryRun.receipt_until (run : RetryRun a digest calls t) (undeleted : Undeleted d t)
    (receipt : Receipt reply expires record) (start : u <:+ t)
    (found : lookup (RetryKey.hostRetry d) u = some (.record record))
    (early : lastTime t < expires) :
    lookup (RetryKey.hostRetry d) t = some (.record record) ∨
      ∃ z p, z :: p <:+ t ∧ u <:+ p ∧
        lookup (RetryKey.hostRetry d) p = some (.record record) ∧
        Refreshes calls d z := by
  refine until_run (P := fun u => lookup (B := RetryStore) (.hostRetry d) u = some (.record record))
    start found ?_
  intro y q moment above stored
  have inside := run.suffix moment
  have time : y.time < expires := Nat.lt_of_le_of_lt (time_le_lastTime run.accepted moment) early
  cases effect : y.effect (.hostRetry d) with
  | none => exact .inl ((lookup_of_no_effect effect).trans stored)
  | some new =>
    obtain ⟨i, mine, step⟩ := inside.step effect
    cases step with
    | created _ absent _ =>
      rw [absent] at stored
      cases stored
    | removed _ => exact absurd effect (undeleted y (moment.subset (.head _)))
    | changed old new present _ change =>
      rw [present] at stored
      cases stored
      generalize called : calls i = call at change
      cases change with
      | claimed scope key fingerprint refresh _ _ owner now _ _ _ decided trail =>
        obtain ⟨_, _, _, _, _, upper⟩ := read_before [⟨.mint, owner⟩] inside.accepted trail
        cases refresh with
        | false => exact absurd decided (receipt.not_claimed (Nat.lt_of_le_of_lt upper time))
        | true =>
          have owned : new.owner = some owner := by
            rw [(decide_claim decided).2.2]
            exact claimRecord_owner.1
          exact .inr ⟨i, scope, key, fingerprint, owner, mine, called,
            i, scope, key, fingerprint, true, new, mine, called, effect, owned⟩
      | dispatched _ _ _ _ owned _ =>
        rw [receipt.unowned] at owned
        cases owned
      | finished _ _ _ _ _ _ _ owned _ =>
        rw [receipt.unowned] at owned
        cases owned
      | compacted _ now _ _ _ ended trail =>
        obtain ⟨_, _, _, _, _, upper⟩ := read_before [] inside.accepted trail
        rw [receipt.until_then, Option.getD_some] at ended
        omega

/-! ## A binding -/

/-- The record is bound to this runtime. -/
def CarriedIn (d session : String) (t : Trace RetryStore) : Prop :=
  ∃ record, lookup (RetryKey.hostRetry d) t = some (.record record) ∧
    record.sessionId = some session

/-- Whatever the record says of its expiry, it counts from this claim. -/
def Anchored (d : String) (claimedAt : Nat) (t : Trace RetryStore) : Prop :=
  ∀ record, lookup (RetryKey.hostRetry d) t = some (.record record) →
    record.expires.getD (record.claimedAt + hostRetryWindowMs) ≤ claimedAt + hostRetryWindowMs

/-- A carried binding stays anchored to the claim it was dispatched under. -/
theorem RetryRun.anchored (run : RetryRun a digest calls t) (named : session ≠ "") (start : u <:+ t)
    (carried : ∀ v, u <:+ v → v <:+ t → CarriedIn d session v) (anchored : Anchored d claimedAt u) :
    Anchored d claimedAt t := by
  refine lasts start anchored ?_
  intro y q moment above before record found
  obtain ⟨carrying, found', bound⟩ := carried (y :: q) (above.cons) moment
  rw [found] at found'
  cases found'
  rcases found_cons found with kept | effect
  · exact before record kept
  · obtain ⟨i, mine, step⟩ := (run.suffix moment).step effect
    obtain ⟨former, stored, formerly⟩ := carried q above moment.past
    cases step with
    | created _ absent _ =>
      rw [absent] at stored
      cases stored
    | changed old _ present _ change =>
      rw [present] at stored
      cases stored
      have earlier := before former present
      generalize calls i = call at change
      cases change with
      | claimed _ _ fingerprint _ _ _ owner now _ _ _ decided _ =>
        rw [(decide_claim decided).2.2, claimRecord] at bound ⊢
        split at bound
        · next retained =>
          rw [if_pos retained, Option.getD_some]
          exact earlier
        · cases bound
      | dispatched => exact earlier
      | finished _ reply _ now =>
        have isBound : former.bound = true := by
          simp [HostRetryRecord.bound, HostRetries.isBound, formerly, named]
        rw [settleHostRetryClaim]
        split
        · exact earlier
        · simpa [isBound] using earlier
      | compacted => cases bound

end MarimoHub.Guarantees.HostRetries
