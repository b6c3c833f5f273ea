import Mathlib.Data.List.Perm.Subperm
import MarimoHub.ObjectStore.Record
import MarimoHub.Source.OAuthRateLimit

/-!
# The quota of an OAuth endpoint

A call that is let through appends its timestamp to the stored ones that lie in its window. When
no stored timestamp is later than the one that is appended, the log keeps everything that a
later window can count (`Tracks.admit`), so no window holds more calls than the limit
(`calls_in_window_le_limit`). A call that stalled after it read the clock drops the timestamps
that were stored meanwhile, and the window they lie in overflows
(`stalled_call_exceeds_limit`).
-/

namespace MarimoHub.Guarantees.RateLimits

open ObjectStore Source Source.RateLimits Prog

/-! ## A sliding window over a pruned log -/

/-- The log stands for the hits: it covers them, it counts at least as many in every window that
ends after all of them, and no window has more than `limit`. -/
structure Tracks (windowMs limit : Nat) (hits log : List Nat) : Prop where
  covered : ∀ hit ∈ hits, ∃ s ∈ log, hit ≤ s
  counted : ∀ now, (∀ hit ∈ hits, hit ≤ now) →
    hits.countP (fun hit => decide (now - hit < windowMs)) ≤
      log.countP fun s => decide (now - s < windowMs)
  bounded : ∀ start,
    hits.countP (fun hit => decide (start ≤ hit ∧ hit < start + windowMs)) ≤ limit

theorem Tracks.nil (windowMs limit : Nat) (log : List Nat) : Tracks windowMs limit [] log :=
  ⟨by simp, by simp, by simp⟩

theorem Tracks.admit (tracks : Tracks windowMs limit hits log) (ordered : ∀ s ∈ log, s ≤ now)
    (room : (log.filter (counts windowMs now)).length < limit) :
    Tracks windowMs limit (now :: hits) (log.filter (counts windowMs now) ++ [now]) := by
  have latest : ∀ hit ∈ hits, hit ≤ now := by
    intro hit member
    obtain ⟨s, inside, below⟩ := tracks.covered hit member
    exact Nat.le_trans below (ordered s inside)
  refine ⟨?_, ?_, ?_⟩
  · intro hit member
    refine ⟨now, by simp, ?_⟩
    rcases List.mem_cons.mp member with rfl | earlier
    · exact Nat.le_refl _
    · exact latest hit earlier
  · intro later after
    have here : now ≤ later := after now (.head _)
    -- what is pruned now is out of every later window
    have kept : log.countP (fun s => decide (later - s < windowMs)) ≤
        (log.filter (counts windowMs now)).countP fun s => decide (later - s < windowMs) := by
      rw [List.countP_filter]
      refine List.countP_mono_left fun s member inside => ?_
      have below := ordered s member
      simp only [decide_eq_true_eq, counts, Bool.and_eq_true] at inside ⊢
      omega
    have before := tracks.counted later fun hit member => after hit (.tail _ member)
    simp only [List.countP_cons, List.countP_append]
    omega
  · intro start
    rw [List.countP_cons]
    by_cases inside : start ≤ now ∧ now < start + windowMs
    · have before := tracks.counted now latest
      have same : log.countP (fun s => decide (now - s < windowMs)) ≤
          (log.filter (counts windowMs now)).length := by
        rw [← List.countP_eq_length_filter]
        refine List.countP_mono_left fun s member window => ?_
        have below := ordered s member
        simp only [decide_eq_true_eq, counts, Bool.and_eq_true] at window ⊢
        exact ⟨below, window⟩
      have narrower : hits.countP (fun hit => decide (start ≤ hit ∧ hit < start + windowMs)) ≤
          hits.countP fun hit => decide (now - hit < windowMs) := by
        refine List.countP_mono_left fun hit _ window => ?_
        simp only [decide_eq_true_eq] at window ⊢
        omega
      simp only [inside, and_self, decide_true, if_true]
      omega
    · simp only [inside]
      exact tracks.bounded start

/-! ## One call -/

/-- The clock a call read. -/
def timestampOf : Log RateLimitStore → Option Nat
  | [] => none
  | ⟨.now, timestamp⟩ :: _ => some timestamp
  | _ :: es => timestampOf es

/-- A call appends its timestamp to what its window keeps of the stored ones. -/
def rateWriter (endpoint : OAuthRateLimitEndpoint) : Writer RateLimitStore where
  creates es v cond := cond = .ifAbsent ∧ ∃ timestamp, timestampOf es = some timestamp ∧
    v = some [timestamp]
  changes es old v := ∃ timestamp stored, timestampOf es = some timestamp ∧ old = some stored ∧
    (stored.filter (counts (oauthRateLimits endpoint).windowMs timestamp)).length <
      (oauthRateLimits endpoint).limit ∧
    v = some (stored.filter (counts (oauthRateLimits endpoint).windowMs timestamp) ++ [timestamp])
  removes _ := False

def RateRule (endpoint : OAuthRateLimitEndpoint) (es : Log RateLimitStore) :
    Op RateLimitStore → Prop
  | .put k v cond => k = endpoint ∧ (rateWriter endpoint).Writes k es v cond
  | .delete _ => False
  | _ => True

/-- The last thing a call did was to store its timestamp, and the write was acknowledged. -/
def Recorded (endpoint : OAuthRateLimitEndpoint) (es : Log RateLimitStore) : Prop :=
  ∃ v cond tag rest timestamp, es = ⟨.put endpoint v cond, .ok tag⟩ :: rest ∧
    timestampOf rest = some timestamp

variable {endpoint : OAuthRateLimitEndpoint} {timestamp i : Nat} {t past : Trace RateLimitStore}

theorem limit_pos : 0 < (oauthRateLimits endpoint).limit := by
  cases endpoint <;> decide

theorem emits_consumeAttempt (past : Log RateLimitStore)
    (read : timestampOf past = some timestamp) : Emits (RateRule endpoint)
      (retrying (fun es => timestampOf es = some timestamp)
        (yields fun told es => told = true → Recorded endpoint es))
      (consumeAttempt endpoint timestamp) past := by
  rw [consumeAttempt, emits_bind, emits_bucketGet]
  refine ⟨trivial, fun v tag => ?_, ?_, trivial⟩
  · rw [andThen_ok, emits_bind]
    cases v with
    | none => trivial
    | some stored =>
      simp only [storedTimestamps, emits_ite]
      refine ⟨fun _ => ?_, fun _ => trivial⟩
      rw [emits_pure, andThen_ok, emits_ite]
      refine ⟨fun _ => nofun, fun room => ?_⟩
      rw [emits_bind, emits_casPut]
      exact ⟨⟨rfl, some stored, .inl (.head _), timestamp, stored, read, rfl,
        Nat.lt_of_not_le room, rfl⟩, fun tag' _ => ⟨_, _, tag', _, timestamp, rfl, read⟩,
          read, trivial⟩
  · simp only [andThen_ok, emits_bind, storedTimestamps, emits_pure,
      List.filter_nil, List.length_nil, Nat.not_le.mpr limit_pos, if_false,
      emits_casPut]
    exact ⟨⟨rfl, rfl, timestamp, read, rfl⟩, fun tag' _ => ⟨_, _, tag', _, timestamp, rfl, read⟩,
      read, trivial⟩

theorem emits_consume {past : Log RateLimitStore} :
    Emits (RateRule endpoint) (yields fun told es => told = true → Recorded endpoint es)
      (consume retries endpoint) past := by
  refine emits_dateNow_then trivial fun timestamp => ?_
  rw [emits_tryCatch]
  refine (emits_withCasRetry emits_consumeAttempt (fun _ _ => trivial) retries _ rfl).mono ?_
  intro out es result
  cases out with
  | ok told => exact result
  | error err =>
    cases err with
    | conflict message => exact nofun
    | _ => trivial

/-! ## Whole runs -/

section Runs

variable {a : Adapter RateLimitStore} {seeds : Trace RateLimitStore} {retries : Nat → Nat}
  {endpoints : Nat → OAuthRateLimitEndpoint} {c : Config RateLimitStore HubError Bool}
  {endpoint : OAuthRateLimitEndpoint}

def storedAt (endpoint : OAuthRateLimitEndpoint) (t : Trace RateLimitStore) : List Nat :=
  (lookup endpoint t).join.getD []

/-- The timestamp of the call that made an event. -/
def caller (x : Event RateLimitStore) (past : Trace RateLimitStore) : Option (Nat × Nat) :=
  x.thread.bind fun i => (timestampOf (own i past)).map fun timestamp => (i, timestamp)

/-- The calls that stored their timestamps, with them. -/
def commits (endpoint : OAuthRateLimitEndpoint) : Trace RateLimitStore → List (Nat × Nat)
  | [] => []
  | x :: past =>
    if x.effect endpoint = none then commits endpoint past
    else (caller x past).toList ++ commits endpoint past

/-- No timestamp is stored over a later one. -/
def storesInOrder (endpoint : OAuthRateLimitEndpoint) : Trace RateLimitStore → Bool
  | [] => true
  | x :: past => ((x.effect endpoint).isNone || (caller x past).all fun own =>
      (storedAt endpoint past).all (· ≤ own.2)) && storesInOrder endpoint past

theorem storesInOrder_suffix (below : past <:+ t) (ordered : storesInOrder endpoint t = true) :
    storesInOrder endpoint past = true := by
  induction t with
  | nil => exact List.suffix_nil.mp below ▸ ordered
  | cons x rest ih =>
    rcases List.suffix_cons_iff.mp below with same | inside
    · exact same ▸ ordered
    · exact ih inside (Bool.and_eq_true_iff.mp ordered).2

theorem commits_seeds (initial : Seeds a seeds) : commits endpoint seeds = [] := by
  have anonymous := initial.anonymous
  clear initial
  induction seeds with
  | nil => rfl
  | cons x past ih =>
    have rest := ih fun e member => anonymous e (.tail _ member)
    simp [commits, caller, anonymous x (.head _), rest]

theorem at_commit (history : History a seeds (fun i => consume (retries i) (endpoints i)) c)
    (moment : x :: past <:+ c.trace)
    (mine : x.thread = some i) (effect : x.effect endpoint = some new) :
    ∃ timestamp, timestampOf (own i past) = some timestamp ∧ ((storedAt endpoint past).filter
        (counts (oauthRateLimits endpoint).windowMs timestamp)).length <
          (oauthRateLimits endpoint).limit ∧ new = some (some ((storedAt endpoint past).filter
        (counts (oauthRateLimits endpoint).windowMs timestamp) ++ [timestamp])) := by
  have accepted := history.accepted.suffix moment
  have rule := history.guarantee (fun i => emits_consume) moment mine
  have allows : (rateWriter endpoint).Allows endpoint (own i past) x.op := by
    generalize x.op = o at rule
    cases o with
    | put k v cond =>
      rintro rfl
      obtain ⟨rfl, writes⟩ := rule
      exact writes
    | delete k => exact rule.elim
    | _ => trivial
  have did := Writer.at_effect accepted allows effect
  generalize x.op = o at did
  cases did with
  | created v cond writes absent =>
    obtain ⟨rfl, timestamp, read, rfl⟩ := writes
    have none : storedAt endpoint past = [] := by
      rw [storedAt, show lookup endpoint past = none from absent]
      rfl
    rw [none]
    exact ⟨timestamp, read, limit_pos, rfl⟩
  | changed old v tag found changes =>
    obtain ⟨timestamp, stored, read, rfl, room, rfl⟩ := changes
    have same : storedAt endpoint past = stored := by
      rw [storedAt, found]
      rfl
    rw [same]
    exact ⟨timestamp, read, room, rfl⟩
  | removed never => exact never.elim

/-- The record of an endpoint stands for the calls that were let through. -/
theorem record_tracks (initial : Seeds a seeds)
    (history : History a seeds (fun i => consume (retries i) (endpoints i)) c)
    (ordered : storesInOrder endpoint c.trace = true) :
    Tracks (oauthRateLimits endpoint).windowMs (oauthRateLimits endpoint).limit
      ((commits endpoint c.trace).map Prod.snd) (storedAt endpoint c.trace) := by
  refine lasts (P := fun u => Tracks (oauthRateLimits endpoint).windowMs
    (oauthRateLimits endpoint).limit ((commits endpoint u).map Prod.snd) (storedAt endpoint u))
    history.based ?_ ?_
  · rw [commits_seeds initial]
    exact .nil _ _ _
  intro x past moment above tracks
  obtain ⟨i, mine⟩ := history.thread_of_moment moment above
  cases effect : x.effect endpoint with
  | none =>
    have same : storedAt endpoint (x :: past) = storedAt endpoint past := by
      rw [storedAt, lookup_of_no_effect effect, storedAt]
    rw [commits, if_pos effect, same]
    exact tracks
  | some new =>
    obtain ⟨timestamp, read, room, rfl⟩ := at_commit history moment mine effect
    have called : caller x past = some (i, timestamp) := by simp [caller, mine, read]
    have earlier := (Bool.and_eq_true_iff.mp (storesInOrder_suffix moment ordered)).1
    rw [effect, called] at earlier
    have stored : storedAt endpoint (x :: past) = (storedAt endpoint past).filter
        (counts (oauthRateLimits endpoint).windowMs timestamp) ++ [timestamp] := by
      rw [storedAt, lookup_of_effect effect]
      rfl
    rw [commits, if_neg (by simp [effect]), called, stored]
    exact tracks.admit (by simpa using earlier) room

theorem commits_suffix (below : past <:+ t) : commits endpoint past ⊆ commits endpoint t := by
  refine lasts (P := fun u => commits endpoint past ⊆ commits endpoint u) below
    (List.Subset.refl _) ?_
  intro x rest _ _ kept entry member
  rw [commits]
  split
  · exact kept member
  · exact List.mem_append_right _ (kept member)

theorem commit_of_told (history : History a seeds (fun i => consume (retries i) (endpoints i)) c)
    (told : c.prog i = .ret true) (read : timestampOf (own i c.trace) = some timestamp) :
    (i, timestamp) ∈ commits (endpoints i) c.trace := by
  obtain ⟨v, cond, tag, rest, timestamp', wrote, earlier⟩ :=
    history.returned emits_consume told rfl
  rw [wrote] at read
  cases earlier.symm.trans read
  obtain ⟨x, past, moment, mine, before, _, effect, _⟩ :=
    own_written history.accepted ⟨[], wrote.symm⟩
  refine commits_suffix moment ?_
  rw [commits, if_neg (by simp [effect])]
  simp [caller, mine, before, earlier]

/-- Among the calls that were let through, at most `limit` have their timestamps in one window,
when no timestamp is stored over a later one. -/
theorem calls_in_window_le_limit (initial : Seeds a seeds) (retries : Nat → Nat)
    (endpoints : Nat → OAuthRateLimitEndpoint)
    (reach : Reaches a ⟨seeds, fun i => consume (retries i) (endpoints i)⟩ c)
    (endpoint : OAuthRateLimitEndpoint) (ordered : storesInOrder endpoint c.trace = true)
    (start : Nat) (admitted : List Nat) (distinct : admitted.Nodup)
    (within : ∀ i ∈ admitted, endpoints i = endpoint ∧ c.prog i = .ret true ∧
      ∃ timestamp, timestampOf (own i c.trace) = some timestamp ∧
        start ≤ timestamp ∧ timestamp < start + (oauthRateLimits endpoint).windowMs) :
    admitted.length ≤ (oauthRateLimits endpoint).limit := by
  have history := reach.history initial
  have tracks := record_tracks initial history ordered
  have listed : admitted ⊆ ((commits endpoint c.trace).filter fun entry => decide
      (start ≤ entry.2 ∧ entry.2 < start + (oauthRateLimits endpoint).windowMs)).map Prod.fst := by
    intro i member
    obtain ⟨rfl, told, timestamp, read, window⟩ := within i member
    have entry := commit_of_told history told read
    exact List.mem_map.mpr ⟨_, List.mem_filter.mpr ⟨entry, decide_eq_true window⟩, rfl⟩
  have few := (List.subperm_of_subset distinct listed).length_le
  have bounded := tracks.bounded start
  rw [List.countP_map, List.countP_eq_length_filter] at bounded
  rw [List.length_map] at few
  exact Nat.le_trans few bounded

end Runs

/-! ## A stalled call -/

namespace Stalled

def adapter : Adapter RateLimitStore := ⟨fun _ version => version, 0⟩

def start : Config RateLimitStore HubError Bool := ⟨[], fun _ => consume 5 .authorize⟩

/-- A call that nothing comes between. -/
def whole (i time : Nat) : List (Move RateLimitStore) := List.replicate 3 ⟨i, time, .ok⟩

/-- Call 0 reads the clock and stalls; a hundred calls fill the quota; call 0 goes on. -/
def schedule : List (Move RateLimitStore) :=
  ⟨0, 0, .ok⟩ :: (List.range 100).flatMap (fun i => whole (i + 1) 1) ++ [⟨0, 1, .ok⟩, ⟨0, 1, .ok⟩]

/-- Calls 0 and 1 read the record at once, so call 1 tries again; then the calls follow each other,
each a millisecond later. Call 100 finds the quota used up. -/
def inTurn : List (Move RateLimitStore) :=
  turns 0 0 [.ok, .ok] ++ turns 1 1 [.ok, .ok] ++ [⟨0, 1, .ok⟩] ++ whole 1 1 ++
    (List.range' 2 98).flatMap (fun i => whole i i) ++ [⟨100, 100, .ok⟩, ⟨100, 100, .ok⟩]

end Stalled

open Stalled

theorem stalled_call_exceeds_limit : ∃ c, Reaches adapter start c ∧
    ∃ admitted : List Nat, admitted.Nodup ∧ (∀ i ∈ admitted, c.prog i = .ret true ∧
      ∃ timestamp, timestampOf (own i c.trace) = some timestamp ∧
        0 ≤ timestamp ∧ timestamp < 0 + (oauthRateLimits .authorize).windowMs) ∧
      (oauthRateLimits .authorize).limit < admitted.length := by
  obtain ⟨c, reach, seen⟩ := Config.play_any adapter start
    schedule (fun c => (List.range 101).all fun i =>
      (c.prog i).value? = some true ∧ timestampOf (own i c.trace) = some (min i 1))
    (by decide +kernel)
  refine ⟨c, reach, List.range 101, List.nodup_range, fun i member => ?_, by decide⟩
  obtain ⟨told, read⟩ := of_decide_eq_true (List.all_eq_true.mp seen i member)
  refine ⟨value?_eq_some.mp told, min i 1, read, Nat.zero_le _, ?_⟩
  exact Nat.lt_of_le_of_lt (Nat.min_le_right i 1) (by decide)

/-- A hundred calls are let through in order and the next one is not; of the calls that were let
through within a window no list is longer than that. -/
theorem quota_filled_in_order : ∃ c, Reaches adapter start c ∧
    storesInOrder .authorize c.trace = true ∧
    (∀ i ∈ List.range 100, c.prog i = .ret true ∧ timestampOf (own i c.trace) = some i) ∧
    c.prog 100 = .ret false ∧ timestampOf (own 100 c.trace) = some 100 ∧
    ∀ admitted : List Nat, admitted.Nodup → (∀ i ∈ admitted, c.prog i = .ret true ∧
      ∃ timestamp, timestampOf (own i c.trace) = some timestamp ∧
        0 ≤ timestamp ∧ timestamp < 0 + (oauthRateLimits .authorize).windowMs) →
      admitted.length ≤ (oauthRateLimits .authorize).limit := by
  obtain ⟨c, reach, ordered, told, full, late⟩ := Config.play_any adapter start inTurn
    (fun c => storesInOrder .authorize c.trace = true ∧ (∀ i ∈ List.range 100,
      (c.prog i).value? = some true ∧ timestampOf (own i c.trace) = some i) ∧
      (c.prog 100).value? = some false ∧ timestampOf (own 100 c.trace) = some 100)
    (by decide +kernel)
  refine ⟨c, reach, ordered, fun i member => ?_, value?_eq_some.mp full, late, ?_⟩
  · exact ⟨value?_eq_some.mp (told i member).1, (told i member).2⟩
  · intro admitted distinct within
    exact calls_in_window_le_limit (Seeds.empty _) (fun _ => 5) (fun _ => .authorize) reach
      .authorize ordered 0 admitted distinct fun i member => ⟨rfl, within i member⟩

end MarimoHub.Guarantees.RateLimits
