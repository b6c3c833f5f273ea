import Mathlib.Data.List.Perm.Subperm
import Mathlib.Data.Prod.Lex
import MarimoHub.Guarantees.SessionCapRule

/-!
# Session records over a run of starts

A record is filed under the identifier of the start that created it, once. From then on it only
loses its place: what is active, or in a queue, or not running yet, was so at every earlier moment
since its creation (`Settled.before`). A record runs only after the start that created it passed
its recheck (`CapRun.cleared`), and a recheck reads the records stored when it reads them.
-/

namespace MarimoHub.Guarantees

open ObjectStore Source

/-- The records before the run are filed under their names and are older than every draw. -/
def FiledSeeds (a : Adapter Runtime) (seeds : Trace Runtime) : Prop :=
  ∀ key session, lookup key seeds = some (.session session) →
    key = fileOf session ∧ session.sessionId < a.firstId

structure CapRun (a : Adapter Runtime) (deps : StartDeps) (seeds : Trace Runtime)
    (calls : Nat → CapCall) (c : Config Runtime HubError CapResult) : Prop where
  initial : Seeds a seeds
  filed : FiledSeeds a seeds
  history : History a seeds (fun i => (calls i).run deps) c

variable {x y : Event Runtime} {past t u q : Trace Runtime} {i j : Nat}
  {session created session' : Session} {keys : List RuntimeKey} {other : RuntimeKey}
  {seen : List Session}

section Run

variable {a : Adapter Runtime} {deps : StartDeps} {seeds start : Trace Runtime}
  {calls : Nat → CapCall} {c : Config Runtime HubError CapResult} {key : RuntimeKey}
  {es : Log Runtime}

theorem CapRun.effect (run : CapRun a deps seeds calls c) (moment : x :: past <:+ c.trace)
    (based : seeds <:+ past) (effect : x.effect key = some new) : ∃ i, x.thread = some i ∧
      (capWriter deps (calls i) key).Effect a key (own i past) past x.op new := by
  obtain ⟨i, mine⟩ := run.history.thread_of_moment moment based
  have rule := run.history.guarantee (fun i => capCall_emits) moment mine
  exact ⟨i, mine, Writer.at_effect (run.history.accepted.suffix moment) (rule.allows key) effect⟩

/-- The creation of a record. -/
structure FiledAt (calls : Nat → CapCall) (key : RuntimeKey) (i : Nat) (session : Session)
    (x : Event Runtime) (past : Trace Runtime) : Prop where
  mine : x.thread = some i
  op : x.op = .put key (.session session) .any
  filed : Files (calls i) key (own i past) session

theorem FiledAt.puts (created : FiledAt calls key i session x past) : Puts key x.toEv := by
  obtain ⟨⟨o, r⟩, thread, time, applied⟩ := x
  have op := created.op
  cases op
  exact ⟨_, _, r, rfl⟩

theorem FiledAt.named (made : FiledAt calls key i session x past) : key = fileOf session := by
  obtain ⟨_, _, _, _, _, _, named, _⟩ := made.filed
  exact named

theorem FiledAt.drawn (made : FiledAt calls key i session x past) :
    ⟨.mint, session.sessionId⟩ ∈ own i past := by
  obtain ⟨_, _, id, _, _, rfl, _, _, _, split, _⟩ := made.filed
  rw [split]
  exact List.mem_append_right _ (.head _)

theorem sessionId_of_file {other : Session} (same : fileOf session = fileOf other) :
    session.sessionId = other.sessionId :=
  (RuntimeKey.session.inj same).2

theorem created_by_once (left : x :: past <:+ t) (right : y :: q <:+ t)
    (first : FiledAt calls key i session x past) (second : FiledAt calls other i session' y q) :
    session = session' := by
  have never {x y : Event Runtime} {past q : Trace Runtime} {key other : RuntimeKey}
      {session session' : Session} (before : x :: past <:+ q)
      (first : FiledAt calls key i session x past)
      (second : FiledAt calls other i session' y q) : False := by
    have inside := own_suffix (i := i) before
    rw [own_cons first.mine] at inside
    have event : x.toEv = ⟨.put key (.session session) .any, first.op ▸ x.res⟩ := by
      obtain ⟨⟨o, r⟩, thread, time, applied⟩ := x
      cases first.op
      rfl
    exact second.filed.1 _ _ _ (event ▸ inside.subset (.head _))
  rcases moments_ordered left right with same | before | before
  · cases same
    have op := first.op.symm.trans second.op
    cases op
    rfl
  · exact (never before first second).elim
  · exact (never before second first).elim

/-- From `start` on the record is not created any more. -/
def Settled (deps : StartDeps) (calls : Nat → CapCall) (t : Trace Runtime) (key : RuntimeKey)
    (start : Trace Runtime) : Prop :=
  ∀ x past v, (x :: past) <:+ t → start <:+ past → x.effect key = some (some v) →
    ∃ i, x.thread = some i ∧ ∃ session next, lookup key past = some (.session session) ∧
      v = .session next ∧ CapStep session next ∧
      (next.status = .running → session.status = .running ∨ Cleared deps (calls i) key (own i past))

/-- What a step does not bring about was so before. -/
theorem Settled.before {P : Session → Prop} (settled : Settled deps calls t key start)
    (back : ∀ session next, CapStep session next → P next → P session) (from_ : start <:+ u)
    (inside : u <:+ w) (below : w <:+ t) (found : lookup key w = some (.session session))
    (holds : P session) : ∃ former, lookup key u = some (.session former) ∧ P former := by
  by_contra never
  have gone : ¬ ∃ former, lookup key w = some (.session former) ∧ P former := by
    refine lasts (P := fun v : Trace Runtime => ¬ ∃ former,
      lookup (B := Runtime) key v = some (.session former) ∧ P former) inside never ?_
    rintro x past later above before ⟨next, found, holds⟩
    rcases found_cons found with kept | effect
    · exact before ⟨next, kept, holds⟩
    · obtain ⟨_, _, former, next', present, same, step, _⟩ := settled x past _ (later.trans below)
        (from_.trans above) effect
      cases same
      exact before ⟨former, present, back former next step holds⟩
  exact gone ⟨session, found, holds⟩

theorem fileOf_of_identity {other : Session} (same : capIdentity session = capIdentity other) :
    fileOf session = fileOf other := by
  simp only [capIdentity, Prod.mk.injEq] at same
  rw [fileOf, fileOf, same.1, same.2.1]

/-- A record keeps its identity from the moment it was created. -/
theorem Settled.identity (settled : Settled deps calls t key start)
    (inside : start <:+ u) (below : u <:+ t) (was : lookup key start = some (.session former))
    (found : lookup key u = some (.session session)) :
    capIdentity former = capIdentity session := by
  obtain ⟨former', was', same⟩ := settled.before
    (fun _ _ step identity => step.identity.symm.trans identity) List.suffix_rfl inside below
      found rfl
  rw [was] at was'
  cases was'
  exact same

section

variable (run : CapRun a deps seeds calls c)
include run

theorem CapRun.created_once (left : x :: past <:+ c.trace) (right : y :: q <:+ c.trace)
    (first : FiledAt calls key i session x past) (second : FiledAt calls key j session' y q) :
    x :: past = y :: q := by
  obtain ⟨_, _, id, _, _, rfl, filed, pre, rest, split, clear⟩ := first.filed
  obtain ⟨_, _, id', _, _, rfl, filed', pre', rest', split', clear'⟩ := second.filed
  have same : id = id' := sessionId_of_file (filed.symm.trans filed')
  subst same
  exact first_after_mint run.history.accepted left right first.mine second.mine first.puts
    second.puts split clear split' clear'

theorem CapRun.changed (moment : x :: past <:+ c.trace) (based : seeds <:+ past)
    (effect : x.effect key = some (some v))
    (old : ∀ i session, ¬ FiledAt calls key i session x past) :
    ∃ i, x.thread = some i ∧ ∃ session next, lookup key past = some (.session session) ∧
      v = .session next ∧ CapStep session next ∧
      (next.status = .running → session.status = .running ∨
        Cleared deps (calls i) key (own i past)) := by
  obtain ⟨i, mine, did⟩ := run.effect moment based effect
  generalize shape : x.op = o at did
  cases did with
  | created v c creates holds =>
    obtain ⟨rfl, session, rfl, filed⟩ := creates
    exact absurd ⟨mine, shape, filed⟩ (old i session)
  | changed before v tag present changes =>
    obtain ⟨session, next, rfl, rfl, step, started⟩ := changes
    exact ⟨i, mine, session, next, present, rfl, step, started⟩

theorem CapRun.settled_of_created (moment : x :: past <:+ c.trace)
    (created : FiledAt calls key i session x past) :
    Settled deps calls c.trace key (x :: past) := by
  intro y q v later above effect
  have based : seeds <:+ q :=
    (run.history.after_seeds run.initial moment created.mine).trans above.past
  refine run.changed later based effect fun j session' again => ?_
  exact not_earlier (run.created_once moment later created again) above

theorem CapRun.settled_of_seed (found : lookup key seeds = some (.session session)) :
    Settled deps calls c.trace key seeds := by
  intro y q v later based effect
  refine run.changed later based effect fun j session' again => ?_
  obtain ⟨named, old⟩ := run.filed key session found
  obtain ⟨m, p, drawn, _, shape⟩ := exists_own_mem again.drawn
  have fresh := (fresh_of_mint run.history.accepted (drawn.trans later.past) shape).1
  rw [sessionId_of_file (again.named.symm.trans named)] at fresh
  exact absurd old (Nat.not_lt.mpr fresh)

theorem CapRun.origin (based : seeds <:+ u) (below : u <:+ c.trace)
    (found : lookup key u = some (.session session)) :
    (∃ former, lookup key seeds = some (.session former)) ∨
      ∃ i created x past, x :: past <:+ u ∧ FiledAt calls key i created x past ∧
        x.effect key = some (some (.session created)) := by
  induction u generalizing session with
  | nil =>
    rw [List.suffix_nil.mp based]
    exact .inl ⟨session, found⟩
  | cons x past ih =>
    rcases List.suffix_cons_iff.mp based with same | inside
    · exact .inl ⟨session, same ▸ found⟩
    · have back : (∃ former, lookup key past = some (.session former)) ∨ ∃ i created,
          FiledAt calls key i created x past ∧ x.effect key = some (some (.session created)) := by
        rcases found_cons found with kept | effect
        · exact .inl ⟨session, kept⟩
        · by_cases old : ∀ i created, ¬ FiledAt calls key i created x past
          · obtain ⟨_, _, former, _, present, _⟩ := run.changed below inside effect old
            exact .inl ⟨former, present⟩
          · push Not at old
            obtain ⟨i, created, here⟩ := old
            obtain ⟨_, _, event, _⟩ := effect_write effect
            have op := here.op
            rw [congrArg Ev.op event] at op
            cases op
            exact .inr ⟨i, _, here, effect⟩
      rcases back with ⟨former, present⟩ | ⟨i, created, here, effect⟩
      · refine (ih inside below.past present).imp_right ?_
        rintro ⟨i, created, y, q, moment, rest⟩
        exact ⟨i, created, y, q, moment.cons, rest⟩
      · exact .inr ⟨i, created, x, past, List.suffix_rfl, here, effect⟩

theorem CapRun.named (based : seeds <:+ u) (below : u <:+ c.trace)
    (found : lookup key u = some (.session session)) : key = fileOf session := by
  rcases run.origin based below found with ⟨former, seed⟩
    | ⟨i, created, x, past, moment, made, effect⟩
  · have same := (run.settled_of_seed seed).identity based below seed found
    exact (run.filed key former seed).1.trans (fileOf_of_identity same)
  · have same := (run.settled_of_created (moment.trans below) made).identity moment below
      (lookup_of_effect effect) found
    exact made.named.trans (fileOf_of_identity same)

theorem CapRun.file_of_id (moment : x :: past <:+ c.trace)
    (made : FiledAt calls key i created x past) (based : seeds <:+ u) (below : u <:+ c.trace)
    (found : lookup other u = some (.session session))
    (same : session.sessionId = created.sessionId) : other = key := by
  rcases run.origin based below found with ⟨former, seed⟩
    | ⟨j, created', y, p, yMoment, made', effect⟩
  · have identity := (run.settled_of_seed seed).identity based below seed found
    obtain ⟨m, q, drawn, _, shape⟩ := exists_own_mem made.drawn
    have fresh := (fresh_of_mint run.history.accepted (drawn.trans moment.past) shape).1
    rw [← same,
      ← show former.sessionId = session.sessionId from congrArg Prod.fst identity] at fresh
    exact absurd (run.filed other former seed).2 (Nat.not_lt.mpr fresh)
  · have identity := (run.settled_of_created (yMoment.trans below) made').identity yMoment below
      (lookup_of_effect effect) found
    have ids : created'.sessionId = created.sessionId := (congrArg Prod.fst identity).trans same
    cases drawn_by_one run.history.accepted moment.past (yMoment.trans below).past made.drawn
      (ids ▸ made'.drawn)
    obtain ⟨_, _, id, _, start, rfl, named, _⟩ := made.filed
    obtain ⟨_, _, id', _, start', rfl, named', _⟩ := made'.filed
    cases (ids : id' = id)
    cases start.symm.trans start'
    rw [named, named']
    rfl

end

/-! ## Rechecks -/

theorem RecheckEnded.rechecked (ended : RecheckEnded deps call request session verdict es) :
    ∃ rest, rest <:+ es ∧ Rechecked deps request session verdict rest := by
  obtain ⟨rfl, rest, inside, runs⟩ := ended
  exact ⟨rest, inside, (emits_createRechecked.runs runs).1⟩

theorem Cleared.grow (cleared : Cleared deps call key es)
    (grown : es <:+ later) : Cleared deps call key later := by
  obtain ⟨request, session, ⟨start, rest, inside, runs⟩, named⟩ := cleared
  exact ⟨request, session, ⟨start, rest, inside.trans grown, runs⟩, named⟩

theorem CapRun.same_start (run : CapRun a deps seeds calls c) (moment : x :: past <:+ c.trace)
    (below : u <:+ c.trace) (made : FiledAt calls key i created x past)
    (cleared : Cleared deps (calls j) key (own j u)) : j = i := by
  obtain ⟨request, session, ended, named⟩ := cleared
  obtain ⟨rest, inside, id, _, _, _, _, _, rfl, minted, put, rfl, _⟩ := ended.rechecked
  have same : id = created.sessionId := sessionId_of_file (named.symm.trans made.named)
  have drawn : ⟨.mint, id⟩ ∈ own j u :=
    inside.subset (List.mem_append_right _ (put.subset (.tail _ minted)))
  exact drawn_by_one run.history.accepted below moment.past drawn (same ▸ made.drawn)

/-- A record runs only after its start passed the recheck. -/
theorem CapRun.cleared (run : CapRun a deps seeds calls c) (moment : x :: past <:+ u)
    (below : u <:+ c.trace) (made : FiledAt calls key i created x past)
    (effect : x.effect key = some (some (.session created)))
    (found : lookup key u = some (.session session)) (running : session.status = .running) :
    Cleared deps (calls i) key (own i u) := by
  have asleep : ¬ ∃ s, lookup key (x :: past) = some (.session s) ∧ s.status = .running := by
    rintro ⟨s, here, awake⟩
    rw [lookup_of_effect effect] at here
    cases here
    obtain ⟨_, _, _, _, _, rfl, _⟩ := made.filed
    cases awake
  obtain ⟨y, q, later, above, before, ⟨s, here, awake⟩⟩ :=
    becomes (P := fun v : Trace Runtime => ∃ s, lookup (B := Runtime) key v = some (.session s) ∧
      s.status = .running) moment asleep ⟨session, found, running⟩
  have settled := run.settled_of_created (moment.trans below) made
  rcases found_cons here with kept | change
  · exact absurd ⟨s, kept, awake⟩ before
  · obtain ⟨j, _, former, next, present, same, _, started⟩ :=
      settled y q _ (later.trans below) above change
    cases same
    rcases started awake with was | cleared
    · exact absurd ⟨former, present, was⟩ before
    · have inside := later.past
      have owner := run.same_start (moment.trans below) (inside.trans below) made cleared
      subst owner
      exact cleared.grow (own_suffix inside)

/-- The events happened after `start`, at moments with `P`. -/
def During (t start : Trace Runtime) (P : Trace Runtime → Prop) (es : Log Runtime) : Prop :=
  ∀ ev ∈ es, ∃ e q, (e :: q) <:+ t ∧ e.toEv = ev ∧ start <:+ q ∧ P q

/-- The recheck comes after the creation, and while it reads it has not ended. -/
theorem CapRun.recheck (run : CapRun a deps seeds calls c)
    (ended : RecheckEnded deps (calls i) request session verdict (own i c.trace)) :
    ∃ id now x past reads, session = newSession (request.record id) id now ∧
      x :: past <:+ c.trace ∧ FiledAt calls (fileOf session) i session x past ∧
      x.effect (fileOf session) = some (some (.session session)) ∧
      Justified deps request id reads verdict ∧
      During c.trace (x :: past) (fun q => ∀ session' verdict',
        ¬ RecheckEnded deps (calls i) request session' verdict' (own i q)) reads := by
  obtain ⟨start, rest, inside, runs⟩ := ended
  obtain ⟨id, now, tag, before, older, reads, filed, minted, put, rfl, justified⟩ :=
    (emits_createRechecked.runs runs).1
  have written := (put.trans (List.suffix_append reads older)).trans inside
  obtain ⟨x, past, moment, mine, same, shape, effect, _⟩ := own_written run.history.accepted written
  have op : x.op = .put (fileOf session) (.session session) .any := congrArg Ev.op shape
  have rule := run.history.guarantee (fun i => capCall_emits) moment mine
  rw [op] at rule
  obtain ⟨_, session', value, files⟩ := rule
  cases value
  refine ⟨id, now, x, past, reads, filed, moment, ⟨mine, op, files⟩, effect, justified, ?_⟩
  intro ev member
  obtain ⟨newer, rest', rfl⟩ := List.append_of_mem member
  rw [List.append_assoc, List.cons_append] at inside runs
  have here := (List.suffix_append newer _).trans inside
  obtain ⟨e, q, inTrace, also, event, ownPast⟩ := exists_own here
  refine ⟨e, q, inTrace, event, own_order moment inTrace also ?_, ?_⟩
  · have longer := put.length_le
    rw [same, ownPast, List.length_append]
    rw [List.length_cons] at longer
    omega
  · rintro session'' verdict' ⟨_, run', inside', runs'⟩
    rw [ownPast] at inside'
    have shorter := inside'.length_le
    have within : run' <:+ newer ++ ev :: (rest' ++ older) :=
      inside'.trans (List.suffix_append newer _).past
    have equal := runs'.ended runs within
    rw [equal, List.length_append, List.length_cons] at shorter
    omega

/-! ## What a recheck sees -/

theorem Gathered.mem (gathered : Gathered keys seen es) (member : key ∈ keys) :
    ∃ r, ⟨.get key, r⟩ ∈ es ∧ r ≠ .fail ∧ ∀ session, foundSession r = some session →
      session ∈ seen := by
  induction keys generalizing seen with
  | nil => cases member
  | cons first rest ih =>
    obtain ⟨r, others, read, answered, rfl, below⟩ := gathered
    rcases List.mem_cons.mp member with rfl | inside
    · refine ⟨r, read, answered, fun session found => ?_⟩
      rw [found]
      simp
    · obtain ⟨r', read', answered', shows'⟩ := ih below inside
      exact ⟨r', read', answered',
        fun session found => List.mem_append_right _ (shows' session found)⟩

theorem foundSession_eq_some (found : foundSession r = some session) :
    ∃ tag, r = .found (.session session) tag := by
  cases r with
  | found v tag =>
    cases v with
    | session stored =>
      cases found
      exact ⟨tag, rfl⟩
    | _ => cases found
  | _ => cases found

/-- The sessions seen are those of some of the keys, in their order. -/
theorem Gathered.files (gathered : Gathered keys seen es)
    (named : ∀ key session tag, ⟨.get key, .found (.session session) tag⟩ ∈ es → key = fileOf
      session) : (seen.map fileOf).Sublist keys := by
  induction keys generalizing seen with
  | nil =>
    rw [show seen = [] from gathered]
    exact List.Sublist.refl []
  | cons key rest ih =>
    obtain ⟨r, others, read, _, rfl, below⟩ := gathered
    have later := ih below
    cases found : foundSession r with
    | none => exact later.cons key
    | some session =>
      obtain ⟨tag, rfl⟩ := foundSession_eq_some found
      rw [named key session tag read]
      exact later.cons_cons _

theorem Gathered.read (gathered : Gathered keys seen es) (member : session ∈ seen) :
    ∃ key ∈ keys, ∃ tag, ⟨.get key, .found (.session session) tag⟩ ∈ es := by
  induction keys generalizing seen with
  | nil =>
    rw [show seen = [] from gathered] at member
    cases member
  | cons key rest ih =>
    obtain ⟨r, others, read, _, rfl, below⟩ := gathered
    rcases List.mem_append.mp member with here | there
    · obtain ⟨tag, rfl⟩ := foundSession_eq_some (Option.mem_toList.mp here)
      exact ⟨key, .head _, tag, read⟩
    · obtain ⟨other, inside, tag, also⟩ := ih below there
      exact ⟨other, .tail _ inside, tag, also⟩

section View

variable {queue : CapQueue} {paging : CapPaging} {seen : List Session} {es : Log Runtime}
  {start : Trace Runtime} {P : Trace Runtime → Prop}

section

variable (run : CapRun a deps seeds calls c)
include run

theorem CapRun.seen_stored (based : seeds <:+ start)
    (read : QueueRead (paging queue).pages seen es) (during : During c.trace start P es)
    (member : session ∈ seen) :
    queue.keys (fileOf session) = true ∧ ∃ q, q <:+ c.trace ∧ start <:+ q ∧ P q ∧
      lookup (fileOf session) q = some (.session session) := by
  obtain ⟨keys, listed, reads, rfl, shown, gathered⟩ := read
  obtain ⟨key, inside, tag, event⟩ := gathered.read member
  obtain ⟨e, q, moment, shape, after, holds⟩ := during _ (List.mem_append_left _ event)
  have found := ((run.history.accepted.at moment).responds_of shape).1
  have below := moment.past
  have named := run.named (based.trans after) below found
  subst named
  obtain ⟨page, among, shows⟩ := shown.mem inside
  exact ⟨(paging queue).inside page among _ shows, q, below, after, holds, found⟩

theorem CapRun.seen_nodup (based : seeds <:+ start)
    (read : QueueRead (paging queue).pages seen es) (during : During c.trace start P es) :
    (seen.map fileOf).Nodup := by
  obtain ⟨keys, listed, reads, rfl, shown, gathered⟩ := read
  have once : keys.Nodup := by
    refine shown.nodup (paging queue).disjoint fun page entries event => ?_
    obtain ⟨e, q, moment, shape, _⟩ := during _ (List.mem_append_right _ event)
    exact ((run.history.accepted.at moment).responds_of shape).2.1
  refine (gathered.files fun key session tag event => ?_).nodup once
  obtain ⟨e, q, moment, shape, after, _⟩ := during _ (List.mem_append_left _ event)
  have found := ((run.history.accepted.at moment).responds_of shape).1
  exact run.named (based.trans after) moment.past found

theorem CapRun.stored_seen
    (read : QueueRead (paging queue).pages seen es) (during : During c.trace start P es)
    {R : Session → Prop} (counts : queue.keys key = true)
    (stored : ∀ q, start <:+ q → q <:+ c.trace → P q → ∃ session,
      lookup key q = some (.session session) ∧ R session) : ∃ session ∈ seen, R session := by
  obtain ⟨keys, listed, reads, rfl, shown, gathered⟩ := read
  obtain ⟨page, among, shows⟩ := (paging queue).covers key counts
  obtain ⟨entries, event, has⟩ := shown.page among
  obtain ⟨e, q, moment, shape, after, holds⟩ := during _ (List.mem_append_right _ event)
  obtain ⟨session, found, _⟩ := stored q after moment.past holds
  have entry := ((run.history.accepted.at moment).responds_of shape).1 key (uploaded key q)
  have inside := has _ (entry.mpr ⟨shows, by rw [found]; rfl, rfl⟩) shows
  obtain ⟨r, event', answered, sees⟩ := gathered.mem inside
  obtain ⟨e', q', moment', shape', after', holds'⟩ := during _ (List.mem_append_left _ event')
  obtain ⟨session', found', good⟩ := stored q' after' moment'.past holds'
  have responds := (run.history.accepted.at moment').responds_of shape'
  cases r with
  | fail => exact absurd rfl answered
  | absent =>
    rw [show lookup key q' = none from responds.1] at found'
    cases found'
  | found v tag =>
    have same := responds.1
    rw [found'] at same
    cases same
    exact ⟨session', sees session' rfl, good⟩

end

end View

end Run

/-! ## Ranks -/

/-- Started earlier, or at the same time with a smaller identifier. -/
def Precedes (first second : Session) : Prop :=
  first.startedAt < second.startedAt ∨
    (first.startedAt = second.startedAt ∧ first.sessionId < second.sessionId)

instance (first second : Session) : Decidable (Precedes first second) :=
  inferInstanceAs (Decidable (_ ∨ _))

variable {first second : Session} {limit : Nat} {line : List Session} {id : SessionId}

theorem precedes_iff : Precedes first second ↔
    toLex (first.startedAt, first.sessionId) < toLex (second.startedAt, second.sessionId) := by
  rw [Prod.Lex.toLex_lt_toLex]
  rfl

/-- The place of a session in a queue. -/
def capRank (session : Session) : Bool ×ₗ Nat ×ₗ Nat :=
  toLex (decide (session.status ≠ .running), toLex (session.startedAt, session.sessionId))

theorem byCapOrder_iff : byCapOrder first second = true ↔ capRank first ≤ capRank second := by
  rw [capRank, capRank, Prod.Lex.toLex_le_toLex, Prod.Lex.toLex_le_toLex]
  unfold byCapOrder
  by_cases left : first.status = .running <;> by_cases right : second.status = .running <;>
    by_cases time : first.startedAt = second.startedAt <;> simp [left, right, time]

instance : Std.Total fun first second : Session => byCapOrder first second = true where
  total first second := by simpa only [byCapOrder_iff] using le_total _ _

instance : IsTrans Session fun first second => byCapOrder first second = true where
  trans _ _ _ left right :=
    byCapOrder_iff.mpr ((byCapOrder_iff.mp left).trans (byCapOrder_iff.mp right))

theorem byCapOrder_ahead (waits : second.status ≠ .running)
    (ahead : first.status = .running ∨ Precedes first second) :
    byCapOrder second first = false := by
  rw [Bool.eq_false_iff, ne_eq, byCapOrder_iff, not_le, capRank, capRank, Prod.Lex.toLex_lt_toLex,
    ← precedes_iff]
  by_cases running : first.status = .running
  · simp [running, waits]
  · simp [running, waits, ahead.resolve_left running]

theorem byCapOrder_waiting (left : first.status ≠ .running)
    (differ : first.sessionId ≠ second.sessionId) (ordered : byCapOrder first second = true) :
    Precedes first second := by
  rw [byCapOrder_iff, capRank, capRank, Prod.Lex.toLex_le_toLex, decide_eq_true left] at ordered
  rcases ordered with early | ⟨_, order⟩
  · exact absurd early (Bool.le_true _).not_gt
  · refine precedes_iff.mpr (lt_of_le_of_ne order fun same => differ ?_)
    exact congrArg Prod.snd (toLex.injective same)

theorem sorted_pairwise (queue : CapQueue) (seen : List Session) (keep : Session → Bool) :
    ((queue.sorted seen).filter keep).Pairwise fun first second => byCapOrder first second = true :=
  (List.pairwise_insertionSort _ _).filter _

theorem mem_sorted {queue : CapQueue} : session ∈ (queue.sorted seen).filter keep ↔
      (session ∈ seen ∧ queue.holds session = true) ∧ keep session = true := by
  rw [List.mem_filter, CapQueue.sorted, List.mem_insertionSort, List.mem_filter]

section

variable (sorted : line.Pairwise fun first second => byCapOrder first second = true)
include sorted

theorem ranksOver_of_ahead {ahead : List Session}
    (present : ∃ session ∈ line, session.sessionId = id) (distinct : ahead.Nodup)
    (inLine : ∀ session ∈ ahead, session ∈ line)
    (before : ∀ session ∈ ahead, ∀ own ∈ line, own.sessionId = id → byCapOrder own session = false)
    (full : limit ≤ ahead.length) : ranksOver id limit line = true := by
  obtain ⟨session, member, named⟩ := present
  have found : (line.findIdx? fun session => session.sessionId = id).isSome = true := by
    rw [List.findIdx?_isSome, List.any_eq_true]
    exact ⟨session, member, by simpa using named⟩
  obtain ⟨rank, place⟩ := Option.isSome_iff_exists.mp found
  obtain ⟨bound, own, _⟩ := List.findIdx?_eq_some_iff_getElem.mp place
  have early : ahead ⊆ line.take rank := by
    intro other among
    obtain ⟨n, inside, rfl⟩ := List.getElem_of_mem (inLine other among)
    have behind := before _ among (line)[rank] (List.getElem_mem bound) (of_decide_eq_true own)
    have strictly : n < rank := by
      by_contra late
      rcases Nat.lt_or_eq_of_le (Nat.le_of_not_lt late) with after | same
      · rw [List.pairwise_iff_getElem.mp sorted rank n bound inside after] at behind
        cases behind
      · subst same
        rw [byCapOrder_iff.mpr le_rfl] at behind
        cases behind
    exact List.mem_take_iff_getElem.mpr ⟨n, by omega, rfl⟩
  have count := (distinct.subperm early).length_le
  rw [ranksOver, place]
  simp only [Option.any_some, decide_eq_true_eq]
  exact full.trans (count.trans (List.length_take_le _ _))

theorem ahead_of_ranksOver
    (beyond : ranksOver id limit line = true) :
    ∃ own ∈ line, own.sessionId = id ∧ ∃ ahead : List Session, ahead.Sublist line ∧
      limit ≤ ahead.length ∧
      ∀ session ∈ ahead, session.sessionId ≠ id ∧ byCapOrder session own = true := by
  rw [ranksOver] at beyond
  cases place : line.findIdx? fun session => session.sessionId = id with
  | none =>
    rw [place] at beyond
    cases beyond
  | some rank =>
  rw [place] at beyond
  obtain ⟨bound, own, others⟩ := List.findIdx?_eq_some_iff_getElem.mp place
  refine ⟨(line)[rank], List.getElem_mem bound, of_decide_eq_true own, line.take rank,
    List.take_sublist _ _, ?_, ?_⟩
  · rw [List.length_take, Nat.min_eq_left (Nat.le_of_lt bound)]
    exact of_decide_eq_true beyond
  · intro session member
    obtain ⟨n, inside, rfl⟩ := List.mem_take_iff_getElem.mp member
    have early : n < rank := by omega
    refine ⟨fun same => others n early (decide_eq_true same), ?_⟩
    exact List.pairwise_iff_getElem.mp sorted n rank _ bound early

end

end MarimoHub.Guarantees
