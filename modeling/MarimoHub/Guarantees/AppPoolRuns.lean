import MarimoHub.Guarantees.AppPoolRule

/-!
# Runs of an app pool

The record of a pool in runs that start without one. A name an admission drew enters the record
by one write only, so sessions tell members apart and every assignment refers to a member
(`Sound`); and every write replaces the record by one that was revised from it by edits at clock
readings of its call (`PoolRun.always`).
-/

namespace MarimoHub.Guarantees.AppPools

open ObjectStore Source.AppPools
open Source hiding AppPool AppPoolMember

/-! ## Sound records -/

/-- What every record of a pool satisfies. -/
structure Sound (pool : AppPool) : Prop where
  ids : (pool.members.map fun member => member.sessionId).Nodup
  refs : ∀ assignment ∈ pool.assignments,
    ∃ member ∈ pool.members, member.sessionId = assignment.sessionId
  visits : ∀ assignment ∈ pool.assignments, assignment.visitId.isSome = true
  idle : ∀ member ∈ pool.members, member.idleSince.isSome = true →
    ∀ assignment ∈ pool.assignments, assignment.sessionId ≠ member.sessionId

theorem sound_empty : Sound {} := ⟨List.nodup_nil, nofun, nofun, nofun⟩

variable {member : AppPoolMember}

section Edits

theorem Sound.unique (sound : Sound pool) (left : member ∈ pool.members)
    (right : other ∈ pool.members) (same : member.sessionId = other.sessionId) : member = other :=
  List.inj_on_of_nodup_map sound.ids left right same

theorem map_sessionId_altered (altered : List.Forall₂ (Altered n) members members') :
    (members'.map fun member => member.sessionId) = members.map fun member => member.sessionId := by
  induction altered with
  | nil => rfl
  | cons first _ ih => rw [List.map_cons, List.map_cons, first.session, ih]

theorem split_of_sound (sound : Sound pool) :
    pool.assignments.flatMap splitAssignment = pool.assignments := by
  have single (l : List AppPoolAssignment) (visits : ∀ item ∈ l, item.visitId.isSome = true) :
      l.flatMap splitAssignment = l := by
    induction l with
    | nil => rfl
    | cons item rest ih =>
      have named := visits item (.head _)
      have whole : splitAssignment item = [item] := by
        rw [splitAssignment, if_neg]
        rintro ⟨none, _⟩
        rw [none] at named
        cases named
      rw [List.flatMap_cons, whole, ih fun other member => visits other (.tail _ member),
        List.singleton_append]
  exact single pool.assignments sound.visits

theorem kept_of_sound (sound : Sound pool) (kept : assignment ∈ keptAssignments n pool) :
    ∃ old ∈ pool.assignments, assignment = dropExpiredVisits n old ∧
      isPresent n assignment = true ∧ isLive n pool.members assignment.sessionId = true := by
  rw [keptAssignments, split_of_sound sound] at kept
  obtain ⟨inside, present⟩ := List.mem_filter.mp kept
  rw [Bool.and_eq_true] at present
  obtain ⟨old, listed, rfl⟩ := List.mem_map.mp inside
  exact ⟨old, listed, rfl, present⟩

theorem idleSince_settleIdle (idle : (settleIdle n before after member).idleSince.isSome = true) :
    ∀ assignment ∈ after, assignment.sessionId ≠ member.sessionId := by
  intro assignment listed same
  rw [settleIdle, if_pos] at idle
  · cases idle
  · exact List.any_eq_true.mpr ⟨assignment, listed, decide_eq_true same⟩

theorem Sound.expire (sound : Sound pool) (n : Nat) : Sound (expireAppPresence n pool) := by
  refine ⟨?_, ?_, ?_, ?_⟩
  · have same : ((expireAppPresence n pool).members.map fun member => member.sessionId) =
        pool.members.map fun member => member.sessionId := by
      rw [expireAppPresence, List.map_map]
      exact List.map_congr_left fun member _ => sessionId_settleIdle
    rw [same]
    exact sound.ids
  · intro assignment kept
    obtain ⟨old, _, rfl, _, live⟩ := kept_of_sound sound kept
    obtain ⟨member, inside, reusable⟩ := List.any_eq_true.mp live
    rw [decide_eq_true_eq] at reusable
    exact ⟨_, List.mem_map_of_mem inside, sessionId_settleIdle.trans reusable.2⟩
  · intro assignment kept
    obtain ⟨old, listed, rfl, _⟩ := kept_of_sound sound kept
    exact sound.visits old listed
  · intro member inside idle assignment kept
    obtain ⟨old, _, rfl⟩ := List.mem_map.mp inside
    rw [sessionId_settleIdle]
    exact idleSince_settleIdle idle assignment kept

theorem Sound.sublist (sound : Sound pool) (fewer : assignments.Sublist pool.assignments) :
    Sound { pool with assignments := assignments } :=
  ⟨sound.ids, fun assignment listed => sound.refs assignment (fewer.subset listed),
    fun assignment listed => sound.visits assignment (fewer.subset listed),
    fun member inside idle assignment listed =>
      sound.idle member inside idle assignment (fewer.subset listed)⟩

theorem Sound.edit (sound : Sound pool) (edit : PoolEdit policy added taken n pool next) :
    Sound next := by
  cases edit with
  | expire => exact sound.expire n
  | relabel deletedAt latest => exact ⟨sound.ids, sound.refs, sound.visits, sound.idle⟩
  | alter members altered =>
    refine ⟨(map_sessionId_altered altered).symm ▸ sound.ids, ?_, sound.visits, ?_⟩
    · intro assignment listed
      obtain ⟨member, inside, same⟩ := sound.refs assignment listed
      obtain ⟨member', inside', changed⟩ := altered.mem_left inside
      exact ⟨member', inside', changed.session.trans same⟩
    · intro member' inside' idle assignment listed
      obtain ⟨member, inside, changed⟩ := altered.mem_right inside'
      rw [changed.session]
      refine sound.idle member inside ?_ assignment listed
      rcases changed.idle with same | none
      · rwa [same] at idle
      · rw [none] at idle
        cases idle
  | join member _ fresh awake _ =>
    refine ⟨?_, ?_, sound.visits, ?_⟩
    · rw [List.map_append, List.nodup_append]
      refine ⟨sound.ids, List.nodup_singleton _, ?_⟩
      intro session listed other single same
      obtain ⟨old, inside, rfl⟩ := List.mem_map.mp listed
      exact fresh old inside (same.trans (List.mem_singleton.mp single))
    · intro assignment listed
      obtain ⟨old, inside, same⟩ := sound.refs assignment listed
      exact ⟨old, List.mem_append_left _ inside, same⟩
    · intro other inside idle assignment listed
      rcases List.mem_append.mp inside with old | new
      · exact sound.idle other old idle assignment listed
      · rw [List.mem_singleton.mp new, awake] at idle
        cases idle
  | assign member assignment inside awake named visit _ _ =>
    refine ⟨sound.ids, ?_, ?_, ?_⟩
    · intro other listed
      rcases List.mem_append.mp listed with old | new
      · exact sound.refs other old
      · rw [List.mem_singleton.mp new]
        exact ⟨member, inside, named.symm⟩
    · intro other listed
      rcases List.mem_append.mp listed with old | new
      · exact sound.visits other old
      · rw [List.mem_singleton.mp new]
        exact visit
    · intro other present idle item listed same
      rcases List.mem_append.mp listed with old | new
      · exact sound.idle other present idle item old same
      · rw [List.mem_singleton.mp new, named] at same
        rw [← sound.unique inside present same, awake] at idle
        cases idle
  | touch assignments touched =>
    refine ⟨sound.ids, ?_, ?_, ?_⟩
    · intro assignment' listed'
      obtain ⟨assignment, listed, changed⟩ := touched.mem_right listed'
      rw [changed.session]
      exact sound.refs assignment listed
    · intro assignment' listed'
      obtain ⟨assignment, listed, changed⟩ := touched.mem_right listed'
      rw [changed.visit]
      exact sound.visits assignment listed
    · intro member inside idle assignment' listed'
      obtain ⟨assignment, listed, changed⟩ := touched.mem_right listed'
      rw [changed.session]
      exact sound.idle member inside idle assignment listed
  | remove members session fewer others =>
    refine ⟨sound.ids.sublist (fewer.map _), ?_, ?_, ?_⟩
    · intro assignment listed
      obtain ⟨old, different⟩ := List.mem_filter.mp listed
      obtain ⟨member, inside, same⟩ := sound.refs assignment old
      refine ⟨member, ?_, same⟩
      by_contra gone
      exact of_decide_eq_true different (same.symm.trans (others member inside gone))
    · exact fun assignment listed => sound.visits assignment (List.mem_filter.mp listed).1
    · exact fun member inside idle assignment listed =>
        sound.idle member (fewer.subset inside) idle assignment (List.mem_filter.mp listed).1
  | vacate gone => exact sound.sublist List.filter_sublist
  | withdraw drop _ => exact sound.sublist List.filter_sublist

theorem sessionId_of_edit (edit : PoolEdit policy added taken n pool next)
    (inside : member ∈ next.members) :
    (∃ old ∈ pool.members, old.sessionId = member.sessionId) ∨ added member.sessionId := by
  cases edit with
  | expire =>
    obtain ⟨old, listed, rfl⟩ := List.mem_map.mp inside
    exact .inl ⟨old, listed, sessionId_settleIdle.symm⟩
  | alter members altered =>
    obtain ⟨old, listed, changed⟩ := altered.mem_right inside
    exact .inl ⟨old, listed, changed.session.symm⟩
  | join joined mine _ _ _ =>
    rcases List.mem_append.mp inside with old | new
    · exact .inl ⟨member, old, rfl⟩
    · rw [List.mem_singleton.mp new]
      exact .inr mine
  | remove members session fewer _ => exact .inl ⟨member, fewer.subset inside, rfl⟩
  | _ => exact .inl ⟨member, inside, rfl⟩

end Edits

/-! ## Runs -/

/-- The record of the pool; without one it is empty. -/
def poolAt (t : Trace AppStore) : AppPool :=
  match lookup AppKey.pool t with
  | some (.pool pool) => pool
  | _ => {}

variable {t : Trace AppStore} {pool : AppPool} {i : Nat}

theorem poolAt_of_lookup (found : lookup AppKey.pool t = some (.pool pool)) :
    poolAt t = pool := by
  rw [poolAt, found]

theorem poolAt_of_absent (absent : lookup AppKey.pool t = none) : poolAt t = {} := by
  rw [poolAt, absent]

/-- A run of calls that keep the rule, from an empty store. -/
structure PoolRun (a : Adapter AppStore) (policy : AppPoolPolicy) (t : Trace AppStore) : Prop where
  accepted : Along (Accepts a) t
  rule : ∀ e past, (e :: past) <:+ t →
    ∃ i, e.thread = some i ∧ PoolRule policy (own i past) e.op

section Runs

variable {policy : AppPoolPolicy} {t past q : Trace AppStore}
  {x g : Event AppStore} {next : AppPool}

theorem PoolRun.of_reaches {calls : Nat → PoolCall}
    (reach : Reaches a ⟨[], fun i => (calls i).prog service⟩ c) :
    PoolRun a service.policy c.trace := by
  have history := reach.history (Seeds.empty a)
  refine ⟨history.accepted, ?_⟩
  intro e past moment
  obtain ⟨i, mine⟩ := history.thread_of_moment moment (List.nil_suffix)
  exact ⟨i, mine, history.guarantee (fun i => poolCall_keeps_rule []) moment mine⟩

theorem PoolRun.suffix (run : PoolRun a policy t) (earlier : past <:+ t) : PoolRun a policy past :=
  ⟨run.accepted.suffix earlier, fun e q moment => run.rule e q (moment.trans earlier)⟩

/-- A write of the pool by the client `i`, with the read it is based on. -/
structure Wrote (policy : AppPoolPolicy) (x : Event AppStore) (past : Trace AppStore) (i : Nat)
    (next : AppPool) (g : Event AppStore) (q : Trace AppStore) : Prop where
  mine : x.thread = some i
  attempted : Attempted x.toEv
  read : (g :: q) <:+ past
  reader : g.thread = some i
  reads : g.op = .get .pool
  between : ∃ new, own i past = new ++ own i (g :: q) ∧ ∀ ev ∈ new, Quiet ev.op
  unchanged : poolAt past = poolAt q
  tombstone : KeepsTombstone (poolAt q) next
  revises : Revises policy (own i (g :: q)) (poolAt q) (own i past) next

theorem ReadFrom.at_write (read : ReadFrom base pool c) (accepted : Along (Accepts a) (x :: past))
    (split : own i past = new ++ base) (shape : x.toEv = ⟨.put .pool v c, r⟩)
    (applied : x.applied = true) :
    ∃ g q, g :: q <:+ past ∧ g.thread = some i ∧ g.op = .get .pool ∧ base = own i (g :: q) ∧
      poolAt q = pool ∧ poolAt past = pool := by
  have holds := accepted.1.holds shape applied
  cases read with
  | found _ tag rest =>
    obtain ⟨g, q, moment, reader, seen, before⟩ := exists_own ⟨new, split.symm⟩
    have stored := (accepted.2.at moment).tagged seen
    obtain ⟨w, found, tagged⟩ := holds
    have value : w = .pool pool := by
      rw [← stored.2, ← tagged]
      rfl
    rw [value] at found
    exact ⟨g, q, moment, reader, congrArg Ev.op seen, by rw [own_cons reader, seen, before],
      poolAt_of_lookup stored.1, poolAt_of_lookup found⟩
  | absent rest =>
    obtain ⟨g, q, moment, reader, seen, before⟩ := exists_own ⟨new, split.symm⟩
    exact ⟨g, q, moment, reader, congrArg Ev.op seen, by rw [own_cons reader, seen, before],
      poolAt_of_absent ((accepted.2.at moment).responds_of seen).1, poolAt_of_absent holds⟩

theorem PoolRun.wrote (run : PoolRun a policy (x :: past)) (effect : x.effect .pool = some new) :
    ∃ i next g q, new = some (.pool next) ∧ Wrote policy x past i next g q := by
  obtain ⟨i, mine, allowed⟩ := run.rule x past List.suffix_rfl
  obtain ⟨v, c, r, rfl, shape, applied, allowed⟩ := written_under allowed effect (·.1 rfl)
  obtain ⟨pool, next, between, base, rfl, split, calm, read, tombstone, revises⟩ := allowed.1 rfl
  have tried : Attempted x.toEv := by
    refine ⟨_, c, r, shape, ?_⟩
    rintro rfl
    have refused := (run.accepted.1.responds_of shape).2
    rw [applied] at refused
    cases refused
  obtain ⟨g, q, moment, reader, reads, rfl, here, now⟩ :=
    read.at_write run.accepted split shape applied
  rw [← here] at tombstone revises
  exact ⟨i, next, g, q, rfl, mine, tried, moment, reader, reads, ⟨between, split, calm⟩,
    now.trans here.symm, tombstone, revises⟩

/-- The members with drawn names came by a write of the call that drew the name. -/
def Named (t : Trace AppStore) (pool : AppPool) : Prop :=
  ∀ member ∈ pool.members, ∀ k, member.sessionId = .drawn k →
    ∃ e past i, (e :: past) <:+ t ∧ e.thread = some i ∧ Attempted e.toEv ∧ Unused (own i past) k

theorem Named.grow (named : Named past pool) (grown : past <:+ t) : Named t pool := by
  intro member inside k same
  obtain ⟨e, p, i, moment, rest⟩ := named member inside k same
  exact ⟨e, p, i, moment.trans grown, rest⟩

/-- A name a call drew and has not stored is not in the record it read. -/
theorem Wrote.newNames (wrote : Wrote policy x past i next g q)
    (accepted : Along (Accepts a) (x :: past)) (named : Named q (poolAt q))
    (sound : Sound (poolAt q)) : NewNames (own i (g :: q)) (poolAt q) := by
  intro k unused
  have absent : ∀ member ∈ (poolAt q).members, member.sessionId ≠ .drawn k := by
    intro member inside same
    obtain ⟨e, p, j, moment, theirs, tried, drew⟩ := named member inside k same
    obtain ⟨later, earlier, split, clear⟩ := unused
    obtain ⟨later', earlier', split', clear'⟩ := drew
    obtain ⟨new, between, calm⟩ := wrote.between
    rw [split, ← List.append_assoc] at between
    have quiet : ∀ ev ∈ new ++ later, ¬ Attempted ev := by
      intro ev member
      rcases List.mem_append.mp member with here | there
      · exact (calm ev here).not_attempted
      · exact clear ev there
    have outer : q <:+ past := wrote.read.past
    have once := first_after_mint accepted List.suffix_rfl
      (moment.trans (outer.cons)) wrote.mine theirs wrote.attempted tried
      between quiet split' clear'
    exact not_earlier once.symm (moment.trans outer)
  refine ⟨absent, ?_⟩
  intro assignment listed same
  obtain ⟨member, inside, refers⟩ := sound.refs assignment listed
  exact absent member inside (refers.trans same)

theorem poolAt_of_effect (effect : x.effect .pool = some (some (.pool next))) :
    poolAt (x :: past) = next := poolAt_of_lookup (lookup_of_effect effect)

theorem poolAt_of_no_effect (none : x.effect .pool = Option.none) :
    poolAt (x :: past) = poolAt past := by
  rw [poolAt, poolAt, lookup_of_no_effect none]

theorem PoolRun.sound (run : PoolRun a policy t) : Named t (poolAt t) ∧ Sound (poolAt t) := by
  refine every_moment (P := fun u => Named u (poolAt u) ∧ Sound (poolAt u)) ⟨nofun, sound_empty⟩ ?_
  intro x past moment earlier
  have run := run.suffix moment
  cases effect : x.effect .pool with
  | none =>
    rw [poolAt_of_no_effect effect]
    have same := earlier past List.suffix_rfl
    exact ⟨same.1.grow (List.suffix_cons x past), same.2⟩
  | some new =>
    obtain ⟨i, next, g, q, rfl, wrote⟩ := run.wrote effect
    rw [poolAt_of_effect effect]
    have outer : q <:+ past := wrote.read.past
    obtain ⟨named, sound⟩ := earlier q outer
    obtain ⟨clock, revised⟩ := wrote.revises (wrote.newNames run.accepted named sound)
    refine ⟨?_, revised.invariant (fun n y z before edit => Sound.edit before edit) sound⟩
    have origins := revised.invariant
      (P := fun pool => ∀ member ∈ pool.members,
        (∃ old ∈ (poolAt q).members, old.sessionId = member.sessionId) ∨
          Adds (own i (g :: q)) member.sessionId) ?_ fun member inside => .inl ⟨member, inside, rfl⟩
    · intro member inside k same
      rcases origins member inside with ⟨old, listed, equal⟩ | ⟨n, other⟩ | ⟨m, drawn, unused⟩
      · obtain ⟨e, p, j, moment, rest⟩ := named old listed k (equal.trans same)
        exact ⟨e, p, j, moment.trans (outer.cons), rest⟩
      · rw [same] at other
        cases other
      · rw [same] at drawn
        cases drawn
        obtain ⟨new, between, calm⟩ := wrote.between
        refine ⟨x, past, i, List.suffix_rfl, wrote.mine, wrote.attempted, ?_⟩
        rw [between]
        exact lasting_unused.append (fun ev member => (calm ev member).not_attempted) unused
    · intro n y z before edit member inside
      rcases sessionId_of_edit edit inside with ⟨old, listed, equal⟩ | mine
      · rw [← equal]
        exact before old listed
      · exact .inr mine

theorem PoolRun.revised (run : PoolRun a policy (x :: past))
    (wrote : Wrote policy x past i next g q) :
    ∃ clock, Revised (PoolEdit policy (Adds (own i (g :: q))) (TakesBack (own i (g :: q))))
      (own i (g :: q)) (poolAt q) (own i past) clock next := by
  have outer : q <:+ x :: past :=
    wrote.read.past.cons
  obtain ⟨named, sound⟩ := (run.suffix outer).sound
  exact wrote.revises (wrote.newNames run.accepted named sound)

theorem PoolRun.always {P : Nat → AppPool → Prop} (run : PoolRun a policy t) (empty : P 0 {})
    (forward : ∀ n m pool, n ≤ m → P n pool → P m pool)
    (preserved : ∀ added taken n pool next, Sound pool → P n pool →
      PoolEdit policy added taken n pool next → P n next) : P (lastTime t) (poolAt t) := by
  refine every_moment (P := fun u => P (lastTime u) (poolAt u)) empty ?_
  intro x past moment earlier
  have run := run.suffix moment
  cases effect : x.effect .pool with
  | none =>
    rw [poolAt_of_no_effect effect]
    exact forward _ _ _ run.accepted.1.forward (earlier past List.suffix_rfl)
  | some new =>
    obtain ⟨i, next, g, q, rfl, wrote⟩ := run.wrote effect
    rw [poolAt_of_effect effect]
    have outer : q <:+ past := wrote.read.past
    obtain ⟨clock, revised⟩ := run.revised wrote
    have sound := (run.suffix (outer.cons)).sound.2
    have start : P g.time (poolAt q) :=
      forward _ _ _ (run.accepted.2.at wrote.read).forward (earlier q outer)
    exact (revised.at_write (P := fun n pool => Sound pool ∧ P n pool) run.accepted wrote.read
      wrote.reader (fun n m pool later kept => ⟨kept.1, forward n m pool later kept.2⟩)
      (fun n y z _ kept edit =>
        ⟨kept.1.edit edit, preserved _ _ n y z kept.1 kept.2 edit⟩) ⟨sound, start⟩).2

end Runs

end MarimoHub.Guarantees.AppPools
