import MarimoHub.Guarantees.ProposalHeads

/-!
# The head pointer of a change request after its replays

Once the proposal of the last accepted update has been replayed, the pointer is at the head that
update produced (`pointer_converges`): when the replay reads the pointer, it is there, or it has
not moved since the update was accepted and is not newer than the proposal, so that the replay
moves it. This takes three conditions. No proposal is accepted twice; an update is accepted only
while the pointer is not newer than its proposal; and the pointer is moved only to the provider's
current head. Without the second one a proposal that was captured before another one was published
and crashed before its advance is never recorded (`replay_leaves_pointer`).
-/

namespace MarimoHub.Guarantees.Proposals

open ObjectStore Source Source.Proposals

variable {a : Adapter ProposalStore} {engine : ProposalEngine} {opened : Opened}
  {calls : Nat → ProposalCall} {t past : Trace ProposalStore} {x : Event ProposalStore}
  {id : ProposalId} {i r : Nat}

/-! ## Conditions -/

/-- A replay of the proposal has run to its end, and the repair of the pointer raised no error. -/
def Replayed (calls : Nat → ProposalCall) (id : ProposalId) (t : Trace ProposalStore) : Prop :=
  ∃ r input es record result, calls r = .publish input ∧ input.proposalId = id ∧
    es <:+ own r t ∧ Prog.Runs (readOrReplay input) es (.ret (record, some (result, .ok ())))

/-- The pointer is not newer than the proposal whose update is accepted. -/
def Opened.Fresh (opened : Opened) (calls : Nat → ProposalCall) (past : Trace ProposalStore)
    (e : Event ProposalStore) : Prop :=
  match updated calls e with
  | none => True
  | some id =>
    match lookup (ProposalKey.proposal id) past,
      lookup (ProposalKey.publication opened.root) past with
    | some (.proposal proposal), some (.publication (.published updatedAt _)) =>
      updatedAt ≤ proposal.createdAt
    | _, _ => True

instance (opened : Opened) (calls : Nat → ProposalCall) (past : Trace ProposalStore)
    (e : Event ProposalStore) : Decidable (opened.Fresh calls past e) := by
  unfold Opened.Fresh
  split
  · infer_instance
  · split <;> infer_instance

/-- The pointer is moved to the provider's current head. -/
def Opened.RecordsCurrent (opened : Opened) (past : Trace ProposalStore)
    (e : Event ProposalStore) : Prop :=
  match e.effect (.publication opened.root) with
  | some (some (.publication (.published _ published))) =>
    (opened.history past).head? = some published.headCommit
  | _ => True

instance (opened : Opened) (past : Trace ProposalStore) (e : Event ProposalStore) :
    Decidable (opened.RecordsCurrent past e) := by
  unfold Opened.RecordsCurrent
  split <;> infer_instance

/-! ## The pointer after the last update -/

/-- The pointer is at the head. -/
def Opened.PointsTo (opened : Opened) (head : Commit) (t : Trace ProposalStore) : Prop :=
  ∃ updatedAt published, lookup (ProposalKey.publication opened.root) t =
    some (.publication (.published updatedAt published)) ∧ published.headCommit = head

variable {head : Commit}

/-- The last accepted update, up to which and after which the history is known. -/
theorem exists_last_update (opened : Opened) (last : heads t = head :: rest) :
    ∃ x past, x :: past <:+ t ∧ acceptedHead x = some head ∧
      ∀ u, x :: past <:+ u → u <:+ t → (opened.history u).head? = some head := by
  induction t with
  | nil => cases last
  | cons y q ih =>
    cases accepted : acceptedHead y with
    | some produced =>
      have same : produced = head := by simpa [heads, accepted] using congrArg List.head? last
      refine ⟨y, q, List.suffix_rfl, same ▸ accepted, ?_⟩
      intro u above below
      rw [← above.eq_of_length_le below.length_le]
      simp [Opened.history, last]
    | none =>
      have same : heads (y :: q) = heads q := by simp [heads, accepted]
      obtain ⟨x, past, moment, produced, newest⟩ := ih (same ▸ last)
      refine ⟨x, past, moment.cons, produced, ?_⟩
      intro u above below
      rcases List.suffix_cons_iff.mp below with rfl | inside
      · simp [Opened.history, last]
      · exact newest u above inside

theorem effect_of_accepted (accepted : acceptedHead x = some head) (k : ProposalKey) :
    x.effect k = none := by
  unfold acceptedHead at accepted
  split at accepted
  · rfl
  · cases accepted

variable {record : ProposalRecord} {updatedAt : Nat} {published : ChangeRequestPublication}

namespace ProposalRun

theorem moves_to_newest (run : ProposalRun a opened calls t)
    (current : Along opened.RecordsCurrent t) (moment : x :: past <:+ t)
    (after : opened.seeds a <:+ past) (newest : (opened.history past).head? = some head)
    (effect : x.effect (.publication opened.root) = some new) :
    opened.PointsTo head (x :: past) := by
  obtain ⟨_, _, found⟩ := (run.suffix moment.past after).root_published
  obtain ⟨_, _, _, next, _, _, rfl, _⟩ := run.advance moment after found effect
  have here := current.at moment
  rw [Opened.RecordsCurrent, effect] at here
  exact ⟨next, _, lookup_of_effect effect, Option.some.inj (here.symm.trans newest)⟩

theorem update_of (run : ProposalRun a opened calls t) (moment : x :: past <:+ t)
    (accepted : acceptedHead x = some head) : ∃ id, Produced calls id head x past := by
  have after : opened.seeds a <:+ past := by
    rcases mem_seeds_or_after run.based moment with seeded | after
    · simp only [Opened.seeds, Opened.contents, seed, List.mem_cons, List.not_mem_nil,
        or_false] at seeded
      rcases seeded with rfl | rfl <;> cases accepted
    · exact after
  obtain ⟨j, mine, rule⟩ := run.rule x past moment after
  have asks := rule.asks
  obtain ⟨⟨o, r⟩, thread, time, applied⟩ := x
  unfold acceptedHead at accepted
  split at accepted
  · next shape =>
    cases shape
    cases accepted
    obtain ⟨input, proposal, call, read, targeted⟩ := asks
    exact ⟨input.proposalId, j, input, proposal, mine, call, rfl, rfl, read, targeted⟩
  · cases accepted

section Last

variable (run : ProposalRun a opened calls t)
  (current : Along opened.RecordsCurrent t) (based : opened.seeds a <:+ u)
  (newest : ∀ v, u <:+ v → v <:+ t → (opened.history v).head? = some head) (above : u <:+ w)
  (below : w <:+ t)
include run current based newest above below

/-- While a head is the newest one, the pointer stays where it is or moves to that head. -/
theorem pointer_after : lookup (ProposalKey.publication opened.root) w =
        lookup (ProposalKey.publication opened.root) u ∨ opened.PointsTo head w := by
  refine lasts (P := fun v => lookup (ProposalKey.publication opened.root) v =
    lookup (ProposalKey.publication opened.root) u ∨ opened.PointsTo head v) above
    (.inl rfl) ?_
  intro y q moment inside before
  have earlier := (moment.trans below).past
  cases effect : y.effect (.publication opened.root) with
  | none =>
    rw [Opened.PointsTo, lookup_of_no_effect effect]
    exact before
  | some new =>
    exact .inr (run.moves_to_newest current (moment.trans below) (based.trans inside)
      (newest q inside earlier) effect)

theorem pointer_stays (there : opened.PointsTo head u) : opened.PointsTo head w := by
  rcases run.pointer_after current based newest above below with same | points
  · rw [Opened.PointsTo, same]
    exact there
  · exact points

end Last

/-! ## The replay -/

/-- What a replay has read when it comes to move the pointer: the recorded head, and after that
the pointer. -/
theorem replay_reads (run : ProposalRun a opened calls t)
    (recorded : record.publication = .published updatedAt published)
    (resolved : Resolved target seen) (base : seen ++ recordReads id record tag tag' <:+ own r t) :
    target.rootProposalId = opened.root ∧ ∃ p q since pointer,
      lookup (B := ProposalStore) (.publication id) p =
        some (.publication (.published updatedAt published)) ∧ opened.seeds a <:+ p ∧ p <:+ q ∧
      q <:+ t ∧ lookup (ProposalKey.publication opened.root) q =
        some (.publication (.published since pointer)) ∧
      pointer.headCommit ∈ target.observedHeadCommits := by
  have root : target.rootProposalId = opened.root :=
    run.untargeted_root (resolved.mono fun _ member => base.subset (List.mem_append_left _ member))
  obtain ⟨later, whole⟩ := base
  obtain ⟨g, p, moment, mine, shape, before⟩ := exists_own
    ⟨later ++ seen, by rw [← whole, recordReads, List.append_assoc]⟩
  have split : own r t = (later ++ seen) ++ own r (g :: p) := by
    rw [own_cons mine, shape, before, ← whole, recordReads, List.append_assoc]
  obtain ⟨since, pointer, ⟨tag, read⟩, observed⟩ := resolved.pointer
  obtain ⟨h, q, there, _, event, order⟩ := exists_own_after moment mine split
    (List.mem_append_right _ read)
  have first := ((run.accepted.at moment).tagged shape).1
  rw [recorded] at first
  refine ⟨root, p, q, since, pointer, first, run.after_seeds moment mine,
    order.past, there.past, ?_, observed⟩
  rw [← root]
  exact ((run.accepted.at there).tagged event).1

/-- A replay of the proposal of the last update leaves the pointer at the head produced. -/
theorem replay_points (run : ProposalRun a opened calls t) (current : Along opened.RecordsCurrent t)
    (once : Along (AcceptedOnce calls) t)
    (moment : x :: past <:+ t) (produced : Produced calls id head x past)
    (newest : ∀ u, x :: past <:+ u → u <:+ t → (opened.history u).head? = some head)
    (pointer : lookup (ProposalKey.publication opened.root) (x :: past) = some
      (.publication (.published updatedAt published)))
    (fresh : updatedAt ≤ proposal.createdAt) (same : record.proposal = proposal)
    (other : id ≠ opened.root) (within : es <:+ own r t)
    (repaired : Repaired id record [] es) : opened.PointsTo head t := by
  obtain ⟨tag, tag', seen, target, recordedAt, recorded, stored, resolved, ended⟩ := repaired
  have based : opened.seeds a <:+ x :: past := by
    obtain ⟨_, _, _, mine, _⟩ := produced
    exact (run.after_seeds moment mine).cons
  -- the replay comes after the update, and its last event after it has read the pointer
  have last {ev : Ev ProposalStore} {rest : Log ProposalStore} (whole : ev :: rest <:+ own r t)
      (above : seen ++ (recordReads id record tag tag' ++ []) <:+ rest) :
      recorded.headCommit = head ∧ target.rootProposalId = opened.root ∧
        ∃ h p q since seenAt, h :: p <:+ t ∧ h.toEv = ev ∧ x :: past <:+ q ∧ q <:+ p ∧
        lookup (ProposalKey.publication opened.root) q =
          some (.publication (.published since seenAt)) ∧
        seenAt.headCommit ∈ target.observedHeadCommits := by
    obtain ⟨h, p, here, mine, shape, before⟩ := exists_own whole
    have inside := here.past
    have earlier := run.suffix inside (run.after_seeds here mine)
    rw [← before] at above
    obtain ⟨root, w, q, since, seenAt, found, after, order, below, held, observed⟩ :=
      earlier.replay_reads stored resolved above
    have wide := order.trans (below.trans inside)
    obtain ⟨e, q', there, also⟩ := (run.suffix wide after).produced other found
    cases same_update once moment (there.trans wide) produced.updated also.updated
    exact ⟨Option.some.inj (also.accepted.symm.trans produced.accepted), root, h, p, q, since,
      seenAt, here, shape, there.trans order, below, held, observed⟩
  cases ended with
  | written _ next former _ _ rest above _ =>
    obtain ⟨result, root, h, p, q, _, _, here, shape, order, below, _⟩ := last within above
    have beyond := order.trans (below.trans (List.suffix_cons h p))
    refine run.pointer_stays current (based.trans beyond)
      (fun u up => newest u (beyond.trans up)) here List.suffix_rfl ?_
    have applied := ((run.accepted.at here).responds_of shape).2.2
    have effect : h.effect (.publication opened.root) = some (some (.publication (.published next
        { former with headCommit := recorded.headCommit }))) := by
      rw [effect_put shape, root]
      simp [applied, replayAdvance, publishAdvance]
    exact ⟨next, _, lookup_of_effect effect, result⟩
  | kept updatedAt' now tag rest above reason =>
    obtain ⟨result, root, h, p, q, since, seenAt, here, shape, order, below, held, observed⟩ :=
      last within above
    have inside := here.past
    have beyond := order.trans below
    refine run.pointer_stays current (based.trans beyond)
      (fun u up => newest u (beyond.trans up)) inside List.suffix_rfl ?_
    have found := ((run.accepted.at here).tagged shape).1
    rw [root] at found
    rcases run.pointer_after current based newest beyond inside with unmoved | points
    · rw [pointer] at unmoved
      rw [unmoved] at found
      cases found
      rcases run.pointer_after current based newest order (below.trans inside) with still | points
      · rw [pointer] at still
        rw [still] at held
        cases held
        rcases reason with done | back
        · exact ⟨updatedAt, published, unmoved, done.trans result⟩
        · rcases of_decide_eq_true back with missing | ⟨_, newer⟩
          · exact absurd observed missing
          · rw [same] at newer
            exact absurd fresh (Nat.not_le.mpr newer)
      · exact run.pointer_stays current (based.trans order) (fun u up => newest u (order.trans up))
          below inside points
    · exact points

end ProposalRun

/-- Once every proposal whose update was accepted has been replayed, the pointer is at the head
produced by the last accepted update, if the provider accepts no proposal twice and none that is
older than the pointer, and the pointer is moved only to the provider's current head. -/
theorem pointer_converges {c : Config ProposalStore HubError ProposalResult}
    (reach : Reaches a (publishers a engine opened calls) c)
    (once : Along (AcceptedOnce calls) c.trace) (fresh : Along (opened.Fresh calls) c.trace)
    (current : Along opened.RecordsCurrent c.trace)
    (replayed : ∀ e ∈ c.trace, ∀ id, updated calls e = some id → Replayed calls id c.trace)
    {head : Commit} {rest : List Commit} (last : heads c.trace = head :: rest) :
    opened.PointsTo head c.trace := by
  obtain ⟨_, run⟩ := run_of_reaches reach
  obtain ⟨x, past, moment, accepted, newest⟩ := exists_last_update opened last
  obtain ⟨name, produced⟩ := run.update_of moment accepted
  have inside := moment.past
  obtain ⟨j, _, proposal, mine, _, _, _, read, targeted⟩ := id produced
  have based := run.after_seeds moment mine
  have before := run.suffix inside based
  have held := before.read_proposal read
  obtain ⟨updatedAt, published, pointer⟩ := before.root_published
  have young := fresh.at moment
  simp only [Opened.Fresh, produced.updated, held, pointer] at young
  have ask := effect_of_accepted accepted (.publication opened.root)
  obtain ⟨r, input, es, record, result, call, named, within, runs⟩ :=
    replayed x (moment.subset (.head _)) name produced.updated
  obtain ⟨⟨tag, tag', reads⟩, repaired⟩ := (emits_readOrReplay.runs runs).1
  rw [named] at reads repaired
  have stored := run.read_proposal (i := r)
    (⟨tag, within.subset (reads.subset (by simp [recordReads]))⟩ :
      ReadProposal name record.proposal _)
  have same : record.proposal = proposal := by
    have kept := run.proposal_stays inside based held
    rw [stored] at kept
    cases kept
    rfl
  refine run.replay_points current once moment produced newest
    ((lookup_of_no_effect ask).trans pointer) young same (before.ne_root_of_targeted held targeted)
    within (repaired result rfl (same ▸ targeted))

/-! ## Examples -/

/-- The client's own events are a replay that repaired the pointer. -/
def repairedBy (r : Nat) (input : PublishInput) (t : Trace ProposalStore) : Bool :=
  match (readOrReplay input).follow (own r t).reverse with
  | some (.ret (_, some (_, .ok ()))) => true
  | _ => false

theorem replayed_of_repairedBy (call : calls r = .publish input)
    (repaired : repairedBy r input t = true) : Replayed calls input.proposalId t := by
  unfold repairedBy at repaired
  split at repaired
  · next record result followed =>
    refine ⟨r, input, own r t, record, result, call, rfl, List.suffix_rfl, ?_⟩
    rw [← List.reverse_reverse (own r t)]
    exact Prog.follow_runs followed
  · cases repaired

namespace Example

/-- Two proposals, each published and replayed. -/
def replays : Nat → ProposalCall
  | 0 => capture 10
  | 1 => capture 11
  | 2 => publish 10
  | 3 => publish 11
  | 4 => publish 10
  | _ => publish 11

/-- Every accepted update is of one of the proposals. -/
def updatesOnly (ids : List ProposalId) (t : Trace ProposalStore) : Bool :=
  t.all fun e => (updated replays e).all (· ∈ ids)

theorem mem_of_updatesOnly (only : updatesOnly ids t = true) (member : e ∈ t)
    (update : updated replays e = some id) : id ∈ ids := by
  have here := List.all_eq_true.mp only e member
  rw [update] at here
  exact of_decide_eq_true here

end Example

open Example

/-- The publisher crashes before it has moved the pointer, and the replay moves it. -/
theorem replay_moves_pointer : ∃ c,
    Reaches adapter (publishers adapter plain opening replays) c ∧ heads c.trace = [101] ∧
    opening.PointsTo 101 c.trace := by
  obtain ⟨c, reach, observed⟩ := Config.play_any adapter (publishers adapter plain opening replays)
    (moves 0 1 (oks 7) ++ moves 2 31 (oks 5 ++ [accepts 100 101] ++ oks 3) ++ moves 4 51 (oks 7))
    (fun c => Along (AcceptedOnce replays) c.trace ∧ Along (opening.Fresh replays) c.trace ∧
      Along opening.RecordsCurrent c.trace ∧ heads c.trace = [101] ∧
      updatesOnly [10] c.trace ∧ repairedBy 4 (publishInput 10) c.trace)
    (by decide +kernel)
  obtain ⟨once, fresh, current, last, only, repaired⟩ := observed
  refine ⟨c, reach, last, pointer_converges reach once fresh current ?_ last⟩
  intro e member id update
  cases List.mem_singleton.mp (mem_of_updatesOnly only member update)
  have done : Replayed replays (publishInput 10).proposalId c.trace :=
    replayed_of_repairedBy rfl repaired
  exact done

/-- The second proposal is published after the first one was captured. The first one is accepted
then, its publisher crashes before it has moved the pointer, and the replay finds the pointer newer
than the proposal. -/
theorem replay_leaves_pointer : ∃ c,
    Reaches adapter (publishers adapter plain opening replays) c ∧ Along opening.Serves c.trace ∧
    Along Ticks c.trace ∧
    (∀ e ∈ c.trace, ∀ id, updated replays e = some id → Replayed replays id c.trace) ∧
    heads c.trace = [102, 101] ∧ ¬ opening.PointsTo 102 c.trace := by
  obtain ⟨c, reach, observed⟩ := Config.play_any adapter (publishers adapter plain opening replays)
    (moves 0 1 (oks 7) ++ moves 1 11 (oks 7) ++ moves 3 21 (oks 5 ++ [accepts 100 101] ++ oks 6) ++
      moves 2 41 (oks 5 ++ [accepts 101 102] ++ oks 3) ++ moves 4 61 (oks 5) ++ moves 5 71 (oks 5))
    (fun c => Along opening.Serves c.trace ∧ Along Ticks c.trace ∧ heads c.trace = [102, 101] ∧
      updatesOnly [10, 11] c.trace ∧ repairedBy 4 (publishInput 10) c.trace ∧
      repairedBy 5 (publishInput 11) c.trace ∧
      lookup (ProposalKey.publication 1) c.trace = some (pointer 31 101))
    (by decide +kernel)
  obtain ⟨serves, ticks, last, only, first, second, stays⟩ := observed
  have one : Replayed replays (publishInput 10).proposalId c.trace :=
    replayed_of_repairedBy rfl first
  have two : Replayed replays (publishInput 11).proposalId c.trace :=
    replayed_of_repairedBy rfl second
  refine ⟨c, reach, serves, ticks, ?_, last, ?_⟩
  · intro e member id update
    rcases List.mem_cons.mp (mem_of_updatesOnly only member update) with rfl | rest
    · exact one
    · cases List.mem_singleton.mp rest
      exact two
  · rintro ⟨updatedAt, published, found, same⟩
    cases stays.symm.trans found
    cases same

end MarimoHub.Guarantees.Proposals
