import MarimoHub.Guarantees.ProposalRule

/-!
# The head pointer of a change request does not go back

Any number of captures and publications of proposals that target a change request whose root is
published. The provider's history is read off the updates it accepted (`heads`). A commit on a
publication was produced by an accepted update of that proposal (`ProposalRun.produced`), so a
publication replaces a head it read before its own update, and a replay one that was recorded
before the proposal was captured. The pointer follows the history (`pointer_never_regresses`),
provided that no proposal is accepted twice: a second publisher of one proposal, which read it as
pending and comes late, records nothing, but moves the pointer from the head it observed back to
the first result (`second_publisher_regresses`).
-/

namespace MarimoHub.Guarantees.Proposals

open ObjectStore Source Source.Proposals

/-! ## Runs -/

/-- A change request whose root proposal is published. -/
structure Opened where
  root : ProposalId
  proposal : NotebookProposal
  updatedAt : Nat
  changeRequest : ChangeRequestPublication
  untargeted : proposal.targetProposalId = none

def Opened.contents (opened : Opened) : List (ProposalKey × ProposalVal) :=
  [(.proposal opened.root, .proposal opened.proposal),
    (.publication opened.root, .publication (.published opened.updatedAt opened.changeRequest))]

def Opened.seeds (opened : Opened) (a : Adapter ProposalStore) : Trace ProposalStore :=
  seed a opened.contents

/-- The calls, none of which has begun. -/
def publishers (a : Adapter ProposalStore) (engine : ProposalEngine) (opened : Opened)
    (calls : Nat → ProposalCall) : Config ProposalStore HubError ProposalResult :=
  ⟨opened.seeds a, fun i => (calls i).prog engine⟩

variable {a : Adapter ProposalStore} {engine : ProposalEngine} {opened : Opened}
  {calls : Nat → ProposalCall} {t past u : Trace ProposalStore} {x : Event ProposalStore}
  {id : ProposalId} {i updatedAt : Nat} {proposal : NotebookProposal}
  {new : Option ProposalVal}

structure ProposalRun (a : Adapter ProposalStore) (opened : Opened) (calls : Nat → ProposalCall)
    (t : Trace ProposalStore) : Prop where
  accepted : Along (Accepts a) t
  based : opened.seeds a <:+ t
  rule : ∀ e past, (e :: past) <:+ t → opened.seeds a <:+ past →
    ∃ i, e.thread = some i ∧ ProposalRule (calls i) (own i past) e.op

theorem run_of_reaches (reach : Reaches a (publishers a engine opened calls) c) :
    History a (opened.seeds a) (fun i => (calls i).prog engine) c ∧
      ProposalRun a opened calls c.trace := by
  have history := reach.history (seeds_seed a opened.contents)
  refine ⟨history, history.accepted, history.based, ?_⟩
  intro e past moment above
  obtain ⟨i, mine⟩ := history.thread_of_moment moment above
  exact ⟨i, mine, history.guarantee (fun i => proposalCall_emits engine (calls i)) moment mine⟩

namespace ProposalRun

theorem suffix (run : ProposalRun a opened calls t) (earlier : past <:+ t)
    (based : opened.seeds a <:+ past) : ProposalRun a opened calls past :=
  ⟨run.accepted.suffix earlier, based, fun e q moment => run.rule e q (moment.trans earlier)⟩

theorem after_seeds (run : ProposalRun a opened calls t) (moment : x :: past <:+ t)
    (mine : x.thread = some i) : opened.seeds a <:+ past :=
  (seeds_seed a opened.contents).before run.based moment mine

/-! ## Proposals -/

theorem root_lookup : lookup (ProposalKey.proposal opened.root) (opened.seeds a) =
        some (.proposal opened.proposal) ∧
      lookup (ProposalKey.publication opened.root) (opened.seeds a) =
        some (.publication (.published opened.updatedAt opened.changeRequest)) := by
  simp [Opened.seeds, Opened.contents, seed, Event.effect]

theorem seeded_publication (seeded : x ∈ opened.seeds a)
    (effect : x.effect (.publication id) = some (some v)) : id = opened.root ∧
      v = .publication (.published opened.updatedAt opened.changeRequest) := by
  obtain ⟨w, same, member⟩ := effect_seed seeded effect
  cases same
  simpa [Opened.contents] using member

section

variable (run : ProposalRun a opened calls t)

include run

theorem proposal_stays (above : u <:+ t) (based : opened.seeds a <:+ u)
    (found : lookup (ProposalKey.proposal id) u = some v) :
    lookup (ProposalKey.proposal id) t = some v := by
  refine value_lasts (P := (· = some v)) above found ?_
  intro y q new moment inside before effect
  obtain ⟨j, _, rule⟩ := run.rule y q moment (based.trans inside)
  have did := Writer.at_effect (run.accepted.suffix moment) (rule.proposals id) effect
  generalize y.op = o at did
  cases did with
  | created v' c creates holds =>
    obtain ⟨rfl, _⟩ := creates
    rw [Cond.Holds, before] at holds
    cases holds
  | changed old v' tag present changes => exact changes.elim
  | removed removes => exact removes.elim

theorem root_proposal :
    lookup (ProposalKey.proposal opened.root) t = some (.proposal opened.proposal) :=
  run.proposal_stays run.based List.suffix_rfl root_lookup.1

/-- A stored proposal is the root, or it was captured with a target at the time it says. -/
theorem captured (found : lookup (ProposalKey.proposal id) t = some v) :
    id = opened.root ∨ ∃ proposal g q, v = .proposal proposal ∧
      proposal.targetProposalId.isSome = true ∧ g :: q <:+ t ∧
      g.toEv = ⟨.now, proposal.createdAt⟩ := by
  obtain ⟨y, q, moment, effect, _⟩ := lookup_moment found
  rcases mem_seeds_or_after run.based moment with seeded | after
  · obtain ⟨w, same, member⟩ := effect_seed seeded effect
    simp only [Opened.contents, List.mem_cons, Prod.mk.injEq, ProposalKey.proposal.injEq,
      List.not_mem_nil, reduceCtorEq, false_and, or_false] at member
    exact .inl member.1
  · obtain ⟨k, _, rule⟩ := run.rule y q moment after
    have did := Writer.at_effect (run.accepted.suffix moment) (rule.proposals id) effect
    generalize y.op = o at did
    cases did with
    | created v' c creates holds =>
      obtain ⟨rfl, proposal, rfl, targeted, read⟩ := creates
      obtain ⟨g, q', inside, _, shape⟩ := exists_own_mem read
      exact .inr ⟨proposal, g, q', rfl, targeted, inside.trans moment.past, shape⟩
    | changed old v' tag present changes => exact changes.elim

section

variable (found : lookup (ProposalKey.proposal id) t = some (.proposal proposal))
include found

theorem root_of_untargeted
    (untargeted : proposal.targetProposalId = none) : id = opened.root := by
  rcases run.captured found with root | ⟨_, _, _, same, targeted, _⟩
  · exact root
  · cases same
    rw [untargeted] at targeted
    cases targeted

theorem ne_root_of_targeted
    (targeted : proposal.targetProposalId.isSome = true) : id ≠ opened.root := by
  rintro rfl
  rw [run.root_proposal] at found
  cases found
  rw [opened.untargeted] at targeted
  cases targeted

end

theorem read_proposal (read : ReadProposal id proposal (own i t)) :
    lookup (ProposalKey.proposal id) t = some (.proposal proposal) := by
  obtain ⟨tag, member⟩ := read
  obtain ⟨g, q, moment, mine, shape⟩ := exists_own_mem member
  exact run.proposal_stays moment.past (run.after_seeds moment mine)
    ((run.accepted.at moment).tagged shape).1

/-! ## Publications -/

theorem publication_step (moment : x :: past <:+ t) (after : opened.seeds a <:+ past)
    (effect : x.effect (.publication id) = some new) :
    (∃ since, new = some (.publication (.pending since)) ∧
        lookup (ProposalKey.publication id) past = none) ∨
      ∃ i former next, x.thread = some i ∧
        lookup (ProposalKey.publication id) past = some (.publication former) ∧
        new = some (.publication next) ∧
        PublicationChange (calls i) id (own i past) former next := by
  obtain ⟨i, mine, rule⟩ := run.rule x past moment after
  have did := Writer.at_effect (run.accepted.suffix moment) (rule.publications id) effect
  generalize x.op = o at did
  cases did with
  | created v c creates holds =>
    obtain ⟨rfl, since, rfl⟩ := creates
    exact .inl ⟨since, rfl, holds⟩
  | changed old v tag found changes =>
    obtain ⟨former, next, rfl, rfl, change⟩ := changes
    exact .inr ⟨i, former, next, mine, found, rfl, change⟩
  | removed removes => exact removes.elim

theorem knows_held (knows : Knows id updatedAt published (own i t)) :
    ∃ w, w <:+ t ∧ ProposalRun a opened calls w ∧ lookup (ProposalKey.publication id) w =
      some (.publication (.published updatedAt published)) := by
  obtain ⟨tag, issued⟩ := knows
  obtain ⟨g, q, w, moment, mine, above, inside, found⟩ := issued.moment run.accepted
  exact ⟨w, inside, run.suffix inside ((run.after_seeds moment mine).trans above), found⟩

/-- What an event that changes a published publication does. -/
theorem advance (moment : x :: past <:+ t) (after : opened.seeds a <:+ past)
    (found : lookup (ProposalKey.publication id) past =
      some (.publication (.published updatedAt current)))
    (effect : x.effect (.publication id) = some new) :
    ∃ i head now next rest, x.thread = some i ∧
      new = some (.publication (.published next { current with headCommit := head })) ∧
      own i past = ⟨.now, now⟩ :: rest ∧ now ≤ next ∧
      Basis (calls i) id rest updatedAt current.headCommit head := by
  rcases run.publication_step moment after effect with ⟨_, _, missing⟩ |
    ⟨i, former, next, mine, present, rfl, change⟩
  · rw [found] at missing
    cases missing
  · rw [found] at present
    cases present
    cases change with
    | advanced _ _ head now next rest split order basis =>
      exact ⟨i, head, now, next, rest, mine, rfl, split, order, basis⟩

theorem root_published :
    ∃ updatedAt published, lookup (ProposalKey.publication opened.root) t =
      some (.publication (.published updatedAt published)) := by
  refine value_lasts (P := fun stored => ∃ updatedAt published,
    stored = some (ProposalVal.publication (.published updatedAt published))) run.based
    ⟨_, _, root_lookup.2⟩ ?_
  rintro y q new moment after ⟨updatedAt, published, found⟩ effect
  obtain ⟨_, _, _, next, _, _, rfl, _⟩ := run.advance moment after found effect
  exact ⟨next, _, rfl⟩

end

end ProposalRun

/-! ## The provider's history -/

/-- The head an accepted update produced. -/
def acceptedHead : Event ProposalStore → Option Commit
  | ⟨⟨.ask (.updateChangeRequest _ _), .ok result⟩, _, _, _⟩ => some result.headCommit
  | _ => none

/-- The heads produced by accepted updates, newest first. -/
def heads (t : Trace ProposalStore) : List Commit := t.filterMap acceptedHead

/-- The provider's history of the change request, newest first. -/
def Opened.history (opened : Opened) (t : Trace ProposalStore) : List Commit :=
  heads t ++ [opened.changeRequest.headCommit]

/-- The provider accepts an update exactly when the expected head is its current head, and the
head it produces is a new commit. -/
def Opened.Serves (opened : Opened) (past : Trace ProposalStore) : Event ProposalStore → Prop
  | ⟨⟨.ask (.updateChangeRequest request _), .ok result⟩, _, _, _⟩ =>
    (opened.history past).head? = some request.headCommit ∧
      result.headCommit ∉ opened.history past
  | ⟨⟨.ask (.updateChangeRequest request _), .error _⟩, _, _, _⟩ =>
    (opened.history past).head? ≠ some request.headCommit
  | _ => True

instance (opened : Opened) (past : Trace ProposalStore) (e : Event ProposalStore) :
    Decidable (opened.Serves past e) := by
  unfold Opened.Serves
  split <;> infer_instance

def readsClock : Op ProposalStore → Bool
  | .now => true
  | _ => false

/-- The clock shows a later time at each reading. -/
def Ticks (past : Trace ProposalStore) (e : Event ProposalStore) : Prop :=
  readsClock e.op = true → ∀ e' ∈ past, readsClock e'.op = true → e'.time < e.time

instance (past : Trace ProposalStore) (e : Event ProposalStore) : Decidable (Ticks past e) :=
  inferInstanceAs (Decidable (_ → _))

/-- The proposal an accepted update is of. -/
def updated (calls : Nat → ProposalCall) (e : Event ProposalStore) : Option ProposalId :=
  match acceptedHead e, e.thread with
  | some _, some i =>
    match calls i with
    | .publish input => some input.proposalId
    | .capture _ _ => none
  | _, _ => none

/-- No update of the proposal has been accepted before. -/
def AcceptedOnce (calls : Nat → ProposalCall) (past : Trace ProposalStore)
    (e : Event ProposalStore) : Prop :=
  updated calls e = none ∨ ∀ e' ∈ past, updated calls e' ≠ updated calls e

instance (calls : Nat → ProposalCall) (past : Trace ProposalStore) (e : Event ProposalStore) :
    Decidable (AcceptedOnce calls past e) := inferInstanceAs (Decidable (_ ∨ _))

theorem same_update
    (once : Along (AcceptedOnce calls) t) (left : x :: past <:+ t) (right : y :: q <:+ t)
    (first : updated calls x = some id) (second : updated calls y = some id) :
    x :: past = y :: q := by
  have apart {e e' : Event ProposalStore} {p p' : Trace ProposalStore} (moment : e :: p <:+ t)
      (earlier : e' :: p' <:+ p) (here : updated calls e = some id)
      (there : updated calls e' = some id) : False := by
    rcases once.at moment with none | fresh
    · rw [here] at none
      cases none
    · exact fresh e' (earlier.subset (.head _)) (there.trans here.symm)
  rcases moments_ordered left right with same | inside | inside
  · exact same
  · exact (apart right inside second first).elim
  · exact (apart left inside first second).elim

/-- The first commit is older than the second in a history, newest first. -/
def Precedes (history : List Commit) (first second : Commit) : Prop :=
  ∃ newer older, history = newer ++ older ∧ second ∈ newer ∧ first ∈ older

theorem Precedes.asymm (distinct : history.Nodup)
    (before : Precedes history first second) : ¬ Precedes history second first := by
  rintro ⟨newer', older', split', inside', behind'⟩
  obtain ⟨newer, older, rfl, inside, behind⟩ := before
  have apart := (List.nodup_append.mp distinct).2.2
  rcases List.append_eq_append_iff.mp split' with ⟨more, rfl, _⟩ | ⟨more, rfl, rfl⟩
  · have apart' := (List.nodup_append.mp (split' ▸ distinct)).2.2
    exact apart' second (List.mem_append_left _ inside) second behind' rfl
  · exact apart first (List.mem_append_left _ inside') first behind rfl

theorem Accepted.head (accepted : Accepted x.toEv result) :
    acceptedHead x = some result.headCommit := by
  obtain ⟨request, details, shape⟩ := accepted
  obtain ⟨⟨o, r⟩, thread, time, applied⟩ := x
  cases shape
  rfl

theorem history_suffix (earlier : past <:+ t) : opened.history past <:+ opened.history t := by
  obtain ⟨later, rfl⟩ := earlier
  exact ⟨heads later, by simp [Opened.history, heads]⟩

variable {head : Commit}

/-- A head comes after what was in the history when its update was accepted. -/
theorem precedes_of_accepted (moment : x :: past <:+ t)
    (accepted : acceptedHead x = some head) (before : current ∈ opened.history past) :
    Precedes (opened.history t) current head := by
  obtain ⟨later, rfl⟩ := moment
  refine ⟨heads later ++ [head], opened.history past, ?_, by simp, before⟩
  simp [Opened.history, heads, accepted]

theorem history_nodup (serves : Along (Opened.Serves opened) t) : (opened.history t).Nodup := by
  induction t with
  | nil => simp [Opened.history, heads]
  | cons y q ih =>
    have earlier := ih serves.2
    have here := serves.1
    cases accepted : acceptedHead y with
    | none => simpa [Opened.history, heads, accepted] using earlier
    | some head =>
      unfold acceptedHead at accepted
      split at accepted
      · cases accepted
        exact List.nodup_cons.mpr ⟨here.2, earlier⟩
      · cases accepted

/-! ## Where heads come from -/

/-- An accepted update of the proposal produced the head; the publisher had read the proposal. -/
def Produced (calls : Nat → ProposalCall) (id : ProposalId) (head : Commit)
    (e : Event ProposalStore) (q : Trace ProposalStore) : Prop :=
  ∃ j input proposal, e.thread = some j ∧ calls j = .publish input ∧ input.proposalId = id ∧
    acceptedHead e = some head ∧ ReadProposal id proposal (own j q) ∧
    proposal.targetProposalId.isSome = true

theorem Produced.accepted (produced : Produced calls id head x past) :
    acceptedHead x = some head := by
  obtain ⟨_, _, _, _, _, _, accepted, _⟩ := produced
  exact accepted

theorem Produced.updated (produced : Produced calls id head x past) :
    updated calls x = some id := by
  obtain ⟨j, input, proposal, mine, call, same, accepted, _⟩ := produced
  rw [Proposals.updated, accepted, mine]
  simp [call, same]

theorem Produced.mem (produced : Produced calls id head x past) (moment : x :: past <:+ t) :
    head ∈ opened.history t :=
  List.mem_append_left _
    (List.mem_filterMap.mpr ⟨x, moment.subset (.head _), produced.accepted⟩)

namespace ProposalRun

section

variable (run : ProposalRun a opened calls t)

include run

theorem untargeted_root (resolved : Resolved target (own i t)) :
    target.rootProposalId = opened.root := by
  obtain ⟨proposal, read, untargeted⟩ := resolved.root
  exact run.root_of_untargeted (run.read_proposal read) untargeted

/-- The head of a publication was produced by an update of that proposal. -/
theorem produced (other : id ≠ opened.root)
    (found : lookup (ProposalKey.publication id) t = some (.publication (.published
      updatedAt published))) :
    ∃ e q, e :: q <:+ t ∧ Produced calls id published.headCommit e q := by
  obtain ⟨y, p, moment, effect, _⟩ := lookup_moment found
  have inside := moment.past
  rcases mem_seeds_or_after run.based moment with seeded | after
  · exact absurd (seeded_publication seeded effect).1 other
  · have before := run.suffix inside after
    rcases run.publication_step moment after effect with ⟨_, same, _⟩ |
      ⟨i, former, next, mine, _, same, change⟩
    · cases same
    · cases same
      cases change with
      | recorded input proposal result provider since now call same read answered =>
        rcases answered with untargeted | ⟨ev, later, earlier, split, accepted, early⟩
        · exact absurd (before.root_of_untargeted (before.read_proposal read) untargeted) other
        · obtain ⟨e, q, here, thread, shape, rest⟩ := exists_own ⟨later, split.symm⟩
          refine ⟨e, q, here.trans inside, i, input, proposal, thread, call, same,
            (shape ▸ accepted : Accepted e.toEv result).head, rest ▸ early, ?_⟩
          have held := before.read_proposal read
          rcases before.captured held with root | ⟨_, _, _, eq, targeted, _⟩
          · exact absurd root other
          · cases eq
            exact targeted
      | advanced _ current head now next rest split order basis =>
        have grown : rest ⊆ own i p := by
          rw [split]
          exact List.subset_cons_self _ _
        exfalso
        refine other ?_
        cases basis with
        | publish _ _ target _ _ later earlier _ _ _ split' _ _ _ resolved root _ _ _ =>
          rw [← root]
          refine before.untargeted_root (resolved.mono fun _ member => grown ?_)
          rw [split']
          exact List.mem_append_right _ (.tail _ member)
        | replay _ _ target _ _ _ _ _ resolved root _ _ _ =>
          rw [← root]
          exact before.untargeted_root (resolved.mono grown)

/-- The head that is to be recorded belongs to a proposal with a target. -/
theorem basis_produced
    (inside : rest ⊆ own i t) (basis : Basis (calls i) root rest updatedAt current head) :
    ∃ e q input, e :: q <:+ t ∧ calls i = .publish input ∧
      Produced calls input.proposalId head e q := by
  have reads {id : ProposalId} {proposal : NotebookProposal} {es : Log ProposalStore}
      (read : ReadProposal id proposal es) (within : es ⊆ rest)
      (targeted : proposal.targetProposalId.isSome = true) : id ≠ opened.root :=
    run.ne_root_of_targeted (run.read_proposal (read.mono fun _ member => inside (within member)))
      targeted
  cases basis with
  | publish input proposal _ ev _ later earlier recordedAt published call split _ read
      targeted _ _ _ knows same =>
    have other := reads read
      (by rw [split]; exact fun _ member => List.mem_append_right _ (.tail _ member))
      targeted
    obtain ⟨w, below, before, found⟩ := run.knows_held (knows.mono inside)
    obtain ⟨e, q, moment, produced⟩ := before.produced other found
    exact ⟨e, q, input, moment.trans below, call, same ▸ produced⟩
  | replay input proposal _ recordedAt published call read targeted _ _ knows same _ =>
    obtain ⟨w, below, before, found⟩ := run.knows_held (knows.knows.mono inside)
    obtain ⟨e, q, moment, produced⟩ := before.produced (reads read (fun _ => id) targeted) found
    exact ⟨e, q, input, moment.trans below, call, same ▸ produced⟩

theorem head_mem
    (found : lookup (ProposalKey.publication id) t = some (.publication (.published
      updatedAt published))) : published.headCommit ∈ opened.history t := by
  by_cases root : id = opened.root
  · subst root
    obtain ⟨y, p, moment, effect, _⟩ := lookup_moment found
    rcases mem_seeds_or_after run.based moment with seeded | after
    · cases (seeded_publication seeded effect).2
      exact List.mem_append_right _ (.head _)
    · have inside := moment.past
      have before := run.suffix inside after
      obtain ⟨_, _, published⟩ := before.root_published
      obtain ⟨i, head, now, next, rest, mine, same, split, _, basis⟩ :=
        run.advance moment after published effect
      cases same
      have grown : rest ⊆ own i p := split ▸ List.subset_cons_self _ _
      obtain ⟨e, q, _, here, _, produced⟩ := before.basis_produced grown basis
      exact produced.mem (here.trans inside)
  · obtain ⟨e, q, moment, produced⟩ := run.produced root found
    exact produced.mem moment

/-- The pointer was set before the time it shows: its head was in the history at some earlier
reading of the clock. -/
theorem pointer_time
    (found : lookup (ProposalKey.publication opened.root) t = some (.publication
      (.published updatedAt published))) : published.headCommit = opened.changeRequest.headCommit ∨
      ∃ g q now, g :: q <:+ t ∧ g.toEv = ⟨.now, now⟩ ∧ now ≤ updatedAt ∧
        published.headCommit ∈ opened.history q := by
  obtain ⟨y, p, moment, effect, _⟩ := lookup_moment found
  rcases mem_seeds_or_after run.based moment with seeded | after
  · cases (seeded_publication seeded effect).2
    exact .inl rfl
  · have inside := moment.past
    obtain ⟨_, _, published⟩ := (run.suffix inside after).root_published
    obtain ⟨i, head, now, next, rest, mine, same, split, order, basis⟩ :=
      run.advance moment after published effect
    cases same
    obtain ⟨g, q, here, thread, shape, before⟩ := exists_own ⟨[], split.symm⟩
    have earlier := (here.trans inside).past
    have prior := run.suffix earlier (run.after_seeds (here.trans inside) thread)
    rw [← before] at basis
    obtain ⟨e, q', _, there, _, produced⟩ := prior.basis_produced (fun _ member => member) basis
    exact .inr ⟨g, q, now, here.trans inside, shape, order, produced.mem there⟩

/-- A proposal was captured before any update of it was accepted. -/
theorem captured_before (moment : x :: past <:+ t) (produced : Produced calls id head x past)
    (found : lookup (ProposalKey.proposal id) t = some (.proposal proposal)) :
    ∃ g q, g :: q <:+ past ∧ g.toEv = ⟨.now, proposal.createdAt⟩ := by
  obtain ⟨j, _, seen, mine, _, _, _, read, targeted⟩ := produced
  have inside := moment.past
  have based := run.after_seeds moment mine
  have before := run.suffix inside based
  have held := before.read_proposal read
  have same := run.proposal_stays inside based held
  rw [found] at same
  cases same
  rcases before.captured held with root | ⟨_, g, q, eq, _, here, shape⟩
  · exact absurd root (before.ne_root_of_targeted held targeted)
  · cases eq
    exact ⟨g, q, here, shape⟩

end

/-- The pointer is advanced from a head to one that was produced later. -/
theorem advance_follows (run : ProposalRun a opened calls (x :: past)) (ticks : Along Ticks past)
    (once : Along (AcceptedOnce calls) past) (after : opened.seeds a <:+ past)
    (effect : x.effect (.publication opened.root) = some new) : ∃ updatedAt current head next e q,
      lookup (ProposalKey.publication opened.root) past =
        some (.publication (.published updatedAt current)) ∧
      new = some (.publication (.published next { current with headCommit := head })) ∧
      e :: q <:+ past ∧ acceptedHead e = some head ∧ current.headCommit ∈ opened.history q := by
  have before := run.suffix (List.suffix_cons x past) after
  obtain ⟨updatedAt, current, found⟩ := before.root_published
  obtain ⟨i, head, now, next, rest, mine, same, split, _, basis⟩ :=
    run.advance List.suffix_rfl after found effect
  have grown : rest ⊆ own i past := split ▸ List.subset_cons_self _ _
  obtain ⟨e, q, input, moment, call, produced⟩ := before.basis_produced grown basis
  refine ⟨updatedAt, current, head, next, e, q, found, same, moment, produced.accepted, ?_⟩
  cases basis with
  | publish input' proposal target ev result later earlier _ _ call' shape took read targeted
      resolved root observed _ _ =>
    rw [call] at call'
    cases call'
    -- the update of this publication is the one that produced the head
    have position : ev :: earlier <:+ own i past :=
      ⟨⟨.now, now⟩ :: later, by rw [split, shape]; rfl⟩
    obtain ⟨e', q', moment', thread, event, prior⟩ := exists_own position
    have also : Produced calls input.proposalId result.headCommit e' q' :=
      ⟨i, input, proposal, thread, call, rfl, (event ▸ took : Accepted e'.toEv result).head,
        prior ▸ read, targeted⟩
    have equal := same_update once moment moment' produced.updated also.updated
    cases equal
    obtain ⟨id, since, published, seen, same⟩ := resolved.observed _ observed
    have inside := moment.past
    have early := before.suffix inside (before.after_seeds moment thread)
    rw [← prior] at seen
    obtain ⟨w, below, run', held⟩ := early.knows_held seen.knows
    rw [← same]
    exact (history_suffix below).subset (run'.head_mem held)
  | replay input' proposal target _ _ call' read targeted _ _ _ _ order =>
    rw [call] at call'
    cases call'
    rcases before.pointer_time found with first | ⟨g, p, time, here, shape, older, held⟩
    · rw [first]
      exact List.mem_append_right _ (.head _)
    · have stored := before.read_proposal (read.mono grown)
      obtain ⟨g', p', there, shape'⟩ := before.captured_before moment produced stored
      have wide := there.trans moment.past
      have value : time = g.time := ((before.accepted.at here).responds_of shape).1
      have value' : proposal.createdAt = g'.time := ((before.accepted.at wide).responds_of shape').1
      have clock : readsClock g.op = true := by rw [congrArg Ev.op shape]; rfl
      have clock' : readsClock g'.op = true := by rw [congrArg Ev.op shape']; rfl
      have first : p <:+ p' := by
        rcases moments_ordered here wide with same | inside | inside
        · cases same
          exact List.suffix_rfl
        · exact inside.past
        · have later := ticks.at here clock g' (inside.subset (.head _)) clock'
          rw [← value, ← value'] at later
          exact absurd (Nat.le_trans older order) (Nat.not_le.mpr later)
      exact (history_suffix (first.trans there.past)).subset held

end ProposalRun

/-- The head recorded on the root is never replaced by a commit that precedes it in the provider's
history, if the provider accepts no proposal twice. -/
theorem pointer_never_regresses {c : Config ProposalStore HubError ProposalResult}
    (reach : Reaches a (publishers a engine opened calls) c)
    (serves : Along opened.Serves c.trace) (ticks : Along Ticks c.trace)
    (once : Along (AcceptedOnce calls) c.trace) {updatedAt next : Nat}
    {current replacing : ChangeRequestPublication} (moment : (x :: past) <:+ c.trace)
    (recorded : lookup (ProposalKey.publication opened.root) past =
      some (.publication (.published updatedAt current)))
    (effect : x.effect (.publication opened.root) =
      some (some (.publication (.published next replacing)))) :
    ¬ Precedes (opened.history past) replacing.headCommit current.headCommit := by
  obtain ⟨history, run⟩ := run_of_reaches reach
  have inside := moment.past
  cases thread : x.thread with
  | none =>
    -- nothing was recorded before the root was published
    have seeded := history.before_run moment thread
    simp only [Opened.seeds, Opened.contents, seed, List.suffix_cons_iff, List.suffix_nil,
      reduceCtorEq, or_false] at seeded
    rcases seeded with ⟨rfl, _⟩ | ⟨_, rfl⟩
    · simp [Event.effect] at effect
    · cases recorded
  | some i =>
    have after := run.after_seeds moment thread
    obtain ⟨_, former, head, _, e, q, found, same, there, accepted, before⟩ :=
      (run.suffix moment (after.cons)).advance_follows
        (ticks.suffix inside) (once.suffix inside) after effect
    rw [recorded] at found
    cases found
    cases same
    exact (precedes_of_accepted there accepted before).asymm (history_nodup (serves.suffix inside))

/-- Whatever the provider and the clock do, a stored proposal stays as it is, and every head on a
publication is one the provider produced: on a publication other than the root's, for an update of
that very proposal. -/
theorem recorded_heads_produced {c : Config ProposalStore HubError ProposalResult}
    (reach : Reaches a (publishers a engine opened calls) c) :
    (∀ id past v, past <:+ c.trace → opened.seeds a <:+ past →
      lookup (ProposalKey.proposal id) past = some v →
      lookup (ProposalKey.proposal id) c.trace = some v) ∧
    ∀ id updatedAt published, lookup (ProposalKey.publication id) c.trace =
        some (.publication (.published updatedAt published)) →
      published.headCommit ∈ opened.history c.trace ∧
      (id ≠ opened.root → ∃ e q, (e :: q) <:+ c.trace ∧
        Produced calls id published.headCommit e q) := by
  have run := (run_of_reaches reach).2
  constructor
  · intro id past v inside based found
    exact run.proposal_stays inside based found
  · intro id updatedAt published found
    exact ⟨run.head_mem found, fun other => run.produced other found⟩

/-! ## Examples -/

namespace Example

def adapter : Adapter ProposalStore := ⟨fun _ n => n, 0⟩

def plain : ProposalEngine := ⟨fun content => content, fun _ => 0, fun _ => true⟩

def source : ProposalSource := ⟨"g", "r", "b", "", "n", "c"⟩

def session : Session where
  sessionId := 5
  notebookId := 2
  projectId := 1
  userId := "ada"
  status := .running
  startedAt := 0
  lastHeartbeat := 0
  sourceVersionId := some 7

def change : ProposalChange := ⟨"x", .delete, 0, ""⟩

/-- The capture of a proposal for the root. -/
def capture (id : ProposalId) : ProposalCall :=
  .capture 1 { projectId := 1, notebookId := 2, proposalId := some id, session := session
               author := "ada", targetProposalId := none, source := .ok source
               captured := .ok (.entryNotebook, [(change, none)]) }

def publishInput (id : ProposalId) : PublishInput where
  proposalId := id
  publisher := some ⟨"g", true⟩
  title := ""
  body := ""
  coAuthor := none
  bound := 3

def publish (id : ProposalId) : ProposalCall := .publish (publishInput id)

/-- The change request at a head. -/
def request (head : Commit) : ChangeRequest := ⟨4, "https://h", "m", head⟩

def opening : Opened where
  root := 1
  proposal := { proposalId := 1, notebookId := 2, sessionId := 5, author := "ada", createdAt := 0
                baseVersionId := 7, captureStrategy := .entryNotebook, source := source
                targetProposalId := none, changes := [change] }
  updatedAt := 0
  changeRequest := ⟨request 100, "g"⟩
  untargeted := rfl

def details : PublishDetails := ⟨"r", "b", "c", "", "", none, [⟨"x", .delete, none⟩]⟩

/-- The provider accepts an update. -/
def accepts (before after : Commit) : Choice ProposalStore :=
  .answer (.updateChangeRequest (request before) details) (.ok (request after))

/-- The moves of a thread, one at each time from `start` on. -/
def moves (thread start : Nat) (choices : List (Choice ProposalStore)) :
    List (Move ProposalStore) :=
  choices.zipIdx.map fun (choice, n) => ⟨thread, start + n, choice⟩

def oks (n : Nat) : List (Choice ProposalStore) := List.replicate n .ok

/-- Two proposals; the first one has two publishers. -/
def twice : Nat → ProposalCall
  | 0 => capture 10
  | 1 => capture 11
  | 2 => publish 10
  | 3 => publish 11
  | _ => publish 10

/-- The proposals are published one after the other. -/
def inTurn : List (Move ProposalStore) :=
  moves 2 31 (oks 5 ++ [accepts 100 101] ++ oks 6) ++
  moves 3 51 (oks 5 ++ [accepts 101 102] ++ oks 6)

/-- The pointer shows this head since a time. -/
def pointer (updatedAt : Nat) (head : Commit) : ProposalVal :=
  .publication (.published updatedAt ⟨request head, "g"⟩)

/-- The last event moves the pointer. -/
def moved (updatedAt next : Nat) (old new : Commit) (history : List Commit) :
    Trace ProposalStore → Bool :=
  atMoment 0 fun x past => x.effect (.publication 1) = some (some (pointer next new)) ∧
    lookup (ProposalKey.publication 1) past = some (pointer updatedAt old) ∧
    opening.history past = history

end Example

open Example

/-- Both proposals are published, and the pointer moves to the second head. -/
theorem second_proposal_advances : ∃ c x past,
    Reaches adapter (publishers adapter plain opening twice) c ∧ (x :: past) <:+ c.trace ∧
    lookup (ProposalKey.publication 1) past = some (pointer 41 101) ∧
    x.effect (.publication 1) = some (some (pointer 61 102)) ∧
    ¬ Precedes (opening.history past) 102 101 := by
  obtain ⟨c, reach, observed⟩ := Config.play_any adapter (publishers adapter plain opening twice)
    (moves 0 1 (oks 7) ++ moves 1 11 (oks 7) ++ inTurn)
    (fun c => Along opening.Serves c.trace ∧ Along Ticks c.trace ∧
      Along (AcceptedOnce twice) c.trace ∧ moved 41 61 101 102 [102, 101, 100] c.trace)
    (by decide +kernel)
  obtain ⟨serves, ticks, once, last⟩ := observed
  obtain ⟨x, past, moment, facts⟩ := exists_moment last
  obtain ⟨effect, found, _⟩ := of_decide_eq_true facts
  exact ⟨c, x, past, reach, moment, found, effect,
    pointer_never_regresses reach serves ticks once moment found effect⟩

/-- A second publisher reads the first proposal as pending and stalls; both proposals are
published, its own update is accepted after them, and it moves the pointer back to the head of the
first proposal. -/
theorem second_publisher_regresses : ∃ c x past,
    Reaches adapter (publishers adapter plain opening twice) c ∧ Along opening.Serves c.trace ∧
    Along Ticks c.trace ∧ (x :: past) <:+ c.trace ∧
    lookup (ProposalKey.publication 1) past = some (pointer 61 102) ∧
    x.effect (.publication 1) = some (some (pointer 76 101)) ∧
    Precedes (opening.history past) 101 102 := by
  obtain ⟨c, reach, observed⟩ := Config.play_any adapter (publishers adapter plain opening twice)
    (moves 0 1 (oks 7) ++ moves 1 11 (oks 7) ++ moves 4 21 (oks 3) ++ inTurn ++
      moves 4 71 (oks 2 ++ [accepts 102 103] ++ oks 4))
    (fun c => Along opening.Serves c.trace ∧ Along Ticks c.trace ∧
      moved 61 76 102 101 [103, 102, 101, 100] c.trace)
    (by decide +kernel)
  obtain ⟨serves, ticks, last⟩ := observed
  obtain ⟨x, past, moment, facts⟩ := exists_moment last
  obtain ⟨effect, found, history⟩ := of_decide_eq_true facts
  refine ⟨c, x, past, reach, serves, ticks, moment, found, effect, [103, 102], [101, 100], ?_⟩
  rw [history]
  decide

theorem recorded_heads_produced_twice : ∃ c,
    Reaches adapter (publishers adapter plain opening twice) c ∧
    lookup (ProposalKey.publication 10) c.trace = some (pointer 38 101) ∧
    ∃ e q, (e :: q) <:+ c.trace ∧ Produced twice 10 101 e q := by
  obtain ⟨c, reach, found⟩ := Config.play_any adapter (publishers adapter plain opening twice)
    (moves 0 1 (oks 7) ++ moves 1 11 (oks 7) ++ inTurn)
    (fun c => lookup (ProposalKey.publication 10) c.trace = some (pointer 38 101))
    (by decide +kernel)
  exact ⟨c, reach, found, ((recorded_heads_produced reach).2 10 38 _ found).2 (by decide)⟩

end MarimoHub.Guarantees.Proposals
