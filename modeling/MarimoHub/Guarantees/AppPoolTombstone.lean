import MarimoHub.Guarantees.AppPoolRuns

/-!
# The tombstone of a deleted notebook's pool

The deletion of a notebook tombstones its pool so that delayed admissions cannot recreate it. A
pool mutation respects the tombstone, but the cancellation of a pending move removes it from
whatever record it finds (`cancelled_move_reopens_pool`). The tombstone stays in every run in which
no pool is reopened while the notebook is marked deleted (`tombstone_stays`).
-/

namespace MarimoHub.Guarantees.AppPools

open ObjectStore Source.AppPools Prog
open Source hiding AppPool AppPoolMember

/-- What the deletion leaves: a tombstone, no assignment and only retiring members. -/
def IsTombstone (pool : AppPool) : Prop :=
  pool.deletedAt.isSome = true ∧ pool.assignments = [] ∧
    ∀ member ∈ pool.members, member.state = .retiring

theorem IsTombstone.kept (tombstone : IsTombstone pool)
    (respected : breaksTombstone pool next = false) : IsTombstone next := by
  simp only [breaksTombstone, tombstone.1, Bool.true_and, Bool.or_eq_false_iff,
    decide_eq_false_iff_not, not_not, List.any_eq_false, decide_eq_true_eq] at respected
  obtain ⟨⟨same, unassigned⟩, retiring⟩ := respected
  exact ⟨same ▸ tombstone.1, unassigned, retiring⟩

/-! ## The deletion -/

/-- The deletion reads and writes the pool after it has seen the notebook deleted, and writes
tombstones only. -/
def DeletionRule (es : Log AppStore) : Op AppStore → Prop
  | .get k => k = .pool → SawDeleted es
  | .put k v _ => k = .pool → SawDeleted es ∧ ∃ next, v = .pool next ∧ IsTombstone next
  | _ => True

/-- The writes of the deletion alone. -/
def WritesTombstones (_ : Log AppStore) : Op AppStore → Prop
  | .put k v _ => k = .pool → ∃ next, v = .pool next ∧ IsTombstone next
  | _ => True

theorem permits_writesTombstones : Permits WritesTombstones :=
  ⟨fun _ => trivial, fun _ o quiet => by cases o <;> first | exact quiet.elim | trivial⟩

theorem SawDeleted.grow (saw : SawDeleted es) (grown : es <:+ later) : SawDeleted later := by
  obtain ⟨stored, tag, deleted, read | ⟨c, wrote⟩⟩ := saw
  · exact ⟨stored, tag, deleted, .inl (grown.subset read)⟩
  · exact ⟨stored, tag, deleted, .inr ⟨c, grown.subset wrote⟩⟩

theorem keeps_tombstoning : Keeps WritesTombstones retireForDeletion := by
  intro past
  refine (permits_writesTombstones.mutatePool (R := fun _ _ _ => True) lasting_true ?_ past
    trivial).forget
  intro base pool c _ _
  refine emits_seq (quiet_tombstoneTime _) fun deletedAt es _ _ => ?_
  refine ⟨trivial, fun _ _ _ _ _ => ⟨_, rfl, rfl, rfl, ?_⟩⟩
  intro member inside
  obtain ⟨old, _, rfl⟩ := List.mem_map.mp inside
  rfl

theorem emits_deleteNotebook :
    Emits DeletionRule (fun _ _ => True) (deleteNotebook expected) past := by
  have first : Emits DeletionRule (yields fun _ es => SawDeleted es)
      (mutateObjectWithOutcome .metadata parseMetadata (markDeleted expected)
        AppVal.metadata appNotebookNotFound defaultRetries) past := by
    refine emits_deleteMetadata.weaken fun es o _ spares => ?_
    cases o with
    | get k => exact fun same => absurd same spares
    | put k v c => exact fun same => absurd same spares.1
    | _ => trivial
  refine emits_seq first (fun outcome es _ saw => ?_)
  have rest : Keeps WritesTombstones (projectDeleted outcome.written >>= fun _ =>
      retireForDeletion >>= fun _ => appStep .retireThumbnails >>= fun _ =>
        ignoringErrors (appStep .releaseClaims)) := by
    have asks (step : AppStep) : Keeps WritesTombstones (appStep step) :=
      permits_writesTombstones.keeps quiet_appStep
    refine Keeps.bind ?_ fun _ => keeps_tombstoning.bind fun _ => (asks _).bind fun _ =>
      keeps_ignoringErrors (asks _)
    exact Keeps.ite (asks _) keeps_ret
  refine (rest es).weaken fun es' o grown allowed => ?_
  cases o with
  | get k => exact fun _ => saw.grow grown
  | put k v c => exact fun same => ⟨saw.grow grown, allowed same⟩
  | _ => trivial

/-! ## Runs -/

/-- The metadata says that the notebook is deleted. -/
def notebookDeleted (t : Trace AppStore) : Bool :=
  match lookup AppKey.metadata t with
  | some (.metadata stored) => stored.status = .deleted
  | _ => false

variable {t : Trace AppStore}

theorem notebookDeleted_iff : notebookDeleted t = true ↔
    ∃ stored, lookup AppKey.metadata t = some (.metadata stored) ∧
      stored.status = .deleted := by
  rw [notebookDeleted]
  split
  · next stored found => simp [found]
  · next other =>
    refine ⟨nofun, ?_⟩
    rintro ⟨stored, found, _⟩
    exact absurd found (other stored)

/-- The event removes the tombstone of the pool. -/
def reopensPool (past : Trace AppStore) (e : Event AppStore) : Bool :=
  (poolAt past).deletedAt.isSome && (poolAt (e :: past)).deletedAt.isNone

/-- A pool is reopened only while its notebook is not marked deleted. -/
def ReopensLive (past : Trace AppStore) (e : Event AppStore) : Prop :=
  reopensPool past e = true → notebookDeleted past = false

instance (past : Trace AppStore) (e : Event AppStore) : Decidable (ReopensLive past e) :=
  inferInstanceAs (Decidable (_ → _))

/-- The deletion has just tombstoned the pool, or has found it as it leaves it. -/
def Tombstones (past : Trace AppStore) (e : Event AppStore) : Prop :=
  e.effect .pool ≠ none ∨ e.op = .get .pool ∧ IsTombstone (poolAt past)

section Runs

theorem notebookDeleted_cons (accepted : Along (Accepts a) (x :: past))
    (rule : PoolRule policy (own i past) x.op) (deleted : notebookDeleted past = true) :
    notebookDeleted (x :: past) = true := by
  cases effect : x.effect .metadata with
  | none =>
    rw [notebookDeleted, lookup_of_no_effect effect]
    exact deleted
  | some new =>
    have allows : metadataWriter.Allows .metadata (own i past) x.op := by
      revert rule
      cases x.op with
      | put k v c => exact fun rule => rule.2
      | delete k => exact fun rule same => absurd same rule.2
      | _ => exact fun _ => trivial
    obtain ⟨stored, found, status⟩ := notebookDeleted_iff.mp deleted
    refine notebookDeleted_iff.mpr ?_
    rw [lookup_of_effect effect]
    have did := Writer.at_effect accepted allows effect
    generalize x.op = o at did
    cases did with
    | created v c never _ => exact never.elim
    | removed never => exact never.elim
    | changed old v tag present changes =>
      obtain ⟨stored', next, rfl, rfl, kept⟩ := changes
      rw [found] at present
      cases present
      refine ⟨next, rfl, ?_⟩
      rcases kept with now | same
      · exact now
      · exact same.trans status

theorem tombstone_cons (accepted : Along (Accepts a) (x :: past))
    (rule : PoolRule policy (own i past) x.op) (live : ReopensLive past x)
    (deleted : notebookDeleted past = true) (tombstone : IsTombstone (poolAt past)) :
    IsTombstone (poolAt (x :: past)) := by
  cases effect : x.effect .pool with
  | none =>
    rw [poolAt_of_no_effect effect]
    exact tombstone
  | some new =>
    obtain ⟨v, c, r, rfl, shape, applied, written⟩ := written_under rule effect (·.1 rfl)
    obtain ⟨pool, next, between, base, rfl, split, _, read, kept, _⟩ := written.1 rfl
    obtain ⟨_, _, _, _, _, _, _, here⟩ := read.at_write accepted split shape applied
    rw [here] at tombstone
    rw [poolAt_of_effect effect]
    rcases kept with respected | rfl
    · exact tombstone.kept respected
    · have reopens : reopensPool past x = true := by
        rw [reopensPool, poolAt_of_effect effect, here, tombstone.1]
        rfl
      rw [live reopens] at deleted
      cases deleted

/-- Whoever saw the notebook deleted acted after its deletion, which stays. -/
theorem SawDeleted.holds (history : History a seeds body c) (initial : Seeds a seeds)
    (rule : ∀ e q j, e :: q <:+ c.trace → e.thread = some j → PoolRule policy (own j q) e.op)
    (inside : past <:+ c.trace) (saw : SawDeleted (own i past)) : notebookDeleted past = true := by
  obtain ⟨stored, tag, status, issued⟩ := saw
  obtain ⟨e, q, u, moment, mine, above, before, found⟩ :=
    issued.moment (history.accepted.suffix inside)
  have based := history.after_seeds initial (moment.trans inside) mine
  refine lasts (P := fun v => notebookDeleted v = true) before
    (notebookDeleted_iff.mpr ⟨stored, found, status⟩) ?_
  intro y p here since deleted
  have reached := here.trans inside
  obtain ⟨j, theirs⟩ := history.thread_of_moment reached ((based.trans above).trans since)
  exact notebookDeleted_cons (history.accepted.suffix reached) (rule y p j reached theirs) deleted

/-- A deletion that tombstones the pool has seen the notebook deleted, and leaves a tombstone. -/
theorem Tombstones.result (tombstones : Tombstones past x)
    (rule : PoolRule policy (own i past) x.op) (deletion : DeletionRule (own i past) x.op) :
    SawDeleted (own i past) ∧ IsTombstone (poolAt (x :: past)) := by
  rcases tombstones with changes | ⟨reads, found⟩
  · cases effect : x.effect .pool with
    | none => exact absurd effect changes
    | some new =>
      obtain ⟨v, c, r, rfl, shape, _⟩ := written_under rule effect (·.1 rfl)
      rw [congrArg Ev.op shape] at deletion
      obtain ⟨saw, next, rfl, tombstone⟩ := deletion rfl
      rw [poolAt_of_effect effect]
      exact ⟨saw, tombstone⟩
  · rw [reads] at deletion
    have nothing : x.effect .pool = none := by rw [Event.effect, reads]
    rw [poolAt_of_no_effect nothing]
    exact ⟨deletion rfl, found⟩

end Runs

/-- In a run in which no pool is reopened while its notebook is marked deleted: once the deletion of
the notebook has tombstoned the pool, there is no assignment and every member is retiring, in every
later state. -/
theorem tombstone_stays (a : Adapter AppStore) (service : AppPoolService) {seeds : Trace AppStore}
    (initial : Seeds a seeds) (calls : Nat → PoolCall) {c : Config AppStore HubError Unit}
    (reach : Reaches a ⟨seeds, fun i => (calls i).prog service⟩ c)
    (live : Along ReopensLive c.trace) {d : Nat} {expected : Option Nat}
    (deletes : calls d = .deleteNotebook expected) {x : Event AppStore} {past t : Trace AppStore}
    (mine : x.thread = some d) (tombstones : Tombstones past x) (since : (x :: past) <:+ t)
    (later : t <:+ c.trace) :
    (poolAt t).assignments = [] ∧ ∀ member ∈ (poolAt t).members, member.state = .retiring := by
  have history := reach.history initial
  have moment := since.trans later
  have based : seeds <:+ past := history.after_seeds initial moment mine
  have rule : ∀ e q i, e :: q <:+ c.trace → e.thread = some i →
      PoolRule service.policy (own i q) e.op := fun e q i inside theirs =>
    history.guarantee (fun i => poolCall_keeps_rule []) inside theirs
  have deletion : DeletionRule (own d past) x.op := by
    refine history.guarantee (G := fun i es o => i = d → DeletionRule es o)
      (Q := fun _ _ _ => True) (fun i => ?_) moment mine rfl
    by_cases same : i = d
    · rw [same, deletes]
      exact emits_deleteNotebook.weaken fun _ _ _ allowed _ => allowed
    · exact ((poolCall_keeps_rule []).weaken fun _ _ _ _ mine => absurd mine same).forget
  obtain ⟨saw, tombstone⟩ := tombstones.result (rule x past d moment mine) deletion
  have before : notebookDeleted past = true :=
    saw.holds history initial rule moment.past
  have start : notebookDeleted (x :: past) = true :=
    notebookDeleted_cons (history.accepted.suffix moment) (rule x past d moment mine) before
  have kept := lasts (P := fun v => notebookDeleted v = true ∧ IsTombstone (poolAt v)) since
    ⟨start, tombstone⟩ ?_
  · exact kept.2.2
  · intro y p here after held
    have reached := here.trans later
    obtain ⟨j, theirs⟩ := history.thread_of_moment reached ((based.cons).trans after)
    have accepted := history.accepted.suffix reached
    have allowed := rule y p j reached theirs
    exact ⟨notebookDeleted_cons accepted allowed held.1,
      tombstone_cons accepted allowed (live.at reached) held.1 held.2⟩

namespace DeletedWhileMoving

def service : AppPoolService where
  project := 1
  notebook := 2
  policy := { userLeaseMs := 1000, reconnectGraceMs := 1, idleMs := 10 }
  localeBefore _ _ := false

def adapter : Adapter AppStore := ⟨fun _ n => n, 0⟩

def notebook : NotebookMeta :=
  ⟨none, 2, 1, "report", "", .active, "owner", 0, 10, none, [], none, none, none, none, none⟩

/-- A move that stopped before it fenced the notebook. -/
def move : NotebookMove := ⟨5, 1, .preparing, none⟩

def contents : List (AppKey × AppVal) :=
  [(.metadata, .metadata notebook), (.notebookMove, .move move)]

def calls : Nat → PoolCall
  | 0 => .deleteNotebook none
  | 1 => .cancelMove
  | _ => .admission ⟨"ana", 7, 100⟩ none

def start : Config AppStore HubError Unit :=
  ⟨seed adapter contents, fun i => (calls i).prog service⟩

def deletion : List (Move AppStore) :=
  turns 0 1 [.ok, .ok, .ok, .answer (.step .updateNotebookEntry) (.ok ()), .ok, .ok, .ok]

def cancellation : List (Move AppStore) :=
  turns 1 1 [.ok, .ok, .answer (.step .readProject) (.ok ()), .answer .authorize (.ok ()), .id 0,
    .ok, .ok, .ok, .answer .isPublished (.ok false), .answer (.step .deleteDestination) (.ok ()),
    .ok, .ok]

def delayedAdmission : List (Move AppStore) :=
  turns 2 1 [.id 1, .ok, .answer .listActiveByProject (.ok []), .ok, .ok, .id 2, .id 3, .id 4, .ok,
    .answer .committedVersion (.ok (some 7)), .ok, .ok]

/-- The deletion wrote the pool as the `n`-th event from the end. -/
def tombstonedBefore (n : Nat) (t : Trace AppStore) : Bool :=
  match t.drop n with
  | x :: _ => x.thread = some 0 && (x.effect .pool).isSome
  | [] => false

theorem tombstones_of_drop (before : tombstonedBefore n t = true) :
    ∃ x past, x :: past <:+ t ∧ x.thread = some 0 ∧ Tombstones past x := by
  rw [tombstonedBefore] at before
  split at before
  · next x past dropped =>
    rw [Bool.and_eq_true, decide_eq_true_eq] at before
    refine ⟨x, past, dropped ▸ List.drop_suffix n t, before.1, .inl fun nothing => ?_⟩
    rw [nothing] at before
    cases before.2
  · cases before

end DeletedWhileMoving

open DeletedWhileMoving

/-- Without the cancellation a delayed admission finds the tombstone. -/
theorem delayed_admission_finds_tombstone : ∃ c x past, Reaches adapter start c ∧
    (x :: past) <:+ c.trace ∧ x.thread = some 0 ∧ Tombstones past x ∧
    Along ReopensLive c.trace ∧ (poolAt c.trace).assignments = [] ∧
    ∀ member ∈ (poolAt c.trace).members, member.state = .retiring := by
  obtain ⟨c, reach, observed⟩ := Config.play_any adapter start
    (deletion ++ [⟨2, 1, .id 1⟩, ⟨2, 1, .ok⟩])
    (fun c => tombstonedBefore 2 c.trace && decide (Along ReopensLive c.trace))
    (by decide)
  rw [Bool.and_eq_true, decide_eq_true_eq] at observed
  obtain ⟨before, live⟩ := observed
  obtain ⟨x, past, moment, mine, tombstones⟩ := tombstones_of_drop before
  have initial := seeds_seed adapter contents
  exact ⟨c, x, past, reach, moment, mine, tombstones, live, tombstone_stays adapter service initial
      calls reach live rfl mine tombstones moment List.suffix_rfl⟩

/-- A move is pending that has not fenced the notebook yet. The notebook is deleted and its pool
tombstoned; cancelling the move removes the tombstone, and a delayed admission adds a starting
member with an assignment. -/
theorem cancelled_move_reopens_pool : ∃ c x past, Reaches adapter start c ∧
    calls 0 = .deleteNotebook none ∧ (x :: past) <:+ c.trace ∧
    x.thread = some 0 ∧ Tombstones past x ∧ (poolAt c.trace).assignments ≠ [] ∧
    ∃ member ∈ (poolAt c.trace).members, member.state ≠ .retiring := by
  obtain ⟨c, reach, observed⟩ := Config.play_any adapter start
    (deletion ++ DeletedWhileMoving.cancellation ++ delayedAdmission)
    (fun c => tombstonedBefore 24 c.trace && decide ((poolAt c.trace).assignments ≠ [] ∧
        ∃ member ∈ (poolAt c.trace).members, member.state ≠ .retiring)) (by decide)
  rw [Bool.and_eq_true, decide_eq_true_eq] at observed
  obtain ⟨before, assigned, member⟩ := observed
  obtain ⟨x, past, moment, mine, tombstones⟩ := tombstones_of_drop before
  exact ⟨c, x, past, reach, rfl, moment, mine, tombstones, assigned, member⟩

end MarimoHub.Guarantees.AppPools
