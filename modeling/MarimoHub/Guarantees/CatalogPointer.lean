import MarimoHub.Guarantees.CatalogHistory
import MarimoHub.Source.MaintenanceService

/-!
# The snapshot named by the catalog exists

`initialize`, `mutateSnapshot`, `commitRecovery` and `expireSnapshots`, in any
interleaving, started on an empty bucket. Writers delete a snapshot only after the
swap that offered it was lost. The sweep decides from the catalog it read first, a
listing taken later and a clock read after that, so a snapshot that became current
in between is not among the protected ones, and it is deleted once the listing took
longer than the retention window (`sweep_orphans_pointer`).

The pointer stays intact in every run in which each sweep, when it reads the clock,
protects the current snapshot or finds it within the retention window. What a snapshot holds
never changes (`snapshots_immutable`).
-/

namespace MarimoHub.Guarantees

open ObjectStore Source Prog

/-! ## The calls, alone -/

inductive CatalogCall where
  | initializeCatalog (actor : UserId)
  | mutateSnapshot (call : MutateCall)
  | recover (report : RecoveryReport) (actor : UserId)
  | expireSnapshots (opts : ExpireOptions)

/-- The call, its result dropped. -/
def CatalogCall.run : CatalogCall → Hub Content Unit
  | .initializeCatalog actor => do let _ ← Source.initializeCatalog actor
  | .mutateSnapshot call => do let _ ← Source.mutateSnapshot call
  | .recover report actor => do let _ ← Source.recover report actor
  | .expireSnapshots opts => do let _ ← Source.expireSnapshots opts

/-- The swap that offered the snapshot was lost just now. -/
def Abandoned (past : Events) (k : Key) : Prop :=
  ∃ cat c rest, past = ⟨.put .catalog (.catalog cat) c, .lost⟩ :: rest ∧
    k = .snapshot cat.currentSnapshotId

/-- The events of a sweep that has read the clock: it read `cat`, listed pages of
snapshots, read the clock as `now` and deleted. -/
structure SweepEvents (cat : Catalog) (now : Nat) (lists past : Events) : Prop where
  shape : ∃ tag deletes, past = deletes ++ ⟨.now, now⟩ ::
      (lists ++ [⟨.get .catalog, .found (.catalog cat) tag⟩]) ∧
    ∀ e ∈ deletes, ∃ k r, e = ⟨.delete k, r⟩
  pages : ∀ e ∈ lists, ∃ page r, e = ⟨.list (snapshotPage page), r⟩

/-- The sweep found `k` listed, unprotected and older than the window. -/
def Swept (opts : ExpireOptions) (past : Events) (k : Key) : Prop :=
  ∃ cat now lists page es up, SweepEvents cat now lists past ∧
    (⟨.list (snapshotPage page), .entries es⟩ : Ev Content) ∈ lists ∧ ⟨k, up⟩ ∈ es ∧
    k ∉ protectedKeys cat ∧ up + opts.retentionMs < now

def PointerRule (call : CatalogCall) (past : Events) : Op Content → Prop
  | .delete k => SparesCatalog (.delete k) ∨ Abandoned past k ∨
      ∃ opts, call = .expireSnapshots opts ∧ Swept opts past k
  | o => WriteRule past o

variable {call : CatalogCall} {past : Events} {opts : ExpireOptions}
  {cat : Catalog} {i : Nat} {v : Val}

theorem pointerRule_of_spares (spares : SparesCatalog o) : PointerRule call past o := by
  unfold PointerRule WriteRule
  split
  · exact .inl spares
  · split <;> first | trivial | exact absurd rfl spares.1 | exact absurd rfl (spares.2 _)

theorem pointerRule_of_readOnly (readOnly : ReadOnly o) : PointerRule call past o :=
  pointerRule_of_spares (spares_of_readOnly readOnly)

theorem keeps_readOnly (readOnly : p.OpsAll ReadOnly) : Keeps (PointerRule call) p :=
  readOnly.emits fun _ _ => pointerRule_of_readOnly

theorem readOnly_bucketGet : (bucketGet k).OpsAll ReadOnly := by
  refine ⟨trivial, fun r => ?_⟩
  cases r <;> trivial

theorem readOnly_readSnapshotValue : (readSnapshotValue v).OpsAll ReadOnly := by
  cases v <;> trivial

theorem readOnly_readCatalog : (readCatalog v).OpsAll ReadOnly := by
  cases v <;> trivial

theorem readOnly_readSnapshot (cat : Catalog) : (readSnapshot cat).OpsAll ReadOnly := by
  refine ⟨trivial, fun r => ?_⟩
  cases r with
  | hit v => exact readOnly_readSnapshotValue
  | absent => trivial
  | fail => trivial
  | miss =>
    refine readOnly_bucketGet.bind fun found => ?_
    cases found with
    | none => trivial
    | some object => exact readOnly_readSnapshotValue

theorem readOnly_getCurrentSnapshot : getCurrentSnapshot.OpsAll ReadOnly := by
  refine OpsAll.bind ?_ readOnly_readSnapshot
  refine readOnly_bucketGet.bind fun found => ?_
  cases found with
  | none => trivial
  | some object => exact readOnly_readCatalog

theorem readOnly_recheckCatalog : recheckCatalog.OpsAll ReadOnly := by
  refine readOnly_bucketGet.bind fun found => ?_
  cases found with
  | some object => exact readOnly_getCurrentSnapshot
  | none =>
    refine readOnly_bucketGet.bind fun found => ?_
    cases found with
    | some object => exact readOnly_getCurrentSnapshot
    | none => trivial

theorem readOnly_bucketList : (bucketList p).OpsAll ReadOnly := by
  refine ⟨trivial, fun r => ?_⟩
  cases r <;> trivial

theorem readOnly_everyEmpty : (everyEmpty keys).OpsAll ReadOnly := by
  induction keys with
  | nil => trivial
  | cons key rest ih =>
    refine OpsAll.bind ?_ fun here => ih.bind fun others => trivial
    refine readOnly_bucketGet.bind fun found => ?_
    cases found with
    | none => trivial
    | some object =>
      obtain ⟨v, tag⟩ := object
      cases v <;> trivial

/-! ### Writers -/

theorem keeps_createCatalog : Keeps (PointerRule call) (createCatalog actor) := by
  have reread : Keeps (PointerRule call) _ := keeps_readOnly readOnly_getCurrentSnapshot
  intro past
  simp only [createCatalog, emits_bind, emits_createId, andThen_ok, emits_dateNow,
    emits_bucketPut, andThen_error, emits_tryCatch,
    orElse_error, ignoringErrors, emits_bucketDelete]
  refine ⟨trivial, fun id => ⟨trivial, fun now => ?_⟩⟩
  have drawn : Drawn id (⟨.now, now⟩ :: ⟨.mint, id⟩ :: past) :=
    ⟨[_], past, rfl, by simp [ReadOnly]⟩
  refine ⟨drawn, fun tag => ⟨?_, fun _ => trivial,
    ⟨.inr (.inl ⟨_, _, _, rfl, rfl⟩), reread _, reread _⟩, trivial⟩, trivial, trivial⟩
  exact ⟨firstCatalog id now, _, .any, tag, _, rfl, rfl, rfl, drawn⟩

theorem keeps_initializeCatalog : Keeps (PointerRule call) (Source.initializeCatalog actor) := by
  have recheck : Keeps (PointerRule call) _ := keeps_readOnly readOnly_recheckCatalog
  refine (keeps_readOnly readOnly_bucketGet).bind fun found => ?_
  cases found with
  | some object => exact keeps_readOnly readOnly_getCurrentSnapshot
  | none =>
    refine (keeps_readOnly readOnly_bucketList).bind fun projects => ?_
    refine (keeps_readOnly readOnly_bucketList).bind fun snapshots => .ite recheck ?_
    refine .bind (keeps_readOnly ?_) fun empty => .ite keeps_createCatalog recheck
    unfold onlyEmptyInitializeSnapshots
    split
    · trivial
    · exact readOnly_everyEmpty

theorem keeps_recover : Keeps (PointerRule call) (Source.recover report actor) := by
  intro past
  simp only [Source.recover, emits_bind, emits_createId, andThen_ok, emits_dateNow,
    commitRecovery, emits_bucketGet]
  refine ⟨trivial, fun id => ⟨trivial, fun now => ⟨trivial, ?_, ?_, trivial⟩⟩⟩
  all_goals
    intros
    split
    · trivial
    · simp only [emits_bind, emits_tryCatch, emits_bucketPut, andThen_ok, orElse_ok, orElse_error,
        ignoringErrors, emits_bucketDelete, appendAudit, emits_createId]
      have drawn (r : GetRes Content) :
          Drawn id (⟨.get .catalog, r⟩ :: ⟨.now, now⟩ :: ⟨.mint, id⟩ :: past) :=
        ⟨[_, _], past, rfl, by simp [ReadOnly]⟩
      refine ⟨drawn _, fun tag => ⟨⟨_, _, _, tag, _, rfl, rfl, rfl, drawn _⟩, ?_,
        ⟨.inr (.inl ⟨_, _, _, rfl, rfl⟩), trivial, trivial⟩, trivial⟩, trivial, trivial⟩
      exact fun _ => ⟨trivial, fun _ => ⟨trivial, fun _ => trivial, trivial, trivial⟩⟩

theorem keeps_mutate : Keeps (PointerRule call) (Source.mutateSnapshot call') := by
  intro past
  have permits : Permits (PointerRule call) call' past := by
    refine ⟨fun _ _ => pointerRule_of_readOnly, ?_, ?_, ?_, ?_, ?_⟩
    · intro es n v c
      trivial
    · intro base es
      exact (call'.mutateFn.spares base).emits (fun _ _ => pointerRule_of_spares) es
    · intro t _
      exact t.drawn_drafted
    · intro t _
      exact ⟨t.pointer, t.snapshot call', _, t.ptag, t.drafted, rfl, rfl, rfl, t.drawn_drafted⟩
    · intro t _
      exact .inr (.inl ⟨t.pointer, _, _, rfl, rfl⟩)
  exact (emits_mutateSnapshot permits).forget

/-! ### The sweep -/

theorem emits_listSnapshots : Emits (PointerRule call) (fun out es => ∃ lists, es = lists ++ past ∧
        (∀ e ∈ lists, ∃ page r, e = ⟨.list (snapshotPage page), r⟩) ∧
        ∀ objs, out = .ok objs → ∀ obj ∈ objs, ∃ page listed,
          (⟨.list (snapshotPage page), .entries listed⟩ : Ev Content) ∈ lists ∧ obj ∈ listed)
      (listSnapshots pages) past := by
  induction pages generalizing past with
  | nil =>
    refine ⟨[], rfl, by simp, ?_⟩
    rintro objs same obj member
    cases same
    simp at member
  | cons page rest ih =>
    rw [listSnapshots, emits_bind, emits_bucketList]
    refine ⟨trivial, fun here => ?_, ⟨[_], rfl, by simp, by simp⟩⟩
    · rw [andThen_ok, emits_bind]
      refine ih.mono ?_
      rintro out es ⟨lists, rfl, pages, found⟩
      have all : ∀ e ∈ lists ++ [⟨.list (snapshotPage page), .entries here⟩],
          ∃ page r, e = ⟨.list (snapshotPage page), r⟩ := by
        intro e member
        rcases List.mem_append.mp member with inside | last
        · exact pages e inside
        · exact ⟨page, _, List.mem_singleton.mp last⟩
      cases out with
      | error err => exact ⟨_, by simp, all, by simp⟩
      | ok others =>
        refine ⟨_, by simp, all, ?_⟩
        rintro objs same obj member
        cases same
        rcases List.mem_append.mp member with inHere | inOthers
        · exact ⟨page, here, by simp, inHere⟩
        · obtain ⟨page', listed, inside, obj_in⟩ := found others rfl obj inOthers
          exact ⟨page', listed, List.mem_append_left _ inside, obj_in⟩

theorem emits_deleteAll (ready : ∀ deletes : Events, (∀ e ∈ deletes, ∃ k r, e = ⟨.delete k, r⟩) →
      ∀ k ∈ keys, G (deletes ++ past) (.delete k)) :
    Emits G (fun _ _ => True) (deleteAll keys) past := by
  induction keys generalizing past with
  | nil => trivial
  | cons key rest ih =>
    have next (r : DeleteRes) :
        Emits G (fun _ _ => True) (deleteAll rest) (⟨.delete key, r⟩ :: past) := by
      refine ih fun deletes shape k member => ?_
      have grown := ready (deletes ++ [⟨.delete key, r⟩]) ?_ k (.tail _ member)
      · simpa using grown
      · intro e inside
        rcases List.mem_append.mp inside with before | last
        · exact shape e before
        · exact ⟨key, r, List.mem_singleton.mp last⟩
    rw [deleteAll, emits_bind]
    refine ⟨ready [] (by simp) key (.head _), fun r => ?_⟩
    cases r with
    | ok => exact next .ok
    | fail => exact emits_seq (next .fail) fun _ _ _ _ => trivial

theorem mem_expired (member : k ∈ expired opts cat objects now) :
    ∃ up, ⟨k, up⟩ ∈ objects ∧ k ∉ protectedKeys cat ∧ up + opts.retentionMs < now := by
  obtain ⟨obj, inside, rfl⟩ := List.mem_map.mp member
  obtain ⟨dropped, old⟩ := List.mem_filter.mp inside
  have sorted : obj ∈ byRecency objects := List.mem_of_mem_drop dropped
  have facts := of_decide_eq_true old
  exact ⟨obj.uploaded, (List.mem_insertionSort _).mp sorted, facts.1, facts.2⟩

theorem emits_expireSnapshots : Emits (PointerRule (.expireSnapshots opts)) (fun _ _ => True)
    (Source.expireSnapshots opts) [] := by
  simp only [Source.expireSnapshots, emits_bind, emits_bucketGet, andThen_ok]
  refine ⟨trivial, ?_, trivial, trivial⟩
  intro v tag
  refine emits_readCatalog ?_ trivial
  rintro cat rfl
  rw [andThen_ok, emits_bind]
  refine emits_listSnapshots.mono ?_
  rintro out es ⟨lists, rfl, pages, found⟩
  cases out with
  | error err => trivial
  | ok objects =>
    simp only [andThen_ok, emits_bind, emits_dateNow]
    refine ⟨trivial, fun now => ?_⟩
    refine Emits.mono (emits_deleteAll ?_) (by rintro (err | done) es - <;> trivial)
    intro deletes shape k member
    obtain ⟨up, inObjects, unprotected, old⟩ := mem_expired member
    obtain ⟨page, listed, inLists, inListed⟩ := found objects rfl _ inObjects
    exact .inr (.inr ⟨opts, rfl, cat, now, lists, page, listed, up,
      ⟨⟨tag, deletes, rfl, shape⟩, pages⟩, inLists, inListed, unprotected, old⟩)

theorem catalogCall_keeps_rule : Emits (PointerRule call) (fun _ _ => True) call.run [] := by
  cases call with
  | initializeCatalog actor => exact keeps_initializeCatalog.map []
  | mutateSnapshot call => exact keeps_mutate.map []
  | recover report actor => exact keeps_recover.map []
  | expireSnapshots opts => exact emits_seq emits_expireSnapshots fun _ _ _ _ => trivial

/-! ## Runs -/

section Runs

structure PointerHistory (a : Adapter Content) (calls : Nat → CatalogCall)
    (t : Trace Content) : Prop extends CatalogHistory a [] t where
  pointer : ∀ e past i, (e :: past) <:+ t → e.thread = some i →
    PointerRule (calls i) (own i past) e.op

variable {a : Adapter Content} {calls : Nat → CatalogCall} {t past : Trace Content} {window : Nat}
  {e : Event Content}

/-- The moments behind a sweep's decision to delete `k`: it read the clock at `w`,
after a listing that showed the snapshot, taken when the trace was `ql`. -/
theorem swept_moments (accepted : Along (Accepts a) t) (earlier : past <:+ t)
    (swept : Swept opts (own i past) k) :
    ∃ n cat tag w qw ql, k = .snapshot n ∧ w :: qw <:+ past ∧ w.thread = some i ∧ w.op = .now ∧
      (⟨.get .catalog, .found (.catalog cat) tag⟩ : Ev Content) ∈ own i qw ∧ ql <:+ qw ∧
      (lookup (Key.snapshot n) ql).isSome = true ∧ .snapshot n ∉ protectedKeys cat ∧
      uploaded (B := Content) (.snapshot n) ql + opts.retentionMs < w.time := by
  obtain ⟨cat, now, lists, page, es, up, ⟨⟨tag, deletes, ownEq, _⟩, _⟩, listed, inEs, free, old⟩ :=
    swept
  have clock : (⟨.now, now⟩ :: (lists ++ [⟨.get .catalog, .found (.catalog cat) tag⟩])) <:+
      own i past := ownEq ▸ List.suffix_append deletes _
  obtain ⟨w, qw, wMoment, wThread, wShape, ownBefore⟩ := exists_own clock
  have onClock := (accepted.at (wMoment.trans earlier)).responds_of wShape
  have inOwn : (⟨.list (snapshotPage page), .entries es⟩ : Ev Content) ∈ own i qw := by
    rw [ownBefore]
    exact List.mem_append_left _ listed
  obtain ⟨l, ql, lMoment, _, lShape⟩ := exists_own_mem inOwn
  have lEarlier := lMoment.trans (wMoment.trans earlier).past
  have page_entries := ((accepted.at lEarlier).responds_of lShape).1
  obtain ⟨inPage, present, when⟩ := (page_entries k up).mp inEs
  cases k with
  | snapshot n =>
    refine ⟨n, cat, tag, w, qw, ql, rfl, wMoment, wThread, congrArg Ev.op wShape, ?_,
      lMoment.past, present, free, ?_⟩
    · rw [ownBefore]
      simp
    · rw [when, ← onClock.1]
      exact old
  | _ => simp [snapshotPage] at inPage

theorem pointer_history
    (history : History a [] (fun i => (calls i).run) c) : PointerHistory a calls c.trace := by
  have pointer : ∀ e past i, e :: past <:+ c.trace → e.thread = some i →
      PointerRule (calls i) (own i past) e.op := fun e past i moment mine =>
    history.guarantee (fun i => catalogCall_keeps_rule) moment mine
  refine ⟨⟨⟨List.nodup_nil, by simp, by simp⟩, history.accepted,
    fun e past moment none => history.before_run moment none,
    fun e past i moment mine => history.after_seeds (Seeds.empty a) moment mine, ?_, ?_⟩, pointer⟩
  · intro e past i moment mine
    have rule := pointer e past i moment mine
    generalize e.op = o at rule
    cases o <;> first | exact rule | trivial
  · intro e member removed
    obtain ⟨r, shape, _⟩ := effect_remove removed
    cases thread : e.thread with
    | none =>
      have impossible := history.seeded member thread
      simp at impossible
    | some i =>
      obtain ⟨past, moment⟩ := exists_past member
      have rule := pointer e past i moment thread
      rw [congrArg Ev.op shape] at rule
      rcases rule with spares | ⟨_, _, _, _, same⟩ | ⟨opts, _, swept⟩
      · exact spares.1 rfl
      · cases same
      · obtain ⟨n, _, _, _, _, _, same, _⟩ :=
          swept_moments history.accepted moment.past swept
        cases same

/-- A writer's swap follows the write of its snapshot within `window`. -/
def promptSwap (window : Nat) (past : Trace Content) (e : Event Content) : Bool :=
  match e.thread, committed e with
  | some i, some cat => past.all fun p => decide (p.thread = some i →
      (p.effect (.snapshot cat.currentSnapshotId)).join.isSome = true → e.time < p.time + window)
  | _, _ => true

/-- The catalogs a client has read. -/
def catalogsRead (es : Events) : List Catalog :=
  es.filterMap fun
    | ⟨.get .catalog, .found (.catalog cat) _⟩ => some cat
    | _ => none

/-- When a sweep reads the clock, the current snapshot is protected by the catalog
the sweep read, or within the retention window. -/
def sweepCovers (calls : Nat → CatalogCall) (past : Trace Content) (e : Event Content) : Bool :=
  match e.thread, e.op, currentCatalog past with
  | some i, .now, some cat =>
    match calls i with
    | .expireSnapshots opts => (catalogsRead (own i past)).all fun read =>
        decide (cat.currentSnapshotKey ∈ protectedKeys read ∨
          e.time ≤ uploaded cat.currentSnapshotKey past + opts.retentionMs)
    | _ => true
  | _, _, _ => true

theorem delay_of_promptSwap (prompt : promptSwap window past e = true)
    (thread : e.thread = some i) (swapped : e.effect .catalog = some (some (.catalog cat)))
    (member : p ∈ past) (mine : p.thread = some i)
    (wrote : p.effect (.snapshot cat.currentSnapshotId) = some (some v)) :
    e.time < p.time + window := by
  simp only [promptSwap, thread, committed_of_effect swapped, List.all_eq_true,
    decide_eq_true_eq] at prompt
  exact prompt p member mine (by simp [wrote])

theorem covered_of_sweepCovers {read : Catalog}
    (covers : sweepCovers calls past e = true) (thread : e.thread = some i)
    (call : calls i = .expireSnapshots opts) (clock : e.op = .now)
    (seen : (⟨.get .catalog, .found (.catalog read) tag⟩ : Ev Content) ∈ own i past)
    (current : lookup Key.catalog past = some (.catalog cat)) :
    cat.currentSnapshotKey ∈ protectedKeys read ∨
      e.time ≤ uploaded cat.currentSnapshotKey past + opts.retentionMs := by
  have listed : read ∈ catalogsRead (own i past) := List.mem_filterMap.mpr ⟨_, seen, rfl⟩
  simp only [sweepCovers, thread, clock, currentCatalog_of_lookup current, call, List.all_eq_true,
    decide_eq_true_eq] at covers
  exact covers read listed

/-- The snapshot named by the catalog is there. -/
def PointerIntact (t : Trace Content) : Prop :=
  ∀ cat, lookup Key.catalog t = some (.catalog cat) →
    (lookup cat.currentSnapshotKey t).isSome = true

namespace PointerHistory

section

variable (history : PointerHistory a calls t)
include history

theorem suffix (earlier : past <:+ t) :
    PointerHistory a calls past where
  toCatalogHistory := history.toCatalogHistory.suffix earlier
  pointer e past' i moment := history.pointer e past' i (moment.trans earlier)

theorem swap_and_write (moment : s :: qs <:+ t)
    (wrote : s.effect .catalog = some (some (.catalog cat))) :
    cat.currentSnapshotKey = .snapshot cat.currentSnapshotId ∧
    ∃ i p qp snap, s.thread = some i ∧ IsSwap cat.currentSnapshotId s.toEv ∧ s.applied = true ∧
      p :: qp <:+ qs ∧ p.thread = some i ∧ IsSnapshotPut cat.currentSnapshotId p.toEv ∧
      p.effect (.snapshot cat.currentSnapshotId) = some (some (.snapshot snap)) := by
  obtain ⟨cat', same, key, origin⟩ :=
    history.catalog_effect (moment.subset (.head _)) wrote
  cases same
  rcases origin with ⟨anonymous, _⟩ | ⟨i, _, _, thread, swap, applied, _⟩
  · exact absurd (history.seeds s qs moment anonymous) (by simp [seed])
  · obtain ⟨snap, c, tag, rest, ownEq, _⟩ := history.drawn_of_swap moment thread swap
    have last : (⟨.put (.snapshot cat.currentSnapshotId) (.snapshot snap) c, .ok tag⟩ :: rest) <:+
        own i qs := ownEq ▸ List.suffix_rfl
    obtain ⟨p, qp, pMoment, pThread, pShape, _⟩ := exists_own last
    have toTrace := pMoment.trans moment.past
    have responds := (history.accepted.at toTrace).responds_of pShape
    have done : p.applied = true := responds.2.2
    refine ⟨key, i, p, qp, snap, thread, swap, applied, pMoment, pThread, ⟨_, _, _, pShape⟩, ?_⟩
    rw [effect_put pShape, done]
    simp

theorem not_abandoned (sMoment : s :: qs <:+ t) (dMoment : d :: qd <:+ t)
    (sThread : s.thread = some i) (swap : IsSwap n s.toEv) (applied : s.applied = true) :
    ¬ Abandoned (own j qd) (.snapshot n) := by
  rintro ⟨cat, c, rest, ownEq, same⟩
  cases same
  have last : (⟨.put .catalog (.catalog cat) c, .lost⟩ :: rest) <:+ own j qd :=
    ownEq ▸ List.suffix_rfl
  obtain ⟨l, ql, lMoment, lThread, lShape, _⟩ := exists_own last
  have toTrace := lMoment.trans dMoment.past
  have once := history.swap_once sMoment toTrace sThread lThread swap ⟨cat, c, _, lShape, rfl⟩
  cases once
  have responds := (history.accepted.at toTrace).responds_of lShape
  rw [applied] at responds
  exact absurd responds.2 (by simp)

/-- **The snapshot named by the catalog exists**, at every moment of a run in which
writers are prompt and every sweep covers the current snapshot. -/
theorem intact
    (windows : ∀ i opts, calls i = .expireSnapshots opts → window ≤ opts.retentionMs)
    (prompt : Along (fun past e => promptSwap window past e = true) t)
    (covers : Along (fun past e => sweepCovers calls past e = true) t) : PointerIntact t := by
  induction total : t.length using Nat.strong_induction_on generalizing t with
  | _ size ih =>
    intro cat current
    obtain ⟨s, qs, sMoment, sWrote, stays⟩ := lookup_moment current
    obtain ⟨key, i, p, qp, snap, sThread, swap, applied, pMoment, pThread, pPut, pWrote⟩ :=
      history.swap_and_write sMoment sWrote
    have pInTrace : p :: qp <:+ t := pMoment.trans sMoment.past
    have stored : Stored (B := Content) (.snapshot cat.currentSnapshotId) (.snapshot snap) t :=
      ⟨p, pInTrace.subset (.head _), pWrote⟩
    -- it is enough that nobody deleted the snapshot
    suffices kept : ∀ d ∈ t, d.effect (.snapshot cat.currentSnapshotId) ≠ some none by
      have found := lookup_of_stored stored fun e member w effect => by
        cases w with
        | none => exact absurd effect (kept e member)
        | some v => exact congrArg some (history.snapshot_immutable ⟨e, member, effect⟩ stored)
      rw [key, found]
      rfl
    intro d member removed
    obtain ⟨r, dShape, _⟩ := effect_remove removed
    obtain ⟨qd, dMoment⟩ := exists_past member
    cases dThread : d.thread with
    | none =>
      have impossible := history.seeded d member dThread
      simp [seed] at impossible
    | some j =>
      have rule := history.pointer d qd j dMoment dThread
      rw [congrArg Ev.op dShape] at rule
      rcases rule with spares | abandoned | ⟨opts, call, swept⟩
      · exact spares.2 _ rfl
      · exact history.not_abandoned sMoment dMoment sThread swap applied abandoned
      · -- the sweep read the clock at `w`, after a listing taken at `ql`
        have qdInTrace := dMoment.past
        obtain ⟨n, read, tag, w, qw, ql, same, wMoment, wThread, wOp, wRead, qlBefore, present,
          free, old⟩ := swept_moments history.accepted qdInTrace swept
        cases same
        have wInTrace := wMoment.trans qdInTrace
        have qwInTrace : qw <:+ t := wInTrace.past
        -- the listing showed the one write of this snapshot
        have writtenAt {past : Trace Content} (inTrace : past <:+ t)
            (present : (lookup (Key.snapshot cat.currentSnapshotId) past).isSome = true) :
            uploaded (B := Content) (.snapshot cat.currentSnapshotId) past = p.time := by
          obtain ⟨v, found⟩ := Option.isSome_iff_exists.mp present
          obtain ⟨p', qp', moment', wrote', stays'⟩ := lookup_moment found
          have inTrace' := moment'.trans inTrace
          rcases history.write_cases (inTrace'.subset (.head _)) wrote' with
            ⟨listed, _⟩ | ⟨i', _, _, thread', put', _⟩
          · cases listed
          · have once := history.snapshotPut_once inTrace' pInTrace thread' pThread put' pPut
            cases once
            exact (stays' past moment' List.suffix_rfl).2
        rw [writtenAt (qlBefore.trans qwInTrace) present] at old
        rcases moments_ordered sMoment wInTrace with same | before | after
        · cases same
          obtain ⟨_, _, _, shape, _⟩ := swap
          rw [congrArg Ev.op shape] at wOp
          cases wOp
        · -- the snapshot was current when the sweep read the clock
          have shorter : qw.length < size := by
            have bound := wInTrace.length_le
            rw [List.length_cons] at bound
            omega
          have there := ih qw.length shorter (history.suffix qwInTrace) (prompt.suffix qwInTrace)
            (covers.suffix qwInTrace) rfl cat (stays qw before qwInTrace).1
          rcases covered_of_sweepCovers (covers.at wInTrace) wThread call wOp wRead
            (stays qw before qwInTrace).1 with safe | young
          · rw [key] at safe
            exact free safe
          · rw [key] at young there
            rw [writtenAt qwInTrace there] at young
            omega
        · -- the snapshot became current after the sweep read the clock
          have later := time_le history.accepted after sMoment
          have delay := delay_of_promptSwap (prompt.at sMoment) sThread sWrote
            (pMoment.subset (.head _)) pThread pWrote
          have window := windows j opts call
          omega

end

end PointerHistory

/-- In every run in which swaps are prompt and sweeps cover the current snapshot,
the snapshot named by the catalog exists in every state reached. -/
theorem catalog_pointer_intact (a : Adapter Content) (calls : Nat → CatalogCall)
    (c : Config Content HubError Unit) (window : Nat)
    (windows : ∀ i opts, calls i = .expireSnapshots opts → window ≤ opts.retentionMs)
    (reach : Reaches a ⟨[], fun i => (calls i).run⟩ c)
    (prompt : Along (fun past e => promptSwap window past e = true) c.trace)
    (covers : Along (fun past e => sweepCovers calls past e = true) c.trace) :
    PointerIntact c.trace :=
  (pointer_history (reach.history (Seeds.empty a))).intact windows prompt covers

/-- In every run, whatever fails or crashes: a snapshot key never holds two values, and two
changes of the pointer never name one snapshot, each of which was written before. -/
theorem snapshots_immutable (a : Adapter Content) (calls : Nat → CatalogCall)
    (c : Config Content HubError Unit) (reach : Reaches a ⟨[], fun i => (calls i).run⟩ c) :
    (∀ n v w, Stored (B := Content) (.snapshot n) v c.trace →
      Stored (B := Content) (.snapshot n) w c.trace → v = w) ∧
    (∀ x past y q cat cat', (x :: past) <:+ c.trace → (y :: q) <:+ past →
      committed x = some cat → committed y = some cat' →
      cat.currentSnapshotId ≠ cat'.currentSnapshotId) ∧
    ∀ x past cat, (x :: past) <:+ c.trace → committed x = some cat →
      ∃ snap, Stored (B := Content) cat.currentSnapshotKey (.snapshot snap) past := by
  have history := pointer_history (reach.history (Seeds.empty a))
  refine ⟨fun n v w => history.snapshot_immutable, ?_, ?_⟩
  · intro x past y q cat cat' moment earlier done done' same
    obtain ⟨_, i, _, _, _, mine, swap, _⟩ :=
      history.swap_and_write moment (effect_of_committed done)
    have moment' := earlier.trans moment.past
    obtain ⟨_, j, _, _, _, theirs, swap', _⟩ :=
      history.swap_and_write moment' (effect_of_committed done')
    rw [same] at swap
    have order := earlier.length_le
    rw [← history.swap_once moment moment' mine theirs swap swap', List.length_cons] at order
    omega
  · intro x past cat moment done
    obtain ⟨key, _, p, qp, snap, _, _, _, before, _, _, wrote⟩ :=
      history.swap_and_write moment (effect_of_committed done)
    rw [key]
    exact ⟨snap, p, before.subset (.head _), wrote⟩

end Runs

/-! ## A slow sweep -/

namespace SlowSweep

def adapter : Adapter Content := ⟨fun _ version => version, 1⟩

def calls : Nat → CatalogCall
  | 1 => .mutateSnapshot ⟨"project.update", "user-1", .pure .fresh, defaultRetries⟩
  | 2 => .expireSnapshots ⟨10, 0, [fun _ => true]⟩
  | _ => .initializeCatalog "user-1"

theorem windows : ∀ i opts, calls i = .expireSnapshots opts → 10 ≤ opts.retentionMs := by
  intro i opts call
  match i with
  | 0 => cases call
  | 1 => cases call
  | 2 => cases call; exact Nat.le_refl 10
  | _ + 3 => cases call

/-- The catalog is created at time 0. -/
def bootstrap : List (Move Content) :=
  turns 0 0 [.ok, .ok, .ok, .id 1, .ok, .ok, .ok]

/-- The mutation writes its snapshot at time 2 and swaps at time 3. -/
def mutation : List (Move Content) :=
  turns 1 2 [.ok, .ok, .ok, .id 2, .ok, .ok] ++ [⟨1, 3, .ok⟩]

/-- The sweep reads the catalog at time 1, lists at time 20 and deletes. -/
def sweepAround : List (Move Content) :=
  bootstrap ++ [⟨2, 1, .ok⟩] ++ mutation ++ turns 2 20 [.ok, .ok, .ok]

/-- The same sweep, started after the mutation. -/
def sweepAfter : List (Move Content) :=
  bootstrap ++ mutation ++ turns 2 20 [.ok, .ok, .ok]

def dangling (t : Trace Content) : Bool :=
  match currentCatalog t with
  | some cat => (lookup cat.currentSnapshotKey t).isNone
  | none => false

theorem not_intact_of_dangling (bad : dangling t = true) : ¬ PointerIntact t := by
  intro intact
  unfold dangling at bad
  split at bad
  · next cat found =>
    unfold currentCatalog at found
    split at found
    · next current =>
      cases found
      have there := intact cat current
      simp [Option.isNone_iff_eq_none.mp bad] at there
    · cases found
  · cases bad

end SlowSweep

open SlowSweep

/-- Although the writer swaps one tick after its write and the window is ten, a
sweep that listed for long deletes the current snapshot. -/
theorem sweep_orphans_pointer : ∃ c, Reaches adapter ⟨[], fun i => (calls i).run⟩ c ∧
      Along (fun past e => promptSwap 10 past e = true) c.trace ∧ ¬ PointerIntact c.trace := by
  obtain ⟨c, reach, observed⟩ := Config.play_any adapter ⟨[], fun i => (calls i).run⟩ sweepAround
    (fun c => Along (fun past e => promptSwap 10 past e = true) c.trace ∧
      dangling c.trace = true) (by decide)
  have facts := observed
  exact ⟨c, reach, facts.1, not_intact_of_dangling facts.2⟩

theorem catalog_pointer_intact_after : ∃ c, Reaches adapter ⟨[], fun i => (calls i).run⟩ c ∧
      c.trace.length = 17 ∧ PointerIntact c.trace := by
  obtain ⟨c, reach, observed⟩ := Config.play_any adapter ⟨[], fun i => (calls i).run⟩ sweepAfter
    (fun c => Along (fun past e => promptSwap 10 past e = true) c.trace ∧
      Along (fun past e => sweepCovers calls past e = true) c.trace ∧
      c.trace.length = 17) (by decide)
  have facts := observed
  exact ⟨c, reach, facts.2.2, catalog_pointer_intact _ _ c 10 windows reach facts.1 facts.2.1⟩

/-- The slow sweep deletes the current snapshot, which has not been changed. -/
theorem snapshots_immutable_swept :
    ∃ c, Reaches adapter ⟨[], fun i => (calls i).run⟩ c ∧ dangling c.trace = true ∧
      ∀ v w, Stored (B := Content) (.snapshot 2) v c.trace →
        Stored (B := Content) (.snapshot 2) w c.trace → v = w := by
  obtain ⟨c, reach, observed⟩ := Config.play_any adapter ⟨[], fun i => (calls i).run⟩ sweepAround
    (dangling ·.trace) (by decide)
  exact ⟨c, reach, observed, (snapshots_immutable adapter calls c reach).1 2⟩

end MarimoHub.Guarantees
