import MarimoHub.Source.CatalogService

/-!
# What a snapshot mutation does, alone

`Attempt` is the record of one CAS attempt that reached its pointer swap: what it
read, how the callback ran, and the snapshot it drafted. `emits_mutateSnapshot` is
the specification of `mutateSnapshot` for every client that calls it: the only
catalog writes are the swaps of such attempts, each earlier swap was lost, and a
snapshot is deleted only right after its swap was lost.
-/

namespace MarimoHub.Guarantees

open ObjectStore Source Prog

abbrev Events : Type := Log Content

/-- Reads and local operations. -/
def ReadOnly : Op Content → Prop
  | .put _ _ _ => False
  | .delete _ => False
  | _ => True

/-- Every pointer swap among the events was lost. -/
def Lost (es : Events) : Prop :=
  ∀ v c r, (⟨.put .catalog v c, r⟩ : Ev Content) ∈ es → r = .lost

variable {es past : Events} {v : Val}

theorem Lost.append (left : Lost new) (right : Lost es) : Lost (new ++ es) := by
  intro v c r member
  rcases List.mem_append.mp member with inside | inside
  · exact left v c r inside
  · exact right v c r inside

theorem Lost.of_spares (spares : ∀ e ∈ es, SparesCatalog e.op) : Lost es := by
  intro v c r member
  exact absurd rfl (spares _ member).1

theorem Lost.cons (rest : Lost es)
    (head : ∀ v c r, e = ⟨.put .catalog v c, r⟩ → r = .lost) : Lost (e :: es) := by
  intro v c r member
  rcases List.mem_cons.mp member with same | inside
  · exact head v c r same.symm
  · exact rest v c r inside

/-- A mutation that has not swapped the pointer so far. -/
def Unswapped (before es : Events) : Prop := ∃ new, es = new ++ before ∧ Lost new

theorem Unswapped.append (unswapped : Unswapped before es) (new : Events)
    (lost : Lost new) : Unswapped before (new ++ es) := by
  obtain ⟨older, rfl, olderLost⟩ := unswapped
  exact ⟨new ++ older, by simp, lost.append olderLost⟩

/-- The events of reading the snapshot `s` under `k`, from the cache or the bucket. -/
inductive ReadOf (k : Key) (s : Snapshot) : Events → Prop where
  | cached : ReadOf k s [⟨.peek k, .hit (.snapshot s)⟩]
  | loaded (tag : Etag Content) :
      ReadOf k s [⟨.get k, .found (.snapshot s) tag⟩, ⟨.peek k, .miss⟩]

structure Attempt where
  catalog : Catalog
  tag : Etag Content
  base : Snapshot
  result : MutateResult
  id : SnapshotId
  now : Nat
  ptag : Etag Content
  reads : Events
  callback : Events
  earlier : Events

namespace Attempt

variable (t : Attempt) (call : MutateCall)

def snapshot : Snapshot :=
  call.newSnapshot t.base t.result t.id t.now

def pointer : Catalog := newCatalog t.catalog t.id t.now

/-- The events up to the point where the callback has returned. -/
def computed : Events :=
  t.callback ++ (t.reads ++ ⟨.get .catalog, .found (.catalog t.catalog) t.tag⟩ :: t.earlier)

def drafted : Events := ⟨.now, t.now⟩ :: ⟨.mint, t.id⟩ :: t.computed

def snapshotPut : Op Content :=
  .put (.snapshot t.id) (.snapshot (t.snapshot call)) .ifAbsent

def prepared : Events :=
  ⟨t.snapshotPut call, .ok t.ptag⟩ :: t.drafted

def swap : Op Content :=
  .put .catalog (.catalog t.pointer) (.ifMatch t.tag)

structure Valid (before : Events) (t : Attempt) : Prop where
  read : ReadOf t.catalog.currentSnapshotKey t.base t.reads
  runs : Runs (call.mutateFn.run t.base) t.callback (.ret t.result)
  changed : t.result ≠ .draft t.base
  unswapped : Unswapped before t.earlier

end Attempt

/-- The results of `mutateSnapshot`, with all its events since `before`. -/
inductive MutateOutcome (call : MutateCall) (before : Events) :
    Except HubError Snapshot → Events → Prop where
  | committed (t : Attempt) (tag : Etag Content) (audit : Events) :
      t.Valid call before → (∀ e ∈ audit, SparesCatalog e.op) →
      MutateOutcome call before (.ok (t.snapshot call))
        (audit ++ ⟨t.swap, .ok tag⟩ :: t.prepared call)
  | unchanged (t : Attempt) : ReadOf t.catalog.currentSnapshotKey t.base t.reads →
      Runs (call.mutateFn.run t.base) t.callback (.ret (.draft t.base)) →
      Unswapped before t.earlier →
      MutateOutcome call before (.ok t.base) t.computed
  | ambiguous (t : Attempt) : t.Valid call before →
      MutateOutcome call before (.error .storage) (⟨t.swap, .fail⟩ :: t.prepared call)
  | failed (err : HubError) (new : Events) : Lost new →
      MutateOutcome call before (.error err) (new ++ before)

/-- What a client's rule has to allow for it to call `mutateSnapshot`. -/
structure Permits (G : Events → Op Content → Prop) (call : MutateCall) (before : Events) :
    Prop where
  reads : ∀ es o, ReadOnly o → G es o
  audit : ∀ es n v c, G es (.put (.event n) v c)
  callback : ∀ base es, Emits G (fun _ _ => True) (call.mutateFn.run base) es
  snapshot : ∀ t : Attempt, t.Valid call before → G t.drafted (t.snapshotPut call)
  swap : ∀ t : Attempt, t.Valid call before → G (t.prepared call) t.swap
  clean : ∀ t : Attempt, t.Valid call before →
    G (⟨t.swap, .lost⟩ :: t.prepared call) (.delete (.snapshot t.id))

section Rules

variable {call : MutateCall} {before : Events} {t : Attempt}

theorem emits_readCatalog {Q : Except HubError Catalog → Events → Prop}
    (parsed : ∀ c, v = .catalog c → Q (.ok c) past) (failed : Q (.error .storedObject) past) :
    Emits G Q (readCatalog v) past := by
  cases v with
  | catalog c => exact parsed c rfl
  | _ => exact failed

theorem emits_readSnapshotValue (parsed : ∀ s, v = .snapshot s → Q (.ok s) past)
    (failed : Q (.error .storedObject) past) : Emits G Q (readSnapshotValue v) past := by
  cases v with
  | snapshot s => exact parsed s rfl
  | _ => exact failed

theorem emits_readSnapshot (reads : ∀ es o, ReadOnly o → G es o)
    (done : ∀ s es, ReadOf catalog.currentSnapshotKey s es → Q (.ok s) (es ++ past))
    (failed : ∀ err es, (∀ e ∈ es, ReadOnly e.op) → Q (.error err) (es ++ past)) :
    Emits G Q (readSnapshot catalog) past := by
  have recalled : ReadOnly (.peek catalog.currentSnapshotKey) := trivial
  have loaded : ReadOnly (.get catalog.currentSnapshotKey) := trivial
  rw [readSnapshot, emits_bind]
  refine ⟨reads _ _ recalled, fun r => ?_⟩
  cases r with
  | hit v =>
    refine emits_readSnapshotValue ?_ (failed _ [_] (by simpa using recalled))
    rintro s rfl
    exact done s [_] .cached
  | absent => exact failed _ [_] (by simpa using recalled)
  | fail => exact failed _ [_] (by simpa using recalled)
  | miss =>
    refine (emits_bind _ _ _ _).mpr (emits_bucketGet.mpr ⟨reads _ _ loaded, ?_, ?_, ?_⟩)
    · intro v tag
      refine emits_readSnapshotValue ?_ (failed _ [_, _] (by simpa using ⟨loaded, recalled⟩))
      rintro s rfl
      exact done s [_, _] (.loaded tag)
    · exact failed _ [_, _] (by simpa using ⟨loaded, recalled⟩)
    · exact failed _ [_, _] (by simpa using ⟨loaded, recalled⟩)

def AttemptOutcome (call : MutateCall) (before : Events) :
    Except HubError (Snapshot × Bool) → Events → Prop
  | .ok (s, true), es => ∃ (t : Attempt) (tag : Etag Content), t.Valid call before ∧
      s = t.snapshot call ∧ es = ⟨t.swap, .ok tag⟩ :: t.prepared call
  | .ok (s, false), es => MutateOutcome call before (.ok s) es
  | .error err, es => MutateOutcome call before (.error err) es

theorem attempt_stopped (unswapped : Unswapped before es) :
    retrying (Unswapped before) (AttemptOutcome call before) (.error err) es := by
  obtain ⟨new, rfl, lost⟩ := unswapped
  cases err with
  | casWriteConflict message => exact ⟨new, rfl, lost⟩
  | _ => exact MutateOutcome.failed _ new lost

theorem lost_of_readOnly (readOnly : ∀ e ∈ es, ReadOnly e.op) : Lost es := by
  intro v c r member
  exact (readOnly _ member).elim

theorem ReadOf.readOnly (read : ReadOf k s es) : ∀ e ∈ es, ReadOnly e.op := by
  cases read <;> simp [ReadOnly]

theorem Attempt.Valid.unswapped_prepared (valid : t.Valid call before) :
    Unswapped before (t.prepared call) := by
  have callback : Lost t.callback :=
    .of_spares ((call.mutateFn.spares t.base).runs valid.runs).2
  have reads : Lost t.reads := lost_of_readOnly valid.read.readOnly
  have head : Lost [⟨t.snapshotPut call, .ok t.ptag⟩, ⟨.now, t.now⟩, ⟨.mint, t.id⟩] := by
    intro v c r member
    simp [Attempt.snapshotPut] at member
  have get : Lost [⟨.get .catalog, .found (.catalog t.catalog) t.tag⟩] :=
    lost_of_readOnly (by simp [ReadOnly])
  have all := valid.unswapped.append _ (head.append (callback.append (reads.append get)))
  simpa [Attempt.prepared, Attempt.drafted, Attempt.computed] using all

section

variable (permits : Permits G call before)
include permits

/-- The part of an attempt after the callback returned something new. -/
theorem emits_publish (valid : t.Valid call before) :
    Emits G (retrying (Unswapped before) (AttemptOutcome call before)) (do
        let _ ← (casPut (B := Content) .catalog (.catalog t.pointer) (.ifMatch t.tag)).tryCatch
          fun err =>
            match err with
            | .casWriteConflict message => do
              ignoringErrors (bucketDelete (.snapshot t.id))
              .raise (.casWriteConflict message)
            | err => .raise err
        pure (t.snapshot call, true)) (t.prepared call) := by
  have lost : Unswapped before (⟨t.swap, .lost⟩ :: t.prepared call) := by
    refine valid.unswapped_prepared.append [_] ?_
    intro v c r member
    simp only [List.mem_singleton] at member
    cases member
    rfl
  have deleted (r : DeleteRes) :
      Unswapped before (⟨.delete (.snapshot t.id), r⟩ :: ⟨t.swap, .lost⟩ :: t.prepared call) :=
    lost.append [_] (by simp [Lost])
  simp only [emits_bind, emits_tryCatch, emits_casPut, orElse_error, ignoringErrors,
    emits_bucketDelete]
  refine ⟨permits.swap t valid, ?_, ⟨permits.clean t valid, deleted .ok, deleted .fail⟩,
    MutateOutcome.ambiguous t valid⟩
  intro tag
  exact ⟨t, tag, valid, rfl, rfl⟩

theorem emits_mutateAttempt (ready : Unswapped before past) :
    Emits G (retrying (Unswapped before) (AttemptOutcome call before)) (mutateAttempt call)
      past := by
  have get (r : GetRes Content) : Unswapped before (⟨.get .catalog, r⟩ :: past) :=
    ready.append [_] (lost_of_readOnly (by simp [ReadOnly]))
  simp only [mutateAttempt, emits_bind, emits_bucketGet, andThen_error, andThen_ok]
  refine ⟨permits.reads _ _ trivial, ?_, attempt_stopped (get _), attempt_stopped (get _)⟩
  intro v tag
  refine emits_readCatalog ?_ ((andThen_error ..).mpr (attempt_stopped (get _)))
  rintro catalog rfl
  rw [andThen_ok, emits_bind]
  refine emits_readSnapshot permits.reads ?_ ?_
  · intro base reads read
    have loaded := (get (.found (.catalog catalog) tag)).append _ (lost_of_readOnly read.readOnly)
    rw [andThen_ok, emits_bind]
    refine (permits.callback base _).traced.mono ?_
    rintro out es ⟨-, callback, rfl, runs⟩
    have spares : Lost callback := .of_spares ((call.mutateFn.spares base).runs runs).2
    cases out with
    | error err => exact attempt_stopped (loaded.append _ spares)
    | ok result =>
      rw [andThen_ok]
      split
      · next same =>
        subst same
        exact MutateOutcome.unchanged
          ⟨catalog, tag, base, .draft base, 0, 0, tag, reads, callback, past⟩ read runs ready
      · next changed =>
        simp only [emits_bind, emits_createId, andThen_ok, emits_dateNow,
          emits_bucketPut, andThen_error]
        refine ⟨permits.reads _ _ trivial, fun id => ⟨permits.reads _ _ trivial, fun now => ?_⟩⟩
        have valid (ptag : Etag Content) : Attempt.Valid call before
            ⟨catalog, tag, base, result, id, now, ptag, reads, callback, past⟩ :=
          ⟨read, runs, changed, ready⟩
        have drafted (r : PutRes Content) : Unswapped before
            (⟨.put (.snapshot id) (.snapshot (call.newSnapshot base result id now)) .ifAbsent, r⟩ ::
              ⟨.now, now⟩ :: ⟨.mint, id⟩ :: (callback ++ (reads ++
                ⟨.get .catalog, .found (.catalog catalog) tag⟩ :: past))) :=
          (loaded.append _ spares).append [_, _, _] (by simp [Lost])
        refine ⟨permits.snapshot _ (valid tag), ?_, attempt_stopped (drafted _),
          attempt_stopped (drafted _)⟩
        intro ptag
        have publish := emits_publish permits (valid ptag)
        rw [emits_bind] at publish
        exact publish
  · intro err es readOnly
    exact attempt_stopped ((get _).append _ (lost_of_readOnly readOnly))

theorem emits_mutateSnapshot :
    Emits G (MutateOutcome call before) (mutateSnapshot call) before := by
  rw [mutateSnapshot, emits_bind]
  refine emits_withCasRetry (I := Unswapped before) ?_ ?_ call.retries before
    ⟨[], rfl, by simp [Lost]⟩
  · intro past ready
    refine (emits_mutateAttempt permits ready).mono ?_
    intro out es
    refine retrying_mono fun outcome => ?_
    match out with
    | .error err => exact outcome
    | .ok (s, false) => exact outcome
    | .ok (s, true) =>
      obtain ⟨t, tag, valid, rfl, rfl⟩ := outcome
      -- the audit record follows the commit and never fails the call
      have audited (audit : Events) (spares : ∀ e ∈ audit, SparesCatalog e.op) :
          MutateOutcome call before (.ok (t.snapshot call))
            (audit ++ ⟨t.swap, .ok tag⟩ :: t.prepared call) := .committed t tag audit valid spares
      simp only [andThen_ok, appendAudit, ignoringErrors, emits_bind,
        emits_tryCatch, emits_createId, emits_bucketPut, if_true]
      refine ⟨permits.reads _ _ trivial, fun n => ⟨permits.audit _ _ _ _, ?_, ?_, ?_⟩⟩
      · intro tag'
        exact audited [_, _] (by simp [SparesCatalog])
      · exact audited [_, _] (by simp [SparesCatalog])
      · exact audited [_, _] (by simp [SparesCatalog])
  · rintro past ⟨new, rfl, lost⟩
    exact MutateOutcome.failed _ new lost

end

end Rules

end MarimoHub.Guarantees
