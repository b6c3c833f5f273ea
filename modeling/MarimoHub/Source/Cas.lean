import MarimoHub.ObjectStore.System

/-!
# Compare-and-swap helpers

`services/catalog/cas.ts`, over any schema. Bucket requests raise
`PreconditionFailedError` when a conditional write is refused and some other
error when the request fails. Reading the body of an object is part of the one `get`
request; the R2 adapter answers `get` before the body has been read, so there the read
of the body may still fail by itself. The retry hooks (`onAttempt`, `onConflict`,
`onExhausted`), the backoff sleep and the operational log are left out: they only
count, wait and report.
-/

namespace MarimoHub.Source

open ObjectStore

/-- The error classes the modelled code distinguishes (`errors.ts`, `cas.ts`). -/
inductive HubError where
  | preconditionFailed (message : String)
  | casWriteConflict (message : String)
  | conflict (message : String)
  | notFound (message : String)
  /-- A subclass of `NotFoundError` in the source. -/
  | moveInProgress (message : String)
  | notInitialized (message : String)
  | validation (message : String)
  | editSessionChanged (message : String)
  | takeoverInProgress (message : String)
  | unavailable (message : String)
  | badRequest (message : String)
  | forbidden (message : String)
  | proposalRetryRequired (message : String)
  | resourceExhausted (message : String)
  /-- `RunCancelledError` and `RunDeadlineError` of the job runner. -/
  | runCancelled
  | runDeadline
  /-- `StoredObjectError`: the object does not parse. -/
  | storedObject
  /-- Any other failure of a bucket request. -/
  | storage
deriving DecidableEq

def HubError.isNotFound : HubError → Bool
  | .notFound _ => true
  | .moveInProgress _ => true
  | _ => false

variable {B : Schema} {α : Type}

abbrev Hub (B : Schema) (α : Type) : Type := Prog B HubError α

/-! ## Bucket requests -/

/-- What `bucket.get` returns: the parsed body and the etag. -/
structure BucketObject (B : Schema) where
  value : B.Val
  etag : Etag B

def bucketGet (k : B.Key) : Hub B (Option (BucketObject B)) := do
  match ← Prog.perform (.get k) with
  | .found v tag => pure (some ⟨v, tag⟩)
  | .absent => pure none
  | .fail => .raise .storage

def bucketPut (k : B.Key) (v : B.Val) (c : Cond B) : Hub B (Etag B) := do
  match ← Prog.perform (.put k v c) with
  | .ok tag => pure tag
  | .lost => .raise (.preconditionFailed "Precondition failed")
  | .fail => .raise .storage

def bucketDelete (k : B.Key) : Hub B Unit := do
  match ← Prog.perform (.delete k) with
  | .ok => pure ()
  | .fail => .raise .storage

/-- One page of a listing: the objects whose keys satisfy `p`. -/
def bucketList (p : B.Key → Bool) : Hub B (List (Listed B)) := do
  match ← Prog.perform (.list p) with
  | .entries es => pure es
  | .fail => .raise .storage

/-- `p.catch(() => {})`. -/
def ignoringErrors (p : Hub B Unit) : Hub B Unit := p.tryCatch fun _ => pure ()

/-- One result of `Promise.allSettled`. -/
def settled (p : Hub B α) : Hub B (Except HubError α) :=
  Prog.tryCatch (do let value ← p; pure (.ok value)) fun error => pure (.error error)

/-- A failed call of another service throws. -/
def orRaise {α : Type} : Except HubError α → Hub B α
  | .ok value => pure value
  | .error error => .raise error

def assertVersionMatch (current : Nat) (expected : Option Nat) : Hub B Unit :=
  if expected.isSome ∧ expected ≠ some current then
    .raise (.preconditionFailed
      "Resource was modified since it was last read (If-Match precondition failed)")
  else pure ()

def nextIsoTimestamp (previous candidate : Nat) : Nat :=
  if previous < candidate then candidate else previous + 1

/-- The condition of a write over what was read. -/
def writeCondition : Option (BucketObject B) → Cond B
  | none => .ifAbsent
  | some object => .ifMatch object.etag

/-- Drawing an identifier (`createSnapshotId` and its siblings). -/
def createId : Hub B Nat := Prog.perform .mint

/-- `Date.now()`. -/
def dateNow : Hub B Nat := Prog.perform .now

/-! ## Retry -/

def defaultRetries : Nat := 5

/-- `casWriterFor(bucket).put`. -/
def casPut (k : B.Key) (v : B.Val) (c : Cond B) : Hub B (Etag B) :=
  (bucketPut k v c).tryCatch fun
    | .preconditionFailed message => .raise (.casWriteConflict message)
    | err => .raise err

def withCasRetry : Nat → Hub B α → Hub B α
  | 0, _ => .raise (.conflict "Write conflict: max retries exceeded")
  | retries + 1, attempt =>
    attempt.tryCatch fun
      | .casWriteConflict _ => withCasRetry retries attempt
      | err => .raise err

/-- Create-if-absent as a Boolean. -/
def putIfAbsent (k : B.Key) (v : B.Val) : Hub B Bool :=
  (do let _ ← bucketPut k v .ifAbsent; pure true).tryCatch fun
    | .preconditionFailed _ => pure false
    | err => .raise err

structure ObjectMutationOutcome (τ : Type) where
  value : τ
  written : Bool

/-- `parse` and `apply` may throw; `apply` answers `none` for "no change". -/
def mutateObjectWithOutcome {τ : Type} (key : B.Key) (parse : B.Val → Hub B τ)
    (apply : τ → Hub B (Option τ)) (store : τ → B.Val) (notFound : HubError)
    (retries : Nat) : Hub B (ObjectMutationOutcome τ) :=
  withCasRetry retries do
    match ← bucketGet key with
    | none => .raise notFound
    | some obj =>
      let current ← parse obj.value
      match ← apply current with
      | none => pure ⟨current, false⟩
      | some next =>
        let _ ← casPut key (store next) (.ifMatch obj.etag)
        pure ⟨next, true⟩

def mutateObject {τ : Type} (key : B.Key) (parse : B.Val → Hub B τ) (apply : τ → Hub B (Option τ))
    (store : τ → B.Val) (notFound : HubError) (retries : Nat) : Hub B τ := do
  let outcome ← mutateObjectWithOutcome key parse apply store notFound retries
  pure outcome.value

/-! ## Singleton claims -/

/-- Nothing is written or deleted under `key`. -/
def SparesKey (key : B.Key) : Op B → Prop
  | .put k _ _ => k ≠ key
  | .delete k => k ≠ key
  | _ => True

/-- `SingletonClaimConfig` with the contract of its functions. A claim body may carry
the time it was written. -/
structure SingletonClaimConfig (B : Schema) where
  key : B.Key
  /-- `none` writes the free marker. -/
  serialize : Option String → Nat → B.Val
  /-- `none` is a corrupt body, on which the function throws. -/
  parseHolder : B.Val → Option (Option String)
  /-- The ids the callbacks are made for. -/
  isHolder : String → Prop
  isHolderLive : String → Hub B Bool
  retries : Nat
  parse_claim : ∀ holder now, isHolder holder →
    parseHolder (serialize (some holder) now) = some (some holder)
  parse_free : ∀ now, parseHolder (serialize none now) = some none
  spares : ∀ holder, (isHolderLive holder).OpsAll (SparesKey key)

inductive ClaimResult (B : Schema) where
  | acquired (etag : Etag B)
  | held (holder : String)

variable (cfg : SingletonClaimConfig B)

/-- `current && (await cfg.isHolderLive(current))`: no holder, a corrupt body and the
empty string are not asked about. -/
def liveHolder : Option (Option String) → Hub B (Option String)
  | some (some current) =>
    if current = "" then pure none
    else do
      let live ← cfg.isHolderLive current
      pure (if live then some current else none)
  | _ => pure none

def acquireAttempt (holder : String) (body : B.Val) : Hub B (ClaimResult B) := do
  match ← bucketGet cfg.key with
  | none =>
    let etag ← casPut cfg.key body .ifAbsent
    pure (.acquired etag)
  | some existing =>
    let current := cfg.parseHolder existing.value
    if current = some (some holder) then pure (.acquired existing.etag)
    else
      match ← liveHolder cfg current with
      | some other => pure (.held other)
      | none =>
        let etag ← casPut cfg.key body (.ifMatch existing.etag)
        pure (.acquired etag)

def acquireSingletonClaim (holder : String) : Hub B (ClaimResult B) := do
  let now ← dateNow
  withCasRetry cfg.retries (acquireAttempt cfg holder (cfg.serialize (some holder) now))

/-- The release with the etag of the acquisition; answers whether it was done. -/
def releaseFast : Option (Etag B) → Hub B Bool
  | none => pure false
  | some etag => do
    let now ← dateNow
    (do let _ ← bucketPut cfg.key (cfg.serialize none now) (.ifMatch etag); pure true).tryCatch fun
      | .preconditionFailed _ => pure false
      | err => .raise err

/-- Errors are logged or dropped. -/
def releaseSingletonClaim (holder : String) (etag : Option (Etag B)) : Hub B Unit :=
  ignoringErrors do
    if ← releaseFast cfg etag then pure ()
    else
      match ← bucketGet cfg.key with
      | none => pure ()
      | some existing =>
        match cfg.parseHolder existing.value with
        | none => .raise .storedObject
        | some current =>
          if current = some holder then
            let now ← dateNow
            let _ ← bucketPut cfg.key (cfg.serialize none now) (.ifMatch existing.etag)
            pure ()
          else pure ()

/-! ## What the helpers do, alone -/

theorem lt_nextIsoTimestamp : previous < nextIsoTimestamp previous candidate := by
  unfold nextIsoTimestamp
  split <;> omega

variable {I : Log B → Prop} {Q : Post B HubError α}
  {k key : B.Key} {τ : Type} {past : Log B} {parse : B.Val → Hub B τ}
  {apply : τ → Hub B (Option τ)} {store : τ → B.Val}

section Rules

open Prog

variable {G : Rule B} {v : B.Val}

@[simp] theorem emits_bucketGet {Q : Post B HubError (Option (BucketObject B))} :
    Emits G Q (bucketGet k) past ↔ G past (.get k) ∧
      (∀ v tag, Q (.ok (some ⟨v, tag⟩)) (⟨.get k, .found v tag⟩ :: past)) ∧
      Q (.ok none) (⟨.get k, .absent⟩ :: past) ∧ Q (.error .storage) (⟨.get k, .fail⟩ :: past) := by
  refine and_congr_right fun _ => ⟨fun all => ⟨fun v tag => all (.found v tag), all .absent,
    all .fail⟩, ?_⟩
  rintro ⟨found, absent, failed⟩ r
  cases r with
  | found v tag => exact found v tag
  | absent => exact absent
  | fail => exact failed

@[simp] theorem emits_bucketPut {Q : Post B HubError (Etag B)} :
    Emits G Q (bucketPut k v c) past ↔ G past (.put k v c) ∧
      (∀ tag, Q (.ok tag) (⟨.put k v c, .ok tag⟩ :: past)) ∧
      Q (.error (.preconditionFailed "Precondition failed")) (⟨.put k v c, .lost⟩ :: past) ∧
      Q (.error .storage) (⟨.put k v c, .fail⟩ :: past) := by
  refine and_congr_right fun _ => ⟨fun all => ⟨fun tag => all (.ok tag), all .lost, all .fail⟩, ?_⟩
  rintro ⟨done, lost, failed⟩ r
  cases r with
  | ok tag => exact done tag
  | lost => exact lost
  | fail => exact failed

@[simp] theorem emits_bucketDelete {Q : Post B HubError Unit} :
    Emits G Q (bucketDelete k) past ↔ G past (.delete k) ∧
      Q (.ok ()) (⟨.delete k, .ok⟩ :: past) ∧ Q (.error .storage) (⟨.delete k, .fail⟩ :: past) := by
  refine and_congr_right fun _ => ⟨fun all => ⟨all .ok, all .fail⟩, ?_⟩
  rintro ⟨done, failed⟩ r
  cases r with
  | ok => exact done
  | fail => exact failed

@[simp] theorem emits_bucketList {Q : Post B HubError (List (Listed B))} :
    Emits G Q (bucketList p) past ↔ G past (.list p) ∧
      (∀ es, Q (.ok es) (⟨.list p, .entries es⟩ :: past)) ∧
      Q (.error .storage) (⟨.list p, .fail⟩ :: past) := by
  refine and_congr_right fun _ => ⟨fun all => ⟨fun es => all (.entries es), all .fail⟩, ?_⟩
  rintro ⟨done, failed⟩ r
  cases r with
  | entries es => exact done es
  | fail => exact failed

theorem emits_settled {Q : Post B HubError (Except HubError α)} :
    Emits G Q (settled p) past ↔ Emits G (fun out => Q (.ok out)) p past := by
  rw [settled, emits_tryCatch, emits_bind]
  have same : andThen G (fun value => pure (.ok value))
      (orElse G (fun error => pure (.error error)) Q) = fun out => Q (.ok out) := by
    funext out es
    cases out <;> rfl
  rw [same]

@[simp] theorem emits_createId {Q : Post B HubError Nat} :
    Emits G Q createId past ↔ G past .mint ∧ ∀ n, Q (.ok n) (⟨.mint, n⟩ :: past) := Iff.rfl

@[simp] theorem emits_dateNow {Q : Post B HubError Nat} :
    Emits G Q dateNow past ↔ G past .now ∧ ∀ t, Q (.ok t) (⟨.now, t⟩ :: past) := Iff.rfl

theorem emits_createId_then (allowed : G past .mint)
    (next : ∀ n, Emits G Q (f n) (⟨.mint, n⟩ :: past)) :
    Emits G Q (createId >>= f) past := ⟨allowed, next⟩

theorem emits_dateNow_then (allowed : G past .now)
    (next : ∀ t, Emits G Q (f t) (⟨.now, t⟩ :: past)) :
    Emits G Q (dateNow >>= f) past := ⟨allowed, next⟩

@[simp] theorem emits_casPut {Q : Post B HubError (Etag B)} :
    Emits G Q (casPut k v c) past ↔ G past (.put k v c) ∧
      (∀ tag, Q (.ok tag) (⟨.put k v c, .ok tag⟩ :: past)) ∧
      Q (.error (.casWriteConflict "Precondition failed")) (⟨.put k v c, .lost⟩ :: past) ∧
      Q (.error .storage) (⟨.put k v c, .fail⟩ :: past) := by
  simp [casPut]

/-- Create-if-absent: the object is there, was there, or the request failed. -/
theorem emits_putIfAbsent (allowed : G past (.put k v .ifAbsent)) :
    Emits G (yields fun created es =>
        ∃ r, es = ⟨.put k v .ifAbsent, r⟩ :: past ∧ r ≠ .fail ∧
          (created = true → ∃ tag, r = .ok tag))
      (putIfAbsent k v) past := by
  rw [putIfAbsent, emits_tryCatch, emits_bind, emits_bucketPut]
  refine ⟨allowed, ?_, ?_, trivial⟩
  · intro tag
    exact ⟨.ok tag, rfl, by simp, fun _ => ⟨tag, rfl⟩⟩
  · exact ⟨.lost, rfl, by simp, by simp⟩

/-- What an attempt has to establish: after a lost write it can be repeated. -/
def retrying (I : Log B → Prop) (Q : Post B HubError α) :
    Post B HubError α
  | .error (.casWriteConflict _), es => I es
  | out, es => Q out es

theorem retrying_mono (imp : Q out es → R out es) (result : retrying I Q out es) :
    retrying I R out es := by
  cases out with
  | ok a => exact imp result
  | error err =>
    cases err with
    | casWriteConflict message => exact result
    | _ => exact imp result

theorem retrying_error (still : I es)
    (fails : Q (.error err) es) : retrying I Q (.error err) es := by
  cases err with
  | casWriteConflict message => exact still
  | _ => exact fails

theorem emits_withCasRetry (once : ∀ past, I past → Emits G (retrying I Q) attempt past)
    (exhausted : ∀ past, I past → Q (.error (.conflict "Write conflict: max retries exceeded"))
      past) (retries : Nat) (past : Log B) (ready : I past) :
    Emits G Q (withCasRetry retries attempt) past := by
  induction retries generalizing past with
  | zero => exact exhausted past ready
  | succ n ih =>
    rw [withCasRetry, emits_tryCatch]
    refine (once past ready).mono ?_
    intro out es result
    cases out with
    | ok a => exact result
    | error err =>
      cases err with
      | casWriteConflict message => exact ih es result
      | _ => exact result

/-- The same with at least one attempt, which needs no preparation. -/
theorem emits_withCasRetry_succ (once : ∀ past, Emits G (retrying I Q) attempt past)
    (exhausted : ∀ past, I past → Q (.error (.conflict "Write conflict: max retries exceeded"))
      past) : Emits G Q (withCasRetry (retries + 1) attempt) past := by
  rw [withCasRetry, emits_tryCatch]
  refine (once past).mono ?_
  intro out es result
  cases out with
  | ok a => exact result
  | error err =>
    cases err with
    | casWriteConflict message =>
      exact emits_withCasRetry (fun past _ => once past) exhausted retries es result
    | _ => exact result

theorem keeps_bucketGet (reads : ∀ es, G es (.get k)) : Keeps G (bucketGet k) := fun past =>
  emits_bucketGet.mpr ⟨reads past, fun _ _ => trivial, trivial, trivial⟩

theorem keeps_bucketPut (writes : ∀ es, G es (.put k v c)) :
    Keeps G (bucketPut k v c) := fun past =>
  emits_bucketPut.mpr ⟨writes past, fun _ => trivial, trivial, trivial⟩

theorem keeps_bucketDelete (removes : ∀ es, G es (.delete k)) :
    Keeps G (bucketDelete k) := fun past =>
  emits_bucketDelete.mpr ⟨removes past, trivial, trivial⟩

theorem keeps_bucketList {page : B.Key → Bool} (lists : ∀ es, G es (.list page)) :
    Keeps G (bucketList page) := fun past =>
  emits_bucketList.mpr ⟨lists past, fun _ => trivial, trivial⟩

theorem keeps_ignoringErrors (alone : Keeps G p) :
    Keeps G (ignoringErrors p) := alone.tryCatch fun _ => keeps_ret

theorem emits_orRaise {answer : Except HubError α} :
    Emits G (yields fun a es => answer = .ok a ∧ es = past) (orRaise answer) past := by
  cases answer with
  | ok value => exact ⟨rfl, rfl⟩
  | error error => trivial

theorem keeps_orRaise (answer : Except HubError α) : Keeps G (orRaise answer) :=
  keeps_of_emits fun _ => emits_orRaise

theorem keeps_assertVersionMatch :
    Keeps G (assertVersionMatch current expected) := Keeps.ite keeps_raise keeps_ret

theorem keeps_withCasRetry (once : Keeps G attempt) :
    Keeps G (withCasRetry retries attempt) := by
  induction retries with
  | zero => exact keeps_raise
  | succ n ih =>
    refine once.tryCatch fun err => ?_
    cases err with
    | casWriteConflict message => exact ih
    | _ => exact keeps_raise

/-- What the decision of a read-modify-write attempt has to establish: nothing to write, or a
write that matches the tag that was read. -/
def settles {τ : Type} (G : Rule B) (I : Log B → Prop)
    (Q : Post B HubError (ObjectMutationOutcome τ)) (key : B.Key)
    (store : τ → B.Val) (tag : Etag B) (current : τ) :
    Post B HubError (Option τ)
  | .ok none, es => Q (.ok ⟨current, false⟩) es
  | .ok (some next), es =>
    G es (.put key (store next) (.ifMatch tag)) ∧
      (∀ t, Q (.ok ⟨next, true⟩) (⟨.put key (store next) (.ifMatch tag), .ok t⟩ :: es)) ∧
      I (⟨.put key (store next) (.ifMatch tag), .lost⟩ :: es) ∧
      Q (.error .storage) (⟨.put key (store next) (.ifMatch tag), .fail⟩ :: es)
  | .error err, es => retrying I Q (.error err) es

/-- Reading an object of one kind: a body `store` made gives the value back, any other one does
not parse. -/
def ParsesOnly {τ : Type} (parse : B.Val → Hub B τ) (store : τ → B.Val) : Prop :=
  ∀ v, (∃ x, v = store x ∧ parse v = pure x) ∨ ∃ err, parse v = .raise err

/-- The rule for a read-modify-write call: `I` lasts from one attempt to the next and is all that
a failure has to tell. -/
theorem emits_mutateObjectWithOutcome {Q : Post B HubError (ObjectMutationOutcome τ)}
    (parses_only : ParsesOnly parse store) (reads : ∀ past, I past → G past (.get key))
    (lasts : ∀ past r, I past → I (⟨.get key, r⟩ :: past))
    (fails : ∀ past err, I past → Q (.error err) past)
    (once : ∀ past current tag, I past → Emits G (settles G I Q key store tag current)
      (apply current) (⟨.get key, .found (store current) tag⟩ :: past)) (ready : I past) :
    Emits G Q (mutateObjectWithOutcome key parse apply store notFound retries) past := by
  refine emits_withCasRetry ?_ (fun past => fails past _) retries past ready
  intro past ready
  have stops (err : HubError) (r : GetRes B) :
      retrying I Q (.error err) (⟨.get key, r⟩ :: past) :=
    retrying_error (lasts past r ready) (fails _ err (lasts past r ready))
  rw [emits_bind, emits_bucketGet]
  refine ⟨reads past ready, ?_, stops _ _, stops .storage _⟩
  intro v tag
  rw [andThen_ok, emits_bind]
  rcases parses_only v with ⟨current, rfl, parsed⟩ | ⟨err, broken⟩
  · rw [parsed, emits_pure, andThen_ok, emits_bind]
    refine (once past current tag ready).mono ?_
    intro out es settled
    match out, settled with
    | .error err, settled => exact settled
    | .ok none, settled => exact settled
    | .ok (some next), ⟨writes, done, lost, broken⟩ =>
      rw [andThen_ok, emits_bind, emits_casPut]
      exact ⟨writes, done, lost, broken⟩
  · rw [broken]
    exact stops err _

/-- How a read-modify-write call ended: it wrote what it decided from the value it read
before, or it left the value it read and did only what is `good` since. -/
def Mutated {τ : Type} (good : Op B → Prop) (step : Log B → τ → τ → Prop) (key : B.Key)
    (store : τ → B.Val) : ObjectMutationOutcome τ → Log B → Prop
  | ⟨next, true⟩, es => ∃ current tag tag' rest, step rest current next ∧
      es = ⟨.put key (store next) (.ifMatch tag), .ok tag'⟩ :: rest ∧
      ⟨.get key, .found (store current) tag⟩ ∈ rest
  | ⟨value, false⟩, es => ∃ tag new rest,
      es = new ++ ⟨.get key, .found (store value) tag⟩ :: rest ∧ ∀ e ∈ new, good e.op

/-- The rule for callbacks that make no request but `good` ones, and write as `step` allows. -/
theorem emits_mutateRecord (parses_only : ParsesOnly parse store) (reads : ∀ es, G es (.get key))
    (harmless : ∀ es o, good o → G es o)
    (decides : ∀ current tag past, Emits (fun _ => good) (fun out es => ∀ next, out = .ok
      (some next) → R es current next) (apply current) (⟨.get key, .found (store current) tag⟩
      :: past))
    (allowed : ∀ es tag current next, ⟨.get key, .found (store current) tag⟩ ∈ es → R es current
      next → G es (.put key (store next) (.ifMatch tag))) :
    Emits G (yields (Mutated good R key store))
      (mutateObjectWithOutcome key parse apply store notFound retries) past := by
  refine emits_mutateObjectWithOutcome (I := fun _ => True) parses_only (fun es _ => reads es)
    (fun _ _ _ => trivial) (fun _ _ _ => trivial) ?_ trivial
  intro past current tag _
  refine ((decides current tag past).adds.weaken fun es o _ => harmless es o).mono ?_
  rintro out es ⟨stepped, new, rfl, fine⟩
  have read : ⟨.get key, .found (store current) tag⟩ ∈
      new ++ ⟨.get key, .found (store current) tag⟩ :: past := by simp
  match out with
  | .error err => exact retrying_error trivial trivial
  | .ok none => exact ⟨tag, new, past, rfl, fine⟩
  | .ok (some next) =>
    have written := stepped next rfl
    exact ⟨allowed _ tag current next read written,
      fun tag' => ⟨current, tag, tag', _, written, rfl, read⟩, trivial, trivial⟩

end Rules

end MarimoHub.Source
