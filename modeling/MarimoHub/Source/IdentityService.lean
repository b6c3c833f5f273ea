import Mathlib.Logic.Function.Basic
import MarimoHub.Source.Cas

/-!
# Suspension checks on one replica

`upsert`, `isSuspended` and `setSuspension` of `services/identity/IdentityService.ts` for one user,
over the `StaleWhileRevalidateCache` and `LazyMap` of `cache.ts`. First the compare-and-swap loops
on the bucket, then the replica. There an action is what runs between two awaits, and such a loop
is one action: the write that succeeds is computed from the record it replaces. Other users only
matter as they may push the entry out of the cache; the profile fields and the directory cache are
left out, so an upsert may find nothing to write.
-/

namespace MarimoHub.Source.Identities

open ObjectStore

/-! ## The record in the bucket -/

structure Identity where
  id : String
  email : String
  name : String
  pictureUrl : Option String
  suspendedAt : Option Nat
  updatedAt : Nat
deriving DecidableEq

/-- The objects under `paths.identity`; `none` does not parse. -/
@[reducible] def IdentityStore : Schema where
  Key := String
  Val := Option Identity
  Query := Empty
  Answer := nofun

def readIdentity : Option Identity → Hub IdentityStore Identity
  | some identity => pure identity
  | none => .raise .storedObject

/-- What `upsert` writes: the profile of the user, with the suspension of the stored record. -/
def upsertRecord (user : Identity) : Hub IdentityStore Identity :=
  withCasRetry defaultRetries do
    match ← bucketGet user.id with
    | none =>
      let now ← dateNow
      let next := { user with suspendedAt := none, updatedAt := now }
      let _ ← casPut user.id (some next) .ifAbsent
      pure next
    | some obj =>
      let existing ← readIdentity obj.value
      let now ← dateNow
      let next := { user with suspendedAt := existing.suspendedAt, updatedAt := now }
      let _ ← casPut user.id (some next) (.ifMatch obj.etag)
      pure next

def suspend (suspended : Bool) (existing : Identity) : Hub IdentityStore (Option Identity) :=
  if suspended = existing.suspendedAt.isSome then pure none
  else if suspended then do
    let now ← dateNow
    pure (some { existing with suspendedAt := some now })
  else pure (some { existing with suspendedAt := none })

def suspendRecord (id : String) (suspended : Bool) : Hub IdentityStore Identity :=
  mutateObject id readIdentity (suspend suspended) some (.notFound s!"User {id} not found")
    defaultRetries

/-! ## The replica -/

structure TimedValue where
  value : Bool
  loadedAt : Nat
  nextRefreshAt : Nat

inductive TtlState where
  | fresh
  | stale
  | expired

/-- `ttlState` with the policy of the suspension cache: a suspension stays stale for ever. -/
def ttlState (cached : TimedValue) (now : Nat) : TtlState :=
  let age := now - cached.loadedAt
  if cached.value then if age < 5 * 60000 then .fresh else .stale
  else if age < 10000 then .fresh
  else if age < 30000 then .stale
  else .expired

/-- One key of a `LazyMap`: its value, and the pending load with its `superseded` flag. -/
structure LazySlot where
  value : Option TimedValue
  pending : Option (Nat × Bool)

variable (slot : LazySlot)

def LazySlot.set (value : TimedValue) : LazySlot :=
  ⟨some value, slot.pending.map fun pending => (pending.1, true)⟩

/-- The load a caller waits for: the pending one, or a new one called `fresh`. -/
def LazySlot.reload (fresh : Nat) : LazySlot × Nat :=
  match slot.pending with
  | some (load, false) => (slot, load)
  | _ => ({ slot with pending := some (fresh, false) }, fresh)

/-- `finally`: a pending load is forgotten when it is over. -/
def LazySlot.forget (load : Nat) : LazySlot :=
  if slot.pending.map Prod.fst = some load then { slot with pending := none } else slot

/-- A superseded load leaves the value alone and answers with it. -/
def LazySlot.settle (load : Nat) (loaded : TimedValue) : LazySlot × TimedValue :=
  if slot.pending = some (load, false) then ({ slot with value := some loaded }.forget load, loaded)
  else (slot.forget load, slot.value.getD loaded)

inductive IdentityCall where
  | upsert
  | isSuspended
  | setSuspension (suspended : Bool)
deriving DecidableEq

inductive Phase where
  | idle
  /-- The record is written, the cache not yet updated. -/
  | committed (suspended : Bool)
  | waiting (load : Nat)
  | returned (suspended : Bool)
  | threw
deriving DecidableEq

inductive Load where
  | unused
  | reading (background : Bool)
  | read (background suspended : Bool)
  | settled (suspended : Bool)
  | failed
deriving DecidableEq

/-- `record` is whether the stored identity is suspended, if there is one. -/
structure Replica where
  record : Option Bool
  slot : LazySlot
  refreshing : Bool
  loads : Nat → Load
  phase : Nat → Phase

namespace Replica

variable (r : Replica)

def enter (i : Nat) (phase : Phase) : Replica :=
  { r with phase := Function.update r.phase i phase }

/-- `entries.reload`, whose load is started if none is pending. -/
def reload (fresh : Nat) (background : Bool) : Replica :=
  let slot := (r.slot.reload fresh).1
  if (r.slot.reload fresh).2 = fresh then
    { r with slot, loads := Function.update r.loads fresh (.reading background) }
  else { r with slot }

def refreshInBackground (cached : TimedValue) (now fresh : Nat) : Replica :=
  if r.refreshing = true ∨ now < cached.nextRefreshAt then r
  else
    { r with
      refreshing := true
      slot := r.slot.set { cached with nextRefreshAt := now + 5000 } }.reload fresh true

/-- `StaleWhileRevalidateCache.get`, up to its first await. -/
def get (i now fresh : Nat) : Replica :=
  match r.slot.value with
  | none => (r.reload fresh false).enter i (.waiting (r.slot.reload fresh).2)
  | some cached =>
    match ttlState cached now with
    | .fresh => r.enter i (.returned cached.value)
    | .stale => (r.refreshInBackground cached now fresh).enter i (.returned cached.value)
    | .expired => (r.reload fresh false).enter i (.waiting (r.slot.reload fresh).2)

/-- The promise of a load is over. -/
def finishLoad (load : Nat) (background : Bool) (slot : LazySlot) (result : Load) : Replica :=
  { r with
    slot
    refreshing := if background then false else r.refreshing
    loads := Function.update r.loads load result }

/-- The record a call writes; `none` if it throws. -/
def written : IdentityCall → Option Bool
  | .upsert => some (r.record.getD false)
  | .setSuspension suspended => r.record.map fun _ => suspended
  | .isSuspended => none

end Replica

inductive Action where
  | get (i now fresh : Nat)
  /-- The loader's read of the record, or its failure. -/
  | read (load : Nat)
  | readFails (load : Nat)
  | settle (load now : Nat)
  | resume (i : Nat)
  /-- A write of the record; it may take effect and still throw. -/
  | commit (i : Nat) (acknowledged : Bool)
  /-- `updateCachedRecord`. -/
  | update (i now : Nat)
  /-- An upsert without changes returns, any call may throw. -/
  | skip (i : Nat)
  | fail (i : Nat)
  | evict

/-- What an action does; `none` if it is not due. -/
def step (calls : Nat → IdentityCall) (r : Replica) : Action → Option Replica
  | .get i now fresh =>
    if calls i = .isSuspended ∧ r.phase i = .idle ∧ r.loads fresh = .unused then
      some (r.get i now fresh)
    else none
  | .read load =>
    match r.loads load with
    | .reading background =>
      some { r with loads := Function.update r.loads load (.read background (r.record.getD false)) }
    | _ => none
  | .readFails load =>
    match r.loads load with
    | .reading background => some (r.finishLoad load background (r.slot.forget load) .failed)
    | _ => none
  | .settle load now =>
    match r.loads load with
    | .read background suspended =>
      let (slot, answer) := r.slot.settle load ⟨suspended, now, now⟩
      some (r.finishLoad load background slot (.settled answer.value))
    | _ => none
  | .resume i =>
    match r.phase i with
    | .waiting load =>
      match r.loads load with
      | .settled suspended => some (r.enter i (.returned suspended))
      | .failed => some (r.enter i .threw)
      | _ => none
    | _ => none
  | .commit i acknowledged =>
    if r.phase i = .idle then
      (r.written (calls i)).map fun suspended =>
        { r with record := some suspended }.enter i
          (if acknowledged then .committed suspended else .threw)
    else none
  | .update i now =>
    match r.phase i with
    | .committed suspended =>
      some ({ r with slot := r.slot.set ⟨suspended, now, now⟩ }.enter i (.returned suspended))
    | _ => none
  | .skip i =>
    if r.phase i = .idle ∧ calls i = .upsert then some (r.enter i (.returned false)) else none
  | .fail i => if r.phase i = .idle then some (r.enter i .threw) else none
  | .evict => some { r with slot := { r.slot with value := none } }

def run (calls : Nat → IdentityCall) : Replica → List Action → Option Replica
  | r, [] => some r
  | r, action :: rest => (step calls r action).bind fun next => run calls next rest

end MarimoHub.Source.Identities
