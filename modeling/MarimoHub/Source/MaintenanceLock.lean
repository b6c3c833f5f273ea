import MarimoHub.Source.Cas

/-!
# The lease of the maintenance sweep

`services/catalog/MaintenanceLock.ts`: one object holds the lease. It is created when
missing, renewed by its holder, stolen once it has expired, and released by expiring it in
place. The span attribute and the operational log are left out.
-/

namespace MarimoHub.Source.Maintenance

open ObjectStore

structure LockRecord where
  holder : String
  expiresAt : Nat
deriving DecidableEq

/-- One lock object; `none` is a body that does not parse. -/
@[reducible] def LockStore : Schema where
  Key := Unit
  Val := Option LockRecord
  Query := Empty
  Answer _ := Unit

def tryCreate (record : LockRecord) : Hub LockStore Bool :=
  putIfAbsent () (some record)

/-- Whether another holder's lease has not expired; the clock is read again for that. -/
def heldByOther (holder : String) : Option LockRecord → Hub LockStore Bool
  | none => pure false
  | some current =>
    if current.holder = holder then pure false
    else do
      let now ← dateNow
      pure (decide (now < current.expiresAt))

/-- Renew or steal: another writer may win the swap. -/
def replaceLease (record : LockRecord) (etag : Etag LockStore) : Hub LockStore Bool :=
  (do let _ ← bucketPut () (some record) (.ifMatch etag); pure true).tryCatch fun
    | .preconditionFailed _ => pure false
    | err => .raise err

def tryAcquire (holder : String) (ttlMs : Nat) : Hub LockStore Bool := do
  let now ← dateNow
  let record : LockRecord := ⟨holder, now + ttlMs⟩
  if ← tryCreate record then pure true
  else
    match ← bucketGet () with
    | none => tryCreate record
    | some existing =>
      if ← heldByOther holder existing.value then pure false
      else replaceLease record existing.etag

/-- `aborted` is the signal as it stands after the read. -/
def release (holder : String) (aborted : Bool) : Hub LockStore Unit := do
  match ← bucketGet () with
  | none => pure ()
  | some existing =>
    match existing.value with
    | none => pure ()
    | some current =>
      if aborted = true ∨ current.holder ≠ holder then pure ()
      else
        let now ← dateNow
        ignoringErrors do
          let _ ← bucketPut () (some ⟨holder, now⟩) (.ifMatch existing.etag)
          pure ()

inductive LockCall where
  | acquire (holder : String) (ttlMs : Nat)
  | release (holder : String) (aborted : Bool)

def LockCall.holder : LockCall → String
  | .acquire holder _ => holder
  | .release holder _ => holder

/-- Only an acquisition tells its caller that it holds the lease. -/
def LockCall.run : LockCall → Hub LockStore Bool
  | .acquire holder ttlMs => tryAcquire holder ttlMs
  | .release holder aborted => do
    Maintenance.release holder aborted
    pure false

end MarimoHub.Source.Maintenance
