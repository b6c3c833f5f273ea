import Mathlib.Data.List.Sort
import MarimoHub.Source.CatalogService

/-!
# Snapshot retention

`expireSnapshots` of `services/catalog/MaintenanceService.ts`. A paginated listing
(`listAllObjects`) is one `list` request for each page, and where the pages are cut
is part of the call. `bucket.delete(keys)` removes the keys one after another; when
some removal fails the others may still have happened, and the call fails. The
metrics and the byte count that feeds them are left out.
-/

namespace MarimoHub.Source

open ObjectStore

structure ExpireOptions where
  retentionMs : Nat
  keepLast : Nat
  /-- The pages the snapshot prefix is listed in. -/
  pages : List (SnapshotId → Bool)

def snapshotPage (page : SnapshotId → Bool) : Key → Bool
  | .snapshot id => page id
  | _ => false

def listSnapshots : List (SnapshotId → Bool) → Hub Content (List (Listed Content))
  | [] => pure []
  | page :: rest => do
    let here ← bucketList (snapshotPage page)
    let others ← listSnapshots rest
    pure (here ++ others)

/-- `bucket.delete(keys)`. -/
def deleteAll : List Key → Hub Content Unit
  | [] => pure ()
  | key :: rest => do
    match ← Prog.perform (.delete key) with
    | .ok => deleteAll rest
    | .fail => do
      deleteAll rest
      .raise .storage

def protectedKeys (catalog : Catalog) : List Key :=
  .snapshot catalog.currentSnapshotId :: (catalog.previousSnapshotId.map Key.snapshot).toList

/-- Newest first. -/
def byRecency (objects : List (Listed Content)) : List (Listed Content) :=
  objects.insertionSort fun x y => y.uploaded ≤ x.uploaded

/-- The keys past the keep-last floor, unprotected and older than the window. -/
def expired (opts : ExpireOptions) (catalog : Catalog) (objects : List (Listed Content))
    (now : Nat) : List Key :=
  (((byRecency objects).drop opts.keepLast).filter fun obj =>
    obj.key ∉ protectedKeys catalog ∧ obj.uploaded + opts.retentionMs < now).map Listed.key

def expireSnapshots (opts : ExpireOptions) : Hub Content Nat := do
  match ← bucketGet .catalog with
  | none => pure 0
  | some catalogObj =>
    let catalog ← readCatalog catalogObj.value
    let objects ← listSnapshots opts.pages
    let now ← dateNow
    let toDelete := expired opts catalog objects now
    deleteAll toDelete
    pure toDelete.length

end MarimoHub.Source
