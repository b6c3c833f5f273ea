import MarimoHub.Source.Cas

/-!
# Access tokens

`verify`, `touch` and `revoke` of `services/tokens/TokenService.ts` for one token, within one
process. The positive cache and its entries are memory of that process, kept here as keys of
their own: `cached` is the map's slot for the token, `entry n` the object it points to, which a
verification keeps using after the slot has changed. That such a request may fail here only adds
runs in which the call throws. The identity directory is asked; the log is left out.
-/

namespace MarimoHub.Source.Tokens

open ObjectStore

structure Token where
  userId : String
  hash : String
  credentialVersion : Nat
  expiresAt : Option Nat
  lastUsedAt : Option Nat
  grant : Option String
  mcpResource : Option String
  oauth : Option String
deriving DecidableEq

structure AuthUser where
  id : String
  email : String
  name : String
deriving DecidableEq

/-- `stamp` is the part of the etag that the body does not determine. -/
structure CacheEntry where
  record : Token
  user : AuthUser
  stamp : Nat
  loadedAt : Nat
deriving DecidableEq

inductive TokenKey where
  | object
  | cached
  | entry (n : Nat)
deriving DecidableEq

inductive TokenVal where
  | token (record : Token)
  | corrupt
  | reference (n : Nat)
  | entry (entry : CacheEntry)
deriving DecidableEq

inductive TokenQuery where
  | identity (userId : String)
  | suspended (userId : String)
deriving DecidableEq

/-- What the identity service answers; it may throw. -/
@[reducible] def TokenAnswer : TokenQuery → Type
  | .identity _ => Except HubError (Option AuthUser)
  | .suspended _ => Except HubError Bool

@[reducible] def TokenStore : Schema where
  Key := TokenKey
  Val := TokenVal
  Query := TokenQuery
  Answer := TokenAnswer

structure AuthenticatedPrincipal where
  user : AuthUser
  expiresAt : Option Nat
  grant : Option String
  mcpResource : Option String
  oauth : Option String
deriving DecidableEq

def cacheTtlMs : Nat := 30000

def CacheEntry.etag (entry : CacheEntry) : Etag TokenStore := ⟨entry.stamp, .token entry.record⟩

/-- `identities.getMany([userId])`. -/
def getIdentity (userId : String) : Hub TokenStore (Option AuthUser) := do
  orRaise (← Prog.perform (B := TokenStore) (.ask (.identity userId)))

def isSuspended (userId : String) : Hub TokenStore Bool := do
  orRaise (← Prog.perform (B := TokenStore) (.ask (.suspended userId)))

def readEntry (n : Nat) : Hub TokenStore CacheEntry := do
  match ← bucketGet (.entry n) with
  | some ⟨.entry entry, _⟩ => pure entry
  | _ => .raise .storage

/-- The cached entry, unless it is older than the TTL. -/
def freshEntry : Option (BucketObject TokenStore) → Hub TokenStore (Option Nat)
  | some ⟨.reference n, _⟩ => do
    let entry ← readEntry n
    let now ← dateNow
    pure (if now - entry.loadedAt < cacheTtlMs then some n else none)
  | _ => pure none

def storeEntry (record : Token) (etag : Etag TokenStore) : Hub TokenStore (Option Nat) := do
  match ← getIdentity record.userId with
  | none => pure none
  | some user =>
    let now ← dateNow
    let n ← createId
    let _ ← bucketPut (.entry n) (.entry ⟨record, user, etag.stamp, now⟩) .any
    let _ ← bucketPut .cached (.reference n) .any
    pure (some n)

def loadStored : Hub TokenStore (Option Nat) := do
  match ← bucketGet .object with
  | none =>
    bucketDelete .cached
    pure none
  | some ⟨.token record, etag⟩ => storeEntry record etag
  | some _ => pure none

def load : Hub TokenStore (Option Nat) := do
  match ← freshEntry (← bucketGet .cached) with
  | some n => pure (some n)
  | none => loadStored

def msPerDay : Nat := 24 * 60 * 60 * 1000

/-- `last_used_at` is refreshed once a UTC day, on the etag of the load. -/
def touch (n : Nat) : Hub TokenStore Unit := do
  let now ← dateNow
  let entry ← readEntry n
  if entry.record.lastUsedAt.map (· / msPerDay) = some (now / msPerDay) then pure ()
  else
    let updated := { entry.record with lastUsedAt := some now }
    ignoringErrors do
      let written ← bucketPut .object (.token updated) (.ifMatch entry.etag)
      let _ ← bucketPut (.entry n)
        (.entry { entry with record := updated, stamp := written.stamp }) .any
      pure ()

def isExpired : Option Nat → Hub TokenStore Bool
  | none => pure false
  | some expiresAt => do
    let now ← dateNow
    pure (decide (expiresAt ≤ now))

/-- `hash` is `hashPatSecret` or, for version 2, `hashScopedPatSecret`. -/
def verify (hash : Nat → String → String) (secret : String) :
    Hub TokenStore (Option AuthenticatedPrincipal) := do
  match ← load with
  | none => pure none
  | some n =>
    let ⟨record, user, _, _⟩ ← readEntry n
    if hash record.credentialVersion secret ≠ record.hash then pure none
    else if ← isExpired record.expiresAt then
      bucketDelete .cached
      pure none
    else if ← isSuspended user.id then pure none
    else
      touch n
      pure (some ⟨user, record.expiresAt, record.grant, record.mcpResource, record.oauth⟩)

def revoke (tokenId userId : String) : Hub TokenStore Unit := do
  match ← bucketGet .object with
  | some ⟨.token record, _⟩ =>
    if record.userId = userId then
      bucketDelete .object
      bucketDelete .cached
    else .raise (.notFound s!"Token {tokenId} not found")
  | _ => .raise (.notFound s!"Token {tokenId} not found")

inductive TokenCall where
  | verify (secret : String)
  | revoke (userId : String)

def TokenCall.run (hash : Nat → String → String) (tokenId : String) :
    TokenCall → Hub TokenStore (Option AuthenticatedPrincipal)
  | .verify secret => Tokens.verify hash secret
  | .revoke userId => do
    Tokens.revoke tokenId userId
    pure none

end MarimoHub.Source.Tokens
