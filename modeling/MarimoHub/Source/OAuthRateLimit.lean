import MarimoHub.Source.Cas

/-!
# Rate limits of the OAuth endpoints

`services/oauth/OAuthRateLimitService.ts`: one object per endpoint holds the timestamps of the
calls that were let through within the window.
-/

namespace MarimoHub.Source.RateLimits

open ObjectStore

inductive OAuthRateLimitEndpoint where
  | register
  | authorize
  | token
  | revoke
deriving DecidableEq

structure OAuthRateLimit where
  limit : Nat
  windowMs : Nat

def oauthRateLimits : OAuthRateLimitEndpoint → OAuthRateLimit
  | .register => ⟨100, 60 * 60000⟩
  | .authorize => ⟨100, 15 * 60000⟩
  | .token => ⟨600, 60000⟩
  | .revoke => ⟨100, 15 * 60000⟩

def maxRateLimit : Nat := 600

/-- `none` is a body that does not parse. -/
@[reducible] def RateLimitStore : Schema where
  Key := OAuthRateLimitEndpoint
  Val := Option (List Nat)
  Query := Empty
  Answer _ := Unit

/-- `readStored(OAuthRateLimitRecordSchema, …)`. -/
def storedTimestamps : Option (BucketObject RateLimitStore) → Hub RateLimitStore (List Nat)
  | none => pure []
  | some object =>
    match object.value with
    | none => .raise .storedObject
    | some timestamps =>
      if timestamps.length ≤ maxRateLimit then pure timestamps else .raise .storedObject

def counts (windowMs timestamp previous : Nat) : Bool :=
  previous ≤ timestamp && timestamp - previous < windowMs

def consumeAttempt (endpoint : OAuthRateLimitEndpoint) (timestamp : Nat) :
    Hub RateLimitStore Bool := do
  let object ← bucketGet endpoint
  let stored ← storedTimestamps object
  let timestamps := stored.filter (counts (oauthRateLimits endpoint).windowMs timestamp)
  if (oauthRateLimits endpoint).limit ≤ timestamps.length then pure false
  else
    let _ ← casPut endpoint (some (timestamps ++ [timestamp]))
      (writeCondition object)
    pure true

/-- Contention fails closed. -/
def consume (retries : Nat) (endpoint : OAuthRateLimitEndpoint) : Hub RateLimitStore Bool := do
  let timestamp ← dateNow
  (withCasRetry retries (consumeAttempt endpoint timestamp)).tryCatch fun
    | .conflict _ => pure false
    | err => .raise err

end MarimoHub.Source.RateLimits
