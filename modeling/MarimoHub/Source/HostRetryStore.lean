import Mathlib.Data.List.Sort
import MarimoHub.Source.Cas

/-!
# Idempotency-Key records of the notebook host

`decideHostRetryAcquire`, `settleHostRetryClaim` and their helpers of
`host-protocol/src/retryStore.ts`, and the bucket store of
`services/runtime/HostRetryStore.ts` over them. A record's key is a digest of the scope and
the idempotency key. Times are the milliseconds of `Date.now()`; an age is an integer, since an
expiry may lie in the future.

A stored body either parses by the schema or raises `StoredObjectError`: an owner or an expiry is
present, texts are not empty and a reply has an HTTP status. Bodies of replies are opaque texts.
The operational log of `compactExpired` is left out.
-/

namespace MarimoHub.Source.HostRetries

open ObjectStore

/-! ## The contract -/

def hostRetryWindowMs : Nat := 300000

def hostRetryRefreshMs : Nat := 240000

def hostClaimLeaseMs : Nat := 300000

def hostBoundClaimLeaseMs : Nat := 120000

structure HostRetryReply where
  status : Nat
  body : String
deriving DecidableEq, Repr

structure HostRetryRecord where
  fingerprint : String
  owner : Option Nat := none
  claimedAt : Nat
  sessionId : Option String := none
  dispatched : Bool
  expires : Option Nat := none
  reply : Option HostRetryReply := none
deriving DecidableEq, Repr

/-- The truth value of an optional text: the empty text counts as none. -/
def isBound (sessionId : Option String) : Bool := sessionId.any (· ≠ "")

variable (record : HostRetryRecord)

def HostRetryRecord.bound : Bool := isBound record.sessionId

inductive HostRetryAcquireDecision where
  | conflict
  | pending
  | reply (reply : HostRetryReply)
  | claim (record : HostRetryRecord)
deriving DecidableEq

inductive LeaseState where
  | held
  | rebind
  | free
deriving DecidableEq

variable (previous : Option HostRetryRecord) (now : Nat)

def receiptAge : Int :=
  match record.expires with
  | none => now - record.claimedAt
  | some expires => hostRetryWindowMs - (expires - now)

def leaseState : LeaseState :=
  if ¬ record.dispatched then
    if record.claimedAt + hostClaimLeaseMs ≤ now then .free else .held
  else if ¬ record.bound then .held
  else if record.claimedAt + hostBoundClaimLeaseMs ≤ now ∧
      receiptAge record now < hostRetryRefreshMs then .rebind
  else .held

/-- The lease of the record that was found, if it has an owner. -/
def leaseOf : LeaseState :=
  match previous with
  | none => .free
  | some record => if record.owner.isSome then leaseState record now else .free

/-- A record whose reply or binding still counts. -/
def isRetained : Bool :=
  match previous with
  | none => false
  | some record => leaseOf previous now = .rebind ∨ now < record.expires.getD 0

/-- The record of a new claim. A recovered binding is anchored to the original claim. -/
def claimRecord (fingerprint : String) (owner now : Nat) : HostRetryRecord :=
  match previous with
  | some record =>
    if isRetained previous now then
      { fingerprint, owner := some owner, claimedAt := now, dispatched := false
        sessionId := record.sessionId
        expires := some (record.expires.getD (record.claimedAt + hostRetryWindowMs)) }
    else { fingerprint, owner := some owner, claimedAt := now, dispatched := false }
  | none => { fingerprint, owner := some owner, claimedAt := now, dispatched := false }

/-- The reply an acquisition answers with. -/
def storedReply (refresh : Bool) (now : Nat) : Option HostRetryReply :=
  previous.bind fun record =>
    record.reply.filter fun _ => isRetained previous now &&
      (!refresh || decide ((hostRetryRefreshMs : Int) ≤ receiptAge record now))

def decideHostRetryAcquire (fingerprint : String)
    (refresh : Bool) (owner now : Nat) : HostRetryAcquireDecision :=
  if previous.any (fun record => (leaseOf previous now = .held ∨ isRetained previous now) ∧
      record.fingerprint ≠ fingerprint) then .conflict
  else if leaseOf previous now = .held then .pending
  else
    match storedReply previous refresh now with
    | some reply => .reply reply
    | none => .claim (claimRecord previous fingerprint owner now)

/-- What `finish` writes; an unacknowledged mutation without a binding stays held. -/
def settleHostRetryClaim (reply : Option HostRetryReply) (now : Nat) : HostRetryRecord :=
  if reply.isNone ∧ record.dispatched ∧ ¬ record.bound then record
  else
    let kept := reply.filter fun r => r.status < 400
    let anchor := if record.bound then record.claimedAt else now
    { record with
      owner := none
      expires := some (if record.bound ∨ kept.isSome
        then record.expires.getD (anchor + hostRetryWindowMs) else 0)
      reply := kept }

/-! ## The bucket -/

inductive RetryKey where
  | hostRetry (digest : String)
  | hostRetryCleanup
deriving DecidableEq, Repr

inductive RetryVal where
  | record (record : HostRetryRecord)
  | cleanup (after : Option String)
  /-- A body that does not parse. -/
  | corrupt
deriving DecidableEq, Repr

abbrev RetryStore : Schema where
  Key := RetryKey
  Val := RetryVal
  Query := Empty
  Answer := nofun

/-- `HostRetryRecordSchema`. -/
def HostRetryRecord.wellFormed : Bool :=
  (record.owner.isSome || record.expires.isSome) && record.fingerprint ≠ "" &&
    record.sessionId ≠ some "" &&
    record.reply.all fun reply => 100 ≤ reply.status ∧ reply.status ≤ 599

/-- `readStored(HostRetryRecordSchema, …)`. -/
def readRecord : RetryVal → Hub RetryStore HostRetryRecord
  | .record record => if record.wellFormed then pure record else .raise .storedObject
  | _ => .raise .storedObject

def readRecord? : Option (BucketObject RetryStore) → Hub RetryStore (Option HostRetryRecord)
  | none => pure none
  | some object => do
    let record ← readRecord object.value
    pure (some record)

/-- The condition under which a write replaces what was read. -/
def replacing : Option (BucketObject RetryStore) → Cond RetryStore
  | none => .ifAbsent
  | some object => .ifMatch object.etag

structure HostRetryClaim where
  key : RetryKey
  owner : Nat
  sessionId : Option String
deriving DecidableEq

inductive HostRetryAcquisition where
  | claimed (claim : HostRetryClaim)
  | reply (reply : HostRetryReply)
  | pending
deriving DecidableEq

/-- What an attempt to acquire does with the decision. -/
def settleAcquire (objectKey : RetryKey) (object : Option (BucketObject RetryStore)) (owner : Nat) :
    HostRetryAcquireDecision → Hub RetryStore HostRetryAcquisition
  | .conflict => .raise (.conflict "Idempotency-Key was used for a different request")
  | .pending => pure .pending
  | .reply reply => pure (.reply reply)
  | .claim record => do
    let _ ← casPut objectKey (.record record) (replacing object)
    pure (.claimed ⟨objectKey, owner, record.sessionId⟩)

def acquireOnce (objectKey : RetryKey) (fingerprint : String) (refresh : Bool) :
    Hub RetryStore HostRetryAcquisition := do
  let object ← bucketGet objectKey
  let previous ← readRecord? object
  let owner ← createId
  let now ← dateNow
  settleAcquire objectKey object owner
    (decideHostRetryAcquire previous fingerprint refresh owner now)

/-- `digest` is `sha256Hex(JSON.stringify([scope, key]))`. -/
def acquire (digest : String → String → String) (scope key fingerprint : String) (refresh : Bool) :
    Hub RetryStore HostRetryAcquisition :=
  withCasRetry defaultRetries (acquireOnce (.hostRetry (digest scope key)) fingerprint refresh)

variable (claim : HostRetryClaim)

def updateOnce
    (change : HostRetryRecord → Hub RetryStore HostRetryRecord) : Hub RetryStore Unit := do
  match ← bucketGet claim.key with
  | none => .raise (.unavailable "Host retry claim is no longer owned by this request")
  | some object =>
    let record ← readRecord object.value
    if record.owner ≠ some claim.owner then
      .raise (.unavailable "Host retry claim is no longer owned by this request")
    else do
      let next ← change record
      let _ ← casPut claim.key (.record next) (.ifMatch object.etag)
      pure ()

def update (change : HostRetryRecord → Hub RetryStore HostRetryRecord) : Hub RetryStore Unit :=
  withCasRetry defaultRetries (updateOnce claim change)

/-- The record `dispatch` writes. -/
def dispatchRecord (sessionId : Option String) (record : HostRetryRecord) :
    Hub RetryStore HostRetryRecord :=
  if record.bound ∧ sessionId ≠ record.sessionId then
    .raise (.conflict "The request is bound to another runtime")
  else pure { record with dispatched := true, sessionId := sessionId }

/-- The caller's copy of the claim, which `dispatch` binds, is the caller's. -/
def dispatch (sessionId : Option String) : Hub RetryStore Unit :=
  update claim (dispatchRecord sessionId)

def settleNow (reply : Option HostRetryReply) (record : HostRetryRecord) :
    Hub RetryStore HostRetryRecord := do
  let now ← dateNow
  pure (settleHostRetryClaim record reply now)

def finish (reply : Option HostRetryReply) : Hub RetryStore Unit :=
  update claim (settleNow reply)

/-! ## Compaction -/

def hostRetryTombstoneGraceMs : Nat := 86400000

def compactionPageLimit : Nat := 100

def isHostRetry : RetryKey → Bool
  | .hostRetry _ => true
  | .hostRetryCleanup => false

def digestOf : RetryKey → String
  | .hostRetry digest => digest
  | .hostRetryCleanup => ""

/-- The record that is kept once a receipt has expired. -/
def compactedRecord : HostRetryRecord :=
  { fingerprint := record.fingerprint, claimedAt := record.claimedAt, dispatched := false
    expires := some 0 }

/-- The end of one object's compaction: the record is settled and its window is over. -/
def compactSettled (key : RetryKey) (record : HostRetryRecord) (tag : Etag RetryStore)
    (age : Nat) : Hub RetryStore Nat :=
  if hostRetryTombstoneGraceMs ≤ age then do
    bucketDelete key
    pure 1
  else if record.expires.getD 0 = 0 then pure 0
  else
    (do
      let _ ← bucketPut (B := RetryStore) key (.record (compactedRecord record)) (.ifMatch tag)
      pure 1).tryCatch fun
    | .preconditionFailed _ => pure 0
    | err => .raise err

/-- An object that does not parse is skipped. -/
def readSkipping (value : RetryVal) : Hub RetryStore (Option HostRetryRecord) :=
  (do
    let record ← readRecord value
    pure (some record)).tryCatch fun
  | .storedObject => pure none
  | err => .raise err

def compactRecord (key : RetryKey) (tag : Etag RetryStore) (age : Nat) :
    Option HostRetryRecord → Hub RetryStore Nat
  | none => pure 0
  | some record =>
    if record.owner.isSome then pure 0
    else do
      let now ← dateNow
      if now < record.expires.getD 0 then pure 0 else compactSettled key record tag age

def compactObject (listed : Listed RetryStore) : Hub RetryStore Nat := do
  let now ← dateNow
  let age := now - listed.uploaded
  if age < hostRetryWindowMs then pure 0
  else
    match ← bucketGet listed.key with
    | none => pure 0
    | some object =>
      let record ← readSkipping object.value
      compactRecord listed.key object.etag age record

def compactPage : List (Listed RetryStore) → Hub RetryStore Nat
  | [] => pure 0
  | listed :: rest => do
    let here ← compactObject listed
    let others ← compactPage rest
    pure (here + others)

/-- The cursor of the last pass. -/
def readCursor : Option (BucketObject RetryStore) → Hub RetryStore (Option String)
  | none => pure none
  | some object =>
    match object.value with
    | .cleanup after => pure after
    | _ => .raise .storedObject

def afterCursor (cursor : Option String) (listed : List (Listed RetryStore)) :
    List (Listed RetryStore) :=
  (listed.filter fun l => cursor.all fun after => after < digestOf l.key).insertionSort
    fun x y => digestOf x.key ≤ digestOf y.key

/-- The cursor a pass leaves: the last key of a page that was cut. -/
def nextCursor (remaining : List (Listed RetryStore)) : Option String :=
  if compactionPageLimit < remaining.length then
    (remaining.take compactionPageLimit).getLast?.map fun l => digestOf l.key
  else none

def storeCursor (object : Option (BucketObject RetryStore)) (after : Option String) :
    Hub RetryStore Unit :=
  (do
    let _ ← bucketPut (B := RetryStore) .hostRetryCleanup (.cleanup after) (replacing object)
    pure ()).tryCatch fun
  | .preconditionFailed _ => pure ()
  | err => .raise err

def compactExpired : Hub RetryStore Nat := do
  let object ← bucketGet .hostRetryCleanup
  let cursor ← readCursor object
  let listed ← bucketList isHostRetry
  let remaining := afterCursor cursor listed
  let compacted ← compactPage (remaining.take compactionPageLimit)
  storeCursor object (nextCursor remaining)
  pure compacted

end MarimoHub.Source.HostRetries
