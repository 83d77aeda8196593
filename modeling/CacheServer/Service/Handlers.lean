import CacheServer.Manager.Operations
import CacheServer.Manager.Scan

/-!
# The gRPC handlers

The handlers of `CacheServiceImpl.cc` for single keys, for batches, and for scans, on the messages
of `cache.proto`. A handler checks its request, narrows the TTL, calls the manager, and fills in the
response. Fields that a handler does not set keep the defaults of proto3.

A handler does not catch what leaves the manager, so its answer is an `Except` over the way in which
a read-modify-write operation can leave without returning.
-/

namespace CacheServer

namespace Service

/-- The gRPC status codes that the handlers use. -/
inductive StatusCode
  | ok
  | invalidArgument
  | internal
  | unavailable
deriving DecidableEq, Repr

/-- `grpc::Status`. -/
structure Status where
  /-- The code. -/
  code : StatusCode
  /-- The text that goes with it. -/
  message : String := ""
deriving DecidableEq, Repr

/-- `grpc::Status::OK`. -/
def Status.OK : Status where
  code := .ok

/-- What a handler answers: a status and a response, unless it is left without returning. -/
abbrev Answer (ρ : Type) := Except Abort (Status × ρ)

/-! ## Messages -/

/-- `GetRequest`, `DeleteRequest`, `ExistsRequest`, and `GetTTLRequest`. -/
structure KeyRequest where
  /-- The key. -/
  key : Bytes
deriving DecidableEq, Repr

/-- `SetRequest` and `SetNXRequest`. -/
structure SetRequest where
  /-- The key. -/
  key : Bytes
  /-- The value. -/
  value : Bytes := []
  /-- The TTL, zero for none. -/
  ttlSeconds : Int64 := 0
deriving DecidableEq, Repr

/-- `IncrementRequest`, `DecrementRequest`, and `IncrRequest`. -/
structure CountRequest where
  /-- The key. -/
  key : Bytes
  /-- What is added or taken away, zero for one. -/
  delta : Int64 := 0
  /-- The TTL, zero for none. -/
  ttlSeconds : Int64 := 0
deriving DecidableEq, Repr

/-- `CompareAndSwapRequest`. Here the TTL is 32 bits wide on the wire. -/
structure CompareAndSwapRequest where
  /-- The key. -/
  key : Bytes
  /-- The value that it is to have. -/
  expectedValue : Bytes := []
  /-- The value that it is to get. -/
  newValue : Bytes := []
  /-- The TTL of the new value, zero for none. -/
  ttlSeconds : UInt32 := 0
  /-- The deadline is to stay, and the TTL is not looked at. -/
  keepTtl : Bool := false
deriving DecidableEq, Repr

/-- `TouchRequest`. -/
structure TouchRequest where
  /-- The key. -/
  key : Bytes
  /-- The new TTL, zero for none. -/
  ttlSeconds : Int64 := 0
deriving DecidableEq, Repr

/-- `GetResponse`. -/
structure GetResponse where
  /-- The key was found. -/
  found : Bool := false
  /-- Its value. -/
  value : Bytes := []
  /-- Its remaining TTL in seconds, `-1` for none. -/
  ttlRemaining : ℤ := 0
deriving DecidableEq, Repr

/-- `SetResponse`. -/
structure SetResponse where
  /-- The value was stored. -/
  success : Bool := false
  /-- What came of it. -/
  message : String := ""
  /-- The size of the value, if it was stored. -/
  sizeBytes : ℕ := 0
deriving DecidableEq, Repr

/-- `DeleteResponse`. -/
structure DeleteResponse where
  /-- The request was carried out. -/
  success : Bool := false
  /-- The key was there. -/
  keyExisted : Bool := false
  /-- What came of it. -/
  message : String := ""
deriving DecidableEq, Repr

/-- `ExistsResponse`. -/
structure ExistsResponse where
  /-- The key is there. -/
  «exists» : Bool := false
deriving DecidableEq, Repr

/-- `KeyValue`, one result of `MultiGetResponse`. -/
structure KeyValue where
  /-- The key. -/
  key : Bytes
  /-- Its value. -/
  value : Bytes := []
  /-- It was found. -/
  found : Bool := false
  /-- Its remaining TTL in seconds, `-1` for none. -/
  ttlRemaining : ℤ := 0
deriving DecidableEq, Repr

/-- `MultiSetResponse`. -/
structure MultiSetResponse where
  /-- Every item was stored. -/
  success : Bool := false
  /-- The number of those that were. -/
  succeededCount : Int32 := 0
  /-- The number of those that were not. -/
  failedCount : Int32 := 0
  /-- What came of it. -/
  message : String := ""
  /-- The keys of those that were not. -/
  failedKeys : List Bytes := []
deriving DecidableEq, Repr

/-- `MultiDeleteResponse`. -/
structure MultiDeleteResponse where
  /-- The request was carried out. -/
  success : Bool := false
  /-- The number of the keys that were there. -/
  deletedCount : Int32 := 0
  /-- The number of those that were not. -/
  notFoundCount : Int32 := 0
  /-- What came of it. -/
  message : String := ""
deriving DecidableEq, Repr

/-- `SetNXResponse`. -/
structure SetNXResponse where
  /-- The key was set. -/
  wasSet : Bool := false
  /-- The value that it has, if it was there. -/
  existingValue : Bytes := []
  /-- What came of it. -/
  message : String := ""
deriving DecidableEq, Repr

/-- `IncrementResponse` and `DecrementResponse`. -/
structure IncrementResponse where
  /-- The sum was stored. -/
  success : Bool := false
  /-- The sum. -/
  newValue : Int64 := 0
  /-- What went wrong, if something did. -/
  message : String := ""
deriving DecidableEq, Repr

/-- `IncrResponse`. -/
structure IncrResponse where
  /-- The sum. -/
  value : Int64 := 0
  /-- The call has created the key, with its TTL. -/
  ttlSet : Bool := false
deriving DecidableEq, Repr

/-- `CompareAndSwapResponse`. -/
structure CompareAndSwapResponse where
  /-- The value was swapped. -/
  success : Bool := false
  /-- The value that the key has now, or had. -/
  actualValue : Bytes := []
  /-- What came of it. -/
  message : String := ""
deriving DecidableEq, Repr

/-- `GetTTLResponse`. -/
structure GetTTLResponse where
  /-- The key was found. -/
  found : Bool := false
  /-- Its remaining TTL, `-1` for none, `-2` if it was not found. -/
  ttlSeconds : ℤ := 0
deriving DecidableEq, Repr

/-- `TouchResponse`. -/
structure TouchResponse where
  /-- The deadline was changed. -/
  success : Bool := false
  /-- What came of it. -/
  message : String := ""
deriving DecidableEq, Repr

/-- `ScanRequest`. -/
structure ScanRequest where
  /-- The pattern of the keys. -/
  pattern : Bytes := []
  /-- Where to go on, empty for the start. -/
  cursor : Bytes := []
  /-- The most keys to return, zero for the default. -/
  count : Int32 := 0
  /-- Whether details are asked for. -/
  includeDetails : Bool := false
deriving DecidableEq, Repr

/-- `ScanResponse`. Its `KeyInfo` has the fields of the manager's. -/
structure ScanResponse where
  /-- The keys of the page. -/
  keys : List Bytes := []
  /-- The cursor of the next page. -/
  nextCursor : Bytes := []
  /-- Something is left for it. -/
  hasMore : Bool := false
  /-- The details, if they were asked for. -/
  keyDetails : List KeyInfo := []
deriving DecidableEq, Repr

/-! ## What the handlers share -/

/-- A positive `ttl_seconds` cast to 32 bits, and zero for any other. -/
def narrowTtl (ttlSeconds : Int64) : UInt32 :=
  if ttlSeconds > 0 then ttlSeconds.toUInt64.toUInt32 else 0

/-- A handler that is refused while there is no cache. `rejected` is the response that goes with the
refusal. -/
def ready {ρ : Type} (m : CacheManager) (rejected : String → ρ) (body : Answer ρ × CacheManager) :
    Answer ρ × CacheManager :=
  if !m.isReady then
    (.ok (⟨.unavailable, "Cache not initialized"⟩, rejected "Cache not initialized"), m)
  else body

/-- A handler that is refused while there is no cache, and on an empty key. -/
def keyed {ρ : Type} (m : CacheManager) (key : Bytes) (rejected : String → ρ)
    (body : Answer ρ × CacheManager) : Answer ρ × CacheManager :=
  ready m rejected
    (if key.isEmpty then
      (.ok (⟨.invalidArgument, "Key cannot be empty"⟩, rejected "Key cannot be empty"), m)
    else body)

/-- The answer of a handler that returns `OK` with a response made from the manager's result. -/
def respond {ρ ρ' : Type} (f : ρ → ρ') (r : Except Abort ρ × CacheManager) :
    Answer ρ' × CacheManager :=
  (r.1.map fun x => (Status.OK, f x), r.2)

/-! ## Basic operations -/

/-- `Get`. -/
def get (env : Env) (m : CacheManager) (request : KeyRequest) : Answer GetResponse × CacheManager :=
  keyed m request.key (fun _ => {}) <|
    let (result, m) := m.get env request.key
    let response : GetResponse :=
      if result.found then
        { found := result.found, value := result.value, ttlRemaining := result.ttlRemaining }
      else { found := result.found }
    (.ok (.OK, response), m)

/-- `Set`. -/
def set (env : Env) (m : CacheManager) (request : SetRequest) : Answer SetResponse × CacheManager :=
  keyed m request.key (fun message => { success := false, message }) <|
    let (success, m) := m.set env request.key request.value (narrowTtl request.ttlSeconds)
    let response : SetResponse :=
      if success then { success, message := "OK", sizeBytes := request.value.length }
      else { success, message := "Failed to set value" }
    (.ok (.OK, response), m)

/-- `Delete`. -/
def delete (env : Env) (m : CacheManager) (request : KeyRequest) :
    Answer DeleteResponse × CacheManager :=
  keyed m request.key (fun message => { success := false, keyExisted := false, message }) <|
    let (existed, m) := m.remove env request.key
    let message := if existed then "Key deleted" else "Key not found"
    (.ok (.OK, { success := true, keyExisted := existed, message }), m)

/-- `Exists`. -/
def «exists» (env : Env) (m : CacheManager) (request : KeyRequest) :
    Answer ExistsResponse × CacheManager :=
  keyed m request.key (fun _ => {}) <|
    (.ok (.OK, { «exists» := m.exists env request.key }), m)

/-! ## Batch operations

Each key of a batch comes with the environment of its own call. -/

/-- `MultiGet`. -/
def multiGet (m : CacheManager) (keys : List (Env × Bytes)) :
    Answer (List KeyValue) × CacheManager :=
  ready m (fun _ => []) <|
    let (results, m) := m.multiGet keys
    let response := List.zipWith (fun (key : Env × Bytes) (result : GetResult) =>
      if result.found then
        { key := key.2, found := result.found, value := result.value,
          ttlRemaining := result.ttlRemaining }
      else ({ key := key.2, found := result.found } : KeyValue)) keys results
    (.ok (.OK, response), m)

/-- The items of a `MultiSetRequest` that are tried: those with a key, their TTLs narrowed. -/
def multiSetItems (items : List (Env × SetRequest)) : List (Env × Bytes × Bytes × UInt32) :=
  (items.filter fun item => !item.2.key.isEmpty).map fun item =>
    (item.1, item.2.key, item.2.value, narrowTtl item.2.ttlSeconds)

/-- `MultiSet`. Items with an empty key are left out without a word. -/
def multiSet (m : CacheManager) (items : List (Env × SetRequest)) :
    Answer MultiSetResponse × CacheManager :=
  ready m (fun message => { success := false, message }) <|
    let tried := multiSetItems items
    let (failedKeys, m) := m.multiSet tried
    -- The counts are cast to `int32`.
    let failed := Int32.ofNat failedKeys.length
    let response : MultiSetResponse :=
      { success := failed = 0
        succeededCount := Int32.ofNat (tried.length - failedKeys.length)
        failedCount := failed
        failedKeys
        message :=
          if failed = 0 then "All items set successfully"
          else "Some items failed: " ++ toString failed ++ " failures" }
    (.ok (.OK, response), m)

/-- `MultiDelete`. -/
def multiDelete (m : CacheManager) (keys : List (Env × Bytes)) :
    Answer MultiDeleteResponse × CacheManager :=
  ready m (fun message => { success := false, message }) <|
    let (deleted, m) := m.multiDelete keys
    let deletedCount := Int32.ofNat deleted
    let notFoundCount := Int32.ofNat keys.length - deletedCount
    let message :=
      "Deleted " ++ toString deletedCount ++ " keys, " ++ toString notFoundCount ++ " not found"
    (.ok (.OK, { success := true, deletedCount, notFoundCount, message }), m)

/-! ## Atomic operations -/

/-- `SetNX`. -/
def setNX (env : Env) (m : CacheManager) (request : SetRequest) :
    Answer SetNXResponse × CacheManager :=
  keyed m request.key (fun message => { wasSet := false, message }) <|
    respond (fun result =>
      if result.wasSet then { wasSet := result.wasSet, message := "Key set successfully" }
      else
        { wasSet := result.wasSet, message := "Key already exists",
          existingValue := result.existingValue })
      (m.setNX env request.key request.value (narrowTtl request.ttlSeconds))

/-- The response of `Increment` and `Decrement`. -/
def incrementResponse (result : IncrDecrResult) : IncrementResponse where
  success := result.success
  newValue := result.newValue
  message := result.message

/-- `Increment`. The handler reads a delta of zero as one, and the manager does so again. -/
def increment (env : Env) (m : CacheManager) (request : CountRequest) :
    Answer IncrementResponse × CacheManager :=
  keyed m request.key (fun message => { success := false, message }) <|
    respond incrementResponse
      (m.increment env request.key (effectiveDelta request.delta) (narrowTtl request.ttlSeconds))

/-- `Decrement`. -/
def decrement (env : Env) (m : CacheManager) (request : CountRequest) :
    Answer IncrementResponse × CacheManager :=
  keyed m request.key (fun message => { success := false, message }) <|
    respond incrementResponse
      (m.decrement env request.key (effectiveDelta request.delta) (narrowTtl request.ttlSeconds))

/-- `Incr`. A failure of the manager is a gRPC error, and not a response. -/
def incr (env : Env) (m : CacheManager) (request : CountRequest) :
    Answer IncrResponse × CacheManager :=
  keyed m request.key (fun _ => {}) <|
    let (result, m) :=
      m.incr env request.key (effectiveDelta request.delta) (narrowTtl request.ttlSeconds)
    (result.map fun result =>
      if !result.success then
        (⟨.internal, if result.message.isEmpty then "Incr failed" else result.message⟩, {})
      else (.OK, { value := result.value, ttlSet := result.ttlSet }), m)

/-- `CompareAndSwap`. -/
def compareAndSwap (env : Env) (m : CacheManager) (request : CompareAndSwapRequest) :
    Answer CompareAndSwapResponse × CacheManager :=
  keyed m request.key (fun message => { success := false, message }) <|
    respond (fun result =>
      { success := result.success
        actualValue := result.actualValue
        message :=
          if result.success then "Value swapped successfully"
          else "Value mismatch or key not found" })
      (m.compareAndSwap env request.key request.expectedValue request.newValue request.ttlSeconds
        request.keepTtl)

/-! ## TTL operations -/

/-- `GetTTL`. -/
def getTTL (env : Env) (m : CacheManager) (request : KeyRequest) :
    Answer GetTTLResponse × CacheManager :=
  keyed m request.key (fun _ => { found := false, ttlSeconds := -2 }) <|
    let ttl := m.getTTL env request.key
    (.ok (.OK, { found := ttl ≠ -2, ttlSeconds := ttl }), m)

/-- `Touch`. -/
def touch (env : Env) (m : CacheManager) (request : TouchRequest) :
    Answer TouchResponse × CacheManager :=
  keyed m request.key (fun message => { success := false, message }) <|
    respond (fun result => { success := result.success, message := result.message })
      (m.touch env request.key (narrowTtl request.ttlSeconds))

/-! ## Key scanning -/

/-- `Scan`, on the items that CacheLib's iterator visits. -/
def scan (m : CacheManager) (walk : List Visit) (request : ScanRequest) :
    Answer ScanResponse × CacheManager :=
  ready m (fun _ => {}) <|
    let result := m.scan walk request.pattern request.cursor request.count request.includeDetails
    let response : ScanResponse :=
      { keys := result.keys
        keyDetails := result.keyDetails
        nextCursor := result.nextCursor
        hasMore := result.hasMore }
    (.ok (.OK, response), m)

/-! ## The checks -/

/-- With a cache, an empty key is rejected. -/
theorem keyed_of_isEmpty {ρ : Type} {m : CacheManager} (hready : m.isReady = true) {key : Bytes}
    (hkey : key.isEmpty = true) (rejected : String → ρ) (body : Answer ρ × CacheManager) :
    keyed m key rejected body =
      (.ok (⟨.invalidArgument, "Key cannot be empty"⟩, rejected "Key cannot be empty"), m) := by
  simp [keyed, ready, hready, hkey]

/-- With a cache, any other key is let through. -/
theorem keyed_of_not_isEmpty {ρ : Type} {m : CacheManager} (hready : m.isReady = true) {key : Bytes}
    (hkey : key.isEmpty = false) (rejected : String → ρ) (body : Answer ρ × CacheManager) :
    keyed m key rejected body = body := by
  simp [keyed, ready, hready, hkey]

end Service

end CacheServer
