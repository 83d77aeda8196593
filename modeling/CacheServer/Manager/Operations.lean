import CacheServer.Manager.Integer

/-!
# The cache manager

The operations of `CacheManager.cc` but for `scan`, on the state that they read and write: the
configured size limit, the cache once `initialize` has built it, and the five operation counters.

The six read-modify-write operations share one shape. Under `atomicOpMutex_` they call `find`,
decide from what it gave either to return or to store a value, and store it with
`setWithCreationTime`. `Decision` is the outcome of the middle step, and each operation's logic is a
function to it, so that the interleavings of `Atomicity.lean` run the same code step by step that
`atomically` runs whole.
-/

namespace CacheServer

/-- `GetResult`. -/
structure GetResult where
  /-- The key was found. -/
  found : Bool := false
  /-- Its value. -/
  value : Bytes := []
  /-- Remaining TTL in seconds, `-1` if there is no expiry. -/
  ttlRemaining : ℤ := 0
deriving DecidableEq, Repr

/-- `SetNXResult`. -/
structure SetNXResult where
  /-- The key was set. -/
  wasSet : Bool := false
  /-- The value that it has, if it was there. -/
  existingValue : Bytes := []
deriving DecidableEq, Repr

/-- `IncrDecrResult`. -/
structure IncrDecrResult where
  /-- The sum was stored. -/
  success : Bool := false
  /-- The sum. -/
  newValue : Int64 := 0
  /-- What went wrong, if something did. -/
  message : String := ""
deriving DecidableEq, Repr

/-- `IncrResult`. -/
structure IncrResult where
  /-- The sum was stored. -/
  success : Bool := false
  /-- The sum. -/
  value : Int64 := 0
  /-- True when this call created the key and stamped the TTL. -/
  ttlSet : Bool := false
  /-- What went wrong, if something did. -/
  message : String := ""
deriving DecidableEq, Repr

/-- `CASResult`. -/
structure CASResult where
  /-- The value was swapped. -/
  success : Bool := false
  /-- The value that the key has now, or had, if it was there. -/
  actualValue : Bytes := []
deriving DecidableEq, Repr

/-- `TouchResult`. -/
structure TouchResult where
  /-- The deadline was changed. -/
  success : Bool := false
  /-- What came of it. -/
  message : String := ""
deriving DecidableEq, Repr

/-- The manager's state. -/
structure CacheManager where
  /-- `config_.maxItemSize`, in bytes. -/
  maxItemSize : ℕ
  /-- `cache_`, null until `initialize` succeeds. -/
  cache : Option Store
  /-- `getCount_`, the lookups. -/
  getCount : ℕ := 0
  /-- `hitCount_`, those that found something. -/
  hitCount : ℕ := 0
  /-- `missCount_`, those that found nothing, or failed. -/
  missCount : ℕ := 0
  /-- `setCount_`, the stores that were tried. -/
  setCount : ℕ := 0
  /-- `deleteCount_`, the removals that were tried. -/
  deleteCount : ℕ := 0

/-- `isReady`. -/
def CacheManager.isReady (m : CacheManager) : Bool := m.cache.isSome

/-! ## Basic operations -/

/-- The remaining TTL of a found item, as `get`, `getTTL`, and `scan` each compute it. -/
def Item.ttlRemaining (item : Item) (now : UInt32) : ℤ :=
  if item.expiryTime = 0 then -1
  else if item.expiryTime > now then ((item.expiryTime - now).toNat : ℤ)
  else 0

/-- `get`. The hit is counted, and `found` set, before the value is copied. -/
def CacheManager.get (env : Env) (m : CacheManager) (key : Bytes) : GetResult × CacheManager :=
  let m := { m with getCount := m.getCount + 1 }
  match m.cache with
  | none => ({}, { m with missCount := m.missCount + 1 })
  | some store =>
    if env.findThrows then ({}, { m with missCount := m.missCount + 1 })
    else
      match store.find env.now key with
      | none => ({}, { m with missCount := m.missCount + 1 })
      | some item =>
        -- An exception from here on is counted as a miss on top of the hit.
        let m := { m with hitCount := m.hitCount + 1 }
        if env.copyThrows then ({ found := true }, { m with missCount := m.missCount + 1 })
        else ({ found := true, value := item.value, ttlRemaining := item.ttlRemaining env.now }, m)

/-- The body of `setWithCreationTime` on a cache that is there: the size check, `allocate`, the copy
of the value, and `insertOrReplace`. Every exception is caught, and every failure is `false`. Values
are below 4 GiB here, as on the wire, so that the cast of their size to 32 bits for `allocate`
changes nothing. -/
def Store.setWithCreationTime (env : Env) (maxItemSize : ℕ) (store : Store) (key value : Bytes)
    (ttlSeconds creationTime : UInt32) : Bool × Store :=
  if value.length > maxItemSize then (false, store)
  else if !validKey key then (false, store)
  else
    match env.allocate with
    | .throws => (false, store)
    | .null => (false, store)
    | .handle =>
      -- The item is not yet in the table when `insertOrReplace` throws.
      if env.insertThrows then (false, store)
      else (true, store.insertOrReplace key (stamp env.now value ttlSeconds creationTime))

/-- `setWithCreationTime`. -/
def CacheManager.setWithCreationTime (env : Env) (m : CacheManager) (key value : Bytes)
    (ttlSeconds creationTime : UInt32) : Bool × CacheManager :=
  let m := { m with setCount := m.setCount + 1 }
  match m.cache with
  | none => (false, m)
  | some store =>
    let (stored, store') :=
      store.setWithCreationTime env m.maxItemSize key value ttlSeconds creationTime
    (stored, { m with cache := some store' })

/-- `set`. -/
def CacheManager.set (env : Env) (m : CacheManager) (key value : Bytes) (ttlSeconds : UInt32) :
    Bool × CacheManager :=
  m.setWithCreationTime env key value ttlSeconds 0

/-- The body of `remove` on a cache that is there. CacheLib's `remove` does not look at the expiry,
so an expired item that is still in the table is removed like any other. -/
def Store.removeKey (env : Env) (store : Store) (key : Bytes) : Bool × Store :=
  if env.removeThrows then (false, store) else ((store key).isSome, store.remove key)

/-- `remove`. -/
def CacheManager.remove (env : Env) (m : CacheManager) (key : Bytes) : Bool × CacheManager :=
  let m := { m with deleteCount := m.deleteCount + 1 }
  match m.cache with
  | none => (false, m)
  | some store =>
    let (existed, store') := store.removeKey env key
    (existed, { m with cache := some store' })

/-- `exists`. -/
def CacheManager.exists (env : Env) (m : CacheManager) (key : Bytes) : Bool :=
  match m.cache with
  | none => false
  | some store => if env.findThrows then false else (store.find env.now key).isSome

/-- `getTTL`: `-2` for a key that is not found. -/
def CacheManager.getTTL (env : Env) (m : CacheManager) (key : Bytes) : ℤ :=
  match m.cache with
  | none => -2
  | some store =>
    if env.findThrows then -2
    else
      match store.find env.now key with
      | none => -2
      | some item => item.ttlRemaining env.now

/-! ## Batch operations

Each element of a batch makes its own call of CacheLib, and so comes with its own environment. -/

/-- `multiGet`. -/
def CacheManager.multiGet (m : CacheManager) : List (Env × Bytes) → List GetResult × CacheManager
  | [] => ([], m)
  | (env, key) :: keys =>
    let (result, m) := m.get env key
    let (results, m) := m.multiGet keys
    (result :: results, m)

/-- `multiSet`: the keys that could not be set. -/
def CacheManager.multiSet (m : CacheManager) :
    List (Env × Bytes × Bytes × UInt32) → List Bytes × CacheManager
  | [] => ([], m)
  | (env, key, value, ttl) :: items =>
    let (stored, m) := m.set env key value ttl
    let (failedKeys, m) := m.multiSet items
    (if stored then failedKeys else key :: failedKeys, m)

/-- `multiDelete`: the number of keys that were there. -/
def CacheManager.multiDelete (m : CacheManager) : List (Env × Bytes) → ℕ × CacheManager
  | [] => (0, m)
  | (env, key) :: keys =>
    let (existed, m) := m.remove env key
    let (deletedCount, m) := m.multiDelete keys
    (if existed then deletedCount + 1 else deletedCount, m)

/-! ## Atomic operations -/

/-- What a read-modify-write operation does once `find` has answered. -/
inductive Decision (ρ : Type)
  /-- Return without writing. -/
  | reply (r : ρ)
  /-- Leave without returning. -/
  | abort (a : Abort)
  /-- Call `setWithCreationTime`, and return what `finish` makes of its answer. -/
  | store (value : Bytes) (ttlSeconds creationTime : UInt32) (finish : Bool → ρ)

/-- A read-modify-write operation run whole: `find`, the decision, and the store. `find` is outside
any `try` block, so an exception of it leaves the operation. -/
def CacheManager.atomically {ρ : Type} (env : Env) (m : CacheManager) (key : Bytes)
    (uninitialized : ρ) (decide : Option Item → Decision ρ) : Except Abort ρ × CacheManager :=
  match m.cache with
  | none => (.ok uninitialized, m)
  | some store =>
    -- From here on the operation holds `atomicOpMutex_`.
    if env.findThrows then (.error .exception, m)
    else
      match decide (store.find env.now key) with
      | .reply r => (.ok r, m)
      | .abort a => (.error a, m)
      | .store value ttlSeconds creationTime finish =>
        let (stored, m') := m.setWithCreationTime env key value ttlSeconds creationTime
        (.ok (finish stored), m')

/-- The TTL that, counted from the item's creation time, gives its deadline again. -/
def Item.preservedTtl (item : Item) : UInt32 :=
  if item.expiryTime = 0 then 0 else item.expiryTime - item.creationTime

/-- `setNX` after its `find`. -/
def setNXDecision (value : Bytes) (ttlSeconds : UInt32) : Option Item → Decision SetNXResult
  | some existing => .reply { wasSet := false, existingValue := existing.value }
  | none => .store value ttlSeconds 0 fun stored => if stored then { wasSet := true } else {}

/-- `setNX`. -/
def CacheManager.setNX (env : Env) (m : CacheManager) (key value : Bytes) (ttlSeconds : UInt32) :
    Except Abort SetNXResult × CacheManager :=
  m.atomically env key {} (setNXDecision value ttlSeconds)

/-- The end of `atomicAddValue`: the sum, and the store of its text. -/
def addAndStore (currentValue delta : Int64) (ttlSeconds creationTime : UInt32) :
    Decision IncrDecrResult :=
  match checkedAdd currentValue delta with
  | .error a => .abort a
  | .ok none => .reply { message := "Counter would overflow" }
  | .ok (some newValue) =>
    .store (toText newValue) ttlSeconds creationTime fun stored =>
      if stored then { success := true, newValue }
      else { message := "Failed to store new value" }

/-- `atomicAddValue` after its `find`. -/
def atomicAddValueDecision (delta : Int64) (ttlSeconds : UInt32) :
    Option Item → Decision IncrDecrResult
  | none => addAndStore 0 delta ttlSeconds 0
  | some existing =>
    match parseWholeInt64 existing.value with
    | none => .reply { message := "Value is not a valid integer" }
    | some currentValue =>
      -- Preserve the existing TTL if none is specified.
      if ttlSeconds = 0 then
        addAndStore currentValue delta existing.preservedTtl existing.creationTime
      else addAndStore currentValue delta ttlSeconds 0

/-- `atomicAddValue`. -/
def CacheManager.atomicAddValue (env : Env) (m : CacheManager) (key : Bytes) (delta : Int64)
    (ttlSeconds : UInt32) : Except Abort IncrDecrResult × CacheManager :=
  m.atomically env key { message := "Cache not initialized" }
    (atomicAddValueDecision delta ttlSeconds)

/-- A delta of zero is read as one. -/
def effectiveDelta (delta : Int64) : Int64 := if delta = 0 then 1 else delta

/-- `increment`. -/
def CacheManager.increment (env : Env) (m : CacheManager) (key : Bytes) (delta : Int64)
    (ttlSeconds : UInt32) : Except Abort IncrDecrResult × CacheManager :=
  m.atomicAddValue env key (effectiveDelta delta) ttlSeconds

/-- `decrement`. A delta that cannot be negated is refused before the mutex is taken. -/
def CacheManager.decrement (env : Env) (m : CacheManager) (key : Bytes) (delta : Int64)
    (ttlSeconds : UInt32) : Except Abort IncrDecrResult × CacheManager :=
  match checkedNegate (effectiveDelta delta) with
  | .error a => (.error a, m)
  | .ok none => (.ok { message := "Delta cannot be negated without overflow" }, m)
  | .ok (some negated) => m.atomicAddValue env key negated ttlSeconds

/-- The end of `incr`: the sum, and the store of its text. -/
def incrAndStore (baseValue delta : Int64) (writeTtl creationTime : UInt32) (createdNew : Bool) :
    Decision IncrResult :=
  match checkedAdd baseValue delta with
  | .error a => .abort a
  | .ok none => .reply { message := "Counter would overflow" }
  | .ok (some newValue) =>
    .store (toText newValue) writeTtl creationTime fun stored =>
      if stored then { success := true, value := newValue, ttlSet := createdNew }
      else { message := "Failed to store new value" }

/-- `incr` after its `find`, at the second `now` that it reads for itself. A found item whose
deadline is the present second starts a new window. -/
def incrDecision (now : UInt32) (delta : Int64) (ttlSeconds : UInt32) :
    Option Item → Decision IncrResult
  | none => incrAndStore 0 delta ttlSeconds 0 true
  | some existing =>
    if existing.expiryTime = 0 ∨ existing.expiryTime > now then
      match parseWholeInt64 existing.value with
      | none => .reply { message := "Value is not a valid integer" }
      | some baseValue =>
        -- Preserve the original absolute expiry.
        incrAndStore baseValue delta existing.preservedTtl existing.creationTime false
    else incrAndStore 0 delta ttlSeconds 0 true

/-- `incr`. -/
def CacheManager.incr (env : Env) (m : CacheManager) (key : Bytes) (delta : Int64)
    (ttlSeconds : UInt32) : Except Abort IncrResult × CacheManager :=
  m.atomically env key { message := "Cache not initialized" }
    (incrDecision env.now (effectiveDelta delta) ttlSeconds)

/-- `compareAndSwap` after its `find`. -/
def compareAndSwapDecision (expectedValue newValue : Bytes) (ttlSeconds : UInt32) (keepTtl : Bool) :
    Option Item → Decision CASResult
  | none => .reply { success := false }
  | some existing =>
    if existing.value ≠ expectedValue then
      .reply { success := false, actualValue := existing.value }
    else
      -- Without `keepTtl`, a TTL of zero means no expiration, as in `set`.
      let effectiveTtl := if keepTtl then existing.preservedTtl else ttlSeconds
      let creationTime := if keepTtl then existing.creationTime else 0
      .store newValue effectiveTtl creationTime fun stored =>
        if stored then { success := true, actualValue := newValue }
        else { actualValue := existing.value }

/-- `compareAndSwap`. -/
def CacheManager.compareAndSwap (env : Env) (m : CacheManager)
    (key expectedValue newValue : Bytes) (ttlSeconds : UInt32) (keepTtl : Bool) :
    Except Abort CASResult × CacheManager :=
  m.atomically env key {} (compareAndSwapDecision expectedValue newValue ttlSeconds keepTtl)

/-- `touch` after its `find`. -/
def touchDecision (ttlSeconds : UInt32) : Option Item → Decision TouchResult
  | none => .reply { message := "Key not found" }
  | some existing =>
    .store existing.value ttlSeconds 0 fun stored =>
      if stored then { success := true, message := "TTL updated" }
      else { message := "Failed to update TTL" }

/-- `touch`. -/
def CacheManager.touch (env : Env) (m : CacheManager) (key : Bytes) (ttlSeconds : UInt32) :
    Except Abort TouchResult × CacheManager :=
  m.atomically env key { message := "Cache not initialized" } (touchDecision ttlSeconds)

end CacheServer
