import Mathlib.Logic.Function.Basic

/-!
# The cache underneath

`CacheManager.cc` wraps a CacheLib `LruAllocator`, whose source is not part of the repository. This
file is the part of CacheLib's documented behaviour that the manager relies on, for a cache with
no flash tier and without eviction: the table of stored items, the lookup `find`, the stamps that
`allocate` puts on an item, `insertOrReplace`, and `remove`. Times are seconds since the epoch in an
unsigned 32-bit word, and their sums wrap as C++'s do.

CacheLib's calls may fail for reasons of their own (no memory, a reference count at its limit), so
the outcome of each is an input: an `Env` holds the clock second a call runs at and the
failures that CacheLib answers it with.
-/

namespace CacheServer

/-- A byte string: the `std::string` of keys, values, and patterns. -/
abbrev Bytes := List UInt8

/-- A stored item. An `expiryTime` of zero means that the item never expires. -/
structure Item where
  /-- The value's bytes. -/
  value : Bytes
  /-- The second that the item was created, or that its writer asked to be stamped on it. -/
  creationTime : UInt32
  /-- The second of the item's deadline. -/
  expiryTime : UInt32
deriving DecidableEq, Repr

/-- CacheLib's expiry test. It is strict, so an item is still found in the second of its deadline.
-/
def Item.isExpired (item : Item) (now : UInt32) : Bool :=
  item.expiryTime ≠ 0 && item.expiryTime < now

/-- The table: the item stored under each key, expired or not. -/
abbrev Store := Bytes → Option Item

/-- `find`: the item stored under the key, unless it has expired. -/
def Store.find (store : Store) (now : UInt32) (key : Bytes) : Option Item :=
  (store key).filter fun item => !item.isExpired now

/-- `insertOrReplace`: the item is stored under the key, in the place of any other. -/
def Store.insertOrReplace (store : Store) (key : Bytes) (item : Item) : Store :=
  Function.update store key (some item)

/-- `remove`: nothing is stored under the key. -/
def Store.remove (store : Store) (key : Bytes) : Store := Function.update store key none

/-- How CacheLib's `allocate` answers a request with a valid key. -/
inductive AllocateOutcome
  /-- A handle to a new item. -/
  | handle
  /-- A null handle: there is no memory to be had. -/
  | null
  /-- An exception. -/
  | throws
deriving DecidableEq, Repr

/-- The failures that CacheLib answers one call of the manager with. -/
structure Faults where
  /-- `find` throws. -/
  findThrows : Bool := false
  /-- The copy of the found value into `GetResult::value` throws, for want of memory. -/
  copyThrows : Bool := false
  /-- What `allocate` answers when the key is valid. -/
  allocate : AllocateOutcome := .handle
  /-- `insertOrReplace` throws. -/
  insertThrows : Bool := false
  /-- `remove` throws. -/
  removeThrows : Bool := false
deriving DecidableEq, Repr

/-- What a call of the manager runs in: the clock second, and CacheLib's failures. -/
structure Env extends Faults where
  /-- The second that both CacheLib's clock and the system clock show. -/
  now : UInt32
deriving DecidableEq, Repr

/-- The failures at a second. -/
def Faults.env (faults : Faults) (now : UInt32) : Env := { faults with now }

/-- CacheLib accepts keys of 1 to 255 bytes, and `allocate` throws on any other. -/
def validKey (key : Bytes) : Bool := 0 < key.length && key.length ≤ 255

/-- The item that `allocate` hands out, once the value is copied into it. A creation time of zero
stands for the present second, and a TTL of zero for no deadline. -/
def stamp (now : UInt32) (value : Bytes) (ttlSeconds creationTime : UInt32) : Item :=
  let creation := if creationTime = 0 then now else creationTime
  { value
    creationTime := creation
    expiryTime := if ttlSeconds = 0 then 0 else creation + ttlSeconds }

/-! ## Lookups after writes -/

/-- What is inserted is there. -/
@[simp]
theorem Store.insertOrReplace_same (store : Store) (key : Bytes) (item : Item) :
    store.insertOrReplace key item key = some item :=
  Function.update_self ..

/-- The other keys are as they were. -/
@[simp]
theorem Store.insertOrReplace_of_ne (store : Store) {key k : Bytes} (item : Item) (h : k ≠ key) :
    store.insertOrReplace key item k = store k :=
  Function.update_of_ne h ..

/-- What is removed is gone. -/
@[simp]
theorem Store.remove_same (store : Store) (key : Bytes) : store.remove key key = none :=
  Function.update_self ..

/-- The other keys are as they were. -/
@[simp]
theorem Store.remove_of_ne (store : Store) {key k : Bytes} (h : k ≠ key) :
    store.remove key k = store k :=
  Function.update_of_ne h ..

/-- `find` gives an item exactly when it is stored and has not expired. -/
theorem Store.find_eq_some_iff {store : Store} {now : UInt32} {key : Bytes} {item : Item} :
    store.find now key = some item ↔ store key = some item ∧ item.isExpired now = false := by
  simp [Store.find, Option.filter_eq_some_iff]

/-- `find` gives nothing exactly when every item stored under the key has expired. -/
theorem Store.find_eq_none_iff {store : Store} {now : UInt32} {key : Bytes} :
    store.find now key = none ↔ ∀ item, store key = some item → item.isExpired now = true := by
  simp [Store.find, Option.filter_eq_none_iff]

/-- The expiry test on words is the one on the seconds that they stand for. -/
theorem Item.isExpired_iff {item : Item} {now : UInt32} :
    item.isExpired now = true ↔ item.expiryTime ≠ 0 ∧ item.expiryTime.toNat < now.toNat := by
  simp [Item.isExpired, UInt32.lt_iff_toNat_lt]

/-- Stamping leaves the value alone. -/
@[simp]
theorem stamp_value (now : UInt32) (value : Bytes) (ttl creation : UInt32) :
    (stamp now value ttl creation).value = value := rfl

end CacheServer
