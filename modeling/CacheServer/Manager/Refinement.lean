import CacheServer.Lib.Transducer
import CacheServer.Lib.TtlMap
import CacheServer.Manager.Expiry
import CacheServer.Manager.ReadPaths

/-!
# The manager is a map with deadlines

The manager keeps a creation time and an expiry time on every item, both of them 32-bit words whose
sums wrap, and a rewrite that keeps a deadline has to hand CacheLib a TTL that it computes back from
the two. What its clients see is simpler: a map from keys to values with deadlines, `TtlMap`. Here
every operation is given its meaning on that map (`Op.spec`), and `manager_refines_ttlMap` says that
the manager is faithful to it, for every run of calls at any seconds, with CacheLib refusing stores
and evicting items as it likes.

The link is `Store.contents`, which forgets the creation times, and the one fact about them that is
needed is that every item is `Stamped`. An operation's decision implements what the map does
(`Decision.Implements`) when the item that it has stamped is the entry that the map puts.
-/

namespace CacheServer

open TtlMap Transducer

/-! ## The operations on the map -/

/-- The deadline of a value that is stored at `t`. A TTL of zero sets none. -/
def deadlineAt (t : ℕ) (ttlSeconds : UInt32) : Option ℕ :=
  if ttlSeconds = 0 then none else some (t + ttlSeconds.toNat)

/-- A sum is stored in decimal, when the text to add to is that of an integer and the sum is in
range. No text counts as zero. -/
def countAct (text : Option Bytes) (amount : ℤ) (deadline : Option ℕ) (counted : Int64 → Reply)
    (failed : String → Reply) : Act Bytes Reply :=
  match text.elim (some 0) parseWholeInt64 with
  | none => .answer (failed "Value is not a valid integer")
  | some v =>
    if InInt64 (v.toInt + amount) then
      .put ⟨Decimal.ofInt (v.toInt + amount), deadline⟩ (counted (Int64.ofInt (v.toInt + amount)))
        (failed "Failed to store new value")
    else .answer (failed "Counter would overflow")

/-- `increment` and `decrement`: a TTL sets a new deadline, and none keeps the old one. -/
def addAct (t : ℕ) (amount : ℤ) (ttlSeconds : UInt32) (found : Option (Entry Bytes)) :
    Act Bytes Reply :=
  countAct (found.map Entry.value) amount
    (if ttlSeconds = 0 then found.bind Entry.deadline else deadlineAt t ttlSeconds)
    (fun newValue => .incrDecr { success := true, newValue }) fun message => .incrDecr { message }

/-- `incr`: the window that is counted in, if its deadline is still to come, or a new one. -/
def incrAct (t : ℕ) (amount : ℤ) (ttlSeconds : UInt32) (found : Option (Entry Bytes)) :
    Act Bytes Reply :=
  match found.filter fun e => e.deadline.all (t < ·) with
  | none => countAct none amount (deadlineAt t ttlSeconds)
    (fun value => .incr { success := true, value, ttlSet := true }) fun message => .incr { message }
  | some e => countAct (some e.value) amount e.deadline
    (fun value => .incr { success := true, value }) fun message => .incr { message }

/-- What a read-modify-write call does at `t` with the entry that it finds. -/
def AtomicOp.act (t : ℕ) : AtomicOp → Option (Entry Bytes) → Act Bytes Reply
  | .setNX _ value ttl, none =>
    .put ⟨value, deadlineAt t ttl⟩ (.setNX { wasSet := true }) (.setNX {})
  | .setNX .., some e => .answer (.setNX { existingValue := e.value })
  | .increment _ delta ttl, found => addAct t (effectiveDelta delta).toInt ttl found
  | .decrement _ delta ttl, found =>
    if effectiveDelta delta = Int64.minValue then
      .answer (.incrDecr { message := "Delta cannot be negated without overflow" })
    else addAct t (-(effectiveDelta delta).toInt) ttl found
  | .incr _ delta ttl, found => incrAct t (effectiveDelta delta).toInt ttl found
  | .compareAndSwap .., none => .answer (.compareAndSwap {})
  | .compareAndSwap _ expected new ttl keepTtl, some e =>
    if e.value = expected then
      .put ⟨new, if keepTtl then e.deadline else deadlineAt t ttl⟩
        (.compareAndSwap { success := true, actualValue := new })
        (.compareAndSwap { actualValue := e.value })
    else .answer (.compareAndSwap { actualValue := e.value })
  | .touch .., none => .answer (.touch { message := "Key not found" })
  | .touch _ ttl, some e =>
    .put ⟨e.value, deadlineAt t ttl⟩ (.touch { success := true, message := "TTL updated" })
      (.touch { message := "Failed to update TTL" })

/-- What a call does to the map. CacheLib has no part in it but to refuse a store. -/
def Op.spec (maxItemSize : ℕ) (env : Env) (table : Table Bytes Bytes) :
    Op → Reply × Table Bytes Bytes
  | .get key =>
    (.get ((table.lookup env.now.toNat key).elim {} fun e =>
      { found := true, value := e.value, ttlRemaining := e.remaining env.now.toNat }), table)
  | .exists key => (.exists (table.lookup env.now.toNat key).isSome, table)
  | .getTTL key =>
    (.getTTL ((table.lookup env.now.toNat key).elim (-2) (·.remaining env.now.toNat)), table)
  | .set key value ttl =>
    Act.run (env.accepts maxItemSize key) key table
      (.put ⟨value, deadlineAt env.now.toNat ttl⟩ (.set true) (.set false))
  -- A key whose deadline has passed is removed like any other, and was there.
  | .remove key => (.remove (table key).isSome, table.erase key)
  | .atomic op =>
    Act.run (env.accepts maxItemSize op.key) op.key table
      (op.act env.now.toNat (table.lookup env.now.toNat op.key))

/-! ## Runs -/

/-- What happens to the cache: a call, or the eviction of an item by CacheLib. -/
inductive Event
  | call (env : Env) (op : Op)
  | evict (key : Bytes)
deriving DecidableEq, Repr

/-- The event on the manager. -/
def Event.exec (m : CacheManager) : Event → Option Reply × CacheManager
  | .call env op => (op.exec env m).map some id
  | .evict key => (none, { m with cache := m.cache.map (·.remove key) })

/-- The event on the map. -/
def Event.spec (maxItemSize : ℕ) (table : Table Bytes Bytes) :
    Event → Option Reply × Table Bytes Bytes
  | .call env op => (op.spec maxItemSize env table).map some id
  | .evict key => (none, table.erase key)

/-- The TTL that a call asks for, and zero when it does not take one. -/
def AtomicOp.ttlSeconds : AtomicOp → UInt32
  | .setNX _ _ ttl | .increment _ _ ttl | .decrement _ _ ttl | .incr _ _ ttl
  | .compareAndSwap _ _ _ ttl _ | .touch _ ttl => ttl

/-- The TTL that a call asks for, and zero when it does not take one. -/
def Op.ttlSeconds : Op → UInt32
  | .set _ _ ttl => ttl
  | .atomic op => op.ttlSeconds
  | .get _ | .exists _ | .getTTL _ | .remove _ => 0

/-- The clock runs, the deadline that the call asks for is a 32-bit second, and CacheLib answers
lookups and removals without an exception. Stores it may refuse. -/
structure Calm (env : Env) (op : Op) : Prop where
  /-- The clock runs. -/
  now_ne_zero : env.now ≠ 0
  /-- The deadline is a 32-bit second. -/
  deadline_lt : env.now.toNat + op.ttlSeconds.toNat < 2^32
  /-- `find` does not throw. -/
  findThrows : env.findThrows = false
  /-- Nor does the copy of a value. -/
  copyThrows : env.copyThrows = false
  /-- Nor does the removal of an item. -/
  removeThrows : env.removeThrows = false

/-- Calls are calm, and evictions always are. -/
def Event.Calm : Event → Prop
  | .call env op => CacheServer.Calm env op
  | .evict _ => True

/-! ## Items as entries -/

/-- An item without its creation time. -/
def Item.entry (item : Item) : Entry Bytes where
  value := item.value
  deadline := if item.expiryTime = 0 then none else some item.expiryTime.toNat

/-- The table of the cache as a map with deadlines. -/
def Store.contents (store : Store) : Table Bytes Bytes := fun key => (store key).map Item.entry

/-- Every item has stamps that `allocate` could have put on it. -/
def Store.Stamped (store : Store) : Prop := ∀ key item, store key = some item → item.Stamped

/-- An item stands for an entry with its value. -/
@[simp]
theorem Item.entry_value (item : Item) : item.entry.value = item.value := rfl

/-- CacheLib's test of words is the one of the seconds that they stand for. -/
theorem Item.entry_isLive (item : Item) (now : UInt32) :
    item.entry.isLive now.toNat = !item.isExpired now := by
  by_cases h : item.expiryTime = 0
  · simp [Entry.isLive, entry, isExpired, h]
  · rw [Bool.eq_iff_iff]
    simp [Entry.isLive, entry, isExpired, h, UInt32.lt_iff_toNat_lt]

/-- `incr` counts in the window exactly when its deadline is still to come. -/
theorem Item.entry_deadline_all_lt (item : Item) (now : UInt32) :
    item.entry.deadline.all (now.toNat < ·) =
      decide (item.expiryTime = 0 ∨ item.expiryTime > now) := by
  by_cases h : item.expiryTime = 0
  · simp [entry, h]
  · simp [entry, h, UInt32.lt_iff_toNat_lt]

/-- An item that is found has the seconds left that the map gives its entry. -/
theorem Item.ttlRemaining_eq_remaining {item : Item} {now : UInt32}
    (h : item.isExpired now = false) :
    item.ttlRemaining now = item.entry.remaining now.toNat := by
  rw [Item.ttlRemaining_of_live h]
  by_cases h0 : item.expiryTime = 0
  · simp [secondsLeft, Entry.remaining, entry, h0]
  · simp [secondsLeft, Entry.remaining, entry, h0]

/-- A lookup in the map gives the entry of what `find` gives. -/
theorem Store.lookup_contents (store : Store) (now : UInt32) (key : Bytes) :
    store.contents.lookup now.toNat key = (store.find now key).map Item.entry := by
  unfold Table.lookup Store.contents Store.find
  cases store key with
  | none => rfl
  | some item => simp [Option.filter, Item.entry_isLive, apply_ite (Option.map Item.entry)]

/-- Inserting an item is putting its entry. -/
@[simp]
theorem Store.contents_insertOrReplace (store : Store) (key : Bytes) (item : Item) :
    (store.insertOrReplace key item).contents = store.contents.put key item.entry := by
  funext k
  by_cases hk : k = key
  · subst hk
    simp [contents, Table.put]
  · simp [contents, Table.put, hk]

/-- Removing an item is erasing its entry. -/
@[simp]
theorem Store.contents_remove (store : Store) (key : Bytes) :
    (store.remove key).contents = store.contents.erase key := by
  funext k
  by_cases hk : k = key
  · subst hk
    simp [contents, Table.erase]
  · simp [contents, Table.erase, hk]

/-- What holds of all stored items still does with one more that it holds of. -/
theorem Store.forall_insertOrReplace {P : Bytes → Item → Prop} {store : Store}
    (h : ∀ k item, store k = some item → P k item) {key : Bytes} {item : Item}
    (hitem : P key item) :
    ∀ k other, store.insertOrReplace key item k = some other → P k other := by
  intro k other hk
  by_cases hkey : k = key
  · subst hkey
    rw [Store.insertOrReplace_same] at hk
    cases hk
    exact hitem
  · rw [Store.insertOrReplace_of_ne store item hkey] at hk
    exact h k other hk

/-- What holds of all stored items still does with one less. -/
theorem Store.forall_remove {P : Bytes → Item → Prop} {store : Store}
    (h : ∀ k item, store k = some item → P k item) (key : Bytes) :
    ∀ k other, store.remove key k = some other → P k other := by
  intro k other hk
  by_cases hkey : k = key
  · subst hkey
    simp at hk
  · rw [Store.remove_of_ne store hkey] at hk
    exact h k other hk

/-- What `find` gives is stamped. -/
theorem Store.Stamped.find {store : Store} (h : store.Stamped) {now : UInt32} {key : Bytes}
    {item : Item} (hfind : store.find now key = some item) : item.Stamped :=
  h key item (Store.find_eq_some_iff.mp hfind).1

/-- A fresh stamp is the deadline that the TTL asks for, as long as that is a 32-bit second. -/
theorem stamp_entry {now ttl : UInt32} (h : now.toNat + ttl.toNat < 2^32) (value : Bytes) :
    (stamp now value ttl 0).entry = ⟨value, deadlineAt now.toNat ttl⟩ := by
  by_cases h0 : ttl = 0
  · simp [stamp, Item.entry, deadlineAt, h0]
  · have hpos : 0 < ttl.toNat := by
      have : ttl.toNat ≠ 0 := fun he => h0 (UInt32.toNat_inj.mp he)
      omega
    have hsum : (now + ttl).toNat = now.toNat + ttl.toNat := by
      rw [UInt32.toNat_add, Nat.mod_eq_of_lt h]
    have hne : now + ttl ≠ 0 := by
      intro he
      rw [he] at hsum
      simp at hsum
      omega
    simp [stamp, Item.entry, deadlineAt, h0, hne, hsum]

/-! ## Decisions as acts -/

/-- The decision, carried out at `now`, does what the act does to the map. -/
def Decision.Implements (now : UInt32) : Decision Reply → Act Bytes Reply → Prop
  | .reply r, .answer r' => r = r'
  | .store value ttl creation finish, .put entry done refused =>
    (stamp now value ttl creation).entry = entry ∧ (stamp now value ttl creation).Stamped ∧
      finish true = done ∧ finish false = refused
  | _, _ => False

/-- The stamps that a store is made with give the deadline. -/
def Gives (now ttl creation : UInt32) (deadline : Option ℕ) : Prop :=
  ∀ value, (stamp now value ttl creation).entry = ⟨value, deadline⟩ ∧
    (stamp now value ttl creation).Stamped

/-- A fresh stamp gives the deadline that the TTL asks for. -/
theorem gives_fresh {now ttl : UInt32} (hnow : now ≠ 0) (h : now.toNat + ttl.toNat < 2^32) :
    Gives now ttl 0 (deadlineAt now.toNat ttl) :=
  fun value => ⟨stamp_entry h value, stamp_stamped hnow value ttl 0⟩

/-- The preserved stamps of an item give its deadline. -/
theorem gives_preserved {item : Item} (h : item.Stamped) (now : UInt32) :
    Gives now item.preservedTtl item.creationTime item.entry.deadline := by
  intro value
  rw [stamp_preserved h]
  exact ⟨rfl, h⟩

/-- The end of a counting operation implements the count. -/
theorem storeSum_implements {now ttl creation : UInt32} {deadline : Option ℕ}
    (hgives : Gives now ttl creation deadline) {text : Option Bytes} {base : Int64}
    (htext : text.elim (some 0) parseWholeInt64 = some base) (delta : Int64) {overflow : Reply}
    {finish : Int64 → Bool → Reply} {counted : Int64 → Reply} {failed : String → Reply}
    (hoverflow : overflow = failed "Counter would overflow")
    (hcounted : ∀ v, finish v true = counted v)
    (hfailed : ∀ v, finish v false = failed "Failed to store new value") :
    (storeSum base delta ttl creation overflow finish).Implements now
      (countAct text delta.toInt deadline counted failed) := by
  unfold storeSum countAct
  rw [htext]
  dsimp only
  split_ifs
  · exact ⟨(hgives _).1, (hgives _).2, hcounted _, hfailed _⟩
  · exact hoverflow

/-- The end of `atomicAddValue` implements the count. -/
theorem addAndStore_implements {now ttl creation : UInt32} {deadline : Option ℕ}
    (hgives : Gives now ttl creation deadline) {text : Option Bytes} {base : Int64}
    (htext : text.elim (some 0) parseWholeInt64 = some base) (delta : Int64) :
    ((addAndStore base delta ttl creation).map Reply.incrDecr).Implements now
      (countAct text delta.toInt deadline
        (fun newValue => .incrDecr { success := true, newValue })
        fun message => .incrDecr { message }) := by
  rw [addAndStore_eq, storeSum_map]
  exact storeSum_implements hgives htext delta rfl (fun _ => rfl) fun _ => rfl

/-- The end of `incr` implements the count. -/
theorem incrAndStore_implements {now ttl creation : UInt32} {deadline : Option ℕ}
    (hgives : Gives now ttl creation deadline) {text : Option Bytes} {base : Int64}
    (htext : text.elim (some 0) parseWholeInt64 = some base) (delta : Int64) (createdNew : Bool) :
    ((incrAndStore base delta ttl creation createdNew).map Reply.incr).Implements now
      (countAct text delta.toInt deadline
        (fun value => .incr { success := true, value, ttlSet := createdNew })
        fun message => .incr { message }) := by
  rw [incrAndStore_eq, storeSum_map]
  exact storeSum_implements hgives htext delta rfl (fun _ => rfl) fun _ => rfl

section Decisions

variable {now ttl : UInt32} (hnow : now ≠ 0) (hfits : now.toNat + ttl.toNat < 2^32)
  {found : Option Item} (hfound : ∀ item, found = some item → item.Stamped)
include hnow hfits hfound

/-- `atomicAddValue` implements its act. -/
theorem atomicAddValueDecision_implements (delta : Int64) :
    ((atomicAddValueDecision delta ttl found).map Reply.incrDecr).Implements now
      (addAct now.toNat delta.toInt ttl (found.map Item.entry)) := by
  have hfresh := gives_fresh hnow hfits
  unfold addAct
  cases found with
  | none =>
    have hdeadline : deadlineAt now.toNat ttl =
        if ttl = 0 then (none : Option (Entry Bytes)).bind Entry.deadline
        else deadlineAt now.toNat ttl := by
      split_ifs with h0
      · simp [deadlineAt, h0]
      · rfl
    rw [hdeadline] at hfresh
    exact addAndStore_implements hfresh rfl delta
  | some item =>
    simp only [atomicAddValueDecision, Option.map_some]
    cases hp : parseWholeInt64 item.value with
    | none => simp [countAct, hp, Decision.map, Decision.Implements]
    | some base =>
      have htext : (some item.value).elim (some 0) parseWholeInt64 = some base := hp
      dsimp only
      split_ifs with h0
      · exact addAndStore_implements (gives_preserved (hfound item rfl) now) htext delta
      · exact addAndStore_implements hfresh htext delta

/-- `incr` implements its act. -/
theorem incrDecision_implements (delta : Int64) :
    ((incrDecision now delta ttl found).map Reply.incr).Implements now
      (incrAct now.toNat delta.toInt ttl (found.map Item.entry)) := by
  have hfresh := gives_fresh hnow hfits
  unfold incrAct
  cases found with
  | none => exact incrAndStore_implements hfresh rfl delta true
  | some item =>
    have hwindow := item.entry_deadline_all_lt now
    by_cases hlive : item.expiryTime = 0 ∨ item.expiryTime > now
    · simp only [incrDecision, if_pos hlive, Option.map_some]
      rw [Option.filter_some_pos (by rw [hwindow]; exact decide_eq_true hlive)]
      cases hp : parseWholeInt64 item.value with
      | none => simp [countAct, hp, Decision.map, Decision.Implements]
      | some base =>
        have htext : (some item.value).elim (some 0) parseWholeInt64 = some base := hp
        exact incrAndStore_implements (gives_preserved (hfound item rfl) now) htext delta false
    · -- In the second of its deadline the item is found, and a new window starts.
      simp only [incrDecision, if_neg hlive, Option.map_some]
      rw [Option.filter_some_neg (by rw [hwindow]; exact decide_eq_false hlive)]
      exact incrAndStore_implements hfresh rfl delta true

end Decisions

/-- Every read-modify-write call implements its act. -/
theorem AtomicOp.decision_implements {op : AtomicOp} (hnone : op.refusal = none) {now : UInt32}
    (hnow : now ≠ 0) (hfits : now.toNat + op.ttlSeconds.toNat < 2^32) {found : Option Item}
    (hfound : ∀ item, found = some item → item.Stamped) :
    (op.decision now found).Implements now (op.act now.toNat (found.map Item.entry)) := by
  have hfresh := gives_fresh hnow hfits
  cases op with
  | setNX key value ttl =>
    cases found with
    | none => exact ⟨(hfresh value).1, (hfresh value).2, rfl, rfl⟩
    | some item => rfl
  | increment key delta ttl =>
    exact atomicAddValueDecision_implements hnow hfits hfound (effectiveDelta delta)
  | decrement key delta ttl =>
    have hmin : effectiveDelta delta ≠ Int64.minValue := by
      intro he
      simp [refusal, he] at hnone
    have hneg := atomicAddValueDecision_implements hnow hfits hfound
      (Int64.ofInt (-(effectiveDelta delta).toInt))
    rw [toInt_ofInt_of_inInt64 (inInt64_neg hmin)] at hneg
    simp only [act, if_neg hmin]
    exact hneg
  | incr key delta ttl => exact incrDecision_implements hnow hfits hfound (effectiveDelta delta)
  | compareAndSwap key expected new ttl keepTtl =>
    cases found with
    | none => rfl
    | some item =>
      simp only [decision, compareAndSwapDecision, act, Option.map_some]
      by_cases heq : item.value = expected
      · rw [if_neg (not_not.mpr heq), if_pos (show item.entry.value = expected from heq)]
        cases keepTtl with
        | true =>
          obtain ⟨hentry, hstamped⟩ := gives_preserved (hfound item rfl) now new
          exact ⟨hentry, hstamped, rfl, rfl⟩
        | false => exact ⟨(hfresh new).1, (hfresh new).2, rfl, rfl⟩
      · rw [if_pos heq, if_neg (show ¬ item.entry.value = expected from heq)]
        rfl
  | touch key ttl =>
    cases found with
    | none => rfl
    | some item => exact ⟨(hfresh item.value).1, (hfresh item.value).2, rfl, rfl⟩

/-! ## Calls and runs -/

/-- The manager's table stands for the map. -/
structure Represents (maxItemSize : ℕ) (m : CacheManager) (table : Table Bytes Bytes) : Prop where
  /-- The size limit is the configured one. -/
  size : m.maxItemSize = maxItemSize
  /-- There is a cache, and its items stand for the entries. -/
  cache : ∃ store, m.cache = some store ∧ store.Stamped ∧ store.contents = table

/-- A decision that implements an act is carried out as the act is. -/
theorem AtomicOp.exec_of_implements {op : AtomicOp} (hnone : op.refusal = none) {env : Env}
    (hfind : env.findThrows = false) {m : CacheManager} {store : Store} (hm : m.cache = some store)
    (hstamped : store.Stamped) {act : Act Bytes Reply}
    (h : (op.decision env.now (store.find env.now op.key)).Implements env.now act) :
    (op.exec env m).1 = (act.run (env.accepts m.maxItemSize op.key) op.key store.contents).1 ∧
      Represents m.maxItemSize (op.exec env m).2
        (act.run (env.accepts m.maxItemSize op.key) op.key store.contents).2 := by
  obtain ⟨r, href, -⟩ | ⟨-, hf, -⟩ | ⟨-, -, ⟨r, hd, he⟩ | ⟨a, hd, -⟩ |
    ⟨value, ttl, creation, finish, hd, ⟨ha, he⟩ | ⟨ha, he⟩⟩⟩ := op.exec_cases env hm
  · rw [hnone] at href
    cases href
  · rw [hfind] at hf
    cases hf
  · -- The decision is to return.
    rw [hd] at h
    cases act with
    | put => exact h.elim
    | answer r' =>
      obtain rfl : r = r' := h
      rw [he]
      exact ⟨rfl, rfl, store, hm, hstamped, rfl⟩
  · rw [hd] at h
    cases act <;> exact h.elim
  · -- The decision is to store, and the store goes through.
    rw [hd] at h
    cases act with
    | answer => exact h.elim
    | put entry done refused =>
      obtain ⟨rfl, hst, rfl, -⟩ := h
      have hgrant : env.accepts m.maxItemSize op.key
          (stamp env.now value ttl creation).entry.value = true := ha
      rw [he, Act.run, if_pos hgrant]
      exact ⟨rfl, rfl, _, rfl, Store.forall_insertOrReplace hstamped hst,
        store.contents_insertOrReplace ..⟩
  · rw [hd] at h
    cases act with
    | answer => exact h.elim
    | put entry done refused =>
      obtain ⟨rfl, -, -, rfl⟩ := h
      have hgrant : ¬ env.accepts m.maxItemSize op.key
          (stamp env.now value ttl creation).entry.value = true := by
        rw [Item.entry_value, stamp_value, ha]
        exact Bool.false_ne_true
      rw [he, Act.run, if_neg hgrant]
      exact ⟨rfl, rfl, store, hm, hstamped, rfl⟩

/-- Every read-modify-write call does to the table what its act does to the map. -/
theorem AtomicOp.exec_refines {op : AtomicOp} {env : Env} (hcalm : Calm env (.atomic op))
    {m : CacheManager} {store : Store} (hm : m.cache = some store) (hstamped : store.Stamped) :
    (op.exec env m).1 = (Op.spec m.maxItemSize env store.contents (.atomic op)).1 ∧
      Represents m.maxItemSize (op.exec env m).2
        (Op.spec m.maxItemSize env store.contents (.atomic op)).2 := by
  cases href : op.refusal with
  | some r =>
    -- `decrement` refuses its delta before the lookup, and the act after it.
    rw [exec_of_refusal href]
    cases op <;> simp only [refusal, reduceCtorEq] at href
    case decrement key delta ttl =>
      split_ifs at href with hmin
      cases href
      simp only [Op.spec, act, if_pos hmin, Act.run]
      exact ⟨trivial, rfl, store, hm, hstamped, rfl⟩
  | none =>
    have himplements := decision_implements href hcalm.now_ne_zero hcalm.deadline_lt
      fun item (hitem : store.find env.now op.key = some item) => hstamped.find hitem
    rw [← Store.lookup_contents] at himplements
    exact exec_of_implements href hcalm.findThrows hm hstamped himplements

/-- Every call does to the table what it means on the map. -/
theorem Op.exec_refines {op : Op} {env : Env} (hcalm : Calm env op) {m : CacheManager}
    {store : Store} (hm : m.cache = some store) (hstamped : store.Stamped) :
    (op.exec env m).1 = (op.spec m.maxItemSize env store.contents).1 ∧
      Represents m.maxItemSize (op.exec env m).2 (op.spec m.maxItemSize env store.contents).2 := by
  have hsame : ∀ m' : CacheManager, m'.maxItemSize = m.maxItemSize → m'.cache = m.cache →
      Represents m.maxItemSize m' store.contents :=
    fun m' hsize hcache => ⟨hsize, store, hcache.trans hm, hstamped, rfl⟩
  cases op with
  | get key =>
    simp only [exec, spec, Store.lookup_contents, CacheManager.get, hm, hcalm.findThrows,
      hcalm.copyThrows, Bool.false_eq_true, if_false]
    cases hfind : store.find env.now key with
    | none => exact ⟨rfl, hsame _ rfl hm.symm⟩
    | some item =>
      have hlive := (Store.find_eq_some_iff.mp hfind).2
      refine ⟨?_, hsame _ rfl hm.symm⟩
      simp [Item.ttlRemaining_eq_remaining hlive]
  | «exists» key =>
    refine ⟨?_, hsame _ rfl rfl⟩
    simp [exec, spec, Store.lookup_contents, CacheManager.exists, hm, hcalm.findThrows]
  | getTTL key =>
    refine ⟨?_, hsame _ rfl rfl⟩
    simp only [exec, spec, Store.lookup_contents, CacheManager.getTTL, hm, hcalm.findThrows,
      Bool.false_eq_true, if_false]
    cases hfind : store.find env.now key with
    | none => rfl
    | some item => simp [Item.ttlRemaining_eq_remaining (Store.find_eq_some_iff.mp hfind).2]
  | set key value ttl =>
    have hentry : (stamp env.now value ttl 0).entry = ⟨value, deadlineAt env.now.toNat ttl⟩ :=
      stamp_entry hcalm.deadline_lt value
    have hst := stamp_stamped hcalm.now_ne_zero value ttl 0
    simp only [exec, spec, CacheManager.set, CacheManager.setWithCreationTime_eq env hm, Act.run]
    split_ifs with haccepts
    · refine ⟨rfl, rfl, _, rfl, Store.forall_insertOrReplace hstamped hst, ?_⟩
      rw [Store.contents_insertOrReplace, hentry]
    · exact ⟨rfl, hsame _ rfl rfl⟩
  | remove key =>
    simp only [exec, spec, CacheManager.remove, hm, Store.removeKey, hcalm.removeThrows,
      Bool.false_eq_true, if_false]
    refine ⟨?_, rfl, _, rfl, Store.forall_remove hstamped key, store.contents_remove key⟩
    simp [Store.contents]
  | atomic op => exact AtomicOp.exec_refines hcalm hm hstamped

/-- The manager follows the map through one event. -/
theorem Event.exec_refines {maxItemSize : ℕ} {m : CacheManager} {table : Table Bytes Bytes}
    (h : Represents maxItemSize m table) {e : Event} (hcalm : e.Calm) :
    (e.exec m).1 = (e.spec maxItemSize table).1 ∧
      Represents maxItemSize (e.exec m).2 (e.spec maxItemSize table).2 := by
  obtain ⟨rfl, store, hm, hstamped, rfl⟩ := h
  cases e with
  | call env op =>
    obtain ⟨hreply, hrep⟩ := Op.exec_refines hcalm hm hstamped
    exact ⟨congrArg some hreply, hrep⟩
  | evict key =>
    refine ⟨rfl, rfl, store.remove key, ?_, Store.forall_remove hstamped key,
      store.contents_remove key⟩
    simp [exec, hm]

/-- The manager refines the map with deadlines. From every table of items with stamps that
`allocate` could have put on them, and along every run of calls and evictions in which the clock
runs, the deadlines asked for are 32-bit seconds, and lookups and removals do not throw: the replies
are those of the map, whatever stores CacheLib refuses, and the table that is left stands for the
map that is left. -/
theorem manager_refines_ttlMap {m : CacheManager} {store : Store} (hm : m.cache = some store)
    (hstamped : store.Stamped) {events : List Event} (hcalm : ∀ e ∈ events, e.Calm) :
    (runAll Event.exec m events).1 =
        (runAll (Event.spec m.maxItemSize) store.contents events).1 ∧
      ∃ store', (runAll Event.exec m events).2.cache = some store' ∧ store'.Stamped ∧
        store'.contents = (runAll (Event.spec m.maxItemSize) store.contents events).2 := by
  have hstep : ∀ m' table e, Represents m.maxItemSize m' table → Event.Calm e →
      (e.exec m').1 = (e.spec m.maxItemSize table).1 ∧
        Represents m.maxItemSize (e.exec m').2 (e.spec m.maxItemSize table).2 :=
    fun m' table e hrep he => Event.exec_refines hrep he
  obtain ⟨hreplies, hlast⟩ := runAll_simulates hstep ⟨rfl, store, hm, hstamped, rfl⟩ hcalm
  exact ⟨hreplies, hlast.cache⟩

/-- A counter that is created, counted in the second before its deadline, evicted, and set anew. -/
def counterAndEviction : List Event :=
  [.call { now := 5 } (.atomic (.incr [107] 3 10)),
    .call { now := 14 } (.atomic (.incr [107] 4 99)),
    .evict [107], .call { now := 14 } (.atomic (.setNX [107] [49] 0)),
    .call { now := 15 } (.getTTL [107])]

/-- The run on an empty cache is the one on the empty map. -/
theorem manager_refines_ttlMap_counter :
    (runAll Event.exec { maxItemSize := 1024, cache := some fun _ => none } counterAndEviction).1 =
        (runAll (Event.spec 1024) (fun _ => none) counterAndEviction).1 ∧
      (runAll (Event.spec 1024) (fun _ => none) counterAndEviction).1 =
        [some (.incr { success := true, value := 3, ttlSet := true }),
          some (.incr { success := true, value := 7 }), none, some (.setNX { wasSet := true }),
          some (.getTTL (-1))] := by
  have hcalm : ∀ e ∈ counterAndEviction, e.Calm := by
    simp only [counterAndEviction, List.forall_mem_cons, Event.Calm]
    refine ⟨⟨by decide, by decide, rfl, rfl, rfl⟩, ⟨by decide, by decide, rfl, rfl, rfl⟩, trivial,
      ⟨by decide, by decide, rfl, rfl, rfl⟩, ⟨by decide, by decide, rfl, rfl, rfl⟩, by simp⟩
  refine ⟨?_, by decide +kernel⟩
  exact (@manager_refines_ttlMap { maxItemSize := 1024, cache := some fun _ => none } _ rfl
    (by intro key item h; cases h) _ hcalm).1

end CacheServer
