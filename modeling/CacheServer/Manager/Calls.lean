import CacheServer.Manager.Operations

/-!
# Calls and their inversion

The manager's single-key operations as one type of calls, `Op`, with `exec` to run one whole. The
six that take `atomicOpMutex_` are a type of their own, `AtomicOp`. What a call can do to the table
is said here once, and the properties of the other files are read off from it:
`setWithCreationTime_eq` says when a store is accepted and what it leaves, and `AtomicOp.exec_cases`
lists the ways through a read-modify-write operation.
-/

namespace CacheServer

/-- A call of one of the operations that take `atomicOpMutex_`. -/
inductive AtomicOp
  | setNX (key value : Bytes) (ttlSeconds : UInt32)
  | increment (key : Bytes) (delta : Int64) (ttlSeconds : UInt32)
  | decrement (key : Bytes) (delta : Int64) (ttlSeconds : UInt32)
  | incr (key : Bytes) (delta : Int64) (ttlSeconds : UInt32)
  | compareAndSwap (key expectedValue newValue : Bytes) (ttlSeconds : UInt32) (keepTtl : Bool)
  | touch (key : Bytes) (ttlSeconds : UInt32)
deriving DecidableEq, Repr

/-- A call of one of the single-key operations. -/
inductive Op
  | get (key : Bytes)
  | exists (key : Bytes)
  | getTTL (key : Bytes)
  | set (key value : Bytes) (ttlSeconds : UInt32)
  | remove (key : Bytes)
  | atomic (op : AtomicOp)
deriving DecidableEq, Repr

/-- The key that a read-modify-write call is about. -/
def AtomicOp.key : AtomicOp → Bytes
  | .setNX key _ _ | .increment key _ _ | .decrement key _ _ | .incr key _ _
  | .compareAndSwap key _ _ _ _ | .touch key _ => key

/-- The key that a call is about. -/
def Op.key : Op → Bytes
  | .get key | .exists key | .getTTL key | .set key _ _ | .remove key => key
  | .atomic op => op.key

/-- What a call returns, or how it ends without returning. -/
inductive Reply
  | get (r : GetResult)
  | exists (found : Bool)
  | getTTL (ttl : ℤ)
  | set (stored : Bool)
  | remove (existed : Bool)
  | setNX (r : SetNXResult)
  | incrDecr (r : IncrDecrResult)
  | incr (r : IncrResult)
  | compareAndSwap (r : CASResult)
  | touch (r : TouchResult)
  | aborted (a : Abort)
deriving DecidableEq, Repr

/-- The reply of an operation that may abort. -/
def Reply.ofExcept {ρ : Type} (f : ρ → Reply) : Except Abort ρ → Reply
  | .ok r => f r
  | .error a => .aborted a

/-- A read-modify-write call run whole. -/
def AtomicOp.exec (env : Env) (m : CacheManager) : AtomicOp → Reply × CacheManager
  | .setNX key value ttl => (m.setNX env key value ttl).map (.ofExcept .setNX) id
  | .increment key delta ttl => (m.increment env key delta ttl).map (.ofExcept .incrDecr) id
  | .decrement key delta ttl => (m.decrement env key delta ttl).map (.ofExcept .incrDecr) id
  | .incr key delta ttl => (m.incr env key delta ttl).map (.ofExcept .incr) id
  | .compareAndSwap key expected new ttl keepTtl =>
    (m.compareAndSwap env key expected new ttl keepTtl).map (.ofExcept .compareAndSwap) id
  | .touch key ttl => (m.touch env key ttl).map (.ofExcept .touch) id

/-- A call run whole. -/
def Op.exec (env : Env) (m : CacheManager) : Op → Reply × CacheManager
  | .get key => (m.get env key).map .get id
  | .exists key => (.exists (m.exists env key), m)
  | .getTTL key => (.getTTL (m.getTTL env key), m)
  | .set key value ttl => (m.set env key value ttl).map .set id
  | .remove key => (m.remove env key).map .remove id
  | .atomic op => op.exec env m

/-- Calls run whole, one after another, each in its own environment. -/
def execAll (m : CacheManager) : List (Env × Op) → List Reply × CacheManager
  | [] => ([], m)
  | (env, op) :: calls =>
    let (r, m) := op.exec env m
    let (rs, m) := execAll m calls
    (r :: rs, m)

/-- One more call at the end of a run. -/
theorem execAll_concat (m : CacheManager) (calls : List (Env × Op)) (env : Env) (op : Op) :
    execAll m (calls ++ [(env, op)]) =
      ((execAll m calls).1 ++ [(op.exec env (execAll m calls).2).1],
        (op.exec env (execAll m calls).2).2) := by
  induction calls generalizing m with
  | nil => simp [execAll]
  | cons x calls ih =>
    obtain ⟨env', op'⟩ := x
    simp [execAll, ih]

/-- Every call has its reply. -/
theorem length_execAll (m : CacheManager) (calls : List (Env × Op)) :
    (execAll m calls).1.length = calls.length := by
  induction calls generalizing m with
  | nil => rfl
  | cons x calls ih => simp [execAll, ih]

/-- The call reports that it stored an item or removed one. A read reports success when it finds an
item. -/
def Reply.success : Reply → Bool
  | .get r => r.found
  | .exists found => found
  | .getTTL ttl => ttl ≠ -2
  | .set stored => stored
  | .remove existed => existed
  | .setNX r => r.wasSet
  | .incrDecr r => r.success
  | .incr r => r.success
  | .compareAndSwap r => r.success
  | .touch r => r.success
  | .aborted _ => false

/-! ## The store of a value -/

/-- A store of the value under the key goes through. -/
def Env.accepts (env : Env) (maxItemSize : ℕ) (key value : Bytes) : Bool :=
  value.length ≤ maxItemSize && validKey key && env.allocate = .handle && !env.insertThrows

/-- `setWithCreationTime` puts a stamped item under the key when the store is accepted, and leaves
the table alone otherwise. -/
theorem Store.setWithCreationTime_eq (env : Env) (maxItemSize : ℕ) (store : Store)
    (key value : Bytes) (ttl creation : UInt32) :
    store.setWithCreationTime env maxItemSize key value ttl creation =
      if env.accepts maxItemSize key value then
        (true, store.insertOrReplace key (stamp env.now value ttl creation))
      else (false, store) := by
  unfold Store.setWithCreationTime Env.accepts
  by_cases hsize : value.length ≤ maxItemSize
  · -- The value is small enough, and the key, the allocation and the insertion decide.
    rw [if_neg (by omega)]
    cases validKey key <;> cases env.allocate <;> cases env.insertThrows <;> simp [hsize]
  · -- A value that is too large is refused before anything is allocated.
    rw [if_pos (by omega)]
    simp [hsize]

/-- What `setWithCreationTime` leaves of the manager: the count goes up, and the table changes
exactly when the store is accepted. -/
theorem CacheManager.setWithCreationTime_eq (env : Env) {m : CacheManager} {store : Store}
    (hm : m.cache = some store) (key value : Bytes) (ttl creation : UInt32) :
    m.setWithCreationTime env key value ttl creation =
      if env.accepts m.maxItemSize key value then
        (true, { m with
          setCount := m.setCount + 1
          cache := some (store.insertOrReplace key (stamp env.now value ttl creation)) })
      else (false, { m with setCount := m.setCount + 1 }) := by
  simp only [CacheManager.setWithCreationTime, hm, Store.setWithCreationTime_eq]
  split_ifs
  · rfl
  · -- The count goes up before the checks, as in the source.
    simp [← hm]

/-! ## Read-modify-write operations -/

/-- A decision with its replies renamed. -/
def Decision.map {ρ ρ' : Type} (f : ρ → ρ') : Decision ρ → Decision ρ'
  | .reply r => .reply (f r)
  | .abort a => .abort a
  | .store value ttl creation finish => .store value ttl creation fun stored => f (finish stored)

/-- A decision that stores still does with its replies renamed, and nothing else does. -/
theorem Decision.map_eq_store {ρ ρ' : Type} {f : ρ → ρ'} {d : Decision ρ} {value : Bytes}
    {ttl creation : UInt32} {finish : Bool → ρ'} (h : d.map f = .store value ttl creation finish) :
    ∃ finish', d = .store value ttl creation finish' ∧ ∀ b, finish b = f (finish' b) := by
  cases d with
  | reply r => cases h
  | abort a => cases h
  | store v t c finish' =>
    cases h
    exact ⟨finish', rfl, fun _ => rfl⟩

/-! ## The end of the counting operations

`addAndStore` and `incrAndStore` differ in nothing but the results that they make. -/

/-- The store of the text of the sum, or the reply `overflow` when the sum is out of range. -/
def storeSum {ρ : Type} (base delta : Int64) (ttl creation : UInt32) (overflow : ρ)
    (finish : Int64 → Bool → ρ) : Decision ρ :=
  if InInt64 (base.toInt + delta.toInt) then
    .store (Decimal.ofInt (base.toInt + delta.toInt)) ttl creation
      (finish (Int64.ofInt (base.toInt + delta.toInt)))
  else .reply overflow

/-- The result of `atomicAddValue` after its store. -/
def IncrDecrResult.ofStored (newValue : Int64) (stored : Bool) : IncrDecrResult :=
  if stored then { success := true, newValue } else { message := "Failed to store new value" }

/-- The result of `incr` after its store. -/
def IncrResult.ofStored (createdNew : Bool) (newValue : Int64) (stored : Bool) : IncrResult :=
  if stored then { success := true, value := newValue, ttlSet := createdNew }
  else { message := "Failed to store new value" }

/-- The end of `atomicAddValue` stores the exact sum. -/
theorem addAndStore_eq (current delta : Int64) (ttl creation : UInt32) :
    addAndStore current delta ttl creation = storeSum current delta ttl creation
      { message := "Counter would overflow" } IncrDecrResult.ofStored := by
  rw [addAndStore, checkedAdd_eq, storeSum]
  split_ifs with hin
  · simp only [toText, toInt_ofInt_of_inInt64 hin]
    rfl
  · rfl

/-- The end of `incr` stores the exact sum. -/
theorem incrAndStore_eq (base delta : Int64) (ttl creation : UInt32) (createdNew : Bool) :
    incrAndStore base delta ttl creation createdNew = storeSum base delta ttl creation
      { message := "Counter would overflow" } (IncrResult.ofStored createdNew) := by
  rw [incrAndStore, checkedAdd_eq, storeSum]
  split_ifs with hin
  · simp only [toText, toInt_ofInt_of_inInt64 hin]
    rfl
  · rfl

/-- The decision with its replies renamed. -/
theorem storeSum_map {ρ ρ' : Type} (f : ρ → ρ') (base delta : Int64) (ttl creation : UInt32)
    (overflow : ρ) (finish : Int64 → Bool → ρ) :
    (storeSum base delta ttl creation overflow finish).map f =
      storeSum base delta ttl creation (f overflow) fun v stored => f (finish v stored) := by
  unfold storeSum
  split_ifs <;> rfl

/-- When the decision is to store, the sum is in range, and the stamps are the given ones. -/
theorem storeSum_eq_store {ρ : Type} {base delta : Int64} {ttl creation ttl' creation' : UInt32}
    {overflow : ρ} {finish : Int64 → Bool → ρ} {value : Bytes} {finish' : Bool → ρ}
    (h : storeSum base delta ttl creation overflow finish = .store value ttl' creation' finish') :
    ttl' = ttl ∧ creation' = creation ∧
      ∃ sum : Int64, sum.toInt = base.toInt + delta.toInt ∧ finish' = finish sum := by
  unfold storeSum at h
  split_ifs at h with hin
  cases h
  exact ⟨rfl, rfl, _, toInt_ofInt_of_inInt64 hin, rfl⟩

/-! ## Whole calls -/

/-- What the call answers before it takes the mutex, if it does: `decrement` refuses there the one
delta that has no negation. -/
def AtomicOp.refusal : AtomicOp → Option Reply
  | .decrement _ delta _ =>
    if effectiveDelta delta = Int64.minValue then
      some (.incrDecr { message := "Delta cannot be negated without overflow" })
    else none
  | _ => none

/-- What the call returns when the cache is not there. -/
def AtomicOp.uninitialized : AtomicOp → Reply
  | .setNX .. => .setNX {}
  | .increment .. | .decrement .. => .incrDecr { message := "Cache not initialized" }
  | .incr .. => .incr { message := "Cache not initialized" }
  | .compareAndSwap .. => .compareAndSwap {}
  | .touch .. => .touch { message := "Cache not initialized" }

/-- What the call decides from what `find` gave, at the second `now`. -/
def AtomicOp.decision (now : UInt32) : AtomicOp → Option Item → Decision Reply
  | .setNX _ value ttl, found => (setNXDecision value ttl found).map .setNX
  | .increment _ delta ttl, found =>
    (atomicAddValueDecision (effectiveDelta delta) ttl found).map .incrDecr
  | .decrement _ delta ttl, found =>
    (atomicAddValueDecision (Int64.ofInt (-(effectiveDelta delta).toInt)) ttl found).map .incrDecr
  | .incr _ delta ttl, found => (incrDecision now (effectiveDelta delta) ttl found).map .incr
  | .compareAndSwap _ expected new ttl keepTtl, found =>
    (compareAndSwapDecision expected new ttl keepTtl found).map .compareAndSwap
  | .touch _ ttl, found => (touchDecision ttl found).map .touch

/-- Renaming the replies of a whole operation is renaming those of its decision. -/
theorem CacheManager.atomically_map {ρ : Type} (f : ρ → Reply) (env : Env) (m : CacheManager)
    (key : Bytes) (u : ρ) (d : Option Item → Decision ρ) :
    (m.atomically env key u d).map (Reply.ofExcept f) id =
      (m.atomically env key (f u) fun found => (d found).map f).map (Reply.ofExcept id) id := by
  unfold CacheManager.atomically
  cases m.cache with
  | none => rfl
  | some store =>
    -- An exception of the lookup has no reply to rename.
    cases hf : env.findThrows with
    | true => simp [Reply.ofExcept]
    | false => cases hd : d (store.find env.now key) <;> simp [Decision.map, hd, Reply.ofExcept]

/-- A call that is refused before the mutex returns its refusal and does nothing else. -/
theorem AtomicOp.exec_of_refusal {op : AtomicOp} {r : Reply} (h : op.refusal = some r) (env : Env)
    (m : CacheManager) : op.exec env m = (r, m) := by
  cases op <;> simp only [AtomicOp.refusal, reduceCtorEq] at h
  case decrement key delta ttl =>
    -- Only `decrement` refuses before it takes the mutex.
    split_ifs at h with hmin
    cases h
    simp [AtomicOp.exec, CacheManager.decrement, checkedNegate_eq, hmin, Reply.ofExcept]

/-- Any other call is its decision, made on what `find` gives and carried out. -/
theorem AtomicOp.exec_eq_atomically {op : AtomicOp} (h : op.refusal = none) (env : Env)
    (m : CacheManager) :
    op.exec env m =
      (m.atomically env op.key op.uninitialized (op.decision env.now)).map
        (Reply.ofExcept id) id := by
  cases op with
  | setNX key value ttl => exact CacheManager.atomically_map ..
  | increment key delta ttl => exact CacheManager.atomically_map ..
  | decrement key delta ttl =>
    -- A negation exists, or the call would have been refused.
    have hmin : effectiveDelta delta ≠ Int64.minValue := by
      intro he
      simp [AtomicOp.refusal, he] at h
    simp only [AtomicOp.exec, CacheManager.decrement, checkedNegate_eq, hmin, if_false]
    exact CacheManager.atomically_map ..
  | incr key delta ttl => exact CacheManager.atomically_map ..
  | compareAndSwap key expected new ttl keepTtl => exact CacheManager.atomically_map ..
  | touch key ttl => exact CacheManager.atomically_map ..

/-- A decision to return is carried out by returning. -/
theorem AtomicOp.exec_of_reply {op : AtomicOp} (hnone : op.refusal = none) {env : Env}
    (hfind : env.findThrows = false) {m : CacheManager} {store : Store} (hm : m.cache = some store)
    {r : Reply} (hd : op.decision env.now (store.find env.now op.key) = .reply r) :
    op.exec env m = (r, m) := by
  simp [exec_eq_atomically hnone, CacheManager.atomically, hm, hfind, hd, Reply.ofExcept]

/-- A decision to store is carried out by storing, when the store is accepted. -/
theorem AtomicOp.exec_of_store {op : AtomicOp} (hnone : op.refusal = none) {env : Env}
    (hfind : env.findThrows = false) {m : CacheManager} {store : Store} (hm : m.cache = some store)
    {value : Bytes} {ttl creation : UInt32} {finish : Bool → Reply}
    (hd : op.decision env.now (store.find env.now op.key) = .store value ttl creation finish)
    (haccepts : env.accepts m.maxItemSize op.key value = true) :
    op.exec env m = (finish true, { m with
      setCount := m.setCount + 1
      cache := some (store.insertOrReplace op.key (stamp env.now value ttl creation)) }) := by
  simp [exec_eq_atomically hnone, CacheManager.atomically, hm, hfind, hd,
    CacheManager.setWithCreationTime_eq env hm, haccepts, Reply.ofExcept]

/-- The ways through a read-modify-write call on a cache that is there: it is refused at once;
`find` throws; the decision is to return, or to leave; or it is to store, and the store goes
through or not. -/
theorem AtomicOp.exec_cases (op : AtomicOp) (env : Env) {m : CacheManager} {store : Store}
    (hm : m.cache = some store) :
    (∃ r, op.refusal = some r ∧ op.exec env m = (r, m)) ∨
    (op.refusal = none ∧ env.findThrows = true ∧ op.exec env m = (.aborted .exception, m)) ∨
    (op.refusal = none ∧ env.findThrows = false ∧
      ((∃ r, op.decision env.now (store.find env.now op.key) = .reply r ∧
          op.exec env m = (r, m)) ∨
        (∃ a, op.decision env.now (store.find env.now op.key) = .abort a ∧
          op.exec env m = (.aborted a, m)) ∨
        (∃ value ttl creation finish,
          op.decision env.now (store.find env.now op.key) = .store value ttl creation finish ∧
          ((env.accepts m.maxItemSize op.key value = true ∧
              op.exec env m = (finish true, { m with
                setCount := m.setCount + 1
                cache := some
                  (store.insertOrReplace op.key (stamp env.now value ttl creation)) })) ∨
            (env.accepts m.maxItemSize op.key value = false ∧
              op.exec env m = (finish false, { m with setCount := m.setCount + 1 })))))) := by
  cases href : op.refusal with
  | some r => exact .inl ⟨r, rfl, exec_of_refusal href env m⟩
  | none =>
    right
    rw [exec_eq_atomically href]
    unfold CacheManager.atomically
    simp only [hm]
    -- From here on the mutex is held: a lookup, a decision, and a store if that is the decision.
    cases hf : env.findThrows with
    | true => simp [Reply.ofExcept]
    | false =>
      cases hd : op.decision env.now (store.find env.now op.key) with
      | reply r => simp [Reply.ofExcept]
      | abort a => simp [Reply.ofExcept]
      | store value ttl creation finish =>
        cases ha : env.accepts m.maxItemSize op.key value with
        | true => simp [CacheManager.setWithCreationTime_eq env hm, ha, Reply.ofExcept]
        | false => simp [CacheManager.setWithCreationTime_eq env hm, ha, Reply.ofExcept, hm]

/-! ## Calls that CacheLib serves -/

/-- The item stored under a key, expired or not. -/
def CacheManager.stored (m : CacheManager) (key : Bytes) : Option Item := m.cache.bind (· key)

/-- The item that `find` gives for the key. -/
def CacheManager.found (m : CacheManager) (now : UInt32) (key : Bytes) : Option Item :=
  m.cache.bind fun store => store.find now key

/-- The store that the decision asks for, if any, is accepted. -/
def Decision.accepted (env : Env) (maxItemSize : ℕ) (key : Bytes) : Decision Reply → Bool
  | .store value _ _ _ => env.accepts maxItemSize key value
  | _ => true

/-- CacheLib does its part in the call: the cache is there, the lookup does not throw, and a store
is accepted if it is tried. -/
structure Served (env : Env) (m : CacheManager) (op : AtomicOp) : Prop where
  /-- The cache is there. -/
  ready : m.isReady = true
  /-- The lookup does not throw. -/
  lookup : env.findThrows = false
  /-- A store that is tried is accepted. -/
  stores : (op.decision env.now (m.found env.now op.key)).accepted env m.maxItemSize op.key = true

/-- A call that is served stores what it decides to store. -/
theorem Served.exec_of_store {env : Env} {m : CacheManager} {op : AtomicOp} (h : Served env m op)
    (hnone : op.refusal = none) {value : Bytes} {ttl creation : UInt32} {finish : Bool → Reply}
    (hd : op.decision env.now (m.found env.now op.key) = .store value ttl creation finish) :
    (op.exec env m).1 = finish true ∧
      (op.exec env m).2.stored op.key = some (stamp env.now value ttl creation) := by
  obtain ⟨store, hm⟩ := Option.isSome_iff_exists.mp h.ready
  have haccepts := h.stores
  simp only [hd, Decision.accepted] at haccepts
  simp only [CacheManager.found, hm, Option.bind_some] at hd
  rw [AtomicOp.exec_of_store hnone h.lookup hm hd haccepts]
  exact ⟨rfl, Store.insertOrReplace_same ..⟩

/-- A call that is served returns what it decides to return, and changes nothing. -/
theorem Served.exec_of_reply {env : Env} {m : CacheManager} {op : AtomicOp} (h : Served env m op)
    (hnone : op.refusal = none) {r : Reply}
    (hd : op.decision env.now (m.found env.now op.key) = .reply r) : op.exec env m = (r, m) := by
  obtain ⟨store, hm⟩ := Option.isSome_iff_exists.mp h.ready
  simp only [CacheManager.found, hm, Option.bind_some] at hd
  exact AtomicOp.exec_of_reply hnone h.lookup hm hd

end CacheServer
