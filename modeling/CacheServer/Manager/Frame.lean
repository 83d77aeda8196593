import CacheServer.Manager.Calls

/-!
# Failed calls change nothing

A call that does not report success leaves every stored item as it was, and a call that does
changes no key but its own (`exec_frame`). For the read-modify-write operations both follow from one
property of their decisions, `Decision.Honest`: the reply says success exactly when the decision is
to store and the store goes through.
-/

namespace CacheServer

/-- The reply says success exactly when a value is stored. -/
def Decision.Honest : Decision Reply → Prop
  | .reply r => r.success = false
  | .abort _ => True
  | .store _ _ _ finish => (finish true).success = true ∧ (finish false).success = false

/-- The end of a counting operation is honest when its results are. -/
theorem storeSum_honest {overflow : Reply} (hoverflow : overflow.success = false)
    {finish : Int64 → Bool → Reply} (hfinish : ∀ v stored, (finish v stored).success = stored)
    (base delta : Int64) (ttl creation : UInt32) :
    (storeSum base delta ttl creation overflow finish).Honest := by
  unfold storeSum
  split_ifs
  · exact ⟨hfinish _ true, hfinish _ false⟩
  · exact hoverflow

/-- The end of `atomicAddValue` is honest. -/
theorem addAndStore_honest (current delta : Int64) (ttl creation : UInt32) :
    ((addAndStore current delta ttl creation).map Reply.incrDecr).Honest := by
  rw [addAndStore_eq, storeSum_map]
  refine storeSum_honest rfl (fun v stored => ?_) ..
  cases stored <;> rfl

/-- The end of `incr` is honest. -/
theorem incrAndStore_honest (base delta : Int64) (ttl creation : UInt32) (createdNew : Bool) :
    ((incrAndStore base delta ttl creation createdNew).map Reply.incr).Honest := by
  rw [incrAndStore_eq, storeSum_map]
  refine storeSum_honest rfl (fun v stored => ?_) ..
  cases stored <;> rfl

/-- `atomicAddValue` is honest. -/
theorem atomicAddValueDecision_honest (delta : Int64) (ttl : UInt32) (found : Option Item) :
    ((atomicAddValueDecision delta ttl found).map Reply.incrDecr).Honest := by
  cases found with
  | none => exact addAndStore_honest ..
  | some existing =>
    simp only [atomicAddValueDecision]
    cases parseWholeInt64 existing.value with
    | none => simp [Decision.map, Decision.Honest, Reply.success]
    | some current => dsimp only; split_ifs <;> exact addAndStore_honest ..

/-- Every read-modify-write call is honest, whatever `find` gives it. -/
theorem AtomicOp.decision_honest (op : AtomicOp) (now : UInt32) (found : Option Item) :
    (op.decision now found).Honest := by
  cases op with
  | setNX key value ttl =>
    cases found <;> simp [decision, setNXDecision, Decision.map, Decision.Honest, Reply.success]
  | increment key delta ttl => exact atomicAddValueDecision_honest ..
  | decrement key delta ttl => exact atomicAddValueDecision_honest ..
  | incr key delta ttl =>
    cases found with
    | none => exact incrAndStore_honest ..
    | some existing =>
      simp only [decision, incrDecision]
      split_ifs with hlive
      · cases parseWholeInt64 existing.value with
        | none => simp [Decision.map, Decision.Honest, Reply.success]
        | some base => exact incrAndStore_honest ..
      · exact incrAndStore_honest ..
  | compareAndSwap key expected new ttl keepTtl =>
    cases found with
    | none => simp [decision, compareAndSwapDecision, Decision.map, Decision.Honest, Reply.success]
    | some existing =>
      simp only [decision, compareAndSwapDecision]
      split_ifs <;> simp [Decision.map, Decision.Honest, Reply.success]
  | touch key ttl =>
    cases found <;> simp [decision, touchDecision, Decision.map, Decision.Honest, Reply.success]

/-- A refusal before the mutex is not a success. -/
theorem AtomicOp.refusal_success {op : AtomicOp} {r : Reply} (h : op.refusal = some r) :
    r.success = false := by
  cases op <;> simp only [refusal, reduceCtorEq] at h
  case decrement key delta ttl =>
    split_ifs at h
    cases h
    rfl

/-- A call that reports success has decided to store a value, and has stored it. -/
theorem AtomicOp.exec_of_success {op : AtomicOp} {env : Env} {m : CacheManager} {store : Store}
    (hm : m.cache = some store) (h : (op.exec env m).1.success = true) :
    ∃ value ttl creation finish,
      op.decision env.now (store.find env.now op.key) = .store value ttl creation finish ∧
      op.exec env m = (finish true, { m with
        setCount := m.setCount + 1
        cache := some (store.insertOrReplace op.key (stamp env.now value ttl creation)) }) := by
  have hhonest := op.decision_honest env.now (store.find env.now op.key)
  obtain ⟨r, href, he⟩ | ⟨-, -, he⟩ | ⟨-, -, ⟨r, hd, he⟩ | ⟨a, hd, he⟩ |
    ⟨value, ttl, creation, finish, hd, ⟨-, he⟩ | ⟨-, he⟩⟩⟩ := op.exec_cases env hm
  · simp [he, refusal_success href] at h
  · simp [he, Reply.success] at h
  · rw [hd, Decision.Honest] at hhonest
    simp [he, hhonest] at h
  · simp [he, Reply.success] at h
  · exact ⟨value, ttl, creation, finish, hd, he⟩
  · rw [hd] at hhonest
    simp [he, hhonest.2] at h

/-- A call that does not report success leaves the table alone. -/
theorem AtomicOp.exec_of_not_success {op : AtomicOp} {env : Env} {m : CacheManager}
    (h : (op.exec env m).1.success = false) : (op.exec env m).2.cache = m.cache := by
  cases hm : m.cache with
  | none =>
    cases href : op.refusal with
    | some r => rw [exec_of_refusal href, hm]
    | none => simp [exec_eq_atomically href, CacheManager.atomically, hm]
  | some store =>
    have hhonest := op.decision_honest env.now (store.find env.now op.key)
    -- The one way through that writes is the one that reports success.
    obtain ⟨r, -, he⟩ | ⟨-, -, he⟩ | ⟨-, -, ⟨r, -, he⟩ | ⟨a, -, he⟩ |
      ⟨value, ttl, creation, finish, hd, ⟨-, he⟩ | ⟨-, he⟩⟩⟩ := op.exec_cases env hm
    · rw [he, hm]
    · rw [he, hm]
    · rw [he, hm]
    · rw [he, hm]
    · rw [hd] at hhonest
      simp [he, hhonest.1] at h
    · rw [he, hm]

/-- A read-modify-write call on a manager without a cache fails and does nothing. -/
theorem AtomicOp.exec_uninitialized (op : AtomicOp) (env : Env) {m : CacheManager}
    (hm : m.cache = none) : (op.exec env m).1.success = false ∧ (op.exec env m).2 = m := by
  cases href : op.refusal with
  | some r =>
    rw [exec_of_refusal href]
    exact ⟨refusal_success href, rfl⟩
  | none =>
    rw [exec_eq_atomically href, CacheManager.atomically, hm]
    cases op <;> exact ⟨rfl, rfl⟩

/-- A read-modify-write call that reports success changes no key but its own. -/
theorem AtomicOp.stored_of_success {op : AtomicOp} {env : Env} {m : CacheManager}
    (h : (op.exec env m).1.success = true) {k : Bytes} (hk : k ≠ op.key) :
    (op.exec env m).2.stored k = m.stored k := by
  cases hm : m.cache with
  | none =>
    have hfail := (op.exec_uninitialized env hm).1
    rw [h] at hfail
    cases hfail
  | some store =>
    obtain ⟨value, ttl, creation, finish, -, he⟩ := exec_of_success hm h
    simp only [he, CacheManager.stored, hm]
    exact Store.insertOrReplace_of_ne store _ hk

/-! ## The other calls -/

/-- `get` counts, and leaves the table alone. -/
theorem CacheManager.get_cache (env : Env) (m : CacheManager) (key : Bytes) :
    (m.get env key).2.cache = m.cache := by
  cases hm : m.cache with
  | none => simp [get, hm]
  | some store =>
    simp only [get, hm]
    -- Every exit changes only the counters.
    cases env.findThrows <;> cases store.find env.now key <;> cases env.copyThrows <;> rfl

/-- A `set` that fails leaves the table alone. -/
theorem CacheManager.set_of_false {env : Env} {m : CacheManager} {key value : Bytes} {ttl : UInt32}
    (h : (m.set env key value ttl).1 = false) : (m.set env key value ttl).2.cache = m.cache := by
  cases hm : m.cache with
  | none => simp [set, setWithCreationTime, hm]
  | some store =>
    rw [set, setWithCreationTime_eq env hm] at h ⊢
    split_ifs at h ⊢
    exact hm

/-- A `set` that goes through puts the stamped value under its key. -/
theorem CacheManager.set_of_true {env : Env} {m : CacheManager} {key value : Bytes} {ttl : UInt32}
    (h : (m.set env key value ttl).1 = true) :
    ∃ store, m.cache = some store ∧ (m.set env key value ttl).2.cache =
      some (store.insertOrReplace key (stamp env.now value ttl 0)) := by
  cases hm : m.cache with
  | none => simp [set, setWithCreationTime, hm] at h
  | some store =>
    rw [set, setWithCreationTime_eq env hm] at h ⊢
    split_ifs at h ⊢
    exact ⟨store, rfl, rfl⟩

/-- A `set` leaves the items under other keys alone. -/
theorem CacheManager.stored_set_of_ne (env : Env) (m : CacheManager) {key k : Bytes} (h : k ≠ key)
    (value : Bytes) (ttl : UInt32) : (m.set env key value ttl).2.stored k = m.stored k := by
  cases hs : (m.set env key value ttl).1 with
  | true =>
    obtain ⟨store, hm, hcache⟩ := set_of_true hs
    simp only [stored, hcache, hm]
    exact Store.insertOrReplace_of_ne store _ h
  | false => rw [stored, set_of_false hs, stored]

/-- A removed key that was not there leaves the table as it was. -/
theorem Store.remove_of_none {store : Store} {key : Bytes} (h : store key = none) :
    store.remove key = store := by
  unfold Store.remove
  rw [← h]
  exact Function.update_eq_self key store

/-- A `remove` that finds nothing, or fails, leaves the table alone. -/
theorem CacheManager.remove_of_false {env : Env} {m : CacheManager} {key : Bytes}
    (h : (m.remove env key).1 = false) : (m.remove env key).2.cache = m.cache := by
  cases hm : m.cache with
  | none => simp [remove, hm]
  | some store =>
    simp only [remove, hm, Store.removeKey] at h ⊢
    cases hthrows : env.removeThrows with
    | true => rfl
    | false =>
      simp only [hthrows, Bool.false_eq_true, if_false, Option.isSome_eq_false_iff,
        Option.isNone_iff_eq_none] at h ⊢
      rw [Store.remove_of_none h]

/-- A `remove` leaves the items under other keys alone. -/
theorem CacheManager.stored_remove_of_ne (env : Env) (m : CacheManager) {key k : Bytes}
    (h : k ≠ key) : (m.remove env key).2.stored k = m.stored k := by
  cases hm : m.cache with
  | none => simp [remove, stored, hm]
  | some store =>
    simp only [remove, stored, hm, Store.removeKey]
    split_ifs
    · rfl
    · exact Store.remove_of_ne store h

/-! ## All calls -/

/-- For every state of the cache, every environment, and every call: when the call does not report
success, the value, creation time, and expiry under every key are as they were; when it does, they
are as they were under every key but its own. -/
theorem exec_frame (env : Env) (m : CacheManager) (op : Op) :
    ((op.exec env m).1.success = false → (op.exec env m).2.cache = m.cache) ∧
      ((op.exec env m).1.success = true →
        ∀ k, k ≠ op.key → (op.exec env m).2.stored k = m.stored k) := by
  cases op with
  | get key =>
    have hcache := m.get_cache env key
    refine ⟨fun _ => hcache, fun _ k _ => ?_⟩
    simp only [Op.exec, Prod.map, id, CacheManager.stored, hcache]
  | «exists» key => exact ⟨fun _ => rfl, fun _ _ _ => rfl⟩
  | getTTL key => exact ⟨fun _ => rfl, fun _ _ _ => rfl⟩
  | set key value ttl =>
    exact ⟨CacheManager.set_of_false, fun _ k hk => m.stored_set_of_ne env hk value ttl⟩
  | remove key =>
    exact ⟨CacheManager.remove_of_false, fun _ k hk => m.stored_remove_of_ne env hk⟩
  | atomic op =>
    exact ⟨AtomicOp.exec_of_not_success, fun hs k hk => AtomicOp.stored_of_success hs hk⟩

end CacheServer
