import CacheServer.Manager.Calls
import CacheServer.Service.Handlers

/-!
# Refused conditional writes

`SetNX` and `CompareAndSwap` answer with a refusal when their condition does not hold, and with the
same refusal when the condition holds and the store of the value fails. A client cannot tell the two
apart: a `SetNX` that could not store its value says that the key already exists, and a
`CompareAndSwap` that could not returns the expected value as the one that did not match.
`conditional_writes_honest_iff` says when a refusal is always for the condition.
-/

namespace CacheServer.Service

/-- Whenever `SetNX` answers: it refuses, and says that the key already exists, exactly when the key
is live, and then it returns the stored value. -/
def SetNXHonest (env : Env) (m : CacheManager) (request : SetRequest) : Prop :=
  ∀ status response, (setNX env m request).1 = .ok (status, response) →
    (response.wasSet = false ↔ (m.found env.now request.key).isSome = true) ∧
    (response.wasSet = false → response.message = "Key already exists") ∧
    ∀ item, m.found env.now request.key = some item → response.existingValue = item.value

/-- Whenever `CompareAndSwap` answers: it refuses, and says that the value does not match or the key
is not found, exactly when there is no live item with the expected value, and the value that it
then returns for a live item is not the expected one. -/
def CompareAndSwapHonest (env : Env) (m : CacheManager) (request : CompareAndSwapRequest) : Prop :=
  ∀ status response, (compareAndSwap env m request).1 = .ok (status, response) →
    (response.success = false ↔
      ∀ item, m.found env.now request.key = some item → item.value ≠ request.expectedValue) ∧
    (response.success = false → response.message = "Value mismatch or key not found") ∧
    (response.success = false → (m.found env.now request.key).isSome = true →
      response.actualValue ≠ request.expectedValue)

section

variable {env : Env} {m : CacheManager} {store : Store}

/-- The answer of `SetNX` after its lookup. -/
theorem setNX_answer (hm : m.cache = some store) (hfind : env.findThrows = false)
    {request : SetRequest} (hkey : request.key.isEmpty = false) :
    (setNX env m request).1 = .ok (.OK,
      match store.find env.now request.key with
      | some existing =>
        { wasSet := false, message := "Key already exists", existingValue := existing.value }
      | none =>
        if env.accepts m.maxItemSize request.key request.value then
          { wasSet := true, message := "Key set successfully" }
        else { wasSet := false, message := "Key already exists" }) := by
  have hready : m.isReady = true := by simp [CacheManager.isReady, hm]
  rw [setNX, keyed_of_not_isEmpty hready hkey]
  simp only [respond, CacheManager.setNX, CacheManager.atomically, hm, hfind, Bool.false_eq_true,
    if_false]
  cases store.find env.now request.key with
  | some existing => rfl
  | none =>
    simp only [setNXDecision, CacheManager.setWithCreationTime_eq env hm]
    cases env.accepts m.maxItemSize request.key request.value <;> rfl

/-- The answer of `CompareAndSwap` after its lookup. -/
theorem compareAndSwap_answer (hm : m.cache = some store) (hfind : env.findThrows = false)
    {request : CompareAndSwapRequest} (hkey : request.key.isEmpty = false) :
    (compareAndSwap env m request).1 = .ok (.OK,
      match store.find env.now request.key with
      | none => { success := false, message := "Value mismatch or key not found" }
      | some existing =>
        if existing.value = request.expectedValue ∧
            env.accepts m.maxItemSize request.key request.newValue then
          { success := true, actualValue := request.newValue,
            message := "Value swapped successfully" }
        else
          { success := false, actualValue := existing.value,
            message := "Value mismatch or key not found" }) := by
  have hready : m.isReady = true := by simp [CacheManager.isReady, hm]
  rw [compareAndSwap, keyed_of_not_isEmpty hready hkey]
  simp only [respond, CacheManager.compareAndSwap, CacheManager.atomically, hm, hfind,
    Bool.false_eq_true, if_false]
  cases store.find env.now request.key with
  | none => rfl
  | some existing =>
    simp only [compareAndSwapDecision, ne_eq, ite_not]
    -- Only where the values match is the new one stored, and only then can the store fail.
    by_cases hvalue : existing.value = request.expectedValue
    · simp only [hvalue, if_true, CacheManager.setWithCreationTime_eq env hm, true_and]
      cases env.accepts m.maxItemSize request.key request.newValue <;> rfl
    · simp only [hvalue, if_false, false_and]
      rfl

/-- A lookup that throws leaves `SetNX` without an answer. -/
theorem setNX_of_findThrows (hm : m.cache = some store) (hfind : env.findThrows = true)
    {request : SetRequest} (hkey : request.key.isEmpty = false) :
    (setNX env m request).1 = .error .exception := by
  have hready : m.isReady = true := by simp [CacheManager.isReady, hm]
  rw [setNX, keyed_of_not_isEmpty hready hkey]
  simp [respond, CacheManager.setNX, CacheManager.atomically, hm, hfind, Except.map]

/-- A lookup that throws leaves `CompareAndSwap` without an answer. -/
theorem compareAndSwap_of_findThrows (hm : m.cache = some store) (hfind : env.findThrows = true)
    {request : CompareAndSwapRequest} (hkey : request.key.isEmpty = false) :
    (compareAndSwap env m request).1 = .error .exception := by
  have hready : m.isReady = true := by simp [CacheManager.isReady, hm]
  rw [compareAndSwap, keyed_of_not_isEmpty hready hkey]
  simp [respond, CacheManager.compareAndSwap, CacheManager.atomically, hm, hfind, Except.map]

/-- `SetNX` is honest exactly when it does not have to store, or can. -/
theorem setNXHonest_iff (hready : m.isReady = true) {request : SetRequest}
    (hkey : request.key ≠ []) :
    SetNXHonest env m request ↔
      env.findThrows = true ∨ (m.found env.now request.key).isSome = true ∨
        env.accepts m.maxItemSize request.key request.value = true := by
  obtain ⟨store, hm⟩ := Option.isSome_iff_exists.mp hready
  have hkey : request.key.isEmpty = false := by simpa using hkey
  have hfound : m.found env.now request.key = store.find env.now request.key := by
    simp [CacheManager.found, hm]
  rw [SetNXHonest, hfound]
  cases hfind : env.findThrows with
  -- Without an answer, nothing untrue is said.
  | true => simp [setNX_of_findThrows hm hfind hkey]
  | false =>
    simp only [setNX_answer hm hfind hkey, Except.ok.injEq, Prod.mk.injEq, and_imp]
    cases store.find env.now request.key with
    -- The key is there, as the answer says.
    | some existing => simp
    -- The key is not there, so a store that fails is answered with what is not so.
    | none => cases env.accepts m.maxItemSize request.key request.value <;> simp

/-- `CompareAndSwap` is honest exactly when it does not have to store, or can. -/
theorem compareAndSwapHonest_iff (hready : m.isReady = true) {request : CompareAndSwapRequest}
    (hkey : request.key ≠ []) :
    CompareAndSwapHonest env m request ↔
      env.findThrows = true ∨
        (∀ item, m.found env.now request.key = some item → item.value ≠ request.expectedValue) ∨
        env.accepts m.maxItemSize request.key request.newValue = true := by
  obtain ⟨store, hm⟩ := Option.isSome_iff_exists.mp hready
  have hkey : request.key.isEmpty = false := by simpa using hkey
  have hfound : m.found env.now request.key = store.find env.now request.key := by
    simp [CacheManager.found, hm]
  rw [CompareAndSwapHonest, hfound]
  cases hfind : env.findThrows with
  | true => simp [compareAndSwap_of_findThrows hm hfind hkey]
  | false =>
    simp only [compareAndSwap_answer hm hfind hkey, Except.ok.injEq, Prod.mk.injEq, and_imp]
    cases store.find env.now request.key with
    | none => simp
    | some existing =>
      -- A value that does not match is refused with a true answer. One that does must be stored.
      by_cases hvalue : existing.value = request.expectedValue
      · cases env.accepts m.maxItemSize request.key request.newValue <;> simp [hvalue]
      · simp [hvalue]

end

/-- For every state with a cache, every environment, and every request with a key: the refusals of
`SetNX` are for its condition exactly when the lookup throws, so that there is no answer, or the key
is live, or the store of the value is accepted; and those of `CompareAndSwap` exactly when the
lookup throws, or no live item has the expected value, or the store of the new value is accepted. A
store is accepted when the value is within the size limit, the key has at most 255 bytes, and
CacheLib neither fails to allocate nor throws. -/
theorem conditional_writes_honest_iff (env : Env) {m : CacheManager} (hready : m.isReady = true)
    {setNXRequest : SetRequest} (hsetNX : setNXRequest.key ≠ [])
    {casRequest : CompareAndSwapRequest} (hcas : casRequest.key ≠ []) :
    (SetNXHonest env m setNXRequest ↔
      env.findThrows = true ∨ (m.found env.now setNXRequest.key).isSome = true ∨
        env.accepts m.maxItemSize setNXRequest.key setNXRequest.value = true) ∧
    (CompareAndSwapHonest env m casRequest ↔
      env.findThrows = true ∨
        (∀ item, m.found env.now casRequest.key = some item →
          item.value ≠ casRequest.expectedValue) ∨
        env.accepts m.maxItemSize casRequest.key casRequest.newValue = true) :=
  ⟨setNXHonest_iff hready hsetNX, compareAndSwapHonest_iff hready hcas⟩

/-- A cache with room for values of two bytes, where the key `k` holds `a`. -/
def smallCache : CacheManager where
  maxItemSize := 2
  cache := some fun key => if key = [107] then some ⟨[97], 5, 0⟩ else none

/-- On the small cache, a `SetNX` of a present key and a `CompareAndSwap` of a small value. -/
theorem conditional_writes_honest_iff_small :
    (SetNXHonest { now := 5 } smallCache { key := [107], value := [98, 98, 98] } ↔
      false = true ∨ (smallCache.found 5 [107]).isSome = true ∨
        Env.accepts { now := 5 } 2 [107] [98, 98, 98] = true) ∧
    (CompareAndSwapHonest { now := 5 } smallCache
        { key := [107], expectedValue := [97], newValue := [98] } ↔
      false = true ∨ (∀ item, smallCache.found 5 [107] = some item → item.value ≠ [97]) ∨
        Env.accepts { now := 5 } 2 [107] [98] = true) :=
  conditional_writes_honest_iff { now := 5 } rfl (by decide) (by decide)

/-- On the small cache, a `SetNX` of an absent key with a value of three bytes says that the key
already exists, and a `CompareAndSwap` of the present value for one of three bytes says that the
present value does not match. -/
theorem conditional_writes_dishonest :
    smallCache.found 5 [106] = none ∧
      (setNX { now := 5 } smallCache { key := [106], value := [98, 98, 98] }).1 =
        .ok (.OK, { wasSet := false, message := "Key already exists" }) ∧
      ¬ SetNXHonest { now := 5 } smallCache { key := [106], value := [98, 98, 98] } ∧
      (compareAndSwap { now := 5 } smallCache
          { key := [107], expectedValue := [97], newValue := [98, 98, 98] }).1 =
        .ok (.OK,
          { success := false, actualValue := [97], message := "Value mismatch or key not found" }) ∧
      ¬ CompareAndSwapHonest { now := 5 } smallCache
        { key := [107], expectedValue := [97], newValue := [98, 98, 98] } := by
  refine ⟨by decide, rfl, ?_, rfl, ?_⟩
  · intro h
    exact absurd ((h _ _ rfl).1.mp rfl) (by decide)
  · intro h
    exact absurd rfl ((h _ _ rfl).2.2 rfl (by decide))

end CacheServer.Service
