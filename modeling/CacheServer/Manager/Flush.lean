import CacheServer.Manager.Refinement
import Mathlib.Data.Finset.Card
import Mathlib.Tactic.Linarith

/-!
# Flushing while others write

`CacheManager::flush` walks CacheLib's iterator and removes each key that it visits, without
`atomicOpMutex_`, so that calls of other clients and evictions come in between its visits. The
visits are CacheLib's choice. All that is assumed of them is what CacheLib promises of its iterator:
an item that is in the table from the first visit to the last, and that nobody touches, is visited.

`flush_exact` says what a flush achieves in spite of that. Every key that nobody writes in the
meantime is gone, and the number that is returned accounts for every item: what there was, what the
others added or took away, and what is left.
-/

namespace CacheServer

/-- What happens during a flush: the iterator visits a key, whose removal may throw, or something
else happens to the cache. -/
inductive FlushStep
  | visit (key : Bytes) (removeThrows : Bool)
  | other (e : Event)
deriving DecidableEq, Repr

/-- The loop of `flush`. CacheLib's `remove` is called directly, and is not counted in
`deleteCount_`. Nothing catches an exception of it. -/
def CacheManager.flushLoop (removedCount : ℕ) (m : CacheManager) :
    List FlushStep → Except Abort ℕ × CacheManager
  | [] => (.ok removedCount, m)
  | .other e :: steps => flushLoop removedCount (e.exec m).2 steps
  | .visit key removeThrows :: steps =>
    if removeThrows then (.error .exception, m)
    else
      let removedCount := if (m.stored key).isSome then removedCount + 1 else removedCount
      flushLoop removedCount { m with cache := m.cache.map (·.remove key) } steps

/-- `flush`. -/
def CacheManager.flush (m : CacheManager) (steps : List FlushStep) :
    Except Abort ℕ × CacheManager :=
  match m.cache with
  | none => (.ok 0, m)
  | some _ => m.flushLoop 0 steps

/-- The event does not write the key. It may evict it. -/
def Event.Spares (key : Bytes) : Event → Prop
  | .call _ op => op.Spares key
  | .evict _ => True

/-- No step of another client writes the key. -/
def Unwritten (key : Bytes) (steps : List FlushStep) : Prop :=
  ∀ e, .other e ∈ steps → e.Spares key

/-- The iterator visits every key that is there, unless it is written or evicted in the meantime. -/
def Covers (m : CacheManager) (steps : List FlushStep) : Prop :=
  ∀ key, (m.stored key).isSome = true → Unwritten key steps → .other (.evict key) ∉ steps →
    ∃ removeThrows, .visit key removeThrows ∈ steps

/-- The number of the keys that there are items under. -/
def CacheManager.population (keys : Finset Bytes) (m : CacheManager) : ℕ :=
  (keys.filter fun key => (m.stored key).isSome).card

/-- By how much the others change the population, from step to step. -/
def othersAdd (keys : Finset Bytes) (m : CacheManager) : List FlushStep → ℤ
  | [] => 0
  | .other e :: steps =>
    ((e.exec m).2.population keys - m.population keys) + othersAdd keys (e.exec m).2 steps
  | .visit key _ :: steps => othersAdd keys { m with cache := m.cache.map (·.remove key) } steps

/-! ## The items under one key -/

/-- The key that is removed is not there any more. -/
theorem CacheManager.stored_remove_same (m : CacheManager) (key : Bytes) :
    CacheManager.stored { m with cache := m.cache.map (·.remove key) } key = none := by
  cases hm : m.cache <;> simp [stored]

/-- The other keys are as they were. -/
theorem CacheManager.stored_evict_of_ne (m : CacheManager) {key k : Bytes} (h : k ≠ key) :
    CacheManager.stored { m with cache := m.cache.map (·.remove key) } k = m.stored k := by
  cases hm : m.cache <;> simp [stored, hm, h]

/-- A call that spares a key leaves the item under it alone. -/
theorem Op.stored_exec_of_spares {op : Op} {key : Bytes} (h : op.Spares key) (env : Env)
    (m : CacheManager) : (op.exec env m).2.stored key = m.stored key := by
  cases op with
  | get k => simp [exec, CacheManager.stored, CacheManager.get_cache]
  | «exists» k => rfl
  | getTTL k => rfl
  | set k value ttl => exact m.stored_set_of_ne env (Ne.symm h) value ttl
  | remove k => exact m.stored_remove_of_ne env (Ne.symm h)
  | atomic op =>
    -- Without success nothing is written, and with it only the key of the call.
    cases hs : (op.exec env m).1.success with
    | false => simp only [exec, CacheManager.stored, AtomicOp.exec_of_not_success hs]
    | true => exact AtomicOp.stored_of_success hs (Ne.symm h)

/-- An event that spares a key that is not there does not bring it back. -/
theorem Event.stored_exec_of_spares {e : Event} {key : Bytes} (h : e.Spares key) {m : CacheManager}
    (habsent : m.stored key = none) : (e.exec m).2.stored key = none := by
  cases e with
  | call env op => exact (Op.stored_exec_of_spares h env m).trans habsent
  | evict k =>
    -- An eviction of the key itself leaves it absent, and one of another key leaves it alone.
    by_cases hk : key = k
    · subst hk
      exact m.stored_remove_same key
    · exact (m.stored_evict_of_ne hk).trans habsent

/-- A flush does not bring back a key that nobody writes. -/
theorem CacheManager.flushLoop_absent {key : Bytes} {steps : List FlushStep}
    (hunwritten : Unwritten key steps) {m : CacheManager} (habsent : m.stored key = none)
    (removedCount : ℕ) : (m.flushLoop removedCount steps).2.stored key = none := by
  induction steps generalizing m removedCount with
  | nil => exact habsent
  | cons s steps ih =>
    have hrest : Unwritten key steps := fun e he => hunwritten e (List.mem_cons_of_mem s he)
    cases s with
    | other e =>
      exact ih hrest (Event.stored_exec_of_spares (hunwritten e (by simp)) habsent) _
    | visit k removeThrows =>
      simp only [flushLoop]
      split_ifs
      · exact habsent
      -- A visit removes its own key and no other.
      all_goals
        refine ih hrest ?_ _
        by_cases hk : key = k
        · subst hk
          exact m.stored_remove_same key
        · exact (m.stored_evict_of_ne hk).trans habsent

/-- A key that nobody writes is gone when it is visited or evicted. -/
theorem CacheManager.flushLoop_gone {key : Bytes} {steps : List FlushStep}
    (hunwritten : Unwritten key steps) {m : CacheManager} {removedCount removed : ℕ}
    (hok : (m.flushLoop removedCount steps).1 = .ok removed)
    (h : (∃ removeThrows, .visit key removeThrows ∈ steps) ∨ .other (.evict key) ∈ steps) :
    (m.flushLoop removedCount steps).2.stored key = none := by
  induction steps generalizing m removedCount with
  | nil => simp at h
  | cons s steps ih =>
    have hrest : Unwritten key steps := fun e he => hunwritten e (List.mem_cons_of_mem s he)
    cases s with
    | other e =>
      -- From the eviction on the key is absent. Any other event is not what the key waits for.
      by_cases he : e = .evict key
      · subst he
        exact flushLoop_absent hrest (m.stored_remove_same key) _
      · refine ih hrest hok (h.imp ?_ ?_)
        · rintro ⟨removeThrows, hmem⟩
          exact ⟨removeThrows, by simpa using hmem⟩
        · intro hmem
          simpa [Ne.symm he] using hmem
    | visit k removeThrows =>
      simp only [flushLoop] at hok ⊢
      cases removeThrows with
      -- A removal that throws ends the flush with an error.
      | true => cases hok
      | false =>
        simp only [Bool.false_eq_true, if_false] at hok ⊢
        by_cases hk : k = key
        · subst hk
          exact flushLoop_absent hrest (m.stored_remove_same k) _
        · refine ih hrest hok (h.imp ?_ ?_)
          · rintro ⟨removeThrows, hmem⟩
            exact ⟨removeThrows, by simpa [Ne.symm hk] using hmem⟩
          · intro hmem
            simpa using hmem

/-! ## The number of items -/

/-- The removal of a key takes one from the population when it was there. -/
theorem CacheManager.population_remove {keys : Finset Bytes} {key : Bytes} (hkey : key ∈ keys)
    (m : CacheManager) :
    CacheManager.population keys { m with cache := m.cache.map (·.remove key) } +
      (if (m.stored key).isSome then 1 else 0) = m.population keys := by
  -- What is left is what there was, without this key.
  have herase : (keys.filter fun k =>
      (CacheManager.stored { m with cache := m.cache.map (·.remove key) } k).isSome) =
        (keys.filter fun k => (m.stored k).isSome).erase key := by
    ext k
    simp only [Finset.mem_filter, Finset.mem_erase]
    by_cases hk : k = key
    · subst hk
      simp [m.stored_remove_same k]
    · simp [m.stored_evict_of_ne hk, hk]
  simp only [population, herase]
  split_ifs with hstored
  · exact Finset.card_erase_add_one (Finset.mem_filter.mpr ⟨hkey, hstored⟩)
  · have hnot : key ∉ keys.filter fun k => (m.stored k).isSome :=
      fun hmem => hstored (Finset.mem_filter.mp hmem).2
    rw [Finset.erase_eq_of_notMem hnot, Nat.add_zero]

/-- A flush that returns has counted the items that it has removed. -/
theorem CacheManager.flushLoop_accounts {keys : Finset Bytes} {steps : List FlushStep}
    (hkeys : ∀ key removeThrows, .visit key removeThrows ∈ steps → key ∈ keys) {m : CacheManager}
    {removedCount removed : ℕ} (hok : (m.flushLoop removedCount steps).1 = .ok removed) :
    (removed : ℤ) + (m.flushLoop removedCount steps).2.population keys =
      removedCount + m.population keys + othersAdd keys m steps := by
  induction steps generalizing m removedCount with
  | nil =>
    cases hok
    simp [flushLoop, othersAdd]
  | cons s steps ih =>
    have hrest : ∀ key removeThrows, .visit key removeThrows ∈ steps → key ∈ keys :=
      fun key removeThrows h => hkeys key removeThrows (List.mem_cons_of_mem s h)
    cases s with
    | other e =>
      -- What the others add is on the right, by its definition.
      have hnext := ih hrest hok
      simp only [flushLoop, othersAdd] at hnext ⊢
      linarith
    | visit key removeThrows =>
      -- A visit moves one item from those that are left to those that are counted.
      have hone := population_remove (hkeys key removeThrows (by simp)) m
      simp only [flushLoop, othersAdd] at hok ⊢
      cases removeThrows with
      | true => cases hok
      | false =>
        simp only [Bool.false_eq_true, if_false] at hok ⊢
        have hnext := ih hrest hok
        split_ifs at hone hnext ⊢ <;> push_cast at hnext <;> zify at hone <;> linarith

/-- Only visits happen when nobody else is there. -/
theorem CacheManager.flushLoop_alone {steps : List FlushStep}
    (halone : ∀ s ∈ steps, ∃ key, s = .visit key false) (m : CacheManager) (removedCount : ℕ) :
    ∃ removed cache, m.flushLoop removedCount steps = (.ok removed, { m with cache }) ∧
      cache.isSome = m.cache.isSome := by
  induction steps generalizing m removedCount with
  | nil => exact ⟨removedCount, m.cache, rfl, rfl⟩
  | cons s steps ih =>
    obtain ⟨key, rfl⟩ := halone s (by simp)
    obtain ⟨removed, cache, hloop, hsome⟩ := ih (fun s' hs => halone s' (List.mem_cons_of_mem _ hs))
      { m with cache := m.cache.map (·.remove key) }
      (if (m.stored key).isSome then removedCount + 1 else removedCount)
    exact ⟨removed, cache, hloop, by simpa using hsome⟩

/-- Nobody adds anything then. -/
theorem othersAdd_alone (keys : Finset Bytes) {steps : List FlushStep}
    (halone : ∀ s ∈ steps, ∃ key, s = .visit key false) (m : CacheManager) :
    othersAdd keys m steps = 0 := by
  induction steps generalizing m with
  | nil => rfl
  | cons s steps ih =>
    obtain ⟨key, rfl⟩ := halone s (by simp)
    exact ih (fun s' hs => halone s' (List.mem_cons_of_mem _ hs)) _

/-! ## Flushes -/

/-- Whatever other clients call, and whatever CacheLib evicts, while a flush walks over the cache:
when it returns, every key that nobody has written in the meantime is gone, and the number of items
that it reports removed, together with those that are left, is the number that there were and those
that the others have added. When it is alone, it leaves an empty table, reports the number of items
that there were, and touches nothing else. -/
theorem flush_exact {m : CacheManager} {steps : List FlushStep} (hready : m.isReady = true)
    (hcovers : Covers m steps) {keys : Finset Bytes}
    (hkeys : ∀ key removeThrows, .visit key removeThrows ∈ steps → key ∈ keys) :
    (∀ removed, (m.flush steps).1 = .ok removed →
      (∀ key, Unwritten key steps → (m.flush steps).2.stored key = none) ∧
      (removed : ℤ) + (m.flush steps).2.population keys =
        m.population keys + othersAdd keys m steps) ∧
    ((∀ s ∈ steps, ∃ key, s = .visit key false) →
      m.flush steps = (.ok (m.population keys), { m with cache := some fun _ => none })) := by
  obtain ⟨store, hm⟩ := Option.isSome_iff_exists.mp hready
  have hflush : m.flush steps = m.flushLoop 0 steps := by simp [CacheManager.flush, hm]
  rw [hflush]
  have hgone : ∀ removed, (m.flushLoop 0 steps).1 = .ok removed →
      ∀ key, Unwritten key steps → (m.flushLoop 0 steps).2.stored key = none := by
    intro removed hok key hunwritten
    cases hstored : (m.stored key).isSome with
    | false =>
      rw [Option.isSome_eq_false_iff, Option.isNone_iff_eq_none] at hstored
      exact CacheManager.flushLoop_absent hunwritten hstored 0
    | true =>
      refine CacheManager.flushLoop_gone hunwritten hok ?_
      -- A key that was there is visited, unless it is evicted first.
      by_cases hevict : .other (.evict key) ∈ steps
      · exact .inr hevict
      · exact .inl (hcovers key hstored hunwritten hevict)
  refine ⟨fun removed hok => ⟨hgone removed hok, ?_⟩, fun halone => ?_⟩
  · simpa using CacheManager.flushLoop_accounts hkeys hok
  · obtain ⟨removed, cache, hloop, hsome⟩ := m.flushLoop_alone halone 0
    rw [hm] at hsome
    obtain ⟨store', rfl⟩ := Option.isSome_iff_exists.mp hsome
    have hunwritten : ∀ key, Unwritten key steps := by
      intro key e he
      obtain ⟨k, hk⟩ := halone _ he
      cases hk
    -- Nothing is left, so all that there was has been counted.
    have hempty : store' = fun _ => none := by
      funext key
      have hnone := hgone removed (by rw [hloop]) key (hunwritten key)
      simpa [hloop, CacheManager.stored] using hnone
    subst hempty
    have hok : (m.flushLoop 0 steps).1 = .ok removed := by rw [hloop]
    have hcount := CacheManager.flushLoop_accounts hkeys hok
    rw [hloop, othersAdd_alone keys halone] at hcount
    have hzero : CacheManager.population keys { m with cache := some fun _ => none } = 0 := by
      simp [CacheManager.population, CacheManager.stored]
    rw [hloop, show removed = m.population keys by simp only [hzero] at hcount; omega]

/-- A cache with the keys `a` and `b`. -/
def twoKeys : CacheManager where
  maxItemSize := 9
  cache := some fun key =>
    if key = [97] ∨ key = [98] then some { value := [49], creationTime := 5, expiryTime := 0 }
    else none

/-- While the iterator goes from the key `a` to `b`, another client adds `c`, and CacheLib evicts
`b`. -/
def flushed : List FlushStep :=
  [.visit [97] false, .other (.call { now := 9 } (.set [99] [49] 0)), .other (.evict [98]),
    .visit [98] false]

/-- The flush reports one item removed, and `a` and `b` are gone. -/
theorem flush_exact_flushed :
    (twoKeys.flush flushed).1 = .ok 1 ∧ (twoKeys.flush flushed).2.stored [98] = none := by
  have hok : (twoKeys.flush flushed).1 = .ok 1 := by decide +kernel
  refine ⟨hok, ((@flush_exact _ flushed rfl ?_ {[97], [98]} ?_).1 1 hok).1 [98] ?_⟩
  · intro key hkey _ _
    simp only [twoKeys, CacheManager.stored, Option.bind_some, Option.isSome_ite] at hkey
    exact ⟨false, by rcases hkey with rfl | rfl <;> simp [flushed]⟩
  · intro key removeThrows hmem
    simp only [flushed, List.mem_cons, FlushStep.visit.injEq, reduceCtorEq, false_or,
      List.not_mem_nil, or_false] at hmem
    rcases hmem with ⟨rfl, -⟩ | ⟨rfl, -⟩ <;> decide
  · intro e he
    simp only [flushed, List.mem_cons, FlushStep.other.injEq, reduceCtorEq, false_or,
      List.not_mem_nil, or_false] at he
    rcases he with rfl | rfl
    · exact show ([99] : Bytes) ≠ [98] by decide
    · trivial

end CacheServer
