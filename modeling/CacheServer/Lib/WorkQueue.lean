import Mathlib.Algebra.BigOperators.Fin
import Mathlib.Algebra.BigOperators.Group.Finset.Piecewise
import Mathlib.Algebra.Order.Group.Multiset
import Mathlib.Data.Fintype.Basic
import Mathlib.Tactic.Abel

/-!
# A queue and its workers

Jobs arrive one after another. A job that arrives is put at the end of a queue, or dropped. Workers
take jobs from the head of the queue, hold one each, and finish it.

`Pool` is the history of this: which jobs have arrived, have been dropped, wait, have been taken and
when, are held, and are finished. `Pool.Accounted` says that no job is lost, that none is there
twice, and that they are taken in the order of their arrival. Every operation keeps it.
-/

namespace CacheServer.WorkQueue

variable {ι α τ : Type}

/-- The jobs of a queue and where they are. Workers are of type `ι`, jobs of type `α`, and the times
at which they are taken of type `τ`. -/
structure Pool (ι α τ : Type) where
  /-- The jobs that have arrived, in order. -/
  arrived : List α := []
  /-- Those that were dropped. -/
  dropped : List α := []
  /-- Those that wait, in order. -/
  waiting : List α := []
  /-- The jobs that have been taken, in their order and with the time. -/
  taken : List (α × τ) := []
  /-- What each worker is at. -/
  busy : ι → Option (α × τ) := fun _ => none
  /-- What has been finished, in order. -/
  finished : List (α × τ) := []

/-- A job arrives and waits. -/
def Pool.accept (p : Pool ι α τ) (a : α) : Pool ι α τ :=
  { p with arrived := p.arrived ++ [a], waiting := p.waiting ++ [a] }

/-- A job arrives and is dropped. -/
def Pool.drop (p : Pool ι α τ) (a : α) : Pool ι α τ :=
  { p with arrived := p.arrived ++ [a], dropped := p.dropped ++ [a] }

section Workers

variable [DecidableEq ι]

/-- A worker takes the first job, and leaves the others. -/
def Pool.take (p : Pool ι α τ) (i : ι) (now : τ) (a : α) (rest : List α) : Pool ι α τ :=
  { p with
    waiting := rest
    taken := p.taken ++ [(a, now)]
    busy := Function.update p.busy i (some (a, now)) }

/-- A worker finishes its job. -/
def Pool.finish (p : Pool ι α τ) (i : ι) (x : α × τ) : Pool ι α τ :=
  { p with
    busy := Function.update p.busy i none
    finished := p.finished ++ [x] }

end Workers

/-! ## What the workers have -/

section Gathered

variable {β : Type} [Fintype ι]

/-- What all workers together have, when each has a list. -/
def gathered (f : ι → List β) : Multiset β := ∑ i, (f i : Multiset β)

/-- The jobs that the workers hold. -/
def held (busy : ι → Option (α × τ)) : Multiset (α × τ) := gathered fun i => (busy i).toList

/-- When no worker is busy, nothing is held. -/
theorem held_eq_zero {busy : ι → Option (α × τ)} (h : ∀ i, busy i = none) : held busy = 0 := by
  simp [held, gathered, h]

/-- Workers that are numbered have the lists one after the other. -/
theorem gathered_fin {n : ℕ} (f : Fin n → List β) :
    gathered f = ((List.ofFn f).flatten : Multiset β) := by
  rw [gathered, ← List.sum_ofFn, ← Multiset.coe_join, List.map_ofFn]
  rfl

variable [DecidableEq ι]

/-- A sum over the workers, when one of the terms is exchanged for something else. -/
theorem sum_update_add {M : Type} [AddCommMonoid M] (f : ι → M) (i : ι) (x : M) :
    ∑ j, Function.update f i x j + f i = ∑ j, f j + x := by
  -- The term is split off on both sides, and all the others are the same.
  have hbefore : ∑ j, f j = f i + ∑ j ∈ Finset.univ \ {i}, f j := by
    rw [← Finset.sum_sdiff (Finset.subset_univ {i}), Finset.sum_singleton, add_comm]
  rw [Finset.sum_update_of_mem (Finset.mem_univ i), hbefore]
  abel

/-- What one worker has is exchanged for something else. -/
theorem gathered_update (f : ι → List β) (i : ι) (x : List β) :
    gathered (Function.update f i x) + (f i : Multiset β) = gathered f + (x : Multiset β) := by
  have hupdate : (fun j => (Function.update f i x j : Multiset β)) =
      Function.update (fun j => (f j : Multiset β)) i (x : Multiset β) :=
    funext fun j => Function.apply_update (fun _ (l : List β) => (l : Multiset β)) f i x j
  unfold gathered
  rw [hupdate, sum_update_add]

/-- One worker gets one more. -/
theorem gathered_concat (f : ι → List β) (i : ι) (b : β) :
    gathered (Function.update f i (f i ++ [b])) = gathered f + {b} := by
  have hupdate := gathered_update f i (f i ++ [b])
  rw [← Multiset.coe_add, ← add_assoc, add_right_comm] at hupdate
  exact add_right_cancel hupdate

/-- What a worker holds is exchanged for something else. -/
theorem held_update (busy : ι → Option (α × τ)) (i : ι) (x : Option (α × τ)) :
    held (Function.update busy i x) + ((busy i).toList : Multiset (α × τ)) =
      held busy + (x.toList : Multiset (α × τ)) := by
  have hlists : (fun j => (Function.update busy i x j).toList) =
      Function.update (fun j => (busy j).toList) i x.toList :=
    funext fun j => Function.apply_update (fun _ => Option.toList) busy i x j
  unfold held
  rw [hlists, gathered_update]

end Gathered

/-! ## No job is lost -/

variable [Fintype ι]

/-- Every job that has arrived is dropped, waits, or has been taken, and every job that has been
taken is held or finished. Jobs were taken in the order of their arrival. -/
structure Pool.Accounted [LE τ] (now : τ) (p : Pool ι α τ) : Prop where
  /-- A job was dropped, has been taken, or waits. -/
  fate : p.arrived.Perm (p.dropped ++ (p.taken.map Prod.fst ++ p.waiting))
  /-- Jobs are taken in the order of their arrival. -/
  inOrder : (p.taken.map Prod.fst ++ p.waiting).Sublist p.arrived
  /-- They are taken one after another. -/
  sorted : (p.taken.map Prod.snd).Pairwise (· ≤ ·)
  /-- None is taken in the future. -/
  past : ∀ x ∈ p.taken, x.2 ≤ now
  /-- What has been taken is finished, or held by a worker. -/
  held : (p.taken : Multiset (α × τ)) = p.finished + held p.busy

/-- At the beginning there are no jobs. -/
theorem Pool.Accounted.init [LE τ] (now : τ) : ({} : Pool ι α τ).Accounted now where
  fate := .refl _
  inOrder := .refl _
  sorted := .nil
  past := by simp
  held := by simp [held_eq_zero]

/-- What has been done stays in the past. -/
theorem Pool.Accounted.later [Preorder τ] {now now' : τ} {p : Pool ι α τ} (h : p.Accounted now)
    (hle : now ≤ now') : p.Accounted now' :=
  { h with past := fun x hx => (h.past x hx).trans hle }

/-- A job that arrives and is accepted waits. -/
theorem Pool.Accounted.accept [LE τ] {now : τ} {p : Pool ι α τ} (h : p.Accounted now) (a : α) :
    (p.accept a).Accounted now where
  fate := by
    have := h.fate.append_right [a]
    simpa [Pool.accept] using this
  inOrder := by
    have := h.inOrder.append (List.Sublist.refl [a])
    simpa [Pool.accept] using this
  sorted := h.sorted
  past := h.past
  held := h.held

/-- A job that arrives and is dropped is counted. -/
theorem Pool.Accounted.drop [LE τ] {now : τ} {p : Pool ι α τ} (h : p.Accounted now) (a : α) :
    (p.drop a).Accounted now where
  fate := by
    -- The job is behind those that wait, and belongs with those that were dropped.
    have hmove : (p.dropped ++ (p.taken.map Prod.fst ++ p.waiting) ++ [a]).Perm
        (p.dropped ++ [a] ++ (p.taken.map Prod.fst ++ p.waiting)) := by
      rw [List.append_assoc p.dropped, List.append_assoc p.dropped]
      exact List.perm_append_comm.append_left p.dropped
    exact (h.fate.append_right [a]).trans hmove
  inOrder := h.inOrder.trans (List.sublist_append_left _ _)
  sorted := h.sorted
  past := h.past
  held := h.held

/-- A job that a worker holds has been taken. -/
theorem Pool.Accounted.mem_taken [LE τ] {now : τ} {p : Pool ι α τ} (h : p.Accounted now) {i : ι}
    {x : α × τ} (hbusy : p.busy i = some x) : x ∈ p.taken := by
  rw [← Multiset.mem_coe, h.held, Multiset.mem_add]
  -- It is not among the finished ones, though what is held has been taken too.
  refine .inr (Multiset.mem_sum.mpr ⟨i, Finset.mem_univ i, ?_⟩)
  simp [hbusy]

/-- When nothing waits and no worker holds a job, every job that has arrived is dropped or finished,
and is so once. -/
theorem Pool.Accounted.complete [LE τ] {now : τ} {p : Pool ι α τ} (h : p.Accounted now)
    (hwaiting : p.waiting = []) (hidle : ∀ i, p.busy i = none) :
    p.taken.Perm p.finished ∧ p.arrived.Perm (p.dropped ++ p.finished.map Prod.fst) := by
  have htaken : p.taken.Perm p.finished := by
    rw [← Multiset.coe_eq_coe, h.held, held_eq_zero hidle, add_zero]
  refine ⟨htaken, ?_⟩
  have hfate := h.fate
  rw [hwaiting, List.append_nil] at hfate
  exact hfate.trans ((htaken.map Prod.fst).append_left _)

variable [DecidableEq ι]

/-- The job that has waited longest is held by the worker that takes it. -/
theorem Pool.Accounted.take [Preorder τ] {now : τ} {p : Pool ι α τ} (h : p.Accounted now) {i : ι}
    (hidle : p.busy i = none) {a : α} {rest : List α} (hwaiting : p.waiting = a :: rest) :
    (p.take i now a rest).Accounted now where
  fate := by
    have := h.fate
    rw [hwaiting] at this
    simpa [Pool.take] using this
  inOrder := by
    have := h.inOrder
    rw [hwaiting] at this
    simpa [Pool.take] using this
  sorted := by
    simp only [Pool.take, List.map_append, List.map_cons, List.map_nil, List.pairwise_append]
    refine ⟨h.sorted, List.pairwise_singleton _ _, ?_⟩
    intro t ht t' ht'
    obtain ⟨x, hx, rfl⟩ := List.mem_map.mp ht
    obtain rfl := List.mem_singleton.mp ht'
    exact h.past x hx
  past := by
    intro x hx
    obtain hx | hx := List.mem_append.mp hx
    · exact h.past x hx
    · obtain rfl := List.mem_singleton.mp hx
      exact le_refl now
  held := by
    have hupdate := held_update p.busy i (some (a, now))
    rw [hidle] at hupdate
    simp only [Option.toList_none, Multiset.coe_nil, add_zero] at hupdate
    rw [Pool.take, ← Multiset.coe_add, h.held, hupdate, add_assoc]
    rfl

/-- The job that a worker holds is finished. -/
theorem Pool.Accounted.finish [LE τ] {now : τ} {p : Pool ι α τ} (h : p.Accounted now) {i : ι}
    {x : α × τ} (hbusy : p.busy i = some x) : (p.finish i x).Accounted now where
  fate := h.fate
  inOrder := h.inOrder
  sorted := h.sorted
  past := h.past
  held := by
    have hupdate := held_update p.busy i none
    rw [hbusy] at hupdate
    simp only [Option.toList_none, Multiset.coe_nil, add_zero] at hupdate
    rw [Pool.finish, ← Multiset.coe_add, h.held, ← hupdate, add_assoc]
    congr 1
    exact add_comm _ _

end CacheServer.WorkQueue
