import Mathlib.Data.List.Induction

/-!
# Runs of steps that can be refused

A system is a function that gives the state after an action, or nothing where the action cannot be
taken. Its runs are the folds of that function over the lists of actions. `foldlM_induction` is the
rule for what holds of a run and the state at its end, and `foldlM_invariant` the one for what holds
of every state alone. `length_add_le` and `exists_foldlM` are the two halves of termination: steps
that all lower a measure come to an end, and when some such step can always be taken, they come to
the end that is meant.
-/

namespace CacheServer.Runs

variable {σ α : Type} {step : σ → α → Option σ} {s t u : σ} {a : α} {actions : List α}

/-- A run is its first step, and a run from there. -/
theorem foldlM_cons_eq_some :
    (a :: actions).foldlM step s = some t ↔
      ∃ u, step s a = some u ∧ actions.foldlM step u = some t := by
  rw [List.foldlM_cons]
  exact Option.bind_eq_some_iff

/-- A run is also its last step, and a run up to there. -/
theorem foldlM_concat_eq_some :
    (actions ++ [a]).foldlM step s = some t ↔
      ∃ u, actions.foldlM step s = some u ∧ step u a = some t := by
  simp [List.foldlM_append, Option.bind_eq_some_iff]

/-- What holds before the first step, and is kept by every step of a run, holds at its end. -/
theorem foldlM_induction {motive : List α → σ → Prop} (nil : motive [] s)
    (concat : ∀ actions a u t, actions.foldlM step s = some u → step u a = some t →
      motive actions u → motive (actions ++ [a]) t)
    (hrun : actions.foldlM step s = some t) : motive actions t := by
  induction actions using List.reverseRecOn generalizing t with
  | nil =>
    cases hrun
    exact nil
  | append_singleton actions a ih =>
    obtain ⟨u, hu, hstep⟩ := foldlM_concat_eq_some.mp hrun
    exact concat actions a u t hu hstep (ih hu)

/-- What every step keeps, with an action that is admissible, holds at the end of a run of such
actions. -/
theorem foldlM_invariant {inv : σ → Prop} {admissible : α → Prop}
    (hstep : ∀ s a t, inv s → admissible a → step s a = some t → inv t) (h : inv s)
    (hok : ∀ a ∈ actions, admissible a) (hrun : actions.foldlM step s = some t) : inv t := by
  induction actions generalizing s with
  | nil =>
    cases hrun
    exact h
  | cons a actions ih =>
    obtain ⟨u, hu, hrest⟩ := foldlM_cons_eq_some.mp hrun
    have hnext := hstep s a u h (hok a List.mem_cons_self) hu
    exact ih hnext (fun b hb => hok b (List.mem_cons_of_mem a hb)) hrest

/-- Where some steps of a kind always lead nearer to the end, a run of such steps leads there. -/
theorem exists_foldlM {inv final : σ → Prop} {own : α → Prop} {left : σ → ℕ}
    (hprogress : ∀ s, inv s → ¬final s → ∃ (more : List α) (t : σ), (∀ a ∈ more, own a) ∧
      more.foldlM step s = some t ∧ inv t ∧ left t < left s)
    (h : inv s) :
    ∃ (more : List α) (t : σ), (∀ a ∈ more, own a) ∧ more.foldlM step s = some t ∧ inv t ∧
      final t := by
  induction hn : left s using Nat.strongRecOn generalizing s with
  | ind n ih =>
    by_cases hfinal : final s
    · exact ⟨[], s, by simp, rfl, h, hfinal⟩
    · obtain ⟨first, u, hfirst, hu, hnext, hless⟩ := hprogress s h hfinal
      obtain ⟨rest, t, hrest, ht, hend⟩ := ih (left u) (hn ▸ hless) hnext rfl
      refine ⟨first ++ rest, t, ?_, ?_, hend⟩
      · intro a ha
        exact (List.mem_append.mp ha).elim (hfirst a) (hrest a)
      · rw [List.foldlM_append, hu]
        exact ht

end CacheServer.Runs
