import Mathlib.Data.List.Basic

/-!
# Runs of a step function

A step function takes a state and an input to an output and the next state, and `runAll` runs it
along a list of inputs. The rule for whole runs is `runAll_simulates`: a step function that follows
another one through a relation of their states gives the same outputs along every run.
-/

namespace CacheServer.Transducer

variable {σ α ι ρ : Type}

/-- The outputs for the inputs in order, and the state after the last of them. -/
def runAll (step : σ → ι → ρ × σ) (s : σ) : List ι → List ρ × σ
  | [] => ([], s)
  | x :: xs =>
    let (r, s) := step s x
    let (rs, s) := runAll step s xs
    (r :: rs, s)

/-- One more input at the end of a run. -/
theorem runAll_concat (step : σ → ι → ρ × σ) (s : σ) (xs : List ι) (x : ι) :
    runAll step s (xs ++ [x]) =
      ((runAll step s xs).1 ++ [(step (runAll step s xs).2 x).1],
        (step (runAll step s xs).2 x).2) := by
  induction xs generalizing s with
  | nil => simp [runAll]
  | cons y xs ih => simp [runAll, ih]

/-- A step function that gives the outputs of another one, and keeps a relation of their states,
does so along every run. The inputs may be restricted by a property. -/
theorem runAll_simulates {step : σ → ι → ρ × σ} {spec : α → ι → ρ × α} {rel : σ → α → Prop}
    {admissible : ι → Prop}
    (hstep : ∀ s a x, rel s a → admissible x →
      (step s x).1 = (spec a x).1 ∧ rel (step s x).2 (spec a x).2)
    {s : σ} {a : α} (hrel : rel s a) {xs : List ι} (hxs : ∀ x ∈ xs, admissible x) :
    (runAll step s xs).1 = (runAll spec a xs).1 ∧
      rel (runAll step s xs).2 (runAll spec a xs).2 := by
  induction xs generalizing s a with
  | nil => exact ⟨rfl, hrel⟩
  | cons x xs ih =>
    obtain ⟨hout, hnext⟩ := hstep s a x hrel (hxs x List.mem_cons_self)
    obtain ⟨houts, hlast⟩ := ih hnext fun y hy => hxs y (List.mem_cons_of_mem x hy)
    simp only [runAll]
    exact ⟨by rw [hout, houts], hlast⟩

end CacheServer.Transducer
