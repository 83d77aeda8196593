/-!
# Interrupted runs

A program that works on a state in steps, and that can be stopped before any of its steps, or in the
middle of one. It is started again any number of times, and each time plans its steps from the state
that it finds. What every interrupted run preserves holds after every history
(`Device.history_invariant`).
-/

namespace CacheServer.Interrupted

/-- What the steps do to the state, when they are done whole and when they are torn. -/
structure Device (σ ε : Type) where
  /-- A step done whole. -/
  perform : σ → ε → σ
  /-- A step that is stopped in the middle. -/
  tear : σ → ε → σ

/-- Where a run is stopped: after a number of steps, before the next step or in the middle of it. A
run of no more steps than that is not stopped. -/
structure Stop where
  /-- The number of steps that are done whole. -/
  steps : Nat
  /-- Whether the next one is begun. -/
  torn : Bool
deriving DecidableEq, Repr

namespace Device

variable {σ ε ι : Type} (d : Device σ ε)

/-- The state that a run leaves when it is stopped. -/
def run : σ → List ε → Stop → σ
  | s, [], _ => s
  | s, e :: _, ⟨0, torn⟩ => if torn then d.tear s e else s
  | s, e :: es, ⟨n + 1, torn⟩ => run (d.perform s e) es ⟨n, torn⟩

/-- The state after several runs, each with the steps that it plans from the state it finds. -/
def history (plan : ι → σ → List ε) : σ → List (ι × Stop) → σ
  | s, [] => s
  | s, (i, stop) :: runs => history plan (d.run s (plan i s) stop) runs

variable {d}

/-- A run without steps leaves the state alone. -/
@[simp]
theorem run_nil (s : σ) (stop : Stop) : d.run s [] stop = s := by
  obtain ⟨n, torn⟩ := stop
  cases n <;> rfl

/-- What holds before the first step, in the middle of it, and wherever the rest is stopped, holds
wherever the run is stopped. -/
theorem run_cons {P : σ → Prop} {s : σ} {e : ε} {es : List ε} (hbefore : P s)
    (htorn : P (d.tear s e)) (hrest : ∀ stop, P (d.run (d.perform s e) es stop)) (stop : Stop) :
    P (d.run s (e :: es) stop) := by
  obtain ⟨n, torn⟩ := stop
  cases n with
  | zero =>
    cases torn
    · exact hbefore
    · exact htorn
  | succ n => exact hrest ⟨n, torn⟩

/-- What every interrupted run preserves holds after every history. -/
theorem history_invariant {P : σ → Prop} {plan : ι → σ → List ε} {runs : List (ι × Stop)}
    (hrun : ∀ run ∈ runs, ∀ s, P s → ∀ stop, P (d.run s (plan run.1 s) stop)) {s : σ} (hs : P s) :
    P (d.history plan s runs) := by
  induction runs generalizing s with
  | nil => exact hs
  | cons run runs ih =>
    apply ih fun run' hrun' => hrun run' (List.mem_cons_of_mem _ hrun')
    exact hrun run List.mem_cons_self s hs run.2

end Device

end CacheServer.Interrupted
