import CacheServer.Bench.Load
import CacheServer.Lib.Runs

/-!
# The numbers of one-pass operations

`Effect` says once what a step of the process can do to the counter, to the workers and to the
requests, and `effect_of_step` that it can do nothing else. `Invariant` says what every run keeps:
no two operations have the same number, whichever window and worker they are of, and every operation
counts as one of the workers. The workers of a window are gone before the next window starts, but
the counter and what has been requested are not.
-/

namespace CacheServer.Bench.Load

variable {o : Options} {p q : Process} {c : Call}

/-! ## What a step does -/

/-- Where a worker of the process is. -/
def Process.phase (p : Process) (w : ℕ) : Phase := (p.worker w).phase

/-- The greatest worker that an operation can count as. -/
def Options.topWorker (o : Options) : ℤ :=
  match o.model with
  | .closed => o.concurrency.toInt - 1
  | .offered => 0

/-- The operation counts as one of the workers, in the offered model as the first. -/
def Call.Assigned (o : Options) (c : Call) : Prop :=
  0 ≤ c.worker.toInt ∧ c.worker.toInt ≤ o.topWorker

/-- What a step does to the counter, to the workers, and to the requests. -/
inductive Effect (o : Options) (p q : Process) : Action → Prop
  /-- Some workers start or end. -/
  | rest {a : Action} (hdraw : draws [a] = 0) (hcounter : q.onePassCounter = p.onePassCounter)
    (hcalls : q.calls = p.calls)
    (hphase : ∀ w, q.phase w = p.phase w ∨ q.phase w = .gone ∨
      q.phase w = .idle ∧ (w : ℤ) < o.concurrency.toInt) : Effect o p q a
  | enter {w : ℕ} {elapsed : Int64} (c : Call) (hidle : p.phase w = .idle)
    (hworker : c.worker = if o.model = .closed then Int64.ofNat w else 0)
    (hcounter : q.onePassCounter = p.onePassCounter) (hcalls : q.calls = p.calls)
    (hphase : q.phase = Function.update p.phase w (.entered c)) : Effect o p q (.enter w elapsed)
  | draw {w : ℕ} (c : Call) (hentered : p.phase w = .entered c)
    (hcounter : q.onePassCounter = p.onePassCounter + 1) (hcalls : q.calls = p.calls)
    (hphase : q.phase = Function.update p.phase w (.drawn { c with op := p.onePassCounter })) :
    Effect o p q (.draw w)
  | request {w : ℕ} (c : Call) (hdrawn : p.phase w = .drawn c)
    (hcounter : q.onePassCounter = p.onePassCounter) (hcalls : q.calls = p.calls ++ [c])
    (hphase : q.phase = Function.update p.phase w .idle) : Effect o p q (.request w)

/-- Where a worker is after it has been moved. -/
theorem phase_put (p : Process) (w : ℕ) (worker : Worker) :
    (p.put w worker).phase = Function.update p.phase w worker.phase := by
  funext w'
  unfold Process.put Process.phase
  by_cases hw : w' = w
  · subst hw
    simp
  · simp [hw]

/-- Every step is one of the four. -/
theorem effect_of_step (hp : o.pattern = .onePass) {a : Action} (h : step o p a = some q) :
    Effect o p q a := by
  cases a with
  | launch =>
    simp only [step, Option.ite_none_right_eq_some, Option.some.injEq] at h
    obtain ⟨-, rfl⟩ := h
    refine .rest rfl rfl rfl fun w => .inr ?_
    unfold Process.phase
    by_cases hw : (w : ℤ) < o.concurrency.toInt
    · -- The phase starts its workers.
      exact .inr ⟨by simp only [if_pos hw], hw⟩
    · exact .inl (by simp only [if_neg hw])
  | join stable =>
    simp only [step, Option.ite_none_right_eq_some, Option.some.injEq] at h
    obtain ⟨-, rfl⟩ := h
    exact .rest rfl rfl rfl fun w => .inl rfl
  | offer =>
    simp only [step, Option.ite_none_right_eq_some] at h
    obtain ⟨-, h⟩ := h
    split_ifs at h
    · -- A full channel drops the arrival, which only the runner notices.
      cases h
      exact .rest rfl rfl rfl fun w => .inl rfl
    · cases h
      exact .rest rfl rfl rfl fun w => .inl rfl
  | close =>
    simp only [step, Option.ite_none_right_eq_some, Option.some.injEq] at h
    obtain ⟨-, rfl⟩ := h
    exact .rest rfl rfl rfl fun w => .inl rfl
  | enter w elapsed =>
    simp only [step] at h
    split at h
    · next hidle hmodel =>
      cases h
      -- In the closed model an operation has its worker's number.
      exact .enter _ hidle (by rw [hmodel, if_pos rfl]) rfl rfl (phase_put _ _ _)
    · next hidle hmodel _ =>
      cases h
      -- In the offered model all of them count as worker zero.
      exact .enter _ hidle (by rw [hmodel, if_neg (by decide)]) rfl rfl (phase_put _ _ _)
    · cases h
  | draw w =>
    simp only [step] at h
    split at h
    · next c hentered =>
      rw [if_pos hp] at h
      cases h
      exact .draw c hentered rfl rfl (phase_put _ _ _)
    · cases h
  | request w =>
    simp only [step] at h
    split at h
    · next c hdrawn =>
      cases h
      exact .request c hdrawn rfl rfl (phase_put _ _ _)
    · cases h
  | leave w =>
    simp only [step, Option.ite_none_right_eq_some, Option.some.injEq] at h
    obtain ⟨-, rfl⟩ := h
    refine .rest rfl rfl rfl fun w' => ?_
    rw [phase_put]
    by_cases hw : w' = w
    · subst hw
      exact .inr (.inl (by rw [Function.update_self]))
    · exact .inl (by rw [Function.update_of_ne hw])

/-! ## The numbers of the operations -/

/-- What holds after a number of draws. -/
structure Invariant (o : Options) (k : ℕ) (p : Process) : Prop where
  /-- The counter shows the number of draws. -/
  counter : p.onePassCounter.toNat = k
  /-- Only the configured workers run. -/
  started : ∀ w, p.phase w ≠ .gone → (w : ℤ) < o.concurrency.toInt
  /-- An operation that has not drawn yet is one of its worker. -/
  entered : ∀ w c, p.phase w = .entered c → c.Assigned o
  /-- One that has, holds a number that no request was made with. -/
  drawn : ∀ w c, p.phase w = .drawn c → c.Assigned o ∧ c.op.toNat < k ∧ c.op ∉ p.calls.map Call.op
  /-- No two workers hold the same number. -/
  apart : ∀ w w' c c', p.phase w = .drawn c → p.phase w' = .drawn c' → c.op = c'.op → w = w'
  /-- Requests were made with numbers that were drawn. -/
  calls : ∀ c ∈ p.calls, c.Assigned o ∧ c.op.toNat < k
  /-- No two requests were made with the same number. -/
  nodup : (p.calls.map Call.op).Nodup

/-- At the start nothing has been drawn. -/
theorem invariant_start (o : Options) : Invariant o 0 (start o) where
  counter := rfl
  started w hw := absurd rfl hw
  entered w c hc := by cases hc
  drawn w c hc := by cases hc
  apart w w' c c' hc := by cases hc
  calls c hc := by cases hc
  nodup := List.nodup_nil

/-- The worker of an operation. -/
theorem assigned_of_started {w : ℕ} (hw : (w : ℤ) < o.concurrency.toInt)
    (hworker : c.worker = if o.model = .closed then Int64.ofNat w else 0) : c.Assigned o := by
  unfold Call.Assigned Options.topWorker
  rw [hworker]
  cases o.model with
  | closed =>
    have hmax := Int64.toInt_lt o.concurrency
    have hnat : (Int64.ofNat w).toInt = w := Int64.toInt_ofNat_of_lt (by omega)
    rw [if_pos rfl, hnat]
    exact ⟨by omega, Int.le_sub_one_of_lt hw⟩
  -- There is only one number in the offered model.
  | offered =>
    have hzero : (0 : Int64).toInt = 0 := rfl
    rw [if_neg (by decide), hzero]
    constructor <;> rfl

/-- A worker that has been moved is where it was put, and the others are where they were. -/
theorem eq_or_of_update {phase : ℕ → Phase} {w w' : ℕ} {x y : Phase}
    (h : Function.update phase w x w' = y) : w' = w ∧ x = y ∨ w' ≠ w ∧ phase w' = y := by
  rw [Function.update_apply] at h
  split_ifs at h with hw
  · exact .inl ⟨hw, h⟩
  · exact .inr ⟨hw, h⟩

/-- A worker that is moved has been started. -/
theorem Invariant.started_update {k w : ℕ} {x : Phase} (hi : Invariant o k p)
    (hw : p.phase w ≠ .gone) (w' : ℕ) (hw' : Function.update p.phase w x w' ≠ .gone) :
    (w' : ℤ) < o.concurrency.toInt := by
  by_cases heq : w' = w
  · rw [heq]
    exact hi.started w hw
  · rw [Function.update_of_ne heq] at hw'
    exact hi.started w' hw'

/-- The invariant is kept where no number is drawn and no request is sent. -/
theorem Invariant.of_drawn {k : ℕ} (hi : Invariant o k p)
    (hcounter : q.onePassCounter = p.onePassCounter) (hcalls : q.calls = p.calls)
    (hstarted : ∀ w, q.phase w ≠ .gone → (w : ℤ) < o.concurrency.toInt)
    (hentered : ∀ w c, q.phase w = .entered c → c.Assigned o)
    (hdrawn : ∀ w c, q.phase w = .drawn c → p.phase w = .drawn c) : Invariant o k q where
  counter := by rw [hcounter, hi.counter]
  started := hstarted
  entered := hentered
  drawn w c hc := by
    rw [hcalls]
    exact hi.drawn w c (hdrawn w c hc)
  apart w w' c c' hc hc' := hi.apart w w' c c' (hdrawn w c hc) (hdrawn w' c' hc')
  calls := by
    rw [hcalls]
    exact hi.calls
  nodup := by
    rw [hcalls]
    exact hi.nodup

/-- The invariant does not depend on the workers that are not in an operation. -/
theorem Invariant.rest {k : ℕ} (hi : Invariant o k p)
    (hcounter : q.onePassCounter = p.onePassCounter) (hcalls : q.calls = p.calls)
    (hphase : ∀ w, q.phase w = p.phase w ∨ q.phase w = .gone ∨
      q.phase w = .idle ∧ (w : ℤ) < o.concurrency.toInt) : Invariant o k q := by
  -- A worker in an operation is where it was.
  have hkept : ∀ w x, q.phase w = x → x ≠ .gone → x ≠ .idle → p.phase w = x := by
    intro w x hx hgone hidle
    rcases hphase w with h | h | ⟨h, -⟩
    · rw [← h, hx]
    · exact absurd (hx.symm.trans h) hgone
    · exact absurd (hx.symm.trans h) hidle
  refine hi.of_drawn hcounter hcalls ?_ ?_ ?_
  · intro w hw
    rcases hphase w with h | h | h
    · exact hi.started w (by rwa [← h])
    · exact absurd h hw
    · exact h.2
  · intro w c hc
    exact hi.entered w c (hkept w _ hc nofun nofun)
  · intro w c hc
    exact hkept w _ hc nofun nofun

/-- A worker that starts an operation keeps the invariant. -/
theorem Invariant.enter {k w : ℕ} (hi : Invariant o k p) (hidle : p.phase w = .idle)
    (hworker : c.worker = if o.model = .closed then Int64.ofNat w else 0)
    (hcounter : q.onePassCounter = p.onePassCounter) (hcalls : q.calls = p.calls)
    (hphase : q.phase = Function.update p.phase w (.entered c)) : Invariant o k q := by
  have hgone : p.phase w ≠ .gone := by
    rw [hidle]
    nofun
  refine hi.of_drawn hcounter hcalls ?_ ?_ ?_
  · rw [hphase]
    exact hi.started_update hgone
  · intro w' c' hc'
    rw [hphase] at hc'
    rcases eq_or_of_update hc' with ⟨-, h⟩ | ⟨-, h⟩
    · cases h
      exact assigned_of_started (hi.started w hgone) hworker
    · exact hi.entered w' c' h
  · intro w' c' hc'
    rw [hphase] at hc'
    rcases eq_or_of_update hc' with ⟨-, h⟩ | ⟨-, h⟩
    · cases h
    · exact h

/-- The counter is a number that no operation has had. -/
theorem Invariant.draw {k w : ℕ} (hi : Invariant o k p) (hk : k + 1 < 2^64)
    (hentered : p.phase w = .entered c) (hcounter : q.onePassCounter = p.onePassCounter + 1)
    (hcalls : q.calls = p.calls)
    (hphase : q.phase = Function.update p.phase w (.drawn { c with op := p.onePassCounter })) :
    Invariant o (k + 1) q := by
  -- All numbers so far are below the counter.
  have hfresh : ∀ op : UInt64, op.toNat < k → op ≠ p.onePassCounter := by
    rintro op hop rfl
    rw [hi.counter] at hop
    exact lt_irrefl k hop
  -- Short of `2^64` draws, the counter does not wrap.
  have hnext : q.onePassCounter.toNat = k + 1 := by
    have hone : (1 : UInt64).toNat = 1 := rfl
    rw [hcounter, UInt64.toNat_add, hi.counter, hone, Nat.mod_eq_of_lt hk]
  have hnew : p.onePassCounter ∉ p.calls.map Call.op := by
    intro hmem
    obtain ⟨c', hc', hop⟩ := List.mem_map.mp hmem
    exact hfresh c'.op (hi.calls c' hc').2 hop
  refine ⟨hnext, ?_, ?_, ?_, ?_, ?_, ?_⟩
  · rw [hphase]
    exact hi.started_update (by rw [hentered]; nofun)
  · intro w' c' hc'
    rw [hphase] at hc'
    rcases eq_or_of_update hc' with ⟨-, h⟩ | ⟨-, h⟩
    · cases h
    · exact hi.entered w' c' h
  · intro w' c' hc'
    rw [hphase] at hc'
    rw [hcalls]
    rcases eq_or_of_update hc' with ⟨-, h⟩ | ⟨-, h⟩
    · cases h
      exact ⟨hi.entered w c hentered, by rw [hi.counter]; exact Nat.lt_succ_self k, hnew⟩
    · obtain ⟨hassigned, hop, hmem⟩ := hi.drawn w' c' h
      exact ⟨hassigned, Nat.lt_succ_of_lt hop, hmem⟩
  · intro w₁ w₂ c₁ c₂ h₁ h₂ hop
    rw [hphase] at h₁ h₂
    -- Of two holders, the one that has just drawn has a number above the other's.
    rcases eq_or_of_update h₁ with ⟨hw₁, h₁⟩ | ⟨-, h₁⟩ <;>
      rcases eq_or_of_update h₂ with ⟨hw₂, h₂⟩ | ⟨-, h₂⟩
    · rw [hw₁, hw₂]
    · cases h₁
      exact absurd hop.symm (hfresh c₂.op (hi.drawn w₂ c₂ h₂).2.1)
    · cases h₂
      exact absurd hop (hfresh c₁.op (hi.drawn w₁ c₁ h₁).2.1)
    · exact hi.apart w₁ w₂ c₁ c₂ h₁ h₂ hop
  · intro c' hc'
    rw [hcalls] at hc'
    obtain ⟨hassigned, hop⟩ := hi.calls c' hc'
    exact ⟨hassigned, Nat.lt_succ_of_lt hop⟩
  · rw [hcalls]
    exact hi.nodup

/-- A worker that asks for its keys is the only one that had its number. -/
theorem Invariant.request {k w : ℕ} (hi : Invariant o k p) (hdrawn : p.phase w = .drawn c)
    (hcounter : q.onePassCounter = p.onePassCounter) (hcalls : q.calls = p.calls ++ [c])
    (hphase : q.phase = Function.update p.phase w .idle) : Invariant o k q := by
  obtain ⟨hassigned, hop, hmem⟩ := hi.drawn w c hdrawn
  -- The worker has let go of its number.
  have hother : ∀ w' c', q.phase w' = .drawn c' → w' ≠ w ∧ p.phase w' = .drawn c' := by
    intro w' c' hc'
    rw [hphase] at hc'
    rcases eq_or_of_update hc' with ⟨-, h⟩ | h
    · cases h
    · exact h
  refine ⟨by rw [hcounter, hi.counter], ?_, ?_, ?_, ?_, ?_, ?_⟩
  · rw [hphase]
    exact hi.started_update (by rw [hdrawn]; nofun)
  · intro w' c' hc'
    rw [hphase] at hc'
    rcases eq_or_of_update hc' with ⟨-, h⟩ | ⟨-, h⟩
    · cases h
    · exact hi.entered w' c' h
  · intro w' c' hc'
    obtain ⟨hne, hc'⟩ := hother w' c' hc'
    obtain ⟨hassigned', hop', hmem'⟩ := hi.drawn w' c' hc'
    refine ⟨hassigned', hop', ?_⟩
    rw [hcalls, List.map_append, List.mem_append]
    -- The request takes a number that no other worker holds.
    rintro (hold | hnew)
    · exact hmem' hold
    · rw [List.map_singleton, List.mem_singleton] at hnew
      exact hne (hi.apart w' w c' c hc' hdrawn hnew)
  · intro w₁ w₂ c₁ c₂ h₁ h₂
    exact hi.apart w₁ w₂ c₁ c₂ (hother w₁ c₁ h₁).2 (hother w₂ c₂ h₂).2
  · intro c' hc'
    rw [hcalls, List.mem_append, List.mem_singleton] at hc'
    rcases hc' with hold | rfl
    · exact hi.calls c' hold
    · exact ⟨hassigned, hop⟩
  · rw [hcalls, List.map_append, List.map_singleton, List.nodup_append]
    -- And that no earlier request has.
    refine ⟨hi.nodup, List.nodup_singleton _, ?_⟩
    rintro op hold _ hnew rfl
    rw [List.mem_singleton] at hnew
    exact hmem (hnew ▸ hold)

/-- A step keeps the invariant. -/
theorem Invariant.step {k : ℕ} {a : Action} (hi : Invariant o k p) (h : Effect o p q a)
    (hk : k + draws [a] < 2^64) : Invariant o (k + draws [a]) q := by
  cases h with
  | rest hdraw hcounter hcalls hphase =>
    rw [hdraw]
    exact hi.rest hcounter hcalls hphase
  | enter c hidle hworker hcounter hcalls hphase =>
    exact hi.enter hidle hworker hcounter hcalls hphase
  | draw c hentered hcounter hcalls hphase =>
    exact hi.draw hk hentered hcounter hcalls hphase
  | request c hdrawn hcounter hcalls hphase =>
    exact hi.request hdrawn hcounter hcalls hphase

/-- The draws of a run are those of its first step and of the rest. -/
theorem draws_cons (a : Action) (actions : List Action) :
    draws (a :: actions) = draws [a] + draws actions := by
  rw [← List.singleton_append, draws, List.countP_append]
  rfl

/-- A run keeps the invariant, as long as the counter does not overflow. -/
theorem Invariant.run (hp : o.pattern = .onePass) (actions : List Action) {k : ℕ}
    (hi : Invariant o k p) (h : run o p actions = some q) (hk : k + draws actions < 2^64) :
    Invariant o (k + draws actions) q := by
  induction actions generalizing p k with
  | nil =>
    cases h
    exact hi
  | cons a actions ih =>
    rw [draws_cons, ← Nat.add_assoc] at hk ⊢
    obtain ⟨r, hstep, hrest⟩ := Runs.foldlM_cons_eq_some.mp h
    exact ih (hi.step (effect_of_step hp hstep) (by omega)) hrest hk

/-- No two operations of a process have the same number. -/
theorem invariant_run (hp : o.pattern = .onePass) {actions : List Action}
    (h : run o (start o) actions = some p) (hk : draws actions < 2^64) :
    Invariant o (draws actions) p := by
  have hrun := (invariant_start o).run hp actions h (by rwa [Nat.zero_add])
  rwa [Nat.zero_add] at hrun

end CacheServer.Bench.Load
