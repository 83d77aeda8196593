import CacheServer.Manager.Calls
import Mathlib.Algebra.BigOperators.Group.Finset.Piecewise
import Mathlib.Data.Rat.Defs
import Mathlib.Tactic.Linarith
import Mathlib.Tactic.Positivity

/-!
# Statistics while lookups are running

`get` counts itself in `getCount_` first and in `hitCount_` or `missCount_` later, so at every
instant the hits and misses add up to at most the gets, but for the gets that are counted twice:
when the copy of a found value throws, the handler counts a miss on top of the hit. `getStats` loads
the three counters one after another, `getCount_` first, and lookups that finish between its loads
are in the later counters and not in the first.

The actions of any number of clients in `get` and in `getStats` are interleaved in any order.
`snapshots_consistent_iff` says of every run when all its snapshots are consistent.
-/

namespace CacheServer.Stats

/-- Where a client stands in `get`. -/
inductive GetPhase
  | idle
  /-- Counted in `getCount_`, before the lookup. -/
  | counted
  /-- The lookup gave an item. -/
  | found
  /-- The lookup gave nothing, or threw. -/
  | missed
  /-- Counted in `hitCount_`, before the copy of the value. -/
  | copying
  /-- The copy threw. -/
  | caught
deriving DecidableEq, Repr

/-- Where a client stands in `getStats`, and what it has loaded. -/
inductive StatsPhase
  | idle
  | loadedGet (getCount : ℕ)
  | loadedHit (getCount hitCount : ℕ)
deriving DecidableEq, Repr

/-- The counters of a `CacheStats`. -/
structure Snapshot where
  /-- What was loaded of `getCount_`. -/
  getCount : ℕ
  /-- What was loaded of `hitCount_`. -/
  hitCount : ℕ
  /-- What was loaded of `missCount_`. -/
  missCount : ℕ
deriving DecidableEq, Repr

/-- `CacheStats::hitRate`. -/
def Snapshot.hitRate (s : Snapshot) : ℚ := if s.getCount > 0 then s.hitCount / s.getCount else 0

/-- The hits and misses are among the gets, and the hit rate is between zero and one. -/
def Snapshot.Consistent (s : Snapshot) : Prop :=
  s.hitCount + s.missCount ≤ s.getCount ∧ s.hitCount ≤ s.getCount ∧
    0 ≤ s.hitRate ∧ s.hitRate ≤ 1

/-- The counters, the clients in `get`, the clients in `getStats`, and the snapshots that the latter
have reported. -/
structure State (ι κ : Type) where
  /-- `getCount_`. -/
  getCount : ℕ := 0
  /-- `hitCount_`. -/
  hitCount : ℕ := 0
  /-- `missCount_`. -/
  missCount : ℕ := 0
  /-- Where each client is in `get`. -/
  client : ι → GetPhase := fun _ => .idle
  /-- Where each reader is in `getStats`. -/
  reader : κ → StatsPhase := fun _ => .idle
  /-- The snapshots, with their readers. -/
  snapshots : List (κ × Snapshot) := []

/-- What a client can do next. -/
inductive Action (ι κ : Type)
  /-- Call `get`, and count the call. -/
  | begin (i : ι)
  /-- Look the key up, with or without success. -/
  | lookup (i : ι) (found : Bool)
  /-- Count a hit or a miss. -/
  | count (i : ι)
  /-- Copy the found value, which may throw. -/
  | copy (i : ι) (throws : Bool)
  /-- Load the next counter in `getStats`. -/
  | load (r : κ)
deriving DecidableEq

section

variable {ι κ : Type} [DecidableEq ι] [DecidableEq κ]

/-- The state with a client in another phase of `get`. -/
def State.enter (m : State ι κ) (i : ι) (p : GetPhase) : State ι κ :=
  { m with client := Function.update m.client i p }

/-- One action. An action that the client is not at leaves the state alone. -/
def step (m : State ι κ) : Action ι κ → State ι κ
  | .begin i =>
    match m.client i with
    | .idle => { m.enter i .counted with getCount := m.getCount + 1 }
    | _ => m
  | .lookup i found =>
    match m.client i with
    | .counted => m.enter i (if found then .found else .missed)
    | _ => m
  | .count i =>
    match m.client i with
    | .found => { m.enter i .copying with hitCount := m.hitCount + 1 }
    | .missed | .caught => { m.enter i .idle with missCount := m.missCount + 1 }
    | _ => m
  | .copy i throws =>
    match m.client i with
    | .copying => m.enter i (if throws then .caught else .idle)
    | _ => m
  | .load r =>
    match m.reader r with
    | .idle => { m with reader := Function.update m.reader r (.loadedGet m.getCount) }
    | .loadedGet g => { m with reader := Function.update m.reader r (.loadedHit g m.hitCount) }
    | .loadedHit g h =>
      { m with
        reader := Function.update m.reader r .idle
        snapshots := m.snapshots ++ [(r, ⟨g, h, m.missCount⟩)] }

/-- Actions one after another. -/
def run (m : State ι κ) (actions : List (Action ι κ)) : State ι κ := actions.foldl step m

/-- The actions among those of a run that have a property of the state they are taken in. -/
def tally (p : State ι κ → Action ι κ → Bool) (m : State ι κ) : List (Action ι κ) → ℕ
  | [] => 0
  | a :: actions => (if p m a then 1 else 0) + tally p (step m a) actions

/-- The action counts a hit. -/
def countsHit (m : State ι κ) : Action ι κ → Bool
  | .count i => m.client i = .found
  | _ => false

/-- The action counts a miss. -/
def countsMiss (m : State ι κ) : Action ι κ → Bool
  | .count i => m.client i = .missed || m.client i = .caught
  | _ => false

/-- The action counts a miss for a call that has already been counted as a hit. -/
def countsAgain (m : State ι κ) : Action ι κ → Bool
  | .count i => m.client i = .caught
  | _ => false

/-- One for a call that is counted in `getCount_` and not yet as a hit or a miss. -/
def GetPhase.pending : GetPhase → ℕ
  | .counted | .found | .missed => 1
  | _ => 0

/-- The number of calls that are counted in `getCount_` and not yet as hits or misses. -/
def State.inFlight [Fintype ι] (m : State ι κ) : ℕ := ∑ i, (m.client i).pending

/-! ## The operation behind the actions -/

omit [DecidableEq ι] [DecidableEq κ] in
/-- The counters of the state are those of the manager. -/
def State.Agrees (s : State ι κ) (m : CacheManager) : Prop :=
  s.getCount = m.getCount ∧ s.hitCount = m.hitCount ∧ s.missCount = m.missCount

/-- The actions of a whole `get`. -/
def getActions (env : Env) (m : CacheManager) (key : Bytes) (i : ι) : List (Action ι κ) :=
  match m.cache, env.findThrows, m.found env.now key with
  | some _, false, some _ =>
    [.begin i, .lookup i true, .count i, .copy i env.copyThrows] ++
      if env.copyThrows then [.count i] else []
  | _, _, _ => [.begin i, .lookup i false, .count i]

/-- The actions of a `get`, taken without interruption, count what `get` counts. -/
theorem run_getActions {s : State ι κ} {m : CacheManager} (h : s.Agrees m) {i : ι}
    (hidle : s.client i = .idle) (env : Env) (key : Bytes) :
    (run s (getActions env m key i)).Agrees (m.get env key).2 ∧
      (run s (getActions env m key i)).client i = .idle := by
  obtain ⟨hget, hhit, hmiss⟩ := h
  -- The paths of `get`: no cache, `find` throws, a miss, a hit, and a hit whose copy throws.
  cases hm : m.cache with
  | none => simp [getActions, CacheManager.get, run, step, State.enter, State.Agrees, *]
  | some store =>
    cases hf : env.findThrows with
    | true => simp [getActions, CacheManager.get, run, step, State.enter, State.Agrees, *]
    | false =>
      cases hfind : store.find env.now key with
      | none => simp [getActions, CacheManager.get, CacheManager.found, run, step, State.enter,
          State.Agrees, *]
      | some item =>
        cases hc : env.copyThrows <;> simp [getActions, CacheManager.get, CacheManager.found, run,
          step, State.enter, State.Agrees, *]

/-! ## One action -/

/-- The sum of a weight of the clients' phases. -/
def State.weigh [Fintype ι] (w : GetPhase → ℕ) (m : State ι κ) : ℕ := ∑ i, w (m.client i)

omit [DecidableEq κ] in
/-- A client that enters another phase takes its own weight with it. -/
theorem State.weigh_enter [Fintype ι] (w : GetPhase → ℕ) (m : State ι κ) (i : ι) (p : GetPhase) :
    (m.enter i p).weigh w + w (m.client i) = m.weigh w + w p := by
  -- The weights change at this client only, so the sums differ by its own weights.
  have hupdate : (fun j => w (Function.update m.client i p j)) =
      Function.update (fun j => w (m.client j)) i (w p) := by
    funext j
    by_cases hj : j = i
    · subst hj
      simp
    · simp [Function.update_of_ne hj]
  have hafter := Finset.sum_update_of_mem (Finset.mem_univ i) (fun j => w (m.client j)) (w p)
  have hbefore := Finset.sum_eq_add_sum_sdiff_singleton_of_mem (Finset.mem_univ i)
    fun j => w (m.client j)
  simp only [State.weigh, State.enter, hupdate, hafter, hbefore]
  omega

omit [DecidableEq κ] in
/-- A client that enters another phase takes its own share of the calls in flight with it. -/
theorem State.inFlight_enter [Fintype ι] (m : State ι κ) (i : ι) (p : GetPhase) :
    (m.enter i p).inFlight + (m.client i).pending = m.inFlight + p.pending :=
  m.weigh_enter GetPhase.pending i p

/-- An action adds to the hits what it counts. -/
theorem hitCount_step (m : State ι κ) (a : Action ι κ) :
    (step m a).hitCount = m.hitCount + if countsHit m a then 1 else 0 := by
  cases a with
  | begin i => cases h : m.client i <;> simp [step, countsHit, h, State.enter]
  | lookup i found => cases h : m.client i <;> simp [step, countsHit, h, State.enter]
  | count i => cases h : m.client i <;> simp [step, countsHit, h, State.enter]
  | copy i throws => cases h : m.client i <;> simp [step, countsHit, h, State.enter]
  | load r => cases h : m.reader r <;> simp [step, countsHit, h]

/-- An action adds to the misses what it counts. -/
theorem missCount_step (m : State ι κ) (a : Action ι κ) :
    (step m a).missCount = m.missCount + if countsMiss m a then 1 else 0 := by
  cases a with
  | begin i => cases h : m.client i <;> simp [step, countsMiss, h, State.enter]
  | lookup i found => cases h : m.client i <;> simp [step, countsMiss, h, State.enter]
  | count i => cases h : m.client i <;> simp [step, countsMiss, h, State.enter]
  | copy i throws => cases h : m.client i <;> simp [step, countsMiss, h, State.enter]
  | load r => cases h : m.reader r <;> simp [step, countsMiss, h]

/-- The gets, and the misses that `again` of them are counted with on top of their hits, are the
hits, the misses, and the calls in flight. -/
def Balanced [Fintype ι] (m : State ι κ) (again : ℕ) : Prop :=
  m.getCount + again = m.hitCount + m.missCount + m.inFlight

omit [DecidableEq κ] in
/-- A client that enters another phase keeps the balance when it counts what it takes out of
flight. -/
theorem Balanced.enter [Fintype ι] {m : State ι κ} {again : ℕ} (h : Balanced m again) (i : ι)
    (p : GetPhase) (gets hits misses more : ℕ)
    (hp : gets + more + (m.client i).pending = hits + misses + p.pending) :
    Balanced { m.enter i p with
      getCount := m.getCount + gets
      hitCount := m.hitCount + hits
      missCount := m.missCount + misses } (again + more) := by
  have henter := m.inFlight_enter i p
  unfold Balanced at h ⊢
  show m.getCount + gets + (again + more) =
    m.hitCount + hits + (m.missCount + misses) + (m.enter i p).inFlight
  omega

/-- Every action keeps the balance. -/
theorem Balanced.step [Fintype ι] {m : State ι κ} {again : ℕ} (h : Balanced m again)
    (a : Action ι κ) : Balanced (step m a) (again + if countsAgain m a then 1 else 0) := by
  cases a with
  | begin i =>
    -- A call comes into flight with its count in `getCount_`.
    cases hi : m.client i with
    | idle =>
      have henter := h.enter i .counted 1 0 0 0 (by rw [hi]; rfl)
      simpa [Stats.step, countsAgain, hi, State.enter] using henter
    | _ => simpa [Stats.step, countsAgain, hi] using h
  | lookup i found =>
    cases hi : m.client i with
    | counted =>
      -- The outcome of the lookup counts nothing yet.
      have henter := h.enter i (if found then .found else .missed) 0 0 0 0
        (by rw [hi]; cases found <;> rfl)
      simpa [Stats.step, countsAgain, hi, State.enter] using henter
    | _ => simpa [Stats.step, countsAgain, hi] using h
  | count i =>
    cases hi : m.client i with
    | found =>
      -- A hit takes the call out of flight, though it goes on to copy the value.
      have henter := h.enter i .copying 0 1 0 0 (by rw [hi]; rfl)
      simpa [Stats.step, countsAgain, hi, State.enter] using henter
    | missed =>
      -- A miss does.
      have henter := h.enter i .idle 0 0 1 0 (by rw [hi]; rfl)
      simpa [Stats.step, countsAgain, hi, State.enter] using henter
    | caught =>
      -- This call was counted as a hit before, so the miss is one too many.
      have henter := h.enter i .idle 0 0 1 1 (by rw [hi]; rfl)
      simpa [Stats.step, countsAgain, hi, State.enter] using henter
    | _ => simpa [Stats.step, countsAgain, hi] using h
  | copy i throws =>
    cases hi : m.client i with
    | copying =>
      have henter := h.enter i (if throws then .caught else .idle) 0 0 0 0
        (by rw [hi]; cases throws <;> rfl)
      simpa [Stats.step, countsAgain, hi, State.enter] using henter
    | _ => simpa [Stats.step, countsAgain, hi] using h
  | load r =>
    -- A load changes none of the numbers in the balance.
    cases hr : m.reader r <;>
    · simp only [Stats.step, hr]
      exact h

/-! ## Runs -/

/-- A run of two parts is the one part after the other. -/
theorem run_append (m : State ι κ) (as bs : List (Action ι κ)) :
    run m (as ++ bs) = run (run m as) bs :=
  List.foldl_append ..

/-- The hits that a run counts. -/
theorem hitCount_run (m : State ι κ) (as : List (Action ι κ)) :
    (run m as).hitCount = m.hitCount + tally countsHit m as := by
  induction as generalizing m with
  | nil => rfl
  | cons a as ih =>
    have hrun : run m (a :: as) = run (step m a) as := rfl
    rw [hrun, ih, hitCount_step, tally]
    omega

/-- The misses that a run counts. -/
theorem missCount_run (m : State ι κ) (as : List (Action ι κ)) :
    (run m as).missCount = m.missCount + tally countsMiss m as := by
  induction as generalizing m with
  | nil => rfl
  | cons a as ih =>
    have hrun : run m (a :: as) = run (step m a) as := rfl
    rw [hrun, ih, missCount_step, tally]
    omega

/-- Every run keeps the balance. -/
theorem Balanced.run [Fintype ι] {m : State ι κ} {again : ℕ} (h : Balanced m again)
    (as : List (Action ι κ)) : Balanced (run m as) (again + tally countsAgain m as) := by
  induction as generalizing m again with
  | nil => exact h
  | cons a as ih =>
    have hrun := ih (h.step a)
    rwa [Nat.add_assoc] at hrun

/-- The balance of a run from the start. -/
theorem balanced_run [Fintype ι] (as : List (Action ι κ)) :
    Balanced (Stats.run ({} : State ι κ) as) (tally countsAgain {} as) := by
  have hinit : Balanced ({} : State ι κ) 0 := by
    simp [Balanced, State.inFlight, GetPhase.pending]
  simpa using hinit.run as

/-! ## Snapshots -/

/-- In the run, the reader `r` calls `getStats`: it loads `getCount_` after `s₀`, `hitCount_` after
`s₁` more, and `missCount_` after `s₂` more. -/
structure Calls (actions : List (Action ι κ)) (r : κ) (s₀ s₁ s₂ s₃ : List (Action ι κ)) :
    Prop where
  /-- The three loads cut the run into four parts. -/
  split : actions = s₀ ++ .load r :: s₁ ++ .load r :: s₂ ++ .load r :: s₃
  /-- The reader begins with the first of them. -/
  starts : (run {} s₀).reader r = .idle
  /-- It loads nothing between the first two. -/
  quiet₁ : .load r ∉ s₁
  /-- It loads nothing between the last two. -/
  quiet₂ : .load r ∉ s₂

/-- The snapshot of such a call. -/
def snapshotOf (r : κ) (s₀ s₁ s₂ : List (Action ι κ)) : Snapshot where
  getCount := (run ({} : State ι κ) s₀).getCount
  hitCount := (run ({} : State ι κ) (s₀ ++ .load r :: s₁)).hitCount
  missCount := (run ({} : State ι κ) (s₀ ++ .load r :: s₁ ++ .load r :: s₂)).missCount

/-- What a reader has loaded so far, and where in the run. -/
def Loaded (actions : List (Action ι κ)) (r : κ) : StatsPhase → Prop
  | .idle => True
  | .loadedGet g => ∃ s₀ s₁, actions = s₀ ++ .load r :: s₁ ∧ (run {} s₀).reader r = .idle ∧
    .load r ∉ s₁ ∧ g = (run ({} : State ι κ) s₀).getCount
  | .loadedHit g h => ∃ s₀ s₁ s₂, actions = s₀ ++ .load r :: s₁ ++ .load r :: s₂ ∧
    (run {} s₀).reader r = .idle ∧ .load r ∉ s₁ ∧ .load r ∉ s₂ ∧
    g = (run ({} : State ι κ) s₀).getCount ∧
    h = (run ({} : State ι κ) (s₀ ++ .load r :: s₁)).hitCount

/-- An action of another client leaves what a reader has loaded where it is. -/
theorem Loaded.concat {actions : List (Action ι κ)} {r : κ} {p : StatsPhase}
    (h : Loaded actions r p) {a : Action ι κ} (ha : a ≠ .load r) : Loaded (actions ++ [a]) r p := by
  cases p with
  | idle => trivial
  | loadedGet g =>
    -- The action goes to the part after the last load.
    obtain ⟨s₀, s₁, rfl, hidle, hquiet, hg⟩ := h
    exact ⟨s₀, s₁ ++ [a], by simp, hidle, by simp [hquiet, ha.symm], hg⟩
  | loadedHit g h' =>
    obtain ⟨s₀, s₁, s₂, rfl, hidle, hquiet₁, hquiet₂, hg, hh⟩ := h
    exact ⟨s₀, s₁, s₂ ++ [a], by simp, hidle, hquiet₁, by simp [hquiet₂, ha.symm], hg, hh⟩

/-- The actions of clients leave the readers and their snapshots alone. -/
theorem step_of_not_load (m : State ι κ) {a : Action ι κ} (ha : ∀ r, a ≠ .load r) :
    (step m a).reader = m.reader ∧ (step m a).snapshots = m.snapshots := by
  cases a with
  | begin i => cases h : m.client i <;> simp [step, h, State.enter]
  | lookup i found => cases h : m.client i <;> simp [step, h, State.enter]
  | count i => cases h : m.client i <;> simp [step, h, State.enter]
  | copy i throws => cases h : m.client i <;> simp [step, h, State.enter]
  | load r => exact absurd rfl (ha r)

/-- Actions other than its own loads leave a reader where it is. -/
theorem reader_step_of_ne (m : State ι κ) {a : Action ι κ} {r : κ} (ha : a ≠ .load r) :
    (step m a).reader r = m.reader r := by
  by_cases hload : ∃ r', a = .load r'
  · obtain ⟨r', rfl⟩ := hload
    -- A load of another reader changes that one only.
    have hne : r ≠ r' := by
      rintro rfl
      exact ha rfl
    cases h : m.reader r' <;> simp [step, h, Function.update_of_ne hne]
  · rw [(step_of_not_load m (not_exists.mp hload)).1]

/-- The snapshots that have been reported stay, and only a last load adds one. -/
theorem snapshots_step (m : State ι κ) (a : Action ι κ) :
    (step m a).snapshots = m.snapshots ∨ ∃ r g h, a = .load r ∧ m.reader r = .loadedHit g h ∧
      (step m a).snapshots = m.snapshots ++ [(r, ⟨g, h, m.missCount⟩)] := by
  by_cases hload : ∃ r, a = .load r
  · obtain ⟨r, rfl⟩ := hload
    cases h : m.reader r with
    | idle => simp [step, h]
    | loadedGet g => simp [step, h]
    | loadedHit g h' => exact .inr ⟨r, g, h', rfl, h, by simp [step, h]⟩
  · exact .inl (step_of_not_load m (not_exists.mp hload)).2

/-- One more step at the end of a run. -/
theorem run_concat (m : State ι κ) (actions : List (Action ι κ)) (a : Action ι κ) :
    run m (actions ++ [a]) = step (run m actions) a := by
  simp [run]

/-- Every reader has loaded what its phase says, where its phase says. -/
theorem loaded_run (actions : List (Action ι κ)) (r : κ) :
    Loaded actions r ((run ({} : State ι κ) actions).reader r) := by
  induction actions using List.reverseRecOn with
  | nil => trivial
  | append_singleton actions a ih =>
    rw [run_concat]
    by_cases ha : a = .load r
    · subst ha
      cases hr : (run ({} : State ι κ) actions).reader r with
      | idle =>
        -- The first load: all that has been done is in front of it.
        simp only [step, hr, Function.update_self]
        exact ⟨actions, [], rfl, hr, by simp, rfl⟩
      | loadedGet g =>
        rw [hr] at ih
        -- The second, with the first where it was.
        obtain ⟨s₀, s₁, rfl, hidle, hquiet, hg⟩ := ih
        simp only [step, hr, Function.update_self]
        exact ⟨s₀, s₁, [], rfl, hidle, hquiet, by simp, hg, rfl⟩
      | loadedHit g h =>
        simp only [step, hr, Function.update_self]
        trivial
    · rw [reader_step_of_ne _ ha]
      exact ih.concat ha

/-- A reported snapshot is that of a call in the run. -/
theorem calls_of_mem_snapshots {actions : List (Action ι κ)} {r : κ} {snapshot : Snapshot}
    (h : (r, snapshot) ∈ (run ({} : State ι κ) actions).snapshots) :
    ∃ s₀ s₁ s₂ s₃, Calls actions r s₀ s₁ s₂ s₃ ∧ snapshot = snapshotOf r s₀ s₁ s₂ := by
  induction actions using List.reverseRecOn with
  | nil => cases h
  | append_singleton actions a ih =>
    rw [run_concat] at h
    have hold : (r, snapshot) ∈ (run ({} : State ι κ) actions).snapshots →
        ∃ s₀ s₁ s₂ s₃, Calls (actions ++ [a]) r s₀ s₁ s₂ s₃ ∧ snapshot = snapshotOf r s₀ s₁ s₂ := by
      intro hmem
      obtain ⟨s₀, s₁, s₂, s₃, hcalls, hsnapshot⟩ := ih hmem
      exact ⟨s₀, s₁, s₂, s₃ ++ [a], { hcalls with split := by simp [hcalls.split] }, hsnapshot⟩
    rcases snapshots_step (run ({} : State ι κ) actions) a with hsame | ⟨r', g, h', rfl, hr, hnew⟩
    · exact hold (hsame ▸ h)
    · rw [hnew, List.mem_append, List.mem_singleton] at h
      -- It was reported before, or the last load has reported it.
      rcases h with hmem | heq
      · exact hold hmem
      · -- The last load of the call is the last action of the run.
        cases heq
        have hloaded := loaded_run actions r
        rw [hr] at hloaded
        obtain ⟨s₀, s₁, s₂, rfl, hidle, hquiet₁, hquiet₂, rfl, rfl⟩ := hloaded
        exact ⟨s₀, s₁, s₂, [], ⟨rfl, hidle, hquiet₁, hquiet₂⟩, rfl⟩

/-- A reader stays where it is while it loads nothing. -/
theorem reader_run_of_quiet (m : State ι κ) {actions : List (Action ι κ)} {r : κ}
    (h : .load r ∉ actions) : (run m actions).reader r = m.reader r := by
  induction actions generalizing m with
  | nil => rfl
  | cons a actions ih =>
    simp only [List.mem_cons, not_or] at h
    have hrun : run m (a :: actions) = run (step m a) actions := rfl
    rw [hrun, ih _ h.2, reader_step_of_ne _ (Ne.symm h.1)]

/-- A reported snapshot stays reported. -/
theorem mem_snapshots_run {m : State ι κ} {x : κ × Snapshot} (h : x ∈ m.snapshots)
    (actions : List (Action ι κ)) : x ∈ (run m actions).snapshots := by
  induction actions generalizing m with
  | nil => exact h
  | cons a actions ih =>
    refine ih ?_
    -- A last load adds its snapshot behind those that are there.
    rcases snapshots_step m a with hsame | ⟨r, g, h', -, -, hnew⟩
    · exact hsame ▸ h
    · rw [hnew]
      exact List.mem_append_left _ h

/-- The snapshot of a call in the run is reported. -/
theorem Calls.mem_snapshots {actions : List (Action ι κ)} {r : κ} {s₀ s₁ s₂ s₃ : List (Action ι κ)}
    (h : Calls actions r s₀ s₁ s₂ s₃) :
    (r, snapshotOf r s₀ s₁ s₂) ∈ (run ({} : State ι κ) actions).snapshots := by
  obtain ⟨rfl, hidle, hquiet₁, hquiet₂⟩ := h
  have hget : (run ({} : State ι κ) (s₀ ++ .load r :: s₁)).reader r =
      .loadedGet (run ({} : State ι κ) s₀).getCount := by
    have hrun : run ({} : State ι κ) (s₀ ++ .load r :: s₁) =
        run (step (run {} s₀) (.load r)) s₁ := run_append ..
    rw [hrun, reader_run_of_quiet _ hquiet₁]
    simp [step, hidle]
  have hhit : (run ({} : State ι κ) (s₀ ++ .load r :: s₁ ++ .load r :: s₂)).reader r =
      .loadedHit (run ({} : State ι κ) s₀).getCount
        (run ({} : State ι κ) (s₀ ++ .load r :: s₁)).hitCount := by
    have hrun : run ({} : State ι κ) (s₀ ++ .load r :: s₁ ++ .load r :: s₂) =
        run (step (run {} (s₀ ++ .load r :: s₁)) (.load r)) s₂ := run_append ..
    rw [hrun, reader_run_of_quiet _ hquiet₂]
    simp [step, hget]
  have hrun : run ({} : State ι κ) (s₀ ++ .load r :: s₁ ++ .load r :: s₂ ++ .load r :: s₃) =
      run (step (run {} (s₀ ++ .load r :: s₁ ++ .load r :: s₂)) (.load r)) s₃ := run_append ..
  rw [hrun]
  refine mem_snapshots_run ?_ s₃
  simp only [step, hhit]
  exact List.mem_append_right _ (List.mem_singleton.mpr rfl)

/-! ## Consistency -/

/-- When the hits and misses are among the gets, so are the hits, and the rate is a rate. -/
theorem Snapshot.consistent_iff (s : Snapshot) :
    s.Consistent ↔ s.hitCount + s.missCount ≤ s.getCount := by
  refine ⟨fun h => h.1, fun h => ⟨h, by omega, ?_, ?_⟩⟩
  · unfold hitRate
    split_ifs
    · positivity
    · exact le_refl 0
  · unfold hitRate
    split_ifs with hpos
    · have hget : (0 : ℚ) < s.getCount := by exact_mod_cast hpos
      rw [div_le_one hget]
      exact_mod_cast (by omega : s.hitCount ≤ s.getCount)
    · exact zero_le_one

/-- For every interleaving of any number of clients in `get` and in `getStats`: all the snapshots
that are reported are consistent exactly when every call of `getStats` meets this condition. The
hits counted between its loads of `getCount_` and `hitCount_`, the misses counted between its loads
of `getCount_` and `missCount_`, and the calls of `get` counted twice before are together no more
than the calls in flight at its load of `getCount_`. -/
theorem snapshots_consistent_iff [Fintype ι] (actions : List (Action ι κ)) :
    (∀ x ∈ (run ({} : State ι κ) actions).snapshots, x.2.Consistent) ↔
      ∀ r s₀ s₁ s₂ s₃, Calls actions r s₀ s₁ s₂ s₃ →
        tally countsHit (run ({} : State ι κ) s₀) (.load r :: s₁) +
          tally countsMiss (run ({} : State ι κ) s₀) (.load r :: s₁ ++ .load r :: s₂) +
          tally countsAgain ({} : State ι κ) s₀ ≤ (run ({} : State ι κ) s₀).inFlight := by
  have key : ∀ r s₀ s₁ s₂, (snapshotOf r s₀ s₁ s₂).Consistent ↔
      tally countsHit (run ({} : State ι κ) s₀) (.load r :: s₁) +
        tally countsMiss (run ({} : State ι κ) s₀) (.load r :: s₁ ++ .load r :: s₂) +
        tally countsAgain ({} : State ι κ) s₀ ≤ (run ({} : State ι κ) s₀).inFlight := by
    intro r s₀ s₁ s₂
    have hbalanced : Balanced (run ({} : State ι κ) s₀) _ := balanced_run s₀
    unfold Balanced at hbalanced
    rw [Snapshot.consistent_iff, snapshotOf, List.append_assoc, run_append, run_append,
      hitCount_run, missCount_run]
    dsimp only
    omega
  constructor
  · intro h r s₀ s₁ s₂ s₃ hcalls
    exact (key r s₀ s₁ s₂).mp (h _ hcalls.mem_snapshots)
  · rintro h ⟨r, snapshot⟩ hmem
    obtain ⟨s₀, s₁, s₂, s₃, hcalls, rfl⟩ := calls_of_mem_snapshots hmem
    exact (key r s₀ s₁ s₂).mpr (h r s₀ s₁ s₂ s₃ hcalls)

end

/-- A client that makes one `get` and finds its key. -/
def hit : List (Action Unit Unit) := [.begin (), .lookup () true, .count (), .copy () false]

/-- A `getStats` whose load of `getCount_` is followed by a whole `get` reports two hits in one get,
and a hit rate of two. -/
theorem snapshot_inconsistent :
    (run ({} : State Unit Unit) (hit ++ [.load ()] ++ hit ++ [.load (), .load ()])).snapshots =
        [((), ⟨1, 2, 0⟩)] ∧
      (⟨1, 2, 0⟩ : Snapshot).hitRate = 2 ∧ ¬ (⟨1, 2, 0⟩ : Snapshot).Consistent := by
  refine ⟨by decide, by simp [Snapshot.hitRate], ?_⟩
  rw [Snapshot.consistent_iff]
  decide

end CacheServer.Stats
