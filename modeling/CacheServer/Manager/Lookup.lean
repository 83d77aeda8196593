import CacheServer.Manager.Frame
import CacheServer.Manager.Stats

/-!
# Lookups that throw

`get` catches what CacheLib's lookup and the copy of the value throw. An exception of the lookup
comes before any effect, and the handler turns the call into a miss. An exception of the copy comes
after the hit has been counted and `found` has been set, and the handler counts a miss on top: the
caller gets a hit without a value. `lookups_whole_iff` says that this is the only way in which a
lookup is not whole, for one call, for runs of calls, and for any interleaving of concurrent ones.
-/

namespace CacheServer

/-- The result of `get` is a complete hit or a plain miss, one of `hitCount_` and `missCount_` goes
up by one, and it is `hitCount_` exactly on a hit. -/
structure WholeLookup (env : Env) (m : CacheManager) (key : Bytes) : Prop where
  /-- The result is a complete hit or a plain miss. -/
  result :
    (∃ item, m.found env.now key = some item ∧
      (m.get env key).1 =
        { found := true, value := item.value, ttlRemaining := item.ttlRemaining env.now }) ∨
    ((m.get env key).1.found = false ∧ (m.get env key).1.value = [])
  /-- One of the counters goes up by one. -/
  counted :
    ((m.get env key).2.hitCount = m.hitCount + 1 ∧ (m.get env key).2.missCount = m.missCount) ∨
    ((m.get env key).2.hitCount = m.hitCount ∧ (m.get env key).2.missCount = m.missCount + 1)
  /-- It is `hitCount_` exactly on a hit. -/
  hit_iff : (m.get env key).2.hitCount = m.hitCount + 1 ↔ (m.get env key).1.found = true

/-- The copy of the value does not throw when the call comes to it. -/
def CopyReturns (env : Env) (m : CacheManager) (key : Bytes) : Prop :=
  env.findThrows = false → (m.found env.now key).isSome = true → env.copyThrows = false

/-- The two ways through `get`: a miss, whatever the reason, and a hit, where the copy returns or
throws. -/
theorem CacheManager.get_cases (env : Env) (m : CacheManager) (key : Bytes) :
    (¬ (env.findThrows = false ∧ (m.found env.now key).isSome = true) ∧
      m.get env key =
        ({}, { m with getCount := m.getCount + 1, missCount := m.missCount + 1 })) ∨
    (env.findThrows = false ∧ ∃ item, m.found env.now key = some item ∧
      m.get env key =
        if env.copyThrows then
          ({ found := true }, { m with
            getCount := m.getCount + 1
            hitCount := m.hitCount + 1
            missCount := m.missCount + 1 })
        else
          ({ found := true, value := item.value, ttlRemaining := item.ttlRemaining env.now },
            { m with getCount := m.getCount + 1, hitCount := m.hitCount + 1 })) := by
  cases hm : m.cache with
  | none => exact .inl ⟨by simp [found, hm], by simp [get, hm]⟩
  | some store =>
    have hfound : m.found env.now key = store.find env.now key := by simp [found, hm]
    rw [hfound]
    cases hfind : env.findThrows with
    | true => exact .inl ⟨by simp, by simp [get, hm, hfind]⟩
    | false =>
      cases hitem : store.find env.now key with
      | none => exact .inl ⟨by simp, by simp [get, hm, hfind, hitem]⟩
      | some item =>
        refine .inr ⟨rfl, item, rfl, ?_⟩
        simp only [get, hm, hfind, hitem, Bool.false_eq_true, if_false]

/-- A lookup is whole exactly when its copy returns. -/
theorem wholeLookup_iff (env : Env) (m : CacheManager) (key : Bytes) :
    WholeLookup env m key ↔ CopyReturns env m key := by
  obtain ⟨hmiss, hget⟩ | ⟨hfind, item, hitem, hget⟩ := m.get_cases env key
  · -- A miss has nothing to copy, and is counted once.
    refine iff_of_true ⟨?_, ?_, ?_⟩ fun hfind hfound => absurd ⟨hfind, hfound⟩ hmiss
    · exact .inr (by simp [hget])
    · exact .inr (by simp [hget])
    · simp [hget]
  · rw [CopyReturns, hitem]
    cases hcopy : env.copyThrows with
    | true =>
      -- The hit has no value, and both counters have gone up.
      simp only [hcopy, if_true] at hget
      refine iff_of_false (fun h => ?_) (by simp [hfind])
      have hcounted := h.counted
      simp only [hget] at hcounted
      omega
    | false =>
      simp only [hcopy, Bool.false_eq_true, if_false] at hget
      refine iff_of_true ⟨?_, ?_, ?_⟩ (by simp)
      · exact .inl ⟨item, hitem, by rw [hget]⟩
      · exact .inl (by simp [hget])
      · simp [hget]

/-! ## Runs of calls -/

/-- The gets are the hits and the misses. -/
def CacheManager.Tallied (m : CacheManager) : Prop := m.getCount = m.hitCount + m.missCount

/-- The copies of all the lookups in a run return. -/
def CopiesReturn : CacheManager → List (Env × Op) → Prop
  | _, [] => True
  | m, (env, op) :: calls =>
    (∀ key, op = .get key → CopyReturns env m key) ∧ CopiesReturn (op.exec env m).2 calls

/-- The counters of the lookups after a call, which adds `gets`, `hits`, and `misses` to them. -/
structure Adds (m m' : CacheManager) (gets hits misses : ℕ) : Prop where
  /-- The lookups that are added. -/
  getCount : m'.getCount = m.getCount + gets
  /-- The hits that are added. -/
  hitCount : m'.hitCount = m.hitCount + hits
  /-- The misses that are added. -/
  missCount : m'.missCount = m.missCount + misses

/-- A `get` adds one to the gets, and one to the hits and misses if its copy returns, or else two.
-/
theorem get_adds (env : Env) (m : CacheManager) (key : Bytes) :
    ∃ hits misses, Adds m (m.get env key).2 1 hits misses ∧
      ((hits + misses = 1 ∧ CopyReturns env m key) ∨
        (hits + misses = 2 ∧ ¬ CopyReturns env m key)) := by
  obtain ⟨hmiss, hget⟩ | ⟨hfind, item, hitem, hget⟩ := m.get_cases env key
  · rw [hget]
    exact ⟨0, 1, ⟨rfl, rfl, rfl⟩, .inl ⟨rfl, fun hfind hfound => absurd ⟨hfind, hfound⟩ hmiss⟩⟩
  · rw [hget, CopyReturns, hitem]
    cases env.copyThrows with
    -- The hit is counted before the copy, and the miss when its exception is caught.
    | true => exact ⟨1, 1, ⟨rfl, rfl, rfl⟩, .inr ⟨rfl, by simp [hfind]⟩⟩
    | false => exact ⟨1, 0, ⟨rfl, rfl, rfl⟩, .inl ⟨rfl, by simp⟩⟩

/-- A store does not count lookups. -/
theorem setWithCreationTime_adds (env : Env) (m : CacheManager) (key value : Bytes)
    (ttl creation : UInt32) :
    Adds m (m.setWithCreationTime env key value ttl creation).2 0 0 0 := by
  cases hm : m.cache with
  | none => constructor <;> simp [CacheManager.setWithCreationTime, hm]
  | some store =>
    rw [CacheManager.setWithCreationTime_eq env hm]
    split_ifs <;> exact ⟨rfl, rfl, rfl⟩

/-- A removal does not count lookups. -/
theorem remove_adds (env : Env) (m : CacheManager) (key : Bytes) :
    Adds m (m.remove env key).2 0 0 0 := by
  cases hm : m.cache <;>
    exact ⟨by simp [CacheManager.remove, hm], by simp [CacheManager.remove, hm],
      by simp [CacheManager.remove, hm]⟩

/-- A read-modify-write call does not count its lookup. -/
theorem AtomicOp.exec_adds (env : Env) (m : CacheManager) (op : AtomicOp) :
    Adds m (op.exec env m).2 0 0 0 := by
  cases hm : m.cache with
  | none =>
    rw [(op.exec_uninitialized env hm).2]
    exact ⟨rfl, rfl, rfl⟩
  | some store =>
    -- On each of its paths the call leaves the counters of lookups as they are.
    obtain ⟨r, -, he⟩ | ⟨-, -, he⟩ | ⟨-, -, ⟨r, -, he⟩ | ⟨a, -, he⟩ |
      ⟨value, ttl, creation, finish, -, ⟨-, he⟩ | ⟨-, he⟩⟩⟩ := op.exec_cases env hm <;>
    · rw [he]
      exact ⟨rfl, rfl, rfl⟩

/-- A call adds as many to the gets as to the hits and misses, but for a `get` whose copy throws. -/
theorem Op.exec_adds (env : Env) (m : CacheManager) (op : Op) :
    ∃ gets hits misses, Adds m (op.exec env m).2 gets hits misses ∧
      ((hits + misses = gets ∧ ∀ key, op = .get key → CopyReturns env m key) ∨
        (hits + misses = gets + 1 ∧ ¬ ∀ key, op = .get key → CopyReturns env m key)) := by
  cases op with
  | get key =>
    obtain ⟨hits, misses, hadds, hcopy⟩ := get_adds env m key
    exact ⟨1, hits, misses, hadds, by simpa using hcopy⟩
  | «exists» key => exact ⟨0, 0, 0, ⟨rfl, rfl, rfl⟩, .inl ⟨rfl, by simp⟩⟩
  | getTTL key => exact ⟨0, 0, 0, ⟨rfl, rfl, rfl⟩, .inl ⟨rfl, by simp⟩⟩
  | set key value ttl =>
    exact ⟨0, 0, 0, setWithCreationTime_adds env m key value ttl 0, .inl ⟨rfl, by simp⟩⟩
  | remove key => exact ⟨0, 0, 0, remove_adds env m key, .inl ⟨rfl, by simp⟩⟩
  | atomic op => exact ⟨0, 0, 0, op.exec_adds env m, .inl ⟨rfl, by simp⟩⟩

/-- Over a run, the hits and misses get ahead of the gets by the number of copies that throw. -/
theorem execAll_ahead (m : CacheManager) (calls : List (Env × Op)) :
    ∃ n, (execAll m calls).2.hitCount + (execAll m calls).2.missCount + m.getCount =
        (execAll m calls).2.getCount + m.hitCount + m.missCount + n ∧
      (n = 0 ↔ CopiesReturn m calls) := by
  induction calls generalizing m with
  | nil => exact ⟨0, by simp only [execAll]; omega, by simp [CopiesReturn]⟩
  | cons x calls ih =>
    obtain ⟨env, op⟩ := x
    obtain ⟨n, hn, hreturn⟩ := ih (op.exec env m).2
    obtain ⟨gets, hits, misses, hadds, hstep⟩ := Op.exec_adds env m op
    rw [hadds.getCount, hadds.hitCount, hadds.missCount] at hn
    simp only [execAll, CopiesReturn]
    -- Without a copy that throws the lead stays, and with one it grows and never shrinks again.
    obtain ⟨hsum, hcopy⟩ | ⟨hsum, hcopy⟩ := hstep
    · exact ⟨n, by omega, by rw [hreturn]; exact ⟨fun h => ⟨hcopy, h⟩, And.right⟩⟩
    · exact ⟨n + 1, by omega, iff_of_false (Nat.succ_ne_zero n) fun h => hcopy h.1⟩

/-- From a state in which the gets are the hits and the misses, a run ends in another one exactly
when the copies of all its lookups return. -/
theorem execAll_tallied_iff {m : CacheManager} (h : m.Tallied) (calls : List (Env × Op)) :
    (execAll m calls).2.Tallied ↔ CopiesReturn m calls := by
  obtain ⟨n, hn, hreturn⟩ := execAll_ahead m calls
  unfold CacheManager.Tallied at h ⊢
  rw [← hreturn]
  omega

/-! ## Concurrent lookups -/

namespace Stats

variable {ι κ : Type} [DecidableEq ι] [DecidableEq κ]

/-- The action is a copy that throws. -/
def copyThrew (m : State ι κ) : Action ι κ → Bool
  | .copy i throws => throws && m.client i = .copying
  | _ => false

/-- One for a call that has caught an exception of its copy, and has not yet counted the miss. -/
def GetPhase.thrown : GetPhase → ℕ
  | .caught => 1
  | _ => 0

omit [DecidableEq κ] in
/-- A client that enters another phase keeps the number of exceptions caught, when it accounts for
those that it catches and counts. -/
theorem thrown_enter [Fintype ι] (m m' : State ι κ) (i : ι) (p : GetPhase)
    (hm' : m'.client = (m.enter i p).client) (counted threw : ℕ)
    (hp : p.thrown + counted = (m.client i).thrown + threw) :
    m'.weigh GetPhase.thrown + counted = m.weigh GetPhase.thrown + threw := by
  have henter := m.weigh_enter GetPhase.thrown i p
  have hweigh : m'.weigh GetPhase.thrown = (m.enter i p).weigh GetPhase.thrown := by
    rw [State.weigh, hm', State.weigh]
  omega

/-- An exception of a copy is caught first, and counted as a miss then. -/
theorem thrown_step [Fintype ι] (m : State ι κ) (a : Action ι κ) :
    (step m a).weigh GetPhase.thrown + (if countsAgain m a then 1 else 0) =
      m.weigh GetPhase.thrown + if copyThrew m a then 1 else 0 := by
  cases a with
  | begin i =>
    cases hi : m.client i with
    | idle => exact thrown_enter m _ i .counted (by simp [step, hi]) 0 0 (by rw [hi]; rfl)
    | _ => simp [step, countsAgain, copyThrew, hi]
  | lookup i found =>
    cases hi : m.client i with
    | counted =>
      exact thrown_enter m _ i (if found then .found else .missed) (by simp [step, hi]) 0 0
        (by rw [hi]; cases found <;> rfl)
    | _ => simp [step, countsAgain, copyThrew, hi]
  | count i =>
    cases hi : m.client i with
    | found =>
      simpa [countsAgain, copyThrew, hi] using
        thrown_enter m (step m (.count i)) i .copying (by simp [step, hi]) 0 0 (by rw [hi]; rfl)
    | missed =>
      simpa [countsAgain, copyThrew, hi] using
        thrown_enter m (step m (.count i)) i .idle (by simp [step, hi]) 0 0 (by rw [hi]; rfl)
    | caught =>
      simpa [countsAgain, copyThrew, hi] using
        thrown_enter m (step m (.count i)) i .idle (by simp [step, hi]) 1 0 (by rw [hi]; rfl)
    | _ => simp [step, countsAgain, copyThrew, hi]
  | copy i throws =>
    cases hi : m.client i with
    | copying =>
      have henter := thrown_enter m (step m (.copy i throws)) i (if throws then .caught else .idle)
        (by simp [step, hi]) 0 (if throws then 1 else 0) (by rw [hi]; cases throws <;> rfl)
      -- Caught here, and counted by the next action of the client.
      simpa [countsAgain, copyThrew, hi] using henter
    | _ => simp [step, countsAgain, copyThrew, hi]
  | load r => cases hr : m.reader r <;> simp [step, countsAgain, copyThrew, hr, State.weigh]

/-- Over a run, the exceptions that are caught are counted, but for those of calls in progress. -/
theorem thrown_run [Fintype ι] (m : State ι κ) (actions : List (Action ι κ)) :
    (run m actions).weigh GetPhase.thrown + tally countsAgain m actions =
      m.weigh GetPhase.thrown + tally copyThrew m actions := by
  induction actions generalizing m with
  | nil => rfl
  | cons a actions ih =>
    have hrun : run m (a :: actions) = run (step m a) actions := rfl
    have hstep := thrown_step m a
    have hrest := ih (step m a)
    rw [hrun, tally, tally]
    omega

/-- Whenever no lookup is in progress, the gets are the hits and the misses exactly when no copy has
thrown. -/
theorem tallied_iff [Fintype ι] {actions : List (Action ι κ)}
    (hidle : ∀ i, (run ({} : State ι κ) actions).client i = .idle) :
    (run ({} : State ι κ) actions).getCount =
        (run ({} : State ι κ) actions).hitCount + (run ({} : State ι κ) actions).missCount ↔
      tally copyThrew ({} : State ι κ) actions = 0 := by
  have hbalanced : Balanced (run ({} : State ι κ) actions) _ := balanced_run actions
  have hthrown := thrown_run ({} : State ι κ) actions
  -- No call is in flight, and no exception waits to be counted.
  simp only [Balanced, State.inFlight, hidle, GetPhase.pending, Finset.sum_const_zero] at hbalanced
  simp only [State.weigh, hidle, GetPhase.thrown, Finset.sum_const_zero] at hthrown
  omega

end Stats

/-! ## All of them -/

/-- For every state, environment, and key: a lookup is whole exactly when its copy returns, if it
comes to it. For every run of calls from a state in which the gets are the hits and the misses, they
are so again after the run exactly when the copies of all its lookups return. And for every
interleaving of concurrent lookups, they are so, whenever no lookup is in progress, exactly when no
copy has thrown. -/
theorem lookups_whole_iff {ι κ : Type} [DecidableEq ι] [DecidableEq κ] [Fintype ι]
    (env : Env) (m : CacheManager) (key : Bytes) {m₀ : CacheManager} (htallied : m₀.Tallied)
    (calls : List (Env × Op)) {actions : List (Stats.Action ι κ)}
    (hidle : ∀ i, (Stats.run ({} : Stats.State ι κ) actions).client i = .idle) :
    (WholeLookup env m key ↔ CopyReturns env m key) ∧
    ((execAll m₀ calls).2.Tallied ↔ CopiesReturn m₀ calls) ∧
    ((Stats.run ({} : Stats.State ι κ) actions).getCount =
        (Stats.run ({} : Stats.State ι κ) actions).hitCount +
          (Stats.run ({} : Stats.State ι κ) actions).missCount ↔
      Stats.tally Stats.copyThrew ({} : Stats.State ι κ) actions = 0) :=
  ⟨wholeLookup_iff env m key, execAll_tallied_iff htallied calls, Stats.tallied_iff hidle⟩

/-- A cache where the key `k` holds `a`. -/
def oneKey : CacheManager where
  maxItemSize := 1024
  cache := some fun key => if key = [107] then some ⟨[97], 5, 0⟩ else none

/-- A lookup of a key that is there, and a run and an interleaving of one lookup. -/
theorem lookups_whole_iff_hit :
    (WholeLookup { now := 5 } oneKey [107] ↔ CopyReturns { now := 5 } oneKey [107]) ∧
    ((execAll oneKey [({ now := 5 }, .get [107])]).2.Tallied ↔
      CopiesReturn oneKey [({ now := 5 }, .get [107])]) ∧
    ((Stats.run ({} : Stats.State Unit Unit) Stats.hit).getCount =
        (Stats.run ({} : Stats.State Unit Unit) Stats.hit).hitCount +
          (Stats.run ({} : Stats.State Unit Unit) Stats.hit).missCount ↔
      Stats.tally Stats.copyThrew ({} : Stats.State Unit Unit) Stats.hit = 0) :=
  lookups_whole_iff { now := 5 } oneKey [107] (show oneKey.Tallied from rfl)
    [({ now := 5 }, .get [107])] (by decide)

/-- When the copy of the value of a key that is there throws, the result says that the key was found
and has no value, both counters go up, and the hits and misses are more than the gets. -/
theorem lookup_torn :
    (oneKey.get { now := 5, copyThrows := true } [107]).1 = { found := true, value := [] } ∧
      (oneKey.get { now := 5, copyThrows := true } [107]).2.getCount = 1 ∧
      (oneKey.get { now := 5, copyThrows := true } [107]).2.hitCount = 1 ∧
      (oneKey.get { now := 5, copyThrows := true } [107]).2.missCount = 1 ∧
      ¬ WholeLookup { now := 5, copyThrows := true } oneKey [107] := by
  refine ⟨by decide, by decide, by decide, by decide, fun h => ?_⟩
  exact absurd h.counted (by decide)

end CacheServer
