import Mathlib.Data.List.Basic
import CacheServer.Manager.CacheLib

/-!
# The pattern matcher

`matchesPattern`, the iterative wildcard matcher of `scan`. It walks along the key and the pattern
with one backtrack point, the most recent `*` of the pattern together with the position in the key
up to which that `*` is assumed to reach.

Both positions move backwards on a mismatch, so the loop runs on fuel. The sum of `starKey`,
weighted with one more than the pattern's length, and the position in the pattern goes up in every
iteration, and this bounds the iterations.
-/

namespace CacheServer

namespace Glob

/-- The byte `*`. -/
def star : UInt8 := 42

/-- The byte `?`. -/
def question : UInt8 := 63

/-- The variables of the loop. `starPos` is `none` where the source has `kNone`. -/
structure MatchState where
  /-- Position in the key. -/
  k : ℕ := 0
  /-- Position in the pattern. -/
  p : ℕ := 0
  /-- Position in the pattern of the most recent `*`. -/
  starPos : Option ℕ := none
  /-- Position in the key that the `*` is assumed to consume up to. -/
  starKey : ℕ := 0
deriving DecidableEq, Repr

/-- One iteration of the loop, with a position that is inside the key. There is none after an
iteration that returns `false`. -/
def matchStep (key pattern : Bytes) (s : MatchState) : Option MatchState :=
  if s.p < pattern.length ∧ (pattern[s.p]? = some question ∨ pattern[s.p]? = key[s.k]?) then
    some { s with k := s.k + 1, p := s.p + 1 }
  else if s.p < pattern.length ∧ pattern[s.p]? = some star then
    some { s with starPos := some s.p, p := s.p + 1, starKey := s.k }
  else
    match s.starPos with
    -- Mismatch after a `*`, which swallows one more character.
    | some starPos => some { s with p := starPos + 1, starKey := s.starKey + 1, k := s.starKey + 1 }
    | none => none

/-- How the loop ends. -/
inductive MatchExit
  /-- The function returns `false` from inside the loop. -/
  | mismatch
  /-- The key is used up, at a position in the pattern. -/
  | keyEnd (p : ℕ)
deriving DecidableEq, Repr

/-- The loop, with fuel for a number of tests of its condition. -/
def matchLoop (key pattern : Bytes) : ℕ → MatchState → Option MatchExit
  | 0, _ => none
  | fuel + 1, s =>
    if s.k < key.length then
      match matchStep key pattern s with
      | some s' => matchLoop key pattern fuel s'
      | none => some .mismatch
    else some (.keyEnd s.p)

/-- The position in the pattern after the `*`s that stand at a position. -/
def skipStars (pattern : Bytes) (p : ℕ) : ℕ :=
  p + ((pattern.drop p).takeWhile (· = star)).length

/-- The fuel that the matcher runs its loop on. -/
def matchFuel (key pattern : Bytes) : ℕ := (key.length + 1) * (pattern.length + 1)

end Glob

open Glob in
/-- `matchesPattern`. -/
def matchesPattern (key pattern : Bytes) : Bool :=
  if pattern.isEmpty || pattern = [star] then true
  else
    match matchLoop key pattern (matchFuel key pattern) {} with
    -- Trailing `*`s may still match the empty remainder.
    | some (.keyEnd p) => skipStars pattern p = pattern.length
    | some .mismatch => false
    | none => false

namespace Glob

/-! ## The loop ends -/

/-- The positions are in range, and the backtrack point is not ahead of them. -/
structure MatchState.InRange (key pattern : Bytes) (s : MatchState) : Prop where
  /-- The position in the key is in range. -/
  k_le : s.k ≤ key.length
  /-- So is the one in the pattern. -/
  p_le : s.p ≤ pattern.length
  /-- The backtrack point is not ahead in the key. -/
  starKey_le : s.starKey ≤ s.k
  /-- Nor is it in the pattern. -/
  starPos_lt : ∀ i ∈ s.starPos, i < s.p

/-- The quantity that goes up in every iteration. -/
def MatchState.progress (pattern : Bytes) (s : MatchState) : ℕ :=
  s.starKey * (pattern.length + 1) + s.p

/-- The first branch of an iteration is taken: the pattern's byte matches the key's one for one. -/
def MatchState.Meets (key pattern : Bytes) (s : MatchState) : Prop :=
  s.p < pattern.length ∧ (pattern[s.p]? = some question ∨ pattern[s.p]? = key[s.k]?)

/-- The three ways to go on. -/
theorem matchStep_cases {key pattern : Bytes} {s s' : MatchState}
    (h : matchStep key pattern s = some s') :
    (s.Meets key pattern ∧ s' = { s with k := s.k + 1, p := s.p + 1 }) ∨
    (¬ s.Meets key pattern ∧ s.p < pattern.length ∧ pattern[s.p]? = some star ∧
      s' = { s with starPos := some s.p, p := s.p + 1, starKey := s.k }) ∨
    (¬ s.Meets key pattern ∧ pattern[s.p]? ≠ some star ∧ ∃ i, s.starPos = some i ∧
      s' = { s with p := i + 1, starKey := s.starKey + 1, k := s.starKey + 1 }) := by
  simp only [matchStep] at h
  split_ifs at h with h₁ h₂
  · exact .inl ⟨h₁, (Option.some.inj h).symm⟩
  · exact .inr (.inl ⟨h₁, h₂.1, h₂.2, (Option.some.inj h).symm⟩)
  · have hstar : pattern[s.p]? ≠ some star := fun hp =>
      h₂ ⟨(List.getElem?_eq_some_iff.mp hp).1, hp⟩
    cases hpos : s.starPos with
    | none => simp [hpos] at h
    | some i =>
      simp only [hpos, Option.some.injEq] at h
      exact .inr (.inr ⟨h₁, hstar, i, rfl, h.symm⟩)

/-- The one way not to. -/
theorem matchStep_eq_none {key pattern : Bytes} {s : MatchState}
    (h : matchStep key pattern s = none) :
    ¬ s.Meets key pattern ∧ pattern[s.p]? ≠ some star ∧ s.starPos = none := by
  simp only [matchStep] at h
  split_ifs at h with h₁ h₂
  have hstar : pattern[s.p]? ≠ some star := fun hp =>
    h₂ ⟨(List.getElem?_eq_some_iff.mp hp).1, hp⟩
  refine ⟨h₁, hstar, ?_⟩
  cases hpos : s.starPos with
  | none => rfl
  | some i => simp [hpos] at h

/-- The loop starts in range. -/
theorem inRange_start (key pattern : Bytes) : MatchState.InRange key pattern {} :=
  ⟨Nat.zero_le _, Nat.zero_le _, Nat.le_refl _, by simp⟩

/-- An iteration keeps the positions in range. -/
theorem MatchState.InRange.step {key pattern : Bytes} {s s' : MatchState}
    (h : s.InRange key pattern) (hk : s.k < key.length) (hs : matchStep key pattern s = some s') :
    s'.InRange key pattern := by
  obtain ⟨-, hp, hstar, hpos⟩ := h
  obtain ⟨⟨hlt, -⟩, rfl⟩ | ⟨-, hlt, -, rfl⟩ | ⟨-, -, i, hi, rfl⟩ := matchStep_cases hs
  · exact ⟨hk, hlt, Nat.le_succ_of_le hstar, fun i hi => Nat.lt_succ_of_lt (hpos i hi)⟩
  · refine ⟨Nat.le_of_lt hk, hlt, Nat.le_refl _, fun i hi => ?_⟩
    obtain rfl := Option.mem_some.mp hi
    exact Nat.lt_succ_self _
  · have hip := hpos i hi
    refine ⟨by dsimp only; omega, by dsimp only; omega, Nat.le_refl _, fun j hj => ?_⟩
    obtain rfl : i = j := Option.some.inj (hi.symm.trans hj)
    exact Nat.lt_succ_self i

/-- An iteration makes progress. -/
theorem progress_lt_of_step {key pattern : Bytes} {s s' : MatchState}
    (h : s.InRange key pattern) (hs : matchStep key pattern s = some s') :
    s.progress pattern < s'.progress pattern := by
  have hp := h.p_le
  simp only [MatchState.progress]
  obtain ⟨-, rfl⟩ | ⟨-, -, -, rfl⟩ | ⟨-, -, i, hi, rfl⟩ := matchStep_cases hs
  · exact Nat.lt_succ_self _
  · -- A new `*` takes the present position in the key, which is no earlier than the old one.
    have := Nat.mul_le_mul_right (pattern.length + 1) h.starKey_le
    dsimp only
    omega
  · -- A step of `starKey` outweighs the way back in the pattern.
    simp only [Nat.add_mul, Nat.one_mul]
    omega

/-- Inside the loop the progress is bounded. -/
theorem progress_lt {key pattern : Bytes} {s : MatchState} (h : s.InRange key pattern)
    (hk : s.k < key.length) : s.progress pattern < key.length * (pattern.length + 1) := by
  have hstar := h.starKey_le
  have hp := h.p_le
  have hmul : (s.starKey + 1) * (pattern.length + 1) ≤ key.length * (pattern.length + 1) :=
    Nat.mul_le_mul_right _ (by omega)
  simp only [Nat.add_mul, Nat.one_mul] at hmul
  simp only [MatchState.progress]
  omega

/-- Fuel for the progress that is left, and one test more, is enough. -/
theorem matchLoop_isSome {key pattern : Bytes} {fuel : ℕ} {s : MatchState}
    (h : s.InRange key pattern)
    (hfuel : key.length * (pattern.length + 1) < fuel + s.progress pattern) (hpos : 0 < fuel) :
    (matchLoop key pattern fuel s).isSome := by
  induction fuel generalizing s with
  | zero => omega
  | succ fuel ih =>
    simp only [matchLoop]
    split_ifs with hk
    · have hbound := progress_lt h hk
      cases hs : matchStep key pattern s with
      | none => rfl
      | some s' =>
        have hprogress := progress_lt_of_step h hs
        have hrange := h.step hk hs
        -- The last unit of fuel is for the test that leaves the loop.
        exact ih hrange (by omega) (by omega)
    · rfl

/-- The matcher's loop does not run out of fuel. -/
theorem matchLoop_matchFuel_isSome (key pattern : Bytes) :
    (matchLoop key pattern (matchFuel key pattern) {}).isSome := by
  have hfuel : key.length * (pattern.length + 1) < matchFuel key pattern := by
    simp only [matchFuel, Nat.add_mul, Nat.one_mul]
    omega
  refine matchLoop_isSome (inRange_start key pattern) ?_ (by omega)
  simpa [MatchState.progress] using hfuel

/-! ## The iterations one by one -/

/-- The variables after a number of iterations, unless the loop has ended before. -/
def matchIterate (key pattern : Bytes) : ℕ → MatchState → Option MatchState
  | 0, s => some s
  | n + 1, s =>
    if s.k < key.length then (matchStep key pattern s).bind (matchIterate key pattern n) else none

/-- The loop runs out of fuel when there are as many iterations. -/
theorem matchLoop_eq_none_iff (key pattern : Bytes) (n : ℕ) (s : MatchState) :
    matchLoop key pattern n s = none ↔ (matchIterate key pattern n s).isSome := by
  induction n generalizing s with
  | zero => simp [matchLoop, matchIterate]
  | succ n ih =>
    unfold matchLoop matchIterate
    split_ifs with hk
    · cases hs : matchStep key pattern s with
      | none => simp
      | some s' => simpa using ih s'
    · simp

/-- More fuel than enough makes no difference. -/
theorem matchLoop_of_le {key pattern : Bytes} {n fuel : ℕ} (hle : n ≤ fuel) {s : MatchState}
    {exit : MatchExit} (h : matchLoop key pattern n s = some exit) :
    matchLoop key pattern fuel s = some exit := by
  induction n generalizing fuel s with
  | zero => simp [matchLoop] at h
  | succ n ih =>
    obtain ⟨fuel, rfl⟩ : ∃ m, fuel = m + 1 := ⟨fuel - 1, by omega⟩
    unfold matchLoop at h ⊢
    split_ifs at h ⊢ with hk
    · cases hs : matchStep key pattern s with
      | none => simpa [hs] using h
      | some s' =>
        rw [hs] at h
        exact ih (by omega) h
    · exact h

/-- An iteration does not take `starKey` back. -/
theorem starKey_le_of_step {key pattern : Bytes} {s s' : MatchState} (h : s.InRange key pattern)
    (hs : matchStep key pattern s = some s') : s.starKey ≤ s'.starKey := by
  obtain ⟨-, rfl⟩ | ⟨-, -, -, rfl⟩ | ⟨-, -, i, -, rfl⟩ := matchStep_cases hs
  · exact Nat.le_refl _
  · exact h.starKey_le
  · exact Nat.le_succ _

/-- Any number of iterations keep the positions in range, and do not take `starKey` back. -/
theorem MatchState.InRange.iterate {key pattern : Bytes} {n : ℕ} {s s' : MatchState}
    (h : s.InRange key pattern) (hs : matchIterate key pattern n s = some s') :
    s'.InRange key pattern ∧ s.starKey ≤ s'.starKey := by
  induction n generalizing s with
  | zero =>
    obtain rfl : s = s' := Option.some.inj hs
    exact ⟨h, Nat.le_refl _⟩
  | succ n ih =>
    unfold matchIterate at hs
    split_ifs at hs with hk
    obtain ⟨s₁, hstep, hrest⟩ := Option.bind_eq_some_iff.mp hs
    obtain ⟨hrange, hle⟩ := ih (h.step hk hstep) hrest
    exact ⟨hrange, Nat.le_trans (starKey_le_of_step h hstep) hle⟩

end Glob

open Glob in
/-- For every key and pattern, the loop ends within `matchFuel` iterations, with any fuel from there
on, and in every iteration up to then the positions are in range, the backtrack point is not ahead
of them, and `starKey` has not gone back. -/
theorem matchLoop_bounded (key pattern : Bytes) :
    (∃ exit, ∀ fuel, (key.length + 1) * (pattern.length + 1) ≤ fuel →
      matchLoop key pattern fuel {} = some exit) ∧
    ∀ n s, matchIterate key pattern n {} = some s →
      n < (key.length + 1) * (pattern.length + 1) ∧
      s.p ≤ pattern.length ∧ s.starKey ≤ s.k ∧ s.k ≤ key.length ∧
      (∀ starPos, s.starPos = some starPos → starPos < s.p) ∧
      ∀ m s', matchIterate key pattern m s = some s' → s.starKey ≤ s'.starKey := by
  obtain ⟨exit, hexit⟩ := Option.isSome_iff_exists.mp (matchLoop_matchFuel_isSome key pattern)
  refine ⟨⟨exit, fun fuel hfuel => matchLoop_of_le hfuel hexit⟩, ?_⟩
  intro n s hs
  have hn : n < matchFuel key pattern := by
    -- With fuel for more tests than that, the loop would have ended.
    by_contra hle
    have hnone := (matchLoop_eq_none_iff key pattern n {}).mpr (by simp [hs])
    rw [matchLoop_of_le (Nat.le_of_not_lt hle) hexit] at hnone
    cases hnone
  obtain ⟨hrange, -⟩ := (inRange_start key pattern).iterate hs
  exact ⟨hn, hrange.p_le, hrange.starKey_le, hrange.k_le, hrange.starPos_lt,
    fun m s' hm => (hrange.iterate hm).2⟩

end CacheServer
