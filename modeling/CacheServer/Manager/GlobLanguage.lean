import Mathlib.Data.Set.Insert
import CacheServer.Manager.Glob

/-!
# What the matcher accepts

The documented meaning of a pattern is its glob `language`. The loop compares the two bytes before
it looks for a wildcard, so a `*` of the pattern that meets a `*` byte of the key is taken for that
byte and nothing else. The language in which it is so is `literalLanguage`, and it is what
`matchesPattern` decides (`matchesPattern_iff_mem_literalLanguage`). The two languages agree on
keys without a `*`, and the second is the smaller one on any other.

The loop has one backtrack point and forgets the earlier ones. This loses no match: from the
backtrack point to the present position the pattern has been matched byte for byte, and
a match that starts further on in the key reaches the same place in the pattern no earlier
(`exists_reaches_of_aligned`).
-/

namespace CacheServer

namespace Glob

/-- The glob language of a pattern: `*` matches any bytes, `?` matches one, and any other byte
matches itself. -/
def language : Bytes → Set Bytes
  | [] => {[]}
  | c :: pattern =>
    if c = star then {key | ∃ skipped rest, key = skipped ++ rest ∧ rest ∈ language pattern}
    else if c = question then {key | ∃ b rest, key = b :: rest ∧ rest ∈ language pattern}
    else {key | ∃ rest, key = c :: rest ∧ rest ∈ language pattern}

/-- The language of a pattern in which a `*` that meets a `*` byte of the key matches this byte
alone. -/
def literalLanguage : Bytes → Set Bytes
  | [] => {[]}
  | c :: pattern => {key |
    match key with
    | [] => c = star ∧ [] ∈ literalLanguage pattern
    | b :: rest =>
      if c = question ∨ c = b then rest ∈ literalLanguage pattern
      else c = star ∧ ∃ skipped rest', key = skipped ++ rest' ∧ rest' ∈ literalLanguage pattern}

/-! ## The two languages -/

/-- At the end of the key, a `*` is skipped. -/
theorem nil_mem_literalLanguage_cons {c : UInt8} {pattern : Bytes} :
    [] ∈ literalLanguage (c :: pattern) ↔ c = star ∧ [] ∈ literalLanguage pattern :=
  Iff.rfl

/-- Inside the key, the two bytes are compared before the `*` is considered. -/
theorem cons_mem_literalLanguage_cons {b c : UInt8} {rest pattern : Bytes} :
    b :: rest ∈ literalLanguage (c :: pattern) ↔
      if c = question ∨ c = b then rest ∈ literalLanguage pattern
      else c = star ∧
        ∃ skipped rest', b :: rest = skipped ++ rest' ∧ rest' ∈ literalLanguage pattern :=
  Iff.rfl

/-- The smaller language is the smaller one. -/
theorem literalLanguage_subset_language (pattern : Bytes) :
    literalLanguage pattern ⊆ language pattern := by
  induction pattern with
  | nil => exact subset_rfl
  | cons c pattern ih =>
    intro key hkey
    rw [language]
    cases key with
    | nil =>
      obtain ⟨hstar, hrest⟩ := nil_mem_literalLanguage_cons.mp hkey
      rw [if_pos hstar]
      exact ⟨[], [], rfl, ih hrest⟩
    | cons b rest =>
      rw [cons_mem_literalLanguage_cons] at hkey
      by_cases hmeets : c = question ∨ c = b
      · rw [if_pos hmeets] at hkey
        split_ifs with hstar hquestion
        · exact ⟨[b], rest, rfl, ih hkey⟩
        · exact ⟨b, rest, rfl, ih hkey⟩
        · rw [hmeets.resolve_left hquestion]
          exact ⟨rest, rfl, ih hkey⟩
      · rw [if_neg hmeets] at hkey
        obtain ⟨hstar, skipped, rest', hsplit, hrest⟩ := hkey
        rw [if_pos hstar]
        exact ⟨skipped, rest', hsplit, ih hrest⟩

/-- Where no `*` of the pattern can meet a `*` byte of the key, the languages agree. -/
theorem mem_literalLanguage_iff {key pattern : Bytes} (h : star ∈ pattern → star ∉ key) :
    key ∈ literalLanguage pattern ↔ key ∈ language pattern := by
  refine ⟨fun hkey => literalLanguage_subset_language pattern hkey, fun hkey => ?_⟩
  induction pattern generalizing key with
  | nil => exact hkey
  | cons c pattern ih =>
    have htail : ∀ skipped rest : Bytes, key = skipped ++ rest → rest ∈ language pattern →
        rest ∈ literalLanguage pattern := by
      rintro skipped rest rfl hrest
      exact ih (fun hp hr => h (List.mem_cons_of_mem _ hp) (List.mem_append_right _ hr)) hrest
    rw [language] at hkey
    split_ifs at hkey with hstar hquestion
    · obtain ⟨skipped, rest, hsplit, hrest⟩ := hkey
      cases key with
      | nil =>
        obtain rfl : rest = [] := (List.append_eq_nil_iff.mp hsplit.symm).2
        exact nil_mem_literalLanguage_cons.mpr ⟨hstar, htail _ _ hsplit hrest⟩
      | cons b key =>
        -- The `*` does not meet a `*` byte, so it is free to match any number of bytes.
        have hmeets : ¬ (c = question ∨ c = b) := by
          subst hstar
          rintro (hq | rfl)
          · exact absurd hq (by decide)
          · exact h List.mem_cons_self List.mem_cons_self
        rw [cons_mem_literalLanguage_cons, if_neg hmeets]
        exact ⟨hstar, skipped, rest, hsplit, htail _ _ hsplit hrest⟩
    · obtain ⟨b, rest, rfl, hrest⟩ := hkey
      rw [cons_mem_literalLanguage_cons, if_pos (.inl hquestion)]
      exact htail [b] rest rfl hrest
    · obtain ⟨rest, rfl, hrest⟩ := hkey
      rw [cons_mem_literalLanguage_cons, if_pos (.inr rfl)]
      exact htail [c] rest rfl hrest

/-! ## Positions -/

/-- The rest of the key matches the rest of the pattern. -/
def Reaches (key pattern : Bytes) (p k : ℕ) : Prop := key.drop k ∈ literalLanguage (pattern.drop p)

section

variable {key pattern : Bytes} {p k : ℕ}

/-- Past the end of the key, all positions are the same. -/
theorem reaches_of_length_le {k' : ℕ} (h : key.length ≤ k) (h' : key.length ≤ k')
    (hr : Reaches key pattern p k) : Reaches key pattern p k' := by
  rw [Reaches, List.drop_of_length_le h] at hr
  rwa [Reaches, List.drop_of_length_le h']

/-- At the end of the key, a wildcard is skipped. -/
theorem reaches_keyEnd_cons (h : key.length ≤ k) {c : UInt8} (hp : pattern[p]? = some c) :
    Reaches key pattern p k ↔ c = star ∧ Reaches key pattern (p + 1) k := by
  obtain ⟨hlt, rfl⟩ := List.getElem?_eq_some_iff.mp hp
  simp only [Reaches, List.drop_of_length_le h, List.drop_eq_getElem_cons hlt]
  rfl

/-- Inside the key, one byte of the pattern is matched at a time. -/
theorem reaches_cons {b c : UInt8} (hp : pattern[p]? = some c) (hk : key[k]? = some b) :
    Reaches key pattern p k ↔
      if c = question ∨ c = b then Reaches key pattern (p + 1) (k + 1)
      else c = star ∧ ∃ j, k ≤ j ∧ Reaches key pattern (p + 1) j := by
  obtain ⟨hplt, rfl⟩ := List.getElem?_eq_some_iff.mp hp
  obtain ⟨hklt, rfl⟩ := List.getElem?_eq_some_iff.mp hk
  have hsuffix : (∃ skipped rest, key.drop k = skipped ++ rest ∧
      rest ∈ literalLanguage (pattern.drop (p + 1))) ↔
      ∃ j, k ≤ j ∧ Reaches key pattern (p + 1) j := by
    constructor
    · rintro ⟨skipped, rest, hsplit, hrest⟩
      refine ⟨k + skipped.length, Nat.le_add_right _ _, ?_⟩
      have hdrop : key.drop (k + skipped.length) = rest := by
        rw [← List.drop_drop, hsplit, List.drop_left]
      rwa [Reaches, hdrop]
    · rintro ⟨j, hj, hr⟩
      refine ⟨(key.drop k).take (j - k), key.drop j, ?_, hr⟩
      have hdrop : key.drop j = (key.drop k).drop (j - k) := by
        rw [List.drop_drop, Nat.add_sub_cancel' hj]
      rw [hdrop, List.take_append_drop]
  rw [← hsuffix]
  simp only [Reaches, List.drop_eq_getElem_cons hplt, List.drop_eq_getElem_cons hklt]
  rfl

/-- The end of the pattern is reached at the end of the key only. -/
theorem not_reaches_patternEnd (hp : pattern.length ≤ p) (hk : k < key.length) :
    ¬ Reaches key pattern p k := by
  rw [Reaches, List.drop_of_length_le hp]
  intro h
  have hlen := List.drop_eq_nil_iff.mp (Set.mem_singleton_iff.mp h)
  omega

/-- At the end of the key, the `*`s that are left are skipped. -/
theorem reaches_keyEnd (h : key.length ≤ k) (hp : p ≤ pattern.length) :
    Reaches key pattern p k ↔ skipStars pattern p = pattern.length := by
  induction hn : pattern.length - p generalizing p with
  | zero =>
    obtain rfl : p = pattern.length := by omega
    simp [Reaches, skipStars, List.drop_of_length_le h, literalLanguage]
  | succ n ih =>
    have hlt : p < pattern.length := by omega
    rw [reaches_keyEnd_cons h (List.getElem?_eq_getElem hlt), ih (by omega) (by omega)]
    simp only [skipStars, List.drop_eq_getElem_cons hlt, List.takeWhile_cons]
    by_cases hstar : pattern[p] = star
    · simp only [hstar, true_and, decide_true, if_true, List.length_cons]
      omega
    · simp only [hstar, false_and, decide_false, Bool.false_eq_true, if_false, List.length_nil,
        Nat.add_zero, false_iff]
      exact Nat.ne_of_lt hlt

/-! ## The backtrack point -/

/-- From a place in the pattern and the key, the next bytes have been matched one for one. -/
def Matched (key pattern : Bytes) (p k n : ℕ) : Prop :=
  ∀ d < n, k + d < key.length ∧
    ∃ c, pattern[p + d]? = some c ∧ (c = question ∨ key[k + d]? = some c)

/-- A match that starts further on in the key is further on, or in the same place, where the bytes
that have been matched one for one end. -/
theorem exists_reaches_of_aligned {n k' : ℕ} (h : Matched key pattern p k n) (hk : k ≤ k')
    (hr : Reaches key pattern p k') : ∃ j, k + n ≤ j ∧ Reaches key pattern (p + n) j := by
  induction n generalizing p k k' with
  | zero => exact ⟨k', hk, hr⟩
  | succ n ih =>
    obtain ⟨hlt, c, hc, hmeets⟩ := h 0 (Nat.succ_pos n)
    rw [Nat.add_zero] at hlt hc hmeets
    have htail : Matched key pattern (p + 1) (k + 1) n := by
      intro d hd
      have := h (d + 1) (Nat.succ_lt_succ hd)
      rwa [show k + (d + 1) = k + 1 + d by omega, show p + (d + 1) = p + 1 + d by omega] at this
    -- It is enough to be no earlier after one byte of the pattern.
    suffices hnext : ∃ j, k + 1 ≤ j ∧ Reaches key pattern (p + 1) j by
      obtain ⟨j, hj, hr'⟩ := hnext
      obtain ⟨j', hj', hr''⟩ := ih htail hj hr'
      exact ⟨j', by omega, by rwa [show p + (n + 1) = p + 1 + n by omega]⟩
    by_cases hend : key.length ≤ k'
    · exact ⟨k', by omega, ((reaches_keyEnd_cons hend hc).mp hr).2⟩
    · obtain ⟨b, hb⟩ : ∃ b, key[k']? = some b := ⟨_, List.getElem?_eq_getElem (by omega)⟩
      rw [reaches_cons hc hb] at hr
      split_ifs at hr with hbyte
      · exact ⟨k' + 1, by omega, hr⟩
      · obtain ⟨rfl, j, hj, hr'⟩ := hr
        -- The `*` has met a `*` byte at `k`, and meets another byte at `k'`.
        have hne : k ≠ k' := by
          rintro rfl
          obtain hq | hk := hmeets
          · exact absurd hq (by decide)
          · exact hbyte (.inr (Option.some.inj (hk.symm.trans hb)))
        exact ⟨j, by omega, hr'⟩

end

/-- From the backtrack point to the present position, the bytes have been matched one for one. -/
def MatchState.Aligned (key pattern : Bytes) (s : MatchState) : Prop :=
  ∀ i ∈ s.starPos, ∃ n, s.p = i + 1 + n ∧ s.k = s.starKey + n ∧
    Matched key pattern (i + 1) s.starKey n

/-- There is a match from the present position, or from a later one for the `*` at the backtrack
point. -/
def MatchState.Promising (key pattern : Bytes) (s : MatchState) : Prop :=
  Reaches key pattern s.p s.k ∨
    ∃ i ∈ s.starPos, ∃ j, s.starKey < j ∧ Reaches key pattern (i + 1) j

/-! ## One iteration -/

section

variable {key pattern : Bytes} {s s' : MatchState}

/-- Inside the key and the pattern, the first branch is taken on `?` and on equal bytes. -/
theorem MatchState.meets_iff {b c : UInt8} (hp : pattern[s.p]? = some c)
    (hk : key[s.k]? = some b) : s.Meets key pattern ↔ c = question ∨ c = b := by
  have hlt := (List.getElem?_eq_some_iff.mp hp).1
  simp only [MatchState.Meets, hlt, true_and, hp, hk, Option.some.injEq]

/-- An iteration keeps the bytes since the backtrack point matched one for one. -/
theorem MatchState.Aligned.step (h : s.Aligned key pattern) (hk : s.k < key.length)
    (hs : matchStep key pattern s = some s') : s'.Aligned key pattern := by
  obtain ⟨hmeets, rfl⟩ | ⟨-, hlt, -, rfl⟩ | ⟨-, -, i, hi, rfl⟩ := matchStep_cases hs
  · intro i hi
    obtain ⟨n, hp, hkey, hmatched⟩ := h i hi
    refine ⟨n + 1, by dsimp only; omega, by dsimp only; omega, fun d hd => ?_⟩
    obtain hd | rfl := Nat.lt_succ_iff_lt_or_eq.mp hd
    · exact hmatched d hd
    · -- The byte that this iteration has matched.
      have hbyte := List.getElem?_eq_getElem hmeets.1
      rw [← hp, ← hkey]
      refine ⟨hk, _, hbyte, ?_⟩
      obtain hq | hb := hmeets.2
      · exact .inl (Option.some.inj (hbyte.symm.trans hq))
      · exact .inr (hb.symm.trans hbyte)
  · intro i hi
    obtain rfl := Option.mem_some.mp hi
    exact ⟨0, rfl, rfl, fun d hd => absurd hd (Nat.not_lt_zero d)⟩
  · intro j hj
    obtain rfl : i = j := Option.some.inj (hi.symm.trans hj)
    exact ⟨0, rfl, rfl, fun d hd => absurd hd (Nat.not_lt_zero d)⟩

/-- Where neither of the first two branches is taken, there is no match from here. -/
theorem not_reaches_of_mismatch (hk : s.k < key.length) (hmeets : ¬ s.Meets key pattern)
    (hstar : pattern[s.p]? ≠ some star) : ¬ Reaches key pattern s.p s.k := by
  cases hp : pattern[s.p]? with
  | none => exact not_reaches_patternEnd (List.getElem?_eq_none_iff.mp hp) hk
  | some c =>
    have hb := List.getElem?_eq_getElem hk
    rw [reaches_cons hp hb, if_neg (mt (MatchState.meets_iff hp hb).mpr hmeets)]
    rintro ⟨rfl, -⟩
    exact hstar hp

/-- From a place on: in this place, or in a later one. -/
theorem exists_le_iff {P : ℕ → Prop} {k : ℕ} :
    (∃ j, k ≤ j ∧ P j) ↔ P k ∨ ∃ j, k < j ∧ P j := by
  simp only [Nat.le_iff_lt_or_eq, or_and_right, exists_or, exists_eq_left', or_comm]

/-- A match for the backtrack point is one, no earlier, for the present position. -/
theorem MatchState.Aligned.exists_reaches (h : s.Aligned key pattern) {i j : ℕ}
    (hi : i ∈ s.starPos) (hj : s.starKey < j) (hr : Reaches key pattern (i + 1) j) :
    ∃ j', s.k ≤ j' ∧ Reaches key pattern s.p j' := by
  obtain ⟨n, hp, hkey, hmatched⟩ := h i hi
  rw [hp, hkey]
  exact exists_reaches_of_aligned hmatched (Nat.le_of_lt hj) hr

/-- An iteration neither loses a match nor makes one up. -/
theorem MatchState.promising_step (h : s.Aligned key pattern) (hk : s.k < key.length)
    (hs : matchStep key pattern s = some s') :
    s'.Promising key pattern ↔ s.Promising key pattern := by
  have hb := List.getElem?_eq_getElem hk
  obtain ⟨hmeets, rfl⟩ | ⟨hmeets, hlt, hstar, rfl⟩ | ⟨hmeets, hstar, i, hi, rfl⟩ :=
    matchStep_cases hs
  · have hp := List.getElem?_eq_getElem hmeets.1
    simp only [MatchState.Promising, reaches_cons hp hb, if_pos ((meets_iff hp hb).mp hmeets)]
  · have hhere : Reaches key pattern s.p s.k ↔ ∃ j, s.k ≤ j ∧ Reaches key pattern (s.p + 1) j := by
      rw [reaches_cons hstar hb, if_neg (mt (meets_iff hstar hb).mpr hmeets)]
      exact and_iff_right rfl
    -- A match for the `*` that is forgotten is one for the new `*`.
    have hold : (∃ i ∈ s.starPos, ∃ j, s.starKey < j ∧ Reaches key pattern (i + 1) j) →
        Reaches key pattern s.p s.k := by
      rintro ⟨i, hi, j, hj, hr⟩
      obtain ⟨j', hj', hr'⟩ := h.exists_reaches hi hj hr
      by_cases hend : key.length ≤ j'
      · exact hhere.mpr ⟨j', hj', ((reaches_keyEnd_cons hend hstar).mp hr').2⟩
      · have hb' := List.getElem?_eq_getElem (Nat.lt_of_not_le hend)
        rw [reaches_cons hstar hb'] at hr'
        split_ifs at hr'
        · exact hhere.mpr ⟨j' + 1, Nat.le_succ_of_le hj', hr'⟩
        · obtain ⟨-, j'', hj'', hr''⟩ := hr'
          exact hhere.mpr ⟨j'', Nat.le_trans hj' hj'', hr''⟩
    simp only [MatchState.Promising, Option.mem_some_iff, exists_eq_left', ← exists_le_iff,
      ← hhere]
    exact ⟨.inl, fun hr => hr.elim id hold⟩
  · have hnot := not_reaches_of_mismatch hk hmeets hstar
    simp only [MatchState.Promising, hi, Option.mem_some_iff, exists_eq_left', hnot, false_or,
      ← exists_le_iff, Nat.succ_le_iff]

/-! ## Whole runs -/

/-- The loop ends with the answer that it promised. -/
theorem matchLoop_spec {fuel : ℕ} {exit : MatchExit} (hrange : s.InRange key pattern)
    (h : s.Aligned key pattern) (hs : matchLoop key pattern fuel s = some exit) :
    s.Promising key pattern ↔ ∃ p, exit = .keyEnd p ∧ skipStars pattern p = pattern.length := by
  induction fuel generalizing s with
  | zero => simp [matchLoop] at hs
  | succ fuel ih =>
    simp only [matchLoop] at hs
    split_ifs at hs with hk
    · cases hstep : matchStep key pattern s with
      | some s' =>
        rw [hstep] at hs
        rw [← MatchState.promising_step h hk hstep]
        exact ih (hrange.step hk hstep) (h.step hk hstep) hs
      | none =>
        rw [hstep] at hs
        cases hs
        obtain ⟨hmeets, hstar, hpos⟩ := matchStep_eq_none hstep
        have hnot := not_reaches_of_mismatch hk hmeets hstar
        simp [MatchState.Promising, hpos, hnot]
    · cases hs
      have hend : key.length ≤ s.k := Nat.le_of_not_lt hk
      simp only [MatchExit.keyEnd.injEq, exists_eq_left', ← reaches_keyEnd hend hrange.p_le]
      refine ⟨fun hpromising => hpromising.elim id ?_, .inl⟩
      -- A match for the backtrack point would have come to the end of the key as well.
      rintro ⟨i, hi, j, hj, hr⟩
      obtain ⟨j', hj', hr'⟩ := h.exists_reaches hi hj hr
      exact reaches_of_length_le (Nat.le_trans hend hj') hend hr'

end

end Glob

open Glob

/-- `matchesPattern` decides the smaller language, but for the pattern `*` alone. -/
theorem matchesPattern_iff_mem_literalLanguage {key pattern : Bytes} (hne : pattern ≠ [])
    (hstar : pattern ≠ [star]) :
    matchesPattern key pattern = true ↔ key ∈ literalLanguage pattern := by
  obtain ⟨exit, hexit⟩ := Option.isSome_iff_exists.mp (matchLoop_matchFuel_isSome key pattern)
  have hspec := matchLoop_spec (inRange_start key pattern) (by simp [MatchState.Aligned]) hexit
  have hstart : MatchState.Promising key pattern {} ↔ key ∈ literalLanguage pattern := by
    simp [MatchState.Promising, Reaches]
  rw [← hstart, hspec]
  have hloop : ¬ (pattern.isEmpty || pattern = [star]) = true := by simp [hne, hstar]
  rw [matchesPattern, if_neg hloop, hexit]
  cases exit <;> simp

/-- The pattern `*` alone matches every key. -/
theorem mem_language_star (key : Bytes) : key ∈ language [star] :=
  ⟨key, [], by simp, rfl⟩

/-! ## Keys without a `*` -/

/-- For every key without a `*` byte and every pattern that is not empty, `matchesPattern` returns
`true` exactly when the key is in the language of the pattern. -/
theorem matchesPattern_iff_mem_language {key pattern : Bytes} (hkey : star ∉ key)
    (hpattern : pattern ≠ []) :
    matchesPattern key pattern = true ↔ key ∈ language pattern := by
  by_cases hstar : pattern = [star]
  · subst hstar
    simp [matchesPattern, mem_language_star]
  · rw [matchesPattern_iff_mem_literalLanguage hpattern hstar,
      mem_literalLanguage_iff fun _ => hkey]

/-- The key `abcab` and the pattern `a*?b`, where the loop has to backtrack. -/
theorem matchesPattern_iff_mem_language_backtrack :
    matchesPattern [97, 98, 99, 97, 98] [97, 42, 63, 98] = true ↔
      [97, 98, 99, 97, 98] ∈ language [97, 42, 63, 98] :=
  matchesPattern_iff_mem_language (by decide) (by decide)

/-! ## Keys with a `*` -/

/-- The key with another byte in the place of every `*`. -/
def replaceStars (b : UInt8) (key : Bytes) : Bytes := key.map fun x => if x = star then b else x

/-- A byte that the pattern does not have is as good as a `*` byte. -/
theorem replaceStars_mem_language_iff {b : UInt8} {key pattern : Bytes} (hb : b ∉ pattern) :
    replaceStars b key ∈ language pattern ↔ key ∈ language pattern := by
  induction pattern generalizing key with
  | nil => simp [language, replaceStars]
  | cons c pattern ih =>
    have htail : b ∉ pattern := fun h => hb (List.mem_cons_of_mem _ h)
    rw [language]
    split_ifs with hstar hquestion
    · constructor
      · rintro ⟨skipped, rest, hsplit, hrest⟩
        obtain ⟨skipped, rest, rfl, rfl, rfl⟩ := List.map_eq_append_iff.mp hsplit
        exact ⟨skipped, rest, rfl, (ih htail).mp hrest⟩
      · rintro ⟨skipped, rest, rfl, hrest⟩
        exact ⟨_, _, List.map_append, (ih htail).mpr hrest⟩
    · constructor
      · rintro ⟨x, rest, hsplit, hrest⟩
        obtain ⟨x, rest, rfl, rfl, rfl⟩ := List.map_eq_cons_iff.mp hsplit
        exact ⟨x, rest, rfl, (ih htail).mp hrest⟩
      · rintro ⟨x, rest, rfl, hrest⟩
        exact ⟨_, _, List.map_cons, (ih htail).mpr hrest⟩
    · constructor
      · rintro ⟨rest, hsplit, hrest⟩
        obtain ⟨x, rest, rfl, hx, rfl⟩ := List.map_eq_cons_iff.mp hsplit
        -- The byte that took the place of a `*` is not in the pattern, so `x` is no `*`.
        have hxc : x = c := by
          split_ifs at hx
          · exact absurd (hx ▸ List.mem_cons_self) hb
          · exact hx
        exact ⟨rest, by rw [hxc], (ih htail).mp hrest⟩
      · rintro ⟨rest, rfl, hrest⟩
        exact ⟨_, by simp [replaceStars, hstar], (ih htail).mpr hrest⟩

/-- A key with its `*`s replaced is matched as the language says. -/
theorem matchesPattern_replaceStars {b : UInt8} {key pattern : Bytes} (hpattern : pattern ≠ [])
    (hb : b ∉ pattern) :
    matchesPattern (replaceStars b key) pattern = true ↔ key ∈ language pattern := by
  by_cases hstar : pattern = [star]
  · subst hstar
    simp [matchesPattern, mem_language_star]
  · have hmeet : star ∈ pattern → star ∉ replaceStars b key := by
      intro hmem hkey
      obtain ⟨x, -, hx⟩ := List.mem_map.mp hkey
      split_ifs at hx with hxstar
      · exact hb (hx ▸ hmem)
      · exact hxstar hx
    rw [matchesPattern_iff_mem_literalLanguage hpattern hstar, mem_literalLanguage_iff hmeet,
      replaceStars_mem_language_iff hb]

/-- The matcher never accepts a key outside of the language, and accepts those in it that are still
there when a `*` that meets a `*` byte matches this byte alone. -/
theorem matchesPattern_eq_iff {key pattern : Bytes} (hpattern : pattern ≠ []) :
    (matchesPattern key pattern = true ↔ key ∈ language pattern) ↔
      pattern = [star] ∨ (key ∈ language pattern → key ∈ literalLanguage pattern) := by
  by_cases hstar : pattern = [star]
  · subst hstar
    simp [matchesPattern, mem_language_star]
  · have hsub := @literalLanguage_subset_language pattern key
    rw [matchesPattern_iff_mem_literalLanguage hpattern hstar]
    simp only [hstar, false_or]
    exact ⟨Iff.mpr, fun h => ⟨hsub, h⟩⟩

/-- For every key, with `*` bytes or without, and every pattern that is not empty: `matchesPattern`
answers by the language of the pattern, and answers for the key as it does with any byte that the
pattern does not have in the place of the `*`s, exactly when the pattern is `*` alone, or the key is
not in the language, or it is still there when a `*` that meets a `*` byte matches this byte
alone. -/
theorem matchesPattern_honest_iff {key pattern : Bytes} (hpattern : pattern ≠ []) :
    ((matchesPattern key pattern = true ↔ key ∈ language pattern) ↔
      pattern = [star] ∨ (key ∈ language pattern → key ∈ literalLanguage pattern)) ∧
    ∀ b ∉ pattern,
      (matchesPattern (replaceStars b key) pattern = matchesPattern key pattern ↔
        pattern = [star] ∨ (key ∈ language pattern → key ∈ literalLanguage pattern)) := by
  refine ⟨matchesPattern_eq_iff hpattern, fun b hb => ?_⟩
  rw [← matchesPattern_eq_iff hpattern, Bool.eq_iff_iff, matchesPattern_replaceStars hpattern hb]
  exact Iff.comm

/-- The key `a*` and the pattern `a*`, which match one for one. -/
theorem matchesPattern_honest_iff_aligned :
    ((matchesPattern [97, 42] [97, 42] = true ↔ [97, 42] ∈ language [97, 42]) ↔
      ([97, 42] : Bytes) = [star] ∨
        ([97, 42] ∈ language [97, 42] → [97, 42] ∈ literalLanguage [97, 42])) ∧
    ∀ b ∉ ([97, 42] : Bytes),
      (matchesPattern (replaceStars b [97, 42]) [97, 42] = matchesPattern [97, 42] [97, 42] ↔
        ([97, 42] : Bytes) = [star] ∨
          ([97, 42] ∈ language [97, 42] → [97, 42] ∈ literalLanguage [97, 42])) :=
  matchesPattern_honest_iff (by decide)

/-- The key `a*b` is in the language of the pattern `a*`, and is not matched. With `c` in the place
of its `*`, it is. -/
theorem matchesPattern_misses_star :
    star ∈ ([97, 42, 98] : Bytes) ∧ [97, 42, 98] ∈ language [97, 42] ∧
      matchesPattern [97, 42, 98] [97, 42] = false ∧
      99 ∉ ([97, 42] : Bytes) ∧ matchesPattern (replaceStars 99 [97, 42, 98]) [97, 42] = true := by
  refine ⟨by decide, ?_, by decide, by decide, by decide⟩
  exact ⟨[42, 98], rfl, [42, 98], [], rfl, rfl⟩

end CacheServer
