import CacheServer.Lib.Decimal
import CacheServer.Manager.CacheLib

/-!
# Counter values

The three helpers at the head of `CacheManager.cc`: `parseWholeInt64`, `checkedAdd`, and
`checkedNegate`, with `std::from_chars` and `std::to_string` as the standard library documents them.
A signed operation whose exact result is not an `int64_t` is undefined behaviour in C++. Here it
aborts, so that a proof that a helper never aborts is a proof that none of its operations overflow.
-/

namespace CacheServer

/-- How a call of the manager can end without returning. -/
inductive Abort
  /-- A `std::exception` leaves the call. -/
  | exception
  /-- A signed operation overflowed, and the rest of the run is undefined. -/
  | signedOverflow
deriving DecidableEq, Repr

/-- The integer is the value of an `int64_t`. -/
def InInt64 (z : ℤ) : Prop := -2^63 ≤ z ∧ z < 2^63

instance (z : ℤ) : Decidable (InInt64 z) := inferInstanceAs (Decidable (_ ∧ _))

/-- The `int64_t` of an exact result, or undefined behaviour when there is none. -/
def exactInt64 (z : ℤ) : Except Abort Int64 :=
  if InInt64 z then .ok (Int64.ofInt z) else .error .signedOverflow

/-- `checkedAdd`: `base + delta`, or `none` when the sum would overflow. -/
def checkedAdd (base delta : Int64) : Except Abort (Option Int64) := do
  if 0 < delta then
    let limit ← exactInt64 (Int64.maxValue.toInt - delta.toInt)
    if limit < base then
      return none
  if delta < 0 then
    let limit ← exactInt64 (Int64.minValue.toInt - delta.toInt)
    if base < limit then
      return none
  let out ← exactInt64 (base.toInt + delta.toInt)
  return some out

/-- `checkedNegate`: `-delta`, or `none` for the one value that has no negation. -/
def checkedNegate (delta : Int64) : Except Abort (Option Int64) := do
  if delta = Int64.minValue then
    return none
  let out ← exactInt64 (-delta.toInt)
  return some out

/-- The error code of a `std::from_chars_result`. -/
inductive Errc
  /-- No error. -/
  | none
  /-- There is no integer at the start of the text. -/
  | invalidArgument
  /-- The integer there is not an `int64_t`. -/
  | resultOutOfRange
deriving DecidableEq, Repr

/-- `std::from_chars` in base ten into an `int64_t`: the number of bytes consumed, the error code,
and the new content of `out`, which an error leaves as it was. -/
def fromChars (text : Bytes) (out : Int64) : ℕ × Errc × Int64 :=
  match Decimal.scan text with
  | none => (0, .invalidArgument, out)
  | some (z, consumed) =>
    if InInt64 z then (consumed, .none, Int64.ofInt z) else (consumed, .resultOutOfRange, out)

/-- `parseWholeInt64`: the integer that the entire text stands for. -/
def parseWholeInt64 (text : Bytes) : Option Int64 :=
  let (ptr, ec, out) := fromChars text 0
  if ec = .none ∧ ptr = text.length then some out else none

/-- `std::to_string` of an `int64_t`. -/
def toText (v : Int64) : Bytes := Decimal.ofInt v.toInt

/-! ## What they compute -/

/-- Every `int64_t` is in range. -/
theorem inInt64_toInt (v : Int64) : InInt64 v.toInt := ⟨v.le_toInt, v.toInt_lt⟩

/-- A number in range is stored as it is. -/
theorem exactInt64_of_inInt64 {z : ℤ} (h : InInt64 z) : exactInt64 z = .ok (Int64.ofInt z) :=
  if_pos h

/-- The `int64_t` of an integer in range has that value. -/
theorem toInt_ofInt_of_inInt64 {z : ℤ} (h : InInt64 z) : (Int64.ofInt z).toInt = z :=
  Int64.toInt_ofInt_of_le h.1 h.2

/-- `checkedAdd` gives the exact sum when it is in range and refuses otherwise, and none of its
signed operations overflow on the way. -/
theorem checkedAdd_eq (base delta : Int64) :
    checkedAdd base delta = .ok (if InInt64 (base.toInt + delta.toInt) then
      some (Int64.ofInt (base.toInt + delta.toInt)) else none) := by
  obtain ⟨hb1, hb2⟩ := inInt64_toInt base
  obtain ⟨hd1, hd2⟩ := inInt64_toInt delta
  have hmax := Int64.toInt_maxValue
  have hmin := Int64.toInt_minValue
  have hzero : (0 : Int64).toInt = 0 := rfl
  unfold checkedAdd
  rcases lt_trichotomy delta.toInt 0 with hneg | hz | hpos
  · -- A negative delta: the second guard compares with `min - delta`, which is in range.
    have hlim : InInt64 (Int64.minValue.toInt - delta.toInt) := by
      rw [hmin]; exact ⟨by omega, by omega⟩
    have h0 : ¬ (0 < delta) := by rw [Int64.lt_iff_toInt_lt, hzero]; omega
    have h1 : delta < 0 := by rw [Int64.lt_iff_toInt_lt, hzero]; omega
    have hcmp : base < Int64.ofInt (Int64.minValue.toInt - delta.toInt) ↔
        ¬ InInt64 (base.toInt + delta.toInt) := by
      rw [Int64.lt_iff_toInt_lt, toInt_ofInt_of_inInt64 hlim, hmin, InInt64]
      omega
    by_cases hsum : InInt64 (base.toInt + delta.toInt)
    · simp only [h0, h1, exactInt64_of_inInt64 hlim, hcmp, hsum, exactInt64_of_inInt64 hsum,
        bind, Except.bind, pure, Except.pure, not_true_eq_false, if_true, if_false]
    · simp only [h0, h1, exactInt64_of_inInt64 hlim, hcmp, hsum, bind, Except.bind, pure,
        Except.pure, not_false_eq_true, if_true, if_false]
  · have h0 : ¬ (0 < delta) := by rw [Int64.lt_iff_toInt_lt, hzero]; omega
    have h1 : ¬ (delta < 0) := by rw [Int64.lt_iff_toInt_lt, hzero]; omega
    have hsum : InInt64 (base.toInt + delta.toInt) := ⟨by omega, by omega⟩
    simp only [h0, h1, hsum, exactInt64_of_inInt64 hsum, bind, Except.bind, pure, Except.pure,
      if_true, if_false]
  · -- A positive delta: the first guard compares with `max - delta`.
    have hlim : InInt64 (Int64.maxValue.toInt - delta.toInt) := by
      rw [hmax]; exact ⟨by omega, by omega⟩
    have h0 : 0 < delta := by rw [Int64.lt_iff_toInt_lt, hzero]; omega
    have h1 : ¬ (delta < 0) := by rw [Int64.lt_iff_toInt_lt, hzero]; omega
    have hcmp : Int64.ofInt (Int64.maxValue.toInt - delta.toInt) < base ↔
        ¬ InInt64 (base.toInt + delta.toInt) := by
      rw [Int64.lt_iff_toInt_lt, toInt_ofInt_of_inInt64 hlim, hmax, InInt64]
      omega
    by_cases hsum : InInt64 (base.toInt + delta.toInt)
    · simp only [h0, h1, exactInt64_of_inInt64 hlim, hcmp, hsum, exactInt64_of_inInt64 hsum,
        bind, Except.bind, pure, Except.pure, not_true_eq_false, if_true, if_false]
    · simp only [h0, exactInt64_of_inInt64 hlim, hcmp, hsum, bind, Except.bind, pure, Except.pure,
        not_false_eq_true, if_true, if_false]

/-- Every `int64_t` but `INT64_MIN` has a negation. -/
theorem inInt64_neg {delta : Int64} (h : delta ≠ Int64.minValue) : InInt64 (-delta.toInt) := by
  have hne : delta.toInt ≠ -2^63 := by
    rw [← Int64.toInt_minValue]
    exact fun he => h (Int64.toInt_inj.mp he)
  obtain ⟨hd1, hd2⟩ := inInt64_toInt delta
  exact ⟨by omega, by omega⟩

/-- `checkedNegate` gives the exact negation, except of `INT64_MIN`, which it refuses. -/
theorem checkedNegate_eq (delta : Int64) :
    checkedNegate delta =
      .ok (if delta = Int64.minValue then none else some (Int64.ofInt (-delta.toInt))) := by
  unfold checkedNegate
  by_cases h : delta = Int64.minValue
  · simp [h, pure, Except.pure]
  · simp [h, exactInt64_of_inInt64 (inInt64_neg h), bind, Except.bind, pure, Except.pure]

/-- `parseWholeInt64` in terms of the scan: the scan consumes the whole text, and its integer is in
range. -/
theorem parseWholeInt64_eq_some_iff {text : Bytes} {v : Int64} :
    parseWholeInt64 text = some v ↔ Decimal.scan text = some (v.toInt, text.length) := by
  unfold parseWholeInt64 fromChars
  cases hs : Decimal.scan text with
  | none => simp
  | some p =>
    obtain ⟨z, consumed⟩ := p
    simp only
    by_cases hz : InInt64 z
    · simp only [if_pos hz, true_and, Option.some.injEq, Prod.mk.injEq]
      constructor
      · intro h
        split_ifs at h with hc
        cases h
        exact ⟨(toInt_ofInt_of_inInt64 hz).symm, hc⟩
      · rintro ⟨rfl, rfl⟩
        simp
    · simp only [if_neg hz, reduceCtorEq, false_and, if_false, Option.some.injEq, Prod.mk.injEq,
        false_iff, not_and]
      rintro rfl
      exact absurd (inInt64_toInt v) hz

/-- A printed counter parses back to itself. -/
@[simp]
theorem parseWholeInt64_toText (v : Int64) : parseWholeInt64 (toText v) = some v :=
  parseWholeInt64_eq_some_iff.mpr (Decimal.scan_ofInt v.toInt)

/-- The texts of counters, for every text and every `int64_t`: `parseWholeInt64` accepts those of
the form `-?[0-9]+` whose integer is in range, and gives that integer. It gives back every printed
counter, and to print what it gives for a text is to bring the text to its canonical form. -/
theorem parseWholeInt64_format :
    (∀ (text : Bytes) (v : Int64), parseWholeInt64 text = some v ↔ Decimal.Reads text v.toInt) ∧
    (∀ text : Bytes, (parseWholeInt64 text).isSome = true ↔
      ∃ z, Decimal.Reads text z ∧ -2^63 ≤ z ∧ z ≤ 2^63 - 1) ∧
    (∀ v : Int64, parseWholeInt64 (toText v) = some v) ∧
    ∀ (text : Bytes) (v : Int64), parseWholeInt64 text = some v →
      toText v = Decimal.canonical text ∧ Decimal.IsCanonical (toText v) := by
  have hreads : ∀ (text : Bytes) (v : Int64),
      parseWholeInt64 text = some v ↔ Decimal.Reads text v.toInt := by
    intro text v
    rw [parseWholeInt64_eq_some_iff, Decimal.scan_eq_some_length_iff]
  refine ⟨hreads, ?_, parseWholeInt64_toText, ?_⟩
  · intro text
    rw [Option.isSome_iff_exists]
    constructor
    · rintro ⟨v, hv⟩
      obtain ⟨hmin, hmax⟩ := inInt64_toInt v
      exact ⟨v.toInt, (hreads text v).mp hv, hmin, by omega⟩
    · rintro ⟨z, hz, hmin, hmax⟩
      have hin : InInt64 z := ⟨hmin, by omega⟩
      refine ⟨Int64.ofInt z, (hreads text _).mpr ?_⟩
      rwa [toInt_ofInt_of_inInt64 hin]
  · intro text v hv
    exact ⟨Decimal.ofInt_of_reads ((hreads text v).mp hv), Decimal.isCanonical_ofInt v.toInt⟩

end CacheServer
