import Mathlib.Data.Nat.Digits.Lemmas
import Mathlib.Data.List.TakeWhile

/-!
# Decimal text

The decimal text of an integer as a string of bytes, and the scan of the longest prefix of a string
that is such a text, with an optional minus sign and at least one digit. The digits are Mathlib's
`Nat.digits` in base ten, written most significant first. `scan_ofInt` is the round trip: the scan
of a printed integer consumes the whole text and gives the integer back. In the other direction, the
texts that a scan consumes to their end are those of the form `-?[0-9]+`
(`scan_eq_some_length_iff`), and to print what one of them stands for is to bring it to its
canonical form, without leading zeros and without a sign before a zero (`ofInt_of_reads`).
-/

namespace CacheServer.Decimal

/-- The byte `'-'`. -/
def minus : UInt8 := 45

/-- A byte is one of the ASCII digits `'0'` to `'9'`. -/
def isDigit (b : UInt8) : Bool := 48 ≤ b && b ≤ 57

/-- The byte of a digit below ten. -/
def digitByte (d : ℕ) : UInt8 := UInt8.ofNat (48 + d)

/-- The digit that a byte stands for. -/
def digitVal (b : UInt8) : ℕ := b.toNat - 48

/-- The number that a string of digits stands for, most significant digit first. -/
def value (ds : List UInt8) : ℕ := Nat.ofDigits 10 (ds.reverse.map digitVal)

/-- The text of a natural number, with no leading zero other than that of `0` itself. -/
def ofNat (n : ℕ) : List UInt8 :=
  if n = 0 then [48] else (Nat.digits 10 n).reverse.map digitByte

/-- The text of an integer: the text of its magnitude, after a minus sign when it is negative. -/
def ofInt (z : ℤ) : List UInt8 :=
  if z < 0 then minus :: ofNat z.natAbs else ofNat z.natAbs

/-- The longest prefix of the form `-?[0-9]+`: the integer it stands for and the number of bytes it
takes up, or `none` when no digit stands where one must. -/
def scan (text : List UInt8) : Option (ℤ × ℕ) :=
  if text.head? = some minus then
    let ds := text.tail.takeWhile isDigit
    if ds = [] then none else some (-(value ds : ℤ), 1 + ds.length)
  else
    let ds := text.takeWhile isDigit
    if ds = [] then none else some ((value ds : ℤ), ds.length)

/-! ## Digits -/

/-- The byte of a digit stands for it. -/
theorem digitVal_digitByte {d : ℕ} (h : d < 10) : digitVal (digitByte d) = d := by
  unfold digitVal digitByte
  rw [UInt8.toNat_ofNat']
  omega

/-- The byte of a digit is an ASCII digit. -/
theorem isDigit_digitByte {d : ℕ} (h : d < 10) : isDigit (digitByte d) = true := by
  interval_cases d <;> decide

/-- The minus sign is not a digit. -/
theorem isDigit_minus : isDigit minus = false := by decide

/-- Every byte of a number's text is a digit. -/
theorem isDigit_of_mem_ofNat {n : ℕ} {b : UInt8} (h : b ∈ ofNat n) : isDigit b = true := by
  unfold ofNat at h
  split_ifs at h with h0
  · simp only [List.mem_singleton] at h
    subst h
    decide
  · obtain ⟨d, hd, rfl⟩ := List.mem_map.mp h
    exact isDigit_digitByte (Nat.digits_lt_base (by norm_num) (List.mem_reverse.mp hd))

/-- A number's text is not empty. -/
theorem ofNat_ne_nil (n : ℕ) : ofNat n ≠ [] := by
  unfold ofNat
  split_ifs with h0
  · simp
  · simpa using Nat.digits_ne_nil_iff_ne_zero.mpr h0

/-- The text of a number stands for it. -/
theorem value_ofNat (n : ℕ) : value (ofNat n) = n := by
  unfold value ofNat
  split_ifs with h0
  · subst h0
    decide
  · have hmap : (Nat.digits 10 n).map (digitVal ∘ digitByte) = Nat.digits 10 n := by
      conv_rhs => rw [← List.map_id (Nat.digits 10 n)]
      refine List.map_congr_left fun d hd => ?_
      exact digitVal_digitByte (Nat.digits_lt_base (by norm_num) hd)
    simp only [List.map_reverse, List.reverse_reverse, List.map_map, hmap]
    exact Nat.ofDigits_digits 10 n

/-- A number's text is a string of digits to its end. -/
theorem takeWhile_ofNat (n : ℕ) : (ofNat n).takeWhile isDigit = ofNat n :=
  List.takeWhile_eq_self_iff.mpr fun _ h => isDigit_of_mem_ofNat h

/-- A string of digits does not start with a minus sign. -/
theorem head?_ne_minus {ds : List UInt8} (h : ∀ b ∈ ds, isDigit b = true) :
    ds.head? ≠ some minus := by
  intro hhead
  have hd := h minus (List.mem_of_mem_head? hhead)
  rw [isDigit_minus] at hd
  exact Bool.false_ne_true hd

/-! ## The round trip -/

/-- The scan of a printed integer consumes the whole text and gives the integer back. -/
theorem scan_ofInt (z : ℤ) : scan (ofInt z) = some (z, (ofInt z).length) := by
  unfold ofInt
  split_ifs with hz
  · have hz' : -((z.natAbs : ℕ) : ℤ) = z := by omega
    simp only [scan, List.head?_cons, List.tail_cons, takeWhile_ofNat, value_ofNat, if_true,
      if_neg (ofNat_ne_nil _), List.length_cons, hz', Nat.add_comm]
  · have hz' : ((z.natAbs : ℕ) : ℤ) = z := by omega
    simp only [scan, if_neg (head?_ne_minus fun _ => isDigit_of_mem_ofNat), takeWhile_ofNat,
      value_ofNat, if_neg (ofNat_ne_nil _), hz']

/-! ## Whole texts -/

/-- The text is of the form `-?[0-9]+`, and stands for the integer. -/
inductive Reads : List UInt8 → ℤ → Prop
  | digits {ds : List UInt8} : ds ≠ [] → (∀ b ∈ ds, isDigit b = true) → Reads ds (value ds)
  | negative {ds : List UInt8} : ds ≠ [] → (∀ b ∈ ds, isDigit b = true) →
    Reads (minus :: ds) (-value ds)

/-- The digits from the first that is not zero on, or one zero. -/
def strip (ds : List UInt8) : List UInt8 :=
  if ds.dropWhile (· = 48) = [] then [48] else ds.dropWhile (· = 48)

/-- The text without leading zeros, and without a sign before a zero. -/
def canonical (text : List UInt8) : List UInt8 :=
  if text.head? = some minus then
    if strip text.tail = [48] then [48] else minus :: strip text.tail
  else strip text

/-- The text is a zero, or a first digit that is not zero and the others, after a minus sign or
not. -/
def IsCanonical (text : List UInt8) : Prop :=
  text = [48] ∨ ∃ d ds, (text = d :: ds ∨ text = minus :: d :: ds) ∧ d ≠ 48 ∧
    ∀ b ∈ d :: ds, isDigit b = true

/-- A string of digits is its own longest prefix of digits, and nothing else is. -/
theorem length_takeWhile_isDigit {ds : List UInt8} :
    (ds.takeWhile isDigit).length = ds.length ↔ ∀ b ∈ ds, isDigit b = true := by
  rw [← List.takeWhile_eq_self_iff]
  constructor
  · intro h
    exact (List.takeWhile_prefix isDigit).eq_of_length h
  · intro h
    rw [h]

/-- The scan consumes a text to its end when it is of the form `-?[0-9]+`. -/
theorem scan_eq_some_length_iff {text : List UInt8} {z : ℤ} :
    scan text = some (z, text.length) ↔ Reads text z := by
  unfold scan
  constructor
  · intro h
    split_ifs at h with hminus
    · simp only [Option.ite_none_left_eq_some, Option.some.injEq, Prod.mk.injEq] at h
      obtain ⟨hnil, rfl, hlength⟩ := h
      obtain ⟨ds, rfl⟩ := List.head?_eq_some_iff.mp hminus
      rw [List.tail_cons] at hnil hlength ⊢
      rw [List.length_cons] at hlength
      have hwhole : (ds.takeWhile isDigit).length = ds.length := by omega
      have hdigits := length_takeWhile_isDigit.mp hwhole
      rw [List.takeWhile_eq_self_iff.mpr hdigits] at hnil ⊢
      exact .negative hnil hdigits
    · simp only [Option.ite_none_left_eq_some, Option.some.injEq, Prod.mk.injEq] at h
      obtain ⟨hnil, rfl, hlength⟩ := h
      have hdigits := length_takeWhile_isDigit.mp hlength
      rw [List.takeWhile_eq_self_iff.mpr hdigits] at hnil ⊢
      exact .digits hnil hdigits
  · intro h
    cases h with
    | digits hnil hdigits =>
      have hminus := head?_ne_minus hdigits
      simp only [if_neg hminus, List.takeWhile_eq_self_iff.mpr hdigits, if_neg hnil]
    | negative hnil hdigits =>
      simp only [List.head?_cons, if_true, List.tail_cons,
        List.takeWhile_eq_self_iff.mpr hdigits, if_neg hnil, List.length_cons, Nat.add_comm]

/-- The digits are the bytes from `0` to `9`. -/
theorem isDigit_iff {b : UInt8} : isDigit b = true ↔ 48 ≤ b.toNat ∧ b.toNat ≤ 57 := by
  unfold isDigit
  rw [Bool.and_eq_true, decide_eq_true_iff, decide_eq_true_iff, UInt8.le_iff_toNat_le,
    UInt8.le_iff_toNat_le]
  rfl

/-- A digit stands for a number below ten. -/
theorem digitVal_lt {b : UInt8} (h : isDigit b = true) : digitVal b < 10 := by
  rw [isDigit_iff] at h
  unfold digitVal
  omega

/-- A digit is the byte of what it stands for. -/
theorem digitByte_digitVal {b : UInt8} (h : isDigit b = true) : digitByte (digitVal b) = b := by
  rw [isDigit_iff] at h
  unfold digitByte digitVal
  have hsum : 48 + (b.toNat - 48) = b.toNat := by omega
  rw [hsum, UInt8.ofNat_toNat]

/-- Leading zeros do not count. -/
theorem value_dropWhile (ds : List UInt8) : value (ds.dropWhile (· = 48)) = value ds := by
  induction ds with
  | nil => rfl
  | cons d ds ih =>
    by_cases hd : d = 48
    · have hzero : value (d :: ds) = value ds := by
        have hval : digitVal 48 = 0 := rfl
        simp only [value, hd, List.reverse_cons, List.map_append, List.map_cons, List.map_nil, hval,
          Nat.ofDigits_append_zero]
      rw [List.dropWhile_cons_of_pos (by simpa using hd), ih, hzero]
    · rw [List.dropWhile_cons_of_neg (by simpa using hd)]

/-- A string of digits that starts with another than zero is the text of the number. -/
theorem ofNat_value {d : UInt8} {ds : List UInt8} (h : ∀ b ∈ d :: ds, isDigit b = true)
    (hd : d ≠ 48) : ofNat (value (d :: ds)) = d :: ds := by
  have hlead : digitVal d ≠ 0 := by
    intro hzero
    apply hd
    rw [← digitByte_digitVal (h d List.mem_cons_self), hzero]
    rfl
  have hdigits : Nat.digits 10 (value (d :: ds)) = (d :: ds).reverse.map digitVal := by
    unfold value
    refine Nat.digits_ofDigits 10 (by norm_num) _ ?_ ?_
    · intro n hn
      obtain ⟨b, hb, rfl⟩ := List.mem_map.mp hn
      exact digitVal_lt (h b (List.mem_reverse.mp hb))
    · intro hne
      simpa using hlead
  have hne : value (d :: ds) ≠ 0 := by
    intro hzero
    simp [hzero] at hdigits
  unfold ofNat
  rw [if_neg hne, hdigits, ← List.map_reverse, List.reverse_reverse, List.map_map]
  conv_rhs => rw [← List.map_id (d :: ds)]
  exact List.map_congr_left fun b hb => digitByte_digitVal (h b hb)

/-- The text of the number that a string of digits stands for. -/
theorem ofNat_value_eq_strip {ds : List UInt8} (h : ∀ b ∈ ds, isDigit b = true) :
    ofNat (value ds) = strip ds := by
  unfold strip
  rw [← value_dropWhile]
  cases hds : ds.dropWhile (· = 48) with
  | nil => rfl
  | cons d ds' =>
    have hd : d ≠ 48 := by
      have hhead := List.head?_dropWhile_not (fun b : UInt8 => decide (b = 48)) ds
      rw [hds] at hhead
      simpa using hhead
    have hdigits : ∀ b ∈ d :: ds', isDigit b = true := by
      intro b hb
      rw [← hds] at hb
      exact h b ((List.dropWhile_sublist _).subset hb)
    rw [ofNat_value hdigits hd, if_neg (List.cons_ne_nil d ds')]

/-- To print what a text stands for is to bring it to its canonical form. -/
theorem ofInt_of_reads {text : List UInt8} {z : ℤ} (h : Reads text z) :
    ofInt z = canonical text := by
  cases h with
  | digits hnil hdigits =>
    have hminus := head?_ne_minus hdigits
    have hneg : ¬ ((value text : ℕ) : ℤ) < 0 := by omega
    unfold ofInt canonical
    rw [if_neg hneg, if_neg hminus, Int.natAbs_natCast, ofNat_value_eq_strip hdigits]
  | @negative ds hnil hdigits =>
    unfold ofInt canonical
    rw [List.head?_cons, if_pos rfl, List.tail_cons, Int.natAbs_neg, Int.natAbs_natCast,
      ofNat_value_eq_strip hdigits]
    -- The sign goes exactly when all the digits are zeros.
    have hzero : value ds = 0 ↔ strip ds = [48] := by
      rw [← ofNat_value_eq_strip hdigits]
      constructor
      · intro h
        rw [h]
        rfl
      · intro h
        rw [← value_ofNat (value ds), h]
        rfl
    by_cases hstrip : strip ds = [48]
    · rw [if_pos hstrip, if_neg (by simp [hzero.mpr hstrip]), hstrip]
    · have hpos : value ds ≠ 0 := mt hzero.mp hstrip
      rw [if_neg hstrip, if_pos (by omega)]

/-- The text of a number has no leading zero. -/
theorem isCanonical_ofNat {n : ℕ} (h : n ≠ 0) :
    ∃ d ds, ofNat n = d :: ds ∧ d ≠ 48 ∧ ∀ b ∈ d :: ds, isDigit b = true := by
  obtain ⟨d, ds, hds⟩ := List.exists_cons_of_ne_nil (ofNat_ne_nil n)
  have hdigits : ∀ b ∈ d :: ds, isDigit b = true := by
    intro b hb
    rw [← hds] at hb
    exact isDigit_of_mem_ofNat hb
  refine ⟨d, ds, hds, ?_, hdigits⟩
  rintro rfl
  -- A zero in front is dropped, and what is left is shorter than the text, or zero.
  have hstrip := ofNat_value_eq_strip hdigits
  rw [← hds, value_ofNat, hds, strip, List.dropWhile_cons_of_pos (by simp)] at hstrip
  split_ifs at hstrip with hnil
  · apply h
    rw [← value_ofNat n, hds, hstrip]
    rfl
  · have hlength := congrArg List.length hstrip
    have hle := (List.dropWhile_sublist (fun b : UInt8 => decide (b = 48)) (l := ds)).length_le
    rw [List.length_cons] at hlength
    omega

/-- The text of a number is canonical. -/
theorem isCanonical_ofInt (z : ℤ) : IsCanonical (ofInt z) := by
  unfold ofInt
  by_cases hz : z.natAbs = 0
  · have hneg : ¬ z < 0 := by omega
    rw [if_neg hneg, hz]
    exact .inl rfl
  · obtain ⟨d, ds, hds, hd, hdigits⟩ := isCanonical_ofNat hz
    rw [hds]
    split_ifs
    · exact .inr ⟨d, ds, .inr rfl, hd, hdigits⟩
    · exact .inr ⟨d, ds, .inl rfl, hd, hdigits⟩

end CacheServer.Decimal
