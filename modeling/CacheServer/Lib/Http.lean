import CacheServer.Lib.Decimal

/-!
# HTTP messages

A message is a head of lines, each ended by a carriage return and a line feed, an empty line, and a
body of as many bytes as the head's `Content-Length` says. A connection may break off at any byte,
and `decode_of_isPrefix` says what then is lost: the reader takes up the whole message or nothing.
-/

namespace CacheServer.Http

/-- The text of a head. -/
def headText (lines : List (List UInt8)) : List UInt8 :=
  lines.flatMap (fun l => l ++ [13, 10]) ++ [13, 10]

/-- The lines of a head, up to the empty one, and what is after it. What has been read of the first
line is given. -/
def readHead (line : List UInt8) : List UInt8 → Option (List (List UInt8) × List UInt8)
  | 13 :: 10 :: rest =>
    if line = [] then some ([], rest) else (readHead [] rest).map fun r => (line :: r.1, r.2)
  | b :: rest => readHead (line ++ [b]) rest
  | [] => none

/-- The small letter for a capital one. -/
def lower (b : UInt8) : UInt8 := if 65 ≤ b ∧ b ≤ 90 then b + 32 else b

/-- The value of a header field, from the line that it is on. -/
def fieldOf (name line : List UInt8) : Option (List UInt8) :=
  if (line.takeWhile (· ≠ 58)).map lower = name.map lower then
    some (((line.dropWhile (· ≠ 58)).drop 1).dropWhile (· = 32))
  else none

/-- `Content-Length`, from the lines of a head. -/
def contentLength (lines : List (List UInt8)) : Option ℕ :=
  match lines.findSome? (fieldOf "Content-Length".toUTF8.data.toList) with
  | some digits =>
    if digits ≠ [] ∧ digits.all Decimal.isDigit then some (Decimal.value digits) else none
  | none => none

/-- The first line and the body of a message, once all of it is there. -/
def decode (message : List UInt8) : Option (List UInt8 × List UInt8) :=
  match readHead [] message with
  | some (first :: fields, rest) =>
    match contentLength fields with
    | some n => if n ≤ rest.length then some (first, rest.take n) else none
    | none => none
  | _ => none

/-! ## The head -/

/-- A byte that does not begin the end of a line belongs to the line. -/
theorem readHead_cons {line : List UInt8} {b : UInt8} {rest : List UInt8}
    (h : ∀ rest', b :: rest ≠ 13 :: 10 :: rest') :
    readHead line (b :: rest) = readHead (line ++ [b]) rest := by
  rw [readHead]
  intro rest' hb hrest
  exact h rest' (by rw [hb, hrest])

/-- A line without a carriage return is read up to its end. -/
theorem readHead_line {l : List UInt8} (h : 13 ∉ l) (line rest : List UInt8) :
    readHead line (l ++ 13 :: 10 :: rest) =
      if line ++ l = [] then some ([], rest)
      else (readHead [] rest).map fun r => ((line ++ l) :: r.1, r.2) := by
  induction l generalizing line with
  | nil => simp only [List.nil_append, List.append_nil, readHead]
  | cons b l ih =>
    obtain ⟨hb, hl⟩ : 13 ≠ b ∧ 13 ∉ l := by simpa using h
    have hne : ∀ rest', b :: (l ++ 13 :: 10 :: rest) ≠ 13 :: 10 :: rest' := by
      intro rest' heq
      exact hb (List.head_eq_of_cons_eq heq).symm
    rw [List.cons_append, readHead_cons hne, ih hl, List.append_assoc, List.singleton_append]

/-- A head is read back, with what is after it. -/
theorem readHead_headText {lines : List (List UInt8)} (h : ∀ l ∈ lines, l ≠ [] ∧ 13 ∉ l)
    (rest : List UInt8) : readHead [] (headText lines ++ rest) = some (lines, rest) := by
  induction lines with
  | nil => simp [headText, readHead]
  | cons l lines ih =>
    obtain ⟨hne, hcr⟩ := h l List.mem_cons_self
    have htext : headText (l :: lines) ++ rest = l ++ 13 :: 10 :: (headText lines ++ rest) := by
      simp [headText]
    rw [htext, readHead_line hcr, List.nil_append, if_neg hne,
      ih fun l' hl' => h l' (List.mem_cons_of_mem _ hl')]
    rfl

/-- What comes after does not change a head that is complete. -/
theorem readHead_append {line s rest : List UInt8} {lines : List (List UInt8)}
    (h : readHead line s = some (lines, rest)) (t : List UInt8) :
    readHead line (s ++ t) = some (lines, rest ++ t) := by
  fun_induction readHead line s generalizing lines with
  | case1 rest' =>
    obtain ⟨rfl, rfl⟩ : [] = lines ∧ rest' = rest := by simpa using h
    simp [readHead]
  | case2 line rest' hline ih =>
    obtain ⟨⟨ls, r⟩, hread, heq⟩ := Option.map_eq_some_iff.mp h
    obtain ⟨rfl, rfl⟩ : line :: ls = lines ∧ r = rest := by simpa using heq
    simp [readHead, hline, ih hread]
  | case3 line b rest' hpair ih =>
    -- a carriage return at the very end is not yet the end of a line
    have hne : ∀ u, b :: (rest' ++ t) ≠ 13 :: 10 :: u := by
      intro u heq
      obtain _ | ⟨c, rest'⟩ := rest'
      · simp [readHead] at h
      · obtain ⟨rfl, rfl, -⟩ : b = 13 ∧ c = 10 ∧ rest' ++ t = u := by simpa using heq
        exact hpair rest' rfl rfl
    rw [List.cons_append, readHead_cons hne, ih h]
  | case4 line => cases h

/-! ## The whole message -/

/-- A message that announces the length of its body is read back. -/
theorem decode_message {first : List UInt8} {fields : List (List UInt8)} {body : List UInt8}
    (hlines : ∀ l ∈ first :: fields, l ≠ [] ∧ 13 ∉ l)
    (hlength : contentLength fields = some body.length) :
    decode (headText (first :: fields) ++ body) = some (first, body) := by
  simp [decode, readHead_headText hlines, hlength]

/-- Of a message that announces the length of its body, what a broken connection delivers is taken
for a message only if it is all of it. -/
theorem decode_of_isPrefix {first : List UInt8} {fields : List (List UInt8)}
    {body delivered : List UInt8} (hlines : ∀ l ∈ first :: fields, l ≠ [] ∧ 13 ∉ l)
    (hlength : contentLength fields = some body.length)
    (hdelivered : delivered <+: headText (first :: fields) ++ body) :
    decode delivered =
      if delivered = headText (first :: fields) ++ body then some (first, body) else none := by
  split_ifs with hwhole
  · rw [hwhole, decode_message hlines hlength]
  obtain ⟨lost, hlost⟩ := hdelivered
  cases hread : readHead [] delivered with
  | none => simp [decode, hread]
  | some r =>
    obtain ⟨lines, rest⟩ := r
    -- the head that was delivered is the head of the whole message
    have hhead := readHead_append hread lost
    rw [hlost, readHead_headText hlines] at hhead
    obtain ⟨rfl, hbody⟩ : first :: fields = lines ∧ body = rest ++ lost := by simpa using hhead
    have hshort : rest.length < body.length := by
      obtain _ | ⟨b, lost⟩ := lost
      · rw [List.append_nil] at hlost
        exact absurd hlost hwhole
      · rw [hbody]
        simp
    simp [decode, hread, hlength, Nat.not_le.mpr hshort]

/-- The field with a name is on the line that begins with the name and a colon. -/
theorem fieldOf_line {name : List UInt8} (h : 58 ∉ name) {value : List UInt8}
    (hvalue : value.head? ≠ some 32) : fieldOf name (name ++ 58 :: 32 :: value) = some value := by
  have hname : ∀ b ∈ name, (decide (b ≠ 58)) = true := by
    intro b hb
    simp only [decide_eq_true_eq]
    rintro rfl
    exact h hb
  have hrest : value.dropWhile (fun b => decide (b = 32)) = value := by
    obtain _ | ⟨b, value⟩ := value
    · rfl
    · rw [List.dropWhile_cons_of_neg]
      simpa using hvalue
  simp only [fieldOf, List.takeWhile_append_of_pos hname, List.dropWhile_append_of_pos hname]
  simp [hrest]

/-- A length that is written in decimal is read back, when no field before it has its name. -/
theorem contentLength_append {fields : List (List UInt8)}
    (h : ∀ l ∈ fields, fieldOf "Content-Length".toUTF8.data.toList l = none) (n : ℕ)
    (fields' : List (List UInt8)) :
    contentLength (fields ++ ("Content-Length".toUTF8.data.toList ++ 58 :: 32 :: Decimal.ofNat n) ::
      fields') = some n := by
  have hspace : (Decimal.ofNat n).head? ≠ some 32 := by
    intro hhead
    have hdigit := Decimal.isDigit_of_mem_ofNat (List.mem_of_head? hhead)
    exact absurd hdigit (by decide)
  have hfield : fieldOf "Content-Length".toUTF8.data.toList
      ("Content-Length".toUTF8.data.toList ++ 58 :: 32 :: Decimal.ofNat n) =
        some (Decimal.ofNat n) :=
    fieldOf_line (by decide) hspace
  rw [contentLength, List.findSome?_append, List.findSome?_eq_none_iff.mpr h, Option.none_or,
    List.findSome?_cons, hfield]
  have hdigits : (Decimal.ofNat n).all Decimal.isDigit = true :=
    List.all_eq_true.mpr fun b hb => Decimal.isDigit_of_mem_ofNat hb
  simp [Decimal.ofNat_ne_nil, hdigits, Decimal.value_ofNat]

end CacheServer.Http
