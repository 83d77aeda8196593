import CacheServer.Lib.Regions
import Mathlib.Data.List.TakeWhile

/-!
# Texts with tags

A text as a list of tokens: tags, each from a `<` to the next `>` with neither of the two in
between, and the other characters. Python's `find`, `split`, and `count` on texts, for a pattern
that is a tag, are what they are on the tokens: a tag does not overlap with itself, nor with another
tag.
-/

namespace CacheServer.Tags

open Regions

/-- A character of the text, or a tag with what is between its angle brackets. -/
inductive Token
  | char (c : Char)
  | tag (name : List Char)
deriving DecidableEq, Repr

/-- The characters that can be in a tag. -/
def inTag (c : Char) : Bool := c ≠ '<' && c ≠ '>'

/-- A tag has no `<` after its first character. -/
theorem lt_notMem {name : List Char} (h : ∀ c ∈ name, inTag c = true) : '<' ∉ name ++ ['>'] := by
  intro hmem
  obtain hmem | hmem := List.mem_append.mp hmem
  · simpa [inTag] using h '<' hmem
  · simp at hmem

/-- The text of a token. -/
def Token.text : Token → List Char
  | .char c => [c]
  | .tag name => '<' :: (name ++ ['>'])

/-- The text of some tokens. -/
def text (ts : List Token) : List Char := ts.flatMap Token.text

/-- No tokens have no text. -/
@[simp]
theorem text_nil : text [] = [] := rfl

/-- The text of two lists of tokens is that of the one and that of the other. -/
@[simp]
theorem text_append (ts ts' : List Token) : text (ts ++ ts') = text ts ++ text ts' :=
  List.flatMap_append

/-- The text of a list of tokens begins with that of the first. -/
@[simp]
theorem text_cons (t : Token) (ts : List Token) : text (t :: ts) = t.text ++ text ts :=
  List.flatMap_cons

/-- The rest of a tag, after its `<`, and what is after it. -/
def tagEnd (s : List Char) : Option (List Char × List Char) :=
  match s.dropWhile inTag with
  | '>' :: rest => some (s.takeWhile inTag, rest)
  | _ => none

/-- What is read up to the end of a tag is its characters. -/
theorem tagEnd_eq_some {s name rest : List Char} (h : tagEnd s = some (name, rest)) :
    s = name ++ '>' :: rest ∧ ∀ c ∈ name, inTag c = true := by
  unfold tagEnd at h
  split at h
  · rename_i rest' hdrop
    -- The first character that is not a tag's is the bracket that ends it.
    obtain ⟨rfl, rfl⟩ : s.takeWhile inTag = name ∧ rest' = rest := by simpa using h
    refine ⟨?_, fun c hc => List.mem_takeWhile_imp hc⟩
    rw [← hdrop, List.takeWhile_append_dropWhile]
  · cases h

/-- The characters of a tag are read up to its end. -/
theorem tagEnd_of_inTag {name : List Char} (h : ∀ c ∈ name, inTag c = true) (rest : List Char) :
    tagEnd (name ++ '>' :: rest) = some (name, rest) := by
  have hdrop : (name ++ '>' :: rest).dropWhile inTag = '>' :: rest := by
    rw [List.dropWhile_append_of_pos h]
    rfl
  have htake : (name ++ '>' :: rest).takeWhile inTag = name := by
    rw [List.takeWhile_append_of_pos h]
    simp [inTag]
  simp [tagEnd, hdrop, htake]

/-- The tag at the head of a text, and what is after it. -/
def leadingTag : List Char → Option (List Char × List Char)
  | [] => none
  | c :: s => if c = '<' then tagEnd s else none

/-- A text with a tag in front begins with the text of that tag. -/
theorem leadingTag_eq_some {s name rest : List Char} (h : leadingTag s = some (name, rest)) :
    s = (Token.tag name).text ++ rest ∧ ∀ c ∈ name, inTag c = true := by
  obtain _ | ⟨c, s⟩ := s
  · cases h
  · simp only [leadingTag] at h
    split_ifs at h with hc
    obtain ⟨rfl, hname⟩ := tagEnd_eq_some h
    exact ⟨by simp [Token.text, hc], hname⟩

/-- A text that begins with the text of a tag has that tag in front. -/
theorem leadingTag_of_inTag {name : List Char} (h : ∀ c ∈ name, inTag c = true)
    (rest : List Char) : leadingTag ((Token.tag name).text ++ rest) = some (name, rest) := by
  simp [leadingTag, Token.text, tagEnd_of_inTag h]

/-- The tokens of a text. -/
def lex : List Char → List Token
  | [] => []
  | c :: s =>
    match _h : leadingTag (c :: s) with
    | some (name, rest) => .tag name :: lex rest
    | none => .char c :: lex s
termination_by s => s.length
decreasing_by
  · have hlength := congrArg List.length (leadingTag_eq_some _h).1
    simp only [Token.text, List.cons_append, List.length_cons, List.length_append] at hlength ⊢
    omega
  · simp

/-- No text has no tokens. -/
@[simp]
theorem lex_nil : lex [] = [] := by rw [lex]

/-- Without a tag in front, the first character is a token. -/
theorem lex_char {c : Char} {s : List Char} (h : leadingTag (c :: s) = none) :
    lex (c :: s) = .char c :: lex s := by
  rw [lex]
  split
  · simp_all
  · rfl

/-- A tag in front is a token. -/
theorem lex_tag {name : List Char} (h : ∀ c ∈ name, inTag c = true) (rest : List Char) :
    lex ((Token.tag name).text ++ rest) = .tag name :: lex rest := by
  have hleading := leadingTag_of_inTag h rest
  simp only [Token.text, List.cons_append] at hleading ⊢
  rw [lex]
  split
  · simp_all
  · simp_all

/-- The tokens are all there is to a text. -/
@[simp]
theorem text_lex (s : List Char) : text (lex s) = s := by
  fun_induction lex s with
  | case1 => rfl
  | case2 c s name rest h ih => rw [(leadingTag_eq_some h).1, text_cons, ih]
  | case3 c s h ih => rw [text_cons, ih, Token.text, List.singleton_append]

/-- A text that does not start with a tag does not do so for what comes after, up to a `<`. -/
theorem leadingTag_append {c : Char} {u : List Char} (h : leadingTag (c :: u) = none)
    (v : List Char) : leadingTag (c :: (u ++ '<' :: v)) = none := by
  simp only [leadingTag] at h ⊢
  split_ifs at h ⊢ with hc
  · by_contra hsome
    obtain ⟨⟨name, rest⟩, hsome⟩ := Option.ne_none_iff_exists'.mp hsome
    obtain ⟨hu, hname⟩ := tagEnd_eq_some hsome
    -- The `<` is not in the tag, and so the tag is in `u`.
    obtain ⟨x, rfl, hx⟩ | ⟨x, rfl, hx⟩ := List.append_eq_append_iff.mp hu
    · cases x with
      | nil => simp at hx
      | cons d x =>
        obtain ⟨rfl, -⟩ : '<' = d ∧ _ := by simpa using hx
        have hd := hname '<' (by simp)
        simp [inTag] at hd
    · cases x with
      | nil => simp at hx
      | cons d x =>
        obtain ⟨rfl, -⟩ : '>' = d ∧ _ := by simpa using hx
        rw [tagEnd_of_inTag hname] at h
        cases h
  · rfl

/-- A `<` starts a new token. -/
theorem lex_append (u v : List Char) : lex (u ++ '<' :: v) = lex u ++ lex ('<' :: v) := by
  fun_induction lex u with
  | case1 => rfl
  | case2 c s name rest h ih =>
    obtain ⟨hs, hname⟩ := leadingTag_eq_some h
    rw [hs, List.append_assoc, lex_tag hname, ih, List.cons_append]
  | case3 c s h ih =>
    rw [List.cons_append, lex_char (leadingTag_append h v), ih, List.cons_append]

/-- A tag in a text is one of its tokens. -/
theorem lex_append_tag {name : List Char} (h : ∀ c ∈ name, inTag c = true) (u v : List Char) :
    lex (u ++ ((Token.tag name).text ++ v)) = lex u ++ .tag name :: lex v := by
  rw [← lex_tag h v]
  exact lex_append u (name ++ ['>'] ++ v)

/-- No token is empty. -/
theorem Token.length_text_pos (t : Token) : 0 < t.text.length := by
  cases t <;> simp [Token.text]

/-- A text without tokens is empty. -/
theorem text_eq_nil {ts : List Token} (h : text ts = []) : ts = [] := by
  cases ts with
  | nil => rfl
  | cons t ts =>
    have hpos := t.length_text_pos
    rw [text_cons, List.append_eq_nil_iff] at h
    simp [h.1] at hpos

/-- The tokens on both sides of the first occurrence of a tag are those of the texts there. -/
theorem lex_of_cut {name s : List Char} (h : ∀ c ∈ name, inTag c = true) {x y : List Token}
    (hcut : cut (.tag name) (lex s) = some (x, y)) : lex (text x) = x ∧ lex (text y) = y := by
  obtain ⟨hlex, hx⟩ := cut_eq_some_iff.mp hcut
  have hs : s = text x ++ ((Token.tag name).text ++ text y) := by
    rw [← text_lex s, hlex, text_append, text_cons]
  rw [hs, lex_append_tag h] at hlex
  -- The tag in the tokens is that in the text, or comes before or after it.
  obtain ⟨a, ha, htail⟩ | ⟨a, ha, htail⟩ := List.append_eq_append_iff.mp hlex
  · cases a with
    | nil =>
      rw [List.append_nil] at ha
      exact ⟨ha.symm, (List.cons.inj htail).2⟩
    | cons t a =>
      -- Were the tag before the end of what is in front of it, it would be there once more.
      obtain rfl : Token.tag name = t := (List.cons.inj htail).1
      have hmem : Token.tag name ∈ lex (text x) ++ Token.tag name :: a := by simp
      rw [← ha] at hmem
      exact absurd hmem hx
  · -- What is more in the tokens of the text has no text.
    have htext := congrArg text ha
    rw [text_lex, text_append, List.self_eq_append_right] at htext
    obtain rfl := text_eq_nil htext
    rw [List.append_nil] at ha
    exact ⟨ha, (List.cons.inj htail).2.symm⟩

/-! ## Lists of tokens -/

/-- A list of tokens that is the one of its text. -/
inductive Lexed : List Token → Prop
  | nil : Lexed []
  | tag {name ts} : (∀ c ∈ name, inTag c = true) → Lexed ts → Lexed (.tag name :: ts)
  | char {c ts} : leadingTag (c :: text ts) = none → Lexed ts → Lexed (.char c :: ts)

/-- What is read from a text is tokens of a text. -/
theorem lexed_lex (s : List Char) : Lexed (lex s) := by
  fun_induction lex s with
  | case1 => exact .nil
  | case2 c s name rest h ih => exact .tag (leadingTag_eq_some h).2 ih
  | case3 c s h ih => exact .char (by rwa [text_lex]) ih

/-- Tokens of a text are read back from it. -/
theorem Lexed.lex_text {ts : List Token} (h : Lexed ts) : lex (text ts) = ts := by
  induction h with
  | nil => exact lex_nil
  | tag hname _ ih => rw [text_cons, lex_tag hname, ih]
  | char hleading _ ih => rw [text_cons, Token.text, List.singleton_append, lex_char hleading, ih]

/-- The last tokens of a text are tokens of a text. -/
theorem Lexed.of_append {ts ts' : List Token} (h : Lexed (ts ++ ts')) : Lexed ts' := by
  induction ts with
  | nil => exact h
  | cons t ts ih =>
    cases h with
    | tag _ h => exact ih h
    | char _ h => exact ih h

/-- A tag can follow any tokens. -/
theorem Lexed.append_tag {ts ts' : List Token} {name : List Char} (h : Lexed ts)
    (h' : Lexed (.tag name :: ts')) : Lexed (ts ++ .tag name :: ts') := by
  have hlex : lex (text (ts ++ .tag name :: ts')) = ts ++ .tag name :: ts' := by
    rw [text_append, text_cons]
    cases h' with
    | tag hname h' => rw [lex_append_tag hname, h.lex_text, h'.lex_text]
  -- So these are the tokens of a text.
  rw [← hlex]
  exact lexed_lex _

/-- A tag does not reach over the start of another one. -/
theorem tagEnd_lt (s : List Char) : tagEnd ('<' :: s) = none := by
  simp [tagEnd, inTag]

/-- Whether a tag ends depends on the first angle bracket. -/
theorem tagEnd_cons_eq_none_iff (c : Char) (s : List Char) :
    tagEnd (c :: s) = none ↔ c = '<' ∨ c ≠ '>' ∧ tagEnd s = none := by
  by_cases hlt : c = '<'
  · -- An opening bracket is in no tag.
    simp [hlt, tagEnd_lt]
  · by_cases hgt : c = '>'
    · -- A closing one ends it here.
      simp [hgt, tagEnd, inTag]
    · -- Any other character is in the tag, which ends where it does without it.
      have hin : inTag c = true := by simp [inTag, hlt, hgt]
      simp only [tagEnd, List.dropWhile_cons, List.takeWhile_cons, hin, if_true, hlt, hgt, ne_eq,
        not_false_eq_true, true_and, false_or]
      split <;> simp

/-! ## Texts in texts -/

/-- The text before and after the first occurrence of a pattern that is not empty. -/
def find (pattern : List Char) : List Char → Option (List Char × List Char)
  | [] => none
  | c :: s =>
    if pattern.isPrefixOf (c :: s) then some ([], (c :: s).drop pattern.length)
    else (find pattern s).map fun p => (c :: p.1, p.2)

/-- A text in which the pattern is found is cut around it. -/
theorem find_eq_some {pattern s before after : List Char}
    (h : find pattern s = some (before, after)) : s = before ++ (pattern ++ after) := by
  induction s generalizing before with
  | nil => cases h
  | cons c s ih =>
    rw [find] at h
    split_ifs at h with hprefix
    · -- The pattern is here.
      obtain ⟨rest, hrest⟩ := List.isPrefixOf_iff_prefix.mp hprefix
      obtain ⟨rfl, rfl⟩ : [] = before ∧ (c :: s).drop pattern.length = after := by simpa using h
      rw [← hrest, List.drop_left, List.nil_append]
    · obtain ⟨⟨before', after'⟩, hfind, hp⟩ := Option.map_eq_some_iff.mp h
      obtain ⟨rfl, rfl⟩ : c :: before' = before ∧ after' = after := by simpa using hp
      rw [ih hfind, List.cons_append]

/-- `split` with a number of cuts at most. -/
def splitN (pattern : List Char) : ℕ → List Char → List (List Char)
  | 0, s => [s]
  | n + 1, s =>
    match find pattern s with
    | none => [s]
    | some (before, after) => before :: splitN pattern n after

/-- `split`. There are no more occurrences than characters. -/
def split (pattern s : List Char) : List (List Char) := splitN pattern s.length s

/-- `count`: the occurrences that `split` cuts at. -/
def count (pattern s : List Char) : ℕ := (split pattern s).length - 1

section

variable {name : List Char} (hname : ∀ c ∈ name, inTag c = true)

include hname

/-- A text starts with a tag exactly when its first token is the tag. -/
theorem isPrefixOf_iff_leadingTag (s : List Char) :
    (Token.tag name).text.isPrefixOf s = true ↔ ∃ rest, leadingTag s = some (name, rest) := by
  rw [List.isPrefixOf_iff_prefix]
  constructor
  · rintro ⟨rest, rfl⟩
    exact ⟨rest, leadingTag_of_inTag hname rest⟩
  · rintro ⟨rest, h⟩
    exact ⟨rest, (leadingTag_eq_some h).1.symm⟩

omit hname in
/-- There is no tag in characters without `<`. -/
theorem find_append_of_notMem {u : List Char} (hu : '<' ∉ u) (s : List Char) :
    find (Token.tag name).text (u ++ s) =
      (find (Token.tag name).text s).map fun p => (u ++ p.1, p.2) := by
  induction u with
  | nil => simp
  | cons c u ih =>
    rw [List.mem_cons, not_or] at hu
    -- The text of a tag begins with its bracket, and this is another character.
    have hprefix : (Token.tag name).text.isPrefixOf (c :: (u ++ s)) = false := by
      simp [Token.text, List.isPrefixOf, hu.1]
    rw [List.cons_append, find, if_neg (by simp [ hprefix]), ih hu.2, Option.map_map]
    rfl

/-- The first occurrence of a tag in a text is that in its tokens. -/
theorem find_tag (s : List Char) :
    find (Token.tag name).text s =
      (cut (.tag name) (lex s)).map fun p => (text p.1, text p.2) := by
  fun_induction lex s with
  | case1 => rfl
  | case2 c s name' rest h ih =>
    obtain ⟨hs, hname'⟩ := leadingTag_eq_some h
    -- The tag in front is the one that is looked for, or another one, which is skipped as a whole.
    by_cases heq : name' = name
    · have hprefix := (isPrefixOf_iff_leadingTag hname (c :: s)).mpr ⟨rest, heq ▸ h⟩
      rw [find, if_pos hprefix, hs, heq, List.drop_left]
      simp [cut]
    · have hprefix : ¬ (Token.tag name).text.isPrefixOf (c :: s) = true := by
        rw [isPrefixOf_iff_leadingTag hname, h]
        simp [heq]
      have hs' : s = (name' ++ ['>']) ++ rest := by
        simpa [Token.text] using (List.cons.inj hs).2
      have hne : Token.tag name' ≠ Token.tag name := by simpa using heq
      rw [find, if_neg hprefix, hs', find_append_of_notMem (lt_notMem hname'), ih, cut, if_neg hne]
      obtain rfl : c = '<' := (List.cons.inj hs).1
      simp only [Option.map_map]
      rfl
  | case3 c s h ih =>
    have hprefix : ¬ (Token.tag name).text.isPrefixOf (c :: s) = true := by
      rw [isPrefixOf_iff_leadingTag hname, h]
      simp
    rw [find, if_neg hprefix, ih, cut, if_neg (by simp)]
    simp only [Option.map_map]
    rfl

/-- A tag is found in every text that has it. -/
theorem find_ne_none (u v : List Char) :
    find (Token.tag name).text (u ++ ((Token.tag name).text ++ v)) ≠ none := by
  rw [find_tag hname, lex_append_tag hname, Ne, Option.map_eq_none_iff, cut_eq_none_iff]
  simp

/-- A text without the tag is not cut. -/
theorem splitN_of_notMem {s : List Char} (h : Token.tag name ∉ lex s) (n : ℕ) :
    splitN (Token.tag name).text n s = [s] := by
  cases n with
  | zero => rfl
  | succ n => simp [splitN, find_tag hname, cut_eq_none_iff.mpr h]

/-- A text with the tag is cut at its first occurrence. -/
theorem splitN_of_cut {s : List Char} {x y : List Token}
    (h : cut (.tag name) (lex s) = some (x, y)) (n : ℕ) :
    splitN (Token.tag name).text (n + 1) s =
      text x :: splitN (Token.tag name).text n (text y) := by
  simp [splitN, find_tag hname, h]

/-- With cuts enough, there is one piece more than there are tags. -/
theorem length_splitN (n : ℕ) (s : List Char) (hn : (lex s).count (.tag name) ≤ n) :
    (splitN (Token.tag name).text n s).length = (lex s).count (.tag name) + 1 := by
  induction n generalizing s with
  | zero =>
    rw [Nat.le_zero.mp hn]
    rfl
  | succ n ih =>
    cases hcut : cut (.tag name) (lex s) with
    | none =>
      have hnotMem := cut_eq_none_iff.mp hcut
      rw [splitN_of_notMem hname hnotMem, List.count_eq_zero.mpr hnotMem]
      rfl
    | some p =>
      obtain ⟨x, y⟩ := p
      obtain ⟨hlex, hx⟩ := cut_eq_some_iff.mp hcut
      have hy := (lex_of_cut hname hcut).2
      -- One of the tags is at the cut, and none is before it.
      have hcount : (lex s).count (.tag name) = y.count (.tag name) + 1 := by
        simp [hlex, List.count_eq_zero.mpr hx]
      rw [splitN_of_cut hname hcut, List.length_cons, ih _ (by rw [hy]; omega), hy, hcount]

end

/-- There are no more tokens than characters. -/
theorem length_lex_le (s : List Char) : (lex s).length ≤ s.length := by
  fun_induction lex s with
  | case1 => simp
  | case2 c s name rest h ih =>
    rw [(leadingTag_eq_some h).1, List.length_append, List.length_cons]
    have hpos := (Token.tag name).length_text_pos
    omega
  | case3 c s h ih =>
    simp only [List.length_cons]
    omega

section

variable {name : List Char} (hname : ∀ c ∈ name, inTag c = true)

include hname

/-- The occurrences of a tag in a text are those in its tokens. -/
theorem count_tag (s : List Char) :
    count (Token.tag name).text s = (lex s).count (.tag name) := by
  have hle : (lex s).count (.tag name) ≤ s.length :=
    List.count_le_length.trans (length_lex_le s)
  rw [count, split, length_splitN hname s.length s hle]
  omega

/-- A text with the tag once is split in two. -/
theorem split_of_cut {s : List Char} {x y : List Token}
    (h : cut (.tag name) (lex s) = some (x, y)) (hy : Token.tag name ∉ y) :
    split (Token.tag name).text s = [text x, text y] := by
  obtain _ | ⟨c, s⟩ := s
  · simp [cut] at h
  · have hy' : Token.tag name ∉ lex (text y) := by rwa [(lex_of_cut hname h).2]
    rw [split, List.length_cons, splitN_of_cut hname h, splitN_of_notMem hname hy']

end

/-! ## Rewriters -/

section

variable {κ : Type} {B : Brackets Token κ} {F : B.Filler} {P : κ → Bool}
  (hopen : ∀ t k, B.kind t = some k → ∃ name, t = .tag name)

include hopen

/-- A rewriter does not change whether a tag ends. -/
theorem tagEnd_rewrite (ts : List Token) :
    tagEnd (text (B.rewrite F.fill P ts)) = none ↔ tagEnd (text ts) = none := by
  induction ts with
  | nil => simp
  | cons t ts ih =>
    cases t with
    | char c =>
      have hplain : ∀ k, B.kind (.char c) = some k → P k = true → B.close (.char c) ∉ ts := by
        intro k hkind
        obtain ⟨name, hname⟩ := hopen _ k hkind
        cases hname
      rw [Brackets.rewrite_plain hplain]
      simp only [text_cons, Token.text, List.singleton_append, tagEnd_cons_eq_none_iff, ih]
    | tag name =>
      obtain ⟨rest, hrest⟩ := B.exists_rewrite_cons (F := F) (P := P) (.tag name) ts
      rw [hrest]
      simp only [text_cons, Token.text, List.cons_append, tagEnd_lt]

/-- Where brackets are tags, the tokens of a rewritten text are the rewritten tokens. -/
theorem Lexed.rewrite (hclose : ∀ t k, B.kind t = some k → ∃ name, B.close t = .tag name)
    (hfill : ∀ t body, Lexed (F.fill t body)) {ts : List Token} (h : Lexed ts) :
    Lexed (B.rewrite F.fill P ts) := by
  unfold Brackets.rewrite
  fun_induction B.scan P ts with
  | case1 => exact .nil
  | case2 t ts body after hstart ih =>
    obtain ⟨k, hkind, -, rfl, -⟩ := Brackets.start_eq_some hstart
    obtain ⟨name, rfl⟩ := hopen t k hkind
    obtain ⟨name', hname'⟩ := hclose _ k hkind
    rw [hname'] at h
    cases h with
    | tag hinTag h =>
      cases h.of_append with
      | tag hinTag' h =>
        have hnew := (hfill (.tag name) body).append_tag (.tag hinTag' (ih h))
        simpa [Brackets.render, hname'] using Lexed.tag hinTag hnew
  | case3 t ts hstart ih =>
    cases h with
    | tag hinTag h => exact .tag hinTag (ih h)
    | @char c _ hleading h =>
      refine .char ?_ (ih h)
      have hend := tagEnd_rewrite (F := F) (P := P) hopen ts
      simp only [leadingTag] at hleading ⊢
      split_ifs at hleading ⊢
      · exact hend.mpr hleading
      · rfl

end

end CacheServer.Tags
