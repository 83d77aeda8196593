import CacheServer.Lib.Assoc

/-!
# Regular expressions

The part of Python's regular expressions that has literals, a class of characters repeated greedily,
an optional character, a lazy run of any characters, named groups, and references back to them. The
outcomes of an expression are listed in the order in which a backtracking matcher tries them, so
that the first outcome is the match. `finditer` looks for matches that do not overlap from left to
right.
-/

namespace CacheServer.Regex

/-- The texts of the groups. -/
abbrev Captures := List (String × List Char)

/-- A regular expression. -/
inductive Pattern
  | lit (text : List Char)
  /-- A class, `[...]+`. -/
  | plus (cls : Char → Bool)
  /-- A character, `c?`. -/
  | opt (c : Char)
  /-- Any characters, `.*?` with `DOTALL`. -/
  | lazyAny
  /-- A group, `(?P<name>...)`. -/
  | group (name : String) (p : Pattern)
  /-- The text of a group, `(?P=name)`. -/
  | backref (name : String)
  | seq (p q : Pattern)

/-- The cuts of a text after one or more characters of a class, the longest first. -/
def greedyCuts (cls : Char → Bool) : List Char → List (List Char × List Char)
  | [] => []
  | c :: s =>
    if cls c then ((greedyCuts cls s).map fun p => (c :: p.1, p.2)) ++ [([c], s)] else []

/-- The cuts of a text, the shortest first. -/
def lazyCuts : List Char → List (List Char × List Char)
  | [] => [([], [])]
  | c :: s => ([], c :: s) :: (lazyCuts s).map fun p => (c :: p.1, p.2)

/-- The cut after a text. -/
def litCuts (l s : List Char) : List (List Char × List Char) :=
  if l.isPrefixOf s then [(l, s.drop l.length)] else []

/-- The cuts of a text after an optional character. -/
def optCuts (c : Char) (s : List Char) : List (List Char × List Char) :=
  litCuts [c] s ++ [([], s)]

/-- What a match of an expression can be: its text, what is after it, and the groups. -/
def Pattern.outcomes : Pattern → Captures → List Char →
    List (List Char × List Char × Captures)
  | .lit l, groups, s => (litCuts l s).map fun p => (p.1, p.2, groups)
  | .plus cls, groups, s => (greedyCuts cls s).map fun p => (p.1, p.2, groups)
  | .opt c, groups, s => (optCuts c s).map fun p => (p.1, p.2, groups)
  | .lazyAny, groups, s => (lazyCuts s).map fun p => (p.1, p.2, groups)
  | .group name p, groups, s =>
    (p.outcomes groups s).map fun o => (o.1, o.2.1, Assoc.set o.2.2 name o.1)
  | .backref name, groups, s =>
    match groups.lookup name with
    | none => []
    | some l => (litCuts l s).map fun p => (p.1, p.2, groups)
  | .seq p q, groups, s =>
    (p.outcomes groups s).flatMap fun o =>
      (q.outcomes o.2.2 o.2.1).map fun o' => (o.1 ++ o'.1, o'.2)

/-- A match: its text, and the texts of its groups. -/
structure Match where
  /-- Its text. -/
  text : List Char
  /-- The texts of its groups. -/
  groups : Captures
deriving DecidableEq, Repr

/-- The match at the head of a text, and what is after it. -/
def Pattern.match? (p : Pattern) (s : List Char) : Option (Match × List Char) :=
  (p.outcomes [] s).head?.map fun o => (⟨o.1, o.2.2⟩, o.2.1)

/-- The text from the given number of characters on, as matches and the characters between them. An
expression that matches the empty text is not meant. -/
def Pattern.scan (p : Pattern) : ℕ → List Char → List (Char ⊕ Match)
  | _, [] => []
  | skip + 1, _ :: s => p.scan skip s
  | 0, c :: s =>
    match p.match? (c :: s) with
    | some (m, _) => .inr m :: p.scan (m.text.length - 1) s
    | none => .inl c :: p.scan 0 s

/-- The matches in a text, and the characters between them. -/
def Pattern.finditer (p : Pattern) (s : List Char) : List (Char ⊕ Match) := p.scan 0 s

/-! ## Cuts -/

/-- A literal at the head of a text. -/
theorem litCuts_append (l s : List Char) : litCuts l (l ++ s) = [(l, s)] := by
  rw [litCuts, if_pos (List.isPrefixOf_iff_prefix.mpr ⟨s, rfl⟩), List.drop_left]

/-- A literal cuts itself off. -/
theorem mem_litCuts {l s : List Char} {p : List Char × List Char} (h : p ∈ litCuts l s) :
    p.1 = l ∧ s = l ++ p.2 := by
  unfold litCuts at h
  split_ifs at h with hprefix
  · obtain ⟨rest, rfl⟩ := List.isPrefixOf_iff_prefix.mp hprefix
    simp only [List.drop_left, List.mem_singleton] at h
    simp [h]
  · cases h

/-- A text that begins with another character has no such cut. -/
theorem litCuts_eq_nil {c : Char} {l s : List Char} (h : s.head? ≠ some c) :
    litCuts (c :: l) s = [] := by
  rw [litCuts, if_neg]
  intro hprefix
  obtain ⟨rest, rfl⟩ := List.isPrefixOf_iff_prefix.mp hprefix
  simp at h

/-- A class cuts off characters of its own, at least one. -/
theorem mem_greedyCuts {cls : Char → Bool} {s : List Char} {p : List Char × List Char}
    (h : p ∈ greedyCuts cls s) : s = p.1 ++ p.2 ∧ p.1 ≠ [] ∧ ∀ c ∈ p.1, cls c = true := by
  induction s generalizing p with
  | nil => simp [greedyCuts] at h
  | cons c s ih =>
    rw [greedyCuts] at h
    split_ifs at h with hc
    · obtain h | h := List.mem_append.mp h
      · obtain ⟨q, hq, rfl⟩ := List.mem_map.mp h
        obtain ⟨rfl, -, hcls⟩ := ih hq
        simpa [hc] using hcls
      · obtain rfl := List.mem_singleton.mp h
        simp [hc]
    · cases h

/-- The longest cut comes first, and every other leaves a character of the class. -/
theorem greedyCuts_append {cls : Char → Bool} {name rest : List Char} (hne : name ≠ [])
    (hname : ∀ c ∈ name, cls c = true) (hrest : ∀ c ∈ rest.head?, cls c = false) :
    ∃ others, greedyCuts cls (name ++ rest) = (name, rest) :: others ∧
      ∀ p ∈ others, ∃ c ∈ p.2.head?, cls c = true := by
  induction name with
  | nil => exact absurd rfl hne
  | cons c name ih =>
    have hc := hname c List.mem_cons_self
    rw [List.cons_append, greedyCuts, if_pos hc]
    by_cases hnil : name = []
    · subst hnil
      have hnone : greedyCuts cls rest = [] := by
        cases rest with
        | nil => rfl
        | cons d rest => simp [greedyCuts, hrest d rfl]
      exact ⟨[], by simp [hnone], by simp⟩
    · obtain ⟨others, hcuts, hothers⟩ := ih hnil fun d hd => hname d (List.mem_cons_of_mem _ hd)
      refine ⟨others.map (fun p => (c :: p.1, p.2)) ++ [([c], name ++ rest)], by simp [hcuts], ?_⟩
      intro p hp
      obtain hp | hp := List.mem_append.mp hp
      · obtain ⟨q, hq, rfl⟩ := List.mem_map.mp hp
        exact hothers q hq
      · obtain rfl := List.mem_singleton.mp hp
        obtain ⟨d, name, rfl⟩ := List.exists_cons_of_ne_nil hnil
        exact ⟨d, rfl, hname d (by simp)⟩

/-- Any characters are cut off as they are. -/
theorem mem_lazyCuts {s : List Char} {p : List Char × List Char} (h : p ∈ lazyCuts s) :
    s = p.1 ++ p.2 := by
  induction s generalizing p with
  | nil => simp_all [lazyCuts]
  | cons c s ih =>
    rw [lazyCuts, List.mem_cons] at h
    obtain rfl | h := h
    · rfl
    · obtain ⟨q, hq, rfl⟩ := List.mem_map.mp h
      simp [ih hq]

/-! ## Scans -/

/-- A scan that skips some characters is one of what is after them. -/
theorem Pattern.scan_eq_drop (p : Pattern) (n : ℕ) (s : List Char) :
    p.scan n s = p.scan 0 (s.drop n) := by
  induction n generalizing s with
  | zero => rfl
  | succ n ih =>
    cases s with
    | nil => rfl
    | cons c s => exact ih s

end CacheServer.Regex
