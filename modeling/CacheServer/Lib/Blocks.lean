import Mathlib.Data.List.Basic

/-!
# Lists cut into blocks

A list is cut into consecutive blocks by a relation `p` of an element to the ones after it: an
element opens a block, the block goes on as long as `p` holds of its first element and the next one,
and the next one opens the next block otherwise. A block is a pair of its first element and the
others, so that no block is empty.
-/

namespace CacheServer.Blocks

variable {α : Type} (p : α → α → Bool)

/-- The blocks of the list, after the block of `first` that has `rest` in it so far. -/
def blocksFrom (first : α) (rest : List α) : List α → List (α × List α)
  | [] => [(first, rest)]
  | x :: xs =>
    if p first x then blocksFrom first (rest ++ [x]) xs else (first, rest) :: blocksFrom x [] xs

/-- The blocks of a list. -/
def blocks : List α → List (α × List α)
  | [] => []
  | x :: xs => blocksFrom p x [] xs

/-- The elements of a block. -/
def elements (b : α × List α) : List α := b.1 :: b.2

variable {p}

/-- The first block is the one that was open, with elements added. -/
theorem blocksFrom_eq_cons (first : α) (rest xs : List α) :
    ∃ more bs, blocksFrom p first rest xs = (first, rest ++ more) :: bs := by
  induction xs generalizing rest with
  | nil => exact ⟨[], [], by simp [blocksFrom]⟩
  | cons x xs ih =>
    simp only [blocksFrom]
    split_ifs
    · obtain ⟨more, bs, h⟩ := ih (rest ++ [x])
      exact ⟨x :: more, bs, by simpa using h⟩
    · exact ⟨[], blocksFrom p x [] xs, by simp⟩

/-- The blocks make up the list. -/
theorem flatMap_blocksFrom (first : α) (rest xs : List α) :
    (blocksFrom p first rest xs).flatMap elements = first :: rest ++ xs := by
  induction xs generalizing first rest with
  | nil => simp [blocksFrom, elements]
  | cons x xs ih =>
    simp only [blocksFrom]
    split_ifs
    · simp [ih]
    · simp [ih, elements]

/-- The first element of a block is in relation to all the others. -/
theorem rel_of_mem_blocksFrom {first : α} {rest : List α} (hrest : ∀ x ∈ rest, p first x = true)
    {xs : List α} {b : α × List α} (hb : b ∈ blocksFrom p first rest xs) :
    ∀ x ∈ b.2, p b.1 x = true := by
  induction xs generalizing first rest with
  | nil =>
    obtain rfl : b = (first, rest) := by simpa [blocksFrom] using hb
    exact hrest
  | cons x xs ih =>
    simp only [blocksFrom] at hb
    split_ifs at hb with hx
    · refine ih ?_ hb
      simpa [or_imp, forall_and] using ⟨hrest, hx⟩
    · rcases List.mem_cons.mp hb with rfl | hb
      · exact hrest
      · exact ih (by simp) hb

/-- When the list is ordered so that an element not in relation to `first` is followed by no other
that is, the first element of a block is in relation to no element of a later block. -/
theorem pairwise_blocksFrom {r : α → α → Prop}
    (hr : ∀ c x y, p c x = false → r x y → p c y = false) (first : α) (rest : List α) {xs : List α}
    (hxs : xs.Pairwise r) :
    (blocksFrom p first rest xs).Pairwise fun b b' => ∀ x ∈ elements b', p b.1 x = false := by
  induction xs generalizing first rest with
  | nil => simp [blocksFrom]
  | cons x xs ih =>
    obtain ⟨hx, hxs⟩ := List.pairwise_cons.mp hxs
    simp only [blocksFrom]
    split_ifs with hp
    · exact ih first (rest ++ [x]) hxs
    · refine List.pairwise_cons.mpr ⟨fun b hb y hy => ?_, ih x [] hxs⟩
      -- The elements of the later blocks are `x` and what follows it.
      have hmem : y ∈ x :: xs := by
        have := List.mem_flatMap.mpr ⟨b, hb, hy⟩
        simpa [flatMap_blocksFrom] using this
      have hfx : p first x = false := by simpa using hp
      rcases List.mem_cons.mp hmem with rfl | hmem
      · exact hfx
      · exact hr first x y hfx (hx y hmem)

/-- The list is cut as it should be: the blocks make it up, the first element of a block is in
relation to all the others, and it is not to any element of a later block. -/
theorem blocks_spec {r : α → α → Prop} (hr : ∀ c x y, p c x = false → r x y → p c y = false)
    {xs : List α} (hxs : xs.Pairwise r) :
    (blocks p xs).flatMap elements = xs ∧ (∀ b ∈ blocks p xs, ∀ x ∈ b.2, p b.1 x = true) ∧
      (blocks p xs).Pairwise fun b b' => ∀ x ∈ elements b', p b.1 x = false := by
  cases xs with
  | nil => simp [blocks]
  | cons x xs =>
    exact ⟨flatMap_blocksFrom x [] xs, fun b hb => rel_of_mem_blocksFrom (by simp) hb,
      pairwise_blocksFrom hr x [] (List.pairwise_cons.mp hxs).2⟩

end CacheServer.Blocks
