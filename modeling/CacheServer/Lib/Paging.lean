import Mathlib.Data.List.Nodup

/-!
# Paging through a list that changes

A list is read in pages. A page starts after the *cursor*, the last element of the page before, and
collects the elements that satisfy `p` until it has enough of them. Between two pages the list
changes, so that the next page is one of another list.

That `x` stands before `y` in a list is written `[x, y] <+ ℓ`. An element that stays in the list
either is ahead of the cursor, and has not been collected, or has been passed, and was collected
once. A page keeps this for the cursor that it leaves behind, and a change of the list
keeps it if it keeps the order of the element and the cursor.
-/

namespace CacheServer.Paging

open scoped List

variable {α : Type} [BEq α]

/-- The elements after the cursor, and all of them if there is none. -/
def after : Option α → List α → List α
  | none, ℓ => ℓ
  | some c, ℓ => (ℓ.dropWhile (· != c)).tail

/-- The element is the cursor or stands before it. -/
def Passed (cursor : Option α) (ℓ : List α) (x : α) : Prop :=
  ∃ c, cursor = some c ∧ (x = c ∨ [x, c] <+ ℓ)

/-- A page of at most `n` elements that satisfy `p`: the list is cut in two, and the first part is
what the page has looked at. When it leaves something over, it is full, and the last element that it
has looked at is the last one that it has collected. -/
structure IsPage (p : α → Bool) (n : ℕ) (ℓ seen rest : List α) : Prop where
  /-- The list is cut in two. -/
  split : ℓ = seen ++ rest
  /-- The page is not too long. -/
  length_le : (seen.filter p).length ≤ n
  /-- It is full when something is left. -/
  full : rest ≠ [] → (seen.filter p).length = n
  /-- Then it ends with the last element that was looked at. -/
  last : rest ≠ [] → (seen.filter p).getLast? = seen.getLast?

/-- A change of the list that keeps the order of two elements. -/
structure Keeps (x c : α) (ℓ ℓ' : List α) : Prop where
  /-- What was before the one element still is. -/
  before : [x, c] <+ ℓ → [x, c] <+ ℓ'
  /-- What was behind it still is. -/
  behind : [c, x] <+ ℓ → [c, x] <+ ℓ'

/-- The pages that are read from a cursor on, each from its own list, by changes that keep the order
of the element `x` and the cursor. The flag says that the last page has left nothing over. -/
inductive Paged (p : α → Bool) (x : α) : Option α → List α → List (List α) → Bool → Prop
  | last {cursor : Option α} {ℓ seen rest : List α} {n : ℕ} :
      ℓ.Nodup → IsPage p n (after cursor ℓ) seen rest →
      Paged p x cursor ℓ [seen.filter p] rest.isEmpty
  | next {cursor : Option α} {ℓ ℓ' seen rest : List α} {n : ℕ} {c : α} {pages : List (List α)}
      {finished : Bool} :
      ℓ.Nodup → IsPage p n (after cursor ℓ) seen rest → seen.getLast? = some c →
      Keeps x c ℓ ℓ' → Paged p x (some c) ℓ' pages finished →
      Paged p x cursor ℓ (seen.filter p :: pages) finished

/-! ## Pages, element by element -/

section Build

variable {β : Type} {p : β → Bool} {n : ℕ} {a : β} {ℓ seen rest : List β}

/-- A page that leaves something over has looked at something. -/
theorem IsPage.seen_ne_nil (h : IsPage p n ℓ seen rest) (hn : 0 < n) (hrest : rest ≠ []) :
    seen ≠ [] := by
  rintro rfl
  have hfull := h.full hrest
  simp only [List.filter_nil, List.length_nil] at hfull
  omega

/-- The page of an empty list. -/
theorem IsPage.nil (p : β → Bool) (n : ℕ) : IsPage p n [] [] [] where
  split := rfl
  length_le := Nat.zero_le n
  full h := absurd rfl h
  last h := absurd rfl h

/-- A page that is full with its first element. -/
theorem IsPage.stop (hp : p a = true) (ℓ : List β) : IsPage p 1 (a :: ℓ) [a] ℓ where
  split := rfl
  length_le := by simp [hp]
  full _ := by simp [hp]
  last _ := by simp [hp]

/-- A page that starts with an element that it collects. -/
theorem IsPage.hit (hp : p a = true) (h : IsPage p n ℓ seen rest) :
    IsPage p (n + 1) (a :: ℓ) (a :: seen) rest where
  split := by rw [h.split, List.cons_append]
  length_le := by simpa [hp] using h.length_le
  full hrest := by simpa [hp] using h.full hrest
  last hrest := by simp only [List.filter_cons, hp, if_true, List.getLast?_cons, h.last hrest]

/-- A page that starts with an element that it does not collect. -/
theorem IsPage.miss (hp : p a = false) (h : IsPage p n ℓ seen rest) (hn : 0 < n) :
    IsPage p n (a :: ℓ) (a :: seen) rest where
  split := by rw [h.split, List.cons_append]
  length_le := by simpa [hp] using h.length_le
  full hrest := by simpa [hp] using h.full hrest
  last hrest := by
    have hfilter : (a :: seen).filter p = seen.filter p := by simp [hp]
    rw [hfilter, h.last hrest]
    exact (List.getLast?_cons_of_ne_nil (h.seen_ne_nil hn hrest)).symm

/-- A page of the images. -/
theorem IsPage.map {γ : Type} (q : γ → Bool) (f : β → γ)
    (h : IsPage (fun b => q (f b)) n ℓ seen rest) :
    IsPage q n (ℓ.map f) (seen.map f) (rest.map f) where
  split := by rw [h.split, List.map_append]
  length_le := by simpa [List.filter_map, Function.comp_def] using h.length_le
  full hrest := by
    have hrest : rest ≠ [] := fun h => hrest (by rw [h, List.map_nil])
    simpa [List.filter_map, Function.comp_def] using h.full hrest
  last hrest := by
    have hrest : rest ≠ [] := fun h => hrest (by rw [h, List.map_nil])
    rw [List.filter_map, List.getLast?_map, List.getLast?_map, Function.comp_def, h.last hrest]

end Build

/-! ## The order of a list without duplicates -/

omit [BEq α] in
/-- An element that is not the first stands before another in the rest of the list. -/
theorem pair_sublist_of_ne {a x y : α} {ℓ : List α} (h : [x, y] <+ a :: ℓ) (hne : x ≠ a) :
    [x, y] <+ ℓ := by
  cases h with
  | cons _ h => exact h
  | cons_cons _ h => exact absurd rfl hne

omit [BEq α] in
/-- Standing before is transitive. -/
theorem pair_sublist_trans {x y z : α} {ℓ : List α} (hnd : ℓ.Nodup) (hxy : [x, y] <+ ℓ)
    (hyz : [y, z] <+ ℓ) : [x, z] <+ ℓ := by
  induction ℓ with
  | nil => cases hxy
  | cons a ℓ ih =>
    obtain ⟨ha, hnd⟩ := List.nodup_cons.mp hnd
    -- `y` is not the first element, since something stands before it.
    have hy : y ∈ ℓ := by
      cases hxy with
      | cons _ h => exact h.subset (by simp)
      | cons_cons _ h => exact h.subset (by simp)
    have hyz' : [y, z] <+ ℓ := pair_sublist_of_ne hyz fun h => ha (h ▸ hy)
    cases hxy with
    | cons _ hxy => exact (ih hnd hxy hyz').cons a
    | cons_cons _ _ =>
      have hz : z ∈ ℓ := hyz'.subset (by simp)
      exact (List.singleton_sublist.mpr hz).cons_cons x

/-- What comes after a cursor comes in the list's own order. -/
theorem after_sublist (cursor : Option α) (ℓ : List α) : after cursor ℓ <+ ℓ := by
  cases cursor with
  | none => exact List.Sublist.refl ℓ
  | some c => exact (List.tail_sublist _).trans (List.dropWhile_sublist _)

variable [LawfulBEq α]

/-- The elements after a cursor are those that it stands before. -/
theorem mem_after_some {c x : α} {ℓ : List α} : x ∈ after (some c) ℓ ↔ [c, x] <+ ℓ := by
  induction ℓ with
  | nil => simp [after]
  | cons a ℓ ih =>
    by_cases ha : a = c
    · subst ha
      simp only [after, List.dropWhile_cons, bne_self_eq_false, Bool.false_eq_true, if_false,
        List.tail_cons]
      constructor
      · intro hx
        exact (List.singleton_sublist.mpr hx).cons_cons a
      · intro h
        cases h with
        | cons _ h => exact h.subset (by simp)
        | cons_cons _ h => exact h.subset (by simp)
    · have hafter : after (some c) (a :: ℓ) = after (some c) ℓ := by simp [after, ha]
      rw [hafter, ih]
      constructor
      · intro h
        exact h.cons a
      · intro h
        exact pair_sublist_of_ne h (Ne.symm ha)

/-- An element that has been passed is not ahead. -/
theorem Passed.not_mem_after {cursor : Option α} {ℓ : List α} {x : α} (hnd : ℓ.Nodup)
    (h : Passed cursor ℓ x) : x ∉ after cursor ℓ := by
  obtain ⟨c, rfl, hx⟩ := h
  rw [mem_after_some]
  intro hcx
  -- In either case the element would stand before itself.
  rcases hx with rfl | hxc
  · exact List.nodup_iff_sublist.mp hnd x hcx
  · exact List.nodup_iff_sublist.mp hnd x (pair_sublist_trans hnd hxc hcx)

/-! ## One page -/

section Page

variable {p : α → Bool} {n : ℕ} {cursor : Option α} {ℓ seen rest : List α} {c x : α}

omit [LawfulBEq α] in
/-- What a page has looked at has no duplicates. -/
theorem IsPage.nodup (h : IsPage p n (after cursor ℓ) seen rest) (hnd : ℓ.Nodup) :
    seen.Nodup := by
  have hseen : seen <+ ℓ := by
    refine List.Sublist.trans ?_ (after_sublist cursor ℓ)
    rw [h.split]
    exact List.sublist_append_left seen rest
  exact hseen.nodup hnd

omit [LawfulBEq α] in
/-- What a page has looked at is passed by the cursor that it leaves behind. -/
theorem IsPage.passed_of_mem (h : IsPage p n (after cursor ℓ) seen rest)
    (hlast : seen.getLast? = some c) (hx : x ∈ seen) : Passed (some c) ℓ x := by
  refine ⟨c, rfl, ?_⟩
  obtain ⟨init, rfl⟩ := List.getLast?_eq_some_iff.mp hlast
  rcases List.mem_append.mp hx with hx | hx
  · right
    have hpair : [x] ++ [c] <+ init ++ [c] :=
      (List.singleton_sublist.mpr hx).append (List.Sublist.refl _)
    refine (hpair.trans ?_).trans (after_sublist cursor ℓ)
    rw [h.split]
    exact List.sublist_append_left _ rest
  · exact .inl (List.mem_singleton.mp hx)

/-- What a page leaves over is ahead of the cursor that it leaves behind. -/
theorem IsPage.mem_after_of_mem_rest (h : IsPage p n (after cursor ℓ) seen rest)
    (hlast : seen.getLast? = some c) (hx : x ∈ rest) : x ∈ after (some c) ℓ := by
  rw [mem_after_some]
  refine List.Sublist.trans ?_ (after_sublist cursor ℓ)
  rw [h.split]
  exact (List.singleton_sublist.mpr (List.mem_of_getLast? hlast)).append
    (List.singleton_sublist.mpr hx)

/-- What was passed before a page is passed after it. -/
theorem IsPage.passed_of_passed (h : IsPage p n (after cursor ℓ) seen rest) (hnd : ℓ.Nodup)
    (hlast : seen.getLast? = some c) (hx : Passed cursor ℓ x) : Passed (some c) ℓ x := by
  obtain ⟨d, rfl, hx⟩ := hx
  -- The old cursor stands before the new one.
  have hdc : [d, c] <+ ℓ := by
    rw [← mem_after_some, h.split]
    exact List.mem_append_left rest (List.mem_of_getLast? hlast)
  rcases hx with rfl | hxd
  · exact ⟨c, rfl, .inr hdc⟩
  · exact ⟨c, rfl, .inr (pair_sublist_trans hnd hxd hdc)⟩

/-- An element that a page has not looked at is not collected. -/
theorem count_filter_eq_zero (hx : x ∉ seen) : (seen.filter p).count x = 0 :=
  List.count_eq_zero.mpr fun hmem => hx (List.mem_of_mem_filter hmem)

/-- An element that satisfies `p` is collected once by the page that looks at it. -/
theorem IsPage.count_eq_one (h : IsPage p n (after cursor ℓ) seen rest) (hnd : ℓ.Nodup)
    (hp : p x = true) (hx : x ∈ seen) : (seen.filter p).count x = 1 := by
  refine List.count_eq_one_of_mem ?_ ?_
  · exact (h.nodup hnd).filter p
  · exact List.mem_filter.mpr ⟨hx, hp⟩

end Page

/-! ## All pages -/

section Pages

variable {p : α → Bool} {x c : α} {ℓ ℓ' : List α} {cursor : Option α} {pages : List (List α)}
  {finished : Bool}

/-- A change keeps an element ahead of the cursor. -/
theorem Keeps.mem_after (h : Keeps x c ℓ ℓ') (hx : x ∈ after (some c) ℓ) :
    x ∈ after (some c) ℓ' :=
  mem_after_some.mpr (h.behind (mem_after_some.mp hx))

omit [BEq α] [LawfulBEq α] in
/-- A change keeps an element behind the cursor. -/
theorem Keeps.passed (h : Keeps x c ℓ ℓ') (hx : Passed (some c) ℓ x) : Passed (some c) ℓ' x := by
  obtain ⟨d, hd, hx⟩ := hx
  obtain rfl := Option.some.inj hd
  exact ⟨c, rfl, hx.imp_right h.before⟩

/-- An element that has been passed is not collected again. -/
theorem Paged.count_eq_zero (h : Paged p x cursor ℓ pages finished) (hx : Passed cursor ℓ x) :
    pages.flatten.count x = 0 := by
  induction h with
  | last hnd hpage =>
    have hseen := hx.not_mem_after hnd
    rw [hpage.split] at hseen
    simpa using count_filter_eq_zero fun h => hseen (List.mem_append_left _ h)
  | next hnd hpage hlast hkeeps _ ih =>
    have hseen := hx.not_mem_after hnd
    rw [hpage.split] at hseen
    rw [List.flatten_cons, List.count_append,
      count_filter_eq_zero fun h => hseen (List.mem_append_left _ h),
      ih (hkeeps.passed (hpage.passed_of_passed hnd hlast hx))]

/-- An element that is ahead and satisfies `p` is collected at most once, and exactly once when the
last page leaves nothing over. -/
theorem Paged.count_of_mem_after (h : Paged p x cursor ℓ pages finished) (hp : p x = true)
    (hx : x ∈ after cursor ℓ) :
    pages.flatten.count x ≤ 1 ∧ (finished = true → pages.flatten.count x = 1) := by
  induction h with
  | @last _ ℓ seen rest _ hnd hpage =>
    simp only [List.flatten_cons, List.flatten_nil, List.append_nil, List.isEmpty_iff]
    by_cases hseen : x ∈ seen
    · have hone := hpage.count_eq_one hnd hp hseen
      exact ⟨Nat.le_of_eq hone, fun _ => hone⟩
    · -- A page that leaves nothing over has looked at everything ahead.
      refine ⟨by rw [count_filter_eq_zero hseen]; omega, fun hrest => ?_⟩
      rw [hpage.split, hrest, List.append_nil] at hx
      exact absurd hx hseen
  | @next _ ℓ _ seen rest _ _ _ _ hnd hpage hlast hkeeps hpages ih =>
    rw [List.flatten_cons, List.count_append]
    by_cases hseen : x ∈ seen
    · -- Collected by this page, the element is behind the cursor of all later ones.
      have hpassed := hkeeps.passed (hpage.passed_of_mem hlast hseen)
      rw [hpage.count_eq_one hnd hp hseen, hpages.count_eq_zero hpassed]
      exact ⟨Nat.le_refl 1, fun _ => rfl⟩
    · -- Left over by this page, the element is ahead of the next cursor.
      have hrest : x ∈ rest := by
        rw [hpage.split] at hx
        exact (List.mem_append.mp hx).resolve_left hseen
      rw [count_filter_eq_zero hseen, Nat.zero_add]
      exact ih (hkeeps.mem_after (hpage.mem_after_of_mem_rest hlast hrest))

end Pages

end CacheServer.Paging
