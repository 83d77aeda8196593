import Mathlib.Data.List.Nodup

/-!
# Dictionaries

A dictionary as the list of its entries in the order in which their keys were added, with the
lookup of the core library and an update in place.
-/

namespace CacheServer.Assoc

variable {κ α : Type} [BEq κ] [LawfulBEq κ]

/-- The update of a key. A new key is added at the end. -/
def set (l : List (κ × α)) (key : κ) (value : α) : List (κ × α) :=
  match l with
  | [] => [(key, value)]
  | (k, v) :: l => if k == key then (key, value) :: l else (k, v) :: set l key value

/-- An update goes past other keys. -/
theorem set_append {l : List (κ × α)} {key : κ} (h : key ∉ l.map Prod.fst) (l' : List (κ × α))
    (value : α) : set (l ++ l') key value = l ++ set l' key value := by
  induction l with
  | nil => rfl
  | cons p l ih =>
    obtain ⟨k, v⟩ := p
    have hk : k ≠ key := fun hk => h (by simp [hk])
    have hl : key ∉ l.map Prod.fst := fun hl => h (List.mem_cons_of_mem _ hl)
    simp [set, hk, ih hl]

/-- The update of a new key. -/
theorem set_of_notMem {l : List (κ × α)} {key : κ} (h : key ∉ l.map Prod.fst) (value : α) :
    set l key value = l ++ [(key, value)] := by
  simpa [set] using set_append h [] value

/-- The update of the last key. -/
theorem set_append_singleton {l : List (κ × α)} {key : κ} (h : key ∉ l.map Prod.fst)
    (old value : α) : set (l ++ [(key, old)]) key value = l ++ [(key, value)] := by
  simpa [set] using set_append h [(key, old)] value

/-- The lookup of another key. -/
theorem lookup_set_of_ne {key key' : κ} (h : key' ≠ key) (l : List (κ × α)) (value : α) :
    (set l key value).lookup key' = l.lookup key' := by
  have h := beq_false_of_ne h
  induction l with
  | nil => simp [set, List.lookup_cons, h]
  | cons p l ih =>
    obtain ⟨k, v⟩ := p
    by_cases hk : k = key
    · simp [set, hk, List.lookup_cons, h]
    · simp [set, hk, List.lookup_cons, ih]

/-- The lookup of a key that has one value only. -/
theorem lookup_eq_some {l : List (κ × α)} {key : κ} {value : α} (hmem : (key, value) ∈ l)
    (hunique : ∀ v, (key, v) ∈ l → v = value) : l.lookup key = some value := by
  induction l with
  | nil => simp at hmem
  | cons p l ih =>
    obtain ⟨k, v⟩ := p
    by_cases hk : key = k
    · subst hk
      simp [hunique v List.mem_cons_self]
    · have hmem : (key, value) ∈ l := by simpa [hk] using hmem
      simp only [List.lookup_cons, beq_false_of_ne hk]
      exact ih hmem fun v hv => hunique v (List.mem_cons_of_mem _ hv)

/-- What a lookup gives is an entry. -/
theorem mem_of_lookup {l : List (κ × α)} {key : κ} {value : α} (h : l.lookup key = some value) :
    (key, value) ∈ l := by
  obtain ⟨l₁, l₂, hl, -⟩ := List.lookup_eq_some_iff.mp h
  simp [hl]

/-- Where no key occurs twice, the lookup gives the entries. -/
theorem lookup_eq_some_iff {l : List (κ × α)} (hnodup : (l.map Prod.fst).Nodup) {key : κ}
    {value : α} : l.lookup key = some value ↔ (key, value) ∈ l := by
  refine ⟨mem_of_lookup, fun hmem => lookup_eq_some hmem fun v hv => ?_⟩
  have hinj := List.inj_on_of_nodup_map hnodup hv hmem rfl
  exact congrArg Prod.snd hinj

end CacheServer.Assoc
