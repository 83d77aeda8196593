import CacheServer.Bench.Readme
import Mathlib.Tactic.SplitIfs

/-!
# The markers of the blocks

The markers that `apply_blocks` looks for are tags, and what its regular expression matches is a tag
that begins a block, and the first tag after it that ends it (`match?_marker`,
`match?_marker_eq_none`). The newline after the first tag is in a group of its own, and there is
nothing to backtrack over.
-/

namespace CacheServer.Bench.Readme

open Regions Regex Tags

/-! ## Markers -/

/-- A name of a block. -/
def IsName (name : List Char) : Prop := name ≠ [] ∧ ∀ c ∈ name, nameChar c = true

/-- The tag that begins a block. -/
def beginTag (name : List Char) : List Char := beginText.tail ++ (name ++ closeText.dropLast)

/-- The tag that ends a block. -/
def endTag (name : List Char) : List Char := endText.tail ++ (name ++ closeText.dropLast)

/-- A character of a name may stand in a tag. -/
theorem inTag_of_nameChar {c : Char} (h : nameChar c = true) : inTag c = true := by
  by_contra hc
  simp only [inTag, Bool.and_eq_true, decide_eq_true_eq, not_and_or, not_not] at hc
  obtain rfl | rfl := hc
  · exact absurd h (by decide)
  · exact absurd h (by decide)

/-- The fixed parts of a tag have the characters of one. -/
theorem inTag_texts : (∀ c ∈ beginText.tail, inTag c = true) ∧
    (∀ c ∈ endText.tail, inTag c = true) ∧ ∀ c ∈ closeText.dropLast, inTag c = true := by
  simp only [← List.all_eq_true]
  decide

/-- A begin tag has the characters of a tag. -/
theorem IsName.inTag_beginTag {name : List Char} (h : IsName name) :
    ∀ c ∈ beginTag name, inTag c = true := by
  simp only [beginTag, List.mem_append, or_imp, forall_and]
  exact ⟨inTag_texts.1, fun c hc => inTag_of_nameChar (h.2 c hc), inTag_texts.2.2⟩

/-- So has an end tag. -/
theorem IsName.inTag_endTag {name : List Char} (h : IsName name) :
    ∀ c ∈ endTag name, inTag c = true := by
  simp only [endTag, List.mem_append, or_imp, forall_and]
  exact ⟨inTag_texts.2.1, fun c hc => inTag_of_nameChar (h.2 c hc), inTag_texts.2.2⟩

/-- The text of a begin tag: its fixed parts around the name. -/
theorem text_beginTag (name : List Char) :
    (Token.tag (beginTag name)).text = beginText ++ (name ++ closeText) := by
  have hbegin : '<' :: beginText.tail = beginText := by decide
  have hclose : closeText.dropLast ++ ['>'] = closeText := by decide
  rw [Token.text, beginTag, List.append_assoc, List.append_assoc, hclose, ← List.cons_append,
    hbegin]

/-- The text of an end tag: its fixed parts around the name. -/
theorem text_endTag (name : List Char) :
    (Token.tag (endTag name)).text = endText ++ (name ++ closeText) := by
  have hend : '<' :: endText.tail = endText := by decide
  have hclose : closeText.dropLast ++ ['>'] = closeText := by decide
  rw [Token.text, endTag, List.append_assoc, List.append_assoc, hclose, ← List.cons_append, hend]

/-! ## Matches -/

/-- The newline at the head of a text, if there is one. -/
def newlineOf (s : List Char) : List Char := if s.head? = some '\n' then ['\n'] else []

/-- The match of a block. -/
def matchOf (name body : List Char) : Match where
  text := (Token.tag (beginTag name)).text ++ (body ++ (Token.tag (endTag name)).text)
  groups :=
    [("name", name), ("nl", newlineOf body),
      ("1", (Token.tag (beginTag name)).text ++ newlineOf body),
      ("body", body.drop (newlineOf body).length), ("5", (Token.tag (endTag name)).text)]

/-- A literal after another is one literal. -/
theorem litCuts_flatMap (l l' s : List Char) :
    ((litCuts l s).flatMap fun p => (litCuts l' p.2).map fun q => (p.1 ++ q.1, q.2)) =
      litCuts (l ++ l') s := by
  by_cases h : l <+: s
  · obtain ⟨rest, rfl⟩ := h
    rw [litCuts_append]
    simp only [List.flatMap_cons, List.flatMap_nil, List.append_nil]
    by_cases h' : l' <+: rest
    · obtain ⟨rest, rfl⟩ := h'
      rw [litCuts_append, ← List.append_assoc, litCuts_append]
      rfl
    · have hl : ¬ l ++ l' <+: l ++ rest := by rwa [List.prefix_append_right_inj]
      rw [litCuts, if_neg (by simpa using h'), litCuts, if_neg (by simpa using hl)]
      rfl
  · have hl : ¬ l ++ l' <+: s := fun hl => h ((List.prefix_append l l').trans hl)
    rw [litCuts, if_neg (by simpa using h), litCuts, if_neg (by simpa using hl)]
    rfl

/-- The first place where a literal is after any characters is its first occurrence. -/
theorem head?_lazyCuts {γ : Type} {m : List Char} (hm : m ≠ []) (f : List Char → List Char → γ)
    (s : List Char) :
    ((lazyCuts s).flatMap fun p => (litCuts m p.2).map fun q => f p.1 q.2).head? =
      (find m s).map fun p => f p.1 p.2 := by
  induction s generalizing f with
  | nil =>
    have hcuts : litCuts m [] = [] := by simp [litCuts, hm]
    simp [lazyCuts, find, hcuts]
  | cons c s ih =>
    rw [lazyCuts, List.flatMap_cons, find]
    split_ifs with hprefix
    · simp [litCuts, hprefix]
    · have hcuts : litCuts m (c :: s) = [] := if_neg hprefix
      rw [hcuts, List.map_nil, List.nil_append, List.flatMap_map, Option.map_map]
      exact ih fun before after => f (c :: before) after

/-- The outcomes of the end of a marker. -/
theorem outcomes_markerEnd {groups : Captures} {name : List Char}
    (h : groups.lookup "name" = some name) (s : List Char) :
    markerEnd.outcomes groups s =
      (litCuts (Token.tag (endTag name)).text s).map fun p =>
        (p.1, p.2, Assoc.set groups "5" p.1) := by
  rw [text_endTag, ← litCuts_flatMap]
  simp only [markerEnd, Pattern.outcomes, h, ← litCuts_flatMap, List.map_flatMap, List.flatMap_map,
    List.map_map, Function.comp_def]

/-- The groups after the beginning of a marker. -/
def beginGroups (name nl : List Char) : Captures :=
  [("name", name), ("nl", nl), ("1", (Token.tag (beginTag name)).text ++ nl)]

/-- The outcomes of the beginning of a marker at a tag that begins a block. -/
theorem outcomes_markerBegin {name : List Char} (hname : IsName name) (t : List Char) :
    markerBegin.outcomes [] ((Token.tag (beginTag name)).text ++ t) =
      (optCuts '\n' t).map fun p =>
        ((Token.tag (beginTag name)).text ++ p.1, p.2, beginGroups name p.1) := by
  have hclose : closeText = ' ' :: closeText.tail := by decide
  have hspace : ∀ c ∈ (closeText ++ t).head?, nameChar c = false := by
    rw [hclose]
    simp [nameChar]
  obtain ⟨others, hcuts, hothers⟩ := greedyCuts_append hname.1 hname.2 hspace
  have hnone : ∀ p ∈ others, litCuts closeText p.2 = [] := by
    intro p hp
    obtain ⟨c, hc, hcls⟩ := hothers p hp
    rw [hclose]
    apply litCuts_eq_nil
    rintro hspace
    obtain rfl : ' ' = c := by simpa [hspace] using hc
    exact absurd hcls (by decide)
  have htail : ∀ f : List Char × List Char → List Char × List Char →
      List (List Char × List Char × Captures),
      (others.flatMap fun p => (litCuts closeText p.2).flatMap (f p)) = [] := by
    intro f
    rw [List.flatMap_eq_nil_iff]
    intro p hp
    rw [hnone p hp]
    rfl
  rw [text_beginTag]
  simp only [markerBegin, Pattern.outcomes, List.append_assoc, litCuts_append, hcuts, List.map_cons,
    List.map_nil, List.flatMap_cons, List.flatMap_nil, List.append_nil, List.map_map,
    List.flatMap_map, List.map_flatMap, Function.comp_def]
  rw [htail, List.append_nil, List.map_map]
  simp [beginGroups, text_beginTag, Assoc.set]

/-- The beginning of a marker is at nothing but a tag that begins a block. -/
theorem mem_outcomes_markerBegin {s : List Char} {o : List Char × List Char × Captures}
    (h : o ∈ markerBegin.outcomes [] s) :
    ∃ name nl, IsName name ∧ s = (Token.tag (beginTag name)).text ++ (nl ++ o.2.1) ∧
      o.2.2.lookup "name" = some name := by
  simp only [markerBegin, Pattern.outcomes, List.mem_map, List.mem_flatMap] at h
  obtain ⟨_, ⟨_, ⟨begin_, hbegin, rfl⟩, _, ⟨_, ⟨_, ⟨name, hname, rfl⟩, rfl⟩, _,
    ⟨_, ⟨close, hclose, rfl⟩, _, ⟨_, ⟨nl, hnl, rfl⟩, rfl⟩, rfl⟩, rfl⟩, rfl⟩, rfl⟩ := h
  obtain ⟨hname, hne, hcls⟩ := mem_greedyCuts hname
  obtain ⟨-, hs⟩ := mem_litCuts hbegin
  obtain ⟨-, hrest⟩ := mem_litCuts hclose
  have hnl : close.2 = nl.1 ++ nl.2 := by
    obtain hnl | hnl := List.mem_append.mp hnl
    · obtain ⟨h₁, h₂⟩ := mem_litCuts hnl
      rwa [← h₁] at h₂
    · obtain rfl := List.mem_singleton.mp hnl
      rfl
  refine ⟨name.1, nl.1, ⟨hne, hcls⟩, ?_, by simp [Assoc.set]⟩
  simp only at hname hrest
  rw [hs, hname, hrest, hnl, text_beginTag]
  simp

/-- The outcome of the rest of a marker: the body, the tag that ends the block, and what is after
it. -/
def restOutcome (name nl body after : List Char) : List Char × List Char × Captures :=
  (body ++ (Token.tag (endTag name)).text, after,
    beginGroups name nl ++ [("body", body), ("5", (Token.tag (endTag name)).text)])

/-- After the beginning of a marker, the first outcome of the rest is at the first tag that ends the
block. -/
theorem head?_outcomes_rest (name nl s : List Char) :
    ((Pattern.seq (.group "body" .lazyAny) markerEnd).outcomes (beginGroups name nl) s).head? =
      (find (Token.tag (endTag name)).text s).map fun p => restOutcome name nl p.1 p.2 := by
  rw [← head?_lazyCuts (m := (Token.tag (endTag name)).text) (by simp [Token.text])]
  congr 1
  simp only [Pattern.outcomes, List.map_map, List.flatMap_map]
  refine List.flatMap_congr fun p _ => ?_
  have hlookup : (Assoc.set (beginGroups name nl) "body" p.1).lookup "name" = some name := by
    simp [beginGroups, Assoc.set]
  simp only [Function.comp_def]
  rw [outcomes_markerEnd hlookup, List.map_map]
  refine List.map_congr_left fun q hq => ?_
  simp [(mem_litCuts hq).1, restOutcome, beginGroups, Assoc.set]

/-- A tag that begins a block, and the first one after it that ends it, are a match. -/
theorem match?_marker {name t body after : List Char} (hname : IsName name)
    (hfind : find (Token.tag (endTag name)).text t = some (body, after)) :
    marker.match? ((Token.tag (beginTag name)).text ++ t) = some (matchOf name body, after) := by
  rw [Pattern.match?, marker, Pattern.outcomes, outcomes_markerBegin hname, List.flatMap_map,
    List.head?_flatMap]
  simp only [List.head?_map, head?_outcomes_rest]
  by_cases hnl : t.head? = some '\n'
  · obtain ⟨t, rfl⟩ : ∃ t', t = '\n' :: t' := by
      cases t with
      | nil => simp at hnl
      | cons c t => exact ⟨t, by simpa using hnl⟩
    -- The newline is in its group, and the rest of the body is found after it.
    have hcuts : optCuts '\n' ('\n' :: t) = [(['\n'], t), ([], '\n' :: t)] := by
      simp [optCuts, litCuts]
    have hskip : find (Token.tag (endTag name)).text (['\n'] ++ t) = _ :=
      find_append_of_notMem (by simp) t
    rw [List.singleton_append, hfind] at hskip
    obtain ⟨⟨body', after'⟩, hfind', hbody⟩ := Option.map_eq_some_iff.mp hskip.symm
    obtain ⟨rfl, rfl⟩ : '\n' :: body' = body ∧ after' = after := by simpa using hbody
    rw [hcuts]
    simp [hfind', restOutcome, beginGroups, matchOf, newlineOf]
  · have hcuts : optCuts '\n' t = [([], t)] := by simp [optCuts, litCuts_eq_nil hnl]
    have hbody : body.head? ≠ some '\n' := by
      rintro hbody
      simp [find_eq_some hfind, hbody] at hnl
    rw [hcuts]
    simp [hfind, restOutcome, beginGroups, matchOf, newlineOf, hbody]

/-- Nothing else is a match. -/
theorem match?_marker_eq_none {s : List Char}
    (h : ∀ name t, IsName name → s = (Token.tag (beginTag name)).text ++ t →
      find (Token.tag (endTag name)).text t = none) : marker.match? s = none := by
  rw [Pattern.match?, Option.map_eq_none_iff, List.head?_eq_none_iff,
    List.eq_nil_iff_forall_not_mem]
  intro o ho
  simp only [marker, Pattern.outcomes, List.mem_flatMap, List.mem_map] at ho
  obtain ⟨begin_, hbegin, _, ⟨_, ⟨_, ⟨body, hbody, rfl⟩, rfl⟩, close, hclose, rfl⟩, rfl⟩ := ho
  obtain ⟨name, nl, hname, hs, hlookup⟩ := mem_outcomes_markerBegin hbegin
  rw [← Assoc.lookup_set_of_ne (show "name" ≠ "body" by decide) _ body.1] at hlookup
  rw [outcomes_markerEnd hlookup] at hclose
  obtain ⟨q, hq, rfl⟩ := List.mem_map.mp hclose
  have hrest : begin_.2.1 = body.1 ++ ((Token.tag (endTag name)).text ++ q.2) := by
    rw [mem_lazyCuts hbody, ← (mem_litCuts hq).2]
  have hnone := h name _ hname hs
  rw [hrest, ← List.append_assoc] at hnone
  exact find_ne_none hname.inTag_endTag (nl ++ body.1) q.2 hnone

end CacheServer.Bench.Readme
