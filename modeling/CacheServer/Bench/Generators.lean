import CacheServer.Bench.Brackets
import Mathlib.Data.List.Induction

/-!
# The generators of the README are independent

Each generator is the rewriter of the regions of its own brackets (`generate_eq_ok_iff`): the
regular expression of `apply_blocks` finds the regions that the brackets of blocks enclose, and to
split the text at the markers of headlines is to find the one region that they enclose. For texts
where the regions of different generators do not overlap, the generators are idempotent and commute,
and after all three of them, in any order, none has anything left to do
(`generators_independent`).
-/

namespace CacheServer.Bench.Readme

open Regions Regex Tags

/-! ## Blocks -/

/-- A part of the tokens as parts of the text. -/
def expand : Piece Token → List (Char ⊕ Match)
  | .plain t => t.text.map .inl
  | .region t body => [.inr (matchOf (nameOf t) (text body))]

/-- There is no match where the text does not start with `<`. -/
theorem finditer_append_of_notMem {u : List Char} (hu : '<' ∉ u) (s : List Char) :
    marker.finditer (u ++ s) = u.map .inl ++ marker.finditer s := by
  induction u with
  | nil => rfl
  | cons c u ih =>
    rw [List.mem_cons, not_or] at hu
    -- A match begins with the opening of a tag, and this is another character.
    have hnone : marker.match? (c :: (u ++ s)) = none := by
      refine match?_marker_eq_none fun name t hname heq => ?_
      rw [Token.text, List.cons_append, List.cons.injEq] at heq
      exact absurd heq.1.symm hu.1
    rw [List.cons_append, Pattern.finditer, Pattern.scan, hnone]
    exact congrArg (Sum.inl c :: ·) (ih hu.2)

/-- A tag that is not the beginning of a match is left alone. -/
theorem finditer_tag {tag rest : List Char} (htag : ∀ c ∈ tag, inTag c = true)
    (h : ∀ name, IsName name → tag = beginTag name →
      find (Token.tag (endTag name)).text rest = none) :
    marker.finditer ((Token.tag tag).text ++ rest) =
      (Token.tag tag).text.map .inl ++ marker.finditer rest := by
  have hnone : marker.match? ((Token.tag tag).text ++ rest) = none := by
    refine match?_marker_eq_none fun name t hname heq => ?_
    -- The match would begin with the same tag, and so end at a tag that is not there.
    have hleading := leadingTag_of_inTag htag rest
    rw [heq, leadingTag_of_inTag hname.inTag_beginTag, Option.some.injEq, Prod.mk.injEq] at hleading
    obtain ⟨rfl, rfl⟩ := hleading
    exact h name hname rfl
  have htail := finditer_append_of_notMem (lt_notMem htag) rest
  simp only [Token.text, List.cons_append] at hnone htail ⊢
  rw [Pattern.finditer, Pattern.scan, hnone]
  exact congrArg (Sum.inl '<' :: ·) htail

/-- A tag that begins a block, up to the first one that ends it, is a match. -/
theorem finditer_block {name rest : List Char} (hname : IsName name) {body after : List Token}
    (hcut : cut (.tag (endTag name)) (lex rest) = some (body, after)) :
    marker.finditer ((Token.tag (beginTag name)).text ++ rest) =
      .inr (matchOf name (text body)) :: marker.finditer (text after) := by
  have hfind : find (Token.tag (endTag name)).text rest = some (text body, text after) := by
    rw [find_tag hname.inTag_endTag, hcut]
    rfl
  have hmatch := match?_marker hname hfind
  have hlength : (matchOf name (text body)).text.length - 1 + 1 =
      (matchOf name (text body)).text.length := by
    simp [matchOf, Token.text]
  have hafter : ((Token.tag (beginTag name)).text ++ rest).drop
      (matchOf name (text body)).text.length = text after := by
    have hrest : (Token.tag (beginTag name)).text ++ rest =
        (matchOf name (text body)).text ++ text after := by
      simp [matchOf, find_eq_some hfind]
    rw [hrest, List.drop_left]
  rw [← hlength] at hafter
  simp only [Token.text, List.cons_append, List.drop_succ_cons] at hmatch hafter ⊢
  rw [Pattern.finditer, Pattern.scan, hmatch]
  simp only
  rw [Pattern.scan_eq_drop, hafter, Pattern.finditer]

/-- The regular expression finds the regions of blocks. -/
theorem finditer_marker (s : List Char) :
    marker.finditer s = (brackets.scan (· = .blocks) (lex s)).flatMap expand := by
  induction hlen : s.length using Nat.strongRecOn generalizing s with
  | ind n ih =>
    obtain _ | ⟨c, s⟩ := s
    · simp [Pattern.finditer, Pattern.scan]
    -- A character by itself, or a tag. The regex and the tokens go on behind it.
    cases hleading : leadingTag (c :: s) with
    | none =>
      have hnone : marker.match? (c :: s) = none := by
        refine match?_marker_eq_none fun name t hname heq => ?_
        rw [heq, leadingTag_of_inTag hname.inTag_beginTag] at hleading
        cases hleading
      rw [lex_char hleading, Brackets.scan_plain (by simp [(inert_char c).1]), List.flatMap_cons,
        ← ih s.length (by simp [← hlen]) s rfl, Pattern.finditer, Pattern.scan, hnone]
      rfl
    | some p =>
      obtain ⟨tag, rest⟩ := p
      obtain ⟨hs, htag⟩ := leadingTag_eq_some hleading
      have hlength : rest.length < n := by
        rw [← hlen, hs, List.length_append]
        have := (Token.tag tag).length_text_pos
        omega
      rw [hs, lex_tag htag]
      -- A tag begins a region if it is a begin tag with a name, and its end tag is further on.
      by_cases hblock : ∃ name body after, IsName name ∧ tag = beginTag name ∧
          cut (.tag (endTag name)) (lex rest) = some (body, after)
      · obtain ⟨name, body, after, hname, rfl, hcut⟩ := hblock
        obtain ⟨hlex, hbody⟩ := cut_eq_some_iff.mp hcut
        have hafter := (lex_of_cut hname.inTag_endTag hcut).2
        have hshort : (text after).length < n := by
          have hrest := congrArg (fun ts => (text ts).length) hlex
          simp only [text_lex, text_append, text_cons, List.length_append] at hrest
          omega
        rw [← brackets_close_block hname] at hlex hbody
        rw [finditer_block hname hcut, hlex,
          Brackets.scan_region (kind_block hname) (by simp) hbody, List.flatMap_cons,
          ih _ hshort _ rfl, hafter, expand, nameOf_beginTag hname]
        rfl
      · have hfind : ∀ name, IsName name → tag = beginTag name →
            cut (.tag (endTag name)) (lex rest) = none := by
          intro name hname htag'
          rw [Option.eq_none_iff_forall_ne_some]
          rintro ⟨body, after⟩ hcut
          exact hblock ⟨name, body, after, hname, htag', hcut⟩
        rw [finditer_tag htag, Brackets.scan_plain, List.flatMap_cons, ← ih _ hlength rest rfl]
        · rfl
        · intro g hg hsel
          obtain rfl : g = .blocks := by simpa using hsel
          obtain ⟨name, hname, ht⟩ := kind_eq_blocks hg
          rw [ht, brackets_close_block hname]
          exact cut_eq_none_iff.mp (hfind name hname (Token.tag.inj ht))
        · intro name hname htag'
          rw [find_tag hname.inTag_endTag, hfind name hname htag']
          rfl

/-- The width of a token is that of its text. -/
theorem length_text (ts : List Token) :
    (text ts).length = (ts.map fun t => t.text.length).sum := List.length_flatMap

/-- The newline at the head of a text is its first token. -/
theorem newlineOf_text (body : List Token) :
    newlineOf (text body) = if body.head? = some (.char '\n') then ['\n'] else [] := by
  -- No other token's text begins with a newline: a tag begins with its bracket.
  have hhead : (text body).head? = some '\n' ↔ body.head? = some (.char '\n') := by
    cases body with
    | nil => simp
    | cons t body => cases t <;> simp [Token.text]
  rw [newlineOf, if_congr hhead rfl rfl]

/-- The groups of a match of the block regex: the name, the line end, and the two markers. -/
theorem group_matchOf (name body : List Char) :
    group (matchOf name body) "name" = name ∧ group (matchOf name body) "nl" = newlineOf body ∧
      group (matchOf name body) "1" = (Token.tag (beginTag name)).text ++ newlineOf body ∧
      group (matchOf name body) "5" = (Token.tag (endTag name)).text := by
  simp [group, matchOf, List.lookup_cons]

/-- The names of the blocks that the regex has seen are those of the regions. -/
theorem seen_expand (pieces : List (Piece Token)) :
    seen (pieces.flatMap expand) = (pieces.filterMap Piece.opening).map nameOf := by
  induction pieces with
  | nil => rfl
  | cons piece pieces ih =>
    rw [seen] at ih ⊢
    cases piece with
    | plain t => simp [expand, ih, List.filterMap_map, List.filterMap_cons]
    | region t body => simp [expand, ih, group_matchOf]

/-- Characters outside a match only move the offset. -/
theorem matchSpans_map_inl (off : ℕ) (u : List Char) (parts : List (Char ⊕ Match)) :
    matchSpans off (u.map .inl ++ parts) = matchSpans (off + u.length) parts := by
  induction u generalizing off with
  | nil => rfl
  | cons c u ih =>
    rw [List.map_cons, List.cons_append, matchSpans, ih, List.length_cons]
    congr 1
    omega

section

variable {r : Rendered} {pieces : List (Piece Token)}
  (h : ∀ t body, .region t body ∈ pieces → kind t = some .blocks)

include h

/-- What `sub` puts in the place of a region. -/
theorem flatMap_sub :
    (pieces.flatMap expand).flatMap (sub r.blocks) =
      text (pieces.flatMap (brackets.render r.fill)) := by
  induction pieces with
  | nil => rfl
  | cons piece pieces ih =>
    have ih := ih fun t body hmem => h t body (List.mem_cons_of_mem _ hmem)
    rw [List.flatMap_cons, List.flatMap_append, List.flatMap_cons, text_append, ih]
    congr 1
    cases piece with
    | plain t => simp [expand, Brackets.render, List.flatMap_map, sub]
    | region t body =>
      have hkind := h t body List.mem_cons_self
      obtain ⟨name, hname, rfl⟩ := kind_eq_blocks hkind
      have hcontent : r.content (.tag (beginTag name)) = (r.blocks.lookup name).getD [] := by
        rw [Rendered.content, hkind, nameOf_beginTag hname]
      obtain ⟨hgname, hgnl, hg1, hg5⟩ := group_matchOf name (text body)
      -- `sub` keeps a newline behind the marker, which makes the content stand on lines of its own.
      have hlines : ownLines (.tag (beginTag name)) body = true ↔
          body.head? = some (.char '\n') := by
        simp [ownLines, hkind]
      simp only [expand, Brackets.render, nameOf_beginTag hname, List.flatMap_cons,
        List.flatMap_nil, List.append_nil, sub, hgname, hgnl, hg1, hg5, newlineOf_text,
        brackets_close_block hname]
      rw [Rendered.fill, if_congr hlines rfl rfl, hcontent]
      split_ifs <;> simp_all [Token.text]

/-- The matches lie where the regions do. -/
theorem matchSpans_expand (off : ℕ) :
    matchSpans off (pieces.flatMap expand) =
      brackets.spans (fun t => t.text.length) off pieces := by
  induction pieces generalizing off with
  | nil => rfl
  | cons piece pieces ih =>
    have ih := ih fun t body hmem => h t body (List.mem_cons_of_mem _ hmem)
    rw [List.flatMap_cons]
    cases piece with
    | plain t => rw [expand, matchSpans_map_inl, ih, Brackets.spans]
    | region t body =>
      obtain ⟨name, hname, rfl⟩ := kind_eq_blocks (h t body List.mem_cons_self)
      have hlength : (matchOf name (text body)).text.length =
          (Token.tag (beginTag name)).text.length + (body.map fun t => t.text.length).sum +
            (Token.tag (endTag name)).text.length := by
        rw [matchOf, List.length_append, List.length_append, length_text, Nat.add_assoc]
      rw [expand, nameOf_beginTag hname, List.singleton_append, matchSpans, Brackets.spans, ih,
        brackets_close_block hname, hlength]
      simp only [Nat.add_assoc]

end

/-- A region of the blocks is opened by a begin tag. -/
theorem kind_of_mem_blocks {t : Token} {body ts : List Token}
    (h : .region t body ∈ brackets.scan (· = .blocks) ts) : kind t = some .blocks := by
  obtain ⟨g, hkind, hsel⟩ := Brackets.kind_of_mem_scan h
  obtain rfl : g = .blocks := by simpa using hsel
  exact hkind

/-- What the block generator may write is the regions of its blocks. -/
theorem regions_blocks (readme : List Char) :
    Generator.blocks.regions readme =
      brackets.spans (fun t => t.text.length) 0 (brackets.scan (· = .blocks) (lex readme)) := by
  rw [Generator.regions, finditer_marker, matchSpans_expand fun _ _ => kind_of_mem_blocks]

/-- `apply_blocks` rewrites the blocks where there are some, and all of them are rendered. -/
theorem applyBlocks_eq_ok_iff (r : Rendered) (readme out : List Char) :
    applyBlocks readme r.blocks r.path = .ok out ↔
      (brackets.opened (· = .blocks) (lex readme) ≠ [] ∧
        ∀ t ∈ brackets.opened (· = .blocks) (lex readme),
          (r.blocks.lookup (nameOf t)).isSome = true) ∧
      out = text (brackets.rewrite r.fill (· = .blocks) (lex readme)) := by
  have hseen : seen (marker.finditer readme) =
      (brackets.opened (· = .blocks) (lex readme)).map nameOf := by
    rw [finditer_marker, seen_expand, Brackets.opened]
  have hsub : (marker.finditer readme).flatMap (sub r.blocks) =
      text (brackets.rewrite r.fill (· = .blocks) (lex readme)) := by
    rw [finditer_marker, flatMap_sub fun _ _ => kind_of_mem_blocks, Brackets.rewrite]
  rw [applyBlocks]
  simp only [hseen, hsub]
  generalize brackets.opened (· = .blocks) (lex readme) = opened
  cases hfind : (opened.map nameOf).find? fun name => (r.blocks.lookup name).isNone with
  | some name =>
    -- A block without a rendering is the error for an unknown name.
    have hnone := List.find?_some hfind
    obtain ⟨t, ht, rfl⟩ := List.mem_map.mp (List.mem_of_find?_eq_some hfind)
    refine iff_of_false (by simp) ?_
    rintro ⟨⟨-, hall⟩, -⟩
    rw [Option.isNone_iff_eq_none] at hnone
    have hsome := hall t ht
    rw [hnone] at hsome
    cases hsome
  | none =>
    have hall : ∀ t ∈ opened, (r.blocks.lookup (nameOf t)).isSome = true := by
      intro t ht
      have hne := List.find?_eq_none.mp hfind (nameOf t) (List.mem_map_of_mem ht)
      simpa [Option.isSome_iff_ne_none] using hne
    -- All names are known. The other error is that there was no block at all.
    cases opened with
    | nil => simp
    | cons t opened =>
      simp only [List.map_cons, List.isEmpty_cons, Bool.false_eq_true, if_false, Except.ok.injEq,
        ne_eq, reduceCtorEq, not_false_eq_true, true_and]
      exact ⟨fun hout => ⟨hall, hout.symm⟩, fun hout => hout.2.symm⟩

/-! ## Headlines -/

/-- A token that is counted once stands between parts that do not have it. -/
theorem exists_of_count_eq_one {ts : List Token} {t : Token} (h : ts.count t = 1) :
    ∃ pre post, ts = pre ++ t :: post ∧ t ∉ pre ∧ t ∉ post := by
  have hmem : t ∈ ts := List.count_pos_iff.mp (by omega)
  obtain ⟨pre, post, rfl, hpre⟩ := List.eq_append_cons_of_mem hmem
  rw [List.count_append, List.count_cons_self] at h
  exact ⟨pre, post, rfl, hpre, List.count_eq_zero.mp (by omega)⟩

/-- The markers of headlines are the brackets of a generator, and its only ones. -/
structure Headlines.Bracketed (h : Headlines) (g : Generator) : Prop where
  /-- They are not those of the blocks. -/
  ne_blocks : g ≠ .blocks
  /-- The first marker opens a section of the generator. -/
  kind : brackets.kind (tagOf h.readmeBegin) = some g
  /-- The second marker closes it. -/
  close : brackets.close (tagOf h.readmeBegin) = tagOf h.readmeEnd
  /-- Nothing else opens one. -/
  sole : ∀ t, brackets.kind t = some g → t = tagOf h.readmeBegin
  /-- The first marker is read as one token. -/
  text_begin : (tagOf h.readmeBegin).text = h.readmeBegin
  /-- So is the second. -/
  text_end : (tagOf h.readmeEnd).text = h.readmeEnd
  /-- The first one has the characters of a tag. -/
  inTag_begin : ∀ c ∈ h.readmeBegin.tail.dropLast, inTag c = true
  /-- So has the second. -/
  inTag_end : ∀ c ∈ h.readmeEnd.tail.dropLast, inTag c = true

/-- The markers of the release headlines are its brackets. -/
theorem bracketed_release : releaseHeadlines.Bracketed .release where
  ne_blocks := by decide
  kind := kind_release
  close := close_release
  sole t h := by
    obtain ⟨-, ht⟩ | ⟨hne, -⟩ | ⟨hne, -⟩ := kind_eq_some h
    · exact ht
    · cases hne
    · cases hne
  text_begin := (tag_headlineMarkers _ (by simp [headlineMarkers])).1
  text_end := (tag_headlineMarkers _ (by simp [headlineMarkers])).1
  inTag_begin := (tag_headlineMarkers _ (by simp [headlineMarkers])).2
  inTag_end := (tag_headlineMarkers _ (by simp [headlineMarkers])).2

/-- The markers of the landscape headlines are its brackets. -/
theorem bracketed_landscape : landscapeHeadlines.Bracketed .landscape where
  ne_blocks := by decide
  kind := kind_landscape
  close := close_landscape
  sole t h := by
    obtain ⟨hne, -⟩ | ⟨-, ht⟩ | ⟨hne, -⟩ := kind_eq_some h
    · cases hne
    · exact ht
    · cases hne
  text_begin := (tag_headlineMarkers _ (by simp [headlineMarkers])).1
  text_end := (tag_headlineMarkers _ (by simp [headlineMarkers])).1
  inTag_begin := (tag_headlineMarkers _ (by simp [headlineMarkers])).2
  inTag_end := (tag_headlineMarkers _ (by simp [headlineMarkers])).2

section

variable {h : Headlines} {g : Generator} (hb : h.Bracketed g) {readme : List Char}

include hb

/-- The two markers differ. -/
theorem Headlines.Bracketed.begin_ne_end : tagOf h.readmeBegin ≠ tagOf h.readmeEnd := by
  intro heq
  -- A token that closes a region opens none.
  have hkind := brackets.kind_close hb.kind
  rw [hb.close, ← heq, hb.kind] at hkind
  cases hkind

/-- The parts of a text with the markers once, in this order. -/
theorem Headlines.Bracketed.split_of_once {pre mid post : List Token}
    (hlex : lex readme = pre ++ tagOf h.readmeBegin :: (mid ++ tagOf h.readmeEnd :: post))
    (hpre : brackets.Absent (tagOf h.readmeBegin) pre)
    (hmid : brackets.Absent (tagOf h.readmeBegin) mid)
    (hpost : brackets.Absent (tagOf h.readmeBegin) post) :
    count h.readmeBegin readme = 1 ∧ count h.readmeEnd readme = 1 ∧
      ∃ rest, split h.readmeBegin readme = [text pre, rest] ∧
        (find h.readmeEnd rest).isSome = true ∧
        split h.readmeEnd rest = [text mid, text post] := by
  unfold Brackets.Absent at hpre hmid hpost
  rw [hb.close] at hpre hmid hpost
  have hne := hb.begin_ne_end
  have hcut : cut (tagOf h.readmeBegin) (lex readme) =
      some (pre, mid ++ tagOf h.readmeEnd :: post) := cut_eq_some_iff.mpr ⟨hlex, hpre.1⟩
  have hrest := (lex_of_cut hb.inTag_begin hcut).2
  have hnotMem : tagOf h.readmeBegin ∉ mid ++ tagOf h.readmeEnd :: post := by
    simp [hmid.1, hpost.1, hne]
  have hcut' : cut (tagOf h.readmeEnd) (lex (text (mid ++ tagOf h.readmeEnd :: post))) =
      some (mid, post) := by
    rw [hrest]
    exact cut_eq_some_iff.mpr ⟨rfl, hmid.2⟩
  rw [← hb.text_begin, ← hb.text_end]
  refine ⟨?_, ?_, text (mid ++ tagOf h.readmeEnd :: post), ?_, ?_, ?_⟩
  · rw [tagOf, count_tag hb.inTag_begin, ← tagOf, hlex]
    simp [List.count_eq_zero.mpr hpre.1, List.count_eq_zero.mpr hmid.1,
      List.count_eq_zero.mpr hpost.1, hne.symm]
  · rw [tagOf, count_tag hb.inTag_end, ← tagOf, hlex]
    simp [List.count_eq_zero.mpr hpre.2, List.count_eq_zero.mpr hmid.2,
      List.count_eq_zero.mpr hpost.2, hne]
  · exact split_of_cut hb.inTag_begin hcut hnotMem
  · rw [tagOf, find_tag hb.inTag_end, ← tagOf, hcut']
    rfl
  · exact split_of_cut hb.inTag_end hcut' hpost.2

/-- Where the function succeeds, the markers are there once, in this order. -/
theorem Headlines.Bracketed.once_of_ok {rendered out : List Char}
    (hok : h.replaceReadmeHeadlines readme rendered = .ok out) :
    brackets.Once (tagOf h.readmeBegin) (lex readme) := by
  unfold Headlines.replaceReadmeHeadlines at hok
  split_ifs at hok with hcount
  obtain ⟨hbegin, hend⟩ : count h.readmeBegin readme = 1 ∧ count h.readmeEnd readme = 1 := by
    simpa [not_or] using hcount
  -- The source counts in the text, which is to count tokens.
  rw [← hb.text_begin, tagOf, count_tag hb.inTag_begin, ← tagOf] at hbegin
  rw [← hb.text_end, tagOf, count_tag hb.inTag_end, ← tagOf] at hend
  obtain ⟨pre, rest, hlex, hpre, hrest⟩ := exists_of_count_eq_one hbegin
  have hcut := cut_eq_some_iff.mpr ⟨hlex, hpre⟩
  rw [← hb.text_begin, tagOf, split_of_cut hb.inTag_begin hcut hrest] at hok
  simp only [Option.isNone_iff_eq_none] at hok
  split_ifs at hok with hfind
  rw [← hb.text_end, tagOf, find_tag hb.inTag_end, ← tagOf, (lex_of_cut hb.inTag_begin hcut).2,
    Option.map_eq_none_iff, cut_eq_none_iff, not_not] at hfind
  -- The second check of the source is that the end marker is found behind the begin marker.
  obtain ⟨mid, post, rfl, hmid⟩ := List.eq_append_cons_of_mem hfind
  -- The end marker is in the rest, and so nowhere else.
  rw [hlex, List.count_append, List.count_cons_of_ne hb.begin_ne_end, List.count_append,
    List.count_cons_self] at hend
  have hpre' : tagOf h.readmeEnd ∉ pre := List.count_eq_zero.mp (by omega)
  have hpost' : tagOf h.readmeEnd ∉ post := List.count_eq_zero.mp (by omega)
  simp only [List.mem_append, List.mem_cons, not_or] at hrest
  refine ⟨pre, mid, post, by rw [hb.close, hlex], ?_, ?_, ?_⟩
  · exact ⟨hpre, by rwa [hb.close]⟩
  · exact ⟨hrest.1, by rwa [hb.close]⟩
  · exact ⟨hrest.2.2, by rwa [hb.close]⟩

/-- The region between the markers is the only one. -/
theorem Headlines.Bracketed.scan_of_once {pre mid post : List Token}
    (hpre : brackets.Absent (tagOf h.readmeBegin) pre)
    (hmid : brackets.Absent (tagOf h.readmeBegin) mid)
    (hpost : brackets.Absent (tagOf h.readmeBegin) post) :
    brackets.scan (· = g) (pre ++ tagOf h.readmeBegin ::
        (mid ++ brackets.close (tagOf h.readmeBegin) :: post)) =
      pre.map .plain ++ (.region (tagOf h.readmeBegin) mid :: post.map .plain) := by
  -- Without the begin marker, no region of this generator starts, since nothing else opens one.
  have hplain : ∀ {ts : List Token}, brackets.Absent (tagOf h.readmeBegin) ts → ∀ rest,
      brackets.scan (· = g) (ts ++ rest) = ts.map .plain ++ brackets.scan (· = g) rest := by
    intro ts hts rest
    refine Brackets.scan_append fun u t v hu g' hkind hsel => ?_
    obtain rfl : g' = g := by simpa using hsel
    exact absurd (by simp [hu, hb.sole t hkind]) hts.1
  have hpost' := hplain hpost []
  rw [List.append_nil, Brackets.scan_nil, List.append_nil] at hpost'
  rw [hplain hpre, Brackets.scan_region hb.kind (by simp) hmid.2, hpost']

/-- Where the markers stand once each, what the generator may write is the region between them. -/
theorem Headlines.Bracketed.spans_of_once
    (honce : brackets.Once (tagOf h.readmeBegin) (lex readme)) :
    h.spans readme =
      brackets.spans (fun t => t.text.length) 0 (brackets.scan (· = g) (lex readme)) := by
  obtain ⟨pre, mid, post, hlex, hpre, hmid, hpost⟩ := honce
  have hscan := hb.scan_of_once hpre hmid hpost
  rw [← hlex] at hscan
  rw [hb.close] at hlex
  obtain ⟨-, -, rest, hbegin, -, hend⟩ := hb.split_of_once hlex hpre hmid hpost
  have hnone := Brackets.spans_map_plain (B := brackets) (w := fun t => t.text.length)
    ((text pre).length + h.readmeBegin.length + (text mid).length + h.readmeEnd.length) post []
  rw [List.append_nil, Brackets.spans] at hnone
  rw [Headlines.spans, hbegin]
  simp only [hend]
  rw [hscan, Brackets.spans_map_plain, Brackets.spans, hb.close, hb.text_begin, hb.text_end,
    ← length_text, ← length_text, Nat.zero_add, hnone]

/-- The function rewrites the region between the markers, where they are there once, in this
order. -/
theorem Headlines.Bracketed.replaceReadmeHeadlines_eq_ok_iff (r : Rendered)
    (readme out : List Char) :
    h.replaceReadmeHeadlines readme (r.content (tagOf h.readmeBegin)) = .ok out ↔
      brackets.Once (tagOf h.readmeBegin) (lex readme) ∧
      out = text (brackets.rewrite r.fill (· = g) (lex readme)) := by
  have hok : brackets.Once (tagOf h.readmeBegin) (lex readme) →
      h.replaceReadmeHeadlines readme (r.content (tagOf h.readmeBegin)) =
        .ok (text (brackets.rewrite r.fill (· = g) (lex readme))) := by
    rintro ⟨pre, mid, post, hlex, hpre, hmid, hpost⟩
    have hscan := hb.scan_of_once hpre hmid hpost
    rw [← hlex] at hscan
    rw [hb.close] at hlex
    obtain ⟨hcount, hcount', rest, hbegin, hfind, hend⟩ := hb.split_of_once hlex hpre hmid hpost
    have hlines : ownLines (tagOf h.readmeBegin) mid = true := by
      have hkind : Readme.kind (tagOf h.readmeBegin) = some g := hb.kind
      simp [ownLines, hkind, hb.ne_blocks]
    rw [Headlines.replaceReadmeHeadlines, if_neg (by simp [hcount, hcount']), hbegin]
    simp only [Option.isSome_iff_ne_none] at hfind
    simp only [Option.isNone_iff_eq_none, hfind, if_false, hend]
    have hnewline : (Token.char '\n').text = ['\n'] := rfl
    rw [Brackets.rewrite, hscan]
    simp [Brackets.render, Rendered.fill, hlines, hb.close, hb.text_begin, hb.text_end, hnewline,
      List.flatMap_map]
  -- Markers that are not there once each are an error, so success gives them.
  constructor
  · intro h'
    have honce := hb.once_of_ok h'
    rw [hok honce, Except.ok.injEq] at h'
    exact ⟨honce, h'.symm⟩
  · rintro ⟨honce, rfl⟩
    exact hok honce

end

/-! ## Independence -/

/-- The tokens that a generator succeeds on. -/
def Rendered.Ready (r : Rendered) (g : Generator) (ts : List Token) : Prop :=
  match g with
  | .blocks => brackets.opened (· = .blocks) ts ≠ [] ∧
      ∀ t ∈ brackets.opened (· = .blocks) ts, (r.blocks.lookup (nameOf t)).isSome = true
  | .release => brackets.Once (tagOf releaseHeadlines.readmeBegin) ts
  | .landscape => brackets.Once (tagOf landscapeHeadlines.readmeBegin) ts

/-- A generator rewrites the regions of its brackets. -/
theorem Rendered.generate_eq_ok_iff (r : Rendered) (g : Generator) (readme out : List Char) :
    r.generate g readme = .ok out ↔
      r.Ready g (lex readme) ∧ out = text (brackets.rewrite r.fill (· = g) (lex readme)) := by
  cases g with
  | blocks => exact applyBlocks_eq_ok_iff r readme out
  | release =>
    have hcontent : r.content (tagOf releaseHeadlines.readmeBegin) = r.release := by
      rw [Rendered.content, kind_release]
    have hiff := bracketed_release.replaceReadmeHeadlines_eq_ok_iff r readme out
    rwa [hcontent] at hiff
  | landscape =>
    have hcontent : r.content (tagOf landscapeHeadlines.readmeBegin) = r.landscape := by
      rw [Rendered.content, kind_landscape]
    have hiff := bracketed_landscape.replaceReadmeHeadlines_eq_ok_iff r readme out
    rwa [hcontent] at hiff

/-- The regions of a generator that succeeds are those of its brackets. -/
theorem Rendered.Ready.regions_eq {r : Rendered} {g : Generator} {readme : List Char}
    (h : r.Ready g (lex readme)) :
    g.regions readme =
      brackets.spans (fun t => t.text.length) 0 (brackets.scan (· = g) (lex readme)) := by
  cases g with
  | blocks => exact regions_blocks readme
  | release => exact bracketed_release.spans_of_once h
  | landscape => exact bracketed_landscape.spans_of_once h

/-- What a generator that succeeds makes of the text differs from it in the regions only. -/
theorem Rendered.Ready.exists_splice {r : Rendered} {g : Generator} {readme : List Char}
    (h : r.Ready g (lex readme)) :
    ∃ news : List (List Char), news.length = (g.regions readme).length ∧
      text (brackets.rewrite r.fill (· = g) (lex readme)) =
        splice 0 (g.regions readme) news readme := by
  obtain ⟨news, hlength, hnews⟩ := Brackets.splice_spans (B := brackets) Token.length_text_pos
    r.fill 0 (brackets.scan (· = g) (lex readme))
  rw [← h.regions_eq] at hlength hnews
  -- The parts of the tokens are the text, so the splice is one of the README.
  have htext : (lex readme).flatMap Token.text = readme := text_lex readme
  rw [Brackets.flatMap_scan, htext] at hnews
  exact ⟨news, hlength, hnews.symm⟩

/-- Where the regions are at disjoint places, the brackets do not overlap. -/
theorem DisjointRegions.laid {r : Rendered} {readme : List Char} (h : DisjointRegions readme)
    (hready : ∀ g, r.Ready g (lex readme)) : brackets.Laid (lex readme) := by
  refine Brackets.laid_of_spans (fun t => t.length_text_pos) 0 (lex readme) ?_
  intro g g' hne p hp q hq
  rw [← (hready g).regions_eq] at hp
  rw [← (hready g').regions_eq] at hq
  exact h g g' hne p hp q hq

/-- No generator spoils the text for another. -/
theorem Rendered.Ready.rewrite {r : Rendered} (hplain : r.Plain) {g : Generator} {ts : List Token}
    (hlaid : brackets.Laid ts) (h : r.Ready g ts) (sel : Generator → Bool) :
    r.Ready g (brackets.rewrite r.fill sel ts) := by
  -- The blocks that are opened, and the headlines, stay where they are whoever rewrites.
  cases g with
  | blocks =>
    have hopened : brackets.opened (· = .blocks) (brackets.rewrite r.fill sel ts) =
        brackets.opened (· = .blocks) ts := hlaid.opened_rewrite (F := r.filler hplain)
    unfold Rendered.Ready at h ⊢
    rwa [hopened]
  | release =>
    exact hlaid.once_rewrite (F := r.filler hplain) bracketed_release.kind bracketed_release.sole h
  | landscape =>
    exact hlaid.once_rewrite (F := r.filler hplain) bracketed_landscape.kind
      bracketed_landscape.sole h

section

variable {r : Rendered} (hplain : r.Plain) {readme : List Char} (hlaid : brackets.Laid (lex readme))
  (hready : ∀ g, r.Ready g (lex readme))

include hplain hlaid hready

/-- A step: what a generator makes of a text that some generators have written. -/
theorem generate_rewritten (sel : Generator → Bool) (g : Generator) :
    r.generate g (text (brackets.rewrite r.fill sel (lex readme))) =
      .ok (text (brackets.rewrite r.fill (fun k => decide (k = g) || sel k) (lex readme))) := by
  rw [Rendered.generate_eq_ok_iff, hplain.lex_rewrite sel (lexed_lex readme)]
  refine ⟨(hready g).rewrite hplain hlaid sel, ?_⟩
  -- To rewrite one class after some others is to rewrite them all at once.
  have htwice := hlaid.rewrite_rewrite (F := r.filler hplain) (P := (· = g)) (Q := sel)
  exact congrArg text htwice.symm

/-- Two generators in either order. -/
theorem generate_comm (g g' : Generator) :
    ∃ out, (r.generate g readme >>= r.generate g') = .ok out ∧
      (r.generate g' readme >>= r.generate g) = .ok out := by
  have hfirst : ∀ g, r.generate g readme =
      .ok (text (brackets.rewrite r.fill (· = g) (lex readme))) :=
    fun g => (r.generate_eq_ok_iff g readme _).mpr ⟨hready g, rfl⟩
  have hcomm : (fun k => decide (k = g) || decide (k = g')) =
      fun k => decide (k = g') || decide (k = g) := by
    funext k
    exact Bool.or_comm ..
  refine ⟨text (brackets.rewrite r.fill (fun k => decide (k = g') || decide (k = g))
    (lex readme)), ?_, ?_⟩
  · rw [hfirst g]
    exact generate_rewritten hplain hlaid hready (· = g) g'
  · rw [hfirst g', ← hcomm]
    exact generate_rewritten hplain hlaid hready (· = g') g

/-- A run: the text after generators in any number and order. -/
theorem foldlM_generate (gs : List Generator) :
    gs.foldlM (fun s g => r.generate g s) readme =
      .ok (text (brackets.rewrite r.fill (fun k => decide (k ∈ gs)) (lex readme))) := by
  induction gs using List.reverseRecOn with
  | nil =>
    have hnone := Brackets.rewrite_none (F := r.filler hplain)
      (P := fun k => decide (k ∈ ([] : List Generator))) (by simp) (lex readme)
    exact congrArg Except.ok ((congrArg text hnone).trans (text_lex readme)).symm
  -- The last generator runs on the text that those before it have left.
  | append_singleton gs g ih =>
    have hstep := generate_rewritten hplain hlaid hready (fun k => decide (k ∈ gs)) g
    have hsel : (fun k => decide (k = g) || decide (k ∈ gs)) = fun k => decide (k ∈ gs ++ [g]) := by
      funext k
      simp [Bool.or_comm]
    rw [hsel] at hstep
    rw [List.foldlM_append, ih, ← hstep]
    simp only [List.foldlM_cons, List.foldlM_nil, bind_pure]
    rfl

end

/-- The generators leave everything outside their own regions alone. They are idempotent, any two of
them commute, and after all of them, in any order, none has anything left to do. -/
theorem generators_independent {r : Rendered} (hplain : r.Plain) {readme : List Char}
    (hok : ∀ g, ∃ out, r.generate g readme = .ok out) (hdisjoint : DisjointRegions readme) :
    (∀ g out, r.generate g readme = .ok out →
      (∃ news : List (List Char), news.length = (g.regions readme).length ∧
        out = splice 0 (g.regions readme) news readme) ∧
      r.generate g out = .ok out) ∧
    (∀ g g', ∃ out, (r.generate g readme >>= r.generate g') = .ok out ∧
      (r.generate g' readme >>= r.generate g) = .ok out) ∧
    ∃ final, ∀ gs : List Generator, (∀ g, g ∈ gs) →
      gs.foldlM (fun s g => r.generate g s) readme = .ok final ∧
      ∀ g, r.generate g final = .ok final := by
  have hready : ∀ g, r.Ready g (lex readme) := by
    intro g
    obtain ⟨out, hout⟩ := hok g
    exact ((r.generate_eq_ok_iff g readme out).mp hout).1
  have hlaid := hdisjoint.laid hready
  refine ⟨?_, generate_comm hplain hlaid hready, ?_⟩
  · intro g out hout
    obtain ⟨-, rfl⟩ := (r.generate_eq_ok_iff g readme out).mp hout
    refine ⟨(hready g).exists_splice, ?_⟩
    -- Its own class is among those that have been rewritten, so the set stays the same.
    have hrun := generate_rewritten hplain hlaid hready (· = g) g
    simpa using hrun
  · refine ⟨text (brackets.rewrite r.fill (fun _ => true) (lex readme)), ?_⟩
    intro gs hgs
    have hall : (fun k => decide (k ∈ gs)) = fun _ => true := by
      funext k
      simp [hgs k]
    refine ⟨?_, ?_⟩
    · rw [foldlM_generate hplain hlaid hready, hall]
    · intro g
      have hrun := generate_rewritten hplain hlaid hready (fun _ => true) g
      simpa using hrun

/-- A README with a block on one line, and headlines that are empty yet. -/
def smallReadme : List Char :=
  beginText ++ ['x'] ++ closeText ++ ['1'] ++ endText ++ ['x'] ++ closeText ++
    releaseHeadlines.readmeBegin ++ releaseHeadlines.readmeEnd ++
    landscapeHeadlines.readmeBegin ++ landscapeHeadlines.readmeEnd

/-- Reports with one block, and with a text for each of the headlines. -/
def smallRendered : Rendered where
  blocks := [(['x'], ['2'])]
  path := "README.md"
  release := ['3']
  landscape := ['4']

/-- The generators agree on it in every order. -/
theorem generators_independent_small :
    ∃ final, ∀ gs : List Generator, (∀ g, g ∈ gs) →
      gs.foldlM (fun s g => smallRendered.generate g s) smallReadme = .ok final ∧
      ∀ g, smallRendered.generate g final = .ok final := by
  have hplain : smallRendered.Plain := by
    have hcontents : ∀ s ∈ [['2'], ['3'], ['4']], Plain s := by
      unfold Plain
      decide
    exact ⟨by simpa [smallRendered] using hcontents ['2'] (by simp), hcontents ['3'] (by simp),
      hcontents ['4'] (by simp)⟩
  have hok : ∀ g, ∃ out, smallRendered.generate g smallReadme = .ok out := by
    have hbool : ∀ g ∈ [Generator.blocks, .release, .landscape],
        (smallRendered.generate g smallReadme).toBool = true := by decide +kernel
    intro g
    have hg := hbool g (by cases g <;> simp)
    cases hout : smallRendered.generate g smallReadme with
    | ok out => exact ⟨out, rfl⟩
    | error e => simp [hout, Except.toBool] at hg
  have hdisjoint : DisjointRegions smallReadme := by
    obtain ⟨hblocks, hrelease, hlandscape⟩ : Generator.blocks.regions smallReadme = [(0, 53)] ∧
        Generator.release.regions smallReadme = [(53, 153)] ∧
        Generator.landscape.regions smallReadme = [(153, 261)] := by decide +kernel
    intro g g' hne p hp q hq
    cases g <;> cases g' <;> simp_all
  exact (generators_independent hplain hok hdisjoint).2.2

end CacheServer.Bench.Readme
