import CacheServer.Bench.Markers

/-!
# The markers of the generators as brackets

The markers of the generators are tags, and the tags of one generator are a class of brackets
(`brackets`). What a generator puts between them is a list of inert tokens (`Rendered.filler`), for
rendered texts that have no comments and do not start with a newline.
-/

namespace CacheServer.Bench.Readme

open Regions Regex Tags

/-! ## Brackets -/

/-- The tag of a marker of headlines. -/
def tagOf (marker : List Char) : Token := .tag marker.tail.dropLast

/-- The markers of headlines. -/
def headlineMarkers : List (List Char) :=
  [releaseHeadlines.readmeBegin, releaseHeadlines.readmeEnd,
    landscapeHeadlines.readmeBegin, landscapeHeadlines.readmeEnd]

/-- The markers of headlines are comments, and none of them starts as those of blocks do. -/
theorem prefix_headlineMarkers : ∀ marker ∈ headlineMarkers,
    "!--".toList <+: marker.tail.dropLast ∧ ¬ beginText.tail <+: marker.tail.dropLast ∧
      ¬ endText.tail <+: marker.tail.dropLast := by
  decide

/-- A headline marker is read as one tag, and its inner characters are ones that a tag may hold. -/
theorem tag_headlineMarkers : ∀ marker ∈ headlineMarkers,
    (tagOf marker).text = marker ∧ ∀ c ∈ marker.tail.dropLast, inTag c = true := by
  simp only [← List.all_eq_true]
  decide

/-- No two headline markers are read as the same tag. -/
theorem nodup_headlineMarkers : (headlineMarkers.map tagOf).Nodup := by
  decide

/-- The tags that begin headlines are different, and so are those that end them. -/
theorem tagOf_ne :
    tagOf landscapeHeadlines.readmeBegin ≠ tagOf releaseHeadlines.readmeBegin ∧
      tagOf releaseHeadlines.readmeEnd ≠ tagOf landscapeHeadlines.readmeEnd ∧
      ∀ marker ∈ [releaseHeadlines.readmeEnd, landscapeHeadlines.readmeEnd],
        tagOf marker ≠ tagOf releaseHeadlines.readmeBegin ∧
          tagOf marker ≠ tagOf landscapeHeadlines.readmeBegin := by
  have hnodup := nodup_headlineMarkers
  simp only [headlineMarkers, List.map_cons, List.map_nil, List.nodup_cons, List.mem_cons,
    List.not_mem_nil, or_false, not_or] at hnodup
  obtain ⟨⟨hre, hrl, hrle⟩, ⟨hlb, hle⟩, hll, -⟩ := hnodup
  refine ⟨Ne.symm hrl, hle, ?_⟩
  simp only [List.mem_cons, List.not_mem_nil, or_false, forall_eq_or_imp, forall_eq]
  exact ⟨⟨Ne.symm hre, hlb⟩, Ne.symm hrle, Ne.symm hll⟩

/-- The name in a tag that begins a block. -/
def blockName (tag : List Char) : Option (List Char) :=
  let name := (tag.drop beginText.tail.length).takeWhile nameChar
  if name ≠ [] ∧ tag = beginTag name then some name else none

/-- A tag has a block name exactly when it is the begin tag of that name. -/
theorem blockName_eq_some_iff {tag name : List Char} :
    blockName tag = some name ↔ tag = beginTag name ∧ IsName name := by
  simp only [blockName]
  constructor
  · intro h
    split_ifs at h with hname
    obtain rfl := Option.some.inj h
    exact ⟨hname.2, hname.1, fun c hc => List.mem_takeWhile_imp hc⟩
  · -- The name is what stands between the fixed parts, and the closing part begins with a blank.
    rintro ⟨rfl, hname⟩
    have hclose : closeText.dropLast.takeWhile nameChar = [] := by decide
    have htake : ((beginTag name).drop beginText.tail.length).takeWhile nameChar = name := by
      rw [beginTag, List.drop_left, List.takeWhile_append_of_pos hname.2, hclose, List.append_nil]
    rw [htake, if_pos ⟨hname.1, rfl⟩]

/-- What is not a begin tag has no block name. -/
theorem blockName_eq_none {tag : List Char} (h : ∀ name, tag ≠ beginTag name) :
    blockName tag = none := by
  rw [Option.eq_none_iff_forall_ne_some]
  intro name hname
  exact h name (blockName_eq_some_iff.mp hname).1

/-- The name of the block that a token begins. -/
def nameOf : Token → List Char
  | .char _ => []
  | .tag tag => (blockName tag).getD []

/-- The name of a begin tag is read back. -/
theorem nameOf_beginTag {name : List Char} (hname : IsName name) :
    nameOf (.tag (beginTag name)) = name := by
  simp [nameOf, blockName_eq_some_iff.mpr ⟨rfl, hname⟩]

/-- The generator whose regions a token opens. -/
def kind (t : Token) : Option Generator :=
  if t = tagOf releaseHeadlines.readmeBegin then some .release
  else if t = tagOf landscapeHeadlines.readmeBegin then some .landscape
  else
    match t with
    | .char _ => none
    | .tag tag => (blockName tag).map fun _ => .blocks

/-- The token that closes a region. -/
def close (t : Token) : Token :=
  if t = tagOf releaseHeadlines.readmeBegin then tagOf releaseHeadlines.readmeEnd
  else if t = tagOf landscapeHeadlines.readmeBegin then tagOf landscapeHeadlines.readmeEnd
  else .tag (endTag (nameOf t))

/-- The tags of blocks are no tags of headlines. -/
theorem beginTag_ne {name marker : List Char} (h : marker ∈ headlineMarkers) :
    Token.tag (beginTag name) ≠ tagOf marker := by
  intro heq
  refine (prefix_headlineMarkers marker h).2.1 ?_
  rw [← Token.tag.inj heq]
  exact List.prefix_append ..

/-- No end tag of a block is a headline marker. -/
theorem endTag_ne {name marker : List Char} (h : marker ∈ headlineMarkers) :
    Token.tag (endTag name) ≠ tagOf marker := by
  intro heq
  refine (prefix_headlineMarkers marker h).2.2 ?_
  rw [← Token.tag.inj heq]
  exact List.prefix_append ..

/-- No end tag of a block is a begin tag of one. -/
theorem endTag_ne_beginTag (name name' : List Char) : endTag name ≠ beginTag name' := by
  intro heq
  -- They differ within their first six characters, whatever their names.
  have hend : endText.tail.take 6 <+: endTag name :=
    (List.take_prefix 6 _).trans (List.prefix_append ..)
  have hbegin : beginText.tail.take 6 <+: endTag name := by
    rw [heq]
    exact (List.take_prefix 6 _).trans (List.prefix_append ..)
  have hsame := List.prefix_of_prefix_length_le hend hbegin (by decide)
  exact absurd hsame (by decide)

/-- The first marker of the release headlines opens a section of theirs. -/
theorem kind_release : kind (tagOf releaseHeadlines.readmeBegin) = some .release := if_pos rfl

/-- The second one closes it. -/
theorem close_release :
    close (tagOf releaseHeadlines.readmeBegin) = tagOf releaseHeadlines.readmeEnd := if_pos rfl

/-- The first marker of the landscape headlines opens a section of theirs. -/
theorem kind_landscape : kind (tagOf landscapeHeadlines.readmeBegin) = some .landscape := by
  rw [kind.eq_def, if_neg tagOf_ne.1, if_pos rfl]

/-- The second one closes it. -/
theorem close_landscape :
    close (tagOf landscapeHeadlines.readmeBegin) = tagOf landscapeHeadlines.readmeEnd := by
  rw [close.eq_def, if_neg tagOf_ne.1, if_pos rfl]

/-- A begin tag opens a block. -/
theorem kind_block {name : List Char} (hname : IsName name) :
    kind (.tag (beginTag name)) = some .blocks := by
  rw [kind, if_neg (beginTag_ne (by simp [headlineMarkers])),
    if_neg (beginTag_ne (by simp [headlineMarkers]))]
  simp [blockName_eq_some_iff.mpr ⟨rfl, hname⟩]

/-- The end tag of the same name closes it. -/
theorem close_block {name : List Char} (hname : IsName name) :
    close (.tag (beginTag name)) = .tag (endTag name) := by
  rw [close, if_neg (beginTag_ne (by simp [headlineMarkers])),
    if_neg (beginTag_ne (by simp [headlineMarkers])), nameOf_beginTag hname]

/-- The tokens that open regions come in three forms. -/
theorem kind_eq_some {t : Token} {g : Generator} (h : kind t = some g) :
    (g = .release ∧ t = tagOf releaseHeadlines.readmeBegin) ∨
    (g = .landscape ∧ t = tagOf landscapeHeadlines.readmeBegin) ∨
    (g = .blocks ∧ ∃ name, IsName name ∧ t = .tag (beginTag name)) := by
  unfold kind at h
  split_ifs at h with hrelease hlandscape
  · exact .inl ⟨(Option.some.inj h).symm, hrelease⟩
  · exact .inr (.inl ⟨(Option.some.inj h).symm, hlandscape⟩)
  · -- What is not a marker of the headlines is the begin tag of some block.
    cases t with
    | char c => cases h
    | tag tag =>
      obtain ⟨name, hname, hg⟩ := Option.map_eq_some_iff.mp h
      obtain ⟨rfl, hisName⟩ := blockName_eq_some_iff.mp hname
      exact .inr (.inr ⟨hg.symm, name, hisName, rfl⟩)

/-- What opens a block is a begin tag. -/
theorem kind_eq_blocks {t : Token} (h : kind t = some .blocks) :
    ∃ name, IsName name ∧ t = .tag (beginTag name) := by
  obtain ⟨hne, -⟩ | ⟨hne, -⟩ | ⟨-, hblock⟩ := kind_eq_some h
  · cases hne
  · cases hne
  · exact hblock

/-- An end tag opens nothing. -/
theorem kind_endTag (name : List Char) : kind (.tag (endTag name)) = none := by
  rw [kind, if_neg (endTag_ne (by simp [headlineMarkers])),
    if_neg (endTag_ne (by simp [headlineMarkers]))]
  rw [Option.map_eq_none_iff, blockName_eq_none (endTag_ne_beginTag name)]

/-- The markers that end headlines open nothing. -/
theorem kind_readmeEnd {marker : List Char}
    (h : marker ∈ [releaseHeadlines.readmeEnd, landscapeHeadlines.readmeEnd]) :
    kind (tagOf marker) = none := by
  have hmem : marker ∈ headlineMarkers := by
    rw [List.mem_cons, List.mem_singleton] at h
    obtain rfl | rfl := h
    · simp [headlineMarkers]
    · simp [headlineMarkers]
  obtain ⟨hrelease, hlandscape⟩ := tagOf_ne.2.2 marker h
  rw [kind.eq_def, if_neg hrelease, if_neg hlandscape, tagOf]
  rw [Option.map_eq_none_iff, blockName_eq_none]
  intro name hname
  exact beginTag_ne hmem (congrArg Token.tag hname.symm)

/-- End tags of different names differ. -/
theorem endTag_inj {name name' : List Char} (h : endTag name = endTag name') : name = name' := by
  unfold endTag at h
  exact List.append_cancel_right (List.append_cancel_left h)

/-- What closes different sections differs. -/
theorem close_inj {t t' : Token} {g g' : Generator} (h : kind t = some g) (h' : kind t' = some g')
    (heq : close t = close t') : t = t' := by
  have hne := tagOf_ne.2.1
  have hrelease : ∀ name, Token.tag (endTag name) ≠ tagOf releaseHeadlines.readmeEnd :=
    fun name => endTag_ne (by simp [headlineMarkers])
  have hlandscape : ∀ name, Token.tag (endTag name) ≠ tagOf landscapeHeadlines.readmeEnd :=
    fun name => endTag_ne (by simp [headlineMarkers])
  -- Three forms against three: only those of one form can be equal, and blocks by their names.
  obtain ⟨-, rfl⟩ | ⟨-, rfl⟩ | ⟨-, name, hname, rfl⟩ := kind_eq_some h
  · rw [close_release] at heq
    obtain ⟨-, rfl⟩ | ⟨-, rfl⟩ | ⟨-, name', hname', rfl⟩ := kind_eq_some h'
    · rfl
    · rw [close_landscape] at heq
      exact absurd heq hne
    · rw [close_block hname'] at heq
      exact absurd heq.symm (hrelease name')
  · rw [close_landscape] at heq
    obtain ⟨-, rfl⟩ | ⟨-, rfl⟩ | ⟨-, name', hname', rfl⟩ := kind_eq_some h'
    · rw [close_release] at heq
      exact absurd heq.symm hne
    · rfl
    · rw [close_block hname'] at heq
      exact absurd heq.symm (hlandscape name')
  · rw [close_block hname] at heq
    obtain ⟨-, rfl⟩ | ⟨-, rfl⟩ | ⟨-, name', hname', rfl⟩ := kind_eq_some h'
    · rw [close_release] at heq
      exact absurd heq (hrelease name)
    · rw [close_landscape] at heq
      exact absurd heq (hlandscape name)
    · rw [close_block hname'] at heq
      rw [endTag_inj (Token.tag.inj heq)]

/-- The brackets of the three generators. -/
def brackets : Brackets Token Generator where
  kind := kind
  close := close
  kind_close {t g} h := by
    obtain ⟨-, rfl⟩ | ⟨-, rfl⟩ | ⟨-, name, hname, rfl⟩ := kind_eq_some h
    · rw [close_release]
      exact kind_readmeEnd (by simp)
    · rw [close_landscape]
      exact kind_readmeEnd (by simp)
    · rw [close_block hname]
      exact kind_endTag name
  close_inj := close_inj

/-- The closing tokens of the brackets are those of the generators. -/
theorem brackets_close (t : Token) : brackets.close t = close t := rfl

/-- The brackets of a block are closed by the end tag of its name. -/
theorem brackets_close_block {name : List Char} (hname : IsName name) :
    brackets.close (.tag (beginTag name)) = .tag (endTag name) := by
  rw [brackets_close, close_block hname]

/-! ## New bodies -/

/-- The tags that open and close regions are comments. -/
theorem comment_of_kind {t : Token} {g : Generator} (h : kind t = some g) :
    (∃ tag, t = .tag tag ∧ "!--".toList <+: tag) ∧
      ∃ tag, close t = .tag tag ∧ "!--".toList <+: tag := by
  -- All markers of the three generators begin with `!--` inside of their angle brackets.
  have hheadlines : ∀ marker ∈ headlineMarkers, "!--".toList <+: marker.tail.dropLast :=
    fun marker h => (prefix_headlineMarkers marker h).1
  have hbegin : "!--".toList <+: beginText.tail := by decide
  have hend : "!--".toList <+: endText.tail := by decide
  obtain ⟨-, rfl⟩ | ⟨-, rfl⟩ | ⟨-, name, hname, rfl⟩ := kind_eq_some h
  · rw [close_release]
    exact ⟨⟨_, rfl, hheadlines _ (by simp [headlineMarkers])⟩, _, rfl,
      hheadlines _ (by simp [headlineMarkers])⟩
  · rw [close_landscape]
    exact ⟨⟨_, rfl, hheadlines _ (by simp [headlineMarkers])⟩, _, rfl,
      hheadlines _ (by simp [headlineMarkers])⟩
  · rw [close_block hname]
    exact ⟨⟨_, rfl, hbegin.trans (List.prefix_append ..)⟩, _, rfl,
      hend.trans (List.prefix_append ..)⟩

/-- There is no comment in a text without `<!--`. -/
theorem not_comment_of_mem_lex {s : List Char} (hs : ¬ "<!--".toList <:+: s) {tag : List Char}
    (h : Token.tag tag ∈ lex s) : ¬ "!--".toList <+: tag := by
  rintro ⟨rest, rfl⟩
  obtain ⟨u, v, hlex⟩ := List.append_of_mem h
  -- The tag would put its `<!--` into the text.
  refine hs ⟨text u, rest ++ ['>'] ++ text v, ?_⟩
  have htext := text_lex s
  rw [hlex, text_append, text_cons, Token.text] at htext
  have hcomment : "<!--".toList = '<' :: "!--".toList := by decide
  rw [← htext, hcomment]
  simp

/-- The tokens of a text without `<!--` are inert. -/
theorem inert_of_mem_lex {s : List Char} (hs : ¬ "<!--".toList <:+: s) {x : Token}
    (h : x ∈ lex s) : brackets.Inert x := by
  constructor
  · -- It opens nothing, as what opens is a comment.
    by_contra hkind
    obtain ⟨g, hg⟩ := Option.ne_none_iff_exists'.mp hkind
    obtain ⟨⟨tag, rfl, htag⟩, -⟩ := comment_of_kind hg
    exact not_comment_of_mem_lex hs h htag
  · -- And it closes nothing for the same reason.
    rintro t g hg rfl
    obtain ⟨-, tag, hclose, htag⟩ := comment_of_kind hg
    exact not_comment_of_mem_lex hs (hclose ▸ h) htag

/-- A character neither opens nor closes a section. -/
theorem inert_char (c : Char) : brackets.Inert (.char c) := by
  constructor
  · by_contra hkind
    obtain ⟨g, hg⟩ := Option.ne_none_iff_exists'.mp hkind
    obtain ⟨⟨tag, htag, -⟩, -⟩ := comment_of_kind (t := .char c) hg
    cases htag
  · intro t g hg heq
    obtain ⟨-, tag, htag, -⟩ := comment_of_kind hg
    cases heq.trans htag

/-- What is rendered for the region that a token opens. -/
def Rendered.content (r : Rendered) (t : Token) : List Char :=
  match kind t with
  | some .blocks => (r.blocks.lookup (nameOf t)).getD []
  | some .release => r.release
  | some .landscape => r.landscape
  | none => []

/-- Whether the new body of a region has lines of its own. A block with its markers on one line
stays so. -/
def ownLines (t : Token) (body : List Token) : Bool :=
  kind t ≠ some .blocks || body.head? = some (.char '\n')

/-- The new body of a region. -/
def Rendered.fill (r : Rendered) (t : Token) (body : List Token) : List Token :=
  if ownLines t body then .char '\n' :: lex (r.content t ++ ['\n']) else lex (r.content t)

/-- What plain reports put into a section is plain. -/
theorem Rendered.Plain.content {r : Rendered} (h : r.Plain) (t : Token) :
    Readme.Plain (r.content t) := by
  have hnil : Readme.Plain [] := ⟨by decide, by simp⟩
  unfold Rendered.content
  split
  · -- A name that is not rendered gives an empty text.
    cases hlookup : r.blocks.lookup (nameOf t) with
    | none => exact hnil
    | some content => exact h.blocks _ (Assoc.mem_of_lookup hlookup)
  · exact h.release
  · exact h.landscape
  · exact hnil

/-- A newline after a text does not complete a comment. -/
theorem Plain.not_infix_concat {s : List Char} (h : Plain s) :
    ¬ "<!--".toList <:+: s ++ ['\n'] := by
  have hlast : "<!--".toList.getLast? = some '-' := by decide
  -- `<!--` ends with a hyphen, so that it cannot end with the newline.
  rw [List.infix_concat_iff, List.suffix_concat_iff, not_or, not_or]
  refine ⟨⟨?_, ?_⟩, h.1⟩
  · intro hnil
    simp [hnil] at hlast
  · rintro ⟨rest, heq, -⟩
    simp [heq] at hlast

/-- The head of the tokens of a text. -/
theorem head?_lex {s : List Char} {c : Char} (h : (lex s).head? = some (.char c)) :
    s.head? = some c := by
  have htext := text_lex s
  obtain ⟨ts, hts⟩ := List.head?_eq_some_iff.mp h
  rw [hts, text_cons, Token.text] at htext
  rw [← htext]
  rfl

/-- The new bodies of the regions. -/
def Rendered.filler (r : Rendered) (h : r.Plain) : brackets.Filler where
  fill := r.fill
  inert t body x hx := by
    unfold Rendered.fill at hx
    split_ifs at hx
    · obtain rfl | hx := List.mem_cons.mp hx
      · exact inert_char '\n'
      · exact inert_of_mem_lex (h.content t).not_infix_concat hx
    · exact inert_of_mem_lex (h.content t).1 hx
  idem t body := by
    by_cases hlines : ownLines t body = true
    · -- A body on lines of its own is filled with one that begins with a newline.
      have hagain : ownLines t (r.fill t body) = true := by
        rw [Rendered.fill, if_pos hlines]
        simp [ownLines]
      rw [Rendered.fill, if_pos hagain, Rendered.fill, if_pos hlines]
    · -- One on its marker's line stays there, since plain content does not begin with a newline.
      have hagain : ¬ ownLines t (r.fill t body) = true := by
        rw [Rendered.fill, if_neg hlines]
        simp only [ownLines, Bool.or_eq_true, decide_eq_true_eq, not_or] at hlines ⊢
        exact ⟨hlines.1, fun hhead => (h.content t).2 (head?_lex hhead)⟩
      rw [Rendered.fill, if_neg hagain, Rendered.fill, if_neg hlines]

/-- A generator leaves no tag that was none. -/
theorem Rendered.Plain.lex_rewrite {r : Rendered} (h : r.Plain) (sel : Generator → Bool)
    {ts : List Token} (hts : Lexed ts) :
    lex (text (brackets.rewrite r.fill sel ts)) = brackets.rewrite r.fill sel ts := by
  -- The new bodies meet tags on both sides, and are lexed on their own.
  have hopen : ∀ t g, brackets.kind t = some g → ∃ name, t = .tag name := by
    intro t g hg
    obtain ⟨⟨tag, htag, -⟩, -⟩ := comment_of_kind hg
    exact ⟨tag, htag⟩
  have hclose : ∀ t g, brackets.kind t = some g → ∃ name, brackets.close t = .tag name := by
    intro t g hg
    obtain ⟨-, tag, htag, -⟩ := comment_of_kind hg
    exact ⟨tag, htag⟩
  have hfill : ∀ t body, Lexed ((r.filler h).fill t body) := by
    intro t body
    show Lexed (r.fill t body)
    unfold Rendered.fill
    split_ifs
    · exact .char (by simp [leadingTag]) (lexed_lex _)
    · exact lexed_lex _
  exact (hts.rewrite (F := r.filler h) hopen hclose hfill).lex_text

end CacheServer.Bench.Readme
