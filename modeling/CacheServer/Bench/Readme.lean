import CacheServer.Lib.Regex
import CacheServer.Lib.Tags

/-!
# The generated parts of the README

The three generators of the README: `apply_blocks` of `render.py`, which rewrites every block that
is marked with a name, and `replace_readme_headlines` of `render_release_report.py` and of
`render_landscape_report.py`, which rewrite one block each. The first looks for its blocks with a
regular expression, and the others split the text at their markers.
-/

namespace CacheServer.Bench.Readme

open Regex Tags

/-- `[a-z-]`. -/
def nameChar (c : Char) : Bool := ('a' ≤ c && c ≤ 'z') || c = '-'

/-- The text before the name of a block, where it begins. -/
def beginText : List Char := "<!-- BEGIN GENERATED: ".toList

/-- The text before the name of a block, where it ends. -/
def endText : List Char := "<!-- END GENERATED: ".toList

/-- The text after the name of a block. -/
def closeText : List Char := " -->".toList

/-- The first line of `MARKER`. The groups without a name have their numbers. -/
def markerBegin : Pattern :=
  .group "1" (.seq (.lit beginText) (.seq (.group "name" (.plus nameChar))
    (.seq (.lit closeText) (.group "nl" (.opt '\n')))))

/-- The last line of `MARKER`. -/
def markerEnd : Pattern :=
  .group "5" (.seq (.lit endText) (.seq (.backref "name") (.lit closeText)))

/-- `MARKER`. -/
def marker : Pattern := .seq markerBegin (.seq (.group "body" .lazyAny) markerEnd)

/-- `m.group(name)`, for a group that is in every match. -/
def group (m : Match) (name : String) : List Char := (m.groups.lookup name).getD []

/-- `sub`: what a part of the text is replaced by. -/
def sub (rendered : List (List Char × List Char)) : Char ⊕ Match → List Char
  | .inl c => [c]
  | .inr m =>
    let sep := if group m "nl" ≠ [] then ['\n'] else []
    group m "1" ++ (rendered.lookup (group m "name")).getD [] ++ sep ++ group m "5"

/-- The names of the blocks, in the order in which `sub` sees them. -/
def seen (parts : List (Char ⊕ Match)) : List (List Char) :=
  parts.filterMap fun
    | .inl _ => none
    | .inr m => some (group m "name")

/-- `apply_blocks`. -/
def applyBlocks (text : List Char) (rendered : List (List Char × List Char)) (path : String) :
    Except String (List Char) :=
  let parts := marker.finditer text
  match (seen parts).find? fun name => (rendered.lookup name).isNone with
  | some name => .error (path ++ ": unknown generated block '" ++ String.ofList name ++ "'")
  | none =>
    if (seen parts).isEmpty then
      .error (path ++ ": no GENERATED markers found. Wrap each table in\n" ++
        "  <!-- BEGIN GENERATED: <name> -->\n  ...\n  <!-- END GENERATED: <name> -->")
    else .ok (parts.flatMap (sub rendered))

/-- The name of a block of headlines, and the markers `README_BEGIN` and `README_END`. -/
structure Headlines where
  /-- The name of the block. -/
  name : String
  /-- The first marker. -/
  readmeBegin : List Char
  /-- The second marker. -/
  readmeEnd : List Char

/-- The two functions `replace_readme_headlines`. -/
def Headlines.replaceReadmeHeadlines (h : Headlines) (readme rendered : List Char) :
    Except String (List Char) :=
  if count h.readmeBegin readme ≠ 1 ∨ count h.readmeEnd readme ≠ 1 then
    .error ("README must contain exactly one generated " ++ h.name ++ " block")
  else
    match split h.readmeBegin readme with
    | [before, rest] =>
      if (find h.readmeEnd rest).isNone then
        .error ("README " ++ h.name ++ " markers are out of order")
      else
        match split h.readmeEnd rest with
        | [_, after] =>
          .ok (before ++ h.readmeBegin ++ ['\n'] ++ rendered ++ ['\n'] ++ h.readmeEnd ++ after)
        | _ => .error "too many values to unpack (expected 2)"
    | _ => .error "too many values to unpack (expected 2)"

/-- The markers of the release report. -/
def releaseHeadlines : Headlines where
  name := "release-headlines"
  readmeBegin := "<!-- BEGIN GENERATED RELEASE: release-headlines -->".toList
  readmeEnd := "<!-- END GENERATED RELEASE: release-headlines -->".toList

/-- The markers of the landscape report. -/
def landscapeHeadlines : Headlines where
  name := "landscape-headlines"
  readmeBegin := "<!-- BEGIN GENERATED LANDSCAPE: landscape-headlines -->".toList
  readmeEnd := "<!-- END GENERATED LANDSCAPE: landscape-headlines -->".toList

/-- `replace_readme_headlines` of `render_release_report.py`. -/
def Release.replaceReadmeHeadlines : List Char → List Char → Except String (List Char) :=
  releaseHeadlines.replaceReadmeHeadlines

/-- `replace_readme_headlines` of `render_landscape_report.py`. -/
def Landscape.replaceReadmeHeadlines : List Char → List Char → Except String (List Char) :=
  landscapeHeadlines.replaceReadmeHeadlines

/-! ## The generators and their regions -/

/-- The three generators. -/
inductive Generator
  | blocks
  | release
  | landscape
deriving DecidableEq, Repr

/-- What is rendered for the three of them. -/
structure Rendered where
  /-- The texts of the blocks by their names. -/
  blocks : List (List Char × List Char)
  /-- The path of the README. -/
  path : String
  /-- The release headlines. -/
  release : List Char
  /-- The landscape headlines. -/
  landscape : List Char

/-- A generator at work on the text of the README. -/
def Rendered.generate (r : Rendered) (g : Generator) (readme : List Char) :
    Except String (List Char) :=
  match g with
  | .blocks => applyBlocks readme r.blocks r.path
  | .release => Release.replaceReadmeHeadlines readme r.release
  | .landscape => Landscape.replaceReadmeHeadlines readme r.landscape

/-- Where the matches are. -/
def matchSpans : ℕ → List (Char ⊕ Match) → List (ℕ × ℕ)
  | _, [] => []
  | off, .inl _ :: parts => matchSpans (off + 1) parts
  | off, .inr m :: parts => (off, off + m.text.length) :: matchSpans (off + m.text.length) parts

/-- Where the block of headlines is, with its markers. -/
def Headlines.spans (h : Headlines) (readme : List Char) : List (ℕ × ℕ) :=
  match split h.readmeBegin readme with
  | [before, rest] =>
    match split h.readmeEnd rest with
    | [body, _] =>
      [(before.length,
        before.length + h.readmeBegin.length + body.length + h.readmeEnd.length)]
    | _ => []
  | _ => []

/-- The regions of a generator. -/
def Generator.regions (g : Generator) (readme : List Char) : List (ℕ × ℕ) :=
  match g with
  | .blocks => matchSpans 0 (marker.finditer readme)
  | .release => releaseHeadlines.spans readme
  | .landscape => landscapeHeadlines.spans readme

/-- The regions of different generators do not overlap. -/
def DisjointRegions (readme : List Char) : Prop :=
  ∀ g g' : Generator, g ≠ g' → ∀ p ∈ g.regions readme, ∀ q ∈ g'.regions readme,
    p.2 ≤ q.1 ∨ q.2 ≤ p.1

/-- A rendered text without `<!--` that does not start with a newline. -/
def Plain (s : List Char) : Prop := ¬ "<!--".toList <:+: s ∧ s.head? ≠ some '\n'

/-- All rendered texts are plain. -/
structure Rendered.Plain (r : Rendered) : Prop where
  /-- The texts of the blocks are. -/
  blocks : ∀ entry ∈ r.blocks, Readme.Plain entry.2
  /-- So are the release headlines. -/
  release : Readme.Plain r.release
  /-- So are the landscape headlines. -/
  landscape : Readme.Plain r.landscape

end CacheServer.Bench.Readme
