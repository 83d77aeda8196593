import Mathlib.Data.List.Basic
import Mathlib.Data.List.Nodup
import Mathlib.Data.List.TakeDrop

/-!
# Texts of metrics

The text format that monitoring systems scrape. A family of samples has a line with its help text, a
line with its type, and then its samples, each with a name, labels, and a value. Lines end with a
line feed, blank ones mean nothing, and a family may stand in a text only once.

The reader is a strict one without escapes: it takes no backslash in a help text or a label. A text
that is written from well-formed families is read back as these families.
-/

namespace CacheServer.Exposition

/-- A sample of a family. -/
structure Sample where
  /-- The labels, with their values. -/
  labels : List (List UInt8 × List UInt8)
  /-- The value, as it is written. -/
  value : List UInt8
deriving DecidableEq, Repr

/-- A family of samples. -/
structure Family where
  /-- The name. -/
  name : List UInt8
  /-- The text of the `HELP` line. -/
  help : List UInt8
  /-- The text of the `TYPE` line. -/
  kind : List UInt8
  /-- The samples. -/
  samples : List Sample
deriving DecidableEq, Repr

/-- A line of a text. -/
inductive Line
  | blank
  | help (name doc : List UInt8)
  | type (name kind : List UInt8)
  | sample (name : List UInt8) (s : Sample)
deriving DecidableEq, Repr

/-! ## Writing -/

/-- `# HELP ` -/
def helpMark : List UInt8 := [35, 32, 72, 69, 76, 80, 32]

/-- `# TYPE ` -/
def typeMark : List UInt8 := [35, 32, 84, 89, 80, 69, 32]

/-- A label: the name, an equals sign, and the value in quotes. -/
def labelText (l : List UInt8 × List UInt8) : List UInt8 := l.1 ++ 61 :: 34 :: (l.2 ++ [34])

/-- The labels after the first, each with its comma, and the closing brace. -/
def moreLabelsText : List (List UInt8 × List UInt8) → List UInt8
  | [] => [125]
  | l :: ls => 44 :: (labelText l ++ moreLabelsText ls)

/-- The labels of a sample, in braces. -/
def labelsText : List (List UInt8 × List UInt8) → List UInt8
  | [] => []
  | l :: ls => 123 :: (labelText l ++ moreLabelsText ls)

/-- The text of a line. -/
def Line.text : Line → List UInt8
  | .blank => []
  | .help name doc => helpMark ++ (name ++ 32 :: doc)
  | .type name kind => typeMark ++ (name ++ 32 :: kind)
  | .sample name s => name ++ (labelsText s.labels ++ 32 :: s.value)

/-- The lines of a family. -/
def Family.lines (f : Family) : List Line :=
  .help f.name f.help :: .type f.name f.kind :: (f.samples.map (.sample f.name) ++ [.blank])

/-- The text of some lines. -/
def linesText (ls : List Line) : List UInt8 := ls.flatMap fun l => l.text ++ [10]

/-- The text of a family. -/
def Family.text (f : Family) : List UInt8 := linesText f.lines

/-! ## Reading -/

/-- The letters, the digits, and the underscore. -/
def isNameByte (b : UInt8) : Bool :=
  65 ≤ b && b ≤ 90 || 97 ≤ b && b ≤ 122 || 48 ≤ b && b ≤ 57 || b = 95

/-- A name: it is not empty, and does not begin with a digit. -/
def isName (name : List UInt8) : Bool :=
  name.all isNameByte && name ≠ [] && !name.head?.any fun b => 48 ≤ b && b ≤ 57

/-- What a help text is made of. -/
def isDocByte (b : UInt8) : Bool := b ≠ 92 && b ≠ 10

/-- What the value of a label is made of. -/
def isLabelByte (b : UInt8) : Bool := b ≠ 34 && b ≠ 92 && b ≠ 10

/-- What the value of a sample is made of. -/
def isValueByte (b : UInt8) : Bool := b ≠ 32 && b ≠ 10

/-- The value of a sample. -/
def isValue (value : List UInt8) : Bool := value.all isValueByte && value ≠ []

/-- `counter`, `gauge`, `histogram`, `summary`, `untyped` -/
def kinds : List (List UInt8) :=
  ["counter", "gauge", "histogram", "summary", "untyped"].map fun s => s.toUTF8.data.toList

/-- The lines of a text, each with its line feed. What has been read of the first one is given. -/
def splitLines (line : List UInt8) : List UInt8 → Option (List (List UInt8))
  | [] => if line = [] then some [] else none
  | b :: rest =>
    if b = 10 then (splitLines [] rest).map (line :: ·) else splitLines (line ++ [b]) rest

/-- A name at the head of a text, and what is after it. -/
def readName (s : List UInt8) : Option (List UInt8 × List UInt8) :=
  if isName (s.takeWhile isNameByte) then
    some (s.takeWhile isNameByte, s.dropWhile isNameByte)
  else none

/-- A label at the head of a text, and what is after it. -/
def readLabel (s : List UInt8) : Option ((List UInt8 × List UInt8) × List UInt8) :=
  match readName s with
  | some (name, 61 :: 34 :: rest) =>
    match rest.dropWhile isLabelByte with
    | 34 :: rest' => some ((name, rest.takeWhile isLabelByte), rest')
    | _ => none
  | _ => none

/-- Reading a label takes something off the text. -/
theorem length_readLabel {s rest : List UInt8} {l : List UInt8 × List UInt8}
    (h : readLabel s = some (l, rest)) : rest.length < s.length := by
  unfold readLabel readName at h
  split at h
  · rename_i name rest₁ hname
    split at h
    · rename_i rest₂ hvalue
      obtain ⟨-, rfl⟩ : _ ∧ rest₂ = rest := by simpa using h
      -- The name ends where the equals sign and the quote are: these two bytes are gone at least.
      have hdrop : s.dropWhile isNameByte = 61 :: 34 :: rest₁ := by
        split_ifs at hname
        simpa using (Option.some.inj hname |> Prod.ext_iff.mp).2
      have h₁ := congrArg List.length hdrop
      have h₂ := congrArg List.length hvalue
      have h₃ := (List.dropWhile_sublist isNameByte (l := s)).length_le
      have h₄ := (List.dropWhile_sublist isLabelByte (l := rest₁)).length_le
      simp only [List.length_cons] at h₁ h₂
      omega
    · cases h
  · cases h

/-- The labels after the first, and what is after the closing brace. -/
def readMoreLabels (s : List UInt8) : Option (List (List UInt8 × List UInt8) × List UInt8) :=
  match s with
  | 125 :: rest => some ([], rest)
  | 44 :: s' =>
    match _h : readLabel s' with
    | some (l, rest) => (readMoreLabels rest).map fun r => (l :: r.1, r.2)
    | none => none
  | _ => none
termination_by s.length
decreasing_by
  have := length_readLabel _h
  simp only [List.length_cons]
  omega

/-- The labels of a sample, if there are any, and what is after them. -/
def readLabels (s : List UInt8) : Option (List (List UInt8 × List UInt8) × List UInt8) :=
  match s with
  | 123 :: s' =>
    match readLabel s' with
    | some (l, rest) => (readMoreLabels rest).map fun r => (l :: r.1, r.2)
    | none => none
  | _ => some ([], s)

/-- A sample. -/
def readSample (line : List UInt8) : Option Line :=
  match readName line with
  | some (name, rest) =>
    match readLabels rest with
    | some (labels, 32 :: value) =>
      if isValue value then some (.sample name ⟨labels, value⟩) else none
    | _ => none
  | none => none

/-- A name, a space, and the rest of the line, as the rest of a line with a mark. -/
def readMarked (line : List UInt8) : Option (List UInt8 × List UInt8) :=
  match readName line with
  | some (name, 32 :: rest) => some (name, rest)
  | _ => none

/-- A line. -/
def readLine (line : List UInt8) : Option Line :=
  if line = [] then some .blank
  else
    match line.dropPrefix? helpMark, line.dropPrefix? typeMark with
    | some rest, _ =>
      match readMarked rest with
      | some (name, doc) => if doc.all isDocByte then some (.help name doc) else none
      | none => none
    | none, some rest =>
      match readMarked rest with
      | some (name, kind) => if kind ∈ kinds then some (.type name kind) else none
      | none => none
    | none, none => readSample line

/-- The samples before the first family, and the families. -/
def group : List Line → Option (List (List UInt8 × Sample) × List Family)
  | [] => some ([], [])
  | .blank :: ls => group ls
  | .sample name s :: ls => (group ls).map fun r => ((name, s) :: r.1, r.2)
  | .help name doc :: .type name' kind :: ls =>
    match group ls with
    | some (samples, families) =>
      if name' = name ∧ (∀ x ∈ samples, x.1 = name) ∧ (samples.map fun x => x.2.labels).Nodup ∧
          name ∉ families.map Family.name then
        some ([], ⟨name, doc, kind, samples.map Prod.snd⟩ :: families)
      else none
    | none => none
  | _ => none

/-- The families of a text. -/
def read (text : List UInt8) : Option (List Family) :=
  match splitLines [] text with
  | some lines =>
    match (lines.mapM readLine).bind group with
    | some ([], families) => some families
    | _ => none
  | none => none

/-! ## Well-formed families -/

/-- The sample can be written so that it is read back. -/
structure Sample.WellFormed (s : Sample) : Prop where
  /-- The labels have names, and values without bytes that are escaped. -/
  labels : ∀ l ∈ s.labels, isName l.1 = true ∧ l.2.all isLabelByte = true
  /-- The value is not empty, and without spaces. -/
  value : isValue s.value = true

/-- The family can be written so that it is read back. -/
structure Family.WellFormed (f : Family) : Prop where
  /-- The name is one. -/
  name : isName f.name = true
  /-- The help is on one line. -/
  help : f.help.all isDocByte = true
  /-- The kind is one of those that there are. -/
  kind : f.kind ∈ kinds
  /-- The samples can be read back. -/
  samples : ∀ s ∈ f.samples, s.WellFormed
  /-- No two samples have the same labels. -/
  distinct : (f.samples.map Sample.labels).Nodup

/-- The line can be written so that it is read back. -/
def Line.WellFormed : Line → Prop
  | .blank => True
  | .help name doc => isName name = true ∧ doc.all isDocByte = true
  | .type name kind => isName name = true ∧ kind ∈ kinds
  | .sample name s => isName name = true ∧ s.WellFormed

/-! ## Lines -/

/-- A name has bytes of names, and is not empty. -/
theorem isName_bytes {name : List UInt8} (h : isName name = true) :
    (∀ b ∈ name, isNameByte b = true) ∧ name ≠ [] := by
  simp only [isName, Bool.and_eq_true, List.all_eq_true, decide_eq_true_eq] at h
  exact h.1

/-- A list of bytes of a kind is cut off at the first byte that is not of the kind. -/
theorem takeWhile_append_stop {p : UInt8 → Bool} {xs : List UInt8} (h : ∀ b ∈ xs, p b = true)
    {b : UInt8} (hb : p b = false) (rest : List UInt8) :
    (xs ++ b :: rest).takeWhile p = xs ∧ (xs ++ b :: rest).dropWhile p = b :: rest := by
  rw [List.takeWhile_append_of_pos h, List.dropWhile_append_of_pos h]
  simp [hb]

/-- A name is read up to a byte that is not in one. -/
theorem readName_append {name : List UInt8} (h : isName name = true) {b : UInt8}
    (hb : isNameByte b = false) (rest : List UInt8) :
    readName (name ++ b :: rest) = some (name, b :: rest) := by
  obtain ⟨htake, hdrop⟩ := takeWhile_append_stop (isName_bytes h).1 hb rest
  rw [readName, htake, hdrop, if_pos h]

/-- A label is read back. -/
theorem readLabel_append {l : List UInt8 × List UInt8}
    (h : isName l.1 = true ∧ l.2.all isLabelByte = true) (rest : List UInt8) :
    readLabel (labelText l ++ rest) = some (l, rest) := by
  have htext : labelText l ++ rest = l.1 ++ 61 :: 34 :: (l.2 ++ 34 :: rest) := by simp [labelText]
  obtain ⟨htake, hdrop⟩ := takeWhile_append_stop (List.all_eq_true.mp h.2)
    (show isLabelByte 34 = false by decide) rest
  simp only [htext, readLabel, readName_append h.1 (show isNameByte 61 = false by decide), htake,
    hdrop]

/-- Labels behind the first one are read back. -/
theorem readMoreLabels_append {ls : List (List UInt8 × List UInt8)}
    (h : ∀ l ∈ ls, isName l.1 = true ∧ l.2.all isLabelByte = true) (rest : List UInt8) :
    readMoreLabels (moreLabelsText ls ++ rest) = some (ls, rest) := by
  induction ls with
  | nil => rw [moreLabelsText, List.singleton_append, readMoreLabels]
  | cons l ls ih =>
    -- The comma is taken by the reader itself, and the label after it by `readLabel`.
    have hread := readLabel_append (h l List.mem_cons_self) (moreLabelsText ls ++ rest)
    rw [moreLabelsText, List.cons_append, List.append_assoc, readMoreLabels]
    split
    · rename_i l' rest' heq
      obtain ⟨rfl, rfl⟩ : l = l' ∧ moreLabelsText ls ++ rest = rest' := by
        simpa [hread] using heq
      rw [ih fun l' hl' => h l' (List.mem_cons_of_mem _ hl')]
      rfl
    · rename_i heq
      simp [hread] at heq

/-- The labels of a sample are read back. -/
theorem readLabels_append {ls : List (List UInt8 × List UInt8)}
    (h : ∀ l ∈ ls, isName l.1 = true ∧ l.2.all isLabelByte = true) (rest : List UInt8) :
    readLabels (labelsText ls ++ 32 :: rest) = some (ls, 32 :: rest) := by
  obtain _ | ⟨l, ls⟩ := ls
  · rfl
  · have hread := readLabel_append (h l List.mem_cons_self) (moreLabelsText ls ++ 32 :: rest)
    have hmore :=
      readMoreLabels_append (fun l' hl' => h l' (List.mem_cons_of_mem _ hl')) (32 :: rest)
    simp only [labelsText, readLabels, List.cons_append, List.append_assoc, hread, hmore,
      Option.map_some]

/-- The first byte after a name, where the labels are or the value. -/
theorem labelsText_append (ls : List (List UInt8 × List UInt8)) (rest : List UInt8) :
    ∃ b rest', labelsText ls ++ 32 :: rest = b :: rest' ∧ isNameByte b = false := by
  obtain _ | ⟨l, ls⟩ := ls
  · exact ⟨32, rest, rfl, by decide⟩
  · exact ⟨123, _, rfl, by decide⟩

/-- A sample is read back. -/
theorem readSample_text {name : List UInt8} {s : Sample} (hname : isName name = true)
    (hs : s.WellFormed) : readSample (Line.sample name s).text = some (.sample name s) := by
  have hlabels := readLabels_append hs.labels s.value
  obtain ⟨b, rest, hrest, hb⟩ := labelsText_append s.labels s.value
  rw [hrest] at hlabels
  simp only [readSample, Line.text, hrest, readName_append hname hb, hlabels, hs.value, if_true]

/-- The name in a line that begins with a mark is read back. -/
theorem readMarked_append {name : List UInt8} (h : isName name = true) (rest : List UInt8) :
    readMarked (name ++ 32 :: rest) = some (name, rest) := by
  simp only [readMarked, readName_append h (show isNameByte 32 = false by decide)]

/-- A line that begins with a name has no mark. -/
theorem dropPrefix?_name {name : List UInt8} (h : isName name = true) (rest mark : List UInt8) :
    (name ++ rest).dropPrefix? (35 :: mark) = none := by
  obtain ⟨hbytes, hne⟩ := isName_bytes h
  obtain _ | ⟨b, name⟩ := name
  · exact absurd rfl hne
  · -- A mark begins with a number sign, which is no byte of a name.
    have hb : b ≠ 35 := by
      rintro rfl
      exact absurd (hbytes 35 List.mem_cons_self) (by decide)
    simp [List.dropPrefix?, hb]

/-- A line is read back. -/
theorem readLine_text {l : Line} (h : l.WellFormed) : readLine l.text = some l := by
  cases l with
  | blank => rfl
  | help name doc =>
    have hprefix : (helpMark ++ (name ++ 32 :: doc)).dropPrefix? helpMark =
        some (name ++ 32 :: doc) :=
      List.dropPrefix?_eq_some_iff.mpr ⟨helpMark, rfl, beq_self_eq_true _⟩
    simp only [readLine, Line.text, hprefix, readMarked_append h.1, h.2, if_true]
    rfl
  | type name kind =>
    -- The two marks differ in their third byte.
    have hhelp : (typeMark ++ (name ++ 32 :: kind)).dropPrefix? helpMark = none := rfl
    have htype : (typeMark ++ (name ++ 32 :: kind)).dropPrefix? typeMark =
        some (name ++ 32 :: kind) :=
      List.dropPrefix?_eq_some_iff.mpr ⟨typeMark, rfl, beq_self_eq_true _⟩
    simp only [readLine, Line.text, hhelp, htype, readMarked_append h.1, h.2, if_true]
    rfl
  | sample name s =>
    -- A sample is what has neither mark, and it is not blank because of its space.
    have hne : (Line.sample name s).text ≠ [] := by simp [Line.text]
    have hhelp := dropPrefix?_name h.1 (labelsText s.labels ++ 32 :: s.value)
      [32, 72, 69, 76, 80, 32]
    have htype := dropPrefix?_name h.1 (labelsText s.labels ++ 32 :: s.value)
      [32, 84, 89, 80, 69, 32]
    rw [readLine, if_neg hne, Line.text, helpMark, typeMark, hhelp, htype]
    exact readSample_text h.1 h.2

/-- No line has a line feed in it. -/
theorem notMem_text {l : Line} (h : l.WellFormed) : 10 ∉ l.text := by
  -- A line feed is in no name, and in nothing that is made of one of the three kinds of bytes.
  have hname : ∀ {name : List UInt8}, isName name = true → 10 ∉ name := by
    intro name hname hmem
    exact absurd ((isName_bytes hname).1 10 hmem) (by decide)
  have hall : ∀ {p : UInt8 → Bool} {xs : List UInt8}, xs.all p = true → p 10 = false → 10 ∉ xs := by
    intro p xs hxs hp hmem
    rw [List.all_eq_true.mp hxs 10 hmem] at hp
    cases hp
  cases l with
  | blank => simp [Line.text]
  | help name doc =>
    simp [Line.text, helpMark, hname h.1, hall h.2 (by decide : isDocByte 10 = false)]
  | type name kind =>
    have hkind : ∀ kind ∈ kinds, 10 ∉ kind := by decide
    simp [Line.text, typeMark, hname h.1, hkind kind h.2]
  | sample name s =>
    have hlabel : ∀ l ∈ s.labels, 10 ∉ labelText l := by
      intro l hl
      obtain ⟨hlname, hlvalue⟩ := h.2.labels l hl
      simp [labelText, hname hlname, hall hlvalue (by decide : isLabelByte 10 = false)]
    -- By induction on the labels, since the writer adds the closing brace after the last.
    have hmore : ∀ ls : List (List UInt8 × List UInt8), (∀ l ∈ ls, 10 ∉ labelText l) →
        10 ∉ moreLabelsText ls := by
      intro ls hls
      induction ls with
      | nil => simp [moreLabelsText]
      | cons l ls ih =>
        have hl := hls l List.mem_cons_self
        have hrest := ih fun l' hl' => hls l' (List.mem_cons_of_mem _ hl')
        simp [moreLabelsText, hl, hrest]
    have hlabels : 10 ∉ labelsText s.labels := by
      cases hs : s.labels with
      | nil => simp [labelsText]
      | cons l ls =>
        rw [hs] at hlabel
        have hrest := hmore ls fun l' hl' => hlabel l' (List.mem_cons_of_mem _ hl')
        simp [labelsText, hlabel l List.mem_cons_self, hrest]
    have hvalue : 10 ∉ s.value := by
      have hs := h.2.value
      rw [isValue, Bool.and_eq_true] at hs
      exact hall hs.1 (by decide)
    simp [Line.text, hname h.1, hlabels, hvalue]

/-! ## Texts -/

/-- A text without a newline, and a newline, are a line. -/
theorem splitLines_append {l : List UInt8} (h : 10 ∉ l) (line rest : List UInt8) :
    splitLines line (l ++ 10 :: rest) = (splitLines [] rest).map ((line ++ l) :: ·) := by
  -- What has been read of the line grows as the text is used up.
  induction l generalizing line with
  | nil => simp [splitLines]
  | cons b l ih =>
    obtain ⟨hb, hl⟩ : 10 ≠ b ∧ 10 ∉ l := by simpa using h
    rw [List.cons_append, splitLines, if_neg (Ne.symm hb), ih hl, List.append_assoc,
      List.singleton_append]

/-- The lines of a text are those that it was made of. -/
theorem splitLines_linesText {ls : List Line} (h : ∀ l ∈ ls, l.WellFormed) :
    splitLines [] (linesText ls) = some (ls.map Line.text) := by
  induction ls with
  | nil => rfl
  | cons l ls ih =>
    have htext : linesText (l :: ls) = l.text ++ 10 :: linesText ls := by simp [linesText]
    rw [htext, splitLines_append (notMem_text (h l List.mem_cons_self)),
      ih fun l' hl' => h l' (List.mem_cons_of_mem _ hl')]
    rfl

/-- Each of them is read back. -/
theorem mapM_readLine {ls : List Line} (h : ∀ l ∈ ls, l.WellFormed) :
    (ls.map Line.text).mapM readLine = some ls := by
  induction ls with
  | nil => rfl
  | cons l ls ih =>
    rw [List.map_cons, List.mapM_cons, readLine_text (h l List.mem_cons_self),
      ih fun l' hl' => h l' (List.mem_cons_of_mem _ hl')]
    rfl

/-- The samples of a family are collected under its name. -/
theorem group_samples (name : List UInt8) (samples : List Sample) (ls : List Line) :
    group (samples.map (.sample name) ++ .blank :: ls) =
      (group ls).map fun r => (samples.map (fun s => (name, s)) ++ r.1, r.2) := by
  induction samples with
  | nil => cases h : group ls <;> simp [group, h]
  | cons s samples ih => cases h : group ls <;> simp [group, ih, h]

/-- The families are put together again from their lines. -/
theorem group_lines {families : List Family} (h : ∀ f ∈ families, f.WellFormed)
    (hnodup : (families.map Family.name).Nodup) :
    group (families.flatMap Family.lines) = some ([], families) := by
  induction families with
  | nil => rfl
  | cons f families ih =>
    obtain ⟨hnotMem, hnodup⟩ := List.nodup_cons.mp hnodup
    have hrest := ih (fun f' hf' => h f' (List.mem_cons_of_mem _ hf')) hnodup
    have hlabels := (h f List.mem_cons_self).distinct
    have hlines : (f :: families).flatMap Family.lines =
        .help f.name f.help :: .type f.name f.kind ::
          (f.samples.map (.sample f.name) ++ .blank :: families.flatMap Family.lines) := by
      simp [Family.lines]
    -- The blank line ends the samples, so those of the next family are not among them.
    rw [hlines, group, group_samples, hrest]
    simp only [Option.map_some, List.append_nil, List.map_map, Function.comp_def]
    rw [if_pos ⟨trivial, by simp, hlabels, hnotMem⟩]
    simp

/-- What is written from well-formed families with names of their own is read back as them. -/
theorem read_text {families : List Family} (h : ∀ f ∈ families, f.WellFormed)
    (hnodup : (families.map Family.name).Nodup) :
    read (families.flatMap Family.text) = some families := by
  have hlines : ∀ l ∈ families.flatMap Family.lines, l.WellFormed := by
    intro l hl
    obtain ⟨f, hf, hl⟩ := List.mem_flatMap.mp hl
    obtain ⟨hname, hhelp, hkind, hsamples, -⟩ := h f hf
    simp only [Family.lines, List.mem_cons, List.mem_append, List.mem_map, List.not_mem_nil,
      or_false] at hl
    -- The line is the help, the type, a sample, or the blank line at the end.
    obtain rfl | rfl | ⟨s, hs, rfl⟩ | rfl := hl
    · exact ⟨hname, hhelp⟩
    · exact ⟨hname, hkind⟩
    · exact ⟨hname, hsamples s hs⟩
    · trivial
  have htext : families.flatMap Family.text = linesText (families.flatMap Family.lines) := by
    simp only [linesText, List.flatMap_assoc]
    rfl
  rw [htext, read, splitLines_linesText hlines]
  simp only [mapM_readLine hlines, Option.bind_some, group_lines h hnodup]

/-! ## Values -/

/-- The family with a name. -/
def familyNamed (families : List Family) (name : List UInt8) : Option Family :=
  families.find? fun f => f.name = name

/-- The value of a family's only sample. -/
def valueNamed (families : List Family) (name : List UInt8) : Option (List UInt8) :=
  match familyNamed families name with
  | some f =>
    match f.samples with
    | [s] => some s.value
    | _ => none
  | none => none

/-- A family is found by its name. -/
theorem familyNamed_of_mem {families : List Family} (hnodup : (families.map Family.name).Nodup)
    {f : Family} (h : f ∈ families) : familyNamed families f.name = some f := by
  induction families with
  | nil => cases h
  | cons f' families ih =>
    obtain ⟨hnotMem, hnodup⟩ := List.nodup_cons.mp hnodup
    obtain rfl | h := List.mem_cons.mp h
    · simp [familyNamed]
    · -- The family is further on, and the names are distinct, so the first one is not taken for it.
      have hne : f'.name ≠ f.name := by
        intro heq
        exact hnotMem (heq ▸ List.mem_map_of_mem h)
      have := ih hnodup h
      unfold familyNamed at this ⊢
      rw [List.find?_cons_of_neg (by simpa using hne), this]

/-- A name that no family has finds none. -/
theorem familyNamed_eq_none {families : List Family} {name : List UInt8}
    (h : name ∉ families.map Family.name) : familyNamed families name = none := by
  refine List.find?_eq_none.mpr fun f hf => ?_
  simp only [decide_eq_true_eq]
  rintro rfl
  exact h (List.mem_map_of_mem hf)

end CacheServer.Exposition
