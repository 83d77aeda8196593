import CacheServer.Lib.Assoc
import Mathlib.Data.List.GetD
import Mathlib.Data.List.Sort
import Mathlib.Data.List.TakeWhile
import Mathlib.Data.Rat.Defs
import Mathlib.Tactic.FieldSimp
import Mathlib.Tactic.Linarith
import Mathlib.Tactic.Positivity
import Mathlib.Tactic.Ring

/-!
# Comparison sentences

The sentences of `render_landscape_report.py` that compare one engine with the others of its group:
`median`, `ranking`, `place`, and `comparison_sentence`, on rows whose fields hold exact numbers. A
sentence is the values that are written into it, before they are rounded.

A sentence says by how much the engine after the first is lower, and computes by how much the first
is higher. It looks for that engine in a ranking that may have only one.
`comparisonSentence_true_iff` says when a sentence is there and true.
-/

namespace CacheServer.Bench

/-- The exceptions that the renderer can raise. -/
inductive PyError
  | keyError
  | indexError
  | zeroDivisionError
deriving DecidableEq, Repr

/-- A row of `runs.csv`. A field is there when it is neither missing nor empty. -/
structure Row where
  /-- The case that was measured. -/
  case : String
  /-- The engine that it was measured with. -/
  engine : String
  /-- The numbers of the row by their columns. -/
  fields : List (String × ℚ)
deriving DecidableEq, Repr

/-- A group of the campaign. -/
structure Spec where
  /-- The cases of the group. -/
  cases : List String
  /-- The engines of the group. -/
  engines : List String
deriving DecidableEq, Repr

/-- `LABELS`. -/
def labels : List (String × String) :=
  [("grpc", "CacheLib gRPC DRAM"), ("grpc_nvm", "CacheLib gRPC + Navy"),
    ("redis", "Redis OSS"), ("valkey", "Valkey"), ("memcached", "Memcached DRAM"),
    ("memcached_extstore", "Memcached extstore"), ("dragonfly", "Dragonfly"),
    ("dragonfly_tiered", "Dragonfly tiered"), ("garnet", "Garnet"),
    ("garnet_storage", "Garnet storage tier"), ("kvrocks", "Kvrocks"),
    ("grpc_adapter", "gRPC + Python HTTP adapter"), ("nginx", "NGINX cache"),
    ("origin_direct", "Direct origin (reference)")]

/-- `LABELS[engine]`. -/
def label (engine : String) : Except PyError String :=
  match labels.lookup engine with
  | some text => .ok text
  | none => .error .keyError

/-- `statistics.median` of a list that is not empty. -/
def statisticsMedian (values : List ℚ) : ℚ :=
  let data := values.insertionSort (· ≤ ·)
  let n := data.length
  if n % 2 = 1 then data.getD (n / 2) 0
  else (data.getD (n / 2 - 1) 0 + data.getD (n / 2) 0) / 2

/-- `median`. -/
def median (rows : List Row) (key : String) : Option ℚ :=
  let values := rows.filterMap (·.fields.lookup key)
  if values.isEmpty then none else some (statisticsMedian values)

/-- The median of one engine in one case, as `ranking` computes it. -/
def engineMedian (rows : List Row) (case : String) (field : String) (engine : String) : Option ℚ :=
  median (rows.filter fun r => r.case = case ∧ r.engine = engine) field

/-- A place in the ranking is not after one with a smaller median. -/
def Ahead (p q : String × ℚ) : Prop := -p.2 ≤ -q.2

instance : DecidableRel Ahead := fun _ _ => inferInstanceAs (Decidable (_ ≤ _))

/-- `ranking`. The sort is stable. -/
def ranking (rows : List Row) (case : String) (engines : List String) (field : String) :
    List (String × ℚ) :=
  (engines.filterMap fun engine =>
    (engineMedian rows case field engine).map fun value => (engine, value)).insertionSort Ahead

/-- `place`. -/
def place (order : List (String × ℚ)) (engine : String) : Option ℕ :=
  let names := order.map (·.1)
  if engine ∈ names then some (names.idxOf engine + 1) else none

/-- The second half of a sentence. -/
inductive Rival
  /-- The next engine, its median, and the percentage that it is said to be lower by. -/
  | next (label : String) (second : ℚ) (percentage : ℚ)
  /-- The engine that led, its median, and its multiple of the subject's. -/
  | led (label : String) (best : ℚ) (multiple : ℚ)
deriving DecidableEq, Repr

/-- A sentence. -/
structure Sentence where
  /-- The subject's label. -/
  label : String
  /-- Its place in the ranking, from one. -/
  position : ℕ
  /-- The number of engines that are ranked. -/
  total : ℕ
  /-- The subject's median. -/
  own : ℚ
  /-- The unit of the medians. -/
  unit : String
  /-- Whom the subject is compared with. -/
  rival : Rival
deriving DecidableEq, Repr

/-- The division of Python. -/
def divide (a b : ℚ) : Except PyError ℚ :=
  if b = 0 then .error .zeroDivisionError else .ok (a / b)

/-- The second half of the sentence, for the subject at a position of the ranking. -/
def rivalOf (order : List (String × ℚ)) (position : ℕ) (own : ℚ) : Except PyError Rival :=
  if position = 1 then
    match order[1]? with
    | none => .error .indexError
    | some (runner, second) => do
      let text ← label runner
      let ratio ← divide own second
      return .next text second ((ratio - 1) * 100)
  else
    match order[0]? with
    | none => .error .indexError
    | some (bestEngine, best) => do
      let text ← label bestEngine
      let ratio ← divide best own
      return .led text best ratio

/-- `comparison_sentence`. There is no sentence when the subject is not in the ranking. -/
def comparisonSentence (rows : List Row) (spec : Spec) (subject field unit : String) :
    Except PyError (Option Sentence) :=
  match spec.cases[0]? with
  | none => .error .indexError
  | some case =>
    let order := ranking rows case spec.engines field
    match place order subject with
    | none => .ok none
    | some position =>
      -- `dict(order)` keeps the last entry of a name.
      match order.reverse.lookup subject with
      | none => .error .keyError
      | some own => do
        let text ← label subject
        let rival ← rivalOf order position own
        return some { label := text, position, total := order.length, own, unit, rival }

/-! ## What a sentence is to say -/

/-- The part of the ranking before the subject. -/
def rankedBefore (order : List (String × ℚ)) (subject : String) : List (String × ℚ) :=
  order.takeWhile (·.1 ≠ subject)

/-- The sentence says what the ranking shows: how many engines are before the subject, none of which
has a smaller median; and by how much the next one is lower, or by how much the first one leads. -/
structure Truthful (order : List (String × ℚ)) (subject : String) (own : ℚ) (s : Sentence) :
    Prop where
  /-- The median is the subject's own. -/
  own_eq : s.own = own
  /-- The place is the one after those before the subject. -/
  position_eq : s.position = 1 + (rankedBefore order subject).length
  /-- Those before it have no smaller median. -/
  before : ∀ p ∈ rankedBefore order subject, own ≤ p.2
  /-- The first one is compared with the second, as a fraction of its own median. -/
  next : s.position = 1 → ∃ runner second text, order[1]? = some (runner, second) ∧
    label runner = .ok text ∧ s.rival = .next text second (100 * (1 - second / own))
  /-- Any other is compared with the first one, as a multiple of its own median. -/
  led : s.position ≠ 1 → ∃ leader best text, order[0]? = some (leader, best) ∧
    label leader = .ok text ∧ s.rival = .led text best (best / own) ∧ 1 ≤ best / own

/-- The subject has a label, there is another engine with a median, and the first of the others has
a label and a median that is not smaller than the subject's. -/
def Matched (rows : List Row) (case : String) (engines : List String) (field subject : String)
    (own : ℚ) : Prop :=
  (∃ text, label subject = .ok text) ∧
    ∃ rival value, (ranking rows case (engines.erase subject) field)[0]? = some (rival, value) ∧
      (∃ text, label rival = .ok text) ∧ own ≤ value

/-! ## Sorted lists -/

/-- Erasing an element commutes with an insertion into a sorted list. -/
theorem orderedInsert_erase_comm {α : Type} [BEq α] [LawfulBEq α] {r : α → α → Prop}
    [DecidableRel r] [IsTrans α r] {a x : α} (hne : a ≠ x) {l : List α} (hl : l.Pairwise r) :
    (l.erase x).orderedInsert r a = (l.orderedInsert r a).erase x := by
  induction l with
  | nil => simp [hne]
  | cons b l ih =>
    have htail := (List.pairwise_cons.mp hl).2
    by_cases hb : b = x
    · subst hb
      rw [List.erase_cons_head]
      by_cases ha : r a b
      · -- Everything after `b` is after `a` too.
        rw [List.orderedInsert_cons_of_le r l ha, List.erase_cons_tail (by simpa using hne),
          List.erase_cons_head]
        cases l with
        | nil => rfl
        | cons c l =>
          have hbc : r b c := (List.pairwise_cons.mp hl).1 c List.mem_cons_self
          exact List.orderedInsert_cons_of_le r l (trans_of r ha hbc)
      · rw [List.orderedInsert_of_not_le r l ha, List.erase_cons_head]
    · rw [List.erase_cons_tail (by simpa using hb)]
      by_cases ha : r a b
      · rw [List.orderedInsert_cons_of_le r _ ha, List.orderedInsert_cons_of_le r l ha,
          List.erase_cons_tail (by simpa using hne), List.erase_cons_tail (by simpa using hb)]
      · rw [List.orderedInsert_of_not_le r _ ha, List.orderedInsert_of_not_le r l ha,
          List.erase_cons_tail (by simpa using hb), ih htail]

/-- Erasing an element commutes with the sort. -/
theorem insertionSort_erase {α : Type} [BEq α] [LawfulBEq α] {r : α → α → Prop} [DecidableRel r]
    [IsTrans α r] [Std.Total r] (l : List α) (x : α) :
    (l.erase x).insertionSort r = (l.insertionSort r).erase x := by
  induction l with
  | nil => rfl
  | cons a l ih =>
    rw [List.insertionSort_cons]
    by_cases ha : a = x
    · subst ha
      classical
      -- A total order is reflexive, which the lemma on erasing what was inserted asks for.
      have hrefl : Std.Refl r := ⟨fun b => (Std.Total.total b b).elim id id⟩
      have herase := List.erase_orderedInsert (r := r) a (l.insertionSort r)
      rw [List.erase_cons_head]
      convert herase.symm
    · rw [List.erase_cons_tail (by simpa using ha), List.insertionSort_cons, ih,
        orderedInsert_erase_comm ha (List.pairwise_insertionSort r l)]

/-! ## Medians -/

/-- The median of positive numbers is positive. -/
theorem statisticsMedian_pos {values : List ℚ} (hne : values ≠ []) (hpos : ∀ v ∈ values, 0 < v) :
    0 < statisticsMedian values := by
  have hlen : 0 < values.length := List.length_pos_iff.mpr hne
  have hget : ∀ i < values.length, 0 < (values.insertionSort (· ≤ ·)).getD i 0 := by
    intro i hi
    rw [← List.length_insertionSort (· ≤ ·) values] at hi
    rw [List.getD_eq_getElem _ _ hi]
    exact hpos _ ((List.mem_insertionSort (· ≤ ·)).mp (List.getElem_mem hi))
  simp only [statisticsMedian, List.length_insertionSort]
  split_ifs
  · -- The one in the middle.
    exact hget _ (by omega)
  · -- Half the sum of the two in the middle.
    have h₁ := hget (values.length / 2 - 1) (by omega)
    have h₂ := hget (values.length / 2) (by omega)
    linarith

/-- The median of an engine whose rows have positive fields is positive. -/
theorem engineMedian_pos {rows : List Row} {case field engine : String} {value : ℚ}
    (hpos : ∀ row ∈ rows, ∀ v, row.fields.lookup field = some v → 0 < v)
    (h : engineMedian rows case field engine = some value) : 0 < value := by
  simp only [engineMedian, median] at h
  split_ifs at h with hempty
  rw [← Option.some.inj h]
  refine statisticsMedian_pos (by simpa using hempty) ?_
  intro v hv
  obtain ⟨row, hrow, hv⟩ := List.mem_filterMap.mp hv
  exact hpos row (List.mem_of_mem_filter hrow) v hv

/-! ## The ranking -/

/-- Who is ahead has no smaller median. -/
theorem Ahead.le {p q : String × ℚ} (h : Ahead p q) : q.2 ≤ p.2 := neg_le_neg_iff.mp h

instance : IsTrans (String × ℚ) Ahead := ⟨fun _ _ _ hpq hqr => le_trans hpq hqr⟩

instance : Std.Total Ahead := ⟨fun p q => le_total (-p.2) (-q.2)⟩

section

variable {rows : List Row} {case field subject : String} {engines : List String} {own : ℚ}

/-- The ranking holds the engines with their medians. -/
theorem mem_ranking {engine : String} {value : ℚ} :
    (engine, value) ∈ ranking rows case engines field ↔
      engine ∈ engines ∧ engineMedian rows case field engine = some value := by
  simp only [ranking, List.mem_insertionSort, List.mem_filterMap, Option.map_eq_some_iff,
    Prod.mk.injEq]
  constructor
  · rintro ⟨e, he, v, hv, rfl, rfl⟩
    exact ⟨he, hv⟩
  · rintro ⟨he, hv⟩
    exact ⟨engine, he, value, hv, rfl, rfl⟩

/-- The ranking of the other engines is the ranking without the subject. -/
theorem ranking_erase (hmedian : engineMedian rows case field subject = some own) :
    ranking rows case (engines.erase subject) field =
      (ranking rows case engines field).erase (subject, own) := by
  unfold ranking
  rw [← insertionSort_erase]
  congr 1
  induction engines with
  | nil => rfl
  | cons engine engines ih =>
    -- The subject is in the ranking with its own median only.
    by_cases he : engine = subject
    · subst he
      simp [hmedian]
    · rw [List.erase_cons_tail (by simpa using he), List.filterMap_cons, List.filterMap_cons]
      cases engineMedian rows case field engine with
      | none => exact ih
      | some value =>
        have hne : (engine, value) ≠ (subject, own) := by simp [he]
        simp only [Option.map_some]
        rw [List.erase_cons_tail (by simpa using hne), ih]

end

/-- The place of an engine comes after those that are ranked before it. -/
theorem place_eq {order : List (String × ℚ)} {engine : String} {value : ℚ}
    (hmem : (engine, value) ∈ order) :
    place order engine = some (1 + (rankedBefore order engine).length) := by
  have hname : engine ∈ order.map (·.1) := List.mem_map.mpr ⟨_, hmem, rfl⟩
  simp only [place, if_pos hname, Option.some.injEq]
  clear hmem hname
  induction order with
  | nil => rfl
  | cons p order ih =>
    -- The place is where the name is first, and those before it have other names.
    by_cases hp : p.1 = engine
    · simp [rankedBefore, hp]
    · have hbefore : rankedBefore (p :: order) engine = p :: rankedBefore order engine := by
        simp [rankedBefore, hp]
      rw [List.map_cons, List.idxOf_cons_ne _ hp, hbefore, List.length_cons]
      omega

/-! ## Sentences -/

section

variable {rows : List Row} {spec : Spec} {case field subject unit : String} {own : ℚ}

/-- A label is there or it is not. -/
theorem label_cases (engine : String) :
    (∃ text, label engine = .ok text) ∨ label engine = .error .keyError := by
  unfold label
  split
  · exact .inl ⟨_, rfl⟩
  · exact .inr rfl

/-- The division is defined by a positive number. -/
theorem divide_of_pos (a : ℚ) {b : ℚ} (hb : 0 < b) : divide a b = .ok (a / b) :=
  if_neg hb.ne'

/-- The percentage of a sentence is the one that it is to be exactly when the medians are equal. -/
theorem percentage_eq_iff {own second : ℚ} (hown : 0 < own) (hsecond : 0 < second) :
    (own / second - 1) * 100 = 100 * (1 - second / own) ↔ own = second := by
  constructor
  · intro h
    have hsum : own / second + second / own = 2 := by linarith
    field_simp at hsum
    -- Two numbers whose quotients add up to two are equal.
    have hsq : (own - second)^2 = 0 := by linarith
    linarith [pow_eq_zero_iff (two_ne_zero) |>.mp hsq]
  · rintro rfl
    rw [div_self hown.ne']
    norm_num

/-- The sentence of a subject with a median. -/
theorem comparisonSentence_eq (hcase : spec.cases[0]? = some case)
    (hsubject : subject ∈ spec.engines)
    (hmedian : engineMedian rows case field subject = some own) :
    comparisonSentence rows spec subject field unit = (do
      let order := ranking rows case spec.engines field
      let position := 1 + (rankedBefore order subject).length
      let text ← label subject
      let rival ← rivalOf order position own
      return some { label := text, position, total := order.length, own, unit, rival }) := by
  have hmem : (subject, own) ∈ ranking rows case spec.engines field :=
    mem_ranking.mpr ⟨hsubject, hmedian⟩
  -- A name may be in the ranking more than once, though always with the same median.
  have hlookup : (ranking rows case spec.engines field).reverse.lookup subject = some own := by
    apply Assoc.lookup_eq_some (List.mem_reverse.mpr hmem)
    intro v hv
    have hv := (mem_ranking.mp (List.mem_reverse.mp hv)).2
    exact Option.some.inj (hv.symm.trans hmedian)
  simp only [comparisonSentence, hcase, place_eq hmem, hlookup]

/-- The half of a sentence about the second engine is true exactly when its median is the same. -/
theorem rivalOf_next {order : List (String × ℚ)} (hown : 0 < own) {runner text : String}
    {second : ℚ} (hsecond : order[1]? = some (runner, second)) (hpos : 0 < second)
    (htext : label runner = .ok text) :
    rivalOf order 1 own = .ok (.next text second (100 * (1 - second / own))) ↔ own = second := by
  have hrival : rivalOf order 1 own = .ok (.next text second ((own / second - 1) * 100)) := by
    simp only [rivalOf, hsecond, htext, divide_of_pos own hpos, if_true]
    rfl
  rw [hrival, ← percentage_eq_iff hown hpos]
  simp only [Except.ok.injEq, Rival.next.injEq, true_and]

/-- The half of a sentence about the first engine is there when it has a label. -/
theorem rivalOf_led {order : List (String × ℚ)} {position : ℕ} (hposition : position ≠ 1)
    (hown : 0 < own) {leader text : String} {best : ℚ} (hbest : order[0]? = some (leader, best))
    (htext : label leader = .ok text) :
    rivalOf order position own = .ok (.led text best (best / own)) := by
  simp only [rivalOf, hbest, htext, divide_of_pos best hown, if_neg hposition]
  rfl

/-- No engine that is ranked before the subject has a smaller median. -/
theorem own_le_of_rankedBefore {order : List (String × ℚ)} (hsorted : order.Pairwise Ahead)
    (hmem : (subject, own) ∈ order) {p : String × ℚ} (hp : p ∈ rankedBefore order subject) :
    own ≤ p.2 := by
  -- The subject is behind those that are before it, and the ranking is sorted.
  have hafter : (subject, own) ∈ order.dropWhile (·.1 ≠ subject) := by
    rw [← List.takeWhile_append_dropWhile (p := (·.1 ≠ subject)) (l := order)] at hmem
    refine (List.mem_append.mp hmem).resolve_left fun hbefore => ?_
    simpa using List.mem_takeWhile_imp hbefore
  rw [← List.takeWhile_append_dropWhile (p := (·.1 ≠ subject)) (l := order)] at hsorted
  exact ((List.pairwise_append.mp hsorted).2.2 p hp _ hafter).le

/-- The second half of the sentence, for the subject at a position, is there and true. -/
def RivalTrue (order : List (String × ℚ)) (position : ℕ) (own : ℚ) : Prop :=
  ∃ rival, rivalOf order position own = .ok rival ∧
    (position = 1 → ∃ runner second text, order[1]? = some (runner, second) ∧
      label runner = .ok text ∧ rival = .next text second (100 * (1 - second / own))) ∧
    (position ≠ 1 → ∃ leader best text, order[0]? = some (leader, best) ∧
      label leader = .ok text ∧ rival = .led text best (best / own) ∧ 1 ≤ best / own)

/-- A sentence is there and true exactly when the subject has a label and its second half is there
and true. -/
theorem exists_truthful_iff (hcase : spec.cases[0]? = some case)
    (hsubject : subject ∈ spec.engines)
    (hmedian : engineMedian rows case field subject = some own) :
    (∃ s, comparisonSentence rows spec subject field unit = .ok (some s) ∧
      Truthful (ranking rows case spec.engines field) subject own s) ↔
    (∃ text, label subject = .ok text) ∧
      RivalTrue (ranking rows case spec.engines field)
        (1 + (rankedBefore (ranking rows case spec.engines field) subject).length) own := by
  have hmem : (subject, own) ∈ ranking rows case spec.engines field :=
    mem_ranking.mpr ⟨hsubject, hmedian⟩
  have hsorted : (ranking rows case spec.engines field).Pairwise Ahead :=
    List.pairwise_insertionSort Ahead _
  rw [comparisonSentence_eq hcase hsubject hmedian, RivalTrue]
  obtain ⟨text, htext⟩ | herror := label_cases subject
  · cases hrival : rivalOf (ranking rows case spec.engines field)
      (1 + (rankedBefore (ranking rows case spec.engines field) subject).length) own with
    -- Without the second half there is no sentence.
    | error e => simp [htext, hrival, bind, Except.bind]
    | ok rival =>
      simp only [htext, hrival, bind, Except.bind, pure, Except.pure, Except.ok.injEq,
        Option.some.injEq, exists_eq_left', exists_eq', true_and]
      constructor
      · intro h
        exact ⟨h.next, h.led⟩
      · rintro ⟨hnext, hled⟩
        -- The place, the median, and those before it are right in any case.
        exact ⟨rfl, rfl, fun p hp => own_le_of_rankedBefore hsorted hmem hp, hnext, hled⟩
  · simp [herror, bind, Except.bind]

/-- Where the subject is first, the second half is true exactly when the second engine has a label
and a median that is not smaller. -/
theorem rivalTrue_first {rest : List (String × ℚ)}
    (hsorted : List.Pairwise Ahead ((subject, own) :: rest))
    (hpos : ∀ p ∈ (subject, own) :: rest, 0 < p.2) :
    RivalTrue ((subject, own) :: rest) 1 own ↔
      ∃ rival value, rest[0]? = some (rival, value) ∧ (∃ text, label rival = .ok text) ∧
        own ≤ value := by
  have hown : 0 < own := hpos _ List.mem_cons_self
  constructor
  · rintro ⟨rival, hrival, hnext, -⟩
    obtain ⟨runner, second, text, hsecond, htext, rfl⟩ := hnext rfl
    have hpos := hpos _ (List.mem_of_getElem? hsecond)
    have heq := (rivalOf_next hown hsecond hpos htext).mp hrival
    exact ⟨runner, second, by simpa using hsecond, ⟨text, htext⟩, heq.le⟩
  · rintro ⟨runner, second, hsecond, ⟨text, htext⟩, hle⟩
    have hmem := List.mem_of_getElem? hsecond
    -- The second one is not ahead, so it has the same median.
    have hahead : second ≤ own := ((List.pairwise_cons.mp hsorted).1 _ hmem).le
    have heq : own = second := hle.antisymm hahead
    have hpos := hpos _ (List.mem_cons_of_mem _ hmem)
    have hsecond : ((subject, own) :: rest)[1]? = some (runner, second) := by simpa using hsecond
    exact ⟨_, (rivalOf_next hown hsecond hpos htext).mpr heq,
      fun _ => ⟨runner, second, text, hsecond, htext, rfl⟩, fun h => absurd rfl h⟩

/-- Where another engine is first, the second half is true exactly when that one has a label. -/
theorem rivalTrue_led {leader : String} {best : ℚ} {rest : List (String × ℚ)} {position : ℕ}
    (hposition : position ≠ 1) (hown : 0 < own) (hle : own ≤ best) :
    RivalTrue ((leader, best) :: rest) position own ↔ ∃ text, label leader = .ok text := by
  constructor
  · rintro ⟨rival, -, -, hled⟩
    obtain ⟨e, v, text, hbest, htext, -⟩ := hled hposition
    obtain ⟨rfl, rfl⟩ : leader = e ∧ best = v := by simpa using hbest
    exact ⟨text, htext⟩
  · rintro ⟨text, htext⟩
    exact ⟨_, rivalOf_led hposition hown rfl htext, fun h => absurd h hposition,
      fun _ => ⟨leader, best, text, rfl, htext, rfl, (one_le_div hown).mpr hle⟩⟩

end

/-- For every group, every list of rows with positive rates, and every subject of the group with a
median: the sentence is there and true exactly when the subject has a label, and the first of the
other engines has a label and a median that is not smaller. -/
theorem comparisonSentence_true_iff {rows : List Row} {spec : Spec} {case subject field : String}
    (unit : String) {own : ℚ} (hrates : ∀ row ∈ rows, ∀ v, row.fields.lookup field = some v → 0 < v)
    (hcase : spec.cases[0]? = some case) (hsubject : subject ∈ spec.engines)
    (hmedian : engineMedian rows case field subject = some own) :
    (∃ s, comparisonSentence rows spec subject field unit = .ok (some s) ∧
      Truthful (ranking rows case spec.engines field) subject own s) ↔
    Matched rows case spec.engines field subject own := by
  have hmem : (subject, own) ∈ ranking rows case spec.engines field :=
    mem_ranking.mpr ⟨hsubject, hmedian⟩
  have hunique : ∀ v, (subject, v) ∈ ranking rows case spec.engines field → v = own := fun v hv =>
    Option.some.inj ((mem_ranking.mp hv).2.symm.trans hmedian)
  have hsorted : (ranking rows case spec.engines field).Pairwise Ahead :=
    List.pairwise_insertionSort Ahead _
  have hpos : ∀ p ∈ ranking rows case spec.engines field, 0 < p.2 := fun p hp =>
    engineMedian_pos hrates (mem_ranking.mp hp).2
  rw [exists_truthful_iff hcase hsubject hmedian, Matched, ranking_erase hmedian]
  refine and_congr_right fun _ => ?_
  generalize ranking rows case spec.engines field = order at *
  obtain _ | ⟨⟨e, v⟩, rest⟩ := order
  · simp at hmem
  by_cases he : e = subject
  · -- The subject is first, and its rival is the second engine.
    subst he
    obtain rfl := hunique v List.mem_cons_self
    have hbefore : rankedBefore ((e, v) :: rest) e = [] := by simp [rankedBefore]
    rw [hbefore, List.erase_cons_head]
    exact rivalTrue_first hsorted hpos
  · -- The first engine is the rival.
    have hbefore : rankedBefore ((e, v) :: rest) subject = (e, v) :: rankedBefore rest subject := by
      simp [rankedBefore, he]
    have hfirst : (e, v) ∈ rankedBefore ((e, v) :: rest) subject := by
      rw [hbefore]
      exact List.mem_cons_self
    have hle : own ≤ v := own_le_of_rankedBefore hsorted hmem hfirst
    have hne : (e, v) ≠ (subject, own) := by simp [he]
    have hposition : 1 + (rankedBefore ((e, v) :: rest) subject).length ≠ 1 := by
      rw [hbefore, List.length_cons]
      omega
    rw [rivalTrue_led hposition (hpos _ hmem) hle, List.erase_cons_tail (by simpa using hne)]
    simp [hle]

/-- Two engines, of which the second has half the rate of the first. -/
def halfRate : List Row :=
  [⟨"c", "grpc", [("objects_s", 200)]⟩, ⟨"c", "redis", [("objects_s", 100)]⟩]

/-- The engine with half the rate is said to be behind by a factor of two. -/
theorem comparisonSentence_true_iff_half :
    (∃ s, comparisonSentence halfRate ⟨["c"], ["grpc", "redis"]⟩ "redis" "objects_s" "objects/s" =
        .ok (some s) ∧
      Truthful (ranking halfRate "c" ["grpc", "redis"] "objects_s") "redis" 100 s) ↔
    Matched halfRate "c" ["grpc", "redis"] "objects_s" "redis" 100 := by
  refine comparisonSentence_true_iff "objects/s" ?_ rfl (by decide) (by decide)
  simp [halfRate]

/-- The engine with half the rate is said to be lower by 100%, and not by half; and an engine
without another has no sentence. -/
theorem comparisonSentence_untrue :
    comparisonSentence halfRate ⟨["c"], ["grpc", "redis"]⟩ "grpc" "objects_s" "objects/s" =
      .ok (some ⟨"CacheLib gRPC DRAM", 1, 2, 200, "objects/s", .next "Redis OSS" 100 100⟩) ∧
    (∀ s, comparisonSentence halfRate ⟨["c"], ["grpc", "redis"]⟩ "grpc" "objects_s" "objects/s" =
        .ok (some s) →
      ¬ Truthful (ranking halfRate "c" ["grpc", "redis"] "objects_s") "grpc" 200 s) ∧
    comparisonSentence halfRate ⟨["c"], ["grpc"]⟩ "grpc" "objects_s" "objects/s" =
      .error .indexError := by
  have heval : comparisonSentence halfRate ⟨["c"], ["grpc", "redis"]⟩ "grpc" "objects_s"
      "objects/s" =
      .ok (some ⟨"CacheLib gRPC DRAM", 1, 2, 200, "objects/s", .next "Redis OSS" 100 100⟩) := by
    decide +kernel
  refine ⟨heval, ?_, by decide⟩
  intro s hs htrue
  rw [heval] at hs
  obtain rfl := Option.some.inj (Except.ok.inj hs)
  obtain ⟨runner, second, text, -, -, hrival⟩ := htrue.next rfl
  simp only [Rival.next.injEq] at hrival
  obtain ⟨-, rfl, h⟩ := hrival
  norm_num at h

end CacheServer.Bench
