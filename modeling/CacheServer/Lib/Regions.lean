import Mathlib.Algebra.GroupWithZero.Nat
import Mathlib.Data.List.Basic
import Mathlib.Data.Option.Basic

/-!
# Bracketed regions

Lists of tokens with regions that are bracketed by an opening token and the first token after it
that closes it. Opening tokens come in classes, and a rewriter of some classes goes through the list
from left to right, gives each region of these classes a new body, and leaves everything else alone.

Where no region of one class overlaps one of another (`Laid`), to rewrite one set of classes after
another is to rewrite both at once (`rewrite_rewrite`). So rewriters commute, and are idempotent.
-/

namespace CacheServer.Regions

/-- The opening tokens with their classes, and the tokens that close them. -/
structure Brackets (τ κ : Type) where
  /-- The class of a token that opens. -/
  kind : τ → Option κ
  /-- The token that closes it. -/
  close : τ → τ
  /-- What closes does not open. -/
  kind_close : ∀ {t k}, kind t = some k → kind (close t) = none
  /-- Different tokens are closed by different ones. -/
  close_inj : ∀ {t t' k k'}, kind t = some k → kind t' = some k' → close t = close t' → t = t'

variable {τ κ : Type} [DecidableEq τ]

/-- The list before and after the first occurrence of a token. -/
def cut (e : τ) : List τ → Option (List τ × List τ)
  | [] => none
  | t :: ts => if t = e then some ([], ts) else (cut e ts).map fun p => (t :: p.1, p.2)

/-- There is nothing to cut at exactly when the token is not there. -/
theorem cut_eq_none_iff {e : τ} {ts : List τ} : cut e ts = none ↔ e ∉ ts := by
  induction ts with
  | nil => simp [cut]
  | cons t ts ih =>
    by_cases ht : t = e
    · simp [cut, ht]
    · simp [cut, ht, ih, Ne.symm ht]

/-- A cut is made at the first place where the token is. -/
theorem cut_eq_some_iff {e : τ} {ts body after : List τ} :
    cut e ts = some (body, after) ↔ ts = body ++ e :: after ∧ e ∉ body := by
  induction ts generalizing body with
  | nil => simp [cut]
  | cons t ts ih =>
    by_cases ht : t = e
    · subst ht
      rw [cut, if_pos rfl, Option.some.injEq, Prod.mk.injEq]
      constructor
      · rintro ⟨rfl, rfl⟩
        simp
      · rintro ⟨hts, hbody⟩
        cases body with
        | nil => simpa using hts
        | cons b body =>
          rw [List.cons_append, List.cons.injEq] at hts
          simp [hts.1] at hbody
    · rw [cut, if_neg ht, Option.map_eq_some_iff]
      constructor
      · rintro ⟨⟨body', after'⟩, hcut, hp⟩
        obtain ⟨rfl, rfl⟩ : t :: body' = body ∧ after' = after := by simpa using hp
        obtain ⟨rfl, hbody⟩ := ih.mp hcut
        simp [hbody, Ne.symm ht]
      · rintro ⟨hts, hbody⟩
        cases body with
        | nil =>
          rw [List.nil_append, List.cons.injEq] at hts
          exact absurd hts.1 ht
        | cons b body =>
          rw [List.cons_append, List.cons.injEq] at hts
          have hbody' : e ∉ body := fun hmem => hbody (List.mem_cons_of_mem _ hmem)
          refine ⟨(body, after), ih.mpr ⟨hts.2, hbody'⟩, ?_⟩
          simp [hts.1]

/-- The text with new texts in the places of the spans. -/
def splice {α : Type} : ℕ → List (ℕ × ℕ) → List (List α) → List α → List α
  | off, (start, stop) :: spans, new :: news, s =>
    s.take (start - off) ++ new ++ splice stop spans news (s.drop (stop - off))
  | _, _, _, s => s

/-- Spans behind a text leave the text as it is. -/
theorem splice_append {α : Type} {off : ℕ} {x : List α} {spans : List (ℕ × ℕ)}
    (h : ∀ p ∈ spans, off + x.length ≤ p.1 ∧ p.1 < p.2) (news : List (List α)) (s : List α) :
    splice off spans news (x ++ s) = x ++ splice (off + x.length) spans news s := by
  cases spans with
  | nil => simp [splice]
  | cons p spans =>
    obtain ⟨start, stop⟩ := p
    cases news with
    | nil => simp [splice]
    | cons new news =>
      have hp := h (start, stop) List.mem_cons_self
      simp only at hp
      rw [splice, splice, List.take_append, List.drop_append, List.take_of_length_le (by omega),
        List.drop_eq_nil_of_le (by omega), Nat.sub_sub, Nat.sub_sub]
      simp

/-- A part of a list that a rewriter goes through: a token that it leaves alone, or a region. -/
inductive Piece (τ : Type)
  | plain (t : τ)
  | region (opening : τ) (body : List τ)
deriving DecidableEq, Repr

/-- The opening token of a region. -/
def Piece.opening {τ : Type} : Piece τ → Option τ
  | .plain _ => none
  | .region t _ => some t

/-- A plain token opens no region. -/
@[simp]
theorem Piece.opening_plain {τ : Type} (t : τ) : (plain t).opening = none := rfl

/-- A region is opened by its first token. -/
@[simp]
theorem Piece.opening_region {τ : Type} (t : τ) (body : List τ) :
    (region t body).opening = some t := rfl

namespace Brackets

variable (B : Brackets τ κ)

/-- The region of one of the classes at the head of the list: its body, and what is after it. -/
def start (P : κ → Bool) : List τ → Option (List τ × List τ)
  | [] => none
  | t :: ts => if (B.kind t).any P then cut (B.close t) ts else none

variable {B} in
/-- What starts a region is a token of the class, closed by the first token that closes it. -/
theorem start_eq_some {P : κ → Bool} {t : τ} {ts body after : List τ}
    (h : B.start P (t :: ts) = some (body, after)) :
    ∃ k, B.kind t = some k ∧ P k = true ∧ ts = body ++ B.close t :: after ∧
      B.close t ∉ body := by
  rw [start] at h
  split_ifs at h with hany
  obtain ⟨k, hkind, hsel⟩ := (Option.any_eq_true _ _).mp hany
  exact ⟨k, hkind, hsel, cut_eq_some_iff.mp h⟩

variable {B} in
/-- What is left behind a region is shorter. -/
theorem length_of_start {P : κ → Bool} {t : τ} {ts body after : List τ}
    (h : B.start P (t :: ts) = some (body, after)) : after.length < ts.length := by
  obtain ⟨k, -, -, rfl, -⟩ := start_eq_some h
  simp only [List.length_append, List.length_cons]
  omega

/-- The parts of a list. -/
def scan (P : κ → Bool) : List τ → List (Piece τ)
  | [] => []
  | t :: ts =>
    match _h : B.start P (t :: ts) with
    | some (body, after) => .region t body :: scan P after
    | none => .plain t :: scan P ts
termination_by ts => ts.length
decreasing_by
  · have := length_of_start ‹_›
    simp only [List.length_cons]
    omega
  · simp

/-- The tokens of a part, with the body of a region passed through a function. -/
def render (fill : τ → List τ → List τ) : Piece τ → List τ
  | .plain t => [t]
  | .region t body => t :: fill t body ++ [B.close t]

/-- Rewrites the regions of some classes. -/
def rewrite (fill : τ → List τ → List τ) (P : κ → Bool) (ts : List τ) : List τ :=
  (B.scan P ts).flatMap (B.render fill)

/-- The opening tokens of the regions. -/
def opened (P : κ → Bool) (ts : List τ) : List τ := (B.scan P ts).filterMap Piece.opening

variable {B}

/-! ## Equations -/

section

variable {P : κ → Bool} {fill : τ → List τ → List τ}

/-- Nothing has no regions. -/
@[simp]
theorem scan_nil : B.scan P [] = [] := by rw [scan]

/-- A token that opens no region of the classes is left alone. -/
theorem scan_plain {t : τ} {ts : List τ}
    (h : ∀ k, B.kind t = some k → P k = true → B.close t ∉ ts) :
    B.scan P (t :: ts) = .plain t :: B.scan P ts := by
  have hstart : B.start P (t :: ts) = none := by
    rw [start]
    split_ifs with hany
    · obtain ⟨k, hk, hsel⟩ := (Option.any_eq_true _ _).mp hany
      exact cut_eq_none_iff.mpr (h k hk hsel)
    · rfl
  rw [scan]
  split
  · simp_all
  · rfl

/-- A region of the classes. -/
theorem scan_region {t : τ} {k : κ} (hkind : B.kind t = some k) (hsel : P k = true)
    {body : List τ} (hbody : B.close t ∉ body) (after : List τ) :
    B.scan P (t :: (body ++ B.close t :: after)) = .region t body :: B.scan P after := by
  have hstart : B.start P (t :: (body ++ B.close t :: after)) = some (body, after) := by
    rw [start, if_pos (by simp [hkind, hsel])]
    exact cut_eq_some_iff.mpr ⟨rfl, hbody⟩
  rw [scan]
  split
  · simp_all
  · simp_all

/-- A part of the list where no region of the classes starts is left alone. -/
theorem scan_append {ts rest : List τ}
    (h : ∀ u t v, ts = u ++ t :: v → ∀ k, B.kind t = some k → P k = true →
      B.close t ∉ v ++ rest) :
    B.scan P (ts ++ rest) = ts.map .plain ++ B.scan P rest := by
  induction ts with
  | nil => rfl
  | cons t ts ih =>
    rw [List.cons_append, scan_plain (h [] t ts rfl), ih, List.map_cons, List.cons_append]
    -- A region of the rest of the part would be one of the whole part.
    intro u t' v hts
    exact h (t :: u) t' v (by rw [hts, List.cons_append])

end

/-! ## Inert tokens -/

/-- A token that neither opens nor closes a region. -/
def Inert (B : Brackets τ κ) (x : τ) : Prop :=
  B.kind x = none ∧ ∀ t k, B.kind t = some k → x ≠ B.close t

/-- A filler: it puts inert tokens only into a body, and does so once and for all. -/
structure Filler (B : Brackets τ κ) where
  /-- The new body of a region. -/
  fill : τ → List τ → List τ
  /-- It has inert tokens only. -/
  inert : ∀ t body, ∀ x ∈ fill t body, B.Inert x
  /-- It does not change when it is filled again. -/
  idem : ∀ t body, fill t (fill t body) = fill t body

section

variable {F : Filler B} {P : κ → Bool}

/-- Nothing is rewritten to nothing. -/
@[simp]
theorem rewrite_nil : B.rewrite F.fill P [] = [] := by simp [rewrite]

/-- A token that starts no region stays where it is. -/
theorem rewrite_plain {t : τ} {ts : List τ}
    (h : ∀ k, B.kind t = some k → P k = true → B.close t ∉ ts) :
    B.rewrite F.fill P (t :: ts) = t :: B.rewrite F.fill P ts := by
  rw [rewrite, scan_plain h]
  rfl

/-- A rewriter of no classes leaves everything alone. -/
theorem rewrite_none (h : ∀ k, P k = false) (ts : List τ) : B.rewrite F.fill P ts = ts := by
  induction ts with
  | nil => exact rewrite_nil
  | cons t ts ih =>
    rw [rewrite_plain fun k _ hsel => ?_, ih]
    simp [h k] at hsel

/-- The first token stays. -/
theorem exists_rewrite_cons (t : τ) (ts : List τ) :
    ∃ rest, B.rewrite F.fill P (t :: ts) = t :: rest := by
  rw [rewrite, scan]
  split
  · exact ⟨_, rfl⟩
  · exact ⟨_, rfl⟩

/-- The parts of a list are all there is to it. -/
theorem flatMap_scan (ts : List τ) :
    (B.scan P ts).flatMap (B.render fun _ body => body) = ts := by
  fun_induction B.scan P ts with
  | case1 => rfl
  | case2 t ts body after hstart ih =>
    obtain ⟨k, -, -, rfl, -⟩ := start_eq_some hstart
    simp [render, ih]
  | case3 t ts hstart ih => simp [render, ih]

/-- Regions are opened by tokens of the classes. -/
theorem kind_of_mem_scan {t : τ} {body ts : List τ} (h : .region t body ∈ B.scan P ts) :
    ∃ k, B.kind t = some k ∧ P k = true := by
  fun_induction B.scan P ts with
  | case1 => cases h
  | case2 t' ts body' after hstart ih =>
    obtain ⟨k, hkind, hsel, -⟩ := start_eq_some hstart
    obtain h | h := List.mem_cons.mp h
    · cases h
      exact ⟨k, hkind, hsel⟩
    · exact ih h
  | case3 t' ts hstart ih =>
    obtain h | h := List.mem_cons.mp h
    · cases h
    · exact ih h

/-- A rewriter adds inert tokens only. -/
theorem mem_of_mem_rewrite {ts : List τ} {x : τ} (h : x ∈ B.rewrite F.fill P ts) :
    x ∈ ts ∨ B.Inert x := by
  obtain ⟨piece, hpiece, hx⟩ := List.mem_flatMap.mp h
  have hmem : ∀ y ∈ B.render (fun _ body => body) piece, y ∈ ts := by
    intro y hy
    rw [← flatMap_scan (B := B) (P := P) ts]
    exact List.mem_flatMap.mpr ⟨piece, hpiece, hy⟩
  -- A plain token and the two ends of a region were there before. The new body is inert.
  cases piece with
  | plain t => exact .inl (hmem x hx)
  | region t body =>
    simp only [render, List.cons_append, List.mem_cons, List.mem_append, List.not_mem_nil,
      or_false] at hx hmem
    obtain hx | hx | hx := hx
    · exact .inl (hmem x (.inl hx))
    · exact .inr (F.inert t body x hx)
    · exact .inl (hmem x (.inr (.inr hx)))

/-- A rewriter adds no token that closes a region. -/
theorem close_mem_of_mem_rewrite {ts : List τ} {t : τ} {k : κ} (hkind : B.kind t = some k)
    (h : B.close t ∈ B.rewrite F.fill P ts) : B.close t ∈ ts := by
  obtain h | hinert := mem_of_mem_rewrite h
  · exact h
  · exact absurd rfl (hinert.2 t k hkind)

end

/-! ## Regions that do not overlap -/

/-- No region of a class other than the given one starts in the body. -/
def Clear (B : Brackets τ κ) (k : κ) (body rest : List τ) : Prop :=
  ∀ u x v, body = u ++ x :: v → ∀ k', B.kind x = some k' → k' ≠ k → B.close x ∉ v ++ rest

/-- Regions of different classes do not overlap. -/
inductive Laid (B : Brackets τ κ) : List τ → Prop
  | nil : Laid B []
  | plain {t ts} : (∀ k, B.kind t = some k → B.close t ∉ ts) → Laid B ts → Laid B (t :: ts)
  | region {t k body after} : B.kind t = some k → B.close t ∉ body →
    Clear B k body (B.close t :: after) → Laid B after → Laid B (t :: (body ++ B.close t :: after))

omit [DecidableEq τ] in
/-- A body stays clear when what is after it closes no more regions. -/
theorem Clear.mono {k : κ} {body rest rest' : List τ} (h : B.Clear k body rest)
    (hrest : ∀ t k, B.kind t = some k → B.close t ∈ rest' → B.close t ∈ rest) :
    B.Clear k body rest' := by
  intro u x v hbody k' hkind hne hmem
  refine h u x v hbody k' hkind hne (List.mem_append.mpr ?_)
  exact (List.mem_append.mp hmem).imp id (hrest x k' hkind)

omit [DecidableEq τ] in
/-- Inert tokens are clear. -/
theorem clear_of_inert {k : κ} {body : List τ} (h : ∀ x ∈ body, B.Inert x) (rest : List τ) :
    B.Clear k body rest := by
  intro u x v hbody k' hkind
  -- An inert token opens nothing.
  have hinert := h x (by simp [hbody])
  simp [hinert.1] at hkind

section

variable {F : Filler B} {P : κ → Bool} {t : τ} {k : κ} {body after : List τ}

/-- A region whose body is clear is a region of the rewriter, or left alone. -/
theorem scan_bracket (hkind : B.kind t = some k) (hbody : B.close t ∉ body)
    (hclear : B.Clear k body (B.close t :: after)) :
    B.scan P (t :: (body ++ B.close t :: after)) =
      (if P k then [.region t body] else (t :: (body ++ [B.close t])).map .plain) ++
        B.scan P after := by
  -- Of the classes, it is a region. Otherwise its opening, its body, and its end are plain tokens.
  split_ifs with hsel
  · exact scan_region hkind hsel hbody after
  · have hplain : B.scan P (B.close t :: after) = .plain (B.close t) :: B.scan P after :=
      scan_plain fun k' hk' => by simp [B.kind_close hkind] at hk'
    have happend : B.scan P (body ++ B.close t :: after) =
        body.map .plain ++ B.scan P (B.close t :: after) := by
      refine scan_append fun u x v hx k' hk' hsel' => hclear u x v hx k' hk' ?_
      rintro rfl
      exact hsel hsel'
    rw [scan_plain fun k' hk' hsel' => ?_, happend, hplain]
    · simp
    · obtain rfl : k = k' := Option.some.inj (hkind.symm.trans hk')
      exact absurd hsel' hsel

/-- A region of the class has its body rewritten, and any other one keeps it. -/
theorem rewrite_bracket (hkind : B.kind t = some k) (hbody : B.close t ∉ body)
    (hclear : B.Clear k body (B.close t :: after)) :
    B.rewrite F.fill P (t :: (body ++ B.close t :: after)) =
      t :: ((if P k then F.fill t body else body) ++
        B.close t :: B.rewrite F.fill P after) := by
  rw [rewrite, scan_bracket hkind hbody hclear]
  split_ifs
  · simp [render, rewrite]
  · simp [render, rewrite, List.flatMap_map]

/-- A region of the class counts as opened, and any other one does not. -/
theorem opened_bracket (hkind : B.kind t = some k) (hbody : B.close t ∉ body)
    (hclear : B.Clear k body (B.close t :: after)) :
    B.opened P (t :: (body ++ B.close t :: after)) =
      (if P k then [t] else []) ++ B.opened P after := by
  rw [opened, scan_bracket hkind hbody hclear]
  split_ifs
  · simp [opened]
  · simp [opened, List.filterMap_cons, List.filterMap_map, Function.comp_def]

/-- The body that a rewriter leaves in a region is clear, and has no token that closes it. -/
theorem rewritten_bracket (hkind : B.kind t = some k) (hbody : B.close t ∉ body)
    (hclear : B.Clear k body (B.close t :: after)) :
    B.close t ∉ (if P k then F.fill t body else body) ∧
      B.Clear k (if P k then F.fill t body else body)
        (B.close t :: B.rewrite F.fill P after) := by
  -- A new body is inert. An old one is clear of what follows, which closes no more than before.
  split_ifs
  · exact ⟨fun hmem => (F.inert t body _ hmem).2 t k hkind rfl, clear_of_inert (F.inert t body) _⟩
  · refine ⟨hbody, hclear.mono fun x k' hkind' hmem => ?_⟩
    rw [List.mem_cons] at hmem ⊢
    exact hmem.imp id (close_mem_of_mem_rewrite hkind')

end

variable {F : Filler B} {P Q : κ → Bool} {ts : List τ}

/-- To rewrite one set of classes after another is to rewrite both at once. -/
theorem Laid.rewrite_rewrite (h : B.Laid ts) :
    B.rewrite F.fill P (B.rewrite F.fill Q ts) = B.rewrite F.fill (fun k => P k || Q k) ts := by
  induction h with
  | nil => simp
  | plain hplain _ ih =>
    rw [rewrite_plain fun k hkind _ => hplain k hkind,
      rewrite_plain fun k hkind _ => hplain k hkind, rewrite_plain fun k hkind _ hmem => ?_, ih]
    exact hplain k hkind (close_mem_of_mem_rewrite hkind hmem)
  | @region t k body after hkind hbody hclear _ ih =>
    obtain ⟨hbody', hclear'⟩ := rewritten_bracket (F := F) (P := Q) hkind hbody hclear
    rw [rewrite_bracket hkind hbody hclear, rewrite_bracket hkind hbody hclear,
      rewrite_bracket hkind hbody' hclear', ih]
    -- Filled by neither, by one, or by both: the second time changes nothing.
    cases P k <;> cases Q k <;> simp [F.idem]

/-- A rewriter leaves the regions of the other classes, and its own, where they are. -/
theorem Laid.opened_rewrite (h : B.Laid ts) :
    B.opened P (B.rewrite F.fill Q ts) = B.opened P ts := by
  induction h with
  | nil => simp
  | plain hplain _ ih =>
    rw [rewrite_plain fun k hkind _ => hplain k hkind, opened, opened,
      scan_plain fun k hkind _ => hplain k hkind, scan_plain fun k hkind _ hmem => ?_]
    · simpa [opened, List.filterMap_cons] using ih
    · -- What would close it is still not there.
      exact hplain k hkind (close_mem_of_mem_rewrite hkind hmem)
  | @region t k body after hkind hbody hclear _ ih =>
    obtain ⟨hbody', hclear'⟩ := rewritten_bracket (F := F) (P := Q) hkind hbody hclear
    rw [rewrite_bracket hkind hbody hclear, opened_bracket hkind hbody hclear,
      opened_bracket hkind hbody' hclear', ih]

/-! ## Brackets that occur once -/

/-- Neither the opening token nor the one that closes it is in the list. -/
def Absent (B : Brackets τ κ) (b : τ) (ts : List τ) : Prop := b ∉ ts ∧ B.close b ∉ ts

/-- The opening token and the one that closes it are in the list once, in this order. -/
def Once (B : Brackets τ κ) (b : τ) (ts : List τ) : Prop :=
  ∃ pre mid post, ts = pre ++ b :: (mid ++ B.close b :: post) ∧
    B.Absent b pre ∧ B.Absent b mid ∧ B.Absent b post

section

variable {b : τ} {k : κ}

omit [DecidableEq τ] in
/-- What is absent from two lists is absent from both together. -/
theorem absent_append {l l' : List τ} :
    B.Absent b (l ++ l') ↔ B.Absent b l ∧ B.Absent b l' := by
  simp only [Absent, List.mem_append]
  tauto

omit [DecidableEq τ] in
/-- What is absent from one list, and there once in another, is there once in both together. -/
theorem Once.append_left {l ts : List τ} (hl : B.Absent b l) (h : B.Once b ts) :
    B.Once b (l ++ ts) := by
  obtain ⟨pre, mid, post, rfl, hpre, hmid, hpost⟩ := h
  exact ⟨l ++ pre, mid, post, by simp, absent_append.mpr ⟨hl, hpre⟩, hmid, hpost⟩

/-- What is after the opening token. -/
theorem Once.eq_of_notMem {l rest : List τ} (h : B.Once b (l ++ b :: rest)) (hl : b ∉ l) :
    ∃ mid post, rest = mid ++ B.close b :: post ∧
      B.Absent b l ∧ B.Absent b mid ∧ B.Absent b post := by
  obtain ⟨pre, mid, post, hts, hpre, hmid, hpost⟩ := h
  -- Both splits are the one at the first opening token.
  have hcut : cut b (l ++ b :: rest) = some (pre, mid ++ B.close b :: post) :=
    cut_eq_some_iff.mpr ⟨hts, hpre.1⟩
  rw [cut_eq_some_iff.mpr ⟨rfl, hl⟩, Option.some.injEq, Prod.mk.injEq] at hcut
  obtain ⟨rfl, rfl⟩ := hcut
  exact ⟨mid, post, rfl, hpre, hmid, hpost⟩

/-- Where a part does not have the opening token, the rest has the brackets. -/
theorem Once.of_append {l ts : List τ} (h : B.Once b (l ++ ts)) (hl : b ∉ l) :
    B.Absent b l ∧ B.Once b ts := by
  have hmem : b ∈ ts := by
    obtain ⟨pre, mid, post, hts, -⟩ := h
    have hb : b ∈ l ++ ts := by simp [hts]
    exact (List.mem_append.mp hb).resolve_left hl
  obtain ⟨⟨u, v⟩, hcut⟩ := Option.ne_none_iff_exists'.mp (mt cut_eq_none_iff.mp (not_not.mpr hmem))
  obtain ⟨rfl, hu⟩ := cut_eq_some_iff.mp hcut
  rw [← List.append_assoc] at h
  obtain ⟨mid, post, rfl, hlu, hmid, hpost⟩ := h.eq_of_notMem (by simp [hl, hu])
  obtain ⟨hl, hu⟩ := absent_append.mp hlu
  exact ⟨hl, u, mid, post, rfl, hu, hmid, hpost⟩

/-- A rewriter does not add brackets. -/
theorem Absent.rewrite (hkind : B.kind b = some k) (h : B.Absent b ts) :
    B.Absent b (B.rewrite F.fill Q ts) := by
  refine ⟨fun hmem => ?_, fun hmem => h.2 (close_mem_of_mem_rewrite hkind hmem)⟩
  obtain hmem | hinert := mem_of_mem_rewrite hmem
  · exact h.1 hmem
  · simp [hinert.1] at hkind

omit [DecidableEq τ] in
/-- The new body of a region has no brackets of another. -/
theorem Absent.rewritten (hkind : B.kind b = some k) {body : List τ} (h : B.Absent b body) (t : τ)
    (again : Bool) : B.Absent b (if again then F.fill t body else body) := by
  split_ifs
  · refine ⟨fun hmem => ?_, fun hmem => (F.inert t body _ hmem).2 b k hkind rfl⟩
    simp [(F.inert t body _ hmem).1] at hkind
  · exact h

/-- Brackets that occur once, and are all there is of their class, still do after a rewriter. -/
theorem Laid.once_rewrite (h : B.Laid ts) (hkind : B.kind b = some k)
    (hsole : ∀ t, B.kind t = some k → t = b) (honce : B.Once b ts) :
    B.Once b (B.rewrite F.fill Q ts) := by
  induction h with
  | nil =>
    obtain ⟨pre, mid, post, hts, -⟩ := honce
    simp at hts
  | @plain t ts hplain _ ih =>
    rw [rewrite_plain fun k hkind _ => hplain k hkind]
    -- A plain token is not the opening one, whose end is further on.
    by_cases ht : t = b
    · subst ht
      obtain ⟨mid, post, rfl, -⟩ := Once.eq_of_notMem (l := []) honce (by simp)
      exact absurd (by simp) (hplain k hkind)
    · obtain ⟨habsent, honce⟩ := Once.of_append (l := [t]) honce (by simp [Ne.symm ht])
      exact (ih honce).append_left habsent
  | @region t kt body after hkt hbody hclear _ ih =>
    rw [rewrite_bracket hkt hbody hclear]
    by_cases ht : t = b
    · subst ht
      obtain ⟨mid, post, hrest, -, hmid, hpost⟩ := Once.eq_of_notMem (l := []) honce (by simp)
      have hcut := cut_eq_some_iff.mpr ⟨hrest, hmid.2⟩
      rw [cut_eq_some_iff.mpr ⟨rfl, hbody⟩, Option.some.injEq, Prod.mk.injEq] at hcut
      obtain ⟨rfl, rfl⟩ := hcut
      exact ⟨[], _, _, rfl, by simp [Absent], hmid.rewritten hkind t _, hpost.rewrite hkind⟩
    · have hbody' : b ∉ body := by
        intro hmem
        obtain ⟨⟨u, v⟩, hcut⟩ :=
          Option.ne_none_iff_exists'.mp (mt cut_eq_none_iff.mp (not_not.mpr hmem))
        obtain ⟨rfl, hu⟩ := cut_eq_some_iff.mp hcut
        -- The opening token in the body would start a region of another class there.
        have hts : t :: (u ++ b :: v ++ B.close t :: after) =
            (t :: u) ++ b :: (v ++ B.close t :: after) := by simp
        rw [hts] at honce
        obtain ⟨mid, post, hrest, -⟩ := honce.eq_of_notMem (by simp [Ne.symm ht, hu])
        refine hclear u b v rfl k hkind ?_ (by simp [hrest])
        rintro rfl
        exact ht (hsole t hkt)
      have hclose : b ≠ B.close t := by
        rintro rfl
        simp [B.kind_close hkt] at hkind
      have hts : t :: (body ++ B.close t :: after) = [t] ++ body ++ [B.close t] ++ after := by simp
      rw [hts] at honce
      obtain ⟨habsent, honce⟩ := honce.of_append (by simp [Ne.symm ht, hbody', hclose])
      obtain ⟨habsent, hlast⟩ := absent_append.mp habsent
      obtain ⟨hfirst, hmid⟩ := absent_append.mp habsent
      have hnew := absent_append.mpr ⟨absent_append.mpr ⟨hfirst,
        hmid.rewritten (F := F) hkind t (Q kt)⟩, hlast⟩
      simpa using (ih honce).append_left hnew

end

/-! ## Positions -/

section

variable {w : τ → ℕ}

/-- Where the regions among the parts start and end, when tokens have a width. -/
def spans (B : Brackets τ κ) (w : τ → ℕ) : ℕ → List (Piece τ) → List (ℕ × ℕ)
  | _, [] => []
  | off, .plain t :: pieces => spans B w (off + w t) pieces
  | off, .region t body :: pieces =>
    let stop := off + w t + (body.map w).sum + w (B.close t)
    (off, stop) :: spans B w stop pieces

omit [DecidableEq τ] in
/-- Regions are where the list is, and have a width. -/
theorem le_of_mem_spans (hw : ∀ t, 0 < w t) {off : ℕ} {pieces : List (Piece τ)} {p : ℕ × ℕ}
    (h : p ∈ B.spans w off pieces) : off ≤ p.1 ∧ p.1 < p.2 := by
  induction pieces generalizing off with
  | nil => simp [spans] at h
  | cons piece pieces ih =>
    cases piece with
    | plain t =>
      have := ih h
      omega
    | region t body =>
      -- The region itself has at least the width of its opening token.
      have ht := hw t
      rw [spans, List.mem_cons] at h
      obtain rfl | h := h
      · simp only
        omega
      · have := ih h
        omega

omit [DecidableEq τ] in
/-- Tokens that are left alone move the regions after them. -/
theorem spans_map_plain (off : ℕ) (ts : List τ) (pieces : List (Piece τ)) :
    B.spans w off (ts.map .plain ++ pieces) = B.spans w (off + (ts.map w).sum) pieces := by
  induction ts generalizing off with
  | nil => simp
  | cons t ts ih =>
    rw [List.map_cons, List.cons_append, spans, ih]
    simp [Nat.add_assoc]

/-- Where every region of the classes is after a part of the list, none starts in that part. -/
theorem clear_of_spans (hw : ∀ t, 0 < w t) {P : κ → Bool} {off : ℕ} {u v : List τ}
    (h : ∀ q ∈ B.spans w off (B.scan P (u ++ v)), off + (u.map w).sum ≤ q.1) :
    ∀ u₁ x u₂, u = u₁ ++ x :: u₂ → ∀ k, B.kind x = some k → P k = true →
      B.close x ∉ u₂ ++ v := by
  induction u generalizing off with
  | nil => simp
  | cons t u ih =>
    have hwt := hw t
    -- A region that starts here starts before the end of the part.
    have hplain : ∀ k, B.kind t = some k → P k = true → B.close t ∉ u ++ v := by
      intro k hkind hsel hmem
      obtain ⟨⟨body, after⟩, hcut⟩ :=
        Option.ne_none_iff_exists'.mp (mt cut_eq_none_iff.mp (not_not.mpr hmem))
      obtain ⟨huv, hbody⟩ := cut_eq_some_iff.mp hcut
      rw [List.cons_append, huv, scan_region hkind hsel hbody, spans] at h
      have := h _ List.mem_cons_self
      simp only [List.map_cons, List.sum_cons] at this
      omega
    intro u₁ x u₂ hu k hkind hsel
    cases u₁ with
    | nil =>
      obtain ⟨rfl, rfl⟩ : t = x ∧ u = u₂ := by simpa using hu
      exact hplain k hkind hsel
    | cons t' u₁ =>
      obtain ⟨rfl, rfl⟩ : t = t' ∧ u = u₁ ++ x :: u₂ := by simpa using hu
      refine @ih (off + w t) (fun q hq => ?_) u₁ x u₂ rfl k hkind hsel
      rw [List.cons_append, scan_plain hplain, spans] at h
      have := h q hq
      simp only [List.map_cons, List.sum_cons] at this
      omega

/-- Where the regions of different classes are at disjoint positions, they do not overlap. -/
theorem laid_of_spans [DecidableEq κ] (hw : ∀ t, 0 < w t) (off : ℕ) (ts : List τ)
    (h : ∀ k k', k ≠ k' → ∀ p ∈ B.spans w off (B.scan (· = k) ts),
      ∀ q ∈ B.spans w off (B.scan (· = k') ts), p.2 ≤ q.1 ∨ q.2 ≤ p.1) : B.Laid ts := by
  induction hlen : ts.length using Nat.strongRecOn generalizing off ts with
  | ind n ih =>
    obtain _ | ⟨t, ts⟩ := ts
    · exact .nil
    simp only [List.length_cons] at hlen
    by_cases hregion : ∃ k, B.kind t = some k ∧ B.close t ∈ ts
    · obtain ⟨k, hkind, hmem⟩ := hregion
      obtain ⟨⟨body, after⟩, hcut⟩ :=
        Option.ne_none_iff_exists'.mp (mt cut_eq_none_iff.mp (not_not.mpr hmem))
      obtain ⟨rfl, hbody⟩ := cut_eq_some_iff.mp hcut
      -- The regions of the other classes are after this one.
      have hother : ∀ k' ≠ k, ∀ q ∈ B.spans w off (B.scan (· = k')
          ((t :: (body ++ [B.close t])) ++ after)),
          off + ((t :: (body ++ [B.close t])).map w).sum ≤ q.1 := by
        intro k' hne q hq
        have hpos := le_of_mem_spans hw hq
        have hdisj := h k k' hne.symm _ (by
          rw [scan_region hkind (by simp) hbody, spans]
          exact List.mem_cons_self) q (by simpa using hq)
        simp only [List.map_cons, List.map_append, List.sum_cons, List.sum_append, List.map_nil,
          List.sum_nil] at hdisj ⊢
        omega
      have hclear : B.Clear k body (B.close t :: after) := by
        intro u x v hu k' hx hne
        have := clear_of_spans hw (hother k' hne) (t :: u) x (v ++ [B.close t]) (by simp [hu]) k' hx
          (by simp)
        simpa using this
      have hafter : ∀ k', ∀ p ∈ B.spans w
          (off + w t + (body.map w).sum + w (B.close t)) (B.scan (· = k') after),
          p ∈ B.spans w off (B.scan (· = k') (t :: (body ++ B.close t :: after))) := by
        intro k' p hp
        rw [scan_bracket hkind hbody hclear]
        split_ifs
        · exact List.mem_cons_of_mem _ hp
        · rw [spans_map_plain]
          simpa [Nat.add_assoc] using hp
      refine .region hkind hbody hclear
        (ih _ ?_ (off + w t + (body.map w).sum + w (B.close t)) after ?_ rfl)
      · simp only [List.length_append, List.length_cons] at hlen
        omega
      · intro k₁ k₂ hne p hp q hq
        exact h k₁ k₂ hne p (hafter k₁ p hp) q (hafter k₂ q hq)
    · have hplain : ∀ k, B.kind t = some k → B.close t ∉ ts := fun k hkind hmem =>
        hregion ⟨k, hkind, hmem⟩
      refine .plain hplain (ih _ (by omega) (off + w t) ts ?_ rfl)
      intro k₁ k₂ hne p hp q hq
      refine h k₁ k₂ hne p ?_ q ?_
      · rw [scan_plain fun k hkind _ => hplain k hkind]
        exact hp
      · rw [scan_plain fun k hkind _ => hplain k hkind]
        exact hq

/-! ## What is outside of the regions -/

omit [DecidableEq τ] in
/-- A rewriter splices new texts into the places of its regions, and leaves the rest alone. -/
theorem splice_spans {α : Type} {text : τ → List α} (htext : ∀ t, 0 < (text t).length)
    (fill : τ → List τ → List τ) (off : ℕ) (pieces : List (Piece τ)) :
    ∃ news : List (List α),
      news.length = (B.spans (fun t => (text t).length) off pieces).length ∧
      splice off (B.spans (fun t => (text t).length) off pieces) news
        ((pieces.flatMap (B.render fun _ body => body)).flatMap text) =
      (pieces.flatMap (B.render fill)).flatMap text := by
  induction pieces generalizing off with
  | nil => exact ⟨[], rfl, rfl⟩
  | cons piece pieces ih =>
    cases piece with
    | plain t =>
      obtain ⟨news, hlen, hnews⟩ := ih (off + (text t).length)
      refine ⟨news, hlen, ?_⟩
      simp only [spans, List.flatMap_cons, render, List.flatMap_append, List.flatMap_nil,
        List.append_nil]
      rw [splice_append fun p hp => le_of_mem_spans htext hp, hnews]
    | region t body =>
      have hcons : ∀ f : τ → List τ → List τ,
          ((Piece.region t body :: pieces).flatMap (B.render f)).flatMap text =
            (t :: (f t body ++ [B.close t])).flatMap text ++
              (pieces.flatMap (B.render f)).flatMap text := by
        intro f
        simp [render]
      have hlength : off + (text t).length + (body.map fun t => (text t).length).sum +
          (text (B.close t)).length - off =
            ((t :: (body ++ [B.close t])).flatMap text).length := by
        simp only [List.flatMap_cons, List.flatMap_append, List.flatMap_nil, List.append_nil,
          List.length_append, List.length_flatMap]
        omega
      obtain ⟨news, hlen, hnews⟩ := ih (off + (text t).length +
        (body.map fun t => (text t).length).sum + (text (B.close t)).length)
      refine ⟨(t :: (fill t body ++ [B.close t])).flatMap text :: news, by simp [spans, hlen], ?_⟩
      rw [spans, splice, hcons, hcons, ← hnews, List.drop_left' hlength.symm, Nat.sub_self,
        List.take_zero, List.nil_append]

end

end Brackets

end CacheServer.Regions
