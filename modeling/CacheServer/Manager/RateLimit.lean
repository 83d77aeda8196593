import CacheServer.Lib.Blocks
import CacheServer.Manager.Counter
import CacheServer.Manager.Expiry

/-!
# The fixed-window rate limiter

A key that is touched by `incr` alone counts in fixed windows. A call that opens a window seals its
end with the TTL that it carries, the later calls before that end count on, and the first call at or
after it opens the next window. `blocks` cuts a run of calls into its windows by their seconds and
TTLs alone, and `incr_fixed_window` says that the calls return what the windows ask for.

Two tests of the deadline meet at its second: CacheLib's `find` still gives the item, and `incr`
counts it as gone.
-/

namespace CacheServer

open Blocks

/-- A call of `incr`, but for its key. -/
structure Tick where
  /-- What it meets. -/
  env : Env
  /-- Its delta. -/
  delta : Int64
  /-- Its TTL. -/
  ttlSeconds : UInt32
deriving DecidableEq, Repr

/-- The call on a key. -/
def Tick.op (t : Tick) (key : Bytes) : AtomicOp := .incr key t.delta t.ttlSeconds

/-- What the call adds. A delta of zero is read as one. -/
def Tick.amount (t : Tick) : ℤ := if t.delta = 0 then 1 else t.delta.toInt

/-- The second of the call. -/
def Tick.second (t : Tick) : ℕ := t.env.now.toNat

/-- The length of the window that the call opens, if it opens one. -/
def Tick.length (t : Tick) : ℕ := t.ttlSeconds.toNat

/-- The window that the one call opens has not ended at the second of the other. A window of length
zero does not end. -/
def Tick.covers (t x : Tick) : Bool := t.length = 0 || x.second < t.second + t.length

/-- The calls run one after another. -/
def incrAll (key : Bytes) (m : CacheManager) (ticks : List Tick) : List Reply × CacheManager :=
  execAll m (ticks.map fun t => (t.env, .atomic (t.op key)))

/-- CacheLib does its part in every call of the run. -/
def ServedAll (key : Bytes) (m : CacheManager) : List Tick → Prop
  | [] => True
  | t :: ticks =>
    Served t.env m (t.op key) ∧ ServedAll key ((t.op key).exec t.env m).2 ticks

/-- The reply of a successful `incr`. -/
def countReply (n : ℤ) (ttlSet : Bool) : Reply :=
  .incr { success := true, value := Int64.ofInt n, ttlSet }

/-- What the calls of a window return: the first one its own amount, and that it set the TTL; every
later one the sum of the amounts so far, and that it did not. -/
def windowReplies (w : Tick × List Tick) : List Reply :=
  countReply w.1.amount true ::
    w.2.inits.tail.map fun upTo => countReply (w.1.amount + (upTo.map Tick.amount).sum) false

/-! ## One call -/

/-- The stamp of the end of the window that the call opens. -/
def Tick.deadline (t : Tick) : UInt32 := if t.ttlSeconds = 0 then 0 else t.env.now + t.ttlSeconds

/-- The item of a window that the call opened and that stands at `n`. -/
def Tick.item (t : Tick) (n : ℤ) : Item where
  value := Decimal.ofInt n
  creationTime := t.env.now
  expiryTime := t.deadline

/-- The window that `t` opened stands at `n`. -/
def Open (t : Tick) (n : ℤ) (stored : Option Item) : Prop := InInt64 n ∧ stored = some (t.item n)

/-- There is no window, or it has ended. -/
def Closed (now : UInt32) (stored : Option Item) : Prop :=
  ∀ item ∈ stored, item.expiryTime ≠ 0 ∧ item.expiryTime ≤ now

/-- `find` gives nothing but what is stored. -/
theorem CacheManager.stored_of_found {m : CacheManager} {now : UInt32} {key : Bytes} {item : Item}
    (h : m.found now key = some item) : m.stored key = some item := by
  obtain ⟨store, hm, hfind⟩ := Option.bind_eq_some_iff.mp h
  simp [stored, hm, (Store.find_eq_some_iff.mp hfind).1]

/-- The end of `incr` stores a sum that is in range. -/
theorem incrAndStore_of_inInt64 (base delta : Int64) (hin : InInt64 (base.toInt + delta.toInt))
    (ttl creation : UInt32) (createdNew : Bool) :
    ∃ finish, (incrAndStore base delta ttl creation createdNew).map Reply.incr =
        .store (Decimal.ofInt (base.toInt + delta.toInt)) ttl creation finish ∧
      finish true = countReply (base.toInt + delta.toInt) createdNew := by
  rw [incrAndStore_eq, storeSum_map, storeSum, if_pos hin]
  exact ⟨_, rfl, rfl⟩

/-- The amount is the delta, with zero read as one. -/
theorem Tick.amount_eq (t : Tick) : t.amount = (effectiveDelta t.delta).toInt :=
  (effectiveDelta_toInt t.delta).symm

/-- Where there is no window, a call opens one. -/
theorem Closed.exec {key : Bytes} {m : CacheManager} {t : Tick}
    (h : Closed t.env.now (m.stored key)) (hserved : Served t.env m (t.op key))
    (hin : InInt64 t.amount) :
    ((t.op key).exec t.env m).1 = countReply t.amount true ∧
      Open t t.amount (((t.op key).exec t.env m).2.stored key) := by
  have hdecision : (t.op key).decision t.env.now (m.found t.env.now key) =
      (incrAndStore 0 (effectiveDelta t.delta) t.ttlSeconds 0 true).map .incr := by
    cases hf : m.found t.env.now key with
    | none => rfl
    | some item =>
      -- The item is in the second of its deadline.
      obtain ⟨hne, hle⟩ := h item (CacheManager.stored_of_found hf)
      have hdead : ¬ (item.expiryTime = 0 ∨ item.expiryTime > t.env.now) := by
        simp [hne, hle]
      simp only [Tick.op, AtomicOp.decision, incrDecision, if_neg hdead]
  have hsum : (0 : Int64).toInt + (effectiveDelta t.delta).toInt = t.amount := by
    simp [Tick.amount_eq]
  obtain ⟨finish, hstore, hfinish⟩ :=
    incrAndStore_of_inInt64 0 (effectiveDelta t.delta) (by rwa [hsum]) t.ttlSeconds 0 true
  rw [hstore, hsum] at hdecision
  rw [hsum] at hfinish
  obtain ⟨hreply, hstored⟩ := hserved.exec_of_store rfl hdecision
  exact ⟨hreply.trans hfinish, hin, hstored⟩

/-- The end of a window that is sealed without wrapping is where its length says. -/
theorem Tick.deadline_toNat {t : Tick} (h0 : t.ttlSeconds ≠ 0)
    (hseal : t.second + t.length < 2^32) : t.deadline.toNat = t.second + t.length := by
  rw [deadline, if_neg h0, UInt32.toNat_add]
  exact Nat.mod_eq_of_lt hseal

/-- A call that the window covers comes before its end. -/
theorem Tick.live_of_covers {t x : Tick} (hcovers : t.covers x = true)
    (hseal : t.second + t.length < 2^32) : t.deadline = 0 ∨ x.env.now < t.deadline := by
  by_cases h0 : t.ttlSeconds = 0
  · exact .inl (if_pos h0)
  · right
    have hlength : t.length ≠ 0 := fun h => h0 (UInt32.toNat_inj.mp h)
    simp only [covers, hlength, decide_false, Bool.false_or, decide_eq_true_eq] at hcovers
    rw [UInt32.lt_iff_toNat_lt, deadline_toNat h0 hseal]
    exact hcovers

/-- A window that does not cover a call has ended by then. -/
theorem Open.closed {t x : Tick} {n : ℤ} {stored : Option Item} (h : Open t n stored)
    (hcovers : t.covers x = false) (hnow : t.env.now ≠ 0) (hseal : t.second + t.length < 2^32) :
    Closed x.env.now stored := by
  intro item hitem
  obtain rfl := Option.some.inj (h.2.symm.trans hitem)
  simp only [Tick.covers, Bool.or_eq_false_iff, decide_eq_false_iff_not, not_lt] at hcovers
  -- A window of length zero covers every call, so this one has an end.
  have h0 : t.ttlSeconds ≠ 0 := by
    intro h0
    simp [Tick.length, h0] at hcovers
  have hend := Tick.deadline_toNat h0 hseal
  have hpos : t.second ≠ 0 := fun h => hnow (UInt32.toNat_inj.mp h)
  constructor
  · intro hz
    have : t.deadline.toNat = 0 := by rw [show t.deadline = 0 from hz]; rfl
    omega
  · rw [UInt32.le_iff_toNat_le]
    show t.deadline.toNat ≤ x.second
    omega

/-- While a window is open, a call counts on in it and leaves its end as it is. -/
theorem Open.exec {key : Bytes} {m : CacheManager} {t x : Tick} {n : ℤ}
    (h : Open t n (m.stored key)) (hserved : Served x.env m (x.op key))
    (hcovers : t.covers x = true) (hnow : t.env.now ≠ 0) (hseal : t.second + t.length < 2^32)
    (hin : InInt64 (n + x.amount)) :
    ((x.op key).exec x.env m).1 = countReply (n + x.amount) false ∧
      Open t (n + x.amount) (((x.op key).exec x.env m).2.stored key) := by
  obtain ⟨hn, hstored⟩ := h
  have hlive := Tick.live_of_covers hcovers hseal
  have hfound : m.found x.env.now key = some (t.item n) := by
    rw [CacheManager.found_eq_stored, hstored]
    intro item hitem
    obtain rfl := Option.some.inj (hstored.symm.trans hitem)
    exact hlive
  -- The count is read back from its text.
  have hparse : parseWholeInt64 (t.item n).value = some (Int64.ofInt n) := by
    rw [← parseWholeInt64_toText, toText, toInt_ofInt_of_inInt64 hn]
    rfl
  have hsum : (Int64.ofInt n).toInt + (effectiveDelta x.delta).toInt = n + x.amount := by
    rw [toInt_ofInt_of_inInt64 hn, Tick.amount_eq]
  obtain ⟨finish, hstore, hfinish⟩ := incrAndStore_of_inInt64 (Int64.ofInt n)
    (effectiveDelta x.delta) (by rwa [hsum]) (t.item n).preservedTtl (t.item n).creationTime false
  have hdecision : (x.op key).decision x.env.now (m.found x.env.now key) =
      .store (Decimal.ofInt (n + x.amount)) (t.item n).preservedTtl (t.item n).creationTime
        finish := by
    rw [← hsum, ← hstore, hfound]
    simp only [Tick.op, AtomicOp.decision, incrDecision, gt_iff_lt, hparse,
      if_pos (show (t.item n).expiryTime = 0 ∨ x.env.now < (t.item n).expiryTime from hlive)]
  obtain ⟨hreply, hstored'⟩ := hserved.exec_of_store rfl hdecision
  -- The stamps add up to those of the item that was found.
  have hstamped : (t.item n).Stamped := ⟨hnow, t.ttlSeconds, rfl⟩
  rw [stamp_preserved hstamped] at hstored'
  rw [hsum] at hfinish
  exact ⟨hreply.trans hfinish, hin, hstored'⟩

/-! ## Runs -/

/-- The first call gives the first answer. -/
theorem incrAll_cons (key : Bytes) (m : CacheManager) (t : Tick) (ticks : List Tick) :
    (incrAll key m (t :: ticks)).1 =
      ((t.op key).exec t.env m).1 :: (incrAll key ((t.op key).exec t.env m).2 ticks).1 := rfl

/-- One more call in a window adds its own reply. -/
theorem windowReplies_concat (t : Tick) (rest : List Tick) (x : Tick) :
    windowReplies (t, rest ++ [x]) = windowReplies (t, rest) ++
      [countReply (t.amount + (rest.map Tick.amount).sum + x.amount) false] := by
  have hinits : (rest ++ [x]).inits.tail = rest.inits.tail ++ [rest ++ [x]] := by
    cases rest <;> simp [List.inits_append]
  simp only [windowReplies, hinits, List.map_append, List.map_cons, List.map_nil, List.sum_append,
    List.sum_cons, List.sum_nil, add_zero, add_assoc, List.cons_append]

/-- The windows are sealed without wrapping, and their counts stay in range. -/
structure WellSealed (windows : List (Tick × List Tick)) : Prop where
  /-- No deadline wraps. -/
  unwrapped : ∀ w ∈ windows, w.1.second + w.1.length < 2^32
  /-- No count leaves the range at any of its calls. -/
  range : ∀ w ∈ windows, ∀ upTo, upTo <+: w.2 →
    InInt64 (w.1.amount + (upTo.map Tick.amount).sum)

/-- From an open window on, the calls return what the windows ask for. -/
theorem incrAll_open {key : Bytes} {m : CacheManager} {t : Tick} {rest ticks : List Tick}
    (h : Open t (t.amount + (rest.map Tick.amount).sum) (m.stored key))
    (hserved : ServedAll key m ticks) (hnow : ∀ x ∈ t :: ticks, x.env.now ≠ 0)
    (hsealed : WellSealed (blocksFrom Tick.covers t rest ticks)) :
    (blocksFrom Tick.covers t rest ticks).flatMap windowReplies =
      windowReplies (t, rest) ++ (incrAll key m ticks).1 := by
  induction ticks generalizing m t rest with
  | nil => simp [blocksFrom, incrAll, execAll]
  | cons x xs ih =>
    obtain ⟨hx, hxs⟩ := hserved
    rw [incrAll_cons]
    simp only [blocksFrom] at hsealed ⊢
    split_ifs at hsealed ⊢ with hcovers
    · -- The call counts on in the window of `t`.
      obtain ⟨more, bs, hblocks⟩ := blocksFrom_eq_cons (p := Tick.covers) t (rest ++ [x]) xs
      have hmem : (t, rest ++ [x] ++ more) ∈ blocksFrom Tick.covers t (rest ++ [x]) xs := by
        simp [hblocks]
      have hin := hsealed.range _ hmem (rest ++ [x]) (List.prefix_append ..)
      simp only [List.map_append, List.map_cons, List.map_nil, List.sum_append, List.sum_cons,
        List.sum_nil, add_zero, ← add_assoc] at hin
      obtain ⟨hreply, hopen⟩ :=
        h.exec hx hcovers (hnow t (by simp)) (hsealed.unwrapped _ hmem) hin
      have hopen' : Open t (t.amount + ((rest ++ [x]).map Tick.amount).sum)
          (((x.op key).exec x.env m).2.stored key) := by
        simpa [← add_assoc] using hopen
      rw [ih hopen' hxs (by simp_all) hsealed, windowReplies_concat, hreply]
      simp
    · -- The window of `t` has ended, and the call opens the next one.
      obtain ⟨more, bs, hblocks⟩ := blocksFrom_eq_cons (p := Tick.covers) x [] xs
      have hin := hsealed.range (x, [] ++ more) (by simp [hblocks]) [] List.nil_prefix
      have hclosed := h.closed (by simpa using hcovers) (hnow t (by simp))
        (hsealed.unwrapped (t, rest) (by simp))
      obtain ⟨hreply, hopen⟩ := hclosed.exec hx (by simpa using hin)
      have hsealed' : WellSealed (blocksFrom Tick.covers x [] xs) :=
        ⟨fun w hw => hsealed.unwrapped w (by simp [hw]), fun w hw => hsealed.range w (by simp [hw])⟩
      rw [List.flatMap_cons, ih (by simpa using hopen) hxs (by simp_all) hsealed', hreply]
      simp [windowReplies]

/-- For every key that is not there at the start and every run of `incr` calls on it at seconds that
do not decrease, with CacheLib doing its part, no window sealed past 2^32, and no count out of
range: the calls are cut into consecutive windows. A call belongs to a window if it comes before its
end, and no call of a later window does. The first call of a window returns its own amount and that
it set the TTL, and every later one the sum of the window's amounts so far and that it did not,
whatever TTL it carries. -/
theorem incr_fixed_window {key : Bytes} {m : CacheManager} (habsent : m.stored key = none)
    {ticks : List Tick} (hserved : ServedAll key m ticks)
    (hclock : ticks.Pairwise fun x y => x.second ≤ y.second) (hnow : ∀ x ∈ ticks, x.env.now ≠ 0)
    (hsealed : WellSealed (blocks Tick.covers ticks)) :
    (blocks Tick.covers ticks).flatMap elements = ticks ∧
      (∀ w ∈ blocks Tick.covers ticks, ∀ x ∈ w.2, w.1.covers x = true) ∧
      ((blocks Tick.covers ticks).Pairwise fun w w' =>
        ∀ x ∈ elements w', w.1.covers x = false) ∧
      (incrAll key m ticks).1 = (blocks Tick.covers ticks).flatMap windowReplies := by
  obtain ⟨hflat, hwithin, hlater⟩ := blocks_spec (p := Tick.covers) (fun c x y hx hxy => by
    simp only [Tick.covers, Bool.or_eq_false_iff, decide_eq_false_iff_not, not_lt] at hx ⊢
    exact ⟨hx.1, hx.2.trans hxy⟩) hclock
  refine ⟨hflat, hwithin, hlater, ?_⟩
  cases ticks with
  | nil => rfl
  | cons t ticks =>
    obtain ⟨ht, hticks⟩ := hserved
    obtain ⟨more, bs, hblocks⟩ := blocksFrom_eq_cons (p := Tick.covers) t [] ticks
    have hin := hsealed.range (t, [] ++ more) (by simp [blocks, hblocks]) [] List.nil_prefix
    have hclosed : Closed t.env.now (m.stored key) := by simp [Closed, habsent]
    obtain ⟨hreply, hopen⟩ := hclosed.exec ht (by simpa using hin)
    rw [incrAll_cons, hreply, blocks, incrAll_open (by simpa using hopen) hticks hnow hsealed]
    rfl

/-- Three calls, the last of them in the second in which the window of the first one ends. -/
def threeTicks : List Tick :=
  [⟨{ now := 5 }, 1, 10⟩, ⟨{ now := 14 }, 2, 99⟩, ⟨{ now := 15 }, 0, 10⟩]

/-- The last of the three calls opens a window of its own. -/
theorem incr_fixed_window_three :
    (incrAll [107] { maxItemSize := 1024, cache := some fun _ => none } threeTicks).1 =
      [countReply 1 true, countReply 3 false, countReply 1 true] := by
  have hserved : ServedAll [107] { maxItemSize := 1024, cache := some fun _ => none } threeTicks :=
    ⟨⟨by decide, by decide, by decide +kernel⟩, ⟨by decide, by decide, by decide +kernel⟩,
      ⟨by decide, by decide, by decide +kernel⟩, trivial⟩
  have hsealed : WellSealed (blocks Tick.covers threeTicks) := by
    constructor
    · decide
    · have hinits : ∀ w ∈ blocks Tick.covers threeTicks, ∀ upTo ∈ w.2.inits,
          InInt64 (w.1.amount + (upTo.map Tick.amount).sum) := by decide
      exact fun w hw upTo hupTo => hinits w hw upTo ((List.mem_inits upTo w.2).mpr hupTo)
  exact (incr_fixed_window rfl hserved (by decide) (by decide) hsealed).2.2.2

end CacheServer
