import CacheServer.Manager.Frame

/-!
# The ledger of a counter

Runs of `increment`, `decrement`, and `incr` on one key, in any mix. Each call succeeds exactly when
the bytes under the key are the text of an integer and the exact sum is in range, and after every
prefix of the run the bytes are the text of the starting value plus the amounts of the calls that
succeeded (`counter_ledger`). The round trip of `toText` and `parseWholeInt64` carries the value
from one call to the next.
-/

namespace CacheServer

/-- The three counting operations. -/
inductive CountingKind
  | increment
  | decrement
  | incr
deriving DecidableEq, Repr

/-- A counting call, but for its key. -/
structure Counting where
  /-- Which of the three it is. -/
  kind : CountingKind
  /-- Its delta. -/
  delta : Int64
  /-- Its TTL. -/
  ttlSeconds : UInt32
deriving DecidableEq, Repr

/-- The call on a key. -/
def Counting.op (c : Counting) (key : Bytes) : AtomicOp :=
  match c.kind with
  | .increment => .increment key c.delta c.ttlSeconds
  | .decrement => .decrement key c.delta c.ttlSeconds
  | .incr => .incr key c.delta c.ttlSeconds

/-- What the call adds, as an integer. A delta of zero is read as one. -/
def Counting.amount (c : Counting) : ℤ :=
  match c.kind with
  | .decrement => -(if c.delta = 0 then 1 else c.delta.toInt)
  | _ => if c.delta = 0 then 1 else c.delta.toInt

/-- The call is a `decrement` by the one delta that has no negation. -/
def Counting.Unnegatable (c : Counting) : Prop :=
  c.kind = .decrement ∧ c.delta.toInt = -2^63

/-- The number that a counter stands at, if it is one. A counter that is not there stands at zero.
-/
def counterValue : Option Item → Option ℤ
  | none => some 0
  | some item => (parseWholeInt64 item.value).map Int64.toInt

/-- The number that a successful counting call returns. -/
def Reply.number? : Reply → Option ℤ
  | .incrDecr r => if r.success then some r.newValue.toInt else none
  | .incr r => if r.success then some r.value.toInt else none
  | _ => none

/-- The call left without returning. -/
def Reply.isAborted : Reply → Bool
  | .aborted _ => true
  | _ => false

/-- Only a success returns a number. -/
theorem Reply.number?_of_not_success {r : Reply} (h : r.success = false) : r.number? = none := by
  cases r <;> simp_all [number?, success]

/-- A refusal before the mutex returns. -/
theorem AtomicOp.refusal_isAborted {op : AtomicOp} {r : Reply} (h : op.refusal = some r) :
    r.isAborted = false := by
  cases op <;> simp only [refusal, reduceCtorEq] at h
  case decrement key delta ttl =>
    split_ifs at h
    cases h
    rfl

/-! ## One call -/

/-- The amount in terms of the delta that the code works with. -/
theorem effectiveDelta_toInt (delta : Int64) :
    (effectiveDelta delta).toInt = if delta = 0 then 1 else delta.toInt := by
  unfold effectiveDelta
  split_ifs <;> rfl

/-- The refusals before the mutex are those of a delta that has no negation. -/
theorem Counting.refusal_eq_none_iff (c : Counting) (key : Bytes) :
    (c.op key).refusal = none ↔ ¬ c.Unnegatable := by
  obtain ⟨kind, delta, ttl⟩ := c
  cases kind with
  | increment => simp [op, AtomicOp.refusal, Unnegatable]
  | incr => simp [op, AtomicOp.refusal, Unnegatable]
  | decrement =>
    have hmin : effectiveDelta delta = Int64.minValue ↔ delta.toInt = -2^63 := by
      rw [← Int64.toInt_inj, Int64.toInt_minValue, effectiveDelta_toInt]
      split_ifs with h0
      · subst h0
        decide
      · rfl
    simp [op, AtomicOp.refusal, Unnegatable, hmin]

/-- The decision is to store the text of the exact sum and report it, or to reply without success
when there is no sum or it is out of range. -/
def Decision.Sums (stored : Option Item) (amount : ℤ) (d : Decision Reply) : Prop :=
  (∃ v ttl creation finish, counterValue stored = some v ∧ InInt64 (v + amount) ∧
    d = .store (Decimal.ofInt (v + amount)) ttl creation finish ∧
    (finish true).number? = some (v + amount)) ∨
  (∃ r, d = .reply r ∧ r.isAborted = false ∧
    ∀ v, counterValue stored = some v → ¬ InInt64 (v + amount))

/-- The end of a counting operation adds to the value that is stored, when it starts from it. -/
theorem storeSum_sums {stored : Option Item} {base : Int64}
    (h : counterValue stored = some base.toInt) {overflow : Reply}
    (hoverflow : overflow.isAborted = false) {finish : Int64 → Bool → Reply}
    (hfinish : ∀ v, (finish v true).number? = some v.toInt) (delta : Int64)
    (ttl creation : UInt32) :
    (storeSum base delta ttl creation overflow finish).Sums stored delta.toInt := by
  unfold storeSum
  split_ifs with hin
  · refine .inl ⟨_, _, _, _, h, hin, rfl, ?_⟩
    rw [hfinish, toInt_ofInt_of_inInt64 hin]
  · refine .inr ⟨_, rfl, hoverflow, fun v hv => ?_⟩
    rw [h] at hv
    cases hv
    exact hin

/-- The end of `atomicAddValue`, at the value that is stored. -/
theorem addAndStore_sums {stored : Option Item} {current : Int64}
    (h : counterValue stored = some current.toInt) (delta : Int64) (ttl creation : UInt32) :
    ((addAndStore current delta ttl creation).map Reply.incrDecr).Sums stored delta.toInt := by
  rw [addAndStore_eq, storeSum_map]
  exact storeSum_sums h rfl (fun v => rfl) ..

/-- The end of `incr`, at the value that is stored. -/
theorem incrAndStore_sums {stored : Option Item} {base : Int64}
    (h : counterValue stored = some base.toInt) (delta : Int64) (ttl creation : UInt32)
    (createdNew : Bool) :
    ((incrAndStore base delta ttl creation createdNew).map Reply.incr).Sums stored delta.toInt := by
  rw [incrAndStore_eq, storeSum_map]
  exact storeSum_sums h rfl (fun v => rfl) ..

/-- `atomicAddValue` adds to the value that is stored. -/
theorem atomicAddValueDecision_sums (delta : Int64) (ttl : UInt32) (stored : Option Item) :
    ((atomicAddValueDecision delta ttl stored).map Reply.incrDecr).Sums stored delta.toInt := by
  cases stored with
  | none => exact addAndStore_sums rfl delta ttl 0
  | some existing =>
    simp only [atomicAddValueDecision]
    cases hp : parseWholeInt64 existing.value with
    | none => exact .inr ⟨_, rfl, rfl, by simp [counterValue, hp]⟩
    | some current =>
      have hv : counterValue (some existing) = some current.toInt := by simp [counterValue, hp]
      dsimp only
      split_ifs <;> exact addAndStore_sums hv ..

/-- Before the deadline of what is stored, `incr` adds to its value. -/
theorem incrDecision_sums {now : UInt32} (delta : Int64) (ttl : UInt32) {stored : Option Item}
    (hlive : ∀ item ∈ stored, item.expiryTime = 0 ∨ now < item.expiryTime) :
    ((incrDecision now delta ttl stored).map Reply.incr).Sums stored delta.toInt := by
  cases stored with
  | none => exact incrAndStore_sums rfl delta ttl 0 true
  | some existing =>
    simp only [incrDecision, gt_iff_lt, if_pos (hlive existing rfl)]
    cases hp : parseWholeInt64 existing.value with
    | none => exact .inr ⟨_, rfl, rfl, by simp [counterValue, hp]⟩
    | some base =>
      have hv : counterValue (some existing) = some base.toInt := by simp [counterValue, hp]
      exact incrAndStore_sums hv ..

/-- A counting call that is not refused at once adds its amount to the value that is stored. -/
theorem Counting.decision_sums {c : Counting} {key : Bytes} (hnone : (c.op key).refusal = none)
    {now : UInt32} {stored : Option Item}
    (hlive : ∀ item ∈ stored, item.expiryTime = 0 ∨ now < item.expiryTime) :
    ((c.op key).decision now stored).Sums stored c.amount := by
  obtain ⟨kind, delta, ttl⟩ := c
  cases kind with
  | increment =>
    simp only [amount, ← effectiveDelta_toInt]
    exact atomicAddValueDecision_sums ..
  | decrement =>
    have hmin : effectiveDelta delta ≠ Int64.minValue := by
      intro he
      simp [op, AtomicOp.refusal, he] at hnone
    have hsums :=
      atomicAddValueDecision_sums (Int64.ofInt (-(effectiveDelta delta).toInt)) ttl stored
    rw [toInt_ofInt_of_inInt64 (inInt64_neg hmin)] at hsums
    simp only [amount, ← effectiveDelta_toInt]
    exact hsums
  | incr =>
    simp only [amount, ← effectiveDelta_toInt]
    exact incrDecision_sums _ _ hlive

/-- Nothing outside the counter gets in the way of the call: CacheLib serves it, and the item under
the key, if there is one, is before its deadline. -/
structure Smooth (env : Env) (m : CacheManager) (op : AtomicOp) : Prop extends Served env m op where
  /-- An item under the key is before its deadline. -/
  live : ∀ item ∈ m.stored op.key, item.expiryTime = 0 ∨ env.now < item.expiryTime

/-- An item before its deadline is found. -/
theorem CacheManager.found_eq_stored {m : CacheManager} {now : UInt32} {key : Bytes}
    (h : ∀ item ∈ m.stored key, item.expiryTime = 0 ∨ now < item.expiryTime) :
    m.found now key = m.stored key := by
  cases hm : m.cache with
  | none => simp [found, stored, hm]
  | some store =>
    simp only [found, stored, hm, Option.bind_some] at h ⊢
    cases hk : store key with
    | none => simp [Store.find, hk]
    | some item =>
      refine Store.find_eq_some_iff.mpr ⟨hk, ?_⟩
      rcases h item hk with h0 | hlt
      · simp [Item.isExpired, h0]
      · simp [Item.isExpired, UInt32.le_of_lt hlt]

/-- A counting call is about the key that it is made for. -/
@[simp]
theorem Counting.op_key (c : Counting) (key : Bytes) : (c.op key).key = key := by
  obtain ⟨kind, delta, ttl⟩ := c
  cases kind <;> rfl

/-- A counting call succeeds exactly when there is a sum and it is in range, and the delta is not
the one that has no negation. It then stores the text of the sum and returns it, and otherwise
leaves the item as it was. Either way it returns. -/
theorem Counting.exec_spec {c : Counting} {key : Bytes} {env : Env} {m : CacheManager}
    (h : Smooth env m (c.op key)) :
    ((c.op key).exec env m).1.isAborted = false ∧
    ((∃ v, counterValue (m.stored key) = some v ∧ InInt64 (v + c.amount) ∧ ¬ c.Unnegatable ∧
        ((c.op key).exec env m).1.success = true ∧
        ((c.op key).exec env m).1.number? = some (v + c.amount) ∧
        (((c.op key).exec env m).2.stored key).map Item.value =
          some (Decimal.ofInt (v + c.amount))) ∨
      ((c.Unnegatable ∨ ∀ v, counterValue (m.stored key) = some v → ¬ InInt64 (v + c.amount)) ∧
        ((c.op key).exec env m).1.success = false ∧
        ((c.op key).exec env m).2.stored key = m.stored key)) := by
  have hlive := h.live
  have hfound : m.found env.now (c.op key).key = m.stored key := by
    rw [CacheManager.found_eq_stored h.live, op_key]
  rw [op_key] at hlive
  by_cases hun : c.Unnegatable
  · -- The call is refused before it looks at the item.
    cases href : (c.op key).refusal with
    | none => exact absurd hun ((c.refusal_eq_none_iff key).mp href)
    | some r =>
      rw [AtomicOp.exec_of_refusal href]
      exact ⟨AtomicOp.refusal_isAborted href, .inr ⟨.inl hun, AtomicOp.refusal_success href, rfl⟩⟩
  · have hnone := (c.refusal_eq_none_iff key).mpr hun
    have hhonest := (c.op key).decision_honest env.now (m.stored key)
    rcases decision_sums hnone hlive with ⟨v, ttl, creation, finish, hv, hin, hd, hnumber⟩ |
      ⟨r, hd, habort, hout⟩
    · rw [hd] at hhonest
      rw [← hfound] at hd
      obtain ⟨hreply, hstored⟩ := h.exec_of_store hnone hd
      rw [op_key] at hstored
      rw [hreply, hstored]
      refine ⟨?_, .inl ⟨v, hv, hin, hun, hhonest.1, hnumber, rfl⟩⟩
      cases hf : finish true <;> simp_all [Reply.isAborted, Reply.number?]
    · rw [hd] at hhonest
      rw [← hfound] at hd
      rw [h.exec_of_reply hnone hd]
      exact ⟨habort, .inr ⟨.inr hout, hhonest, rfl⟩⟩

/-! ## Runs -/

/-- Counting calls on the key, one after another. -/
def countAll (key : Bytes) (m : CacheManager) (calls : List (Env × Counting)) :
    List Reply × CacheManager :=
  execAll m (calls.map fun c => (c.1, .atomic (c.2.op key)))

/-- Every call of the run is made when nothing gets in its way. -/
def SmoothRun (key : Bytes) (m : CacheManager) (calls : List (Env × Counting)) : Prop :=
  ∀ pre env c post, calls = pre ++ (env, c) :: post →
    Smooth env (countAll key m pre).2 (c.op key)

/-- The sum of the amounts of the calls that succeeded. -/
def credited (calls : List (Env × Counting)) (replies : List Reply) : ℤ :=
  (List.zipWith (fun c r => if r.success then c.2.amount else 0) calls replies).sum

/-- The number that the last successful call returned. -/
def lastNumber (replies : List Reply) : Option ℤ := (replies.filterMap Reply.number?).getLast?

/-- The item under the key after calls that add up to `total`, the last successful one of which
returned `last`. If there was none, the item is the original one; otherwise its bytes are the text
of that number, which is the starting value plus the total. -/
def Ledger (original : Option Item) (total : ℤ) (last : Option ℤ) (stored : Option Item) : Prop :=
  match last with
  | none => total = 0 ∧ stored = original
  | some n => InInt64 n ∧ (∃ start, counterValue original = some start ∧ n = start + total) ∧
    stored.map Item.value = some (Decimal.ofInt n)

/-- One more call at the end of a run. -/
theorem countAll_concat (key : Bytes) (m : CacheManager) (calls : List (Env × Counting)) (env : Env)
    (c : Counting) :
    countAll key m (calls ++ [(env, c)]) =
      ((countAll key m calls).1 ++ [((c.op key).exec env (countAll key m calls).2).1],
        ((c.op key).exec env (countAll key m calls).2).2) := by
  simp [countAll, execAll_concat, Op.exec]

/-- One more call adds its amount, if it succeeds. -/
theorem credited_concat {calls : List (Env × Counting)} {replies : List Reply}
    (h : calls.length = replies.length) (env : Env) (c : Counting) (r : Reply) :
    credited (calls ++ [(env, c)]) (replies ++ [r]) =
      credited calls replies + if r.success then c.amount else 0 := by
  simp [credited, List.zipWith_append h]

/-- One more number is the last one. -/
theorem lastNumber_concat (replies : List Reply) (r : Reply) :
    lastNumber (replies ++ [r]) = r.number?.or (lastNumber replies) := by
  cases h : r.number? <;> simp [lastNumber, h]

/-- The text of a number in range is a counter that stands at it. -/
theorem counterValue_of_text {stored : Option Item} {n : ℤ} (hin : InInt64 n)
    (h : stored.map Item.value = some (Decimal.ofInt n)) : counterValue stored = some n := by
  obtain ⟨item, rfl, hvalue⟩ := Option.map_eq_some_iff.mp h
  have htext : Decimal.ofInt n = toText (Int64.ofInt n) := by
    rw [toText, toInt_ofInt_of_inInt64 hin]
  simp [counterValue, hvalue, htext, parseWholeInt64_toText, toInt_ofInt_of_inInt64 hin]

/-- The counter stands where its ledger says. -/
theorem Ledger.counterValue_eq {original stored : Option Item} {total : ℤ} {last : Option ℤ}
    (h : Ledger original total last stored) {v : ℤ} (hv : counterValue stored = some v) :
    ∃ start, counterValue original = some start ∧ v = start + total := by
  cases last with
  | none =>
    obtain ⟨rfl, rfl⟩ := h
    exact ⟨v, hv, by simp⟩
  | some n =>
    -- The text parses back to the number that was printed.
    obtain ⟨hin, hstart, htext⟩ := h
    rw [counterValue_of_text hin htext] at hv
    cases hv
    exact hstart

/-- A call keeps the ledger. -/
theorem Ledger.exec {original : Option Item} {total : ℤ} {last : Option ℤ} {key : Bytes}
    {m : CacheManager} (h : Ledger original total last (m.stored key)) {env : Env} {c : Counting}
    (hsmooth : Smooth env m (c.op key)) :
    Ledger original (total + if ((c.op key).exec env m).1.success then c.amount else 0)
      (((c.op key).exec env m).1.number?.or last) (((c.op key).exec env m).2.stored key) := by
  obtain ⟨-, ⟨v, hv, hin, -, hsuccess, hnumber, hstored⟩ | ⟨-, hfail, hstored⟩⟩ :=
    Counting.exec_spec hsmooth
  · -- The value that the call added to is the starting value plus the total so far.
    obtain ⟨start, hstart, rfl⟩ := h.counterValue_eq hv
    rw [hsuccess, hnumber, if_pos rfl]
    exact ⟨hin, ⟨start, hstart, by ring⟩, hstored⟩
  · rw [hfail, Reply.number?_of_not_success hfail, hstored]
    simpa using h

/-- The ledger is kept over a whole run, and every call of it returns. -/
theorem countAll_ledger {key : Bytes} {m : CacheManager} {calls pre post : List (Env × Counting)}
    (hsmooth : SmoothRun key m calls) (hcalls : calls = pre ++ post) :
    Ledger (m.stored key) (credited pre (countAll key m pre).1)
        (lastNumber (countAll key m pre).1) ((countAll key m pre).2.stored key) ∧
      ∀ r ∈ (countAll key m pre).1, r.isAborted = false := by
  -- The prefix grows at its end, one call at a time.
  induction pre using List.reverseRecOn generalizing post with
  | nil => exact ⟨⟨rfl, rfl⟩, by simp [countAll, execAll]⟩
  | append_singleton pre x ih =>
    obtain ⟨env, c⟩ := x
    have hcalls' : calls = pre ++ (env, c) :: post := by simpa using hcalls
    obtain ⟨hledger, habort⟩ := ih hcalls'
    have hcall := hsmooth pre env c post hcalls'
    have hlen : pre.length = (countAll key m pre).1.length := by simp [countAll, length_execAll]
    rw [countAll_concat, credited_concat hlen, lastNumber_concat]
    refine ⟨hledger.exec hcall, ?_⟩
    simp only [List.mem_append, List.mem_singleton]
    rintro r (hr | rfl)
    · exact habort r hr
    · exact (Counting.exec_spec hcall).1

/-- For every key, every state of it at the start, and every run of `increment`, `decrement`, and
`incr` calls on it with any deltas and TTLs, before the key's deadline and with every store
accepted: after every prefix of the run the bytes under the key are the text of the starting value
plus the amounts of the successful calls, which is also the number that the last of them returned,
or the original item if there was none; and the next call succeeds exactly when the bytes are the
text of an integer whose exact sum with the amount is in range, and the delta is not the one that
has no negation. All calls return: none of their sums or negations overflows. -/
theorem counter_ledger {key : Bytes} {m : CacheManager} {calls : List (Env × Counting)}
    (hsmooth : SmoothRun key m calls) {pre post : List (Env × Counting)}
    (hcalls : calls = pre ++ post) :
    Ledger (m.stored key) (credited pre (countAll key m pre).1)
        (lastNumber (countAll key m pre).1) ((countAll key m pre).2.stored key) ∧
      (∀ r ∈ (countAll key m pre).1, r.isAborted = false) ∧
      ∀ env c rest, post = (env, c) :: rest →
        (((c.op key).exec env (countAll key m pre).2).1.success = true ↔
          (∃ v, counterValue ((countAll key m pre).2.stored key) = some v ∧
            InInt64 (v + c.amount)) ∧ ¬ c.Unnegatable) := by
  obtain ⟨hledger, habort⟩ := countAll_ledger hsmooth hcalls
  refine ⟨hledger, habort, ?_⟩
  rintro env c rest rfl
  obtain ⟨-, ⟨v, hv, hin, hun, hsuccess, -⟩ | ⟨hno, hfail, -⟩⟩ :=
    Counting.exec_spec (hsmooth pre env c rest hcalls)
  · simp only [hsuccess, true_iff]
    exact ⟨⟨v, hv, hin⟩, hun⟩
  · simp only [hfail, Bool.false_eq_true, false_iff]
    rintro ⟨⟨v, hv, hin⟩, hun⟩
    exact hno.elim hun fun hout => hout v hv hin

/-- Two calls on a key that is not there: the first creates it, the second counts down below zero.
-/
theorem counter_ledger_two :
    ∃ calls : List (Env × Counting),
      calls = [({ now := 5 }, ⟨.incr, 5, 60⟩), ({ now := 6 }, ⟨.decrement, 7, 0⟩)] ∧
      SmoothRun [107] { maxItemSize := 1024, cache := some fun _ => none } calls ∧
      Ledger none (credited calls (countAll [107]
          { maxItemSize := 1024, cache := some fun _ => none } calls).1)
        (some (-2)) (some { value := [45, 50], creationTime := 5, expiryTime := 65 }) := by
  have hsmooth : SmoothRun [107] { maxItemSize := 1024, cache := some fun _ => none }
      [({ now := 5 }, ⟨.incr, 5, 60⟩), ({ now := 6 }, ⟨.decrement, 7, 0⟩)] := by
    intro pre env c post h
    match pre with
    | [] =>
      cases h
      exact ⟨⟨by decide, by decide, by decide +kernel⟩, by decide⟩
    | [_] =>
      cases h
      exact ⟨⟨by decide, by decide, by decide +kernel⟩, by decide +kernel⟩
    | _ :: _ :: _ => simp at h
  have hledger := (counter_ledger hsmooth (List.append_nil _).symm).1
  exact ⟨_, rfl, hsmooth, hledger⟩

end CacheServer
