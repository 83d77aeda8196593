import CacheServer.Manager.Atomicity
import CacheServer.Manager.Frame

/-!
# Plain writers among read-modify-write calls

`set` and `remove` do not take `atomicOpMutex_`, so one of them may come between the `find` of a
read-modify-write call and its write, and the call then overwrites it on the strength of an older
read (`raced_undoes_plain_writes`). What does hold in every run is `write_guarantee`: each write is
right for the table that its own `find` saw, and for the table that it is applied to when no plain
write of its key came in between.
-/

namespace CacheServer

open Guarded

/-- The result of a counting call is the value that it found plus the delta, where no item counts as
zero. -/
def Counted (found : Option Item) (result delta : ℤ) : Prop :=
  match found with
  | none => result = delta
  | some item => ∃ v, parseWholeInt64 item.value = some v ∧ result = v.toInt + delta

/-- The item that `find` gives when `stored` is under the key. -/
def live (now : UInt32) (stored : Option Item) : Option Item :=
  stored.filter fun item => !item.isExpired now

/-- What a successful reply of the call says of the item `stored` that it was based on, and of the
item `after` that it left. The call ran `find` at `t₁`, decided at `t₂`, and wrote at `t₃`. -/
def AtomicOp.Guarantee (t₁ t₂ t₃ : UInt32) (stored after : Option Item) : AtomicOp → Reply → Prop
  | .setNX .., _ => live t₃ stored = none
  | .increment _ delta _, .incrDecr r =>
    Counted (live t₁ stored) r.newValue.toInt (effectiveDelta delta).toInt
  | .decrement _ delta _, .incrDecr r =>
    Counted (live t₁ stored) r.newValue.toInt (-(effectiveDelta delta).toInt)
  -- An item in the second of its deadline is found, and counts as none.
  | .incr _ delta _, .incr r =>
    Counted ((live t₁ stored).filter fun item => item.expiryTime = 0 ∨ item.expiryTime > t₂)
      r.value.toInt (effectiveDelta delta).toInt
  | .compareAndSwap _ expected _ _ _, _ => stored.map Item.value = some expected
  | .touch .., _ => stored.isSome ∧ after.map Item.value = stored.map Item.value
  | _, _ => False

/-- An item that has expired stays so. -/
theorem live_eq_none_of_le {stored : Option Item} {t t' : UInt32} (h : live t stored = none)
    (hle : t ≤ t') : live t' stored = none := by
  simp only [live, Option.filter_eq_none_iff, Bool.not_eq_true', Bool.not_eq_false] at h ⊢
  intro item hitem
  obtain ⟨hne, hlt⟩ := Item.isExpired_iff.mp (h item hitem)
  exact Item.isExpired_iff.mpr ⟨hne, Nat.lt_of_lt_of_le hlt (UInt32.le_iff_toNat_le.mp hle)⟩

/-! ## What a decision to store rests on -/

/-- The sum that `atomicAddValue` stores is the one that it reports. -/
theorem addAndStore_eq_store {current delta : Int64} {ttl creation ttl' creation' : UInt32}
    {value : Bytes} {finish : Bool → IncrDecrResult}
    (h : addAndStore current delta ttl creation = .store value ttl' creation' finish) :
    (finish true).newValue.toInt = current.toInt + delta.toInt := by
  rw [addAndStore_eq] at h
  obtain ⟨-, -, sum, hsum, rfl⟩ := storeSum_eq_store h
  exact hsum

/-- The sum that `incr` stores is the one that it reports. -/
theorem incrAndStore_eq_store {base delta : Int64} {ttl creation ttl' creation' : UInt32}
    {createdNew : Bool} {value : Bytes} {finish : Bool → IncrResult}
    (h : incrAndStore base delta ttl creation createdNew = .store value ttl' creation' finish) :
    (finish true).value.toInt = base.toInt + delta.toInt := by
  rw [incrAndStore_eq] at h
  obtain ⟨-, -, sum, hsum, rfl⟩ := storeSum_eq_store h
  exact hsum

/-- `atomicAddValue` stores what it found plus the delta. -/
theorem atomicAddValueDecision_eq_store {delta : Int64} {ttl ttl' creation : UInt32}
    {found : Option Item} {value : Bytes} {finish : Bool → IncrDecrResult}
    (h : atomicAddValueDecision delta ttl found = .store value ttl' creation finish) :
    Counted found (finish true).newValue.toInt delta.toInt := by
  cases found with
  | none => simpa [Counted] using addAndStore_eq_store h
  | some existing =>
    simp only [atomicAddValueDecision] at h
    cases hp : parseWholeInt64 existing.value with
    | none => simp [hp] at h
    | some v =>
      simp only [hp] at h
      split_ifs at h <;> exact ⟨v, hp, addAndStore_eq_store h⟩

/-- `incr` stores what it found plus the delta, when the deadline of what it found is still to
come. -/
theorem incrDecision_eq_store {now : UInt32} {delta : Int64} {ttl ttl' creation : UInt32}
    {found : Option Item} {value : Bytes} {finish : Bool → IncrResult}
    (h : incrDecision now delta ttl found = .store value ttl' creation finish) :
    Counted (found.filter fun item => item.expiryTime = 0 ∨ item.expiryTime > now)
      (finish true).value.toInt delta.toInt := by
  cases found with
  | none => simpa [Counted] using incrAndStore_eq_store h
  | some existing =>
    simp only [incrDecision] at h
    split_ifs at h with hlive
    · cases hp : parseWholeInt64 existing.value with
      | none => simp [hp] at h
      | some v =>
        simp only [hp] at h
        rw [Option.filter_some_pos (by simpa using hlive)]
        exact ⟨v, hp, incrAndStore_eq_store h⟩
    · rw [Option.filter_some_neg (by simpa using hlive)]
      simpa [Counted] using incrAndStore_eq_store h

/-- A call that decides to store does so on the strength of what it found, and its reply to a store
that goes through says so. -/
theorem AtomicOp.guarantee_of_store {op : AtomicOp} {t₁ t₂ t₃ : UInt32} {stored : Option Item}
    {value : Bytes} {ttl creation : UInt32} {finish : Bool → Reply} (hnone : op.refusal = none)
    (h : op.decision t₂ (live t₁ stored) = .store value ttl creation finish) (hle : t₁ ≤ t₃)
    {item : Item} (hitem : item.value = value) :
    op.Guarantee t₁ t₂ t₃ stored (some item) (finish true) := by
  cases op with
  | setNX key new ttl' =>
    cases hl : live t₁ stored with
    | none => exact live_eq_none_of_le hl hle
    | some existing => simp [decision, hl, setNXDecision, Decision.map] at h
  | increment key delta ttl' =>
    obtain ⟨finish', hd, hf⟩ := Decision.map_eq_store h
    rw [hf]
    exact atomicAddValueDecision_eq_store hd
  | decrement key delta ttl' =>
    obtain ⟨finish', hd, hf⟩ := Decision.map_eq_store h
    have hmin : effectiveDelta delta ≠ Int64.minValue := by
      intro he
      simp [refusal, he] at hnone
    have hcounted := atomicAddValueDecision_eq_store hd
    rw [toInt_ofInt_of_inInt64 (inInt64_neg hmin)] at hcounted
    rw [hf]
    exact hcounted
  | incr key delta ttl' =>
    obtain ⟨finish', hd, hf⟩ := Decision.map_eq_store h
    rw [hf]
    exact incrDecision_eq_store hd
  | compareAndSwap key expected new ttl' keepTtl =>
    cases hl : live t₁ stored with
    | none => simp [decision, hl, compareAndSwapDecision, Decision.map] at h
    | some existing =>
      obtain ⟨hstored, -⟩ := Option.filter_eq_some_iff.mp hl
      by_cases heq : existing.value = expected
      · simp [Guarantee, hstored, heq]
      · simp [decision, hl, compareAndSwapDecision, heq, Decision.map] at h
  | touch key ttl' =>
    cases hl : live t₁ stored with
    | none => simp [decision, hl, touchDecision, Decision.map] at h
    | some existing =>
      obtain ⟨hstored, -⟩ := Option.filter_eq_some_iff.mp hl
      simp only [decision, hl, touchDecision] at h
      cases h
      simp [Guarantee, hstored, hitem]

/-! ## The steps in between -/

/-- Of the single-step calls, only plain writes of a key change the item under it. -/
theorem Call.script_whole_stored {maxItemSize : ℕ} {c : Call}
    (hl : (c.script maxItemSize).isLocked = false) {key : Bytes}
    (hkey : c.op.isPlainWrite = true → c.op.key ≠ key) (now : UInt32) (s : Store) :
    ((c.script maxItemSize).whole now s).2 key = s key := by
  obtain ⟨op, faults⟩ := c
  cases op with
  | get | «exists» | getTTL => rfl
  | set k value ttl =>
    have hne : key ≠ k := (hkey rfl).symm
    simp only [script, Script.whole, Store.setWithCreationTime_eq]
    split_ifs <;> simp [hne]
  | remove k =>
    have hne : key ≠ k := (hkey rfl).symm
    simp only [script, Script.whole, Store.removeKey]
    split_ifs <;> simp [hne]
  | atomic op =>
    cases href : op.refusal with
    | some r => simp [script, href, Script.whole]
    | none => simp [script, href, Script.isLocked] at hl

/-- The scripts that take the mutex are those of read-modify-write calls. -/
theorem Call.script_eq_locked {maxItemSize : ℕ} {c : Call} {obs : UInt32 → Store → Option Item}
    {dec : UInt32 → Option Item → Reply ⊕ (UInt32 → Store → Reply × Store)}
    (h : c.script maxItemSize = .locked obs dec) :
    ∃ op, c.op = .atomic op ∧ op.refusal = none ∧ (obs = fun now store => store.find now op.key) ∧
      dec = fun now found => if c.faults.findThrows then .inl (.aborted .exception)
        else (op.decision now found).act maxItemSize c op.key := by
  obtain ⟨op, faults⟩ := c
  cases op with
  | get | «exists» | getTTL | set | remove => cases h
  | atomic op =>
    cases href : op.refusal with
    | some r => simp [script, href] at h
    | none =>
      simp only [script, href, Script.locked.injEq] at h
      exact ⟨op, rfl, href, h.1.symm, h.2.symm⟩

/-- The decisions that lead to a write are those to store. -/
theorem Decision.act_eq_inr {maxItemSize : ℕ} {c : Call} {key : Bytes} {d : Decision Reply}
    {f : UInt32 → Store → Reply × Store} (h : d.act maxItemSize c key = .inr f) :
    ∃ value ttl creation finish, d = .store value ttl creation finish ∧
      f = fun now store => (store.setWithCreationTime (c.env now) maxItemSize key value ttl
        creation).map finish id := by
  cases d with
  | reply r => cases h
  | abort a => cases h
  | store value ttl creation finish =>
    cases h
    exact ⟨value, ttl, creation, finish, rfl, rfl⟩

section Runs

variable {ι : Type} [DecidableEq ι]

/-- No plain write of the key is among the steps. -/
def Undisturbed (key : Bytes) (steps : List (Entry ι Call Store UInt32 Reply)) : Prop :=
  ∀ e ∈ steps, e.call.op.isPlainWrite = true → e.call.op.key ≠ key

/-- Without a plain write of the key in between, a call writes over the item that it found. -/
theorem stored_eq_of_undisturbed {maxItemSize : ℕ} {pre : List (Entry ι Call Store UInt32 Reply)}
    {q e : Entry ι Call Store UInt32 Reply} (h : Rests (Call.script maxItemSize) pre q e)
    {key : Bytes} (hkey : Undisturbed key (window e.client pre)) : e.before key = q.before key := by
  refine h.chain.view_eq (· key) fun e' he' => ?_
  rcases h.plain e' he' with ⟨hl, r, -, hwhole⟩ | hsame
  · have := Call.script_whole_stored hl (hkey e' he') e'.clock e'.before
    rwa [hwhole] at this
  · rw [hsame]

/-- In every run of any calls, plain writers among them and with the clock moving at any time, every
write of a read-modify-write call rests on the call's own `find`, at the step `q`. When it does
not report success, it leaves the table alone. When it does, it keeps its guarantee for the item
that `find` saw, and, unless a plain write of the key came in between, for the item that was stored
immediately before the write. -/
theorem write_guarantee {maxItemSize : ℕ} {program : ι → List Call} {store : Store} {now : UInt32}
    {sched : List (Choice ι UInt32)} {m : Machine ι Call Store (Option Item) UInt32 Reply}
    (hrun : run (Call.script maxItemSize) (.init program store now) sched = some m)
    {pre post : List (Entry ι Call Store UInt32 Reply)} {e : Entry ι Call Store UInt32 Reply}
    (htrace : m.trace = pre ++ e :: post) {r : Reply} (hkind : e.kind = .write r) :
    ∃ op q t, e.call.op = .atomic op ∧ Rests (Call.script maxItemSize) pre q e ∧
      q.clock ≤ t ∧ t ≤ e.clock ∧
      (r.success = false → e.after = e.before) ∧
      (r.success = true →
        op.Guarantee q.clock t e.clock (q.before op.key) (e.after op.key) r ∧
        (Undisturbed op.key (window e.client pre) →
          op.Guarantee q.clock t e.clock (e.before op.key) (e.after op.key) r)) := by
  obtain ⟨obs, dec, q, t, f, hscript, hrests, hle, hle', hdec, hf⟩ :=
    write_window hrun pre e post htrace r hkind
  obtain ⟨op, hop, href, rfl, rfl⟩ := Call.script_eq_locked hscript
  -- A call that got as far as its write has decided to store.
  dsimp only at hdec
  split_ifs at hdec
  obtain ⟨value, ttl, creation, finish, hd, rfl⟩ := Decision.act_eq_inr hdec
  have hhonest := op.decision_honest t (q.before.find q.clock op.key)
  rw [hd] at hhonest
  simp only [Store.setWithCreationTime_eq] at hf
  refine ⟨op, q, t, hop, hrests, hle, hle', ?_⟩
  split_ifs at hf with haccepts
  · -- The store went through.
    obtain ⟨rfl, hafter⟩ : finish true = r ∧ _ = e.after := by simpa using hf
    have hg : op.Guarantee q.clock t e.clock (q.before op.key) (e.after op.key) (finish true) := by
      rw [← hafter, Store.insertOrReplace_same]
      exact AtomicOp.guarantee_of_store href hd (hle.trans hle') rfl
    refine ⟨by simp [hhonest.1], fun _ => ⟨hg, fun hund => ?_⟩⟩
    rw [stored_eq_of_undisturbed hrests hund]
    exact hg
  · -- The store was not accepted.
    obtain ⟨rfl, hafter⟩ : finish false = r ∧ e.before = e.after := by simpa using hf
    exact ⟨fun _ => hafter.symm, by simp [hhonest.2]⟩

end Runs

/-! ## A plain write undone -/

/-- The reply of a write. -/
def written? (e : Entry Bool Call Store UInt32 Reply) : Option Reply :=
  match e.kind with
  | .write r => some r
  | _ => none

/-- Only a write is taken for one. -/
theorem written?_eq_some {e : Entry Bool Call Store UInt32 Reply} {r : Reply}
    (h : written? e = some r) : e.kind = .write r := by
  unfold written? at h
  split at h
  · cases h
    assumption
  · cases h

/-- A client makes a read-modify-write call, and another a plain write. -/
def against (op : AtomicOp) (plain : Op) : Bool → List Call
  | false => [{ op := .atomic op }]
  | true => [{ op := plain }]

/-- The one runs `find` and its decision, the other makes its plain write, and then the first
writes. -/
def writeInside : List (Choice Bool UInt32) :=
  [.run false, .run false, .run false, .run true, .run false]

/-- The reply of the read-modify-write call at the second 5, and the items before and after its
write. -/
def raced (stored : Option Item) (op : AtomicOp) (plain : Op) :
    Option (Option Reply × Option Item × Option Item) := do
  let m ← run (Call.script 1024) (.init (against op plain) (fun _ => stored) 5) writeInside
  let e ← m.trace.getLast?
  return (written? e, e.before op.key, e.after op.key)

/-- The digit one under the key, without a deadline. -/
def one : Item := { value := [49], creationTime := 3, expiryTime := 0 }

/-- Each of the calls undoes a plain write. `touch` puts back the `1` that was replaced by a `9`,
and re-creates a removed key; `compareAndSwap` succeeds on a `9` where it expects a `1`; `setNX`
replaces a live item; and the counting calls return 2 where they should return 10. -/
theorem raced_undoes_plain_writes :
    raced one (.touch [107] 60) (.set [107] [57] 0) =
        some (some (.touch { success := true, message := "TTL updated" }),
          some { value := [57], creationTime := 5, expiryTime := 0 },
          some { value := [49], creationTime := 5, expiryTime := 65 }) ∧
      raced one (.touch [107] 60) (.remove [107]) =
        some (some (.touch { success := true, message := "TTL updated" }), none,
          some { value := [49], creationTime := 5, expiryTime := 65 }) ∧
      raced one (.compareAndSwap [107] [49] [50] 0 false) (.set [107] [57] 0) =
        some (some (.compareAndSwap { success := true, actualValue := [50] }),
          some { value := [57], creationTime := 5, expiryTime := 0 },
          some { value := [50], creationTime := 5, expiryTime := 0 }) ∧
      raced none (.setNX [107] [50] 0) (.set [107] [57] 0) =
        some (some (.setNX { wasSet := true }),
          some { value := [57], creationTime := 5, expiryTime := 0 },
          some { value := [50], creationTime := 5, expiryTime := 0 }) ∧
      raced one (.increment [107] 1 0) (.set [107] [57] 0) =
        some (some (.incrDecr { success := true, newValue := 2 }),
          some { value := [57], creationTime := 5, expiryTime := 0 },
          some { value := [50], creationTime := 3, expiryTime := 0 }) ∧
      raced one (.incr [107] 1 0) (.set [107] [57] 0) =
        some (some (.incr { success := true, value := 2 }),
          some { value := [57], creationTime := 5, expiryTime := 0 },
          some { value := [50], creationTime := 3, expiryTime := 0 }) := by
  refine ⟨?_, ?_, ?_, ?_, ?_, ?_⟩ <;> decide +kernel

/-- The write of a `touch` against a plain write keeps its guarantee for the item that it found. -/
theorem write_guarantee_touch :
    ∃ (m : Machine Bool Call Store (Option Item) UInt32 Reply)
      (pre : List (Entry Bool Call Store UInt32 Reply)) (e : Entry Bool Call Store UInt32 Reply),
      run (Call.script 1024) (.init (against (.touch [107] 60) (.set [107] [57] 0))
        (fun _ => some one) 5) writeInside = some m ∧
      m.trace = pre ++ [e] ∧
      e.kind = .write (.touch { success := true, message := "TTL updated" }) ∧
      ∃ op q t, e.call.op = .atomic op ∧ Rests (Call.script 1024) pre q e ∧
        op.Guarantee q.clock t e.clock (q.before op.key) (e.after op.key)
          (.touch { success := true, message := "TTL updated" }) := by
  have hlast : (run (Call.script 1024) (.init (against (.touch [107] 60) (.set [107] [57] 0))
      (fun _ => some one) 5) writeInside).bind (fun m => m.trace.getLast?.bind written?) =
        some (.touch { success := true, message := "TTL updated" }) := by decide +kernel
  obtain ⟨m, hrun, hlast⟩ := Option.bind_eq_some_iff.mp hlast
  obtain ⟨e, he, hwritten⟩ := Option.bind_eq_some_iff.mp hlast
  obtain ⟨pre, htrace⟩ := List.getLast?_eq_some_iff.mp he
  have hkind := written?_eq_some hwritten
  obtain ⟨op, q, t, hop, hrests, -, -, -, hsuccess⟩ := write_guarantee hrun htrace hkind
  exact ⟨m, pre, e, hrun, htrace, hkind, op, q, t, hop, hrests, (hsuccess rfl).1⟩

end CacheServer
