import CacheServer.Manager.Linearizable

/-!
# A key as a lease

Clients that take a key with `setNX` and a TTL hold it for that time. For any number of them, and at
every point of every run, no lease begins before the one before it has ended, and whoever is refused
is told the value of the lease that stands (`leases_disjoint`).

The key is not there at first, and `setNX` is the only read-modify-write call on it. Each deadline
is a 32-bit second: one that wraps would end the lease at once. The runs are those of `AtomicRun`,
in any interleaving: the second stands still while `atomicOpMutex_` is held, there is no plain `set`
or `remove`, and nothing is evicted, as either would let the next lease begin too early.
Read-modify-write calls on other keys, and reads of any key, may come in between at any point.
-/

namespace CacheServer

open Guarded

/-! ## The leases of a history -/

/-- A time for which a key is taken. -/
structure Lease where
  /-- The value of the item that takes it. -/
  value : Bytes
  /-- The second in which it is taken. -/
  start : ℕ
  /-- The seconds that it is taken for, or zero when it is taken for good. -/
  ttl : ℕ
deriving DecidableEq, Repr

/-- The lease stands at the second. -/
def Lease.covers (l : Lease) (t : ℕ) : Bool := l.ttl = 0 ∨ t ≤ l.start + l.ttl

/-- The lease that a call gets, when it is a `setNX` of the key that succeeds. -/
def lease? {ι : Type} (key : Bytes) (c : Commit ι Call UInt32 Reply) : Option Lease :=
  match c.call.op, c.reply with
  | .atomic (.setNX k value ttl), .setNX r =>
    if k = key ∧ r.wasSet then some ⟨value, c.clock.toNat, ttl.toNat⟩ else none
  | _, _ => none

/-- The leases of the key that a history gives. -/
def leases {ι : Type} (key : Bytes) (history : List (Commit ι Call UInt32 Reply)) : List Lease :=
  history.filterMap (lease? key)

/-- The call is a `setNX` whose deadline is a 32-bit second whenever it is made up to `last`. -/
def AtomicOp.IsLease (last : UInt32) : AtomicOp → Prop
  | .setNX _ _ ttl => last.toNat + ttl.toNat < 2^32
  | _ => False

/-- The item of a lease is live exactly while the lease stands. -/
theorem Lease.isExpired_stamp {now ttl : UInt32} (h : now.toNat + ttl.toNat < 2^32) (value : Bytes)
    (t : UInt32) :
    (stamp now value ttl 0).isExpired t = !Lease.covers ⟨value, now.toNat, ttl.toNat⟩ t.toNat := by
  have hlive := (stamp now value ttl 0).entry_isLive t
  rw [stamp_entry h] at hlive
  have hcovers : (TtlMap.Entry.isLive ⟨value, deadlineAt now.toNat ttl⟩ t.toNat) =
      Lease.covers ⟨value, now.toNat, ttl.toNat⟩ t.toNat := by
    by_cases h0 : ttl = 0
    · simp [TtlMap.Entry.isLive, deadlineAt, covers, h0]
    · have hne : ttl.toNat ≠ 0 := fun he => h0 (UInt32.toNat_inj.mp he)
      simp [TtlMap.Entry.isLive, deadlineAt, covers, h0, hne]
  rw [← hcovers, hlive, Bool.not_not]

/-- Only a successful `setNX` of the key gives a lease. -/
theorem lease?_eq_none {ι : Type} {key : Bytes} {c : Commit ι Call UInt32 Reply}
    (h : ∀ op, c.call.op = .atomic op → op.key = key → c.reply.success = false) :
    lease? key c = none := by
  unfold lease?
  split
  · rename_i k value ttl r hop hreply
    rw [if_neg]
    rintro ⟨hk, hset⟩
    have := h _ hop hk
    simp [hreply, Reply.success, hset] at this
  · rfl

/-- One more call at the end of a history. -/
theorem leases_concat {ι : Type} (key : Bytes) (history : List (Commit ι Call UInt32 Reply))
    (c : Commit ι Call UInt32 Reply) :
    leases key (history ++ [c]) = leases key history ++ (lease? key c).toList := by
  simp only [leases, List.filterMap_append]
  cases h : lease? key c <;> simp [h]

/-- A lease begins in the second in which its call took effect. -/
theorem start_of_mem_leases {ι : Type} {key : Bytes} {history : List (Commit ι Call UInt32 Reply)}
    {l : Lease} (h : l ∈ leases key history) : ∃ c ∈ history, l.start = c.clock.toNat := by
  obtain ⟨c, hc, hl⟩ := List.mem_filterMap.mp h
  refine ⟨c, hc, ?_⟩
  unfold lease? at hl
  split at hl
  · split_ifs at hl
    cases hl
    rfl
  · cases hl

/-! ## One call -/

/-- The table has the item of the last lease of the history, and no lease began before the one
before it had ended. -/
structure Leased {ι : Type} (key : Bytes) (last : UInt32)
    (history : List (Commit ι Call UInt32 Reply)) (store : Store) : Prop where
  /-- The table has the item of the last lease. -/
  stored : match (leases key history).getLast? with
    | none => store key = none
    | some l => ∃ now ttl : UInt32, l = ⟨l.value, now.toNat, ttl.toNat⟩ ∧
      last.toNat + ttl.toNat < 2^32 ∧ now ≤ last ∧ store key = some (stamp now l.value ttl 0)
  /-- No lease began while an earlier one lasted. -/
  disjoint : (leases key history).Pairwise fun a b => a.covers b.start = false

/-- What is found under the key is the value of the last lease, while that stands. -/
theorem Leased.find {ι : Type} {key : Bytes} {last : UInt32}
    {history : List (Commit ι Call UInt32 Reply)} {store : Store}
    (h : Leased key last history store) (now : UInt32) :
    (store.find now key).map Item.value =
      ((leases key history).getLast?.filter (·.covers now.toNat)).map Lease.value := by
  have hstored := h.stored
  cases hl : (leases key history).getLast? with
  | none =>
    rw [hl] at hstored
    simp [Store.find, hstored]
  | some l =>
    rw [hl] at hstored
    obtain ⟨start, ttl, hlease, hlast, hle, hs⟩ := hstored
    have hsum : start.toNat + ttl.toNat < 2^32 := by
      have := UInt32.le_iff_toNat_le.mp hle
      omega
    have hexpired := Lease.isExpired_stamp hsum l.value now
    rw [← hlease] at hexpired
    simp only [Store.find, hs, Option.filter, hexpired, Bool.not_not]
    split_ifs <;> simp

/-- A lease that has ended stays so. -/
theorem Lease.covers_mono {l : Lease} {t t' : ℕ} (hle : t ≤ t') (h : l.covers t' = true) :
    l.covers t = true := by
  simp only [covers, decide_eq_true_eq] at h ⊢
  omega

/-- When the last lease has ended, so have all of them. -/
theorem Leased.ended_of_mem {ι : Type} {key : Bytes} {last : UInt32}
    {history : List (Commit ι Call UInt32 Reply)} {store : Store}
    (h : Leased key last history store) {now : UInt32} (hsorted : ∀ c ∈ history, c.clock ≤ now)
    (hended : ∀ l ∈ (leases key history).getLast?, l.covers now.toNat = false) {a : Lease}
    (ha : a ∈ leases key history) : a.covers now.toNat = false := by
  have hdisjoint := h.disjoint
  rcases List.eq_nil_or_concat' (leases key history) with hnil | ⟨earlier, l, hleases⟩
  · rw [hnil] at ha
    cases ha
  · obtain ⟨c, hc, hstart⟩ :=
      start_of_mem_leases (show l ∈ leases key history by rw [hleases]; simp)
    rw [hleases] at ha hended hdisjoint
    rcases List.mem_append.mp ha with hearlier | hlast
    · -- It had ended when the last one began.
      have hbefore := (List.pairwise_append.mp hdisjoint).2.2 a hearlier l (by simp)
      have hle : l.start ≤ now.toNat := by
        rw [hstart]
        exact UInt32.le_iff_toNat_le.mp (hsorted c hc)
      refine Bool.eq_false_iff.mpr fun hcovers => ?_
      rw [Lease.covers_mono hle hcovers] at hbefore
      cases hbefore
    · obtain rfl := List.mem_singleton.mp hlast
      exact hended a (by simp)

/-- A whole call keeps the leases of the key apart. -/
theorem Leased.step {ι : Type} {key : Bytes} {last : UInt32}
    {past : List (Commit ι Call UInt32 Reply)} {c : Commit ι Call UInt32 Reply} {store : Store}
    (h : Leased key last past store) {maxItemSize : ℕ} (hplain : c.call.op.isPlainWrite = false)
    (hkey : c.call.op.OnKey key (AtomicOp.IsLease last)) (hlast : c.clock ≤ last)
    (hsorted : ∀ c' ∈ past, c'.clock ≤ c.clock)
    (hreply : ((c.call.script maxItemSize).whole c.clock store).1 = c.reply) :
    Leased key last (past ++ [c]) ((c.call.script maxItemSize).whole c.clock store).2 := by
  rcases Call.whole_cases hplain maxItemSize c.clock store key with ⟨hsame, hfail⟩ |
    ⟨op, value, ttl, creation, finish, hop, hk, -, hd, hr, hs⟩
  · -- The call gives no lease and leaves the item alone.
    have hnone : lease? key c = none := lease?_eq_none (hreply ▸ hfail)
    have hsame' : leases key (past ++ [c]) = leases key past := by
      rw [leases_concat, hnone]
      simp
    refine ⟨?_, by rw [hsame']; exact h.disjoint⟩
    rw [hsame', hsame]
    exact h.stored
  · -- The call is a `setNX` that has found nothing.
    have hlease := hkey op hop hk
    cases op <;> simp only [AtomicOp.IsLease] at hlease
    case setNX k value' ttl' =>
      obtain rfl : k = key := hk
      cases hf : store.find c.clock k with
      | some item => simp [hf, AtomicOp.decision, setNXDecision, Decision.map] at hd
      | none =>
        simp only [hf, AtomicOp.decision, setNXDecision, Decision.map, Decision.store.injEq] at hd
        obtain ⟨rfl, rfl, rfl, rfl⟩ := hd
        rw [hreply] at hr
        have hget : lease? k c = some ⟨value', c.clock.toNat, ttl'.toNat⟩ := by
          simp [lease?, hop, hr]
        have hleases : leases k (past ++ [c]) =
            leases k past ++ [⟨value', c.clock.toNat, ttl'.toNat⟩] := by
          rw [leases_concat, hget]
          rfl
        constructor
        · rw [hleases, List.getLast?_concat]
          exact ⟨c.clock, ttl', rfl, hlease, hlast, hs⟩
        · -- The last lease has ended, since its item is not found, and the others before it.
          have hended : ∀ l ∈ (leases k past).getLast?, l.covers c.clock.toNat = false := by
            intro l hl
            have hfind := h.find c.clock
            rw [hf, Option.mem_def.mp hl] at hfind
            cases hc : l.covers c.clock.toNat with
            | false => rfl
            | true => simp [Option.filter, hc] at hfind
          rw [hleases, List.pairwise_append]
          refine ⟨h.disjoint, by simp, fun a ha b hb => ?_⟩
          obtain rfl := List.mem_singleton.mp hb
          exact h.ended_of_mem hsorted hended ha

/-! ## Runs -/

/-- The clocks of the calls before one in the history are no later than its own. -/
theorem clock_le_of_initial {ι : Type} {past history : List (Commit ι Call UInt32 Reply)}
    {c : Commit ι Call UInt32 Reply} (hsorted : (history.map Commit.clock).Pairwise (· ≤ ·))
    (hinitial : past ++ [c] <+: history) : ∀ c' ∈ past, c'.clock ≤ c.clock := by
  intro c' hc'
  have hpast := hsorted.sublist (hinitial.sublist.map Commit.clock)
  rw [List.map_append, List.pairwise_append] at hpast
  exact hpast.2.2 c'.clock (List.mem_map_of_mem hc') c.clock (by simp)

section Runs

variable {ι : Type} [DecidableEq ι] {maxItemSize : ℕ} {program : ι → List Call} {store : Store}
  {now : UInt32} {m : Machine ι Call Store (Option Item) UInt32 Reply}

/-- Any number of clients use a key as a lease: it is not there at first, and `setNX` is the only
read-modify-write call on it, with deadlines that are 32-bit seconds. At every point of every run
without plain writes and evictions, with a second that stands still while the mutex is held,
each lease that was given began after all those before it had ended; what a reader finds under the
key is the value of the last lease, while that stands; and a `setNX` that was refused, with CacheLib
doing its part, was told the value of the lease that stood at its second. -/
theorem leases_disjoint (hrun : AtomicRun maxItemSize program store now m) {key : Bytes}
    (habsent : store key = none)
    (hkey : ∀ i, ∀ c ∈ program i, c.op.OnKey key (AtomicOp.IsLease m.clock)) :
    (leases key (commits m.trace)).Pairwise (fun a b => a.covers b.start = false) ∧
    (∀ t, (m.store.find t key).map Item.value =
      ((leases key (commits m.trace)).getLast?.filter (·.covers t.toNat)).map Lease.value) ∧
    ∀ pre c post value ttl, commits m.trace = pre ++ c :: post →
      c.call.op = .atomic (.setNX key value ttl) → c.reply ≠ .setNX { wasSet := true } →
      c.call.faults.findThrows = false →
      (c.call.env c.clock).accepts maxItemSize key value = true →
      ∃ l, (leases key pre).getLast? = some l ∧ l.covers c.clock.toNat = true ∧
        c.reply = .setNX { existingValue := l.value } := by
  have hser := hrun.serialized
  have hnil : Leased key m.clock ([] : List (Commit ι Call UInt32 Reply)) store :=
    ⟨habsent, List.Pairwise.nil⟩
  have hstep : ∀ past c s, past ++ [c] <+: commits m.trace → Leased key m.clock past s →
      ((c.call.script maxItemSize).whole c.clock s).1 = c.reply →
      Leased key m.clock (past ++ [c]) ((c.call.script maxItemSize).whole c.clock s).2 := by
    intro past c s hinitial hleased hreply
    have hc : c ∈ commits m.trace := hinitial.mem (by simp)
    have hprog := hser.programmed c hc
    exact hleased.step (hrun.atomic c.client c.call hprog) (hkey c.client c.call hprog)
      (hser.past c hc) (clock_le_of_initial hser.sorted hinitial) hreply
  have hend := hser.induction hnil hstep
  refine ⟨hend.disjoint, hend.find, ?_⟩
  intro pre c post value ttl hsplit hop hlost hfind haccepts
  obtain ⟨s, hleased, hreply⟩ := hser.call_induction hnil hstep hsplit
  have hread := hleased.find c.clock
  rw [(c.call.whole_eq_exec maxItemSize c.clock s).1, hop] at hreply
  have hm : (managerOf maxItemSize s).cache = some s := rfl
  cases hf : s.find c.clock key with
  | none =>
    -- With nothing found and the store accepted, the call would have succeeded.
    have hd : (AtomicOp.setNX key value ttl).decision c.clock (s.find c.clock key) =
        (setNXDecision value ttl none).map .setNX := by
      rw [hf]
      rfl
    rw [Op.exec, AtomicOp.exec_of_store rfl hfind hm hd haccepts] at hreply
    exact absurd hreply.symm hlost
  | some item =>
    have hd : (AtomicOp.setNX key value ttl).decision c.clock (s.find c.clock key) =
        .reply (.setNX { existingValue := item.value }) := by
      rw [hf]
      rfl
    rw [Op.exec, AtomicOp.exec_of_reply rfl hfind hm hd] at hreply
    rw [hf] at hread
    obtain ⟨l, hl, hvalue⟩ := Option.map_eq_some_iff.mp hread.symm
    obtain ⟨hlast, hcovers⟩ := Option.filter_eq_some_iff.mp hl
    exact ⟨l, hlast, hcovers, by rw [← hreply, hvalue]⟩

end Runs

/-- A client that takes the key `k` for ten seconds, and another that tries twice. -/
def contenders : Bool → List Call
  | false => [{ op := .atomic (.setNX [107] [49] 10) }]
  | true => [{ op := .atomic (.setNX [107] [50] 10) }, { op := .atomic (.setNX [107] [50] 10) }]

/-- The other's first try is in the last second of the lease, and its second one is after it. -/
def tryTwice : List (Choice Bool UInt32) :=
  List.replicate 5 (.run false) ++ .tick 15 :: List.replicate 4 (.run true) ++
    .tick 16 :: List.replicate 5 (.run true)

/-- The two leases of the run do not overlap. -/
theorem leases_disjoint_tryTwice :
    ∃ m : Machine Bool Call Store (Option Item) UInt32 Reply,
      run (Call.script 1024) (.init contenders (fun _ => none) 5) tryTwice = some m ∧
      leases [107] (commits m.trace) = [⟨[49], 5, 10⟩, ⟨[50], 16, 10⟩] ∧
      (leases [107] (commits m.trace)).Pairwise fun a b => a.covers b.start = false := by
  have hend : (run (Call.script 1024) (.init contenders (fun _ => none) 5) tryTwice).map
      (fun m => (m.clock, leases [107] (commits m.trace))) =
        some (16, [⟨[49], 5, 10⟩, ⟨[50], 16, 10⟩]) := by decide +kernel
  obtain ⟨m, hrun, hclock⟩ := Option.map_eq_some_iff.mp hend
  obtain ⟨hclock, hleases⟩ := Prod.mk.inj hclock
  have hreached : AtomicRun 1024 contenders (fun _ => none) 5 m :=
    ⟨⟨tryTwice, by simp [tryTwice], hrun⟩, by decide⟩
  refine ⟨m, hrun, hleases, (leases_disjoint hreached rfl fun i c hc op hop _ => ?_).1⟩
  rw [hclock]
  cases i <;> simp only [contenders, List.mem_cons, List.not_mem_nil, or_false, or_self] at hc <;>
    subst hc <;> cases hop <;> simp [AtomicOp.IsLease]

end CacheServer
