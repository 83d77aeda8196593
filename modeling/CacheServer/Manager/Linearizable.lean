import CacheServer.Lib.History
import CacheServer.Manager.Interference
import CacheServer.Manager.Refinement

/-!
# Concurrent clients of the map

`atomic_calls_serializable` is about complete runs, and about the manager's own table. Here the two
reductions are put together: at every point of every run of read-modify-write calls and reads, the
calls that have taken effect are a history of the map with deadlines
(`atomic_calls_linearizable`). Each stands in it at one of its own steps, so the history also keeps
the order of calls that do not overlap.

The runs are those of `AtomicRun`. The second never goes back, and it stands still while
`atomicOpMutex_` is held. No program has a plain `set` or `remove`, of any key, since these do not
take the mutex. CacheLib evicts nothing in the meantime. The map needs four conditions more: the
second is not zero, the items have stamps that `allocate` could have put on them, every deadline
that is asked for is a 32-bit second, and CacheLib's lookups, copies, and removals do not throw.

`Call.whole_cases` is the step lemma for the protocols that clients build on one key: a whole call
leaves the item under the key alone, or it is a successful call on that key and has stored what it
decided to.
-/

namespace CacheServer

open Guarded TtlMap Transducer

section Runs

variable {ι : Type} [DecidableEq ι]

/-- A state that clients reach by read-modify-write calls and reads in any interleaving, as long as
the second does not change while `atomicOpMutex_` is held. There is no plain `set` or `remove` in
any program, and nothing is evicted. -/
structure AtomicRun (maxItemSize : ℕ) (program : ι → List Call) (store : Store) (now : UInt32)
    (m : Machine ι Call Store (Option Item) UInt32 Reply) : Prop where
  /-- Some schedule of the clients' steps leads there, in which the second changes only while the
  mutex is free. -/
  reached : ∃ sched : List (Choice ι UInt32), (∀ t, .drift t ∉ sched) ∧
    run (Call.script maxItemSize) (.init program store now) sched = some m
  /-- No program has a `set` or a `remove`. -/
  atomic : ∀ i, ∀ c ∈ program i, c.op.isPlainWrite = false

/-- The state is led to by the history of its calls. -/
theorem AtomicRun.serialized {maxItemSize : ℕ} {program : ι → List Call} {store : Store}
    {now : UInt32} {m : Machine ι Call Store (Option Item) UInt32 Reply}
    (h : AtomicRun maxItemSize program store now m) :
    Serialized (Call.script maxItemSize) program store now m := by
  obtain ⟨sched, hsteady, hrun⟩ := h.reached
  exact run_serialized hrun (fun i c hc => Call.script_isWrite (h.atomic i c hc) _) hsteady

end Runs

/-! ## Whole calls on the table -/

/-- A manager with the table. -/
def managerOf (maxItemSize : ℕ) (store : Store) : CacheManager where
  maxItemSize := maxItemSize
  cache := some store

/-- A script run whole is the operation on a manager with the table. -/
theorem Call.whole_eq_exec (c : Call) (maxItemSize : ℕ) (now : UInt32) (store : Store) :
    ((c.script maxItemSize).whole now store).1 =
        (c.op.exec (c.env now) (managerOf maxItemSize store)).1 ∧
      (c.op.exec (c.env now) (managerOf maxItemSize store)).2.cache =
        some ((c.script maxItemSize).whole now store).2 := by
  obtain ⟨m', hexec, hcache, -⟩ :=
    c.script_whole now (show (managerOf maxItemSize store).cache = some store from rfl)
  simp only [managerOf] at hexec hcache ⊢
  rw [hexec]
  exact ⟨rfl, hcache⟩

/-- A call without a plain write leaves the item under a key alone, and is no successful
read-modify-write call on the key, or it is one that decided to store and has stored. -/
theorem Call.whole_cases {c : Call} (hplain : c.op.isPlainWrite = false) (maxItemSize : ℕ)
    (now : UInt32) (store : Store) (key : Bytes) :
    (((c.script maxItemSize).whole now store).2 key = store key ∧
      ∀ op, c.op = .atomic op → op.key = key →
        ((c.script maxItemSize).whole now store).1.success = false) ∨
    ∃ op value ttl creation finish, c.op = .atomic op ∧ op.key = key ∧ op.refusal = none ∧
      op.decision now (store.find now key) = .store value ttl creation finish ∧
      ((c.script maxItemSize).whole now store).1 = finish true ∧
      ((c.script maxItemSize).whole now store).2 key = some (stamp now value ttl creation) := by
  obtain ⟨hreply, hcache⟩ := c.whole_eq_exec maxItemSize now store
  have hstored : ∀ k, (c.op.exec (c.env now) (managerOf maxItemSize store)).2.stored k =
      ((c.script maxItemSize).whole now store).2 k := by
    intro k
    simp [CacheManager.stored, hcache]
  have hm : (managerOf maxItemSize store).cache = some store := rfl
  rw [← hstored key, hreply]
  cases hop : c.op with
  -- A read leaves the table alone.
  | get | «exists» | getTTL =>
    refine .inl ⟨?_, fun op h => by cases h⟩
    simp [Op.exec, CacheManager.stored, CacheManager.get_cache, managerOf]
  | set | remove =>
    rw [hop] at hplain
    cases hplain
  | atomic op =>
    simp only [Op.exec, Op.atomic.injEq, forall_eq', exists_and_left, exists_eq_left']
    cases hs : (op.exec (c.env now) (managerOf maxItemSize store)).1.success with
    | false =>
      refine .inl ⟨?_, fun _ => rfl⟩
      rw [CacheManager.stored, AtomicOp.exec_of_not_success hs]
      rfl
    | true =>
      by_cases hkey : op.key = key
      · -- The call is on the key, and it was not refused, so that it has stored its decision.
        subst hkey
        have hnone : op.refusal = none := by
          by_contra href
          obtain ⟨r, href⟩ := Option.ne_none_iff_exists'.mp href
          rw [AtomicOp.exec_of_refusal href, AtomicOp.refusal_success href] at hs
          cases hs
        obtain ⟨value, ttl, creation, finish, hd, he⟩ := AtomicOp.exec_of_success hm hs
        refine .inr ⟨rfl, hnone, value, ttl, creation, finish, hd, by rw [he], ?_⟩
        simp [he, CacheManager.stored]
        rfl
      · -- It has stored under another key.
        refine .inl ⟨?_, fun h => absurd h hkey⟩
        rw [AtomicOp.stored_of_success hs (Ne.symm hkey)]
        rfl

/-- What a read-modify-write call does on the key is covered by the predicate. Calls on other keys
and reads are not restricted. -/
def Op.OnKey (key : Bytes) (P : AtomicOp → Prop) (op : Op) : Prop :=
  ∀ a, op = .atomic a → a.key = key → P a

/-! ## Linearizability -/

/-- The call asks for a deadline that is a 32-bit second whenever it is made up to the second
`last`, and CacheLib answers its lookups without an exception. Stores it may refuse. -/
structure Call.CalmUntil (last : UInt32) (c : Call) : Prop where
  /-- The deadline is a 32-bit second. -/
  deadline_lt : last.toNat + c.op.ttlSeconds.toNat < 2^32
  /-- `find` does not throw. -/
  findThrows : c.faults.findThrows = false
  /-- Nor does the copy of a value. -/
  copyThrows : c.faults.copyThrows = false
  /-- Nor does the removal of an item. -/
  removeThrows : c.faults.removeThrows = false

/-- A call that is calm until later is calm. -/
theorem Call.CalmUntil.calm {last now : UInt32} {c : Call} (h : c.CalmUntil last) (hnow : now ≠ 0)
    (hle : now ≤ last) : Calm (c.env now) c.op where
  now_ne_zero := hnow
  deadline_lt := by
    -- A deadline that is in range at the last second is in range at an earlier one.
    have hlt := h.deadline_lt
    have hle' := UInt32.le_iff_toNat_le.mp hle
    simp only [Call.env, Faults.env]
    omega
  findThrows := h.findThrows
  copyThrows := h.copyThrows
  removeThrows := h.removeThrows

/-- A call of the history on the map. -/
def specCommit {ι : Type} (maxItemSize : ℕ) (table : Table Bytes Bytes)
    (c : Commit ι Call UInt32 Reply) : Reply × Table Bytes Bytes :=
  c.call.op.spec maxItemSize (c.call.env c.clock) table

/-- A whole calm call on the table is what it means on the map. -/
theorem Call.whole_refines {c : Call} {now last : UInt32} (hcalm : c.CalmUntil last)
    (hnow : now ≠ 0) (hle : now ≤ last) (maxItemSize : ℕ) {store : Store}
    (hstamped : store.Stamped) :
    ((c.script maxItemSize).whole now store).1 =
        (c.op.spec maxItemSize (c.env now) store.contents).1 ∧
      ((c.script maxItemSize).whole now store).2.Stamped ∧
      ((c.script maxItemSize).whole now store).2.contents =
        (c.op.spec maxItemSize (c.env now) store.contents).2 := by
  obtain ⟨hreply, hcache⟩ := c.whole_eq_exec maxItemSize now store
  -- The refinement of one call, on a manager with this table.
  obtain ⟨hspec, hrep⟩ := Op.exec_refines (hcalm.calm hnow hle)
    (show (managerOf maxItemSize store).cache = some store from rfl) hstamped
  obtain ⟨store', hcache', hstamped', hcontents⟩ := hrep.cache
  rw [hcache] at hcache'
  cases hcache'
  exact ⟨hreply.trans hspec, hstamped', hcontents⟩

/-- Any number of clients run any finite programs of read-modify-write calls and reads on a cache in
any interleaving of their steps, with the second standing still while `atomicOpMutex_` is held, and
without plain writes or evictions. The second is not zero, the table is stamped at first, and every
call is calm until now. At every point of the run, the calls that have taken effect, in the order in
which they did, are a run of the map with deadlines: they have its replies, and the table stands for
the map that they leave. They are the first calls of each client's program, and the client's replies
are theirs. -/
theorem atomic_calls_linearizable {ι : Type} [DecidableEq ι] {maxItemSize : ℕ}
    {program : ι → List Call} {store : Store} {now : UInt32}
    {m : Machine ι Call Store (Option Item) UInt32 Reply}
    (hrun : AtomicRun maxItemSize program store now m) (hstamped : store.Stamped) (hnow : now ≠ 0)
    (hcalm : ∀ i, ∀ c ∈ program i, c.CalmUntil m.clock) :
    runAll (specCommit maxItemSize) store.contents (commits m.trace) =
        ((commits m.trace).map Commit.reply, m.store.contents) ∧
      m.store.Stamped ∧
      (∀ i, (ofClient i (commits m.trace)).map Commit.call <+: program i ∧
        (m.thread i).replies <+: (ofClient i (commits m.trace)).map Commit.reply) ∧
      ((commits m.trace).map Commit.clock).Pairwise (· ≤ ·) := by
  have hser := hrun.serialized
  have hmap := hser.induction
    (motive := fun past s => s.Stamped ∧ runAll (specCommit maxItemSize) store.contents past =
      (past.map Commit.reply, s.contents)) ⟨hstamped, rfl⟩ ?_
  · exact ⟨hmap.2, hmap.1, hser.answered, hser.sorted⟩
  -- Each call that takes effect is a whole call on the table that the calls before it have left.
  rintro past c s ⟨rest, hinitial⟩ ⟨hst, hpast⟩ hreply
  have hc : c ∈ commits m.trace := by simp [← hinitial]
  -- The second never goes back, so it is not zero either.
  have hclock : c.clock ≠ 0 := by
    intro h0
    have hle := UInt32.le_iff_toNat_le.mp (hser.started c hc)
    rw [h0] at hle
    exact hnow (UInt32.toNat_inj.mp (Nat.le_zero.mp hle))
  obtain ⟨hspec, hst', hcontents⟩ := Call.whole_refines
    (hcalm c.client c.call (hser.programmed c hc)) hclock (hser.past c hc) maxItemSize hst
  refine ⟨hst', ?_⟩
  have hc' : [c].map Commit.reply = [(specCommit maxItemSize s.contents c).1] := by
    rw [List.map_singleton, ← hreply, hspec]
    rfl
  rw [runAll_concat, hpast, List.map_append, hcontents, hc']
  rfl

/-- The two clients of `countAndRead` have such a history. -/
theorem atomic_calls_linearizable_readInside :
    ∃ m : Machine Bool Call Store (Option Item) UInt32 Reply,
      run (Call.script 1024) (.init countAndRead (fun _ => none) 5) readInside = some m ∧
      (commits m.trace).length = 3 ∧
      runAll (specCommit 1024) (Store.contents fun _ => none) (commits m.trace) =
        ((commits m.trace).map Commit.reply, m.store.contents) := by
  have hend : (run (Call.script 1024) (.init countAndRead (fun _ => none) 5) readInside).map
      (fun m => (m.clock, (commits m.trace).length)) = some (6, 3) := by decide +kernel
  obtain ⟨m, hrun, hclock⟩ := Option.map_eq_some_iff.mp hend
  obtain ⟨hclock, hlength⟩ := Prod.mk.inj hclock
  have hreached : AtomicRun 1024 countAndRead (fun _ => none) 5 m :=
    ⟨⟨readInside, by simp [readInside], hrun⟩, by decide⟩
  refine ⟨m, hrun, hlength, (atomic_calls_linearizable hreached (fun key item h => by cases h)
    (by decide) fun i c hc => ?_).1⟩
  rw [hclock]
  have hmem : c.op.ttlSeconds ≤ 60 ∧ c.faults = {} := by
    revert c
    cases i <;> simp [countAndRead, Op.ttlSeconds, AtomicOp.ttlSeconds]
  have hle := UInt32.le_iff_toNat_le.mp hmem.1
  simp only [UInt32.reduceToNat] at hle
  exact ⟨by simp only [UInt32.reduceToNat]; omega, by simp [hmem.2], by simp [hmem.2],
    by simp [hmem.2]⟩

end CacheServer
