import CacheServer.Lib.Serial
import CacheServer.Manager.Calls

/-!
# The manager under concurrent clients

The manager's calls as scripts for the machine of `Guarded.lean`. A read-modify-write call takes
`atomicOpMutex_` and then runs `find`, its decision, and its store as steps of their own. A read is
one `find`, and `set` and `remove` are one write that does not take the mutex. `Call.script_whole`
ties every script, run without interruption, to the operation that it stands for.

Among themselves and with reads, the read-modify-write calls are serializable
(`atomic_calls_serializable`).
-/

namespace CacheServer

open Guarded

/-- The clock seconds in their numerical order. -/
instance instPreorderSecond : Preorder UInt32 where
  le_refl := UInt32.le_refl
  le_trans _ _ _ := UInt32.le_trans
  lt_iff_le_not_ge a b := by
    simp only [UInt32.lt_iff_toNat_lt, UInt32.le_iff_toNat_le]
    omega

/-- A call in a client's program, with the failures that CacheLib answers it with. -/
structure Call where
  /-- The call. -/
  op : Op
  /-- The failures. -/
  faults : Faults := {}
deriving DecidableEq, Repr

/-- What the call runs in at a second. -/
def Call.env (c : Call) (now : UInt32) : Env := c.faults.env now

/-- The call writes without `atomicOpMutex_`. -/
def Op.isPlainWrite : Op → Bool
  | .set .. | .remove _ => true
  | _ => false

/-- What a decision means for the shared table: an answer, or a write. -/
def Decision.act (maxItemSize : ℕ) (c : Call) (key : Bytes) :
    Decision Reply → Reply ⊕ (UInt32 → Store → Reply × Store)
  | .reply r => .inl r
  | .abort a => .inl (.aborted a)
  | .store value ttlSeconds creationTime finish => .inr fun now store =>
    (store.setWithCreationTime (c.env now) maxItemSize key value ttlSeconds creationTime).map
      finish id

/-- The call as steps on the shared table. -/
def Call.script (maxItemSize : ℕ) (c : Call) : Script Store (Option Item) UInt32 Reply :=
  match c.op with
  | .get _ | .exists _ | .getTTL _ =>
    .read fun now store => (c.op.exec (c.env now) { maxItemSize, cache := some store }).1
  | .set key value ttlSeconds => .write fun now store =>
    (store.setWithCreationTime (c.env now) maxItemSize key value ttlSeconds 0).map .set id
  | .remove key => .write fun now store => (store.removeKey (c.env now) key).map .remove id
  | .atomic op =>
    match op.refusal with
    | some r => .answer r
    | none => .locked (fun now store => store.find now op.key) fun now found =>
      if c.faults.findThrows then .inl (.aborted .exception)
      else (op.decision now found).act maxItemSize c op.key

/-- A script run whole is the operation: it gives the same reply, and leaves the same table. -/
theorem Call.script_whole (c : Call) (now : UInt32) {m : CacheManager} {store : Store}
    (hm : m.cache = some store) :
    ∃ m', c.op.exec (c.env now) m = (((c.script m.maxItemSize).whole now store).1, m') ∧
      m'.cache = some ((c.script m.maxItemSize).whole now store).2 ∧
      m'.maxItemSize = m.maxItemSize := by
  obtain ⟨op, faults⟩ := c
  cases op with
  | get key =>
    simp only [script, Script.whole, Op.exec, CacheManager.get, hm]
    cases h : (Call.env ⟨.get key, faults⟩ now).findThrows with
    | true => simp
    | false =>
      cases store.find (Call.env ⟨.get key, faults⟩ now).now key with
      | none => simp
      | some item => cases h : (Call.env ⟨.get key, faults⟩ now).copyThrows <;> simp
  | «exists» key => simp [script, Script.whole, Op.exec, CacheManager.exists, hm]
  | getTTL key => simp [script, Script.whole, Op.exec, CacheManager.getTTL, hm]
  | set key value ttl =>
    simp [script, Script.whole, Op.exec, CacheManager.set, CacheManager.setWithCreationTime, hm]
  | remove key => simp [script, Script.whole, Op.exec, CacheManager.remove, hm]
  | atomic op =>
    cases href : op.refusal with
    | some r => simp [script, Script.whole, Op.exec, href, AtomicOp.exec_of_refusal href, hm]
    | none =>
      -- The steps under the mutex, put together, are `atomically`.
      simp only [script, href, Script.whole, Op.exec, AtomicOp.exec_eq_atomically href,
        CacheManager.atomically, hm]
      cases hf : faults.findThrows with
      | true => simp [Call.env, Faults.env, hf, Reply.ofExcept, hm]
      | false =>
        simp only [Call.env, Faults.env, hf, Bool.false_eq_true, if_false]
        cases op.decision now (store.find now op.key) with
        | reply r => simp [Decision.act, Reply.ofExcept, hm]
        | abort a => simp [Decision.act, Reply.ofExcept, hm]
        | store value ttl creation finish =>
          simp [Decision.act, Reply.ofExcept, CacheManager.setWithCreationTime, hm, Call.env,
            Faults.env]

/-- A call at its second, as an operation in its environment. -/
def Call.inEnv (c : UInt32 × Call) : Env × Op := (c.2.env c.1, c.2.op)

/-- A serial run of the scripts is a run of the operations. -/
theorem execAll_eq_serial {m : CacheManager} {store : Store} (hm : m.cache = some store)
    (calls : List (UInt32 × Call)) :
    (execAll m (calls.map Call.inEnv)).1 = (serial (Call.script m.maxItemSize) store calls).1 ∧
      (execAll m (calls.map Call.inEnv)).2.cache =
        some (serial (Call.script m.maxItemSize) store calls).2 := by
  induction calls generalizing m store with
  | nil => simp [execAll, serial, hm]
  | cons x calls ih =>
    obtain ⟨now, c⟩ := x
    obtain ⟨m', hexec, hcache, hsize⟩ := c.script_whole now hm
    obtain ⟨hreplies, hstore⟩ := ih hcache
    rw [hsize] at hreplies hstore
    simp only [List.map_cons, Call.inEnv, execAll, serial, hexec]
    exact ⟨by rw [hreplies], hstore⟩

/-! ## Serializability -/

/-- The calls of other than plain writes are scripts that write only under the mutex. -/
theorem Call.script_isWrite {c : Call} (h : c.op.isPlainWrite = false) (maxItemSize : ℕ) :
    (c.script maxItemSize).isWrite = false := by
  obtain ⟨op, faults⟩ := c
  cases op with
  | get | «exists» | getTTL => rfl
  | set | remove => cases h
  | atomic op => cases href : op.refusal <;> simp [script, href, Script.isWrite]

/-- A call's place in a serial order: the calls before it, and those after it. -/
def Placed {ι : Type} (order : List (Commit ι Call UInt32 Reply))
    (pre : List (Entry ι Call Store UInt32 Reply)) (e : Entry ι Call Store UInt32 Reply)
    (post : List (Entry ι Call Store UInt32 Reply)) : Prop :=
  ∀ r, e.kind = .once r → ∃ before after,
    order = before ++ ⟨e.client, e.call, e.clock, r⟩ :: after ∧
    (∀ e' ∈ pre, ∀ r', e'.kind = .write r' → ⟨e'.client, e'.call, e'.clock, r'⟩ ∈ before) ∧
    (∀ e' ∈ post, ∀ r', e'.kind = .write r' → ⟨e'.client, e'.call, e'.clock, r'⟩ ∈ after)

/-- In the order of the commits, a read has its place after the writes that came before it and
before those that came after. -/
theorem commits_placed {ι : Type} {trace pre post : List (Entry ι Call Store UInt32 Reply)}
    {e : Entry ι Call Store UInt32 Reply} (h : trace = pre ++ e :: post) :
    Placed (commits trace) pre e post := by
  intro r hr
  have hmem : ∀ es : List (Entry ι Call Store UInt32 Reply), ∀ e' ∈ es, ∀ r', e'.kind = .write r' →
      ⟨e'.client, e'.call, e'.clock, r'⟩ ∈ commits es := by
    intro es e' he' r' hr'
    exact List.mem_filterMap.mpr ⟨e', he', by simp [Entry.commit?, hr', StepKind.reply?]⟩
  refine ⟨commits pre, commits post, ?_, hmem pre, hmem post⟩
  subst h
  simp [commits, Entry.commit?, hr, StepKind.reply?]

/-- Any number of clients run any finite programs of read-modify-write calls and reads on a cache,
and the scheduler interleaves their steps in any way, as long as the second does not change while
`atomicOpMutex_` is held. Then the calls have a serial order in which, run whole one after
another, they leave the same table and give every client the replies that it had. The order keeps
each client's program, has the calls that take the mutex in the order in which they took it, and has
each read after the writes that came before it and before all the others. -/
theorem atomic_calls_serializable {ι : Type} [DecidableEq ι] {m₀ : CacheManager} {store : Store}
    (hcache : m₀.cache = some store) {program : ι → List Call}
    (hops : ∀ i, ∀ c ∈ program i, c.op.isPlainWrite = false) {now : UInt32}
    {sched : List (Choice ι UInt32)} (hsteady : ∀ t, Choice.drift t ∉ sched)
    {m : Machine ι Call Store (Option Item) UInt32 Reply}
    (hrun : run (Call.script m₀.maxItemSize) (.init program store now) sched = some m)
    (hdone : ∀ i, (m.thread i).todo = []) :
    ∃ order : List (Commit ι Call UInt32 Reply),
      (execAll m₀ ((order.map Commit.timed).map Call.inEnv)).1 = order.map Commit.reply ∧
      (execAll m₀ ((order.map Commit.timed).map Call.inEnv)).2.cache = some m.store ∧
      (∀ i, (ofClient i order).map Commit.call = program i ∧
        (ofClient i order).map Commit.reply = (m.thread i).replies) ∧
      lockOrder (Call.script m₀.maxItemSize) order = acquisitions m.trace ∧
      (order.map Commit.clock).Pairwise (· ≤ ·) ∧
      ∀ pre e post, m.trace = pre ++ e :: post → Placed order pre e post := by
  obtain ⟨hserial, hclients, hlock, hclock⟩ := serializable hrun
    (fun i c hc => Call.script_isWrite (hops i c hc) _) hsteady hdone
  -- The serial run of the scripts is one of the operations themselves.
  obtain ⟨hreplies, hstore⟩ := execAll_eq_serial hcache ((commits m.trace).map Commit.timed)
  rw [hserial] at hreplies hstore
  exact ⟨commits m.trace, hreplies, hstore, hclients, hlock, hclock,
    fun pre e post h => commits_placed h⟩

/-- A client that counts on the key `k`, and another that reads it. -/
def countAndRead : Bool → List Call
  | false => [{ op := .atomic (.incr [107] 1 60) }]
  | true => [{ op := .get [107] }, { op := .atomic (.compareAndSwap [107] [49] [50] 0 true) }]

/-- A schedule in which the read falls between the `find` of `incr` and its write. -/
def readInside : List (Choice Bool UInt32) :=
  List.replicate 3 (.run false) ++ [.run true, .run false, .run false, .tick 6] ++
    List.replicate 5 (.run true)

/-- The schedule runs to its end, and its calls have a serial order. -/
theorem atomic_calls_serializable_readInside :
    ∃ m : Machine Bool Call Store (Option Item) UInt32 Reply,
      run (Call.script 1024) (.init countAndRead (fun _ => none) 5) readInside = some m ∧
      (∀ i, (m.thread i).todo = []) ∧
      ∃ order : List (Commit Bool Call UInt32 Reply),
        (execAll { maxItemSize := 1024, cache := some fun _ => none }
          ((order.map Commit.timed).map Call.inEnv)).1 = order.map Commit.reply ∧
        ∀ i, (ofClient i order).map Commit.reply = (m.thread i).replies := by
  have hend : ∀ i, ((run (Call.script 1024) (.init countAndRead (fun _ => none) 5) readInside).map
      fun m => (m.thread i).todo) = some [] := by decide +kernel
  obtain ⟨m, hrun, -⟩ := Option.map_eq_some_iff.mp (hend false)
  have hdone : ∀ i, (m.thread i).todo = [] := fun i => by simpa [hrun] using hend i
  obtain ⟨order, hreplies, -, hclients, -⟩ := atomic_calls_serializable
    (show CacheManager.cache { maxItemSize := 1024, cache := some fun _ => none } = some _ from rfl)
    (by decide) (by simp [readInside]) hrun hdone
  exact ⟨m, hrun, hdone, order, hreplies, fun i => (hclients i).2⟩

end CacheServer
