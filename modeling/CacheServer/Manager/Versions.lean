import CacheServer.Manager.Linearizable

/-!
# A key as a chain of versions

Clients that change a key with `compareAndSwap` alone each name the value that they go on from. For
any number of them, and at every point of every run, every success takes up the value that the one
before it left, so no version is taken up twice (`swaps_chain`). The argument does not depend on the
TTLs: a key that has expired is not found, and then no further call succeeds on it.

The runs are those of `AtomicRun`, in any interleaving: the second stands still while
`atomicOpMutex_` is held, there is no plain `set` or `remove` in any program, and nothing is
evicted.
-/

namespace CacheServer

open Guarded

/-- The step that a call makes from one version to the next, when it is a `compareAndSwap` of the
key that succeeds. -/
def swap? {ι : Type} (key : Bytes) (c : Commit ι Call UInt32 Reply) : Option (Bytes × Bytes) :=
  match c.call.op, c.reply with
  | .atomic (.compareAndSwap k expected new _ _), .compareAndSwap r =>
    if k = key ∧ r.success then some (expected, new) else none
  | _, _ => none

/-- The steps of the key that a history makes. -/
def swaps {ι : Type} (key : Bytes) (history : List (Commit ι Call UInt32 Reply)) :
    List (Bytes × Bytes) :=
  history.filterMap (swap? key)

/-- The call is a `compareAndSwap`. -/
def AtomicOp.IsSwap : AtomicOp → Prop
  | .compareAndSwap .. => True
  | _ => False

/-- A step from one version to the next. -/
def Swaps (before : Option Bytes) (step : Bytes × Bytes) (after : Option Bytes) : Prop :=
  before = some step.1 ∧ after = some step.2

/-- The versions that are taken up are the first one and those that the steps before the last led
to. -/
theorem taken_of_walk {first last : Option Bytes} {steps : List (Bytes × Bytes)}
    (h : Walk Swaps first steps last) :
    steps.map Prod.fst <+: first.toList ++ steps.map Prod.snd := by
  induction steps generalizing first with
  | nil => exact List.nil_prefix
  | cons step rest ih =>
    obtain ⟨next, ⟨rfl, rfl⟩, hrest⟩ := h
    have htaken := ih hrest
    simpa using htaken

/-- Only a successful `compareAndSwap` of the key makes a step. -/
theorem swap?_eq_none {ι : Type} {key : Bytes} {c : Commit ι Call UInt32 Reply}
    (h : ∀ op, c.call.op = .atomic op → op.key = key → c.reply.success = false) :
    swap? key c = none := by
  unfold swap?
  split
  · rename_i k expected new ttl keepTtl r hop hreply
    rw [if_neg]
    rintro ⟨hk, hsuccess⟩
    have := h _ hop hk
    simp [hreply, Reply.success, hsuccess] at this
  · rfl

/-- A whole call that does not make a step leaves the version alone. -/
theorem swap_step {ι : Type} {key : Bytes} {c : Commit ι Call UInt32 Reply} {store : Store}
    {maxItemSize : ℕ} (hplain : c.call.op.isPlainWrite = false)
    (hkey : c.call.op.OnKey key AtomicOp.IsSwap)
    (hreply : ((c.call.script maxItemSize).whole c.clock store).1 = c.reply) :
    (swap? key c = none ∧
      (((c.call.script maxItemSize).whole c.clock store).2 key).map Item.value =
        (store key).map Item.value) ∨
    ∃ step, swap? key c = some step ∧ Swaps ((store key).map Item.value) step
      ((((c.call.script maxItemSize).whole c.clock store).2 key).map Item.value) := by
  rcases Call.whole_cases hplain maxItemSize c.clock store key with ⟨hsame, hfail⟩ |
    ⟨op, value, ttl, creation, finish, hop, hk, -, hd, hr, hs⟩
  · exact .inl ⟨swap?_eq_none (hreply ▸ hfail), by rw [hsame]⟩
  · -- The call is a `compareAndSwap` that has found the version it expects.
    have hswap := hkey op hop hk
    cases op <;> simp only [AtomicOp.IsSwap] at hswap
    case compareAndSwap k expected new ttl' keepTtl =>
      obtain rfl : k = key := hk
      cases hf : store.find c.clock k with
      | none => simp [hf, AtomicOp.decision, compareAndSwapDecision, Decision.map] at hd
      | some item =>
        have hitem := (Store.find_eq_some_iff.mp hf).1
        by_cases heq : item.value = expected
        · simp only [hf, AtomicOp.decision, compareAndSwapDecision, heq, not_true_eq_false,
            ne_eq, if_false, Decision.map, Decision.store.injEq] at hd
          obtain ⟨rfl, -, -, rfl⟩ := hd
          rw [hreply] at hr
          refine .inr ⟨(expected, new), by simp [swap?, hop, hr], ?_, by rw [hs]; rfl⟩
          rw [hitem, Option.map_some, heq]
        · simp [hf, AtomicOp.decision, compareAndSwapDecision, heq, Decision.map] at hd

section Runs

variable {ι : Type} [DecidableEq ι] {maxItemSize : ℕ} {program : ι → List Call} {store : Store}
  {now : UInt32} {m : Machine ι Call Store (Option Item) UInt32 Reply}

/-- Any number of clients change a key by `compareAndSwap` alone, with any TTLs, without plain
writes and evictions, and with a second that stands still while the mutex is held. At every point of
every run, the successful ones lead from the value that was there at first to the one that is stored
now, each of them from the value that the one before it left. So when no value is stored twice, none
is taken up twice. -/
theorem swaps_chain (hrun : AtomicRun maxItemSize program store now m) {key : Bytes}
    (hkey : ∀ i, ∀ c ∈ program i, c.op.OnKey key AtomicOp.IsSwap) :
    Walk Swaps ((store key).map Item.value) (swaps key (commits m.trace))
      ((m.store key).map Item.value) ∧
    ((((store key).map Item.value).toList ++ (swaps key (commits m.trace)).map Prod.snd).Nodup →
      ((swaps key (commits m.trace)).map Prod.fst).Nodup) := by
  have hser := hrun.serialized
  have hwalk : Walk Swaps ((store key).map Item.value) (swaps key (commits m.trace))
      ((m.store key).map Item.value) := by
    refine (hser.walk (fun s => (s key).map Item.value) (fun _ => True) trivial ?_).2
    intro c s hc _ hreply
    have hprog := hser.programmed c hc
    refine ⟨trivial, swap_step (hrun.atomic c.client c.call hprog) ?_ hreply⟩
    exact hkey c.client c.call hprog
  exact ⟨hwalk, fun hnodup => hnodup.sublist (taken_of_walk hwalk).sublist⟩

end Runs

/-- Two clients that both try to go on from the version `1`, and one of them from `2`. -/
def swappers : Bool → List Call
  | false => [{ op := .atomic (.compareAndSwap [107] [49] [50] 0 true) }]
  | true => [{ op := .atomic (.compareAndSwap [107] [49] [51] 0 true) },
      { op := .atomic (.compareAndSwap [107] [50] [51] 0 true) }]

/-- The second client is refused while the first one's version stands, and then goes on from it. -/
def oneAfterTheOther : List (Choice Bool UInt32) :=
  List.replicate 5 (.run false) ++ List.replicate 4 (.run true) ++ List.replicate 5 (.run true)

/-- The steps of the run form a chain. -/
theorem swaps_chain_two :
    ∃ m : Machine Bool Call Store (Option Item) UInt32 Reply,
      run (Call.script 1024) (.init swappers (fun _ => some one) 5) oneAfterTheOther = some m ∧
      swaps [107] (commits m.trace) = [([49], [50]), ([50], [51])] ∧
      Walk Swaps (some [49]) (swaps [107] (commits m.trace)) ((m.store [107]).map Item.value) := by
  have hend : (run (Call.script 1024) (.init swappers (fun _ => some one) 5) oneAfterTheOther).map
      (fun m => swaps [107] (commits m.trace)) = some [([49], [50]), ([50], [51])] := by
    decide +kernel
  obtain ⟨m, hrun, hswaps⟩ := Option.map_eq_some_iff.mp hend
  have hreached : AtomicRun 1024 swappers (fun _ => some one) 5 m :=
    ⟨⟨oneAfterTheOther, by simp [oneAfterTheOther], hrun⟩, by decide⟩
  refine ⟨m, hrun, hswaps, (swaps_chain hreached fun i c hc op hop _ => ?_).1⟩
  cases i <;> simp only [swappers, List.mem_cons, List.not_mem_nil, or_false] at hc
  · subst hc
    cases hop
    trivial
  · rcases hc with rfl | rfl <;> cases hop <;> trivial

end CacheServer
