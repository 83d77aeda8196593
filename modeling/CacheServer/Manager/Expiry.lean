import CacheServer.Manager.Frame

/-!
# Rewrites that keep the deadline

`incr`, `increment` and `decrement` without a TTL, and `compareAndSwap` with `keepTtl` rewrite a
value under the item's old deadline. CacheLib has no way to set a deadline, so they pass `allocate`
the item's creation time and the difference of the two stamps, and count on it to add them up again.
Both sums are modulo 2^32, so they do add up for every item that `allocate` could have stamped
(`stamp_preserved`), and the stamps of an item are the same after any run of such rewrites
(`expiry_preserved`).
-/

namespace CacheServer

/-- The stamps are ones that `allocate` could have put on the item, with a creation time that is not
zero. The sum of the creation time and the TTL may have wrapped. -/
def Item.Stamped (item : Item) : Prop :=
  item.creationTime ≠ 0 ∧
    ∃ ttl : UInt32, item.expiryTime = if ttl = 0 then 0 else item.creationTime + ttl

/-- Every item that `allocate` hands out is stamped so, from the second 1 on. -/
theorem stamp_stamped {now : UInt32} (hnow : now ≠ 0) (value : Bytes) (ttl creation : UInt32) :
    (stamp now value ttl creation).Stamped := by
  refine ⟨?_, ttl, rfl⟩
  unfold stamp
  dsimp only
  split_ifs with h
  · exact hnow
  · exact h

/-- The preserved TTL, counted from the creation time, gives the same stamps again at any second. -/
theorem stamp_preserved {item : Item} (h : item.Stamped) (now : UInt32) (value : Bytes) :
    stamp now value item.preservedTtl item.creationTime = { item with value } := by
  obtain ⟨hcreation, ttl, hexpiry⟩ := h
  unfold stamp Item.preservedTtl
  by_cases h0 : item.expiryTime = 0
  · -- Without a deadline the preserved TTL is zero, which stamps none.
    simp [h0, hcreation]
  · -- A deadline differs from the creation time, since the TTL it was made from is not zero.
    have hexp : item.expiryTime = item.creationTime + ttl ∧ ttl ≠ 0 := by
      by_cases ht : ttl = 0
      · simp [ht] at hexpiry
        exact absurd hexpiry h0
      · simpa [ht] using hexpiry
    have hsub : item.expiryTime - item.creationTime = ttl := by
      rw [hexp.1, UInt32.add_comm, UInt32.add_sub_cancel]
    simp only [h0, hcreation, hsub, hexp.2, if_false, ← hexp.1]

/-! ## The rewrites -/

/-- The call is one that keeps the deadline of the item that it finds. `compareAndSwap` with
`keepTtl` does so whatever TTL it also carries. -/
def AtomicOp.KeepsDeadline (now : UInt32) (item : Item) : AtomicOp → Prop
  | .incr .. => item.expiryTime = 0 ∨ item.expiryTime > now
  | .increment _ _ ttlSeconds | .decrement _ _ ttlSeconds => ttlSeconds = 0
  | .compareAndSwap _ _ _ _ keepTtl => keepTtl = true
  | _ => False

/-- The end of `atomicAddValue` stores with the TTL and the creation time that it is given. -/
theorem addAndStore_stamps {current delta : Int64} {ttl creation ttl' creation' : UInt32}
    {value : Bytes} {finish : Bool → IncrDecrResult}
    (h : addAndStore current delta ttl creation = .store value ttl' creation' finish) :
    ttl' = ttl ∧ creation' = creation := by
  rw [addAndStore_eq] at h
  obtain ⟨httl, hcreation, -⟩ := storeSum_eq_store h
  exact ⟨httl, hcreation⟩

/-- The end of `incr` stores with the TTL and the creation time that it is given. -/
theorem incrAndStore_stamps {base delta : Int64} {ttl creation ttl' creation' : UInt32}
    {createdNew : Bool} {value : Bytes} {finish : Bool → IncrResult}
    (h : incrAndStore base delta ttl creation createdNew = .store value ttl' creation' finish) :
    ttl' = ttl ∧ creation' = creation := by
  rw [incrAndStore_eq] at h
  obtain ⟨httl, hcreation, -⟩ := storeSum_eq_store h
  exact ⟨httl, hcreation⟩

/-- Without a TTL, `atomicAddValue` stores with the stamps of the item that it finds. -/
theorem atomicAddValueDecision_stamps {delta : Int64} {item : Item} {value : Bytes}
    {ttl creation : UInt32} {finish : Bool → IncrDecrResult}
    (h : atomicAddValueDecision delta 0 (some item) = .store value ttl creation finish) :
    ttl = item.preservedTtl ∧ creation = item.creationTime := by
  simp only [atomicAddValueDecision, if_true] at h
  cases hp : parseWholeInt64 item.value with
  | none => simp [hp] at h
  | some v =>
    simp only [hp] at h
    exact addAndStore_stamps h

/-- A call that keeps the deadline stores with the stamps of the item that it finds. -/
theorem AtomicOp.KeepsDeadline.stamps {op : AtomicOp} {now : UInt32} {item : Item}
    (hkeeps : op.KeepsDeadline now item) {value : Bytes} {ttl creation : UInt32}
    {finish : Bool → Reply}
    (h : op.decision now (some item) = .store value ttl creation finish) :
    ttl = item.preservedTtl ∧ creation = item.creationTime := by
  cases op with
  | setNX | touch => exact hkeeps.elim
  | increment key delta ttl' =>
    obtain rfl : ttl' = 0 := hkeeps
    obtain ⟨finish', hd, -⟩ := Decision.map_eq_store h
    exact atomicAddValueDecision_stamps hd
  | decrement key delta ttl' =>
    obtain rfl : ttl' = 0 := hkeeps
    obtain ⟨finish', hd, -⟩ := Decision.map_eq_store h
    exact atomicAddValueDecision_stamps hd
  | incr key delta ttl' =>
    obtain ⟨finish', hd, -⟩ := Decision.map_eq_store h
    have hlive : item.expiryTime = 0 ∨ item.expiryTime > now := hkeeps
    simp only [incrDecision, if_pos hlive] at hd
    cases hp : parseWholeInt64 item.value with
    | none => simp [hp] at hd
    | some v =>
      simp only [hp] at hd
      exact incrAndStore_stamps hd
  | compareAndSwap key expected new ttl' keepTtl =>
    obtain rfl : keepTtl = true := hkeeps
    obtain ⟨finish', hd, -⟩ := Decision.map_eq_store h
    simp only [compareAndSwapDecision, if_true] at hd
    split_ifs at hd
    cases hd
    exact ⟨rfl, rfl⟩

/-- The call finds the item under the key, keeps its deadline, and succeeds. -/
structure Rewrites (key : Bytes) (env : Env) (m : CacheManager) (op : AtomicOp) : Prop where
  /-- The call is about the key. -/
  key_eq : op.key = key
  /-- It finds an item, whose deadline it is to keep. -/
  found : ∃ store item, m.cache = some store ∧ store.find env.now key = some item ∧
    op.KeepsDeadline env.now item
  /-- It succeeds. -/
  success : (op.exec env m).1.success = true

/-- A rewrite leaves the stamps of the item as they were. -/
theorem Rewrites.exec {key : Bytes} {env : Env} {m : CacheManager} {op : AtomicOp}
    (h : Rewrites key env m op) {item : Item} (hstored : m.stored key = some item)
    (hstamped : item.Stamped) :
    ∃ value, (op.exec env m).2.stored key = some { item with value } := by
  obtain ⟨rfl, ⟨store, found, hm, hfind, hkeeps⟩, hsuccess⟩ := h
  -- What `find` gives is the item that is stored.
  obtain rfl : item = found := by
    have hk := (Store.find_eq_some_iff.mp hfind).1
    simpa [CacheManager.stored, hm, hk] using hstored.symm
  obtain ⟨value, ttl, creation, finish, hd, he⟩ := AtomicOp.exec_of_success hm hsuccess
  rw [hfind] at hd
  obtain ⟨rfl, rfl⟩ := hkeeps.stamps hd
  refine ⟨value, ?_⟩
  rw [he, ← stamp_preserved hstamped env.now value]
  simp [CacheManager.stored]

/-- For every stored item with stamps that `allocate` could have put on it, and every run of
successful rewrites of it that keep its deadline, in any order and at any seconds: after every
prefix of the run, the item under the key has the creation time and the expiry that it had at the
start. -/
theorem expiry_preserved {key : Bytes} {m : CacheManager} {item : Item}
    (hstored : m.stored key = some item) (hstamped : item.Stamped) {calls : List (Env × AtomicOp)}
    (hcalls : ∀ pre env op post, calls = pre ++ (env, op) :: post →
      Rewrites key env (execAll m (pre.map fun c => (c.1, .atomic c.2))).2 op)
    {pre post : List (Env × AtomicOp)} (hpre : calls = pre ++ post) :
    ∃ value, (execAll m (pre.map fun c => (c.1, .atomic c.2))).2.stored key =
      some { value, creationTime := item.creationTime, expiryTime := item.expiryTime } := by
  -- Each rewrite finds the stamps that the one before left.
  induction pre using List.reverseRecOn generalizing post with
  | nil => exact ⟨item.value, hstored⟩
  | append_singleton pre x ih =>
    obtain ⟨env, op⟩ := x
    have hpre' : calls = pre ++ (env, op) :: post := by simpa using hpre
    obtain ⟨value, hstored'⟩ := ih hpre'
    simp only [List.map_append, List.map_cons, List.map_nil, execAll_concat, Op.exec]
    obtain ⟨value', hstored''⟩ := (hcalls pre env op post hpre').exec hstored' hstamped
    exact ⟨value', hstored''⟩

/-- A cache with a `1` under the key `k`, whose deadline wrapped past 2^32. -/
def wrapped : CacheManager where
  maxItemSize := 1024
  cache := some fun _ => some { value := [49], creationTime := 0xFFFFFFF6, expiryTime := 10 }

/-- Two rewrites, the second of them in the second of the deadline. -/
theorem expiry_preserved_wrapped :
    ∃ value, (execAll wrapped [({ now := 7 }, .atomic (.compareAndSwap [107] [49] [50] 99 true)),
        ({ now := 10 }, .atomic (.increment [107] 0 0))]).2.stored [107] =
      some { value, creationTime := 0xFFFFFFF6, expiryTime := 10 } := by
  refine @expiry_preserved [107] wrapped _ rfl ⟨by decide, 20, by decide⟩ _ ?_
    [({ now := 7 }, .compareAndSwap [107] [49] [50] 99 true), ({ now := 10 }, .increment [107] 0 0)]
    [] rfl
  intro pre env op post h
  match pre with
  | [] =>
    cases h
    exact ⟨rfl, ⟨_, _, rfl, rfl, rfl⟩, by decide +kernel⟩
  | [_] =>
    cases h
    exact ⟨rfl, ⟨_, _, rfl, rfl, rfl⟩, by decide +kernel⟩
  | _ :: _ :: _ => simp at h

end CacheServer
