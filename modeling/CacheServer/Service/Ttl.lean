import CacheServer.Manager.Expiry
import CacheServer.Service.Pipeline

/-!
# Requested TTLs

A requested `ttl_seconds` is a signed 64-bit number. The handlers cast it to 32 bits and CacheLib
adds it to the clock in 32 bits, and neither checks that it fits. `ttl_honoured_iff` says when the
TTL is honoured, on every path that takes one: exactly when the second of the deadline is below
2^32. For any other TTL, the item is stored without a deadline, or with one that has passed, or with
one that is too early (`ttl_overflows`).
-/

namespace CacheServer.Service

/-- A request that carries a TTL, on each of the paths that take one. An item of a `MultiSet` comes
with the items before and after it, and a set of a `Pipeline` with the requests before it. -/
inductive TtlRequest
  | set (faults : Faults) (request : SetRequest)
  | setNX (faults : Faults) (request : SetRequest)
  | increment (faults : Faults) (request : CountRequest)
  | decrement (faults : Faults) (request : CountRequest)
  | incr (faults : Faults) (request : CountRequest)
  | touch (faults : Faults) (request : TouchRequest)
  | multiSet (before : List (Faults × SetRequest)) (faults : Faults) (item : SetRequest)
      (after : List (Faults × SetRequest))
  | pipelineSet (before : List (Faults × PipelineRequest)) (faults : Faults) (sequenceId : UInt64)
      (request : SetRequest)

/-- The key of the request. -/
def TtlRequest.key : TtlRequest → Bytes
  | .set _ r | .setNX _ r | .multiSet _ _ r _ | .pipelineSet _ _ _ r => r.key
  | .increment _ r | .decrement _ r | .incr _ r => r.key
  | .touch _ r => r.key

/-- The TTL of the request. -/
def TtlRequest.ttlSeconds : TtlRequest → Int64
  | .set _ r | .setNX _ r | .multiSet _ _ r _ | .pipelineSet _ _ _ r => r.ttlSeconds
  | .increment _ r | .decrement _ r | .incr _ r => r.ttlSeconds
  | .touch _ r => r.ttlSeconds

/-- No later item of the same `MultiSet` has the key. -/
def TtlRequest.Last : TtlRequest → Prop
  | .multiSet _ _ item after => ∀ x ∈ after, x.2.key ≠ item.key
  | _ => True

/-- What the status and the response say, when the handler returns. -/
def reported {ρ : Type} (stored : Status → ρ → Bool) : Answer ρ → Bool
  | .ok (status, response) => stored status response
  | .error _ => false

/-- The calls of a batch or a stream, all at the second `n`. -/
def timed {α : Type} (n : UInt32) (calls : List (Faults × α)) : List (Env × α) :=
  calls.map fun x => (x.1.env n, x.2)

/-- The last response of a stream reports that a value was set. -/
def lastWasSet (responses : List PipelineResponse) : Bool :=
  match responses.getLast? with
  | some { result := some (.set response), .. } => response.success
  | _ => false

/-- The request served at the second `n`: whether the answer reports that the item was stored, and
the state that it leaves. An `Incr` stores the TTL when it creates the key, which it reports as
`ttl_set`. A `MultiSet` reports the keys that it could not store. -/
def TtlRequest.serve (n : UInt32) (m : CacheManager) : TtlRequest → Bool × CacheManager
  | .set faults r => (Service.set (faults.env n) m r).map (reported fun _ x => x.success) id
  | .setNX faults r => (Service.setNX (faults.env n) m r).map (reported fun _ x => x.wasSet) id
  | .increment faults r =>
    (Service.increment (faults.env n) m r).map (reported fun _ x => x.success) id
  | .decrement faults r =>
    (Service.decrement (faults.env n) m r).map (reported fun _ x => x.success) id
  | .incr faults r =>
    (Service.incr (faults.env n) m r).map (reported fun status x => status = .OK && x.ttlSet) id
  | .touch faults r => (Service.touch (faults.env n) m r).map (reported fun _ x => x.success) id
  | .multiSet before faults item after =>
    (Service.multiSet m (timed n (before ++ (faults, item) :: after))).map
      (reported fun status x =>
        status = .OK && !item.key.isEmpty && !x.failedKeys.contains item.key) id
  | .pipelineSet before faults sequenceId r =>
    (pipeline m (timed n (before ++ [(faults, { sequenceId, operation := some (.set r) })]))).map
      (fun answer => lastWasSet answer.2) id

/-! ## The arithmetic -/

/-- A positive TTL is narrowed modulo 2^32. -/
theorem narrowTtl_toNat {ttl : Int64} (hpos : 0 < ttl.toInt) :
    ((narrowTtl ttl).toNat : ℤ) = ttl.toInt % 2^32 := by
  have hgt : ttl > 0 := Int64.lt_iff_toInt_lt.mpr hpos
  have hcast : ttl.toUInt64.toNat = ttl.toNatClampNeg :=
    Int64.toNat_toUInt64_of_le (Int64.le_of_lt hgt)
  have hnat : (ttl.toNatClampNeg : ℤ) = ttl.toInt := by
    rw [← Int64.toNat_toInt, Int.toNat_of_nonneg hpos.le]
  rw [narrowTtl, if_pos hgt, UInt64.toNat_toUInt32, hcast]
  omega

/-- What is stored after a request with a TTL: where the narrowed TTL is not zero, the deadline is
the sum in 32 bits of the present second and the narrowed TTL. -/
def Lands (n : UInt32) (m : CacheManager) (key : Bytes) (ttl : Int64) : Prop :=
  key.isEmpty = false ∧ ∃ item, m.stored key = some item ∧
    (narrowTtl ttl ≠ 0 → item.expiryTime = n + narrowTtl ttl)

/-- The key is live at the second `n`, and `GetTTL` returns the TTL in that same second. -/
def Honoured (n : UInt32) (m : CacheManager) (key : Bytes) (ttl : Int64) : Prop :=
  m.exists { now := n } key = true ∧
    getTTL { now := n } m { key } = (.ok (.OK, { found := true, ttlSeconds := ttl.toInt }), m)

/-- What `exists` and `GetTTL` see of a stored item. -/
theorem honoured_iff {n : UInt32} {m : CacheManager} {key : Bytes} {item : Item}
    (hkey : key.isEmpty = false) (hitem : m.stored key = some item) {ttl : Int64}
    (hpos : 0 < ttl.toInt) :
    Honoured n m key ttl ↔ item.isExpired n = false ∧ item.ttlRemaining n = ttl.toInt := by
  obtain ⟨store, hm, hk⟩ := Option.bind_eq_some_iff.mp hitem
  have hready : m.isReady = true := by simp [CacheManager.isReady, hm]
  rw [Honoured, getTTL, keyed_of_not_isEmpty hready hkey]
  cases he : item.isExpired n with
  | true =>
    have hfind : store.find n key = none :=
      Store.find_eq_none_iff.mpr fun i hi => by rwa [← Option.some.inj (hk.symm.trans hi)]
    simp [CacheManager.exists, hm, hfind]
  | false =>
    have hfind : store.find n key = some item := Store.find_eq_some_iff.mpr ⟨hk, he⟩
    have hne : ttl.toInt ≠ -2 := by omega
    simp +contextual [CacheManager.exists, CacheManager.getTTL, hm, hfind, hne]

/-- The remaining TTL is a positive number exactly when the deadline is that much later. -/
theorem ttlRemaining_eq_iff {item : Item} {n : UInt32} {t : ℤ} (hpos : 0 < t) :
    item.ttlRemaining n = t ↔ (item.expiryTime.toNat : ℤ) = n.toNat + t := by
  unfold Item.ttlRemaining
  have hzero : item.expiryTime = 0 ↔ item.expiryTime.toNat = 0 := by
    rw [← UInt32.toNat_inj]
    rfl
  have hlt : item.expiryTime > n ↔ n.toNat < item.expiryTime.toNat := UInt32.lt_iff_toNat_lt
  split_ifs with h0 hgt
  · rw [hzero] at h0
    omega
  · have hsub : (item.expiryTime - n).toNat = item.expiryTime.toNat - n.toNat :=
      UInt32.toNat_sub_of_le _ _ (UInt32.le_of_lt hgt)
    rw [hlt] at hgt
    omega
  · rw [hlt] at hgt
    omega

/-- The deadline is the requested one exactly when it is below 2^32. -/
theorem Lands.expiryTime_iff {n : UInt32} {m : CacheManager} {key : Bytes} {ttl : Int64}
    (h : Lands n m key ttl) (hpos : 0 < ttl.toInt) {item : Item}
    (hitem : m.stored key = some item) :
    (item.expiryTime.toNat : ℤ) = n.toNat + ttl.toInt ↔ (n.toNat : ℤ) + ttl.toInt < 2^32 := by
  obtain ⟨-, item', hitem', hexpiry⟩ := h
  obtain rfl := Option.some.inj (hitem.symm.trans hitem')
  have hnarrow := narrowTtl_toNat hpos
  have hbound := item.expiryTime.toNat_lt
  constructor
  · -- A deadline in 32 bits is below 2^32.
    intro he
    omega
  · intro hlt
    -- Below 2^32 the narrowing keeps the TTL, and the sum does not wrap.
    have hne : narrowTtl ttl ≠ 0 := by
      intro h0
      rw [h0] at hnarrow
      simp at hnarrow
      omega
    rw [hexpiry hne, UInt32.toNat_add]
    omega

/-- The TTL is honoured exactly when the deadline is below 2^32. -/
theorem Lands.honoured_iff {n : UInt32} {m : CacheManager} {key : Bytes} {ttl : Int64}
    (h : Lands n m key ttl) (hpos : 0 < ttl.toInt) :
    Honoured n m key ttl ↔ (n.toNat : ℤ) + ttl.toInt < 2^32 := by
  obtain ⟨hkey, item, hitem, -⟩ := id h
  rw [Service.honoured_iff hkey hitem hpos, ttlRemaining_eq_iff hpos, ← h.expiryTime_iff hpos hitem,
    and_iff_right_iff_imp]
  intro he
  -- The deadline is still to come.
  by_contra hexp
  have := (Item.isExpired_iff.mp (Bool.not_eq_false _ ▸ hexp)).2
  omega

/-! ## The paths -/

/-- A stamp at the present second has the deadline that the TTL asks for, in 32 bits. -/
theorem stamp_expiryTime {ttl : UInt32} (h : ttl ≠ 0) (now : UInt32) (value : Bytes) :
    (stamp now value ttl 0).expiryTime = now + ttl := by
  simp [stamp, h]

/-- A successful `set` stores the stamped value. -/
theorem stored_of_set {env : Env} {m : CacheManager} {key value : Bytes} {ttl : UInt32}
    (h : (m.set env key value ttl).1 = true) :
    (m.set env key value ttl).2.stored key = some (stamp env.now value ttl 0) := by
  obtain ⟨store, -, hcache⟩ := CacheManager.set_of_true h
  rw [CacheManager.stored, hcache]
  exact Store.insertOrReplace_same ..

/-- A successful `set` of a narrowed TTL lands. -/
theorem lands_of_set {n : UInt32} {faults : Faults} {m m' : CacheManager} {key value : Bytes}
    {ttl : Int64} (hkey : key.isEmpty = false)
    (h : (m.set (faults.env n) key value (narrowTtl ttl)).1 = true)
    (hm' : m'.stored key = (m.set (faults.env n) key value (narrowTtl ttl)).2.stored key) :
    Lands n m' key ttl :=
  ⟨hkey, _, hm'.trans (stored_of_set h), fun hne => stamp_expiryTime hne n value⟩

/-- What a handler that checks its key reports, it reports of a key that is not empty, and with a
cache. -/
theorem keyed_cases {ρ : Type} {m : CacheManager} {key : Bytes} {rejected : String → ρ}
    {body : Answer ρ × CacheManager} {stored : Status → ρ → Bool}
    (hno : ∀ status message, status ≠ .OK → stored status (rejected message) = false)
    (h : reported stored (keyed m key rejected body).1 = true) :
    m.isReady = true ∧ key.isEmpty = false ∧ keyed m key rejected body = body := by
  -- The two refusals come with a status other than `OK`, and so report nothing.
  have hunavailable (s : String) : (⟨.unavailable, s⟩ : Status) ≠ .OK := by simp [Status.OK]
  have hinvalid (s : String) : (⟨.invalidArgument, s⟩ : Status) ≠ .OK := by simp [Status.OK]
  cases hready : m.isReady with
  | false => simp [keyed, ready, hready, reported, hno _ _ (hunavailable _)] at h
  | true =>
    cases hkey : key.isEmpty with
    | true =>
      rw [keyed_of_isEmpty hready hkey] at h
      simp [reported, hno _ _ (hinvalid _)] at h
    | false => exact ⟨rfl, rfl, keyed_of_not_isEmpty hready hkey ..⟩

/-- A successful read-modify-write call that stamps its own TTL at the present second lands. -/
theorem lands_of_exec (op : AtomicOp) {n : UInt32} {faults : Faults} {m : CacheManager}
    {ttl : Int64} (hready : m.isReady = true) (hkey : op.key.isEmpty = false)
    (hsuccess : (op.exec (faults.env n) m).1.success = true)
    (hstamps : ∀ found value ttl' creation finish,
      op.decision n found = .store value ttl' creation finish →
      finish true = (op.exec (faults.env n) m).1 → narrowTtl ttl ≠ 0 →
      ttl' = narrowTtl ttl ∧ creation = 0) :
    Lands n (op.exec (faults.env n) m).2 op.key ttl := by
  obtain ⟨store, hm⟩ := Option.isSome_iff_exists.mp hready
  obtain ⟨value, ttl', creation, finish, hd, he⟩ := AtomicOp.exec_of_success hm hsuccess
  refine ⟨hkey, stamp n value ttl' creation, ?_, fun hne => ?_⟩
  · rw [he]
    exact Store.insertOrReplace_same ..
  · obtain ⟨rfl, rfl⟩ := hstamps _ _ _ _ _ hd (by rw [he]) hne
    exact stamp_expiryTime hne n value

/-- With a TTL, `atomicAddValue` stamps it at the present second. -/
theorem atomicAddValueDecision_restamps {delta : Int64} {ttl : UInt32} (hne : ttl ≠ 0)
    {found : Option Item} {value : Bytes} {ttl' creation : UInt32}
    {finish : Bool → IncrDecrResult}
    (h : atomicAddValueDecision delta ttl found = .store value ttl' creation finish) :
    ttl' = ttl ∧ creation = 0 := by
  cases found with
  | none => exact addAndStore_stamps h
  | some existing =>
    -- An existing number gets the new TTL as well, since one is given.
    simp only [atomicAddValueDecision, if_neg hne] at h
    cases hp : parseWholeInt64 existing.value with
    | none => simp [hp] at h
    | some v =>
      simp only [hp] at h
      exact addAndStore_stamps h

/-- An `incr` that creates the key stamps its TTL at the present second. -/
theorem incrDecision_restamps {now : UInt32} {delta : Int64} {ttl : UInt32} {found : Option Item}
    {value : Bytes} {ttl' creation : UInt32} {finish : Bool → IncrResult}
    (h : incrDecision now delta ttl found = .store value ttl' creation finish)
    (hset : (finish true).ttlSet = true) : ttl' = ttl ∧ creation = 0 := by
  cases found with
  | none => exact incrAndStore_stamps h
  | some existing =>
    simp only [incrDecision] at h
    split_ifs at h
    · cases hp : parseWholeInt64 existing.value with
      | none => simp [hp] at h
      | some v =>
        -- A call that counts on does not report that it set the TTL.
        simp only [hp, incrAndStore_eq] at h
        obtain ⟨-, -, sum, -, rfl⟩ := storeSum_eq_store h
        cases hset
    · exact incrAndStore_stamps h

/-- A handler that checks its key and responds with the manager's result lands, when a response that
reports a store comes from a result that does, and the call stamps its own TTL at the present
second. -/
theorem lands_of_respond {ρ ρ' : Type} (op : AtomicOp) {n : UInt32} {faults : Faults}
    {m : CacheManager} {ttl : Int64} {result : Except Abort ρ × CacheManager} {wrap : ρ → Reply}
    (hexec : op.exec (faults.env n) m = (Reply.ofExcept wrap result.1, result.2)) {f : ρ → ρ'}
    {stored : ρ' → Bool} (hstored : ∀ x, stored (f x) = true → (wrap x).success = true)
    {rejected : String → ρ'} (hrejected : ∀ message, stored (rejected message) = false)
    (h : reported (fun _ x => stored x) (keyed m op.key rejected (respond f result)).1 = true)
    (hstamps : ∀ found value ttl' creation finish,
      op.decision n found = .store value ttl' creation finish → narrowTtl ttl ≠ 0 →
      ttl' = narrowTtl ttl ∧ creation = 0) :
    Lands n (keyed m op.key rejected (respond f result)).2 op.key ttl := by
  obtain ⟨hready, hkey, hbody⟩ := keyed_cases (fun _ message _ => hrejected message) h
  rw [hbody] at h ⊢
  -- A reported store is one that the manager has made.
  have hsuccess : (op.exec (faults.env n) m).1.success = true := by
    rw [hexec]
    cases hr : result.1 with
    | error a => simp [respond, hr, Except.map, reported] at h
    | ok x =>
      simp only [respond, hr, Except.map, reported] at h
      exact hstored x h
  have hlands := lands_of_exec op hready hkey hsuccess
    fun found value ttl' creation finish hd _ => hstamps found value ttl' creation finish hd
  rw [hexec] at hlands
  exact hlands

/-! ### Every single-key request that reports that it stored the item lands -/

/-- An acknowledged `SetNX` leaves its deadline. -/
theorem lands_of_setNX {n : UInt32} {faults : Faults} {m : CacheManager} {r : SetRequest}
    (h : (TtlRequest.serve n m (.setNX faults r)).1 = true) :
    Lands n (TtlRequest.serve n m (.setNX faults r)).2 r.key r.ttlSeconds := by
  refine lands_of_respond (.setNX r.key r.value (narrowTtl r.ttlSeconds)) rfl ?_ ?_ h ?_
  · intro x hx
    cases hw : x.wasSet with
    | true => exact hw
    | false => simp [hw] at hx
  · exact fun message => rfl
  · intro found value ttl' creation finish hd _
    obtain ⟨finish', hd, -⟩ := Decision.map_eq_store hd
    cases found with
    | none =>
      cases hd
      exact ⟨rfl, rfl⟩
    -- A key that is there is not stored again.
    | some existing => cases hd

/-- So does an acknowledged `Increment` that asks for a TTL. -/
theorem lands_of_increment {n : UInt32} {faults : Faults} {m : CacheManager} {r : CountRequest}
    (h : (TtlRequest.serve n m (.increment faults r)).1 = true) :
    Lands n (TtlRequest.serve n m (.increment faults r)).2 r.key r.ttlSeconds := by
  refine lands_of_respond
    (.increment r.key (effectiveDelta r.delta) (narrowTtl r.ttlSeconds)) rfl ?_ ?_ h ?_
  · exact fun x hx => hx
  · exact fun message => rfl
  · intro found value ttl' creation finish hd hne
    obtain ⟨finish', hd, -⟩ := Decision.map_eq_store hd
    exact atomicAddValueDecision_restamps hne hd

/-- So does an acknowledged `Decrement` that asks for one. -/
theorem lands_of_decrement {n : UInt32} {faults : Faults} {m : CacheManager} {r : CountRequest}
    (h : (TtlRequest.serve n m (.decrement faults r)).1 = true) :
    Lands n (TtlRequest.serve n m (.decrement faults r)).2 r.key r.ttlSeconds := by
  refine lands_of_respond
    (.decrement r.key (effectiveDelta r.delta) (narrowTtl r.ttlSeconds)) rfl ?_ ?_ h ?_
  · exact fun x hx => hx
  · exact fun message => rfl
  · intro found value ttl' creation finish hd hne
    obtain ⟨finish', hd, -⟩ := Decision.map_eq_store hd
    exact atomicAddValueDecision_restamps hne hd

/-- So does an acknowledged `Touch`. -/
theorem lands_of_touch {n : UInt32} {faults : Faults} {m : CacheManager} {r : TouchRequest}
    (h : (TtlRequest.serve n m (.touch faults r)).1 = true) :
    Lands n (TtlRequest.serve n m (.touch faults r)).2 r.key r.ttlSeconds := by
  refine lands_of_respond (.touch r.key (narrowTtl r.ttlSeconds)) rfl ?_ ?_ h ?_
  · exact fun x hx => hx
  · exact fun message => rfl
  · intro found value ttl' creation finish hd _
    obtain ⟨finish', hd, -⟩ := Decision.map_eq_store hd
    cases found with
    -- There is nothing to touch.
    | none => cases hd
    | some existing =>
      cases hd
      exact ⟨rfl, rfl⟩

/-- So does an `Incr` that has created its key. -/
theorem lands_of_incr {n : UInt32} {faults : Faults} {m : CacheManager} {r : CountRequest}
    (h : (TtlRequest.serve n m (.incr faults r)).1 = true) :
    Lands n (TtlRequest.serve n m (.incr faults r)).2 r.key r.ttlSeconds := by
  simp only [TtlRequest.serve, Prod.map, incr] at h ⊢
  obtain ⟨hready, hkey, hbody⟩ := keyed_cases (by simp) h
  rw [hbody] at h ⊢
  cases hr : (m.incr (faults.env n) r.key (effectiveDelta r.delta) (narrowTtl r.ttlSeconds)).1 with
  | error a => simp [hr, Except.map, reported] at h
  | ok result =>
    obtain ⟨hsuccess, hset⟩ : result.success = true ∧ result.ttlSet = true := by
      cases hs : result.success <;> simp_all [Except.map, reported, Status.OK]
    refine lands_of_exec (.incr r.key (effectiveDelta r.delta) (narrowTtl r.ttlSeconds)) hready
      hkey ?_ ?_
    · simp [AtomicOp.exec, hr, Reply.ofExcept, Reply.success, hsuccess]
    · intro found value ttl' creation finish hd hfinish _
      obtain ⟨finish', hd, hf⟩ := Decision.map_eq_store hd
      rw [hf] at hfinish
      have hreply : finish' true = result := by
        simpa [AtomicOp.exec, hr, Reply.ofExcept] using hfinish
      exact incrDecision_restamps hd (by rw [hreply, hset])

/-- So does an acknowledged `Set`. -/
theorem lands_of_setRequest {n : UInt32} {faults : Faults} {m : CacheManager} {r : SetRequest}
    (h : (TtlRequest.serve n m (.set faults r)).1 = true) :
    Lands n (TtlRequest.serve n m (.set faults r)).2 r.key r.ttlSeconds := by
  simp only [TtlRequest.serve, Prod.map, set] at h ⊢
  obtain ⟨-, hkey, hbody⟩ := keyed_cases (by simp) h
  rw [hbody] at h ⊢
  refine lands_of_set (m := m) (n := n) hkey ?_ rfl
  cases hs : (m.set (faults.env n) r.key r.value (narrowTtl r.ttlSeconds)).1 with
  | true => rfl
  | false => simp [hs, reported] at h

/-- A `multiSet` leaves the items under other keys alone. -/
theorem stored_multiSet_of_ne (m : CacheManager) {items : List (Env × Bytes × Bytes × UInt32)}
    {k : Bytes} (h : ∀ x ∈ items, x.2.1 ≠ k) : (m.multiSet items).2.stored k = m.stored k := by
  induction items generalizing m with
  | nil => rfl
  | cons x items ih =>
    obtain ⟨env, key, value, ttl⟩ := x
    have hk : k ≠ key := (h _ List.mem_cons_self).symm
    calc (m.multiSet ((env, key, value, ttl) :: items)).2.stored k
        = (m.set env key value ttl).2.stored k :=
          ih _ fun y hy => h y (List.mem_cons_of_mem _ hy)
      _ = m.stored k := m.stored_set_of_ne env hk value ttl

/-- An item of a `multiSet` whose key is not among those that failed was set, and it is what is left
under the key when no later item has it. -/
theorem multiSet_of_not_mem {m : CacheManager} {pre post : List (Env × Bytes × Bytes × UInt32)}
    {env : Env} {key value : Bytes} {ttl : UInt32} (hpost : ∀ x ∈ post, x.2.1 ≠ key)
    (h : key ∉ (m.multiSet (pre ++ (env, key, value, ttl) :: post)).1) :
    ∃ m₁ : CacheManager, (m₁.set env key value ttl).1 = true ∧
      (m.multiSet (pre ++ (env, key, value, ttl) :: post)).2.stored key =
        (m₁.set env key value ttl).2.stored key := by
  induction pre generalizing m with
  | nil =>
    refine ⟨m, ?_, stored_multiSet_of_ne _ hpost⟩
    -- A `set` that fails adds its key to the failed ones.
    cases hs : (m.set env key value ttl).1 with
    | true => rfl
    | false => simp [CacheManager.multiSet, hs] at h
  | cons x pre ih =>
    -- Whatever the first item does, the rest goes on from the state that it leaves.
    obtain ⟨env', key', value', ttl'⟩ := x
    refine ih (m := (m.set env' key' value' ttl').2) fun hmem => h ?_
    simp only [List.cons_append, CacheManager.multiSet]
    split_ifs
    · exact hmem
    · exact List.mem_cons_of_mem _ hmem

/-- So does an item of a `MultiSet` that has not failed and is the last one of its key. -/
theorem lands_of_multiSet {n : UInt32} {m : CacheManager}
    {before after : List (Faults × SetRequest)} {faults : Faults} {item : SetRequest}
    (hlast : ∀ x ∈ after, x.2.key ≠ item.key)
    (h : (TtlRequest.serve n m (.multiSet before faults item after)).1 = true) :
    Lands n (TtlRequest.serve n m (.multiSet before faults item after)).2 item.key
      item.ttlSeconds := by
  simp only [TtlRequest.serve, Prod.map, multiSet] at h ⊢
  cases hready : m.isReady with
  | false => simp [ready, hready, reported, Status.OK] at h
  | true =>
    simp only [ready, hready, Bool.not_true, Bool.false_eq_true, if_false, reported, decide_true,
      Bool.true_and, Bool.and_eq_true, Bool.not_eq_true', List.contains_eq_mem,
      decide_eq_false_iff_not] at h ⊢
    obtain ⟨hkey, hfailed⟩ := h
    have hitems : multiSetItems (timed n (before ++ (faults, item) :: after)) =
        multiSetItems (timed n before) ++
          (faults.env n, item.key, item.value, narrowTtl item.ttlSeconds) ::
            multiSetItems (timed n after) := by
      simp [multiSetItems, timed, hkey]
    rw [hitems] at hfailed ⊢
    -- No later item that is tried has the key.
    have hpost : ∀ x ∈ multiSetItems (timed n after), x.2.1 ≠ item.key := by
      intro x hx
      simp only [multiSetItems, timed, List.mem_map, List.mem_filter] at hx
      obtain ⟨_, ⟨⟨y, hy, rfl⟩, -⟩, rfl⟩ := hx
      exact hlast y hy
    obtain ⟨m₁, hset, hstored⟩ := multiSet_of_not_mem hpost hfailed
    exact lands_of_set hkey hset hstored

/-- One more request at the end of a stream. -/
theorem pipelineLoop_concat (m : CacheManager) (stream : List (Env × PipelineRequest)) (env : Env)
    (request : PipelineRequest) :
    pipelineLoop m (stream ++ [(env, request)]) =
      ((pipelineLoop m stream).1 ++ [(pipelineTurn env (pipelineLoop m stream).2 request).1],
        (pipelineTurn env (pipelineLoop m stream).2 request).2) := by
  induction stream generalizing m with
  | nil => rfl
  | cons x stream ih =>
    obtain ⟨env', request'⟩ := x
    simp [pipelineLoop, ih]

/-- So does an acknowledged `Set` of a stream, at its end. -/
theorem lands_of_pipelineSet {n : UInt32} {m : CacheManager}
    {before : List (Faults × PipelineRequest)} {faults : Faults} {sequenceId : UInt64}
    {r : SetRequest}
    (h : (TtlRequest.serve n m (.pipelineSet before faults sequenceId r)).1 = true) :
    Lands n (TtlRequest.serve n m (.pipelineSet before faults sequenceId r)).2 r.key
      r.ttlSeconds := by
  simp only [TtlRequest.serve, Prod.map, pipeline, timed, List.map_append, List.map_cons,
    List.map_nil, pipelineLoop_concat] at h ⊢
  cases hready : m.isReady with
  | false => simp [hready, lastWasSet] at h
  | true =>
    simp only [hready, Bool.not_true, Bool.false_eq_true, if_false, lastWasSet,
      List.getLast?_append, List.getLast?_singleton, Option.some_or, pipelineTurn] at h ⊢
    cases hkey : r.key.isEmpty with
    | true => simp [hkey] at h
    | false =>
      simp only [hkey, Bool.false_eq_true, if_false, ← narrowTtl.eq_def] at h ⊢
      exact lands_of_set hkey h rfl

/-- On every path, a request that reports that it stored the item lands. -/
theorem TtlRequest.lands {n : UInt32} {m : CacheManager} {request : TtlRequest}
    (hlast : request.Last) (h : (request.serve n m).1 = true) :
    Lands n (request.serve n m).2 request.key request.ttlSeconds := by
  cases request with
  | set faults r => exact lands_of_setRequest h
  | setNX faults r => exact lands_of_setNX h
  | increment faults r => exact lands_of_increment h
  | decrement faults r => exact lands_of_decrement h
  | incr faults r => exact lands_of_incr h
  | touch faults r => exact lands_of_touch h
  | multiSet before faults item after => exact lands_of_multiSet hlast h
  | pipelineSet before faults sequenceId r => exact lands_of_pipelineSet h

/-! ## When a TTL is honoured -/

/-- While the key is live, `SetNX` does not set it. -/
theorem setNX_of_exists {n : UInt32} {m : CacheManager} {key : Bytes}
    (h : m.exists { now := n } key = true) (faults : Faults) (value : Bytes) (ttlSeconds : Int64) :
    reported (fun _ x => x.wasSet) (setNX (faults.env n) m { key, value, ttlSeconds }).1 =
      false := by
  cases hm : m.cache with
  | none => simp [CacheManager.exists, hm] at h
  | some store =>
    obtain ⟨item, hfind⟩ : ∃ item, store.find n key = some item := by
      simpa [CacheManager.exists, hm, Option.isSome_iff_exists] using h
    cases hkey : key.isEmpty with
    | true => simp [setNX, keyed, ready, CacheManager.isReady, hm, hkey, reported]
    | false =>
      -- The lookup finds the item or throws, and neither way is the key set.
      cases hf : faults.findThrows <;>
        simp [setNX, keyed, ready, CacheManager.isReady, hm, hkey, respond, CacheManager.setNX,
          CacheManager.atomically, Faults.env, hf, hfind, setNXDecision, Except.map, reported]

/-- For every second `n`, every state, and every request with a positive TTL, on every path that
takes one: when the request reports that it stored the item, the TTL is honoured exactly when
`n + ttl_seconds` is below 2^32. In that case the deadline is stamped as that very second, so that a
larger TTL does not give an earlier one, and no `SetNX` in the same second sets the key again. -/
theorem ttl_honoured_iff {n : UInt32} {m : CacheManager} {request : TtlRequest}
    (hpos : 0 < request.ttlSeconds.toInt) (hlast : request.Last)
    (hreport : (request.serve n m).1 = true) :
    (Honoured n (request.serve n m).2 request.key request.ttlSeconds ↔
        (n.toNat : ℤ) + request.ttlSeconds.toInt < 2^32) ∧
      ((n.toNat : ℤ) + request.ttlSeconds.toInt < 2^32 →
        (∃ item, (request.serve n m).2.stored request.key = some item ∧
          (item.expiryTime.toNat : ℤ) = n.toNat + request.ttlSeconds.toInt) ∧
        ∀ (faults : Faults) (value : Bytes) (ttlSeconds : Int64),
          reported (fun _ x => x.wasSet) (Service.setNX (faults.env n) (request.serve n m).2
            { key := request.key, value, ttlSeconds }).1 = false) := by
  have hlands := TtlRequest.lands hlast hreport
  have hiff := hlands.honoured_iff hpos
  refine ⟨hiff, fun hlt => ⟨?_, fun faults value ttl => ?_⟩⟩
  · obtain ⟨-, item, hitem, -⟩ := id hlands
    exact ⟨item, hitem, (hlands.expiryTime_iff hpos hitem).mpr hlt⟩
  · exact setNX_of_exists (hiff.mpr hlt).1 faults value ttl

/-- A TTL of a minute is honoured. -/
theorem ttl_honoured_minute :
    Honoured 1700000000 (TtlRequest.serve 1700000000
      { maxItemSize := 1024, cache := some fun _ => none }
      (.set {} { key := [107], value := [49], ttlSeconds := 60 })).2 [107] 60 :=
  (@ttl_honoured_iff 1700000000 { maxItemSize := 1024, cache := some fun _ => none }
    (.set {} { key := [107], value := [49], ttlSeconds := 60 })
    (by decide) trivial (by decide +kernel)).1.mpr (by decide)

/-- The state left by a `SetNX` of the key `k` on an empty cache at the second 1700000000, and
whether it reports that it set the key. -/
def lock (ttlSeconds : Int64) : Bool × CacheManager :=
  TtlRequest.serve 1700000000 { maxItemSize := 1024, cache := some fun _ => none }
    (.setNX {} { key := [107], value := [49], ttlSeconds })

/-- A TTL of 2^32 seconds gives a key that never expires. A TTL of 2^32 - 1 seconds gives one that
has already expired, so that a second `SetNX` in the same second sets it again. -/
theorem ttl_overflows :
    ((lock 4294967296).1 = true ∧
      getTTL { now := 1700000000 } (lock 4294967296).2 { key := [107] } =
        (.ok (.OK, { found := true, ttlSeconds := -1 }), (lock 4294967296).2)) ∧
    ((lock 4294967295).1 = true ∧
      (lock 4294967295).2.exists { now := 1700000000 } [107] = false ∧
      (TtlRequest.serve 1700000000 (lock 4294967295).2
        (.setNX {} { key := [107], value := [50], ttlSeconds := 30 })).1 = true) := by
  refine ⟨⟨by decide +kernel, rfl⟩, by decide +kernel, by decide +kernel, by decide +kernel⟩

end CacheServer.Service
