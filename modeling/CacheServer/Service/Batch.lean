import CacheServer.Service.Pipeline

/-!
# Batches

`MultiGet`, `MultiSet`, and `MultiDelete` do for each element of a batch what `Get`, `Set`, and
`Delete` do for one request. `batches_refine_unary` says that a batch answers as the unary calls
would, issued in the order of the batch, and leaves the table that they would leave, for batches of
any content: duplicate keys, empty keys, keys that are too long, and values that are too large.

The unary calls refuse an empty key, `MultiSet` leaves it out, and `MultiGet` and `MultiDelete`
pass it on to CacheLib. That this makes no difference is an assumption on CacheLib: it never stores
an item under an empty key, or under one of more than 255 bytes.
-/

namespace CacheServer.Service

/-- Requests served by a handler one after another, each in its own environment. -/
def serveAll {α ρ : Type} (serve : Env → CacheManager → α → Answer ρ × CacheManager)
    (m : CacheManager) : List (Env × α) → List (Answer ρ) × CacheManager
  | [] => ([], m)
  | (env, request) :: requests =>
    let (answer, m) := serve env m request
    let (answers, m) := serveAll serve m requests
    (answer :: answers, m)

/-- The state after one more request. -/
theorem serveAll_append {α ρ : Type} (serve : Env → CacheManager → α → Answer ρ × CacheManager)
    (m : CacheManager) (pre post : List (Env × α)) :
    (serveAll serve m (pre ++ post)).2 = (serveAll serve (serveAll serve m pre).2 post).2 := by
  induction pre generalizing m with
  | nil => rfl
  | cons x pre ih => exact ih _

/-- What a batch says about a key, made from the answer of `Get`. -/
def keyValueOf (key : Bytes) : Answer GetResponse → KeyValue
  | .ok (_, response) =>
    { key, value := response.value, found := response.found
      ttlRemaining := response.ttlRemaining }
  | .error _ => { key }

/-- `Set` says that the value was stored. -/
def wasStored : Answer SetResponse → Bool
  | .ok (_, response) => response.success
  | .error _ => false

/-- `Delete` says that the key existed. -/
def existed : Answer DeleteResponse → Bool
  | .ok (_, response) => response.keyExisted
  | .error _ => false

/-- The items of a batch that have a key. -/
def named (items : List (Env × SetRequest)) : List (Env × SetRequest) :=
  items.filter fun item => !item.2.key.isEmpty

/-- The keys of a batch as requests of their own. -/
def keyRequests (keys : List (Env × Bytes)) : List (Env × KeyRequest) :=
  keys.map fun key => (key.1, { key := key.2 })

/-- The keys of the items whose `Set` fails, in order. -/
def failingKeys (items : List (Env × SetRequest)) (answers : List (Answer SetResponse)) :
    List Bytes :=
  (items.zip answers).filterMap fun x => if wasStored x.2 then none else some x.1.2.key

/-- Nothing is stored under a key that CacheLib does not accept. -/
def KeysValid (m : CacheManager) : Prop := ∀ key, validKey key = false → m.stored key = none

/-! ## Lookups -/

/-- What `Get` and `MultiGet` answer for a key depends on the table alone. -/
theorem get_fst_congr {m m' : CacheManager} (h : m.cache = m'.cache) (env : Env) (key : Bytes) :
    (m.get env key).1 = (m'.get env key).1 := by
  simp only [CacheManager.get, h]
  cases m'.cache with
  | none => rfl
  | some store =>
    dsimp only
    cases env.findThrows <;> cases store.find env.now key <;> cases env.copyThrows <;> rfl

/-- The results of a batch are those of its keys. -/
theorem multiGet_fst (m : CacheManager) (keys : List (Env × Bytes)) :
    (m.multiGet keys).1 = keys.map fun key => (m.get key.1 key.2).1 := by
  suffices h : ∀ m' : CacheManager, m'.cache = m.cache →
      (m'.multiGet keys).1 = keys.map fun key => (m.get key.1 key.2).1 from h m rfl
  induction keys with
  | nil => exact fun _ _ => rfl
  | cons x keys ih =>
    intro m' hm'
    have hrest := ih (m'.get x.1 x.2).2 ((m'.get_cache x.1 x.2).trans hm')
    simp only [CacheManager.multiGet, List.map_cons, hrest, get_fst_congr hm']

/-- An empty key is not found. -/
theorem get_nil {m : CacheManager} (hkeys : KeysValid m) (env : Env) :
    (m.get env []).1 = {} := by
  have hstored := hkeys [] rfl
  cases hm : m.cache with
  | none => simp [CacheManager.get, hm]
  | some store =>
    have hfind : store.find env.now [] = none := by
      simp only [CacheManager.stored, hm, Option.bind_some] at hstored
      simp [Store.find, hstored]
    simp only [CacheManager.get, hm, hfind]
    cases env.findThrows <;> rfl

/-- `MultiGet` answers with what `Get` answers for each key. -/
theorem multiGet_eq {m : CacheManager} (hready : m.isReady = true) (hkeys : KeysValid m)
    (keys : List (Env × Bytes)) :
    (multiGet m keys).1 =
      .ok (.OK, keys.map fun key => keyValueOf key.2 (get key.1 m { key := key.2 }).1) := by
  have hzip : ∀ f : Env × Bytes → GetResult → KeyValue,
      List.zipWith f keys (keys.map fun key => (m.get key.1 key.2).1) =
        keys.map fun key => f key (m.get key.1 key.2).1 := by
    intro f
    rw [List.zipWith_map_right, List.zipWith_self]
  simp only [multiGet, ready, hready, Bool.not_true, Bool.false_eq_true, if_false, multiGet_fst,
    hzip]
  refine congrArg (fun results => Except.ok (Status.OK, results))
    (List.map_congr_left fun key _ => ?_)
  cases hkey : key.2 with
  | nil =>
    -- `Get` refuses the empty key, and CacheLib does not find it.
    rw [get_nil hkeys, get, keyed_of_isEmpty hready rfl]
    rfl
  | cons b bs =>
    rw [get, keyed_of_not_isEmpty hready rfl]
    cases hfound : (m.get key.1 (b :: bs)).1.found <;> simp [keyValueOf, hfound]

/-! ## Stores -/

/-- `Set` on a key that is not empty does what the manager does, and says so. -/
theorem set_spec {m : CacheManager} (hready : m.isReady = true) (env : Env) {request : SetRequest}
    (hkey : request.key.isEmpty = false) :
    (set env m request).2 =
        (m.set env request.key request.value (narrowTtl request.ttlSeconds)).2 ∧
      wasStored (set env m request).1 =
        (m.set env request.key request.value (narrowTtl request.ttlSeconds)).1 := by
  rw [set, keyed_of_not_isEmpty hready hkey]
  cases h : (m.set env request.key request.value (narrowTtl request.ttlSeconds)).1 <;>
    simp [wasStored, h]

/-- The manager's `multiSet` leaves the state of the `Set`s, and returns the keys that fail. -/
theorem multiSet_spec {m : CacheManager} (hready : m.isReady = true)
    (items : List (Env × SetRequest)) :
    (m.multiSet (multiSetItems items)).2 = (serveAll set m (named items)).2 ∧
      (m.multiSet (multiSetItems items)).1 =
        failingKeys (named items) (serveAll set m (named items)).1 := by
  induction items generalizing m with
  | nil => exact ⟨rfl, rfl⟩
  | cons x items ih =>
    obtain ⟨env, request⟩ := x
    cases hkey : request.key.isEmpty with
    | true =>
      -- The item is left out on both sides.
      have hitems : multiSetItems ((env, request) :: items) = multiSetItems items := by
        simp [multiSetItems, hkey]
      have hnamed : named ((env, request) :: items) = named items := by simp [named, hkey]
      rw [hitems, hnamed]
      exact ih hready
    | false =>
      have hitems : multiSetItems ((env, request) :: items) =
          (env, request.key, request.value, narrowTtl request.ttlSeconds) ::
            multiSetItems items := by
        simp [multiSetItems, hkey]
      have hnamed : named ((env, request) :: items) = (env, request) :: named items := by
        simp [named, hkey]
      obtain ⟨hstate, hstored⟩ := set_spec hready env hkey
      obtain ⟨hrest, hfailed⟩ := ih ((isReady_set env m _ _ _).trans hready)
      rw [hitems, hnamed]
      simp only [CacheManager.multiSet, serveAll, hstate]
      refine ⟨hrest, ?_⟩
      simp only [hfailed, failingKeys, List.zip_cons_cons, List.filterMap_cons, hstored]
      cases (m.set env request.key request.value (narrowTtl request.ttlSeconds)).1 <;> rfl

/-- Every request has its answer. -/
theorem length_serveAll {α ρ : Type} (serve : Env → CacheManager → α → Answer ρ × CacheManager)
    (m : CacheManager) (requests : List (Env × α)) :
    (serveAll serve m requests).1.length = requests.length := by
  induction requests generalizing m with
  | nil => rfl
  | cons x requests ih => simp [serveAll, ih]

/-- The keys that fail are as many as the answers that say so. -/
theorem length_failingKeys {items : List (Env × SetRequest)}
    {answers : List (Answer SetResponse)} (h : answers.length = items.length) :
    (failingKeys items answers).length = answers.countP fun answer => !wasStored answer := by
  induction items generalizing answers with
  | nil =>
    obtain rfl := List.length_eq_zero_iff.mp h
    rfl
  | cons x items ih =>
    cases answers with
    | nil => simp at h
    | cons answer answers =>
      have hrest := ih (Nat.succ.inj h)
      simp only [failingKeys, List.zip_cons_cons, List.filterMap_cons, List.countP_cons] at hrest ⊢
      cases wasStored answer <;> simp [hrest]

/-- The counts of a `MultiSet` response are those of the `Set`s. -/
structure SetsCounted (response : MultiSetResponse) (items : List (Env × SetRequest))
    (answers : List (Answer SetResponse)) : Prop where
  /-- The successes are counted. -/
  succeeded : response.succeededCount.toInt = answers.countP wasStored
  /-- So are the failures. -/
  failed : response.failedCount.toInt = answers.countP fun answer => !wasStored answer
  /-- Together they are all items. -/
  total : response.succeededCount.toInt + response.failedCount.toInt = items.length
  /-- The keys of the failures are given in order. -/
  failedKeys : response.failedKeys = failingKeys items answers
  /-- The batch succeeds when every item does. -/
  success : response.success = true ↔ ∀ answer ∈ answers, wasStored answer = true

/-- `MultiSet` leaves the state of the `Set`s, and counts them. -/
theorem multiSet_eq {m : CacheManager} (hready : m.isReady = true) {items : List (Env × SetRequest)}
    (hlength : items.length < 2^31) :
    (multiSet m items).2 = (serveAll set m (named items)).2 ∧
      ∃ response, (multiSet m items).1 = .ok (.OK, response) ∧
        SetsCounted response (named items) (serveAll set m (named items)).1 := by
  obtain ⟨hstate, hfailed⟩ := multiSet_spec hready items
  have hanswers := length_serveAll set m (named items)
  have hfailing := length_failingKeys hanswers
  have htried : (multiSetItems items).length = (named items).length := by
    simp [multiSetItems, named]
  have hnamed : (named items).length ≤ items.length := List.length_filter_le ..
  generalize hans : (serveAll set m (named items)).1 = answers at *
  have hcount : answers.length =
      answers.countP wasStored + answers.countP fun answer => !wasStored answer := by
    rw [List.length_eq_countP_add_countP wasStored]
    simp
  simp only [multiSet, ready, hready, Bool.not_true, Bool.false_eq_true, if_false, hstate, hfailed,
    hfailing, htried]
  refine ⟨trivial, _, rfl, ?_, ?_, ?_, rfl, ?_⟩
  · dsimp only
    rw [Int32.toInt_ofNat_of_lt (by omega)]
    omega
  · exact Int32.toInt_ofNat_of_lt (by omega)
  · dsimp only
    rw [Int32.toInt_ofNat_of_lt (by omega), Int32.toInt_ofNat_of_lt (by omega)]
    omega
  · -- The cast count is zero exactly when the count is.
    have hzero : Int32.ofNat (answers.countP fun answer => !wasStored answer) = 0 ↔
        (answers.countP fun answer => !wasStored answer) = 0 := by
      rw [← Int32.toInt_inj, Int32.toInt_ofNat_of_lt (by omega), Int32.toInt_zero]
      exact Int.natCast_eq_zero
    simp [hzero, List.countP_eq_zero]

/-! ## The last write wins -/

/-- What `Set` leaves: the table as it was, when it fails, and otherwise the stamped value under its
key and the table as it was under any other. -/
theorem stored_set {m : CacheManager} (hready : m.isReady = true) (env : Env)
    (request : SetRequest) :
    (wasStored (set env m request).1 = false ∧ (set env m request).2.cache = m.cache) ∨
    (wasStored (set env m request).1 = true ∧
      (set env m request).2.stored request.key =
        some (stamp env.now request.value (narrowTtl request.ttlSeconds) 0) ∧
      ∀ k, k ≠ request.key → (set env m request).2.stored k = m.stored k) := by
  cases hkey : request.key.isEmpty with
  | true =>
    rw [set, keyed_of_isEmpty hready hkey]
    exact .inl ⟨rfl, rfl⟩
  | false =>
    obtain ⟨hstate, hstored⟩ := set_spec hready env hkey
    rw [hstate, hstored]
    cases hset : (m.set env request.key request.value (narrowTtl request.ttlSeconds)).1 with
    | false => exact .inl ⟨rfl, CacheManager.set_of_false hset⟩
    | true =>
      obtain ⟨store, hm, hcache⟩ := CacheManager.set_of_true hset
      refine .inr ⟨rfl, ?_, fun k hk => m.stored_set_of_ne env hk _ _⟩
      simp only [CacheManager.stored, hcache, Option.bind_some]
      exact Store.insertOrReplace_same ..

/-- `Set` leaves a cache behind where there was one. -/
theorem isReady_serveSet {m : CacheManager} (hready : m.isReady = true) (env : Env)
    (request : SetRequest) : (set env m request).2.isReady = true := by
  cases hkey : request.key.isEmpty with
  | true => rwa [set, keyed_of_isEmpty hready hkey]
  | false => rw [(set_spec hready env hkey).1, isReady_set, hready]

/-- No `Set` of the key goes through. -/
def NoneStored (key : Bytes) : CacheManager → List (Env × SetRequest) → Prop
  | _, [] => True
  | m, (env, request) :: requests =>
    (request.key = key → wasStored (set env m request).1 = false) ∧
      NoneStored key (set env m request).2 requests

/-- Where no `Set` of a key goes through, its item stays. -/
theorem stored_of_noneStored {m : CacheManager} (hready : m.isReady = true) {key : Bytes}
    {requests : List (Env × SetRequest)} (h : NoneStored key m requests) :
    (serveAll set m requests).2.stored key = m.stored key := by
  induction requests generalizing m with
  | nil => rfl
  | cons x requests ih =>
    obtain ⟨env, request⟩ := x
    obtain ⟨hfirst, hrest⟩ := h
    have hone : (set env m request).2.stored key = m.stored key := by
      obtain ⟨-, hcache⟩ | ⟨hwas, -, hother⟩ := stored_set hready env request
      · rw [CacheManager.stored, hcache, CacheManager.stored]
      · refine hother key fun hkey => ?_
        rw [hfirst hkey.symm] at hwas
        cases hwas
    exact (ih (isReady_serveSet hready env request) hrest).trans hone

/-- `Set`s leave a cache behind where there was one. -/
theorem isReady_serveAll_set {m : CacheManager} (hready : m.isReady = true)
    (requests : List (Env × SetRequest)) : (serveAll set m requests).2.isReady = true := by
  induction requests generalizing m with
  | nil => exact hready
  | cons x requests ih => exact ih (isReady_serveSet hready x.1 x.2)

/-- After a run of `Set`s, a key holds the value of the last one that went through. -/
theorem stored_of_last {m : CacheManager} (hready : m.isReady = true)
    {pre post : List (Env × SetRequest)} {env : Env} {request : SetRequest}
    (hstored : wasStored (set env (serveAll set m pre).2 request).1 = true)
    (hlast : NoneStored request.key (set env (serveAll set m pre).2 request).2 post) :
    (serveAll set m (pre ++ (env, request) :: post)).2.stored request.key =
      some (stamp env.now request.value (narrowTtl request.ttlSeconds) 0) := by
  have hpre := isReady_serveAll_set hready pre
  rw [serveAll_append, serveAll, stored_of_noneStored (isReady_serveSet hpre env request) hlast]
  obtain ⟨hwas, -⟩ | ⟨-, hitem, -⟩ := stored_set hpre env request
  · rw [hstored] at hwas
    cases hwas
  · exact hitem

/-! ## Removals -/

/-- The counts of a `MultiDelete` response are those of the `Delete`s. -/
structure DeletesCounted (response : MultiDeleteResponse) (keys : List (Env × Bytes))
    (answers : List (Answer DeleteResponse)) : Prop where
  /-- The batch succeeds. -/
  success : response.success = true
  /-- The keys that were there are counted. -/
  deleted : response.deletedCount.toInt = answers.countP existed
  /-- So are those that were not. -/
  notFound : response.notFoundCount.toInt = keys.length - answers.countP existed

/-- An empty key is not there to be removed. -/
theorem remove_nil {m : CacheManager} (hkeys : KeysValid m) (env : Env) :
    (m.remove env []).1 = false := by
  have hstored := hkeys [] rfl
  cases hm : m.cache with
  | none => simp [CacheManager.remove, hm]
  | some store =>
    simp only [CacheManager.stored, hm, Option.bind_some] at hstored
    simp only [CacheManager.remove, hm, Store.removeKey, hstored]
    cases env.removeThrows <;> rfl

/-- `Delete` removes what the manager removes, and says so. -/
theorem delete_spec {m : CacheManager} (hready : m.isReady = true) (hkeys : KeysValid m) (env : Env)
    (key : Bytes) :
    (delete env m { key }).2.cache = (m.remove env key).2.cache ∧
      existed (delete env m { key }).1 = (m.remove env key).1 := by
  cases key with
  | nil =>
    rw [delete, keyed_of_isEmpty hready rfl, remove_nil hkeys]
    exact ⟨(CacheManager.remove_of_false (remove_nil hkeys env)).symm, rfl⟩
  | cons b bs =>
    rw [delete, keyed_of_not_isEmpty hready rfl]
    exact ⟨rfl, rfl⟩

/-- What the manager removes depends on the table alone. -/
theorem remove_congr {m m' : CacheManager} (h : m.cache = m'.cache) (env : Env) (key : Bytes) :
    (m.remove env key).1 = (m'.remove env key).1 ∧
      (m.remove env key).2.cache = (m'.remove env key).2.cache := by
  simp only [CacheManager.remove, h]
  cases m'.cache <;> simp

/-- A removal stores nothing under a key that is not accepted. -/
theorem KeysValid.remove {m : CacheManager} (h : KeysValid m) (env : Env) (key : Bytes) :
    KeysValid (m.remove env key).2 := by
  intro k hk
  by_cases hkey : k = key
  · subst hkey
    cases hm : m.cache with
    | none => simp [CacheManager.remove, CacheManager.stored, hm]
    | some store =>
      have hnone := h k hk
      simp only [CacheManager.stored, hm, Option.bind_some] at hnone
      simp only [CacheManager.remove, CacheManager.stored, hm, Store.removeKey]
      cases env.removeThrows <;> simp [hnone]
  · rw [m.stored_remove_of_ne env hkey]
    exact h k hk

/-- The manager's `multiDelete` leaves the table of the `Delete`s, and counts those that report a
key. -/
theorem multiDelete_spec {m m' : CacheManager} (hcache : m.cache = m'.cache)
    (hready : m'.isReady = true) (hkeys : KeysValid m') (keys : List (Env × Bytes)) :
    (m.multiDelete keys).2.cache = (serveAll delete m' (keyRequests keys)).2.cache ∧
      (m.multiDelete keys).1 = (serveAll delete m' (keyRequests keys)).1.countP existed := by
  induction keys generalizing m m' with
  | nil => exact ⟨hcache, rfl⟩
  | cons x keys ih =>
    obtain ⟨env, key⟩ := x
    obtain ⟨hdelete, hexisted⟩ := delete_spec hready hkeys env key
    obtain ⟨hremoved, hstep⟩ := remove_congr hcache env key
    have hvalid : KeysValid (delete env m' { key }).2 := by
      intro k hk
      rw [CacheManager.stored, hdelete]
      exact hkeys.remove env key k hk
    have hready' : (delete env m' { key }).2.isReady = true := by
      rw [CacheManager.isReady, hdelete, ← CacheManager.isReady, isReady_remove, hready]
    obtain ⟨hrest, hcount⟩ := ih (hstep.trans hdelete.symm) hready' hvalid
    simp only [CacheManager.multiDelete, keyRequests, List.map_cons, serveAll] at hrest hcount ⊢
    refine ⟨hrest, ?_⟩
    rw [hcount, hremoved, List.countP_cons, hexisted]
    split_ifs <;> rfl

/-- `MultiDelete` leaves the table of the `Delete`s, and counts them. -/
theorem multiDelete_eq {m : CacheManager} (hready : m.isReady = true) (hkeys : KeysValid m)
    {keys : List (Env × Bytes)} (hlength : keys.length < 2^31) :
    (multiDelete m keys).2.cache = (serveAll delete m (keyRequests keys)).2.cache ∧
      ∃ response, (multiDelete m keys).1 = .ok (.OK, response) ∧
        DeletesCounted response keys (serveAll delete m (keyRequests keys)).1 := by
  obtain ⟨hstate, hcount⟩ := multiDelete_spec rfl hready hkeys keys
  have hanswers := length_serveAll delete m (keyRequests keys)
  have hle : (serveAll delete m (keyRequests keys)).1.countP existed ≤ keys.length := by
    refine Nat.le_trans List.countP_le_length (Nat.le_of_eq ?_)
    simpa [keyRequests] using hanswers
  simp only [multiDelete, ready, hready, Bool.not_true, Bool.false_eq_true, if_false, hcount]
  refine ⟨hstate, _, rfl, rfl, Int32.toInt_ofNat_of_lt (by omega), ?_⟩
  -- The difference of two counts below 2^31 does not overflow.
  have hlen := Int32.toInt_ofNat_of_lt hlength
  have hdel := Int32.toInt_ofNat_of_lt (Nat.lt_of_le_of_lt hle hlength)
  have hpos : 0 ≤ Int32.ofNat ((serveAll delete m (keyRequests keys)).1.countP existed) := by
    rw [Int32.le_iff_toInt_le, hdel, Int32.toInt_zero]
    exact Int.natCast_nonneg _
  have hsub : Int32.ofNat ((serveAll delete m (keyRequests keys)).1.countP existed) ≤
      Int32.ofNat keys.length := by
    rw [Int32.le_iff_toInt_le, hdel, hlen]
    exact_mod_cast hle
  dsimp only
  rw [Int32.toInt_sub_of_le _ _ hpos hsub, hlen, hdel]

/-! ## Batches -/

/-- For every state with a cache, every environment of each call, and every batch of fewer than 2^31
entries: `MultiGet` returns one result for each key, in order, with what `Get` answers for the key,
and an empty key is not found. `MultiSet` leaves the state that the `Set`s of the items with a key
leave, issued in order, and its counts and failed keys are theirs; a key holds the value of the last
`Set` of it that went through. `MultiDelete` leaves the table that the `Delete`s leave, and its
counts are theirs. -/
theorem batches_refine_unary {m : CacheManager} (hready : m.isReady = true) (hkeys : KeysValid m)
    (gets : List (Env × Bytes)) {sets : List (Env × SetRequest)} (hsets : sets.length < 2^31)
    {deletes : List (Env × Bytes)} (hdeletes : deletes.length < 2^31) :
    (multiGet m gets).1 =
      .ok (.OK, gets.map fun key => keyValueOf key.2 (get key.1 m { key := key.2 }).1) ∧
    (∀ env, (keyValueOf [] (get env m { key := [] }).1).found = false) ∧
    (multiSet m sets).2 = (serveAll set m (named sets)).2 ∧
    (∃ response, (multiSet m sets).1 = .ok (.OK, response) ∧
      SetsCounted response (named sets) (serveAll set m (named sets)).1) ∧
    (∀ pre env request post, named sets = pre ++ (env, request) :: post →
      wasStored (set env (serveAll set m pre).2 request).1 = true →
      NoneStored request.key (set env (serveAll set m pre).2 request).2 post →
      (multiSet m sets).2.stored request.key =
        some (stamp env.now request.value (narrowTtl request.ttlSeconds) 0)) ∧
    (multiDelete m deletes).2.cache = (serveAll delete m (keyRequests deletes)).2.cache ∧
    (∃ response, (multiDelete m deletes).1 = .ok (.OK, response) ∧
      DeletesCounted response deletes (serveAll delete m (keyRequests deletes)).1) := by
  obtain ⟨hset, hsetResponse⟩ := multiSet_eq hready hsets
  obtain ⟨hdelete, hdeleteResponse⟩ := multiDelete_eq hready hkeys hdeletes
  refine ⟨multiGet_eq hready hkeys gets, fun env => ?_, hset, hsetResponse, ?_, hdelete,
    hdeleteResponse⟩
  · rw [get, keyed_of_isEmpty hready rfl]
    rfl
  · intro pre env request post hsplit hstored hlast
    rw [hset, hsplit]
    exact stored_of_last hready hstored hlast

/-- A cache with one item, under the key `k`. -/
def oneItem : CacheManager where
  maxItemSize := 2
  cache := some fun key =>
    if key = [107] then some { value := [48], creationTime := 1, expiryTime := 0 } else none

/-- That key is one that CacheLib accepts. -/
theorem keysValid_oneItem : KeysValid oneItem := by
  intro key hkey
  have hne : key ≠ [107] := by
    rintro rfl
    cases hkey
  simp [CacheManager.stored, oneItem, hne]

/-- A batch of keys with a duplicate and an empty one. -/
def twiceK : List (Env × Bytes) :=
  [({ now := 5 }, [107]), ({ now := 5 }, []), ({ now := 5 }, [107])]

/-- A batch of items with the same keys. -/
def setsTwiceK : List (Env × SetRequest) :=
  [({ now := 5 }, { key := [107], value := [49] }), ({ now := 5 }, { key := [] }),
    ({ now := 5 }, { key := [107], value := [50] })]

/-- On that cache, the lookup finds the key twice, the last write of it stays, and only the first
delete finds it. -/
theorem batches_refine_unary_duplicate :
    (multiGet oneItem twiceK).1 = .ok (.OK,
      [{ key := [107], value := [48], found := true, ttlRemaining := -1 }, { key := [] },
        { key := [107], value := [48], found := true, ttlRemaining := -1 }]) ∧
    (multiSet oneItem setsTwiceK).2.stored [107] = some (stamp 5 [50] 0 0) ∧
    ∃ response, (multiDelete oneItem twiceK).1 = .ok (.OK, response) ∧
      response.deletedCount.toInt = 1 ∧ response.notFoundCount.toInt = 2 := by
  obtain ⟨hgets, -, -, -, hlast, -, response, hresponse, hcounted⟩ :=
    @batches_refine_unary oneItem rfl keysValid_oneItem twiceK setsTwiceK (by decide) twiceK
      (by decide)
  refine ⟨hgets.trans (by decide), ?_, response, hresponse, ?_, ?_⟩
  · exact hlast [setsTwiceK[0]] { now := 5 } { key := [107], value := [50] } [] rfl rfl trivial
  · exact hcounted.deleted.trans (by decide)
  · exact hcounted.notFound.trans (by decide)

end CacheServer.Service
