import CacheServer.Service.Pagination
import CacheServer.Service.Pipeline

/-!
# The fuzz target

`FuzzOneInput` parses a buffer as a `PipelineRequest`, drives the manager through its operation, and
uses the buffer as the pattern of a `scan`. One cache serves all inputs of the process. Before each
input, `PrepareOneInput` removes the key that the last input has set and restores three fixtures, so
that what an input does should not depend on the inputs before it.

`fuzzOneInput_isolated` says that it does not: after any inputs, whatever CacheLib has dropped since
and whichever of its calls have failed, the result of an input is the one that `expected` computes
from the input alone. Only a `remove` that throws in `PrepareOneInput` is excluded, since its result
is not looked at. Protobuf's parser is an input of the model.
-/

namespace CacheServer.Fuzz

open Service (PipelineRequest PipelineOperation Walks walkKeys)

/-! ## The target -/

/-- What the target keeps from one input to the next: `sharedCache`, null if it could not be
initialized, and `lastSetKey`. -/
structure State where
  /-- `sharedCache`. -/
  sharedCache : Option CacheManager
  /-- `lastSetKey`. -/
  lastSetKey : Bytes := []

/-- What the calls of `PrepareOneInput` run in. -/
structure PrepareEnv where
  /-- That of the removal of the last key. -/
  remove : Env
  /-- That of the first fixture. -/
  first : Env
  /-- That of the second one. -/
  second : Env
  /-- That of the third one. -/
  third : Env
deriving DecidableEq, Repr

/-- An input, with what CacheLib does in the meantime. -/
structure Input where
  /-- The bytes of the input. -/
  data : Bytes
  /-- The keys of the items that CacheLib has dropped before the input. -/
  dropped : Bytes → Bool := fun _ => false
  /-- What `PrepareOneInput` runs in. -/
  prepare : PrepareEnv
  /-- What the call of the request's operation runs in. -/
  operate : Env
  /-- The items that the iterator of `scan` visits. -/
  walk : List Visit

/-- `FuzzInputResult`. -/
structure FuzzInputResult where
  /-- The input is a request. -/
  parsed : Bool := false
  /-- Its operation succeeded. -/
  operationSucceeded : Bool := false
  /-- The keys that the scan has found. -/
  scanMatches : ℕ := 0
deriving DecidableEq, Repr

/-- `kMaxPatternBytes`. -/
def kMaxPatternBytes : ℕ := 64

/-- The key and the value of the first fixture. -/
def fuzzKey : Bytes × Bytes := ("fuzz:key".toUTF8.data.toList, "fuzz-value".toUTF8.data.toList)

/-- The key and the value of the second fixture. -/
def longKey : Bytes × Bytes := (List.replicate 255 97, "long-key".toUTF8.data.toList)

/-- The key and the value of the third fixture. -/
def binaryKey : Bytes × Bytes := ([97, 0, 98], "binary-key".toUTF8.data.toList)

/-- Calls of `set` without a TTL, up to the first that fails. -/
def setAll (m : CacheManager) : List (Env × Bytes × Bytes) → Bool × CacheManager
  | [] => (true, m)
  | (env, key, value) :: items =>
    let (stored, m) := m.set env key value 0
    if stored then setAll m items else (false, m)

/-- `PrepareOneInput`. -/
def prepareOneInput (env : PrepareEnv) (s : State) : Bool × State :=
  match s.sharedCache with
  | none => (false, s)
  | some m =>
    if !m.isReady then (false, s)
    else
      let m := if s.lastSetKey.isEmpty then m else (m.remove env.remove s.lastSetKey).2
      let (restored, m) :=
        setAll m [(env.first, fuzzKey), (env.second, longKey), (env.third, binaryKey)]
      (restored, { sharedCache := some m })

/-- The TTL of a set, where one that does not fit is left out. -/
def ttlSeconds (ttl : Int64) : UInt32 :=
  if ttl > 0 ∧ ttl ≤ 4294967295 then ttl.toUInt64.toUInt32 else 0

/-- The operation of a request: whether it has succeeded, and what it leaves. -/
def dispatch (env : Env) (m : CacheManager) (lastSetKey : Bytes) :
    Option PipelineOperation → Bool × CacheManager × Bytes
  | some (.get r) =>
    if r.key.isEmpty then (false, m, lastSetKey)
    else
      let (result, m) := m.get env r.key
      (result.found, m, lastSetKey)
  | some (.set r) =>
    if r.key.isEmpty then (false, m, lastSetKey)
    else
      let (stored, m) := m.set env r.key r.value (ttlSeconds r.ttlSeconds)
      (stored, m, r.key)
  | some (.delete r) =>
    if r.key.isEmpty then (false, m, lastSetKey)
    else
      let (existed, m) := m.remove env r.key
      (existed, m, lastSetKey)
  | some (.exists r) =>
    if r.key.isEmpty then (false, m, lastSetKey) else (m.exists env r.key, m, lastSetKey)
  | none => (false, m, lastSetKey)

section

variable (parse : Bytes → Option PipelineRequest)

/-- The request of a buffer. The parser is not asked when the length does not fit an `int`. -/
def request (data : Bytes) : Option PipelineRequest :=
  if data.length ≤ 2147483647 then parse data else none

/-- The operation of a buffer, if it holds one. -/
def operation (data : Bytes) : Option PipelineOperation :=
  (request parse data).bind PipelineRequest.operation

/-- `FuzzPreparedInput`. -/
def fuzzPreparedInput (i : Input) (s : State) : FuzzInputResult × State :=
  match s.sharedCache with
  | none => ({}, s)
  | some m =>
    if !m.isReady then ({}, s)
    else
      let (succeeded, m, lastSetKey) :=
        dispatch i.operate m s.lastSetKey (operation parse i.data)
      let pattern := i.data.take kMaxPatternBytes
      ({ parsed := (request parse i.data).isSome
         operationSucceeded := succeeded
         scanMatches := (m.scan i.walk pattern [] 16 false).keys.length },
        { sharedCache := some m, lastSetKey })

/-- CacheLib drops items. -/
def State.drop (dropped : Bytes → Bool) (s : State) : State :=
  { s with
    sharedCache := s.sharedCache.map fun m =>
      { m with cache := m.cache.map fun store key => if dropped key then none else store key } }

/-- `FuzzOneInput`. -/
def fuzzOneInput (i : Input) (s : State) : FuzzInputResult × State :=
  let (prepared, s) := prepareOneInput i.prepare (s.drop i.dropped)
  if !prepared then ({}, s) else fuzzPreparedInput parse i s

/-- The inputs of a process, one after another. -/
def replay (s : State) (inputs : List Input) : State :=
  inputs.foldl (fun s i => (fuzzOneInput parse i s).2) s

end

/-- The state of a process that has seen no input. -/
def fresh : State where
  sharedCache := some { maxItemSize := 64 * 1024, cache := some fun _ => none }

/-! ## What an input is expected to do -/

/-- The keys of the fixtures. -/
def fixtureKeys : List Bytes := [fuzzKey.1, longKey.1, binaryKey.1]

/-- A `set` stores the value. -/
def stores (env : Env) (key value : Bytes) : Bool :=
  value.length ≤ 64 * 1024 && validKey key && env.allocate = .handle && !env.insertThrows

/-- The fixtures are restored. -/
def restores (env : PrepareEnv) : Bool :=
  stores env.first fuzzKey.1 fuzzKey.2 && stores env.second longKey.1 longKey.2 &&
    stores env.third binaryKey.1 binaryKey.2

/-- An operation succeeds on the fixtures. -/
def succeeds (env : Env) : PipelineOperation → Bool
  | .get r => fixtureKeys.contains r.key && !env.findThrows
  | .set r => stores env r.key r.value
  | .delete r => fixtureKeys.contains r.key && !env.removeThrows
  | .exists r => fixtureKeys.contains r.key && !env.findThrows

/-- The keys after an operation on the fixtures. -/
def keysAfter (env : Env) : PipelineOperation → List Bytes
  | .set r => if stores env r.key r.value then fixtureKeys.insert r.key else fixtureKeys
  | .delete r => if env.removeThrows then fixtureKeys else fixtureKeys.erase r.key
  | .get _ | .exists _ => fixtureKeys

/-- The result of an input, from the input alone. -/
def expected (parse : Bytes → Option PipelineRequest) (i : Input) : FuzzInputResult :=
  if restores i.prepare then
    let keys := (operation parse i.data).elim fixtureKeys (keysAfter i.operate)
    { parsed := (request parse i.data).isSome
      operationSucceeded := (operation parse i.data).elim false (succeeds i.operate)
      scanMatches := (keys.filter (matchesPattern · (i.data.take kMaxPatternBytes))).length }
  else {}

/-- The items that the `scan` of an input meets. -/
def scanned (parse : Bytes → Option PipelineRequest) (i : Input) (s : State) : Option Store :=
  (fuzzOneInput parse i s).2.sharedCache.bind CacheManager.cache

/-! ## The calls -/

/-- The manager has the target's limit and the items. -/
structure Holds (m : CacheManager) (store : Store) : Prop where
  /-- The limit is the target's. -/
  maxItemSize : m.maxItemSize = 64 * 1024
  /-- The cache has the items. -/
  cache : m.cache = some store

section

variable {m : CacheManager} {store : Store}

/-- A manager that holds items has a cache. -/
theorem Holds.isReady (h : Holds m store) : m.isReady = true := by
  simp [CacheManager.isReady, h.cache]

/-- A store is accepted or refused, and refused it changes nothing. -/
theorem setWithCreationTime_eq (env : Env) (store : Store) (key value : Bytes) (ttl : UInt32) :
    store.setWithCreationTime env (64 * 1024) key value ttl 0 =
      (stores env key value,
        if stores env key value then store.insertOrReplace key (stamp env.now value ttl 0)
        else store) := by
  unfold Store.setWithCreationTime stores
  by_cases hsize : value.length > 64 * 1024
  · have hnot : ¬ value.length ≤ 64 * 1024 := by omega
    simp [hsize, hnot]
  · have hle : value.length ≤ 64 * 1024 := by omega
    rw [if_neg hsize, decide_eq_true hle]
    by_cases hkey : validKey key = true
    · cases env.allocate <;> cases env.insertThrows <;> simp [hkey]
    · simp [hkey]

/-- `set` on a manager that holds items. -/
theorem Holds.set (h : Holds m store) (env : Env) (key value : Bytes) (ttl : UInt32) :
    (m.set env key value ttl).1 = stores env key value ∧
      Holds (m.set env key value ttl).2
        (if stores env key value then store.insertOrReplace key (stamp env.now value ttl 0)
          else store) := by
  obtain ⟨hmax, hcache⟩ := h
  unfold CacheManager.set CacheManager.setWithCreationTime
  simp only [hcache, hmax, setWithCreationTime_eq]
  exact ⟨trivial, rfl, rfl⟩

/-- `remove` on a manager that holds items. -/
theorem Holds.remove (h : Holds m store) (env : Env) (key : Bytes) :
    (m.remove env key).1 = ((store key).isSome && !env.removeThrows) ∧
      Holds (m.remove env key).2 (if env.removeThrows then store else store.remove key) := by
  obtain ⟨hmax, hcache⟩ := h
  unfold CacheManager.remove
  simp only [hcache, Store.removeKey]
  cases env.removeThrows <;> simp [hmax, Holds.mk]

/-- `get` on a manager that holds items. -/
theorem Holds.get (h : Holds m store) (env : Env) (key : Bytes) :
    (m.get env key).1.found = ((store.find env.now key).isSome && !env.findThrows) ∧
      Holds (m.get env key).2 store := by
  obtain ⟨hmax, hcache⟩ := h
  unfold CacheManager.get
  simp only [hcache]
  cases env.findThrows with
  | true => simp [hmax, Holds.mk]
  | false =>
    cases store.find env.now key with
    | none => simp [hmax, Holds.mk]
    | some item => cases env.copyThrows <;> simp [hmax, Holds.mk]

/-- `exists` on a manager that holds items. -/
theorem Holds.exists (h : Holds m store) (env : Env) (key : Bytes) :
    m.exists env key = ((store.find env.now key).isSome && !env.findThrows) := by
  unfold CacheManager.exists
  simp only [h.cache]
  cases env.findThrows <;> simp

/-! ## Preparation -/

/-- The items are the fixtures, without a deadline. -/
structure Seeded (store : Store) : Prop where
  /-- Every fixture is there, without a deadline. -/
  fixture : ∀ key ∈ fixtureKeys, ∃ item, store key = some item ∧ item.expiryTime = 0
  /-- Nothing else is there. -/
  other : ∀ key ∉ fixtureKeys, store key = none

/-- The sets of some items. -/
theorem Holds.setAll (h : Holds m store) (items : List (Env × Bytes × Bytes)) :
    (setAll m items).1 = items.all (fun x => stores x.1 x.2.1 x.2.2) ∧
      ∃ store', Holds (setAll m items).2 store' ∧
        (∀ key ∉ items.map (fun x => x.2.1), store' key = store key) ∧
        ((setAll m items).1 = true → ∀ key ∈ items.map (fun x => x.2.1),
          ∃ item, store' key = some item ∧ item.expiryTime = 0) := by
  induction items generalizing m store with
  | nil => exact ⟨rfl, store, h, by simp, by simp⟩
  | cons x items ih =>
    obtain ⟨env, key, value⟩ := x
    obtain ⟨hstored, hnext⟩ := h.set env key value 0
    unfold Fuzz.setAll
    simp only [hstored, List.all_cons, List.map_cons]
    cases hs : stores env key value with
    | false =>
      rw [hs] at hnext
      exact ⟨rfl, store, hnext, fun k _ => rfl, by simp⟩
    | true =>
      rw [hs] at hnext
      obtain ⟨hall, store', hstore', hsame, hitems⟩ := ih hnext
      refine ⟨hall, store', hstore', ?_, ?_⟩
      · intro k hk
        obtain ⟨hne, hrest⟩ := not_or.mp (mt List.mem_cons.mpr hk)
        rw [hsame k hrest, if_pos rfl, Store.insertOrReplace_of_ne _ _ hne]
      · intro hok k hk
        by_cases hrest : k ∈ items.map fun x => x.2.1
        · exact hitems hok k hrest
        · have hkey : k = key := (List.mem_cons.mp hk).resolve_right hrest
          refine ⟨stamp env.now value 0 0, ?_, rfl⟩
          rw [hsame k hrest, if_pos rfl, hkey, Store.insertOrReplace_same]

end

/-- Between inputs, no key is there but the fixtures and the one that was set last. -/
structure Tidy (s : State) (m : CacheManager) (store : Store) : Prop where
  /-- The manager is the target's. -/
  shared : s.sharedCache = some m
  /-- It holds the items. -/
  holds : Holds m store
  /-- These are fixtures, or the last key. -/
  key : ∀ key, (store key).isSome = true → key ∈ fixtureKeys ∨ key = s.lastSetKey
  /-- None has the empty key. -/
  nonempty : store [] = none

/-- The target begins with an empty cache. -/
theorem tidy_fresh : ∃ m store, Tidy fresh m store :=
  ⟨_, _, rfl, ⟨rfl, rfl⟩, by simp, rfl⟩

section

variable {s : State} {m : CacheManager} {store : Store}

/-- Items that CacheLib drops leave it tidy. -/
theorem Tidy.drop (h : Tidy s m store) (dropped : Bytes → Bool) :
    ∃ m' store', Tidy (s.drop dropped) m' store' := by
  refine ⟨{ m with cache := some fun key => if dropped key then none else store key },
    fun key => if dropped key then none else store key, ?_, ⟨h.holds.maxItemSize, rfl⟩, ?_, ?_⟩
  · simp only [State.drop, h.shared, h.holds.cache, Option.map_some]
  · -- What has not been dropped was there before.
    intro key hkey
    by_cases hdropped : dropped key = true
    · simp [hdropped] at hkey
    · exact h.key key (by simpa [hdropped] using hkey)
  · simp [h.nonempty]

/-- The three keys are those of the fixtures. -/
theorem map_fixtures (env : PrepareEnv) :
    [(env.first, fuzzKey), (env.second, longKey), (env.third, binaryKey)].map
      (fun x => x.2.1) = fixtureKeys :=
  rfl

/-- No fixture has an empty key. -/
theorem nil_not_mem_fixtureKeys : [] ∉ fixtureKeys := by decide

/-- `PrepareOneInput` succeeds when CacheLib lets it, whatever was there. Then the items are the
fixtures, and otherwise there are at least no others. -/
theorem Tidy.prepareOneInput (h : Tidy s m store) (env : PrepareEnv)
    (hremove : env.remove.removeThrows = false) :
    ∃ m' store', (prepareOneInput env s) = (restores env, { sharedCache := some m' }) ∧
      Tidy { sharedCache := some m' } m' store' ∧ (restores env = true → Seeded store') := by
  -- the key that was set last is removed
  obtain ⟨m₁, store₁, hm₁, hholds₁, hother₁⟩ : ∃ m₁ store₁,
      (if s.lastSetKey.isEmpty then m else (m.remove env.remove s.lastSetKey).2) = m₁ ∧
      Holds m₁ store₁ ∧ ∀ key ∉ fixtureKeys, store₁ key = none := by
    by_cases hlast : s.lastSetKey = []
    · -- No key was noted, so what is there is fixtures: the empty key is not.
      refine ⟨m, store, by simp [hlast], h.holds, ?_⟩
      intro key hkey
      by_contra hsome
      rcases h.key key (Option.isSome_iff_ne_none.mpr hsome) with hfix | hset
      · exact hkey hfix
      · rw [hset, hlast] at hsome
        exact hsome h.nonempty
    · -- Only the key that was noted is no fixture, and that one goes.
      obtain ⟨-, hholds⟩ := h.holds.remove env.remove s.lastSetKey
      rw [hremove] at hholds
      refine ⟨_, _, by simp [hlast], hholds, ?_⟩
      intro key hkey
      by_cases hset : key = s.lastSetKey
      · simp [hset]
      · by_contra hsome
        have hstore : store key ≠ none := by
          simpa [Store.remove, Function.update_of_ne hset] using hsome
        rcases h.key key (Option.isSome_iff_ne_none.mpr hstore) with hfix | heq
        · exact hkey hfix
        · exact hset heq
  -- and the fixtures are set
  obtain ⟨hall, store₂, hholds₂, hsame, hitems⟩ := hholds₁.setAll
    [(env.first, fuzzKey), (env.second, longKey), (env.third, binaryKey)]
  rw [map_fixtures] at hsame hitems
  have hother₂ : ∀ key ∉ fixtureKeys, store₂ key = none := fun key hkey =>
    (hsame key hkey).trans (hother₁ key hkey)
  have hrestores : (setAll m₁
      [(env.first, fuzzKey), (env.second, longKey), (env.third, binaryKey)]).1 = restores env := by
    rw [hall]
    simp [restores, Bool.and_assoc]
  refine ⟨_, store₂, ?_, ⟨rfl, hholds₂, ?_, hother₂ [] nil_not_mem_fixtureKeys⟩, ?_⟩
  · -- The function does these two steps, on the manager that there is.
    unfold Fuzz.prepareOneInput
    simp only [h.shared, h.holds.isReady, hm₁, ← hrestores]
    rfl
  · intro key hkey
    by_contra hnot
    rw [hother₂ key fun hfix => hnot (.inl hfix)] at hkey
    cases hkey
  · intro hok
    exact ⟨hitems (hrestores.trans hok), hother₂⟩

/-! ## Operations -/

/-- The fixtures are found at any time, and nothing else is. -/
theorem Seeded.find (h : Seeded store) (now : UInt32) (key : Bytes) :
    (store.find now key).isSome = fixtureKeys.contains key := by
  by_cases hkey : key ∈ fixtureKeys
  · obtain ⟨item, hitem, hexpiry⟩ := h.fixture key hkey
    simp [Store.find, hitem, Item.isExpired, hexpiry, hkey]
  · simp [Store.find, h.other key hkey, hkey]

/-- The keys that are there are those of the fixtures. -/
theorem Seeded.isSome_iff (h : Seeded store) (key : Bytes) :
    (store key).isSome = true ↔ key ∈ fixtureKeys := by
  by_cases hkey : key ∈ fixtureKeys
  · obtain ⟨item, hitem, -⟩ := h.fixture key hkey
    simp [hitem, hkey]
  · simp [h.other key hkey, hkey]

/-- What an operation on the fixtures is expected to leave. -/
structure Leaves (env : Env) (op : Option PipelineOperation) (result : Bool × CacheManager × Bytes)
    (store : Store) : Prop where
  /-- It succeeds when it should. -/
  succeeded : result.1 = op.elim false (succeeds env)
  /-- The manager holds the items. -/
  holds : Holds result.2.1 store
  /-- The keys are those that should be left. -/
  keys : ∀ key, (store key).isSome = true ↔ key ∈ op.elim fixtureKeys (keysAfter env)
  /-- Those that are no fixtures are noted for the next input. -/
  last : ∀ key ∈ op.elim fixtureKeys (keysAfter env), key ∈ fixtureKeys ∨ key = result.2.2

/-- An empty key is none of the fixtures. -/
theorem not_mem_fixtureKeys_of_isEmpty {key : Bytes} (h : key.isEmpty = true) :
    key ∉ fixtureKeys := by
  rw [List.isEmpty_iff.mp h]
  exact nil_not_mem_fixtureKeys

/-- Nothing is done for an empty key, and nothing is expected of it. -/
theorem Seeded.leaves_of_isEmpty (h : Seeded store) (hm : Holds m store) (env : Env)
    {op : PipelineOperation} (hsucceeds : succeeds env op = false)
    (hkeys : keysAfter env op = fixtureKeys) : Leaves env (some op) (false, m, []) store where
  succeeded := hsucceeds.symm
  holds := hm
  keys := by
    rw [Option.elim, hkeys]
    exact h.isSome_iff
  last := by
    rw [Option.elim, hkeys]
    exact fun key hkey => .inl hkey

/-- A `Get` finds a fixture, and leaves all of them. -/
theorem Seeded.dispatch_get (h : Seeded store) (hm : Holds m store) (env : Env)
    (r : Service.KeyRequest) :
    Leaves env (some (.get r)) (dispatch env m [] (some (.get r))) store := by
  unfold Fuzz.dispatch
  dsimp only
  split_ifs with hkey
  · -- Without a key there is no call.
    exact h.leaves_of_isEmpty hm env (by simp [succeeds, not_mem_fixtureKeys_of_isEmpty hkey]) rfl
  · obtain ⟨hfound, hholds⟩ := hm.get env r.key
    refine ⟨?_, hholds, h.isSome_iff, fun key hkey => .inl hkey⟩
    rw [Option.elim, succeeds, ← h.find env.now]
    exact hfound

/-- So does an `Exists`. -/
theorem Seeded.dispatch_exists (h : Seeded store) (hm : Holds m store) (env : Env)
    (r : Service.KeyRequest) :
    Leaves env (some (.exists r)) (dispatch env m [] (some (.exists r))) store := by
  unfold Fuzz.dispatch
  dsimp only
  split_ifs with hkey
  · exact h.leaves_of_isEmpty hm env (by simp [succeeds, not_mem_fixtureKeys_of_isEmpty hkey]) rfl
  · refine ⟨?_, hm, h.isSome_iff, fun key hkey => .inl hkey⟩
    rw [Option.elim, succeeds, ← h.find env.now]
    exact hm.exists env r.key

/-- The fixtures have different keys. -/
theorem fixtureKeys_nodup : fixtureKeys.Nodup := by decide

/-- A `Delete` removes a fixture, or nothing. -/
theorem Seeded.dispatch_delete (h : Seeded store) (hm : Holds m store) (env : Env)
    (r : Service.KeyRequest) :
    ∃ store', Leaves env (some (.delete r)) (dispatch env m [] (some (.delete r))) store' := by
  unfold Fuzz.dispatch
  dsimp only
  split_ifs with hkey
  · have hnot := not_mem_fixtureKeys_of_isEmpty hkey
    refine ⟨store, h.leaves_of_isEmpty hm env (by simp [succeeds, hnot]) ?_⟩
    rw [keysAfter, List.erase_of_not_mem hnot, ite_self]
  · obtain ⟨hexisted, hholds⟩ := hm.remove env r.key
    refine ⟨_, ?_, hholds, ?_, ?_⟩
    · -- It succeeds on a key that existed.
      rw [Option.elim, succeeds, Bool.eq_iff_iff]
      simp [hexisted, h.isSome_iff]
    · intro key
      rw [Option.elim, keysAfter]
      split_ifs
      · exact h.isSome_iff key
      · -- The keys are distinct, so the list without it does not have it again.
        rw [fixtureKeys_nodup.mem_erase_iff, Store.remove]
        by_cases heq : key = r.key
        · simp [heq]
        · rw [Function.update_of_ne heq, h.isSome_iff]
          simp [heq]
    · intro key hmem
      rw [Option.elim, keysAfter] at hmem
      split_ifs at hmem
      · exact .inl hmem
      · exact .inl (List.mem_of_mem_erase hmem)

/-- A `Set` adds its key, unless it is refused. -/
theorem Seeded.dispatch_set (h : Seeded store) (hm : Holds m store) (env : Env)
    (r : Service.SetRequest) :
    ∃ store', Leaves env (some (.set r)) (dispatch env m [] (some (.set r))) store' := by
  unfold Fuzz.dispatch
  dsimp only
  split_ifs with hkey
  · -- An empty key would not be stored anyway.
    have hstores : stores env r.key r.value = false := by
      simp [stores, validKey, List.isEmpty_iff.mp hkey]
    refine ⟨store, h.leaves_of_isEmpty hm env hstores ?_⟩
    rw [keysAfter, hstores]
    rfl
  · obtain ⟨hstored, hholds⟩ := hm.set env r.key r.value (ttlSeconds r.ttlSeconds)
    refine ⟨_, hstored, hholds, ?_, ?_⟩
    · intro key
      rw [Option.elim, keysAfter]
      split_ifs
      · rw [List.mem_insert_iff]
        by_cases heq : key = r.key
        · simp [heq]
        · rw [Store.insertOrReplace_of_ne _ _ heq, h.isSome_iff]
          simp [heq]
      · exact h.isSome_iff key
    · intro key hmem
      rw [Option.elim, keysAfter] at hmem
      split_ifs at hmem
      · exact (List.mem_insert_iff.mp hmem).symm
      · exact .inl hmem

/-- An operation on the fixtures does as expected. -/
theorem Seeded.dispatch (h : Seeded store) (hm : Holds m store) (env : Env)
    (op : Option PipelineOperation) : ∃ store', Leaves env op (dispatch env m [] op) store' := by
  cases op with
  | none => exact ⟨store, rfl, hm, h.isSome_iff, fun key hkey => .inl hkey⟩
  | some op =>
    cases op with
    | get r => exact ⟨store, h.dispatch_get hm env r⟩
    | set r => exact h.dispatch_set hm env r
    | delete r => exact h.dispatch_delete hm env r
    | «exists» r => exact ⟨store, h.dispatch_exists hm env r⟩

/-! ## The scan -/

/-- No key is listed twice. -/
theorem keysAfter_nodup (env : Env) (op : Option PipelineOperation) :
    (op.elim fixtureKeys (keysAfter env)).Nodup := by
  cases op with
  | none => exact fixtureKeys_nodup
  | some op =>
    cases op with
    | get r => exact fixtureKeys_nodup
    | set r =>
      rw [Option.elim, keysAfter]
      split_ifs
      · exact fixtureKeys_nodup.insert
      · exact fixtureKeys_nodup
    | delete r =>
      rw [Option.elim, keysAfter]
      split_ifs
      · exact fixtureKeys_nodup
      · exact fixtureKeys_nodup.erase _
    | «exists» r => exact fixtureKeys_nodup

/-- None of them is empty. -/
theorem nil_not_mem_keysAfter (env : Env) (op : Option PipelineOperation) :
    [] ∉ op.elim fixtureKeys (keysAfter env) := by
  cases op with
  | none => exact nil_not_mem_fixtureKeys
  | some op =>
    cases op with
    | get r => exact nil_not_mem_fixtureKeys
    | set r =>
      rw [Option.elim, keysAfter]
      split_ifs with hstores
      · -- what is stored has a valid key
        intro hmem
        rcases List.mem_insert_iff.mp hmem with hnil | hmem
        · simp [stores, validKey, ← hnil] at hstores
        · exact nil_not_mem_fixtureKeys hmem
      · exact nil_not_mem_fixtureKeys
    | delete r =>
      rw [Option.elim, keysAfter]
      split_ifs
      · exact nil_not_mem_fixtureKeys
      · exact fun hmem => nil_not_mem_fixtureKeys (List.mem_of_mem_erase hmem)
    | «exists» r => exact nil_not_mem_fixtureKeys

/-- There are at most four keys. -/
theorem length_keysAfter_le (env : Env) (op : Option PipelineOperation) :
    (op.elim fixtureKeys (keysAfter env)).length ≤ 4 := by
  have hthree : fixtureKeys.length = 3 := rfl
  cases op with
  | none => simp [hthree]
  | some op =>
    cases op with
    | get r => simp [keysAfter, hthree]
    | set r =>
      rw [Option.elim, keysAfter]
      split_ifs
      · by_cases hmem : r.key ∈ fixtureKeys
        · rw [List.length_insert_of_mem hmem]
          omega
        · rw [List.length_insert_of_not_mem hmem]
          omega
      · omega
    | delete r =>
      rw [Option.elim, keysAfter]
      split_ifs
      · omega
      · have hle : (fixtureKeys.erase r.key).length ≤ fixtureKeys.length := List.length_erase_le
        omega
    | «exists» r => simp [keysAfter, hthree]

/-- A scan for 16 keys over at most as many lists all that match, in whichever order they are
visited. -/
theorem Holds.scan (h : Holds m store) {walk : List Visit} (hwalk : Walks store walk)
    {keys : List Bytes} (hnodup : keys.Nodup) (hlength : keys.length ≤ 4)
    (hkeys : ∀ key, (store key).isSome = true ↔ key ∈ keys) (pattern : Bytes) :
    (m.scan walk pattern [] 16 false).keys.length =
      (keys.filter (matchesPattern · pattern)).length := by
  -- The walk visits every key once, like the list.
  have hperm : (walkKeys walk).Perm keys := by
    rw [List.perm_ext_iff_of_nodup hwalk.nodup hnodup]
    intro key
    rw [hwalk.mem_walkKeys_iff, hkeys]
  obtain ⟨seen, rest, hpage, hscan⟩ :=
    CacheManager.scan_eq_pageResult h.isReady walk pattern [] 16 false
  have hsplit : walk = seen ++ rest := hpage.split
  -- A page that ends early is full, and there are fewer keys than it has room for.
  have hrest : rest = [] := by
    by_contra hne
    have hfull := hpage.full hne
    have hle := List.length_filter_le (fun visit => matchesPattern visit.key pattern) seen
    have hwalk_length : walk.length ≤ 4 := by
      have hsame := hperm.length_eq
      rw [walkKeys, List.length_map] at hsame
      omega
    rw [hsplit, List.length_append] at hwalk_length
    have hlimit : pageLimit 16 = 16 := by decide
    omega
  rw [hrest, List.append_nil] at hsplit
  rw [hscan, pageResult, hits, ← hsplit]
  calc ((walk.filter fun visit => matchesPattern visit.key pattern).map Visit.key).length
      = ((walkKeys walk).filter (matchesPattern · pattern)).length := by
        rw [walkKeys, List.filter_map]
        rfl
    _ = (keys.filter (matchesPattern · pattern)).length := (hperm.filter _).length_eq

/-! ## Inputs one after another -/

variable {parse : Bytes → Option PipelineRequest}

/-- Where the fixtures could not be restored, nothing else is done. -/
theorem Tidy.fuzzOneInput_of_not_restores (h : Tidy s m store) {i : Input}
    (hremove : i.prepare.remove.removeThrows = false) (hrestores : restores i.prepare = false) :
    ∃ m' store', fuzzOneInput parse i s = ({}, { sharedCache := some m' }) ∧
      Tidy { sharedCache := some m' } m' store' := by
  obtain ⟨m₁, store₁, hdropped⟩ := h.drop i.dropped
  obtain ⟨m₂, store₂, hprepare, htidy, -⟩ := hdropped.prepareOneInput i.prepare hremove
  refine ⟨m₂, store₂, ?_, htidy⟩
  simp only [fuzzOneInput, hprepare, hrestores]
  rfl

/-- Otherwise the operation meets the fixtures, and the scan what the operation leaves. -/
theorem Tidy.fuzzOneInput_of_restores (h : Tidy s m store) {i : Input}
    (hremove : i.prepare.remove.removeThrows = false) (hrestores : restores i.prepare = true) :
    ∃ x store', Leaves i.operate (operation parse i.data) x store' ∧
      fuzzOneInput parse i s =
        ({ parsed := (request parse i.data).isSome
           operationSucceeded := x.1
           scanMatches :=
            (x.2.1.scan i.walk (i.data.take kMaxPatternBytes) [] 16 false).keys.length },
          { sharedCache := some x.2.1, lastSetKey := x.2.2 }) := by
  obtain ⟨m₁, store₁, hdropped⟩ := h.drop i.dropped
  obtain ⟨m₂, store₂, hprepare, htidy, hseeded⟩ := hdropped.prepareOneInput i.prepare hremove
  obtain ⟨store₃, hleaves⟩ :=
    (hseeded hrestores).dispatch htidy.holds i.operate (operation parse i.data)
  refine ⟨_, store₃, hleaves, ?_⟩
  simp only [fuzzOneInput, hprepare, hrestores, fuzzPreparedInput, htidy.holds.isReady]
  rfl

/-- What an operation leaves is tidy. -/
theorem Leaves.tidy {env : Env} {op : Option PipelineOperation} {x : Bool × CacheManager × Bytes}
    (h : Leaves env op x store) :
    Tidy { sharedCache := some x.2.1, lastSetKey := x.2.2 } x.2.1 store where
  shared := rfl
  holds := h.holds
  key := fun key hkey => h.last key ((h.keys key).mp hkey)
  nonempty := by
    -- The empty key is not among those that an operation leaves.
    by_contra hsome
    exact nil_not_mem_keysAfter env op ((h.keys []).mp (Option.isSome_iff_ne_none.mpr hsome))

/-- An input leaves the state tidy. -/
theorem Tidy.fuzzOneInput (h : Tidy s m store) {i : Input}
    (hremove : i.prepare.remove.removeThrows = false) :
    ∃ m' store', Tidy (fuzzOneInput parse i s).2 m' store' := by
  cases hrestores : restores i.prepare with
  | false =>
    obtain ⟨m', store', hone, htidy⟩ := h.fuzzOneInput_of_not_restores hremove hrestores
    rw [hone]
    exact ⟨m', store', htidy⟩
  | true =>
    obtain ⟨x, store', hleaves, hone⟩ := h.fuzzOneInput_of_restores hremove hrestores
    rw [hone]
    exact ⟨_, store', hleaves.tidy⟩

/-- On a tidy state, the result of an input is the one that is expected. -/
theorem Tidy.fuzzOneInput_eq_expected (h : Tidy s m store) {i : Input}
    (hremove : i.prepare.remove.removeThrows = false)
    (hwalk : restores i.prepare = true → ∀ store', scanned parse i s = some store' →
      Walks store' i.walk) :
    (Fuzz.fuzzOneInput parse i s).1 = expected parse i := by
  cases hrestores : restores i.prepare with
  | false =>
    obtain ⟨m', store', hone, -⟩ := h.fuzzOneInput_of_not_restores hremove hrestores
    rw [hone, expected, hrestores]
    rfl
  | true =>
    obtain ⟨x, store', hleaves, hone⟩ := h.fuzzOneInput_of_restores hremove hrestores
    have hscanned : scanned parse i s = some store' := by
      rw [scanned, hone]
      exact hleaves.holds.cache
    have hscan := hleaves.holds.scan (hwalk hrestores store' hscanned)
      (keysAfter_nodup i.operate _) (length_keysAfter_le i.operate _) hleaves.keys
      (i.data.take kMaxPatternBytes)
    rw [hone, expected, if_pos hrestores]
    dsimp only
    rw [hleaves.succeeded, hscan]

/-- No inputs leave anything behind but what the next one takes away. -/
theorem tidy_replay (parse : Bytes → Option PipelineRequest) {history : List Input}
    (hremove : ∀ i ∈ history, i.prepare.remove.removeThrows = false) :
    ∃ m store, Tidy (replay parse fresh history) m store := by
  induction history using List.reverseRecOn with
  | nil => exact tidy_fresh
  | append_singleton history i ih =>
    obtain ⟨m, store, htidy⟩ := ih fun j hj => hremove j (List.mem_append_left _ hj)
    rw [replay, List.foldl_append]
    exact htidy.fuzzOneInput (hremove i List.mem_concat_self)

/-- For every parser, after all inputs that a process has seen, whatever CacheLib has dropped in
between and whichever of its calls have failed, the result of `FuzzOneInput` is the one expected
from the input alone. `PrepareOneInput` does not look at the result of `remove`, so this one must
not throw. -/
theorem fuzzOneInput_isolated {history : List Input} {last : Input}
    (hremove : ∀ i ∈ history ++ [last], i.prepare.remove.removeThrows = false)
    (hwalk : restores last.prepare = true → ∀ store,
      scanned parse last (replay parse fresh history) = some store → Walks store last.walk) :
    (fuzzOneInput parse last (replay parse fresh history)).1 = expected parse last := by
  obtain ⟨m, store, htidy⟩ :=
    tidy_replay parse fun i hi => hremove i (List.mem_append_left _ hi)
  exact htidy.fuzzOneInput_eq_expected (hremove last List.mem_concat_self) hwalk

end

/-- The encodings of a `Set` and of a `Get` of the key `x`. -/
def parseTwo (data : Bytes) : Option PipelineRequest :=
  if data = [26, 6, 10, 1, 120, 18, 1, 49] then
    some { sequenceId := 0, operation := some (.set { key := [120], value := [49] }) }
  else if data = [18, 3, 10, 1, 120] then
    some { sequenceId := 0, operation := some (.get { key := [120] }) }
  else none

/-- An input that runs in one second. -/
def inputAt (now : UInt32) (data : Bytes) : Input where
  data
  prepare := ⟨{ now }, { now }, { now }, { now }⟩
  operate := { now }
  walk := []

/-- What the scan meets does not depend on the order in which it is visited. -/
theorem scanned_walk (parse : Bytes → Option PipelineRequest) (i : Input) (walk : List Visit)
    (s : State) : scanned parse { i with walk } s = scanned parse i s := by
  simp only [scanned, fuzzOneInput]
  split_ifs
  · rfl
  · unfold fuzzPreparedInput
    cases (prepareOneInput i.prepare (s.drop i.dropped)).2.sharedCache with
    | none => rfl
    | some m =>
      dsimp only
      split_ifs <;> rfl

/-- There is a walk over items with finitely many keys. -/
theorem exists_walks {store : Store} {keys : List Bytes} (hnodup : keys.Nodup) (hnil : [] ∉ keys)
    (hkeys : ∀ key, (store key).isSome = true ↔ key ∈ keys) : ∃ walk, Walks store walk := by
  refine ⟨keys.map fun key => ⟨key, (store key).getD ⟨[], 0, 0⟩, 0⟩, ?_, ?_, ?_⟩
  · simpa [walkKeys, Function.comp_def] using hnodup
  · simpa [walkKeys, Function.comp_def] using hnil
  · intro key item
    constructor
    · intro hitem
      refine ⟨⟨key, item, 0⟩, List.mem_map.mpr ⟨key, ?_, ?_⟩, rfl, rfl⟩
      · exact (hkeys key).mp (by simp [hitem])
      · simp [hitem]
    · rintro ⟨visit, hvisit, rfl, rfl⟩
      obtain ⟨key, hkey, rfl⟩ := List.mem_map.mp hvisit
      obtain ⟨item, hitem⟩ := Option.isSome_iff_exists.mp ((hkeys key).mpr hkey)
      simp [hitem]

/-- The inputs of a process that has set the key `x`. -/
def previous : List Input := [inputAt 5 [26, 6, 10, 1, 120, 18, 1, 49]]

/-- The input that gets the key `x`. -/
def getInput : Input := inputAt 6 [18, 3, 10, 1, 120]

/-- The key that one input sets is not there for the next. -/
theorem fuzzOneInput_isolated_previous :
    ∃ walk, (fuzzOneInput parseTwo { getInput with walk } (replay parseTwo fresh previous)).1 =
      { parsed := true, operationSucceeded := false, scanMatches := 0 } := by
  have hprevious : ∀ i ∈ previous, i.prepare.remove.removeThrows = false := by
    simp [previous, inputAt]
  obtain ⟨m, store, htidy⟩ := tidy_replay parseTwo hprevious
  obtain ⟨x, store', hleaves, hone⟩ : ∃ x store', Leaves _ (operation parseTwo _) x store' ∧ _ :=
    htidy.fuzzOneInput_of_restores
      (show getInput.prepare.remove.removeThrows = false from rfl) (by decide +kernel)
  have hscanned : scanned parseTwo getInput (replay parseTwo fresh previous) = some store' := by
    rw [scanned, hone]
    exact hleaves.holds.cache
  obtain ⟨walk, hwalk⟩ :=
    exists_walks (keysAfter_nodup _ _) (nil_not_mem_keysAfter _ _) hleaves.keys
  refine ⟨walk, (fuzzOneInput_isolated ?_ ?_).trans ?_⟩
  · simp [previous, getInput, inputAt]
  · intro _ store'' hstore
    rw [scanned_walk, hscanned] at hstore
    cases hstore
    exact hwalk
  · change expected parseTwo getInput = _
    decide +kernel

end CacheServer.Fuzz
