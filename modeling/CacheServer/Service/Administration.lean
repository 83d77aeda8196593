import CacheServer.Manager.Flush
import CacheServer.Service.Metrics
import CacheServer.Service.Pipeline
import Mathlib.Data.Rat.Defs

/-!
# The administration handlers, and all handlers together

`Stats`, `Ping`, and `Flush`, and with them a type of the calls of all handlers that take one
request. What these have in common is how they come to answer `UNAVAILABLE`: `serve_unavailable_iff`
says that they do so exactly while the manager has no cache, `Ping` apart, which does not ask for
it. `isReady_serve` says that no call takes the cache away. `Pipeline`, which takes a stream of
requests, is in its own module.
-/

namespace CacheServer.Service

/-! ## The handlers -/

/-- `PingResponse`. -/
structure PingResponse where
  /-- `PONG`. -/
  message : String := ""
  /-- The time in milliseconds. -/
  timestamp : Int64 := 0
deriving DecidableEq, Repr

/-- `FlushResponse`. -/
structure FlushResponse where
  /-- The flush is done. -/
  success : Bool := false
  /-- The items that it has removed. -/
  itemsRemoved : ℕ := 0
  /-- What is said of it. -/
  message : String := ""
deriving DecidableEq, Repr

/-- `StatsResponse`, which has the fields of the manager's statistics. The hit rate is not looked at
here, and a rational number stands for it. -/
abbrev StatsResponse := Metrics.CacheStats ℚ

/-- `Stats`, with the counters as `getStats` loads them, and with what CacheLib reports. -/
def stats (m : CacheManager) (loaded : Metrics.Loaded) (report : Metrics.Report) :
    Answer StatsResponse × CacheManager :=
  ready m (fun _ => { hitRate := 0, version := [] })
    (.ok (.OK, Metrics.getStats 0 (fun hits gets => (hits.toInt : ℚ) / gets.toInt) loaded
      (some report)), m)

/-- `Ping`, at a time of the system's clock. -/
def ping (m : CacheManager) (timestamp : Int64) : Answer PingResponse × CacheManager :=
  (.ok (.OK, { message := "PONG", timestamp }), m)

/-- `Flush`, with what happens while the manager's `flush` walks over the cache. -/
def flush (m : CacheManager) (steps : List FlushStep) : Answer FlushResponse × CacheManager :=
  ready m (fun message => { success := false, message }) <|
    respond (fun removed =>
      { success := true
        itemsRemoved := removed
        message := "Flush operation completed (note: may require restart for full effect)" })
      (m.flush steps)

/-! ## All handlers -/

/-- A call of a handler that takes one request, with what the handler finds outside the manager. -/
inductive Rpc
  | get (env : Env) (request : KeyRequest)
  | set (env : Env) (request : SetRequest)
  | delete (env : Env) (request : KeyRequest)
  | exists (env : Env) (request : KeyRequest)
  | multiGet (keys : List (Env × Bytes))
  | multiSet (items : List (Env × SetRequest))
  | multiDelete (keys : List (Env × Bytes))
  | setNX (env : Env) (request : SetRequest)
  | increment (env : Env) (request : CountRequest)
  | decrement (env : Env) (request : CountRequest)
  | incr (env : Env) (request : CountRequest)
  | compareAndSwap (env : Env) (request : CompareAndSwapRequest)
  | getTTL (env : Env) (request : KeyRequest)
  | touch (env : Env) (request : TouchRequest)
  | scan (walk : List Visit) (request : ScanRequest)
  | stats (loaded : Metrics.Loaded) (report : Metrics.Report)
  | ping (timestamp : Int64)
  | flush (steps : List FlushStep)
deriving DecidableEq, Repr

/-- The status code of an answer, or `none` where the handler has been left by an exception. -/
def statusCode {ρ : Type} : Answer ρ → Option StatusCode
  | .ok (status, _) => some status.code
  | .error _ => none

/-- The status code and the manager that a handler leaves. -/
def outcome {ρ : Type} (r : Answer ρ × CacheManager) : Option StatusCode × CacheManager :=
  (statusCode r.1, r.2)

/-- The handler that a call is for. -/
def serve (m : CacheManager) : Rpc → Option StatusCode × CacheManager
  | .get env request => outcome (get env m request)
  | .set env request => outcome (set env m request)
  | .delete env request => outcome (delete env m request)
  | .exists env request => outcome («exists» env m request)
  | .multiGet keys => outcome (multiGet m keys)
  | .multiSet items => outcome (multiSet m items)
  | .multiDelete keys => outcome (multiDelete m keys)
  | .setNX env request => outcome (setNX env m request)
  | .increment env request => outcome (increment env m request)
  | .decrement env request => outcome (decrement env m request)
  | .incr env request => outcome (incr env m request)
  | .compareAndSwap env request => outcome (compareAndSwap env m request)
  | .getTTL env request => outcome (getTTL env m request)
  | .touch env request => outcome (touch env m request)
  | .scan walk request => outcome (scan m walk request)
  | .stats loaded report => outcome (stats m loaded report)
  | .ping timestamp => outcome (ping m timestamp)
  | .flush steps => outcome (flush m steps)

/-! ## The cache stays where it is -/

/-- `setWithCreationTime` leaves a cache behind where there was one. -/
theorem isReady_setWithCreationTime (env : Env) (m : CacheManager) (key value : Bytes)
    (ttl creationTime : UInt32) :
    (m.setWithCreationTime env key value ttl creationTime).2.isReady = m.isReady := by
  cases hm : m.cache <;> simp [CacheManager.setWithCreationTime, CacheManager.isReady, hm]

/-- A read-modify-write operation leaves a cache behind where there was one. -/
theorem isReady_atomically {ρ : Type} (env : Env) (m : CacheManager) (key : Bytes)
    (uninitialized : ρ) (decide : Option Item → Decision ρ) :
    (m.atomically env key uninitialized decide).2.isReady = m.isReady := by
  unfold CacheManager.atomically
  split
  · rfl
  · split_ifs
    · rfl
    · split
      · rfl
      · rfl
      · -- only the store touches the manager
        exact isReady_setWithCreationTime ..

/-- `decrement` leaves a cache behind where there was one. -/
theorem isReady_decrement (env : Env) (m : CacheManager) (key : Bytes) (delta : Int64)
    (ttl : UInt32) : (m.decrement env key delta ttl).2.isReady = m.isReady := by
  unfold CacheManager.decrement
  split
  · rfl
  · rfl
  · exact isReady_atomically ..

/-- A batch of gets leaves the cache where it is. -/
theorem isReady_multiGet (m : CacheManager) (keys : List (Env × Bytes)) :
    (m.multiGet keys).2.isReady = m.isReady := by
  induction keys generalizing m with
  | nil => rfl
  | cons x keys ih => exact (ih _).trans (isReady_get x.1 m x.2)

/-- A batch of sets leaves a cache behind where there was one. -/
theorem isReady_multiSet (m : CacheManager) (items : List (Env × Bytes × Bytes × UInt32)) :
    (m.multiSet items).2.isReady = m.isReady := by
  induction items generalizing m with
  | nil => rfl
  | cons x items ih => exact (ih _).trans (isReady_set x.1 m x.2.1 x.2.2.1 x.2.2.2)

/-- A batch of deletes leaves a cache behind where there was one. -/
theorem isReady_multiDelete (m : CacheManager) (keys : List (Env × Bytes)) :
    (m.multiDelete keys).2.isReady = m.isReady := by
  induction keys generalizing m with
  | nil => rfl
  | cons x keys ih => exact (ih _).trans (isReady_remove x.1 m x.2)

/-- A call of a single-key operation leaves a cache behind where there was one. -/
theorem isReady_exec (env : Env) (m : CacheManager) (op : Op) :
    (op.exec env m).2.isReady = m.isReady := by
  cases op with
  | get key => exact isReady_get env m key
  | «exists» key => rfl
  | getTTL key => rfl
  | set key value ttl => exact isReady_set env m key value ttl
  | remove key => exact isReady_remove env m key
  | atomic op =>
    cases op with
    | setNX key value ttl => exact isReady_atomically ..
    | increment key delta ttl => exact isReady_atomically ..
    | decrement key delta ttl => exact isReady_decrement env m key delta ttl
    | incr key delta ttl => exact isReady_atomically ..
    | compareAndSwap key expected new ttl keepTtl => exact isReady_atomically ..
    | touch key ttl => exact isReady_atomically ..

/-- Taking an item away leaves a cache behind where there was one. -/
theorem isReady_removeItem (m : CacheManager) (key : Bytes) :
    CacheManager.isReady { m with cache := m.cache.map (·.remove key) } = m.isReady := by
  simp [CacheManager.isReady]

/-- The loop of `flush` leaves a cache behind where there was one, whatever others do meanwhile. -/
theorem isReady_flushLoop (removed : ℕ) (m : CacheManager) (steps : List FlushStep) :
    (m.flushLoop removed steps).2.isReady = m.isReady := by
  induction steps generalizing m removed with
  | nil => rfl
  | cons s steps ih =>
    cases s with
    | other e =>
      cases e with
      | call env op => exact (ih _ _).trans (isReady_exec env m op)
      | evict key => exact (ih _ _).trans (isReady_removeItem m key)
    | visit key removeThrows =>
      cases removeThrows with
      | true => rfl
      | false => exact (ih _ _).trans (isReady_removeItem m key)

/-- `flush` leaves a cache behind where there was one. -/
theorem isReady_flush (m : CacheManager) (steps : List FlushStep) :
    (m.flush steps).2.isReady = m.isReady := by
  unfold CacheManager.flush
  split
  · rfl
  · exact isReady_flushLoop 0 m steps

/-! ## Who answers `UNAVAILABLE` -/

/-- What a handler leaves that does not answer `UNAVAILABLE`, and does not take the cache away. -/
structure Available {ρ : Type} (m : CacheManager) (r : Answer ρ × CacheManager) : Prop where
  /-- It does not answer `UNAVAILABLE`. -/
  code : statusCode r.1 ≠ some .unavailable
  /-- The cache is there afterwards if it was there before. -/
  isReady : r.2.isReady = m.isReady

/-- What a handler leaves that answers `UNAVAILABLE` for want of a cache alone. -/
structure Asks {ρ : Type} (m : CacheManager) (r : Answer ρ × CacheManager) : Prop where
  /-- It answers `UNAVAILABLE` when there is no cache, and only then. -/
  code : statusCode r.1 = some .unavailable ↔ m.isReady = false
  /-- The cache is there afterwards if it was there before. -/
  isReady : r.2.isReady = m.isReady

section

variable {ρ ρ' : Type} {m : CacheManager}

/-- Returning `OK` is available. -/
theorem available_ok {m' : CacheManager} (h : m'.isReady = m.isReady) (response : ρ) :
    Available m (.ok (Status.OK, response), m') :=
  ⟨by simp [statusCode, Status.OK], h⟩

/-- Returning `OK` with what the manager returns is available. -/
theorem available_respond (f : ρ → ρ') {r : Except Abort ρ × CacheManager}
    (h : r.2.isReady = m.isReady) : Available m (respond f r) := by
  refine ⟨?_, h⟩
  cases hr : r.1 <;> simp [respond, hr, Except.map, statusCode, Status.OK]

/-- The check for the cache comes first. -/
theorem asks_ready (rejected : String → ρ) {body : Answer ρ × CacheManager}
    (h : Available m body) : Asks m (ready m rejected body) := by
  unfold ready
  cases hready : m.isReady with
  | false => exact ⟨by simp [statusCode, hready], rfl⟩
  | true => exact ⟨by simp [h.code, hready], by simpa using h.isReady⟩

/-- The check for the cache comes before the check of the key, which answers `INVALID_ARGUMENT`. -/
theorem asks_keyed (key : Bytes) (rejected : String → ρ) {body : Answer ρ × CacheManager}
    (h : Available m body) : Asks m (keyed m key rejected body) := by
  refine asks_ready rejected ?_
  split_ifs
  · exact ⟨by simp [statusCode], rfl⟩
  · exact h

/-- `Incr` turns a failure of the manager into another error than `UNAVAILABLE`. -/
theorem asks_incr (env : Env) (request : CountRequest) : Asks m (incr env m request) := by
  refine asks_keyed request.key _ ⟨?_, isReady_atomically ..⟩
  -- what `incr` of the manager returns decides between `OK` and `INTERNAL`
  generalize m.incr env request.key (effectiveDelta request.delta) (narrowTtl request.ttlSeconds)
    = result
  obtain ⟨result, m'⟩ := result
  cases result with
  | error a => simp [Except.map, statusCode]
  | ok result =>
    simp only [Except.map]
    split_ifs <;> simp [statusCode, Status.OK]

/-- Every handler but `Ping` asks for the cache. -/
theorem asks_serve {call : Rpc} (hping : ∀ timestamp, call ≠ .ping timestamp) :
    ((serve m call).1 = some .unavailable ↔ m.isReady = false) ∧
      (serve m call).2.isReady = m.isReady := by
  -- each handler is the checks around a body that is available
  have hasks : ∀ {ρ : Type} {r : Answer ρ × CacheManager}, Asks m r →
      ((outcome r).1 = some .unavailable ↔ m.isReady = false) ∧
        (outcome r).2.isReady = m.isReady := fun h => ⟨h.code, h.isReady⟩
  cases call with
  | get env request =>
    exact hasks (asks_keyed request.key _ (available_ok (isReady_get env m request.key) _))
  | set env request => exact hasks (asks_keyed request.key _ (available_ok (isReady_set ..) _))
  | delete env request =>
    exact hasks (asks_keyed request.key _ (available_ok (isReady_remove env m request.key) _))
  | «exists» env request => exact hasks (asks_keyed request.key _ (available_ok rfl _))
  | multiGet keys => exact hasks (asks_ready _ (available_ok (isReady_multiGet m keys) _))
  | multiSet items =>
    exact hasks (asks_ready _ (available_ok (isReady_multiSet m (multiSetItems items)) _))
  | multiDelete keys => exact hasks (asks_ready _ (available_ok (isReady_multiDelete m keys) _))
  | setNX env request =>
    exact hasks (asks_keyed request.key _ (available_respond _ (isReady_atomically ..)))
  | increment env request =>
    exact hasks (asks_keyed request.key _ (available_respond _ (isReady_atomically ..)))
  | decrement env request =>
    exact hasks (asks_keyed request.key _ (available_respond _ (isReady_decrement ..)))
  | incr env request => exact hasks (asks_incr env request)
  | compareAndSwap env request =>
    exact hasks (asks_keyed request.key _ (available_respond _ (isReady_atomically ..)))
  | getTTL env request => exact hasks (asks_keyed request.key _ (available_ok rfl _))
  | touch env request =>
    exact hasks (asks_keyed request.key _ (available_respond _ (isReady_atomically ..)))
  | scan walk request => exact hasks (asks_ready _ (available_ok rfl _))
  | stats loaded report => exact hasks (asks_ready _ (available_ok rfl _))
  | ping timestamp => exact absurd rfl (hping timestamp)
  | flush steps => exact hasks (asks_ready _ (available_respond _ (isReady_flush m steps)))

/-- For every handler, every request, and every state: the answer is `UNAVAILABLE` exactly when the
manager has no cache, unless the call is `Ping`. -/
theorem serve_unavailable_iff (m : CacheManager) (call : Rpc) :
    (serve m call).1 = some .unavailable ↔
      m.isReady = false ∧ ∀ timestamp, call ≠ .ping timestamp := by
  by_cases hping : ∃ timestamp, call = .ping timestamp
  · obtain ⟨timestamp, rfl⟩ := hping
    simp [serve, outcome, ping, statusCode, Status.OK]
  · have hnot : ∀ timestamp, call ≠ .ping timestamp := fun timestamp h => hping ⟨timestamp, h⟩
    rw [(asks_serve hnot).1, and_iff_left hnot]

/-- No call takes the cache away. -/
theorem isReady_serve (m : CacheManager) (call : Rpc) :
    (serve m call).2.isReady = m.isReady := by
  by_cases hping : ∃ timestamp, call = .ping timestamp
  · obtain ⟨timestamp, rfl⟩ := hping
    rfl
  · exact (asks_serve fun timestamp h => hping ⟨timestamp, h⟩).2

end

end CacheServer.Service
