import CacheServer.Manager.Frame
import CacheServer.Service.Handlers

/-!
# The pipeline stream

`Pipeline` serves a stream of `Get`, `Set`, `Delete`, and `Exists` requests. It does not call their
handlers, but has its own copy of the body of each. `pipeline_refines_unary` says that the copies
have not drifted: every response of a stream is the one that the request's own RPC would have given
in the state that the requests before it left, and the stream leaves the state that the RPCs would
have left, counters included.
-/

namespace CacheServer.Service

/-- The operation of a `PipelineRequest`, when one is set. -/
inductive PipelineOperation
  | get (request : KeyRequest)
  | set (request : SetRequest)
  | delete (request : KeyRequest)
  | exists (request : KeyRequest)
deriving DecidableEq, Repr

/-- `PipelineRequest`. -/
structure PipelineRequest where
  /-- What its response is known by. -/
  sequenceId : UInt64
  /-- The operation, if one is set. -/
  operation : Option PipelineOperation
deriving DecidableEq, Repr

/-- The result of a `PipelineResponse`, when one is set. -/
inductive PipelineResult
  | get (response : GetResponse)
  | set (response : SetResponse)
  | delete (response : DeleteResponse)
  | exists (response : ExistsResponse)
deriving DecidableEq, Repr

/-- `PipelineResponse`. -/
structure PipelineResponse where
  /-- That of the request. -/
  sequenceId : UInt64
  /-- The result, unless there is an error. -/
  result : Option PipelineResult := none
  /-- The error, empty when there is none. -/
  error : String := ""
deriving DecidableEq, Repr

/-- One turn of the loop of `Pipeline`: the response to a request. -/
def pipelineTurn (env : Env) (m : CacheManager) (request : PipelineRequest) :
    PipelineResponse × CacheManager :=
  let response : PipelineResponse := { sequenceId := request.sequenceId }
  match request.operation with
  | some (.get getReq) =>
    if getReq.key.isEmpty then ({ response with error := "Key cannot be empty" }, m)
    else
      let (result, m) := m.get env getReq.key
      let getResp : GetResponse :=
        if result.found then
          { found := result.found, value := result.value, ttlRemaining := result.ttlRemaining }
        else { found := result.found }
      ({ response with result := some (.get getResp) }, m)
  | some (.set setReq) =>
    if setReq.key.isEmpty then ({ response with error := "Key cannot be empty" }, m)
    else
      let ttl := if setReq.ttlSeconds > 0 then setReq.ttlSeconds.toUInt64.toUInt32 else 0
      let (success, m) := m.set env setReq.key setReq.value ttl
      let setResp : SetResponse :=
        { success
          message := if success then "OK" else "Failed to set value"
          sizeBytes := if success then setReq.value.length else 0 }
      ({ response with result := some (.set setResp) }, m)
  | some (.delete delReq) =>
    if delReq.key.isEmpty then ({ response with error := "Key cannot be empty" }, m)
    else
      let (existed, m) := m.remove env delReq.key
      let delResp : DeleteResponse :=
        { success := true
          keyExisted := existed
          message := if existed then "Key deleted" else "Key not found" }
      ({ response with result := some (.delete delResp) }, m)
  | some (.exists existsReq) =>
    if existsReq.key.isEmpty then ({ response with error := "Key cannot be empty" }, m)
    else
      let found := m.exists env existsReq.key
      ({ response with result := some (.exists { «exists» := found }) }, m)
  | none => ({ response with error := "Unknown operation" }, m)

/-- The loop of `Pipeline`: the responses that it writes, one by one. -/
def pipelineLoop (m : CacheManager) :
    List (Env × PipelineRequest) → List PipelineResponse × CacheManager
  | [] => ([], m)
  | (env, request) :: stream =>
    let (response, m) := pipelineTurn env m request
    let (responses, m) := pipelineLoop m stream
    (response :: responses, m)

/-- `Pipeline`, on the stream of requests that it reads, each in its environment. -/
def pipeline (m : CacheManager) (stream : List (Env × PipelineRequest)) :
    (Status × List PipelineResponse) × CacheManager :=
  if !m.isReady then ((⟨.unavailable, "Cache not initialized"⟩, []), m)
  else
    let (responses, m) := pipelineLoop m stream
    ((.OK, responses), m)

/-! ## The unary RPCs -/

/-- An answer with its response as a result of the stream. -/
def asResult {ρ : Type} (f : ρ → PipelineResult) (a : Answer ρ × CacheManager) :
    Answer PipelineResult × CacheManager :=
  (a.1.map fun x => (x.1, f x.2), a.2)

/-- The RPC that an operation stands for. -/
def unary (env : Env) (m : CacheManager) : PipelineOperation → Answer PipelineResult × CacheManager
  | .get request => asResult .get (get env m request)
  | .set request => asResult .set (set env m request)
  | .delete request => asResult .delete (delete env m request)
  | .exists request => asResult .exists («exists» env m request)

/-- The state after the RPC of a request, if it has one. -/
def unaryState (env : Env) (m : CacheManager) (request : PipelineRequest) : CacheManager :=
  match request.operation with
  | none => m
  | some op => (unary env m op).2

/-- The state after the RPCs of the requests, issued one after another. -/
def unaryAll (m : CacheManager) (stream : List (Env × PipelineRequest)) : CacheManager :=
  stream.foldl (fun m x => unaryState x.1 m x.2) m

/-- The response is the one that the request's RPC would give: its sequence id is echoed; without an
operation there is an error and no result; with one whose RPC is rejected as invalid, the error is
the RPC's message, and there is no result; with any other, the result is the RPC's response, and
there is no error. -/
def Answers (env : Env) (m : CacheManager) (request : PipelineRequest)
    (response : PipelineResponse) : Prop :=
  response.sequenceId = request.sequenceId ∧
  match request.operation with
  | none => response.error = "Unknown operation" ∧ response.result = none
  | some op => ∃ status result, (unary env m op).1 = .ok (status, result) ∧
    ((status.code = .invalidArgument ∧ response.error = status.message ∧ response.result = none) ∨
      (status = .OK ∧ response.error = "" ∧ response.result = some result))

/-! ## One request -/

/-- A turn that checks its key as the RPC does, and then gives the RPC's response and leaves the
RPC's state, answers its request as the RPC would. -/
theorem spec_of_keyed {ρ : Type} {env : Env} {m m' : CacheManager} (hready : m.isReady = true)
    {sequenceId : UInt64} {op : PipelineOperation} {key : Bytes} {rejected : String → ρ}
    {response : ρ} (f : ρ → PipelineResult)
    (hunary : unary env m op = asResult f (keyed m key rejected (.ok (.OK, response), m')))
    {turn : PipelineResponse × CacheManager}
    (hturn : turn =
      if key.isEmpty then ({ sequenceId, error := "Key cannot be empty" }, m)
      else ({ sequenceId, result := some (f response) }, m')) :
    Answers env m ⟨sequenceId, some op⟩ turn.1 ∧
      turn.2 = unaryState env m ⟨sequenceId, some op⟩ := by
  simp only [Answers, unaryState, hunary, hturn]
  cases hkey : key.isEmpty with
  | true =>
    rw [keyed_of_isEmpty hready hkey]
    exact ⟨⟨rfl, _, _, rfl, .inl ⟨rfl, rfl, rfl⟩⟩, rfl⟩
  | false =>
    rw [keyed_of_not_isEmpty hready hkey]
    exact ⟨⟨rfl, _, _, rfl, .inr ⟨rfl, rfl, rfl⟩⟩, rfl⟩

/-- The response of a set in the stream, with its fields one by one, is the RPC's. -/
theorem setResponse_eq (success : Bool) (value : Bytes) :
    ({ success
       message := if success then "OK" else "Failed to set value"
       sizeBytes := if success then value.length else 0 } : SetResponse) =
      if success then { success, message := "OK", sizeBytes := value.length }
      else { success, message := "Failed to set value" } := by
  cases success <;> rfl

/-- A turn of the loop answers its request as the RPC would, and leaves the state that it would
leave. -/
theorem pipelineTurn_spec (env : Env) {m : CacheManager} (hready : m.isReady = true)
    (request : PipelineRequest) :
    Answers env m request (pipelineTurn env m request).1 ∧
      (pipelineTurn env m request).2 = unaryState env m request := by
  obtain ⟨sequenceId, operation⟩ := request
  cases operation with
  | none => exact ⟨⟨rfl, rfl, rfl⟩, rfl⟩
  | some op =>
    cases op with
    | get r => exact spec_of_keyed hready .get rfl rfl
    | set r =>
      -- The two copies narrow the TTL in the same way, but spell the response differently.
      refine spec_of_keyed hready .set rfl ?_
      simp only [pipelineTurn, setResponse_eq]
      rfl
    | delete r => exact spec_of_keyed hready .delete rfl rfl
    | «exists» r => exact spec_of_keyed hready .exists rfl rfl

/-! ## Whole streams -/

/-- `get` leaves the cache where it is. -/
theorem isReady_get (env : Env) (m : CacheManager) (key : Bytes) :
    (m.get env key).2.isReady = m.isReady := by
  rw [CacheManager.isReady, m.get_cache env key, CacheManager.isReady]

/-- `set` leaves a cache behind where there was one. -/
theorem isReady_set (env : Env) (m : CacheManager) (key value : Bytes) (ttl : UInt32) :
    (m.set env key value ttl).2.isReady = m.isReady := by
  cases hm : m.cache <;>
    simp [CacheManager.set, CacheManager.setWithCreationTime, CacheManager.isReady, hm]

/-- `remove` leaves a cache behind where there was one. -/
theorem isReady_remove (env : Env) (m : CacheManager) (key : Bytes) :
    (m.remove env key).2.isReady = m.isReady := by
  cases hm : m.cache <;> simp [CacheManager.remove, CacheManager.isReady, hm]

/-- No request takes the cache away. -/
theorem isReady_pipelineTurn (env : Env) (m : CacheManager) (request : PipelineRequest) :
    (pipelineTurn env m request).2.isReady = m.isReady := by
  obtain ⟨sequenceId, operation⟩ := request
  cases operation with
  | none => rfl
  | some op =>
    cases op with
    | get r => simp only [pipelineTurn]; split_ifs <;> simp [isReady_get]
    | set r => simp only [pipelineTurn]; split_ifs <;> simp [isReady_set]
    | delete r => simp only [pipelineTurn]; split_ifs <;> simp [isReady_remove]
    | «exists» r => simp only [pipelineTurn]; split_ifs <;> rfl

/-- The loop answers every request of a stream as its RPC would. -/
theorem pipelineLoop_spec {m : CacheManager} (hready : m.isReady = true)
    (stream : List (Env × PipelineRequest)) :
    (pipelineLoop m stream).2 = unaryAll m stream ∧
      (pipelineLoop m stream).1.length = stream.length ∧
      ∀ pre env request post, stream = pre ++ (env, request) :: post →
        ∃ response, (pipelineLoop m stream).1[pre.length]? = some response ∧
          Answers env (unaryAll m pre) request response := by
  induction stream generalizing m with
  | nil => exact ⟨rfl, rfl, by simp⟩
  | cons x stream ih =>
    obtain ⟨env, request⟩ := x
    obtain ⟨hanswers, hstate⟩ := pipelineTurn_spec env hready request
    obtain ⟨hend, hlength, hrest⟩ := ih ((isReady_pipelineTurn env m request).trans hready)
    rw [hstate] at hend hlength hrest
    simp only [pipelineLoop, hstate]
    refine ⟨hend, by simp [hlength], ?_⟩
    intro pre env' request' post hsplit
    cases pre with
    | nil =>
      cases hsplit
      exact ⟨_, rfl, hanswers⟩
    | cons y pre =>
      rw [List.cons_append] at hsplit
      obtain ⟨rfl, htail⟩ := List.cons_eq_cons.mp hsplit
      exact hrest pre env' request' post htail

/-- For every state with a cache and every stream of requests: `Pipeline` returns `OK`; it writes
one response for each request, in order; each is the answer that the request's own RPC gives in the
state that the RPCs of the requests before it leave; and the state at the end, with its table and
its counters, is the one that the RPCs leave. -/
theorem pipeline_refines_unary {m : CacheManager} (hready : m.isReady = true)
    (stream : List (Env × PipelineRequest)) :
    (pipeline m stream).1.1 = .OK ∧
      (pipeline m stream).2 = unaryAll m stream ∧
      (pipeline m stream).1.2.length = stream.length ∧
      ∀ pre env request post, stream = pre ++ (env, request) :: post →
        ∃ response, (pipeline m stream).1.2[pre.length]? = some response ∧
          Answers env (unaryAll m pre) request response := by
  have hpipeline : pipeline m stream =
      ((.OK, (pipelineLoop m stream).1), (pipelineLoop m stream).2) := by
    simp [pipeline, hready]
  rw [hpipeline]
  exact ⟨rfl, pipelineLoop_spec hready stream⟩

/-- A stream with a duplicate sequence id and a request without an operation. -/
theorem pipeline_refines_unary_duplicate :
    (pipeline { maxItemSize := 1024, cache := some fun _ => none }
      [({ now := 5 }, ⟨7, some (.set { key := [107], value := [49] })⟩),
        ({ now := 5 }, ⟨7, none⟩)]).1.2.length = 2 :=
  (pipeline_refines_unary rfl _).2.2.1

end CacheServer.Service
