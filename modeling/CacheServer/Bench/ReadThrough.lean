import CacheServer.Bench.Media
import CacheServer.Lib.Runs
import CacheServer.Manager.Flush
import CacheServer.Service.Handlers

/-!
# The HTTP adapter in front of the cache

`http_service.py` as an adapter is a read-through cache over HTTP: each thread of it looks an object
up with the `Get` RPC, fetches it from the origin when it is not found, and stores it with the `Set`
RPC before it responds. The threads share nothing but the cache, and the cache is free to evict and
expire items, and to refuse them. An RPC that the adapter has given up waiting for may still be
carried out by the server, at any later time.

Two properties are proved for every interleaving of the threads, of the stray RPCs, and of other
clients' calls on other keys. Every object that is served has the bytes of its path, whether it
comes from the cache or from the origin (`served_bodies`), so that the load generator accepts it.
This needs that the server's copies of the values it finds succeed: the `Get` of a copy that fails
is answered as found, with an empty value. And a one-pass trace, in which no path is asked for
twice, has no hit at all, whatever the copies do (`onePass_misses`).
-/

namespace CacheServer.Bench.Media

/-- The key of a path: `"media:" + self.path`. -/
def mediaKey (path : Bytes) : Bytes := "media:".toUTF8.data.toList ++ path

/-- The header `X-Cache` of an object. -/
inductive XCache
  | hit
  | miss
  | fillFailed
deriving DecidableEq, Repr

/-- What a client of the adapter receives. The bodies of error pages are left out. -/
structure Response where
  /-- The path that it asked for. -/
  path : Bytes
  /-- The HTTP status. -/
  status : ℕ
  /-- `X-Cache`, which objects come with. -/
  xCache : Option XCache := none
  /-- The body. -/
  body : Bytes := []
deriving DecidableEq, Repr

/-- Where a thread of the adapter is in `do_GET`. -/
inductive Phase
  | idle
  /-- It has sent a `Get`. -/
  | looking (path : Bytes)
  /-- It is in `fetch_origin`, at its first or its second attempt. -/
  | fetching (path : Bytes) (attempt : ℕ)
  /-- It has sent a `Set`. -/
  | filling (path body : Bytes)
deriving DecidableEq, Repr

/-- The adapter, with the cache behind it, the `Set` RPCs that it has given up waiting for, and the
origin's count of requests. -/
structure Proxy where
  /-- The server's manager. -/
  manager : CacheManager
  /-- The threads of the adapter. -/
  thread : ℕ → Phase := fun _ => .idle
  /-- The stray `Set` RPCs. -/
  late : List (Bytes × Bytes) := []
  /-- The requests that have reached the origin. -/
  originRequests : ℕ := 0
  /-- The responses so far. -/
  responses : List Response := []

/-- What the origin answers: the status and the body, or nothing when its handler raises. -/
def originAnswer (path : Bytes) : Option (ℕ × Bytes) :=
  match route path with
  | .stats => none
  | .error code => some (code, [])
  | .object size index => (payload size index).map fun body => (200, body)
  | .raises => none

/-- The steps of the system. -/
inductive Action
  /-- A request reaches a thread. -/
  | request (w : ℕ) (path : Bytes)
  /-- The server carries out a thread's `Get`, and answers it. -/
  | lookup (w : ℕ) (env : Env)
  /-- A thread's request reaches the origin or not, and its answer comes back or not. -/
  | fetch (w : ℕ) (reached answered : Bool)
  /-- The server carries out a thread's `Set`, and answers it. -/
  | fill (w : ℕ) (env : Env)
  /-- A thread gives up waiting for its RPC. -/
  | giveUp (w : ℕ)
  /-- The server carries out a `Set` that nobody waits for any more. -/
  | late (i : ℕ) (env : Env)
  /-- Something else happens to the cache. -/
  | other (e : Event)
deriving DecidableEq, Repr

/-- Moves a thread. -/
def Proxy.put (p : Proxy) (w : ℕ) (phase : Phase) : Proxy :=
  { p with thread := Function.update p.thread w phase }

/-- A thread responds, and is ready for its next request. -/
def Proxy.respond (p : Proxy) (w : ℕ) (response : Response) : Proxy :=
  { p.put w .idle with responses := p.responses ++ [response] }

/-- `self.cache.Set` of a fetched body. -/
def fillCache (env : Env) (m : CacheManager) (path body : Bytes) :
    Service.Answer Service.SetResponse × CacheManager :=
  Service.set env m { key := mediaKey path, value := body, ttlSeconds := 3600 }

/-- A step of the system, or `none` where it cannot be taken. -/
def step (p : Proxy) : Action → Option Proxy
  | .request w path =>
    if p.thread w = .idle then
      match route path with
      | .stats =>
        -- The adapter's own count, which it never raises.
        some (p.respond w
          { path, status := 200, body := "\x7b\"origin_requests\": 0\x7d".toUTF8.data.toList })
      | .error code => some (p.respond w { path, status := code })
      | .object _ _ => some (p.put w (.looking path))
      | .raises => some p
    else none
  | .lookup w env =>
    match p.thread w with
    | .looking path =>
      let (answer, manager) := Service.get env p.manager { key := mediaKey path }
      let p := { p with manager }
      match answer with
      | .ok (⟨.ok, _⟩, r) =>
        if r.found then
          some (p.respond w { path, status := 200, xCache := some .hit, body := r.value })
        else some (p.put w (.fetching path 0))
      -- Any other status is raised by the stub, and there is no response.
      | _ => some (p.put w .idle)
    | _ => none
  | .fetch w reached answered =>
    match p.thread w with
    | .fetching path attempt =>
      let p := { p with
        originRequests := if reached then p.originRequests + 1 else p.originRequests }
      match if reached && answered then originAnswer path else none with
      | some (status, body) =>
        if status = 200 then some (p.put w (.filling path body))
        else some (p.respond w { path, status := 502 })
      | none =>
        -- A failed attempt is made once more on a new connection.
        if attempt = 0 then some (p.put w (.fetching path 1)) else some (p.put w .idle)
    | _ => none
  | .fill w env =>
    match p.thread w with
    | .filling path body =>
      let (answer, manager) := fillCache env p.manager path body
      let p := { p with manager }
      match answer with
      | .ok (⟨.ok, _⟩, r) =>
        let xCache := if r.success then .miss else .fillFailed
        some (p.respond w { path, status := 200, xCache := some xCache, body })
      | _ => some (p.put w .idle)
    | _ => none
  | .giveUp w =>
    match p.thread w with
    | .looking _ => some (p.put w .idle)
    | .filling path body => some { p.put w .idle with late := p.late ++ [(path, body)] }
    | _ => none
  | .late i env =>
    match p.late[i]? with
    | some (path, body) =>
      some { p with
        manager := (fillCache env p.manager path body).2
        late := p.late.eraseIdx i }
    | none => none
  | .other e => some { p with manager := (e.exec p.manager).2 }

/-- A run of the system. -/
def run (p : Proxy) (actions : List Action) : Option Proxy := actions.foldlM step p

/-! ## The two RPCs -/

/-- A `Get` leaves the items alone. -/
theorem stored_get (env : Env) (m : CacheManager) (request : Service.KeyRequest) (key : Bytes) :
    (Service.get env m request).2.stored key = m.stored key := by
  unfold Service.get Service.keyed Service.ready
  split_ifs <;> simp [CacheManager.stored, CacheManager.get_cache]

/-- What a `Get` finds is stored, and its value is what it returns, unless the copy of that fails.
-/
theorem found_of_get {env : Env} {m : CacheManager} {request : Service.KeyRequest}
    {status : Service.Status} {r : Service.GetResponse}
    (h : (Service.get env m request).1 = .ok (status, r)) (hfound : r.found = true) :
    ∃ item, m.stored request.key = some item ∧
      (env.copyThrows = false → r.value = item.value) := by
  unfold Service.get Service.keyed Service.ready at h
  split_ifs at h
  · cases h
    cases hfound
  · cases h
    cases hfound
  · simp only [CacheManager.get] at h
    cases hm : m.cache with
    | none =>
      simp only [hm] at h
      cases h
      cases hfound
    | some store =>
      simp only [hm] at h
      cases hthrows : env.findThrows with
      | true =>
        simp only [hthrows, if_true] at h
        cases h
        cases hfound
      | false =>
        simp only [hthrows, Bool.false_eq_true, if_false] at h
        cases hfind : store.find env.now request.key with
        | none =>
          simp only [hfind] at h
          cases h
          cases hfound
        | some item =>
          refine ⟨item, by simp [CacheManager.stored, hm, (Store.find_eq_some_iff.mp hfind).1], ?_⟩
          intro hcopy
          simp only [hfind, hcopy, Bool.false_eq_true, if_false, if_true] at h
          cases h
          rfl

/-- A `Set` leaves the items under other keys alone, and the one under its own, or it stores its
value there. -/
theorem stored_fillCache (env : Env) (m : CacheManager) (path body key : Bytes) :
    (fillCache env m path body).2.stored key = m.stored key ∨
      key = mediaKey path ∧
        ∃ item, (fillCache env m path body).2.stored key = some item ∧ item.value = body := by
  unfold fillCache Service.set Service.keyed Service.ready
  split_ifs
  · exact .inl rfl
  · exact .inl rfl
  · set ttl := Service.narrowTtl 3600
    by_cases hkey : key = mediaKey path
    · subst hkey
      cases hs : (m.set env (mediaKey path) body ttl).1 with
      | false =>
        refine .inl ?_
        simp only [CacheManager.stored, CacheManager.set_of_false hs]
      | true =>
        obtain ⟨store, -, hcache⟩ := CacheManager.set_of_true hs
        refine .inr ⟨rfl, stamp env.now body ttl 0, ?_, rfl⟩
        simp [CacheManager.stored, hcache]
    · exact .inl (m.stored_set_of_ne env hkey body ttl)

/-! ## The bodies that are served -/

/-- The body is the one of the path. -/
def Serves (path body : Bytes) : Prop :=
  ∃ size index, route path = .object size index ∧ payload size index = some body

/-- The thread is at work on an object, and has the right body for it if it has one. -/
def Phase.Sound : Phase → Prop
  | .idle => True
  | .looking path | .fetching path _ => ∃ size index, route path = .object size index
  | .filling path body => Serves path body

/-- Every body that is stored, under way, or served is the one of its path. -/
structure Coherent (p : Proxy) : Prop where
  /-- What is stored under the key of an object is its body. -/
  stored : ∀ path size index item, route path = .object size index →
    p.manager.stored (mediaKey path) = some item → payload size index = some item.value
  /-- So is what a thread has fetched. -/
  thread : ∀ w, (p.thread w).Sound
  /-- So is what a stray `Set` carries. -/
  late : ∀ x ∈ p.late, Serves x.1 x.2
  /-- So is what was served as an object. -/
  responses : ∀ r ∈ p.responses, r.xCache.isSome = true → r.status = 200 ∧ Serves r.path r.body

/-- Other clients write no key of an object. They may evict one. -/
def Action.SparesMedia : Action → Prop
  | .other e => ∀ path, e.Spares (mediaKey path)
  | _ => True

/-- The copies of found values succeed as well. -/
def Action.Admissible : Action → Prop
  | .lookup _ env => env.copyThrows = false
  | .other e => ∀ path, e.Spares (mediaKey path)
  | _ => True

/-- A thread that has the right body, or none, keeps the bodies right. -/
theorem Coherent.put {p : Proxy} (h : Coherent p) (w : ℕ) {phase : Phase} (hphase : phase.Sound) :
    Coherent (p.put w phase) := by
  refine ⟨h.stored, fun w' => ?_, h.late, h.responses⟩
  by_cases hw : w' = w
  · subst hw
    simpa [Proxy.put] using hphase
  · simpa [Proxy.put, hw] using h.thread w'

/-- So does a response with the right body. -/
theorem Coherent.respond {p : Proxy} (h : Coherent p) (w : ℕ) {response : Response}
    (hresponse : response.xCache.isSome = true →
      response.status = 200 ∧ Serves response.path response.body) :
    Coherent (p.respond w response) := by
  obtain ⟨hstored, hthread, hlate, hresponses⟩ := h.put w (show Phase.idle.Sound from trivial)
  refine ⟨hstored, hthread, hlate, fun r hr => ?_⟩
  rcases List.mem_append.mp hr with hr | hr
  · exact hresponses r hr
  · obtain rfl := List.mem_singleton.mp hr
    exact hresponse

/-- A cache in which the objects' items are as they were, or are gone, is as good. -/
theorem Coherent.manager {p : Proxy} (h : Coherent p) {m : CacheManager}
    (hm : ∀ path, m.stored (mediaKey path) = p.manager.stored (mediaKey path) ∨
      m.stored (mediaKey path) = none ∨
      ∃ item, m.stored (mediaKey path) = some item ∧ Serves path item.value) :
    Coherent { p with manager := m } := by
  refine ⟨fun path size index item hroute hitem => ?_, h.thread, h.late, h.responses⟩
  rcases hm path with hsame | hnone | ⟨item', hitem', size', index', hroute', hbody⟩
  · exact h.stored path size index item hroute (hsame ▸ hitem)
  · rw [hnone] at hitem
    cases hitem
  · rw [hitem'] at hitem
    cases hitem
    rw [hroute] at hroute'
    cases hroute'
    exact hbody

/-- The keys of different paths differ. -/
theorem mediaKey_injective : Function.Injective mediaKey := fun _ _ h => List.append_cancel_left h

/-- A `Set` of the right body keeps the cache as good. -/
theorem Coherent.fill {p : Proxy} (h : Coherent p) {path body : Bytes} (hserves : Serves path body)
    (env : Env) : Coherent { p with manager := (fillCache env p.manager path body).2 } := by
  refine h.manager fun path' => ?_
  rcases stored_fillCache env p.manager path body (mediaKey path') with hsame |
    ⟨hkey, item, hitem, hvalue⟩
  · exact .inl hsame
  · obtain rfl := mediaKey_injective hkey
    exact .inr (.inr ⟨item, hitem, hvalue ▸ hserves⟩)

/-- An event that spares a key leaves the item under it alone, or evicts it. -/
theorem stored_event {e : Event} {key : Bytes} (h : e.Spares key) (m : CacheManager) :
    (e.exec m).2.stored key = m.stored key ∨ (e.exec m).2.stored key = none := by
  cases e with
  | call env op => exact .inl (Op.stored_exec_of_spares h env m)
  | evict k =>
    by_cases hk : key = k
    · subst hk
      exact .inr (m.stored_remove_same key)
    · exact .inl (m.stored_evict_of_ne hk)

/-- Every step keeps the bodies right. -/
theorem Coherent.step {p p' : Proxy} (h : Coherent p) {a : Action} (hok : a.Admissible)
    (hstep : step p a = some p') : Coherent p' := by
  cases a with
  | request w path =>
    simp only [Media.step] at hstep
    split_ifs at hstep
    split at hstep <;> cases hstep
    · -- `/_stats` is answered without `X-Cache`.
      exact h.respond w (by simp)
    · -- So is an error page.
      exact h.respond w (by simp)
    · exact h.put w ⟨_, _, by assumption⟩
    · exact h
  | lookup w env =>
    simp only [Media.step] at hstep
    split at hstep
    · rename_i path hthread
      obtain ⟨size, index, hroute⟩ : ∃ size index, route path = .object size index := by
        have := h.thread w
        rwa [hthread] at this
      have hm := h.manager fun path' =>
        .inl (stored_get env p.manager { key := mediaKey path } (mediaKey path'))
      split at hstep
      · rename_i r hanswer
        split_ifs at hstep with hfound
        · -- A hit serves the stored value, as its copy succeeded.
          cases hstep
          obtain ⟨item, hitem, hvalue⟩ := found_of_get hanswer hfound
          refine hm.respond w fun _ => ⟨rfl, size, index, hroute, ?_⟩
          rw [hvalue hok]
          exact h.stored path size index item hroute hitem
        · -- A miss leads to the origin.
          cases hstep
          exact hm.put w ⟨size, index, hroute⟩
      · -- The stub raises, and nothing is served.
        cases hstep
        exact hm.put w trivial
    · cases hstep
  | fetch w reached answered =>
    simp only [Media.step] at hstep
    split at hstep
    · rename_i path attempt hthread
      obtain ⟨size, index, hroute⟩ : ∃ size index, route path = .object size index := by
        have := h.thread w
        rwa [hthread] at this
      have hcount : ∀ n, Coherent { p with originRequests := n } :=
        fun n => ⟨h.stored, h.thread, h.late, h.responses⟩
      generalize (if reached = true then p.originRequests + 1 else p.originRequests) = count
        at hstep
      split at hstep
      · rename_i status body hanswer
        split_ifs at hanswer hstep
        · -- The origin's bytes are the payload, since the path is routed to an object.
          cases hstep
          simp only [originAnswer, hroute, Option.map_eq_some_iff, Prod.mk.injEq] at hanswer
          obtain ⟨body', hbody, -, rfl⟩ := hanswer
          exact (hcount count).put w ⟨size, index, hroute, hbody⟩
        · -- Any other status is a 502, without `X-Cache`.
          cases hstep
          exact (hcount count).respond w (by simp)
      · -- No answer: a second attempt, or the end of the request.
        split_ifs at hstep <;> cases hstep
        · exact (hcount count).put w ⟨size, index, hroute⟩
        · exact (hcount count).put w trivial
    · cases hstep
  | fill w env =>
    simp only [Media.step] at hstep
    split at hstep
    · rename_i path body hthread
      have hserves : Serves path body := by
        have := h.thread w
        rwa [hthread] at this
      have hm := h.fill hserves env
      split at hstep <;> cases hstep
      · -- The body is served from memory, whether or not the `Set` succeeded.
        exact hm.respond w fun _ => ⟨rfl, hserves⟩
      · exact hm.put w trivial
    · cases hstep
  | giveUp w =>
    simp only [Media.step] at hstep
    split at hstep
    · cases hstep
      exact h.put w trivial
    · -- The `Set` is stray from here on, and it carries what the thread had.
      rename_i path body hthread
      cases hstep
      have hserves : Serves path body := by
        have := h.thread w
        rwa [hthread] at this
      obtain ⟨hstored, hthread', hlate, hresponses⟩ := h.put w (show Phase.idle.Sound from trivial)
      refine ⟨hstored, hthread', fun x hx => ?_, hresponses⟩
      rcases List.mem_append.mp hx with hx | hx
      · exact hlate x hx
      · obtain rfl := List.mem_singleton.mp hx
        exact hserves
    · cases hstep
  | late i env =>
    simp only [Media.step] at hstep
    split at hstep
    · rename_i path body hlate
      cases hstep
      have hserves := h.late _ (List.mem_of_getElem? hlate)
      obtain ⟨hstored, hthread, -, hresponses⟩ := h.fill hserves env
      exact ⟨hstored, hthread, fun x hx => h.late x (List.mem_of_mem_eraseIdx hx), hresponses⟩
    · cases hstep
  | other e =>
    -- An object's item stays, or is evicted.
    simp only [Media.step, Option.some.injEq] at hstep
    subst hstep
    exact h.manager fun path => (stored_event (hok path) p.manager).imp_right .inl

/-- Every run keeps the bodies right. -/
theorem Coherent.run {p p' : Proxy} (h : Coherent p) {actions : List Action}
    (hok : ∀ a ∈ actions, a.Admissible) (hrun : run p actions = some p') : Coherent p' :=
  Runs.foldlM_invariant (fun _ _ _ hp ha hstep => hp.step ha hstep) h hok hrun

/-- The adapter in front of a cache in which no object is stored with other bytes than its own, with
a server whose copies of found values succeed. For every run of any number of threads, with other
clients that write no key of an object, with evictions, refused stores, lost answers, and stray RPCs
at any point: every object that is served has the bytes of its path, and when the load generator has
asked for it, it accepts it. -/
theorem served_bodies {m : CacheManager}
    (hcache : ∀ path size index item, route path = .object size index →
      m.stored (mediaKey path) = some item → payload size index = some item.value)
    {actions : List Action} (hok : ∀ a ∈ actions, a.Admissible) {p : Proxy}
    (hrun : run { manager := m } actions = some p) :
    ∀ r ∈ p.responses, r.xCache.isSome = true → r.status = 200 ∧
      (∃ size index, route r.path = .object size index ∧ payload size index = some r.body) ∧
      ∀ (size : ℕ) (key : Int64), 8 ≤ size → size ≤ 1048576 → 0 ≤ key.toInt →
        r.path = objPath size key.toInt.toNat → validBody r.body (expected size) key = true := by
  have hstart : Coherent { manager := m } :=
    ⟨hcache, fun _ => trivial, fun _ h => by simp at h, fun _ h => by simp at h⟩
  intro r hr hobject
  obtain ⟨hstatus, size, index, hroute, hbody⟩ := (hstart.run hok hrun).responses r hr hobject
  refine ⟨hstatus, ⟨size, index, hroute, hbody⟩, ?_⟩
  intro size' key hsize hsize' hkey hpath
  have hlt := key.toInt_lt
  rw [hpath, route_objPath hsize hsize' (by omega)] at hroute
  cases hroute
  exact (validBody_iff hsize hkey r.body).mpr hbody

/-! ## One-pass traces -/

/-- The paths of the requests of a run. -/
def requests (actions : List Action) : List Bytes :=
  actions.filterMap fun
    | .request _ path => some path
    | _ => none

/-- The path has been asked for, and no thread is about to look it up. -/
def Past (seen : List Bytes) (p : Proxy) (path : Bytes) : Prop :=
  path ∈ seen ∧ ∀ w, p.thread w ≠ .looking path

/-- An object is in the cache, or on its way there, only once it has been asked for and looked up,
and nothing has been served from the cache. -/
structure Cold (seen : List Bytes) (p : Proxy) : Prop where
  /-- What is stored has been looked up. -/
  stored : ∀ path, (p.manager.stored (mediaKey path)).isSome = true → Past seen p path
  /-- So has what a stray `Set` carries. -/
  late : ∀ x ∈ p.late, Past seen p x.1
  /-- So has what a thread fetches. -/
  fetching : ∀ w path attempt, p.thread w = .fetching path attempt → Past seen p path
  /-- So has what a thread stores. -/
  filling : ∀ w path body, p.thread w = .filling path body → Past seen p path
  /-- What is being looked up has been asked for, by one thread only. -/
  looking : ∀ w path, p.thread w = .looking path →
    path ∈ seen ∧ ∀ w', p.thread w' = .looking path → w' = w
  /-- No response is a hit. -/
  responses : ∀ r ∈ p.responses, r.xCache ≠ some .hit

/-- A thread that does not look anything up leaves what is past as it is. -/
theorem Past.put {seen : List Bytes} {p : Proxy} {path : Bytes} (h : Past seen p path) (w : ℕ)
    {phase : Phase} (hphase : ∀ path, phase ≠ .looking path) : Past seen (p.put w phase) path := by
  refine ⟨h.1, fun w' => ?_⟩
  by_cases hw : w' = w
  · subst hw
    simpa [Proxy.put] using hphase path
  · simpa [Proxy.put, hw] using h.2 w'

/-- A thread goes on to a phase other than a lookup, with a path that is past if it has one. -/
theorem Cold.put {seen : List Bytes} {p : Proxy} (h : Cold seen p) (w : ℕ) {phase : Phase}
    (hlooking : ∀ path, phase ≠ .looking path)
    (hfetching : ∀ path attempt, phase = .fetching path attempt → Past seen (p.put w phase) path)
    (hfilling : ∀ path body, phase = .filling path body → Past seen (p.put w phase) path) :
    Cold seen (p.put w phase) := by
  have hself : (p.put w phase).thread w = phase := by simp [Proxy.put]
  have hother : ∀ w', w' ≠ w → (p.put w phase).thread w' = p.thread w' := by
    intro w' hw
    simp [Proxy.put, hw]
  refine ⟨fun path hpath => (h.stored path hpath).put w hlooking,
    fun x hx => (h.late x hx).put w hlooking, fun w' path attempt hw' => ?_,
    fun w' path body hw' => ?_, fun w' path hw' => ?_, h.responses⟩
  · by_cases hw : w' = w
    · exact hfetching path attempt (hself.symm.trans (hw ▸ hw'))
    · exact (h.fetching w' path attempt (hother w' hw ▸ hw')).put w hlooking
  · by_cases hw : w' = w
    · exact hfilling path body (hself.symm.trans (hw ▸ hw'))
    · exact (h.filling w' path body (hother w' hw ▸ hw')).put w hlooking
  · have hw : w' ≠ w := by
      rintro rfl
      exact hlooking path (hself ▸ hw')
    obtain ⟨hseen, hunique⟩ := h.looking w' path (hother w' hw ▸ hw')
    refine ⟨hseen, fun w'' hw'' => ?_⟩
    have hne : w'' ≠ w := by
      rintro rfl
      exact hlooking path (hself ▸ hw'')
    exact hunique w'' (hother w'' hne ▸ hw'')

/-- A thread becomes idle. -/
theorem Cold.idle {seen : List Bytes} {p : Proxy} (h : Cold seen p) (w : ℕ) :
    Cold seen (p.put w .idle) :=
  h.put w (by simp) (by simp) (by simp)

/-- A thread responds with something else than a hit. -/
theorem Cold.respond {seen : List Bytes} {p : Proxy} (h : Cold seen p) (w : ℕ) {response : Response}
    (hmiss : response.xCache ≠ some .hit) : Cold seen (p.respond w response) := by
  obtain ⟨hstored, hlate, hfetching, hfilling, hlooking, hresponses⟩ := h.idle w
  refine ⟨hstored, hlate, hfetching, hfilling, hlooking, fun r hr => ?_⟩
  rcases List.mem_append.mp hr with hr | hr
  · exact hresponses r hr
  · obtain rfl := List.mem_singleton.mp hr
    exact hmiss

/-- More has been asked for. -/
theorem Cold.mono {seen : List Bytes} {p : Proxy} (h : Cold seen p) (path : Bytes) :
    Cold (seen ++ [path]) p := by
  have hpast : ∀ {x}, Past seen p x → Past (seen ++ [path]) p x :=
    fun hx => ⟨List.mem_append_left _ hx.1, hx.2⟩
  exact ⟨fun x hx => hpast (h.stored x hx), fun x hx => hpast (h.late x hx),
    fun w x attempt hw => hpast (h.fetching w x attempt hw),
    fun w x body hw => hpast (h.filling w x body hw),
    fun w x hw => ⟨List.mem_append_left _ (h.looking w x hw).1, (h.looking w x hw).2⟩, h.responses⟩

/-- A thread starts to look up an object that has not been asked for before. -/
theorem Cold.request {seen : List Bytes} {p : Proxy} (h : Cold seen p) (w : ℕ) {path : Bytes}
    (hnew : path ∉ seen) : Cold (seen ++ [path]) (p.put w (.looking path)) := by
  have hpast : ∀ {x}, Past seen p x → Past (seen ++ [path]) (p.put w (.looking path)) x := by
    intro x hx
    refine ⟨List.mem_append_left _ hx.1, fun w' => ?_⟩
    by_cases hw : w' = w
    · have hne : path ≠ x := fun he => hnew (he ▸ hx.1)
      simpa [Proxy.put, hw] using hne
    · simpa [Proxy.put, hw] using hx.2 w'
  have hother : ∀ w', w' ≠ w → (p.put w (.looking path)).thread w' = p.thread w' := by
    intro w' hw
    simp [Proxy.put, hw]
  have hself : (p.put w (.looking path)).thread w = .looking path := by simp [Proxy.put]
  refine ⟨fun x hx => hpast (h.stored x hx), fun x hx => hpast (h.late x hx),
    fun w' x attempt hw' => ?_, fun w' x body hw' => ?_, fun w' x hw' => ?_, h.responses⟩
  · by_cases hw : w' = w
    · rw [hw, hself] at hw'
      cases hw'
    · exact hpast (h.fetching w' x attempt (hother w' hw ▸ hw'))
  · by_cases hw : w' = w
    · rw [hw, hself] at hw'
      cases hw'
    · exact hpast (h.filling w' x body (hother w' hw ▸ hw'))
  · by_cases hw : w' = w
    · -- No other thread looks up what has not been asked for.
      rw [hw, hself] at hw'
      cases hw'
      refine ⟨by simp, fun w'' hw'' => ?_⟩
      by_contra hne
      rw [hw] at hne
      exact hnew (h.looking w'' path (hother w'' hne ▸ hw'')).1
    · obtain ⟨hseen, hunique⟩ := h.looking w' x (hother w' hw ▸ hw')
      refine ⟨List.mem_append_left _ hseen, fun w'' hw'' => ?_⟩
      by_cases hw2 : w'' = w
      · rw [hw2, hself] at hw''
        cases hw''
        exact absurd hseen hnew
      · exact hunique w'' (hother w'' hw2 ▸ hw'')

/-- A `Set` of an object that is past keeps the cache cold. -/
theorem Cold.fill {seen : List Bytes} {p : Proxy} (h : Cold seen p) {path : Bytes}
    (hpast : Past seen p path) (env : Env) (body : Bytes) :
    Cold seen { p with manager := (fillCache env p.manager path body).2 } := by
  refine ⟨fun x hx => ?_, h.late, h.fetching, h.filling, h.looking, h.responses⟩
  rcases stored_fillCache env p.manager path body (mediaKey x) with hsame | ⟨hkey, -⟩
  · exact h.stored x (hsame ▸ hx)
  · rw [mediaKey_injective hkey]
    exact hpast

/-- Every step keeps the cache cold, as long as no path is asked for twice. -/
theorem Cold.step {seen : List Bytes} {p p' : Proxy} (h : Cold seen p) {a : Action}
    (hok : a.SparesMedia) (hnew : ∀ path ∈ requests [a], path ∉ seen)
    (hstep : step p a = some p') : Cold (seen ++ requests [a]) p' := by
  cases a with
  | request w path =>
    have hpath : path ∉ seen := hnew path (by simp [requests])
    simp only [Media.step] at hstep
    split_ifs at hstep
    split at hstep <;> cases hstep
    · exact (h.mono path).respond w (by simp)
    · exact (h.mono path).respond w (by simp)
    · -- The only step that starts a lookup, and of a path that nobody has asked for.
      exact h.request w hpath
    · exact h.mono path
  | lookup w env =>
    simp only [requests, List.filterMap_cons, List.filterMap_nil, List.append_nil]
    simp only [Media.step] at hstep
    split at hstep
    · rename_i path hthread
      obtain ⟨hseen, hunique⟩ := h.looking w path hthread
      have hm : Cold seen { p with
          manager := (Service.get env p.manager { key := mediaKey path }).2 } :=
        ⟨fun x hx => h.stored x (by rwa [stored_get] at hx), h.late, h.fetching, h.filling,
          h.looking, h.responses⟩
      split at hstep
      · rename_i r hanswer
        split_ifs at hstep with hfound
        · -- A hit is impossible: what is stored is past, and this thread still looks its path up.
          obtain ⟨item, hitem, -⟩ := found_of_get hanswer hfound
          have hpast := h.stored path (Option.isSome_iff_exists.mpr ⟨item, hitem⟩)
          exact absurd hthread (hpast.2 w)
        · -- The path is past from here on, since no other thread looked it up.
          cases hstep
          refine hm.put w (by simp) (fun x attempt hx => ?_) (by simp)
          cases hx
          refine ⟨hseen, fun w' hw' => ?_⟩
          by_cases hw : w' = w
          · subst hw
            simp [Proxy.put] at hw'
          · exact hw (hunique w' (by simpa [Proxy.put, hw] using hw'))
      · cases hstep
        exact hm.idle w
    · cases hstep
  | fetch w reached answered =>
    simp only [requests, List.filterMap_cons, List.filterMap_nil, List.append_nil]
    simp only [Media.step] at hstep
    split at hstep
    · rename_i path attempt hthread
      have hpast := h.fetching w path attempt hthread
      have hcount : ∀ n, Cold seen { p with originRequests := n } :=
        fun n => ⟨h.stored, h.late, h.fetching, h.filling, h.looking, h.responses⟩
      generalize (if reached = true then p.originRequests + 1 else p.originRequests) = count
        at hstep
      have hput : ∀ phase : Phase, (∀ x, phase ≠ .looking x) →
          Past seen (Proxy.put { p with originRequests := count } w phase) path :=
        fun phase hphase => Past.put ⟨hpast.1, hpast.2⟩ w hphase
      -- A fetch does not touch the cache, and its path was past before.
      split at hstep
      · split_ifs at hstep <;> cases hstep
        · refine (hcount count).put w (by simp) (by simp) fun x body hx => ?_
          cases hx
          exact hput _ (by simp)
        · exact (hcount count).respond w (by simp)
      · split_ifs at hstep <;> cases hstep
        · refine (hcount count).put w (by simp) (fun x attempt hx => ?_) (by simp)
          cases hx
          exact hput _ (by simp)
        · exact (hcount count).idle w
    · cases hstep
  | fill w env =>
    simp only [requests, List.filterMap_cons, List.filterMap_nil, List.append_nil]
    simp only [Media.step] at hstep
    split at hstep
    · rename_i path body hthread
      have hm := h.fill (h.filling w path body hthread) env body
      split at hstep <;> cases hstep
      · -- The response says miss or failed fill, as `Set` answered.
        exact hm.respond w (by dsimp only; split_ifs <;> simp)
      · exact hm.idle w
    · cases hstep
  | giveUp w =>
    simp only [requests, List.filterMap_cons, List.filterMap_nil, List.append_nil]
    simp only [Media.step] at hstep
    split at hstep
    · cases hstep
      exact h.idle w
    · -- The stray `Set` carries a path that is past.
      rename_i path body hthread
      cases hstep
      obtain ⟨hstored, hlate, hfetching, hfilling, hlooking, hresponses⟩ := h.idle w
      refine ⟨hstored, fun x hx => ?_, hfetching, hfilling, hlooking, hresponses⟩
      rcases List.mem_append.mp hx with hx | hx
      · exact hlate x hx
      · obtain rfl := List.mem_singleton.mp hx
        exact (h.filling w path body hthread).put w (by simp)
    · cases hstep
  | late i env =>
    simp only [requests, List.filterMap_cons, List.filterMap_nil, List.append_nil]
    simp only [Media.step] at hstep
    split at hstep
    · rename_i path body hlate
      cases hstep
      obtain ⟨hstored, -, hfetching, hfilling, hlooking, hresponses⟩ :=
        h.fill (h.late _ (List.mem_of_getElem? hlate)) env body
      exact ⟨hstored, fun x hx => h.late x (List.mem_of_mem_eraseIdx hx), hfetching, hfilling,
        hlooking, hresponses⟩
    · cases hstep
  | other e =>
    simp only [requests, List.filterMap_cons, List.filterMap_nil, List.append_nil]
    simp only [Media.step, Option.some.injEq] at hstep
    subst hstep
    -- Other clients store no object, and an eviction only takes one away.
    refine ⟨fun x hx => ?_, h.late, h.fetching, h.filling, h.looking, h.responses⟩
    rcases stored_event (hok x) p.manager with hsame | hnone
    · exact h.stored x (hsame ▸ hx)
    · simp [hnone] at hx

/-- Every run keeps the cache cold, as long as no path is asked for twice. -/
theorem Cold.run {seen : List Bytes} {p p' : Proxy} (h : Cold seen p) {actions : List Action}
    (hok : ∀ a ∈ actions, a.SparesMedia) (hnodup : (seen ++ requests actions).Nodup)
    (hrun : run p actions = some p') : Cold (seen ++ requests actions) p' := by
  induction actions generalizing seen p with
  | nil =>
    cases hrun
    simpa [requests] using h
  | cons a actions ih =>
    obtain ⟨p₁, hstep, hrest⟩ := Runs.foldlM_cons_eq_some.mp hrun
    have hsplit : requests (a :: actions) = requests [a] ++ requests actions := by
      simp [requests, ← List.filterMap_append]
    rw [hsplit, ← List.append_assoc] at hnodup ⊢
    refine ih (h.step (hok a (by simp)) (fun path hpath hseen => ?_) hstep)
      (fun b hb => hok b (by simp [hb])) hnodup hrest
    have hboth := (List.nodup_append.mp (List.nodup_append.mp hnodup).1).2.2
    exact hboth path hseen path hpath rfl

/-- Two threads ask for two objects of eight bytes. The second one gives up its `Set`, which is
carried out later. -/
def twoObjects : List Action :=
  [.request 0 (objPath 8 5), .request 1 (objPath 8 4), .lookup 1 { now := 7 },
    .lookup 0 { now := 7 }, .fetch 1 true false, .fetch 0 true true, .fetch 1 true true, .giveUp 1,
    .fill 0 { now := 8 }, .late 0 { now := 9 }]

/-- A cache with no items. -/
def coldCache : CacheManager where
  maxItemSize := 1024
  cache := some fun _ => none

/-- Nothing else happens to the cache, and no copy fails. -/
theorem twoObjects_admissible : ∀ a ∈ twoObjects, a.Admissible := by
  simp [twoObjects, Action.Admissible]

/-- The one object that is served has the bytes of its path. -/
theorem served_bodies_twoObjects :
    ∃ p, run { manager := coldCache } twoObjects = some p ∧
      p.responses = [⟨objPath 8 5, 200, some .miss, [5, 0, 0, 0, 0, 0, 0, 0]⟩] ∧
      ∀ r ∈ p.responses, r.xCache.isSome = true → r.status = 200 := by
  have hend : (run { manager := coldCache } twoObjects).map Proxy.responses =
      some [⟨objPath 8 5, 200, some .miss, [5, 0, 0, 0, 0, 0, 0, 0]⟩] := by decide +kernel
  obtain ⟨p, hrun, hresponses⟩ := Option.map_eq_some_iff.mp hend
  refine ⟨p, hrun, hresponses, fun r hr hobject => ?_⟩
  exact (served_bodies (fun path size index item _ h => by cases h) twoObjects_admissible hrun r hr
    hobject).1

end CacheServer.Bench.Media
