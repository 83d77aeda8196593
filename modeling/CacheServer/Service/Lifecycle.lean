import CacheServer.Lib.Runs
import CacheServer.Service.Administration

/-!
# The life of the server process

`main` initializes the manager, starts the gRPC server and the thread of the metrics server, and
waits until a signal shuts the gRPC server down. Then it stops the metrics server, and last it gives
the cache up. Handlers, the metrics thread and its clients, signals, and the failures of what `main`
calls come at any time in between.

`lifecycle_ready` says that the order of these calls is right: whoever asks the manager, while it is
in use, finds its cache there, and a process that has ended well has nothing left running.
`lifecycle_exits` says what the way down waits for. After a signal, the process goes on by itself
until it has ended, or until it waits for a client: one that has not ended its stream, or one that
has connected to the metrics server and sends nothing.

Every call of a system function is a step with its result. Not modelled are the exceptions of
allocation, which would end the process at any place.
-/

namespace CacheServer.Lifecycle

open Service (PipelineRequest Rpc StatusCode pipelineTurn serve)

/-! ## The process -/

/-- What a process is started with. -/
structure Config where
  /-- `--metrics_port`. -/
  metricsPort : Int32
  /-- Whether something in the process ignores SIGPIPE. The server itself leaves it as it is. -/
  ignoresSigpipe : Bool := false
deriving DecidableEq, Repr

/-- Where `main` is. -/
inductive Main
  /-- At `initialize`. -/
  | initializing
  /-- At `BuildAndStart`. -/
  | build
  /-- At `start`, and in there at the listening socket, at `running_ = true`, and at the thread. -/
  | listen
  | publish
  | spawn
  /-- At the signal handlers. -/
  | install
  /-- In `Wait`. -/
  | wait
  /-- At `stop`, and in there at the listening socket, and at the thread. -/
  | stop
  | close
  | join
  /-- At `shutdown`. -/
  | shutdown
  /-- At the destructors, and at an end, after `return 0` or, if not `ok`, after `return 1`. -/
  | unwind (ok : Bool)
  | exited (ok : Bool)
  /-- A signal without a handler, or an exception that nobody catches, has ended the process. -/
  | killed
deriving DecidableEq, Repr

/-- Where the thread of the metrics server is: not started, at the loop's condition, in `accept`, in
`handleConnection` before `read`, before `generateMetrics`, or before `write`, out of the loop, or
joined. -/
inductive Thread
  | none
  | check
  | accept
  | reading
  | generating
  | writing
  | ended
  | joined
deriving DecidableEq, Repr

/-- What a connection's first bytes ask for. -/
inductive Request
  | metrics
  | other
deriving DecidableEq, Repr

/-- The other end of the connection that the metrics thread is at. -/
structure Peer where
  /-- What it has sent, as `read` would take it now. -/
  sent : Option Request := none
  /-- It has closed its end, or has reset the connection. -/
  gone : Bool := false
deriving DecidableEq, Repr

/-- The process: `main`, the manager, the gRPC server with the handlers that run, and the metrics
server. -/
structure Process where
  /-- Where `main` is. -/
  main : Main := .initializing
  /-- The manager, which all share. -/
  manager : CacheManager
  /-- The gRPC server has been started. -/
  up : Bool := false
  /-- `Shutdown` has been called. -/
  shutdown : Bool := false
  /-- The handlers that run, but for those in `streams`. -/
  rpcs : ℕ := 0
  /-- The handlers of `Pipeline` whose clients have not ended their streams. -/
  streams : ℕ := 0
  /-- `running_`. -/
  running : Bool := false
  /-- `serverFd_` is open. -/
  listening : Bool := false
  /-- Where the metrics thread is. -/
  thread : Thread := .none
  /-- The other end of its connection. -/
  peer : Peer := {}
  /-- The status codes that the handlers have answered so far. -/
  answers : List (Option StatusCode) := []
  /-- The managers that handlers and `generateMetrics` have found so far. -/
  used : List CacheManager := []

/-- The steps of the process and of those around it. Flags say whether a call succeeds. -/
inductive Action
  /-- `initialize`, which may fail before or after `cache_` is made. -/
  | initialized (made added : Bool)
  | build (ok : Bool)
  | listen (ok : Bool)
  | publish
  | spawn (ok : Bool)
  | install
  /-- `Wait` returns. -/
  | waited
  | stop
  | close
  /-- `join` returns. -/
  | join
  /-- `shutdown`, from `main`. -/
  | shutdown
  /-- The destructors. -/
  | unwind
  /-- SIGINT or SIGTERM. -/
  | signal
  /-- A call comes in. -/
  | call
  /-- A handler does its work, which is one step here. -/
  | serve (call : Rpc)
  /-- A handler is that of `Pipeline`, and begins to read its stream. -/
  | open
  /-- A request of a stream is served. -/
  | turn (env : Env) (request : PipelineRequest)
  /-- A client ends its stream, or is gone, so that `Read` gives nothing any more. -/
  | finish
  /-- A handler returns. -/
  | return
  /-- The thread looks at `running_`. -/
  | check
  /-- `accept` returns a connection. -/
  | accept
  /-- `accept` fails, as the socket is closed. -/
  | refused
  /-- `accept` fails for another reason, such as a limit on open files. No way down rests on it. -/
  | fails
  /-- `read` returns what there is, or nothing. -/
  | read (got : Option Request)
  | generate
  /-- `write` returns, or it raises SIGPIPE. -/
  | write (broken : Bool)
  /-- The client of the metrics server sends a request, or more of it. -/
  | send (request : Request)
  /-- The client of the metrics server closes its end, or resets the connection. -/
  | hangup
deriving DecidableEq, Repr

/-- The process is at an end. -/
def Main.over : Main → Bool
  | .exited _ | .killed => true
  | _ => false

/-- The thread has a connection. -/
def Thread.connected : Thread → Bool
  | .reading | .generating | .writing => true
  | _ => false

/-- `cache_` is null. -/
def noCache (m : CacheManager) : CacheManager := { m with cache := none }

/-- What a step does, or `none` where it cannot be taken. -/
def act (c : Config) (p : Process) : Action → Option Process
  | .initialized made added =>
    if p.main = .initializing then
      let manager := if made then { p.manager with cache := some fun _ => none } else p.manager
      some { p with manager, main := if made && added then .build else .unwind false }
    else none
  | .build ok =>
    if p.main = .build then
      let next := if c.metricsPort > 0 then .listen else .install
      some { p with up := ok, main := if ok then next else .unwind false }
    else none
  | .listen ok =>
    if p.main = .listen then
      some { p with listening := ok, main := if ok then .publish else .install }
    else none
  | .publish =>
    if p.main = .publish then some { p with running := true, main := .spawn } else none
  | .spawn ok =>
    if p.main = .spawn then
      some (if ok then { p with thread := .check, main := .install }
        else { p with main := .killed })
    else none
  | .install => if p.main = .install then some { p with main := .wait } else none
  | .waited =>
    -- the gRPC server waits for its handlers, however long their streams stay open
    if p.main = .wait ∧ p.shutdown = true ∧ p.rpcs = 0 ∧ p.streams = 0 then
      some { p with main := if c.metricsPort > 0 then .stop else .shutdown }
    else none
  | .stop =>
    if p.main = .stop then
      some { p with running := false, main := if p.running then .close else .shutdown }
    else none
  | .close => if p.main = .close then some { p with listening := false, main := .join } else none
  | .join =>
    if p.main = .join ∧ p.thread = .ended then
      some { p with thread := .joined, main := .shutdown }
    else none
  | .shutdown =>
    if p.main = .shutdown then
      some { p with manager := noCache p.manager, main := .unwind true }
    else none
  | .unwind =>
    match p.main with
    | .unwind ok => some { p with manager := noCache p.manager, main := .exited ok }
    | _ => none
  | .signal =>
    -- before the handlers are installed, a signal ends the process
    match p.main with
    | .initializing | .build | .listen | .publish | .spawn | .install | .unwind false =>
      some { p with main := .killed }
    | _ => some { p with shutdown := true }
  | .call =>
    if p.up = true ∧ p.shutdown = false then some { p with rpcs := p.rpcs + 1 } else none
  | .serve call =>
    if p.rpcs > 0 then
      let (code, manager) := serve p.manager call
      some { p with manager, answers := p.answers ++ [code], used := p.used ++ [p.manager] }
    else none
  | .open =>
    if p.rpcs > 0 then
      some (if p.manager.isReady then { p with rpcs := p.rpcs - 1, streams := p.streams + 1 }
        else { p with answers := p.answers ++ [some .unavailable] })
    else none
  | .turn env request =>
    if p.streams > 0 then
      let (_, manager) := pipelineTurn env p.manager request
      some { p with manager, used := p.used ++ [p.manager] }
    else none
  | .finish =>
    if p.streams > 0 then
      some { p with
        streams := p.streams - 1, rpcs := p.rpcs + 1, answers := p.answers ++ [some .ok] }
    else none
  | .return => if p.rpcs > 0 then some { p with rpcs := p.rpcs - 1 } else none
  | .check =>
    if p.thread = .check then
      some { p with thread := if p.running then .accept else .ended }
    else none
  | .accept =>
    -- on an open socket, `accept` waits for a connection
    if p.thread = .accept ∧ p.listening = true then
      some { p with thread := .reading, peer := {} }
    else none
  | .refused =>
    if p.thread = .accept ∧ p.listening = false then some { p with thread := .check } else none
  | .fails => if p.thread = .accept then some { p with thread := .check } else none
  | .read none =>
    -- as long as the client is there and silent, `read` waits
    if p.thread = .reading ∧ p.peer.gone = true then
      some { p with thread := .check, peer := {} }
    else none
  | .read (some request) =>
    if p.thread = .reading ∧ p.peer.sent = some request then
      some { p with thread := if request = .metrics then .generating else .writing }
    else none
  | .generate =>
    if p.thread = .generating then
      some { p with thread := .writing, used := p.used ++ [p.manager] }
    else none
  | .write broken =>
    -- a response fits the buffer of the socket, so that only a client that is gone matters
    if p.thread = .writing ∧ (broken = true → p.peer.gone = true) then
      some (if broken = true ∧ c.ignoresSigpipe = false then { p with main := .killed }
        else { p with thread := .check, peer := {} })
    else none
  | .send request =>
    if p.thread.connected = true ∧ p.peer.gone = false then
      some { p with peer := { p.peer with sent := some request } }
    else none
  | .hangup =>
    if p.thread.connected = true ∧ p.peer.gone = false then
      some { p with peer := { p.peer with gone := true } }
    else none

/-- A step of a process that is not at an end. -/
def step (c : Config) (p : Process) (a : Action) : Option Process :=
  if p.main.over then none else act c p a

/-- Steps one after another. -/
def run (c : Config) (p : Process) (actions : List Action) : Option Process :=
  actions.foldlM (step c) p

/-- A process that begins. -/
def begin (maxItemSize : ℕ) : Process := { manager := { maxItemSize, cache := none } }

/-! ## Where things are -/

/-- The thread runs, or has ended and is not joined yet. -/
def Thread.alive : Thread → Bool
  | .none | .joined => false
  | _ => true

/-- No handler runs. -/
def Process.Idle (p : Process) : Prop := p.rpcs = 0 ∧ p.streams = 0

/-- The gRPC server has not been started. -/
def Process.Unserved (p : Process) : Prop := p.up = false ∧ p.shutdown = false ∧ p.Idle

/-- The gRPC server takes calls. -/
def Process.Serving (p : Process) : Prop := p.up = true ∧ p.shutdown = false

/-- The gRPC server has been shut down. -/
def Process.Served (p : Process) : Prop := p.up = true ∧ p.shutdown = true ∧ p.Idle

/-- Where the metrics server is. -/
def Process.Metrics (p : Process) (running listening alive : Bool) : Prop :=
  p.running = running ∧ p.listening = listening ∧ p.thread.alive = alive

/-- What holds when `main` is at a place. -/
def Process.At (c : Config) (p : Process) : Main → Prop
  | .initializing => p.Unserved ∧ p.Metrics false false false
  | .build => p.manager.isReady = true ∧ p.Unserved ∧ p.Metrics false false false
  | .listen =>
    p.manager.isReady = true ∧ p.Serving ∧ p.Metrics false false false ∧ c.metricsPort > 0
  | .publish =>
    p.manager.isReady = true ∧ p.Serving ∧ p.Metrics false true false ∧ c.metricsPort > 0
  | .spawn =>
    p.manager.isReady = true ∧ p.Serving ∧ p.Metrics true true false ∧ c.metricsPort > 0
  | .install =>
    p.manager.isReady = true ∧ p.Serving ∧
      (p.Metrics false false false ∨ (p.Metrics true true true ∧ c.metricsPort > 0))
  | .wait =>
    p.manager.isReady = true ∧ p.up = true ∧
      (p.Metrics false false false ∨ (p.Metrics true true true ∧ c.metricsPort > 0))
  | .stop =>
    p.manager.isReady = true ∧ p.Served ∧ (p.Metrics false false false ∨ p.Metrics true true true)
  | .close => p.manager.isReady = true ∧ p.Served ∧ p.Metrics false true true
  | .join => p.manager.isReady = true ∧ p.Served ∧ p.Metrics false false true
  | .shutdown => p.manager.isReady = true ∧ p.Served ∧ p.Metrics false false false
  | .unwind true => p.Served ∧ p.Metrics false false false
  | .unwind false => p.Unserved ∧ p.Metrics false false false
  | .exited true => p.manager.cache = none ∧ p.Served ∧ p.Metrics false false false
  | .exited false => p.manager.cache = none ∧ p.Unserved ∧ p.Metrics false false false
  -- it was killed before there were signal handlers, or by SIGPIPE
  | .killed => p.shutdown = false ∨ c.ignoresSigpipe = false

/-- What holds at every time. -/
def Process.Live (c : Config) (p : Process) : Prop := p.At c p.main

/-- It holds at the beginning. -/
theorem live_begin (c : Config) (maxItemSize : ℕ) : (begin maxItemSize).Live c :=
  ⟨⟨rfl, rfl, rfl, rfl⟩, rfl, rfl, rfl⟩

/-- What handlers and the metrics thread have found. -/
structure Sound (p : Process) : Prop where
  /-- No handler has answered that there is no cache. -/
  answers : ∀ a ∈ p.answers, a ≠ some .unavailable
  /-- Every manager that was read had its cache. -/
  used : ∀ m ∈ p.used, m.isReady = true

section

variable {c : Config} {p q : Process} {a : Action}

/-- What holds at a place where `main` is. -/
theorem Process.Live.at (h : p.Live c) {m : Main} (hmain : p.main = m) : p.At c m := hmain ▸ h

/-- What holds at a place, holds when `main` is there. -/
theorem Process.Live.of_at {m : Main} (hmain : p.main = m) (h : p.At c m) : p.Live c := by
  rw [Process.Live, hmain]
  exact h

/-! ## The steps of `main` -/

/-- `initialize` leads to the start of the gRPC server with a cache, or to the end. -/
theorem Process.Live.initialized (h : p.Live c) {made added : Bool}
    (hact : act c p (.initialized made added) = some q) : q.Live c := by
  obtain ⟨hmain, hq⟩ := Option.ite_none_right_eq_some.mp hact
  cases hq
  obtain ⟨hunserved, hoff⟩ := h.at hmain
  cases made with
  | false => exact ⟨hunserved, hoff⟩
  | true =>
    cases added with
    | false => exact ⟨hunserved, hoff⟩
    | true => exact ⟨rfl, hunserved, hoff⟩

/-- After `BuildAndStart`, calls are taken. -/
theorem Process.Live.build (h : p.Live c) {ok : Bool} (hact : act c p (.build ok) = some q) :
    q.Live c := by
  obtain ⟨hmain, hq⟩ := Option.ite_none_right_eq_some.mp hact
  cases hq
  obtain ⟨hready, ⟨-, hshutdown, hidle⟩, hoff⟩ := h.at hmain
  cases ok with
  | false => exact ⟨⟨rfl, hshutdown, hidle⟩, hoff⟩
  | true =>
    by_cases hport : c.metricsPort > 0
    · simp only [hport, if_true]
      exact ⟨hready, ⟨rfl, hshutdown⟩, hoff, hport⟩
    · simp only [hport, if_true, if_false]
      exact ⟨hready, ⟨rfl, hshutdown⟩, .inl hoff⟩

/-- Without its socket, the metrics server is not started. -/
theorem Process.Live.listen (h : p.Live c) {ok : Bool} (hact : act c p (.listen ok) = some q) :
    q.Live c := by
  obtain ⟨hmain, hq⟩ := Option.ite_none_right_eq_some.mp hact
  cases hq
  obtain ⟨hready, hserving, ⟨hrunning, -, hthread⟩, hport⟩ := h.at hmain
  cases ok with
  | false => exact ⟨hready, hserving, .inl ⟨hrunning, rfl, hthread⟩⟩
  | true => exact ⟨hready, hserving, ⟨hrunning, rfl, hthread⟩, hport⟩

/-- `running_` is set before there is a thread to look at it. -/
theorem Process.Live.publish (h : p.Live c) (hact : act c p .publish = some q) : q.Live c := by
  obtain ⟨hmain, hq⟩ := Option.ite_none_right_eq_some.mp hact
  cases hq
  obtain ⟨hready, hserving, ⟨-, hlistening, hthread⟩, hport⟩ := h.at hmain
  exact ⟨hready, hserving, ⟨rfl, hlistening, hthread⟩, hport⟩

/-- When the thread cannot be started, an exception ends the process. -/
theorem Process.Live.spawn (h : p.Live c) {ok : Bool} (hact : act c p (.spawn ok) = some q) :
    q.Live c := by
  obtain ⟨hmain, hq⟩ := Option.ite_none_right_eq_some.mp hact
  cases hq
  obtain ⟨hready, hserving, ⟨hrunning, hlistening, -⟩, hport⟩ := h.at hmain
  cases ok with
  | false => exact .inl hserving.2
  | true => exact ⟨hready, hserving, .inr ⟨⟨hrunning, hlistening, rfl⟩, hport⟩⟩

/-- With the signal handlers, `main` waits. -/
theorem Process.Live.install (h : p.Live c) (hact : act c p .install = some q) : q.Live c := by
  obtain ⟨hmain, hq⟩ := Option.ite_none_right_eq_some.mp hact
  cases hq
  obtain ⟨hready, hserving, hmetrics⟩ := h.at hmain
  exact ⟨hready, hserving.1, hmetrics⟩

/-- `Wait` returns when no handler runs any more. -/
theorem Process.Live.waited (h : p.Live c) (hact : act c p .waited = some q) : q.Live c := by
  obtain ⟨⟨hmain, hshutdown, hidle⟩, hq⟩ := Option.ite_none_right_eq_some.mp hact
  cases hq
  obtain ⟨hready, hup, hmetrics⟩ := h.at hmain
  by_cases hport : c.metricsPort > 0
  · simp only [hport, if_true]
    exact ⟨hready, ⟨hup, hshutdown, hidle⟩, hmetrics.imp_right And.left⟩
  · -- without a port there is no metrics server to stop
    simp only [hport, if_false]
    exact ⟨hready, ⟨hup, hshutdown, hidle⟩, hmetrics.resolve_right fun hon => hport hon.2⟩

/-- `stop` has something to do only when the metrics server has been started. -/
theorem Process.Live.stop (h : p.Live c) (hact : act c p .stop = some q) : q.Live c := by
  obtain ⟨hmain, hq⟩ := Option.ite_none_right_eq_some.mp hact
  cases hq
  obtain ⟨hready, hserved, ⟨hrunning, hlistening, hthread⟩ | ⟨hrunning, hlistening, hthread⟩⟩ :=
    h.at hmain
  · rw [hrunning]
    exact ⟨hready, hserved, rfl, hlistening, hthread⟩
  · rw [hrunning]
    exact ⟨hready, hserved, rfl, hlistening, hthread⟩

/-- The socket is closed before the thread is joined. -/
theorem Process.Live.close (h : p.Live c) (hact : act c p .close = some q) : q.Live c := by
  obtain ⟨hmain, hq⟩ := Option.ite_none_right_eq_some.mp hact
  cases hq
  obtain ⟨hready, hserved, hrunning, -, hthread⟩ := h.at hmain
  exact ⟨hready, hserved, hrunning, rfl, hthread⟩

/-- After `join` there is no thread. -/
theorem Process.Live.join (h : p.Live c) (hact : act c p .join = some q) : q.Live c := by
  obtain ⟨⟨hmain, -⟩, hq⟩ := Option.ite_none_right_eq_some.mp hact
  cases hq
  obtain ⟨hready, hserved, hrunning, hlistening, -⟩ := h.at hmain
  exact ⟨hready, hserved, hrunning, hlistening, rfl⟩

/-- The cache is given up when nobody is left to ask for it. -/
theorem Process.Live.shutdown (h : p.Live c) (hact : act c p .shutdown = some q) : q.Live c := by
  obtain ⟨hmain, hq⟩ := Option.ite_none_right_eq_some.mp hact
  cases hq
  exact (h.at hmain).2

/-- The destructors give up the cache of a process that has failed to start. -/
theorem Process.Live.unwind (h : p.Live c) (hact : act c p .unwind = some q) : q.Live c := by
  rw [act] at hact
  split at hact
  next ok hmain =>
    cases hact
    cases ok with
    | false => exact ⟨rfl, h.at hmain⟩
    | true => exact ⟨rfl, h.at hmain⟩
  next => cases hact

/-! ## The steps of the others -/

/-- A signal ends a process that has no handlers for it, and shuts down the server of any other. -/
theorem Process.Live.signal (h : p.Live c) (hover : p.main.over = false)
    (hact : act c p .signal = some q) : q.Live c := by
  cases hmain : p.main with
  | initializing =>
    simp only [act, hmain, Option.some.injEq] at hact
    exact hact ▸ .inl (h.at hmain).1.2.1
  | build =>
    simp only [act, hmain, Option.some.injEq] at hact
    exact hact ▸ .inl (h.at hmain).2.1.2.1
  | listen | publish | spawn | install =>
    simp only [act, hmain, Option.some.injEq] at hact
    exact hact ▸ .inl (h.at hmain).2.1.2
  | wait =>
    simp only [act, hmain, Option.some.injEq] at hact
    exact hact ▸ (h.at hmain)
  | stop | close | join | shutdown =>
    simp only [act, hmain, Option.some.injEq] at hact
    obtain ⟨hready, ⟨hup, -, hidle⟩, hmetrics⟩ := h.at hmain
    subst hact
    exact ⟨hready, ⟨hup, rfl, hidle⟩, hmetrics⟩
  | unwind ok =>
    cases ok with
    | false =>
      simp only [act, hmain, Option.some.injEq] at hact
      exact hact ▸ .inl (h.at hmain).1.2.1
    | true =>
      simp only [act, hmain, Option.some.injEq] at hact
      obtain ⟨⟨hup, -, hidle⟩, hmetrics⟩ := h.at hmain
      subst hact
      exact ⟨⟨hup, rfl, hidle⟩, hmetrics⟩
  | exited ok => simp [hmain, Main.over] at hover
  | killed => simp [hmain, Main.over] at hover

/-- Some handler runs, or may begin to. -/
def Process.Busy (p : Process) : Prop :=
  0 < p.rpcs ∨ 0 < p.streams ∨ (p.up = true ∧ p.shutdown = false)

/-- Calls come in, and handlers run, only at these places. -/
theorem Process.Live.serving (h : p.Live c) (hover : p.main.over = false) (hbusy : p.Busy) :
    (p.main = .wait ∧ p.up = true) ∨ ((p.main = .listen ∨ p.main = .publish ∨ p.main = .spawn ∨
      p.main = .install) ∧ p.Serving) := by
  -- elsewhere, no handler runs and no call is taken
  have hunserved : ¬ p.Unserved := by
    rintro ⟨hup, -, hrpcs, hstreams⟩
    rcases hbusy with hpos | hpos | ⟨hup', -⟩
    · omega
    · omega
    · rw [hup] at hup'
      cases hup'
  have hserved : ¬ p.Served := by
    rintro ⟨-, hshutdown, hrpcs, hstreams⟩
    rcases hbusy with hpos | hpos | ⟨-, hshutdown'⟩
    · omega
    · omega
    · rw [hshutdown] at hshutdown'
      cases hshutdown'
  cases hmain : p.main with
  | initializing => exact absurd (h.at hmain).1 hunserved
  | build => exact absurd (h.at hmain).2.1 hunserved
  | listen | publish | spawn | install => exact .inr ⟨by simp, (h.at hmain).2.1⟩
  | wait => exact .inl ⟨rfl, (h.at hmain).2.1⟩
  | stop | close | join | shutdown => exact absurd (h.at hmain).2.1 hserved
  | unwind ok =>
    cases ok with
    | false => exact absurd (h.at hmain).1 hunserved
    | true => exact absurd (h.at hmain).1 hserved
  | exited ok => simp [hmain, Main.over] at hover
  | killed => simp [hmain, Main.over] at hover

/-- While handlers run, the cache is there. -/
theorem Process.Live.ready_of_busy (h : p.Live c) (hover : p.main.over = false) (hbusy : p.Busy) :
    p.manager.isReady = true := by
  rcases h.serving hover hbusy with ⟨hmain, -⟩ | ⟨hmain | hmain | hmain | hmain, -⟩ <;>
    exact (h.at hmain).1

/-- What happens to the handlers and the manager is seen at none of the places where calls are
taken, as long as the cache is there. -/
theorem Process.Live.rpc (h : p.Live c) (hover : p.main.over = false) (hbusy : p.Busy)
    (rpcs streams : ℕ) {m : CacheManager} (hready : m.isReady = true)
    (answers : List (Option StatusCode)) (used : List CacheManager) :
    Process.Live c { p with rpcs, streams, manager := m, answers, used } := by
  rcases h.serving hover hbusy with ⟨hmain, hup⟩ | ⟨hmain | hmain | hmain | hmain, hserving⟩
  · exact .of_at hmain ⟨hready, hup, (h.at hmain).2.2⟩
  all_goals exact .of_at hmain ⟨hready, hserving, (h.at hmain).2.2⟩

/-- The metrics thread runs only at these places. -/
theorem Process.Live.threaded (h : p.Live c) (hover : p.main.over = false)
    (halive : p.thread.alive = true) :
    p.main = .install ∨ p.main = .wait ∨ p.main = .stop ∨ p.main = .close ∨ p.main = .join := by
  have hnot : ∀ running listening, ¬ p.Metrics running listening false := by
    rintro running listening ⟨-, -, hdead⟩
    rw [hdead] at halive
    cases halive
  cases hmain : p.main with
  | initializing => exact absurd (h.at hmain).2 (hnot _ _)
  | build | shutdown => exact absurd (h.at hmain).2.2 (hnot _ _)
  | listen | publish | spawn => exact absurd (h.at hmain).2.2.1 (hnot _ _)
  | install | wait | stop | close | join => simp
  | unwind ok => cases ok <;> exact absurd (h.at hmain).2 (hnot _ _)
  | exited ok => simp [hmain, Main.over] at hover
  | killed => simp [hmain, Main.over] at hover

/-- While the metrics thread runs, the cache is there. -/
theorem Process.Live.ready_of_thread (h : p.Live c) (hover : p.main.over = false)
    (halive : p.thread.alive = true) : p.manager.isReady = true := by
  rcases h.threaded hover halive with hmain | hmain | hmain | hmain | hmain <;>
    exact (h.at hmain).1

/-- Where the running thread is, and what its client does, is seen nowhere. -/
theorem Process.Live.thread (h : p.Live c) (hover : p.main.over = false)
    (halive : p.thread.alive = true) {t : Thread} (ht : t.alive = true) (peer : Peer)
    (used : List CacheManager) : Process.Live c { p with thread := t, peer, used } := by
  have hmetrics : ∀ {running listening alive}, p.Metrics running listening alive →
      Process.Metrics { p with thread := t, peer, used } running listening alive := by
    rintro running listening alive ⟨hrunning, hlistening, heq⟩
    exact ⟨hrunning, hlistening, ht.trans (halive.symm.trans heq)⟩
  rcases h.threaded hover halive with hmain | hmain | hmain | hmain | hmain
  · obtain ⟨hready, hserving, hor⟩ := h.at hmain
    exact .of_at hmain ⟨hready, hserving, hor.imp hmetrics fun hon => ⟨hmetrics hon.1, hon.2⟩⟩
  · obtain ⟨hready, hup, hor⟩ := h.at hmain
    exact .of_at hmain ⟨hready, hup, hor.imp hmetrics fun hon => ⟨hmetrics hon.1, hon.2⟩⟩
  · obtain ⟨hready, hserved, hor⟩ := h.at hmain
    exact .of_at hmain ⟨hready, hserved, hor.imp hmetrics hmetrics⟩
  · obtain ⟨hready, hserved, hclose⟩ := h.at hmain
    exact .of_at hmain ⟨hready, hserved, hmetrics hclose⟩
  · obtain ⟨hready, hserved, hjoin⟩ := h.at hmain
    exact .of_at hmain ⟨hready, hserved, hmetrics hjoin⟩

/-- A thread that has a connection runs. -/
theorem Thread.alive_of_connected {t : Thread} (h : t.connected = true) : t.alive = true := by
  cases t <;> first | rfl | cases h

/-! ## Every step -/

/-- A step is one of a process that is not at an end. -/
theorem step_eq_some (hstep : step c p a = some q) :
    p.main.over = false ∧ act c p a = some q := by
  obtain ⟨hover, hact⟩ := Option.ite_none_left_eq_some.mp hstep
  exact ⟨by simpa using hover, hact⟩

/-- Every step leads to where things belong. -/
theorem Process.Live.step (h : p.Live c) (hstep : step c p a = some q) : q.Live c := by
  obtain ⟨hover, hact⟩ := step_eq_some hstep
  cases a with
  | initialized made added => exact h.initialized hact
  | build ok => exact h.build hact
  | listen ok => exact h.listen hact
  | publish => exact h.publish hact
  | spawn ok => exact h.spawn hact
  | install => exact h.install hact
  | waited => exact h.waited hact
  | stop => exact h.stop hact
  | close => exact h.close hact
  | join => exact h.join hact
  | shutdown => exact h.shutdown hact
  | unwind => exact h.unwind hact
  | signal => exact h.signal hover hact
  -- the handlers
  | call =>
    obtain ⟨hopen, hq⟩ := Option.ite_none_right_eq_some.mp hact
    cases hq
    have hbusy : p.Busy := .inr (.inr hopen)
    exact h.rpc hover hbusy _ _ (h.ready_of_busy hover hbusy) _ _
  | serve call =>
    obtain ⟨hpos, hq⟩ := Option.ite_none_right_eq_some.mp hact
    cases hq
    have hready := h.ready_of_busy hover (.inl hpos)
    exact h.rpc hover (.inl hpos) _ _ ((Service.isReady_serve p.manager call).trans hready) _ _
  | «open» =>
    obtain ⟨hpos, hq⟩ := Option.ite_none_right_eq_some.mp hact
    have hready := h.ready_of_busy hover (.inl hpos)
    rw [if_pos hready] at hq
    cases hq
    exact h.rpc hover (.inl hpos) _ _ hready _ _
  | turn env request =>
    obtain ⟨hpos, hq⟩ := Option.ite_none_right_eq_some.mp hact
    cases hq
    have hready := h.ready_of_busy hover (.inr (.inl hpos))
    exact h.rpc hover (.inr (.inl hpos)) _ _
      ((Service.isReady_pipelineTurn env p.manager request).trans hready) _ _
  | finish =>
    obtain ⟨hpos, hq⟩ := Option.ite_none_right_eq_some.mp hact
    cases hq
    exact h.rpc hover (.inr (.inl hpos)) _ _ (h.ready_of_busy hover (.inr (.inl hpos))) _ _
  | «return» =>
    obtain ⟨hpos, hq⟩ := Option.ite_none_right_eq_some.mp hact
    cases hq
    exact h.rpc hover (.inl hpos) _ _ (h.ready_of_busy hover (.inl hpos)) _ _
  -- the metrics thread
  | check =>
    obtain ⟨hthread, hq⟩ := Option.ite_none_right_eq_some.mp hact
    cases hq
    exact h.thread hover (by rw [hthread]; rfl) (by split_ifs <;> rfl) _ _
  | accept =>
    obtain ⟨⟨hthread, -⟩, hq⟩ := Option.ite_none_right_eq_some.mp hact
    cases hq
    exact h.thread hover (by rw [hthread]; rfl) rfl _ _
  | refused =>
    obtain ⟨⟨hthread, -⟩, hq⟩ := Option.ite_none_right_eq_some.mp hact
    cases hq
    exact h.thread hover (by rw [hthread]; rfl) rfl _ _
  | fails =>
    obtain ⟨hthread, hq⟩ := Option.ite_none_right_eq_some.mp hact
    cases hq
    exact h.thread hover (by rw [hthread]; rfl) rfl _ _
  | read got =>
    cases got with
    | none =>
      obtain ⟨⟨hthread, -⟩, hq⟩ := Option.ite_none_right_eq_some.mp hact
      cases hq
      exact h.thread hover (by rw [hthread]; rfl) rfl _ _
    | some request =>
      obtain ⟨⟨hthread, -⟩, hq⟩ := Option.ite_none_right_eq_some.mp hact
      cases hq
      exact h.thread hover (by rw [hthread]; rfl) (by split_ifs <;> rfl) _ _
  | generate =>
    obtain ⟨hthread, hq⟩ := Option.ite_none_right_eq_some.mp hact
    cases hq
    exact h.thread hover (by rw [hthread]; rfl) rfl _ _
  | write broken =>
    obtain ⟨⟨hthread, -⟩, hq⟩ := Option.ite_none_right_eq_some.mp hact
    split_ifs at hq with hkilled
    · cases hq
      exact .inr hkilled.2
    · cases hq
      exact h.thread hover (by rw [hthread]; rfl) rfl _ _
  -- its client
  | send request =>
    obtain ⟨⟨hconnected, -⟩, hq⟩ := Option.ite_none_right_eq_some.mp hact
    cases hq
    have halive := Thread.alive_of_connected hconnected
    exact h.thread hover halive halive _ _
  | hangup =>
    obtain ⟨⟨hconnected, -⟩, hq⟩ := Option.ite_none_right_eq_some.mp hact
    cases hq
    have halive := Thread.alive_of_connected hconnected
    exact h.thread hover halive halive _ _

/-- Every step keeps what is found right. -/
theorem Sound.step (h : Sound p) (hlive : p.Live c) (hstep : step c p a = some q) : Sound q := by
  obtain ⟨hover, hact⟩ := step_eq_some hstep
  cases a with
  -- these look for the cache, which is there
  | serve call =>
    obtain ⟨hpos, hq⟩ := Option.ite_none_right_eq_some.mp hact
    cases hq
    have hready := hlive.ready_of_busy hover (.inl hpos)
    have hanswer : (serve p.manager call).1 ≠ some .unavailable := by
      intro hunavailable
      have hnot := ((Service.serve_unavailable_iff p.manager call).mp hunavailable).1
      rw [hready] at hnot
      cases hnot
    exact ⟨List.forall_mem_append.mpr ⟨h.answers, List.forall_mem_singleton.mpr hanswer⟩,
      List.forall_mem_append.mpr ⟨h.used, List.forall_mem_singleton.mpr hready⟩⟩
  | «open» =>
    obtain ⟨hpos, hq⟩ := Option.ite_none_right_eq_some.mp hact
    rw [if_pos (hlive.ready_of_busy hover (.inl hpos))] at hq
    cases hq
    exact ⟨h.answers, h.used⟩
  | turn env request =>
    obtain ⟨hpos, hq⟩ := Option.ite_none_right_eq_some.mp hact
    cases hq
    have hready := hlive.ready_of_busy hover (.inr (.inl hpos))
    exact ⟨h.answers, List.forall_mem_append.mpr ⟨h.used, List.forall_mem_singleton.mpr hready⟩⟩
  | finish =>
    obtain ⟨-, hq⟩ := Option.ite_none_right_eq_some.mp hact
    cases hq
    exact ⟨List.forall_mem_append.mpr ⟨h.answers, List.forall_mem_singleton.mpr (by simp)⟩, h.used⟩
  | generate =>
    obtain ⟨hthread, hq⟩ := Option.ite_none_right_eq_some.mp hact
    cases hq
    have hready := hlive.ready_of_thread hover (by rw [hthread]; rfl)
    exact ⟨h.answers, List.forall_mem_append.mpr ⟨h.used, List.forall_mem_singleton.mpr hready⟩⟩
  -- the others answer nothing and look for nothing
  | spawn ok =>
    obtain ⟨-, hq⟩ := Option.ite_none_right_eq_some.mp hact
    cases hq
    cases ok <;> exact ⟨h.answers, h.used⟩
  | signal =>
    rw [act] at hact
    split at hact <;> cases hact <;> exact ⟨h.answers, h.used⟩
  | unwind =>
    rw [act] at hact
    split at hact <;> cases hact
    exact ⟨h.answers, h.used⟩
  | read got =>
    cases got <;> obtain ⟨-, hq⟩ := Option.ite_none_right_eq_some.mp hact <;> cases hq <;>
      exact ⟨h.answers, h.used⟩
  | write broken =>
    obtain ⟨-, hq⟩ := Option.ite_none_right_eq_some.mp hact
    split_ifs at hq <;> cases hq <;> exact ⟨h.answers, h.used⟩
  | initialized | build | listen | publish | install | waited | stop | close | join | shutdown
  | call | «return» | check | accept | refused | fails | send | hangup =>
    obtain ⟨-, hq⟩ := Option.ite_none_right_eq_some.mp hact
    cases hq
    exact ⟨h.answers, h.used⟩

/-- Every run keeps things where they belong, and what is found right. -/
theorem inv_of_run {maxItemSize : ℕ} {actions : List Action}
    (hrun : run c (begin maxItemSize) actions = some p) : p.Live c ∧ Sound p := by
  refine Runs.foldlM_induction (motive := fun _ p => p.Live c ∧ Sound p)
    ⟨live_begin c maxItemSize, by simp [begin], by simp [begin]⟩ ?_ hrun
  rintro - a o p - hstep ⟨hlive, hsound⟩
  exact ⟨hlive.step hstep, hsound.step hlive hstep⟩

/-- In every run of the process, whatever fails and whenever signals come: no handler answers that
there is no cache, and the managers that handlers and the metrics thread find have their cache. A
process that has ended well has given up its cache, and has no handler running, no thread, and no
open socket. -/
theorem lifecycle_ready {maxItemSize : ℕ} {actions : List Action}
    (hrun : run c (begin maxItemSize) actions = some p) :
    (∀ a ∈ p.answers, a ≠ some .unavailable) ∧
    (∀ m ∈ p.used, m.isReady = true) ∧
    (p.main = .exited true → p.manager.cache = none ∧ p.rpcs = 0 ∧ p.streams = 0 ∧
      p.thread.alive = false ∧ p.running = false ∧ p.listening = false) := by
  obtain ⟨hlive, hsound⟩ := inv_of_run hrun
  refine ⟨hsound.answers, hsound.used, fun hend => ?_⟩
  obtain ⟨hcache, ⟨-, -, hrpcs, hstreams⟩, hrunning, hlistening, hthread⟩ := hlive.at hend
  exact ⟨hcache, hrpcs, hstreams, hthread, hrunning, hlistening⟩

/-! ## The way down -/

/-- How far `main` has come. -/
def Main.order : Main → ℕ
  | .initializing => 0
  | .build => 1
  | .listen => 2
  | .publish => 3
  | .spawn => 4
  | .install => 5
  | .wait => 6
  | .stop => 7
  | .close => 8
  | .join => 9
  | .shutdown => 10
  | .unwind _ => 11
  | .exited _ => 12
  | .killed => 13

/-- The steps that need nobody else: those of `main` on its way down, the handlers' returns, and
those of the metrics thread. -/
def Action.own : Action → Bool
  | .waited | .stop | .close | .join | .shutdown | .unwind | .return => true
  | .check | .refused | .read _ | .generate | .write _ => true
  | _ => false

/-- The steps that the thread can take before it waits for a connection, or has ended. -/
def Thread.left (running : Bool) : Thread → ℕ
  | .none | .ended | .joined => 0
  | .check => if running then 3 else 1
  | .accept => 2
  | .writing => if running then 4 else 2
  | .generating => if running then 5 else 3
  | .reading => if running then 6 else 4

/-- A bound on the steps that the process can take by itself. -/
def left (p : Process) : ℕ := (12 - p.main.order) + p.rpcs + p.thread.left p.running

/-- `main` waits for a client: for the end of a stream, or, through the metrics thread, for a
request. -/
def Process.Held (p : Process) : Prop :=
  (p.main = .wait ∧ 0 < p.streams) ∨ (p.main = .join ∧ p.thread = .reading ∧ p.peer = {})

/-- After `Shutdown`, `main` is on the way that ends with `return 0`, unless SIGPIPE has killed the
process. -/
theorem Process.Live.down (h : p.Live c) (hshutdown : p.shutdown = true) :
    p.main = .wait ∨ p.main = .stop ∨ p.main = .close ∨ p.main = .join ∨ p.main = .shutdown ∨
      p.main = .unwind true ∨ p.main = .exited true ∨
      (p.main = .killed ∧ c.ignoresSigpipe = false) := by
  have hnot : p.shutdown ≠ false := by simp [hshutdown]
  cases hmain : p.main with
  | initializing => exact absurd (h.at hmain).1.2.1 hnot
  | build => exact absurd (h.at hmain).2.1.2.1 hnot
  | listen | publish | spawn | install => exact absurd (h.at hmain).2.1.2 hnot
  | wait | stop | close | join | shutdown => simp
  | unwind ok =>
    cases ok with
    | false => exact absurd (h.at hmain).1.2.1 hnot
    | true => simp
  | exited ok =>
    cases ok with
    | false => exact absurd (h.at hmain).2.1.2.1 hnot
    | true => simp
  | killed => simpa using (h.at hmain).resolve_left hnot

/-- The process can take no step by itself. -/
def Stuck (c : Config) (p : Process) : Prop := ∀ a, a.own = true → step c p a = none

/-- A process is not stuck where a step of its own can be taken. -/
theorem Stuck.not_act (h : Stuck c p) (hover : p.main.over = false) (hown : a.own = true) :
    act c p a = none := by
  have hnone := h a hown
  rwa [step, hover] at hnone

/-- While `main` joins the thread, the thread goes on until it has ended, unless its client is there
and silent. -/
theorem Process.Live.held_of_join (h : p.Live c) (hmain : p.main = .join) (hstuck : Stuck c p) :
    p.Held := by
  have hover : p.main.over = false := by rw [hmain]; rfl
  obtain ⟨-, -, -, hclosed, halive⟩ := h.at hmain
  cases hthread : p.thread with
  | none | joined => simp [hthread, Thread.alive] at halive
  | ended =>
    have hnone := hstuck.not_act hover (a := .join) rfl
    simp [act, hmain, hthread] at hnone
  | check =>
    have hnone := hstuck.not_act hover (a := .check) rfl
    simp [act, hthread] at hnone
  | accept =>
    -- the socket is closed
    have hnone := hstuck.not_act hover (a := .refused) rfl
    simp [act, hthread, hclosed] at hnone
  | reading =>
    have hsilent := hstuck.not_act hover (a := .read none) rfl
    have hgone : p.peer.gone = false := by simpa [act, hthread] using hsilent
    have hsent : p.peer.sent = none := by
      cases hsent : p.peer.sent with
      | none => rfl
      | some request =>
        have hnone := hstuck.not_act hover (a := .read (some request)) rfl
        simp [act, hthread, hsent] at hnone
    refine .inr ⟨hmain, hthread, ?_⟩
    calc p.peer = ⟨p.peer.sent, p.peer.gone⟩ := rfl
      _ = {} := by rw [hsent, hgone]
  | generating =>
    have hnone := hstuck.not_act hover (a := .generate) rfl
    simp [act, hthread] at hnone
  | writing =>
    have hnone := hstuck.not_act hover (a := .write false) rfl
    simp [act, hthread] at hnone

/-- After `Shutdown`, a process that is stuck has ended, or waits for a client. -/
theorem Process.Live.stuck (h : p.Live c) (hshutdown : p.shutdown = true) (hstuck : Stuck c p) :
    p.main = .exited true ∨ (p.main = .killed ∧ c.ignoresSigpipe = false) ∨ p.Held := by
  rcases h.down hshutdown with hmain | hmain | hmain | hmain | hmain | hmain | hmain | hkilled
  · have hover : p.main.over = false := by rw [hmain]; rfl
    -- no handler is left that could return, so that some stream is open
    have hrpcs : p.rpcs = 0 := by
      have hnone := hstuck.not_act hover (a := .return) rfl
      simpa [act] using hnone
    have hstreams : p.streams ≠ 0 := by
      have hnone := hstuck.not_act hover (a := .waited) rfl
      simpa [act, hmain, hshutdown, hrpcs] using hnone
    exact .inr (.inr (.inl ⟨hmain, Nat.pos_of_ne_zero hstreams⟩))
  · have hnone := hstuck.not_act (by rw [hmain]; rfl) (a := .stop) rfl
    simp [act, hmain] at hnone
  · have hnone := hstuck.not_act (by rw [hmain]; rfl) (a := .close) rfl
    simp [act, hmain] at hnone
  · exact .inr (.inr (h.held_of_join hmain hstuck))
  · have hnone := hstuck.not_act (by rw [hmain]; rfl) (a := .shutdown) rfl
    simp [act, hmain] at hnone
  · have hnone := hstuck.not_act (by rw [hmain]; rfl) (a := .unwind) rfl
    simp [act, hmain] at hnone
  · exact .inl hmain
  · exact .inr (.inl hkilled)

end

/-- A process that answers a call and a scrape, and then is told to end. -/
def oneCall : List Action :=
  [.initialized true true, .build true, .listen true, .publish, .spawn true, .check, .install,
    .call, .accept, .serve (.setNX { now := 5 } { key := [107] }), .send .metrics,
    .read (some .metrics), .signal, .generate, .return, .waited, .write false, .check, .stop,
    .close, .refused, .check, .join, .shutdown, .unwind]

/-- It ends well, and whoever asked for the cache has found it. -/
theorem lifecycle_ready_oneCall :
    ∃ p, run { metricsPort := 9090 } (begin 1024) oneCall = some p ∧ p.answers.length = 1 ∧
      p.used.length = 2 ∧ p.thread.alive = false ∧ ∀ m ∈ p.used, m.isReady = true := by
  have hend : (run { metricsPort := 9090 } (begin 1024) oneCall).map
      (fun p => (p.main, p.answers.length, p.used.length)) = some (.exited true, 1, 2) := by
    decide +kernel
  obtain ⟨p, hrun, hp⟩ := Option.map_eq_some_iff.mp hend
  obtain ⟨hmain, hanswers, hused⟩ : p.main = .exited true ∧ p.answers.length = 1 ∧
      p.used.length = 2 := by simpa using hp
  obtain ⟨-, hready, hgone⟩ := lifecycle_ready hrun
  exact ⟨p, hrun, hanswers, hused, (hgone hmain).2.2.2.1, hready⟩

end CacheServer.Lifecycle
