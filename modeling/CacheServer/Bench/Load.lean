import CacheServer.Lib.Decimal
import CacheServer.Manager.CacheLib

/-!
# The load generator

The workers of `main.go` of the benchmarks, from the choice of their keys to the windows that they
run in. `main` runs the workers in one warmup window after the other, and then in the measured
phase, and waits for all of them in between. In the closed model every worker does one operation
after the other, and in the offered model the workers take their operations from a channel that
`main` fills.

The counter of the one-pass pattern is shared by all workers and by all windows. A worker draws its
number from the counter in one atomic step, and asks for its keys later. Everything that depends on
the clock is an input: when a window is over, and whether the warmup is stable.
-/

namespace CacheServer.Bench.Load

/-! ## Options -/

/-- How keys are chosen. -/
inductive Pattern
  | uniform
  | skew
  | hotShift
  | onePass
deriving DecidableEq, Repr

/-- What an operation does with its keys. -/
inductive Workload
  | readOnly
  | readHeavy
  | mixed
  | origin
deriving DecidableEq, Repr

/-- The RPC that an operation uses. -/
inductive Operation
  | unary
  | batchGet
  | batchSet
  | pipeline
deriving DecidableEq, Repr

/-- Who decides when an operation starts: the worker, or the schedule of arrivals. -/
inductive Model
  | closed
  | offered
deriving DecidableEq, Repr

/-- The options that the choice of keys and the windows depend on. -/
structure Options where
  /-- `-run-id`, which is a part of every key. -/
  runID : Bytes
  /-- `-pattern`. -/
  pattern : Pattern
  /-- `-workload`. -/
  workload : Workload
  /-- `-operation`. -/
  operation : Operation
  /-- `-model`. -/
  model : Model
  /-- `-objects`. -/
  objects : Int64
  /-- `-concurrency`, the number of workers. -/
  concurrency : Int64
  /-- `-batch-size`. -/
  batchSize : Int64
  /-- `-warmup-seconds`. -/
  warmupSeconds : Int64
  /-- `-measure-seconds`. -/
  measureSeconds : Int64
  /-- `-offered-rate`, in arrivals a second. -/
  offeredRate : Int64
deriving DecidableEq, Repr

/-- The options that `main` does not refuse. -/
structure Options.Accepted (o : Options) : Prop where
  /-- There are objects. -/
  objects : 0 < o.objects
  /-- There are workers. -/
  concurrency : 0 < o.concurrency
  /-- A batch has keys. -/
  batchSize : 0 < o.batchSize
  /-- Something is measured. -/
  measureSeconds : 0 < o.measureSeconds
  /-- The offered model has arrivals. -/
  offeredRate : o.model = .offered → 0 < o.offeredRate

/-! ## Keys -/

/-- `splitmix64`. -/
def splitmix64 (x : UInt64) : UInt64 :=
  let x := x + 0x9e3779b97f4a7c15
  let x := (x ^^^ (x >>> 30)) * 0xbf58476d1ce4e5b9
  let x := (x ^^^ (x >>> 27)) * 0x94d049bb133111eb
  x ^^^ (x >>> 31)

/-- `chooseIndex`. Durations are in nanoseconds. -/
def chooseIndex (o : Options) (worker : Int64) (op : UInt64) (elapsed : Int64) : Int64 :=
  let h := splitmix64 (worker.toUInt64 * 0x9e3779b97f4a7c15 + op + 20260923)
  match o.pattern with
  | .onePass => o.objects + worker * 100000000 + op.toInt64
  | .skew =>
    let f := (h >>> 11).toFloat / ((1 : UInt64) <<< 53).toFloat
    (f * f * f * o.objects.toFloat).toInt64
  | .hotShift =>
    let width := max 1 (o.objects / 10)
    let base := if o.measureSeconds * 1000000000 / 2 ≤ elapsed then o.objects - width else 0
    base + (h % width.toUInt64).toInt64
  | .uniform => (h % o.objects.toUInt64).toInt64

/-- `keyFor`. -/
def keyFor (o : Options) (index : Int64) : Bytes :=
  "strong:".toUTF8.data.toList ++ o.runID ++ ":".toUTF8.data.toList ++ Decimal.ofInt index.toInt

/-- The number of objects of an operation. -/
def Options.n (o : Options) : Int64 :=
  match o.operation with
  | .unary => 1
  | .batchGet | .batchSet | .pipeline => o.batchSize

/-- An operation that is under way: the arguments of `doOperation`, with the number that was drawn
from the counter in the place of `op` once it has been. -/
structure Call where
  /-- The index of its worker, or zero in the offered model. -/
  worker : Int64
  /-- Its number. -/
  op : UInt64
  /-- The time since the window began. -/
  elapsed : Int64
deriving DecidableEq, Repr

/-- `keys` of `doOperation`. -/
def Call.keys (o : Options) (c : Call) : List Bytes :=
  (List.range o.n.toInt.toNat).map fun i =>
    keyFor o (chooseIndex o c.worker (c.op * o.n.toUInt64 + UInt64.ofNat i) c.elapsed)

/-- What a backend is asked for. -/
inductive Request
  | get (key : Bytes)
  | set (key : Bytes)
  | batchGet (keys : List Bytes)
  | batchSet (keys : List Bytes)
  | pipelineGet (keys : List Bytes)
deriving DecidableEq, Repr

/-- The request of `doOperation`. A unary operation has one key. -/
def Call.request (o : Options) (c : Call) : Request :=
  match o.operation with
  | .unary =>
    let key := (c.keys o).headD []
    if (o.workload = .readHeavy ∧ c.op % 10 = 0) ∨ (o.workload = .mixed ∧ c.op % 2 = 0) then
      .set key
    else .get key
  | .batchGet => .batchGet (c.keys o)
  | .batchSet => .batchSet (c.keys o)
  | .pipeline => .pipelineGet (c.keys o)

/-- The keys of the objects that are asked for. -/
def Request.keys : Request → List Bytes
  | .get key | .set key => [key]
  | .batchGet keys | .batchSet keys | .pipelineGet keys => keys

/-! ## Workers and windows -/

/-- Where a worker is. -/
inductive Phase
  /-- It has not been started, or is done. -/
  | gone
  /-- It is at the head of its loop. -/
  | idle
  /-- It is in `doOperation`, before the counter. -/
  | entered (c : Call)
  /-- It is in `doOperation`, after the counter. -/
  | drawn (c : Call)
deriving DecidableEq, Repr

/-- A worker of a window, with the variable `op` of the closed model. -/
structure Worker where
  /-- Where it is. -/
  phase : Phase := .gone
  /-- Its variable `op`. -/
  op : UInt64 := 0
deriving DecidableEq, Repr

/-- Where `main` is. -/
inductive Stage
  /-- In the warmup, after a number of windows. -/
  | warmup (windows : ℕ)
  | measure
  | done
deriving DecidableEq, Repr

/-- The process: the counter, what `main` is at and whether its runner is running, the workers, the
channel of the offered model with the index of the next job, and the calls whose requests have been
sent. -/
structure Process where
  /-- `onePassCounter`. -/
  onePassCounter : UInt64 := 0
  /-- What `main` is at. -/
  stage : Stage
  /-- The runner of a window runs. -/
  running : Bool := false
  /-- The workers. -/
  worker : ℕ → Worker := fun _ => {}
  /-- The jobs in the channel. -/
  jobs : List UInt64 := []
  /-- The index of the next job. -/
  index : UInt64 := 0
  /-- The channel is closed. -/
  closed : Bool := true
  /-- The calls that have been sent, in order. -/
  calls : List Call := []

/-- The keys of all requested objects. -/
def Process.keys (o : Options) (p : Process) : List Bytes :=
  p.calls.flatMap fun c => (c.request o).keys

/-- The process before its first window. -/
def start (o : Options) : Process where
  stage := if 0 < o.warmupSeconds then .warmup 0 else .measure

/-- `minWindows`. -/
def minWindows (o : Options) : Int64 := max 3 ((o.warmupSeconds + 4) / 5)

/-- What `main` goes on with after a window. -/
def Stage.next (o : Options) (stable : Bool) : Stage → Stage
  | .warmup windows =>
    if ((minWindows o).toInt ≤ windows + 1 ∧ stable = true) ∨
        (max (minWindows o) 12).toInt ≤ windows + 1 then
      .measure
    else .warmup (windows + 1)
  | .measure => .done
  | .done => .done

/-- The steps of the process, each of one goroutine. -/
inductive Action
  /-- `main` calls the runner, which starts the workers. -/
  | launch
  /-- The runner returns, and the warmup is stable or not. -/
  | join (stable : Bool)
  /-- The runner of the offered model sends a job, or drops it. -/
  | offer
  /-- The runner of the offered model closes the channel. -/
  | close
  /-- A worker starts an operation, some time after the start of the window. -/
  | enter (w : ℕ) (elapsed : Int64)
  /-- A worker draws from the counter. -/
  | draw (w : ℕ)
  /-- A worker sends its request. -/
  | request (w : ℕ)
  /-- A worker is done. -/
  | leave (w : ℕ)
deriving DecidableEq, Repr

/-- Moves a worker. -/
def Process.put (p : Process) (w : ℕ) (worker : Worker) : Process :=
  { p with worker := Function.update p.worker w worker }

/-- A step of the process, or `none` where it cannot be taken. -/
def step (o : Options) (p : Process) : Action → Option Process
  | .launch =>
    if p.running = false ∧ p.stage ≠ .done then
      some { p with
        running := true
        worker := fun w => if (w : ℤ) < o.concurrency.toInt then { phase := .idle } else {}
        jobs := []
        index := 0
        closed := o.model = .closed }
    else none
  | .join stable =>
    if p.running = true ∧ p.closed = true ∧
        ∀ w < o.concurrency.toInt.toNat, (p.worker w).phase = .gone then
      some { p with running := false, stage := p.stage.next o stable }
    else none
  | .offer =>
    if p.running = true ∧ p.closed = false then
      if (p.jobs.length : ℤ) < (max 1024 (o.offeredRate / 2)).toInt then
        some { p with jobs := p.jobs ++ [p.index], index := p.index + 1 }
      else some { p with index := p.index + 1 }
    else none
  | .close =>
    if p.running = true ∧ p.closed = false then some { p with closed := true } else none
  | .enter w elapsed =>
    match (p.worker w).phase, o.model, p.jobs with
    | .idle, .closed, _ =>
      some (p.put w { p.worker w with phase := .entered ⟨Int64.ofNat w, (p.worker w).op, elapsed⟩ })
    -- The jobs are one global trace, whichever worker receives them.
    | .idle, .offered, job :: jobs =>
      some ({ p with jobs }.put w { p.worker w with phase := .entered ⟨0, job, elapsed⟩ })
    | _, _, _ => none
  | .draw w =>
    match (p.worker w).phase with
    | .entered c =>
      if o.pattern = .onePass then
        some ({ p with onePassCounter := p.onePassCounter + 1 }.put w
          { p.worker w with phase := .drawn { c with op := p.onePassCounter } })
      else some (p.put w { p.worker w with phase := .drawn c })
    | _ => none
  | .request w =>
    match (p.worker w).phase with
    | .drawn c =>
      some ({ p with calls := p.calls ++ [c] }.put w ⟨.idle, (p.worker w).op + 1⟩)
    | _ => none
  | .leave w =>
    if (p.worker w).phase = .idle ∧ (o.model = .offered → p.jobs = [] ∧ p.closed = true) then
      some (p.put w { p.worker w with phase := .gone })
    else none

/-- A run of the process. -/
def run (o : Options) (p : Process) (actions : List Action) : Option Process :=
  actions.foldlM (step o) p

/-- The number of operations that have drawn from the counter. -/
def draws (actions : List Action) : ℕ :=
  actions.countP fun
    | .draw _ => true
    | _ => false

end CacheServer.Bench.Load
