import CacheServer.Bench.Load
import CacheServer.Lib.Runs
import CacheServer.Lib.WorkQueue

/-!
# What the load generator reports

An operation of `main.go` counts its objects, what was found, and what went wrong, in a `Sample`.
The workers of a phase add up their samples each on their own, and the runner adds up the workers.

In the offered model, arrivals come at fixed times whether or not the workers keep up. The runner
puts them into a channel and drops those that find it full, and the workers measure their latencies
from the time that an arrival was due, so that the wait in the channel counts. The steps of the
runner and of the workers are interleaved in any order, and time passes in between.
`offered_accounts` says what the report then is worth.
-/

namespace CacheServer.Bench.Offered

open Load (Options)

/-! ## Operations -/

/-- `sample`. Its counters are an `int` or an `int64` in the source. They stay far too small to
overflow, and so they are natural numbers here, as are those of a phase and of the runner. -/
structure Sample where
  /-- The time from when the operation was due until it returned. -/
  latencyNS : ℕ := 0
  /-- The keys of the operation. -/
  objects : ℕ := 0
  /-- Those that were looked up. -/
  gets : ℕ := 0
  /-- Those that were found, with the right value. -/
  hits : ℕ := 0
  /-- Those that were missed, and fetched from the origin. -/
  origins : ℕ := 0
  /-- What went wrong. -/
  errors : ℕ := 0
  /-- The bytes of what was found. -/
  bytes : ℕ := 0
deriving DecidableEq, Repr

/-- What the backend answers to an operation. -/
structure Answers where
  /-- `set` or `batchSet` gives no error. -/
  written : Bool := true
  /-- What is found under each of the keys, if there is no error. -/
  read : Option (ℕ → Option Bytes) := none
  /-- The `set` that fills a missed key gives no error. -/
  filled : ℕ → Bool := fun _ => true

/-- One turn of the loop over the keys. -/
def countObject (o : Options) (value : Bytes) (a : Answers) (found : ℕ → Option Bytes) (s : Sample)
    (i : ℕ) : Sample :=
  match found i with
  | some v =>
    if v = value then { s with hits := s.hits + 1, bytes := s.bytes + value.length }
    else { s with errors := s.errors + 1 }
  | none =>
    if o.workload = .origin then
      { s with
        origins := s.origins + 1
        errors := s.errors + if a.filled i then 0 else 1 }
    else { s with errors := s.errors + 1 }

/-- `doOperation`, without its latency. -/
def doOperation (o : Options) (value : Bytes) (op : UInt64) (a : Answers) : Sample :=
  let n := o.n.toInt.toNat
  if o.operation = .batchSet then { objects := n, errors := if a.written then 0 else n }
  else if o.operation = .unary ∧
      ((o.workload = .readHeavy ∧ op % 10 = 0) ∨ (o.workload = .mixed ∧ op % 2 = 0)) then
    { objects := n, errors := if a.written then 0 else 1 }
  else
    match a.read with
    | none => { objects := n, gets := n, errors := n }
    | some found => (List.range n).foldl (countObject o value a found) { objects := n, gets := n }

/-! ## Phases -/

/-- What a `phase` adds up of its samples. -/
structure Phase where
  /-- The latencies, in the order of the operations. -/
  latencies : List ℕ := []
  /-- The objects. -/
  operations : ℕ := 0
  /-- The operations. -/
  batches : ℕ := 0
  /-- The keys that were looked up. -/
  gets : ℕ := 0
  /-- Those that were found. -/
  hits : ℕ := 0
  /-- Those that were fetched from the origin. -/
  origins : ℕ := 0
  /-- What went wrong. -/
  errors : ℕ := 0
  /-- The bytes of what was found. -/
  payloadBytes : ℕ := 0
deriving DecidableEq, Repr

/-- A worker adds a sample to its part. -/
def Phase.record (p : Phase) (s : Sample) : Phase where
  latencies := p.latencies ++ [s.latencyNS]
  operations := p.operations + s.objects
  batches := p.batches + 1
  gets := p.gets + s.gets
  hits := p.hits + s.hits
  origins := p.origins + s.origins
  errors := p.errors + s.errors
  payloadBytes := p.payloadBytes + s.bytes

/-- The runner adds the part of a worker to the phase. -/
def Phase.add (p q : Phase) : Phase where
  latencies := p.latencies ++ q.latencies
  operations := p.operations + q.operations
  batches := p.batches + q.batches
  gets := p.gets + q.gets
  hits := p.hits + q.hits
  origins := p.origins + q.origins
  errors := p.errors + q.errors
  payloadBytes := p.payloadBytes + q.payloadBytes

/-! ## The runner of the offered model -/

/-- `job`. Times are in nanoseconds since the start of the phase. -/
structure Job where
  /-- Its place among the arrivals. -/
  index : ℕ
  /-- When it arrives. -/
  due : ℕ
deriving DecidableEq, Repr

/-- The arguments of `runOffered`. -/
structure Config where
  /-- The options. -/
  o : Options
  /-- The value of every object. -/
  value : Bytes
  /-- The length of the phase, in nanoseconds. -/
  duration : ℕ
  /-- Whether the phase is measured, and not a warm-up. -/
  record : Bool

/-- `interval`. -/
def Config.interval (c : Config) : ℕ := 1000000000 / c.o.offeredRate.toInt.toNat

/-- The capacity of the channel. -/
def Config.capacity (c : Config) : ℕ := max 1024 (c.o.offeredRate.toInt.toNat / 2)

/-- The arrival with the index. -/
def Config.job (c : Config) (i : ℕ) : Job := ⟨i, i * c.interval⟩

/-- Where a worker is. -/
inductive Worker
  /-- It waits for a job. -/
  | idle
  /-- It has received a job, some time after the start. -/
  | busy (job : Job) (elapsed : ℕ)
  /-- It has found the channel closed and empty. -/
  | gone
deriving DecidableEq, Repr

/-- `runOffered` with `n` workers: the clock, the next arrival, the channel, what the runner and the
workers have counted. -/
structure Runner (n : ℕ) where
  /-- The time since the start of the phase, in nanoseconds. -/
  now : ℕ := 0
  /-- The index of the next arrival. -/
  next : ℕ := 0
  /-- The jobs in the channel. -/
  jobs : List Job := []
  /-- The channel is closed. -/
  closed : Bool := false
  /-- The arrivals that found it full. -/
  dropped : ℕ := 0
  /-- The most that the runner was behind an arrival. -/
  schedulerLateNS : ℕ := 0
  /-- The workers. -/
  worker : Fin n → Worker := fun _ => .idle
  /-- What each worker has added up. -/
  part : Fin n → Phase := fun _ => {}
  /-- `out.operations`, to which the workers add when nothing is recorded. -/
  operations : ℕ := 0

/-- The steps of the goroutines, and of the clock. -/
inductive Action (n : ℕ)
  /-- Time passes. -/
  | pass (now : ℕ)
  /-- The runner sends the next arrival, or drops it. -/
  | offer
  /-- The runner closes the channel. -/
  | close
  /-- A worker receives a job. -/
  | take (w : Fin n)
  /-- A worker's operation returns. The number is the one that a one-pass operation has drawn. -/
  | finish (w : Fin n) (drawn : UInt64) (a : Answers)
  /-- A worker ends. -/
  | leave (w : Fin n)

section

variable {n : ℕ}

/-- A worker moves on. -/
def Runner.put (p : Runner n) (w : Fin n) (x : Worker) : Runner n :=
  { p with worker := Function.update p.worker w x }

/-- The sample of a worker's operation that returns now. -/
def Runner.sample (c : Config) (p : Runner n) (job : Job) (drawn : UInt64) (a : Answers) : Sample :=
  let op := if c.o.pattern = .onePass then drawn else UInt64.ofNat job.index
  { doOperation c.o c.value op a with latencyNS := p.now - job.due }

/-- A worker counts a sample. -/
def Runner.count (c : Config) (p : Runner n) (w : Fin n) (s : Sample) : Runner n :=
  if c.record then { p with part := Function.update p.part w ((p.part w).record s) }
  else { p with operations := p.operations + s.objects }

/-- A step, or `none` where it cannot be taken. -/
def step (c : Config) (p : Runner n) : Action n → Option (Runner n)
  | .pass now => if p.now ≤ now then some { p with now } else none
  | .offer =>
    let due := p.next * c.interval
    if p.closed = false ∧ due < c.duration ∧ due ≤ p.now then
      let lag := p.now - due
      let p := { p with
        schedulerLateNS := if c.record then p.schedulerLateNS + lag else p.schedulerLateNS }
      if p.jobs.length < c.capacity then
        some { p with next := p.next + 1, jobs := p.jobs ++ [⟨p.next, due⟩] }
      else some { p with next := p.next + 1, dropped := p.dropped + 1 }
    else none
  | .close =>
    if p.closed = false ∧ c.duration ≤ p.next * c.interval then some { p with closed := true }
    else none
  | .take w =>
    match p.worker w, p.jobs with
    | .idle, job :: jobs => some ({ p with jobs }.put w (.busy job p.now))
    | _, _ => none
  | .finish w drawn a =>
    match p.worker w with
    | .busy job _ => some ((p.count c w (p.sample c job drawn a)).put w .idle)
    | _ => none
  | .leave w =>
    if p.worker w = .idle ∧ p.jobs = [] ∧ p.closed = true then some (p.put w .gone) else none

/-- Steps one after another. -/
def run (c : Config) (p : Runner n) (actions : List (Action n)) : Option (Runner n) :=
  actions.foldlM (step c) p

/-- The runner returns: it has closed the channel, and all workers are done. -/
def Runner.Returned (p : Runner n) : Prop := p.closed = true ∧ ∀ w, p.worker w = .gone

/-- The phase that the runner returns. -/
def Runner.out (c : Config) (p : Runner n) : Phase :=
  if c.record then (List.ofFn p.part).foldl Phase.add {} else { operations := p.operations }

end

/-! ## What a sample says -/

/-- Every object is accounted for, and no error is counted that is not one of its objects. -/
structure Sample.Balanced (o : Options) (value : Bytes) (s : Sample) : Prop where
  /-- Every key of the operation is an object. -/
  objects : s.objects = o.n.toInt.toNat
  /-- There are no more errors than objects. -/
  errors_le : s.errors ≤ s.objects
  /-- No key is both found and fetched. -/
  found_le : s.hits + s.origins ≤ s.gets
  /-- A key that is looked up is found, or fetched, or is an error. -/
  gets_le : s.gets ≤ s.hits + s.origins + s.errors
  /-- The bytes are those of the found values. -/
  bytes : s.bytes = s.hits * value.length

/-- After some turns of the loop over the keys, each key so far is a hit, an origin request or an
error, and at most one of the errors. -/
theorem foldl_countObject (o : Options) (value : Bytes) (a : Answers) (found : ℕ → Option Bytes)
    (n m : ℕ) :
    let s := (List.range m).foldl (countObject o value a found) { objects := n, gets := n }
    s.objects = n ∧ s.gets = n ∧ s.errors ≤ m ∧ s.hits + s.origins ≤ m ∧
      m ≤ s.hits + s.origins + s.errors ∧ s.bytes = s.hits * value.length := by
  induction m with
  | zero => simp
  | succ m ih =>
    rw [List.range_succ, List.foldl_append, List.foldl_cons, List.foldl_nil]
    generalize (List.range m).foldl (countObject o value a found) { objects := n, gets := n } = s
      at ih ⊢
    obtain ⟨hobjects, hgets, herrors, hfound, hcover, hbytes⟩ := ih
    unfold countObject
    cases found m with
    | some v =>
      dsimp only
      split_ifs
      · refine ⟨hobjects, hgets, by dsimp; omega, by dsimp; omega, by dsimp; omega, ?_⟩
        dsimp
        rw [hbytes, Nat.succ_mul]
      · exact ⟨hobjects, hgets, by dsimp; omega, by dsimp; omega, by dsimp; omega, hbytes⟩
    | none =>
      dsimp only
      split_ifs
      · exact ⟨hobjects, hgets, by dsimp; omega, by dsimp; omega, by dsimp; omega, hbytes⟩
      · exact ⟨hobjects, hgets, by dsimp; omega, by dsimp; omega, by dsimp; omega, hbytes⟩
      · exact ⟨hobjects, hgets, by dsimp; omega, by dsimp; omega, by dsimp; omega, hbytes⟩

/-- Whatever the backend answers, the sample of an operation is balanced. -/
theorem doOperation_balanced (o : Options) (value : Bytes) (op : UInt64) (a : Answers) :
    (doOperation o value op a).Balanced o value := by
  unfold doOperation
  dsimp only
  by_cases hset : o.operation = .batchSet
  · rw [if_pos hset]
    refine ⟨rfl, ?_, by simp, by simp, by simp⟩
    dsimp only
    split_ifs
    · exact Nat.zero_le _
    · exact le_refl _
  rw [if_neg hset]
  split_ifs with hwrite
  · exact ⟨rfl, by simp, by simp, by simp, by simp⟩
  · -- a unary operation has one object
    have hn : o.n = 1 := by simp [Options.n, hwrite.1]
    exact ⟨rfl, by simp [hn], by simp, by simp, by simp⟩
  · cases a.read with
    | none => exact ⟨rfl, le_refl _, by simp, by simp, by simp⟩
    | some found =>
      obtain ⟨hobjects, hgets, herrors, hfound, hcover, hbytes⟩ :=
        foldl_countObject o value a found o.n.toInt.toNat o.n.toInt.toNat
      exact ⟨hobjects, by dsimp; omega, by dsimp; omega, by dsimp; omega, hbytes⟩

/-! ## What a phase adds up -/

/-- The phase of some samples. -/
def Phase.ofSamples (ss : List Sample) : Phase where
  latencies := ss.map Sample.latencyNS
  operations := (ss.map Sample.objects).sum
  batches := ss.length
  gets := (ss.map Sample.gets).sum
  hits := (ss.map Sample.hits).sum
  origins := (ss.map Sample.origins).sum
  errors := (ss.map Sample.errors).sum
  payloadBytes := (ss.map Sample.bytes).sum

/-- Recording a sample adds it to those that a phase sums up. -/
theorem Phase.ofSamples_record (ss : List Sample) (s : Sample) :
    (Phase.ofSamples ss).record s = Phase.ofSamples (ss ++ [s]) := by
  simp [Phase.ofSamples, Phase.record]

/-- Adding two phases sums up the samples of both. -/
theorem Phase.ofSamples_add (ss ss' : List Sample) :
    (Phase.ofSamples ss).add (Phase.ofSamples ss') = Phase.ofSamples (ss ++ ss') := by
  simp [Phase.ofSamples, Phase.add]

/-- The parts of the workers, added up, are the phase of all their samples. -/
theorem foldl_add_ofSamples (parts : List (List Sample)) (ss : List Sample) :
    (parts.map Phase.ofSamples).foldl Phase.add (.ofSamples ss) =
      .ofSamples (ss ++ parts.flatten) := by
  induction parts generalizing ss with
  | nil => simp
  | cons part parts ih =>
    rw [List.map_cons, List.foldl_cons, Phase.ofSamples_add, ih, List.flatten_cons,
      List.append_assoc]

/-- What the numbers of a phase say of each other. -/
structure Phase.Balanced (o : Options) (value : Bytes) (p : Phase) : Prop where
  /-- Every operation has its latency. -/
  latencies : p.latencies.length = p.batches
  /-- Every operation has as many objects as a batch has keys. -/
  operations : p.operations = p.batches * o.n.toInt.toNat
  /-- There are no more errors than objects. -/
  errors_le : p.errors ≤ p.operations
  /-- No key is both found and fetched. -/
  found_le : p.hits + p.origins ≤ p.gets
  /-- A key that is looked up is found, or fetched, or is an error. -/
  gets_le : p.gets ≤ p.hits + p.origins + p.errors
  /-- The bytes are those of the found values. -/
  payloadBytes : p.payloadBytes = p.hits * value.length

/-- A phase that sums up balanced samples is balanced. -/
theorem Phase.ofSamples_balanced {o : Options} {value : Bytes} {ss : List Sample}
    (h : ∀ s ∈ ss, s.Balanced o value) : (Phase.ofSamples ss).Balanced o value := by
  induction ss with
  | nil =>
    exact ⟨rfl, by simp [Phase.ofSamples], le_refl _, le_refl _, le_refl _,
      by simp [Phase.ofSamples]⟩
  | cons s ss ih =>
    obtain ⟨hlatencies, hoperations, herrors, hfound, hgets, hbytes⟩ :=
      ih fun s' hs' => h s' (List.mem_cons_of_mem _ hs')
    obtain ⟨hsobjects, hserrors, hsfound, hsgets, hsbytes⟩ := h s List.mem_cons_self
    simp only [Phase.ofSamples] at hlatencies hoperations herrors hfound hgets hbytes
    constructor <;> simp only [Phase.ofSamples, List.map_cons, List.sum_cons, List.length_cons]
    · rw [← hlatencies]
    · rw [hoperations, hsobjects, Nat.succ_mul, Nat.add_comm]
    · omega
    · omega
    · omega
    · rw [hbytes, hsbytes, Nat.add_mul]

/-! ## What a run keeps -/

/-- A job that was handled: when a worker received it, and when its operation returned. -/
structure Handling where
  /-- The job. -/
  job : Job
  /-- When a worker received it. -/
  taken : ℕ
  /-- When its operation returned. -/
  finished : ℕ
  /-- What the worker counted of it. -/
  sample : Sample

/-- The sample is that of the job, and its latency is measured from when the job was due. -/
structure Handling.Sound (c : Config) (h : Handling) : Prop where
  /-- The operation returned after it had begun. -/
  taken_le : h.taken ≤ h.finished
  /-- The sample is balanced. -/
  balanced : h.sample.Balanced c.o c.value
  /-- The latency includes the wait in the channel. -/
  latency : h.sample.latencyNS = h.finished - h.job.due

section

variable {n : ℕ}

/-- The job that a worker has, and since when. -/
def Worker.job? : Worker → Option (Job × ℕ)
  | .busy job elapsed => some (job, elapsed)
  | _ => none

/-- The state of the runner is that of a queue with its workers, and what it has counted is what the
workers have done. -/
structure Tracks (c : Config) (p : Runner n) (pool : WorkQueue.Pool (Fin n) Job ℕ)
    (handled : List Handling) (samples : Fin n → List Sample) : Prop where
  /-- The queue loses nothing, and makes nothing up. -/
  accounted : pool.Accounted p.now
  /-- What waits is what is in the channel. -/
  waiting : pool.waiting = p.jobs
  /-- The workers are at work on the same jobs. -/
  busy : ∀ w, pool.busy w = (p.worker w).job?
  /-- The arrivals are the first ones of the schedule. -/
  arrived : pool.arrived = (List.range p.next).map c.job
  /-- The dropped ones are counted. -/
  dropped : pool.dropped.length = p.dropped
  /-- What is finished has been handled, in this order. -/
  finished : pool.finished = handled.map fun h => (h.job, h.taken)
  /-- No job arrives before it is due. -/
  due : ∀ job ∈ pool.arrived, job.due ≤ p.now
  /-- No job is received before it is due. -/
  due_taken : ∀ x ∈ pool.taken, x.1.due ≤ x.2
  /-- What has been handled is right. -/
  sound : ∀ h ∈ handled, h.Sound c
  /-- In a measured phase, each worker has added up its own samples. -/
  part : c.record = true → ∀ w, p.part w = .ofSamples (samples w)
  /-- The workers' samples are those of what has been handled. -/
  samples : WorkQueue.gathered samples = (handled.map Handling.sample : Multiset Sample)
  /-- In a warm-up, only the objects are counted. -/
  operations : c.record = false → p.operations = (handled.map fun h => h.sample.objects).sum
  /-- Arrivals are offered only while the phase lasts. -/
  offered : ∀ i < p.next, i * c.interval < c.duration
  /-- The channel is closed only after the phase. -/
  closed : p.closed = true → c.duration ≤ p.next * c.interval
  /-- Workers leave only when nothing is left for them. -/
  gone : ∀ w, p.worker w = .gone → p.closed = true ∧ p.jobs = []

/-- A runner that begins is a queue that is empty. -/
theorem tracks_init (c : Config) : Tracks c ({} : Runner n) {} [] (fun _ => []) where
  accounted := .init 0
  waiting := rfl
  busy _ := rfl
  arrived := rfl
  dropped := rfl
  finished := rfl
  due := by simp
  due_taken := by simp
  sound := by simp
  part _ _ := rfl
  samples := by simp [WorkQueue.gathered]
  operations _ := rfl
  offered := by simp
  closed := by simp
  gone := by simp

variable {c : Config} {p q : Runner n} {pool : WorkQueue.Pool (Fin n) Job ℕ}
  {handled : List Handling} {samples : Fin n → List Sample}

/-- Time passes for the queue as for the runner. -/
theorem Tracks.pass (h : Tracks c p pool handled samples) {now : ℕ} (hle : p.now ≤ now) :
    Tracks c { p with now } pool handled samples :=
  { h with
    accounted := h.accounted.later hle
    due := fun job hjob => (h.due job hjob).trans hle }

/-- An arrival is put into the queue, or is dropped by it. -/
theorem Tracks.offer (h : Tracks c p pool handled samples)
    (hq : step c p .offer = some q) :
    ∃ pool', Tracks c q pool' handled samples := by
  simp only [step, Option.ite_none_right_eq_some] at hq
  obtain ⟨⟨hopen, hdue, hnow⟩, hq⟩ := hq
  have harrived : pool.arrived ++ [⟨p.next, p.next * c.interval⟩] =
      (List.range (p.next + 1)).map c.job := by
    rw [h.arrived, List.range_succ, List.map_append]
    rfl
  have hdues : ∀ job ∈ pool.arrived ++ [⟨p.next, p.next * c.interval⟩], job.due ≤ p.now := by
    intro job hjob
    obtain hjob | hjob := List.mem_append.mp hjob
    · exact h.due job hjob
    · obtain rfl := List.mem_singleton.mp hjob
      exact hnow
  have hoffered : ∀ i < p.next + 1, i * c.interval < c.duration := by
    intro i hi
    obtain hi | rfl := Nat.lt_succ_iff_lt_or_eq.mp hi
    · exact h.offered i hi
    · exact hdue
  have hgone : ∀ w, p.worker w ≠ .gone := by
    intro w hw
    rw [(h.gone w hw).1] at hopen
    cases hopen
  by_cases hroom : p.jobs.length < c.capacity
  · -- There is room in the channel, and the arrival waits there.
    rw [if_pos hroom] at hq
    obtain rfl := Option.some.inj hq
    refine ⟨pool.accept ⟨p.next, p.next * c.interval⟩, { h with
      accounted := h.accounted.accept _
      waiting := ?_
      arrived := harrived
      due := hdues
      offered := hoffered
      closed := ?_
      gone := ?_ }⟩
    · simp [WorkQueue.Pool.accept, h.waiting]
    · simp [hopen]
    · exact fun w hw => absurd hw (hgone w)
  · -- There is none, and it is only counted.
    rw [if_neg hroom] at hq
    obtain rfl := Option.some.inj hq
    refine ⟨pool.drop ⟨p.next, p.next * c.interval⟩, { h with
      accounted := h.accounted.drop _
      arrived := harrived
      dropped := ?_
      due := hdues
      offered := hoffered
      closed := ?_
      gone := ?_ }⟩
    · simp [WorkQueue.Pool.drop, h.dropped]
    · simp [hopen]
    · exact fun w hw => absurd hw (hgone w)

/-- The channel is closed only after the last arrival. -/
theorem Tracks.close (h : Tracks c p pool handled samples)
    (hduration : c.duration ≤ p.next * c.interval) :
    Tracks c { p with closed := true } pool handled samples :=
  { h with
    closed := fun _ => hduration
    gone := fun w hw => ⟨rfl, (h.gone w hw).2⟩ }

/-- The jobs of the workers when one of them moves on. -/
theorem job?_put (p : Runner n) (w : Fin n) (x : Worker) :
    (fun w' => ((p.put w x).worker w').job?) =
      Function.update (fun w' => (p.worker w').job?) w x.job? :=
  funext fun w' => Function.apply_update (fun _ => Worker.job?) p.worker w x w'

/-- A worker that is moved to another place is not gone. -/
theorem gone_put {w w' : Fin n} {x : Worker} (hx : x ≠ .gone)
    (h : (p.put w x).worker w' = .gone) : p.worker w' = .gone := by
  by_cases hw : w' = w
  · subst hw
    simp [Runner.put, hx] at h
  · simpa [Runner.put, hw] using h

/-- A worker receives the job at the front of the queue. -/
theorem Tracks.take (h : Tracks c p pool handled samples) {w : Fin n} (hidle : p.worker w = .idle)
    {job : Job} {jobs : List Job} (hjobs : p.jobs = job :: jobs) :
    Tracks c ({ p with jobs }.put w (.busy job p.now)) (pool.take w p.now job jobs) handled
      samples := by
  have hwaiting : pool.waiting = job :: jobs := h.waiting.trans hjobs
  have hbusy : pool.busy w = none := by
    rw [h.busy, hidle]
    rfl
  have harrived : job ∈ pool.arrived :=
    h.accounted.inOrder.subset (List.mem_append_right _ (hwaiting ▸ List.mem_cons_self))
  refine { h with
    accounted := h.accounted.take hbusy hwaiting
    waiting := rfl
    busy := ?_
    due_taken := ?_
    gone := ?_ }
  · -- The worker now holds the job, on both sides.
    intro w'
    have hput := congrFun (job?_put { p with jobs } w (.busy job p.now)) w'
    dsimp only at hput
    rw [hput]
    show Function.update pool.busy w (some (job, p.now)) w' = _
    rw [show pool.busy = fun w' => (p.worker w').job? from funext h.busy]
    rfl
  · -- It was due, as all that has arrived is.
    intro x hx
    obtain hx | hx := List.mem_append.mp hx
    · exact h.due_taken x hx
    · obtain rfl := List.mem_singleton.mp hx
      exact h.due job harrived
  · intro w' hw'
    -- no worker is gone while there are jobs
    have hgone := (h.gone w' (gone_put (by simp) hw')).2
    rw [hjobs] at hgone
    cases hgone

/-- What a worker counts of a job is balanced. -/
theorem sample_balanced (c : Config) (p : Runner n) (job : Job) (drawn : UInt64) (a : Answers) :
    (p.sample c job drawn a).Balanced c.o c.value := by
  obtain ⟨hobjects, herrors, hfound, hgets, hbytes⟩ := doOperation_balanced c.o c.value
    (if c.o.pattern = .onePass then drawn else UInt64.ofNat job.index) a
  exact ⟨hobjects, herrors, hfound, hgets, hbytes⟩

/-- The count of a sample is all that changes. -/
theorem count_eq (c : Config) (p : Runner n) (w : Fin n) (s : Sample) :
    p.count c w s = { p with
      part := if c.record then Function.update p.part w ((p.part w).record s) else p.part
      operations := if c.record then p.operations else p.operations + s.objects } := by
  unfold Runner.count
  split_ifs <;> rfl

/-- The operation of a job returns, and is counted. -/
theorem Tracks.finish (h : Tracks c p pool handled samples) {w : Fin n} {job : Job} {elapsed : ℕ}
    (hworker : p.worker w = .busy job elapsed) {s : Sample} (hbalanced : s.Balanced c.o c.value)
    (hlatency : s.latencyNS = p.now - job.due) :
    Tracks c ((p.count c w s).put w .idle) (pool.finish w (job, elapsed))
      (handled ++ [⟨job, elapsed, p.now, s⟩]) (Function.update samples w (samples w ++ [s])) := by
  have hheld : pool.busy w = some (job, elapsed) := by
    rw [h.busy, hworker]
    rfl
  have hsound : Handling.Sound c ⟨job, elapsed, p.now, s⟩ :=
    ⟨h.accounted.past _ (h.accounted.mem_taken hheld), hbalanced, hlatency⟩
  rw [count_eq]
  refine { h with
    accounted := h.accounted.finish hheld
    busy := ?_
    finished := ?_
    sound := ?_
    part := ?_
    samples := ?_
    operations := ?_
    gone := ?_ }
  · intro w'
    have hput := congrFun (job?_put p w .idle) w'
    simp only [Runner.put] at hput ⊢
    rw [hput, ← show pool.busy = fun w' => (p.worker w').job? from funext h.busy]
    rfl
  · simp [WorkQueue.Pool.finish, h.finished]
  · intro x hx
    obtain hx | hx := List.mem_append.mp hx
    · exact h.sound x hx
    · obtain rfl := List.mem_singleton.mp hx
      exact hsound
  · -- A measured sample goes to the part of its worker, and to no other.
    intro hrecord w'
    simp only [Runner.put, hrecord, if_true]
    by_cases hw : w' = w
    · subst hw
      rw [Function.update_self, Function.update_self, h.part hrecord, Phase.ofSamples_record]
    · rw [Function.update_of_ne hw, Function.update_of_ne hw, h.part hrecord]
  · rw [WorkQueue.gathered_concat, h.samples, List.map_append, ← Multiset.coe_add]
    rfl
  · -- A sample of a warm-up only adds its objects to the common count.
    intro hrecord
    simp [Runner.put, hrecord, h.operations hrecord]
  · intro w' hw'
    exact h.gone w' (gone_put (by simp) hw')

/-- A worker leaves when the queue is empty and the channel closed. -/
theorem Tracks.leave (h : Tracks c p pool handled samples) {w : Fin n} (hidle : p.worker w = .idle)
    (hjobs : p.jobs = []) (hclosed : p.closed = true) :
    Tracks c (p.put w .gone) pool handled samples := by
  refine { h with busy := ?_, gone := fun _ _ => ⟨hclosed, hjobs⟩ }
  intro w'
  rw [congrFun (job?_put p w .gone) w', h.busy]
  by_cases hw : w' = w
  · subst hw
    rw [Function.update_self, hidle]
    rfl
  · rw [Function.update_of_ne hw]

/-- Every step keeps the runner tracked. -/
theorem Tracks.step (h : Tracks c p pool handled samples) {a : Action n}
    (hq : step c p a = some q) : ∃ pool' handled' samples', Tracks c q pool' handled' samples' := by
  cases a with
  | pass now =>
    simp only [Offered.step, Option.ite_none_right_eq_some, Option.some.injEq] at hq
    obtain ⟨hle, rfl⟩ := hq
    exact ⟨_, _, _, h.pass hle⟩
  | offer =>
    obtain ⟨pool', h'⟩ := h.offer hq
    exact ⟨pool', _, _, h'⟩
  | close =>
    simp only [Offered.step, Option.ite_none_right_eq_some, Option.some.injEq] at hq
    obtain ⟨⟨-, hduration⟩, rfl⟩ := hq
    exact ⟨_, _, _, h.close hduration⟩
  | take w =>
    simp only [Offered.step] at hq
    split at hq
    · next job jobs hidle hjobs =>
      obtain rfl := Option.some.inj hq
      exact ⟨_, _, _, h.take hidle hjobs⟩
    · cases hq
  | finish w drawn a =>
    simp only [Offered.step] at hq
    split at hq
    · next job elapsed hworker =>
      obtain rfl := Option.some.inj hq
      exact ⟨_, _, _, h.finish hworker (sample_balanced c p job drawn a) rfl⟩
    · cases hq
  | leave w =>
    simp only [Offered.step, Option.ite_none_right_eq_some, Option.some.injEq] at hq
    obtain ⟨⟨hidle, hjobs, hclosed⟩, rfl⟩ := hq
    exact ⟨_, _, _, h.leave hidle hjobs hclosed⟩

/-- Every run keeps the runner tracked. -/
theorem Tracks.run (h : Tracks c p pool handled samples) {actions : List (Action n)}
    (hq : run c p actions = some q) :
    ∃ pool' handled' samples', Tracks c q pool' handled' samples' := by
  have hstep : ∀ (s : Runner n) (a : Action n) (t : Runner n),
      (∃ pool' handled' samples', Tracks c s pool' handled' samples') → True →
      Offered.step c s a = some t →
      ∃ pool' handled' samples', Tracks c t pool' handled' samples' := by
    rintro s a t ⟨pool', handled', samples', h'⟩ - ht
    exact h'.step ht
  exact (Runs.foldlM_invariant hstep ⟨pool, handled, samples, h⟩ (fun _ _ => trivial) hq :)

/-! ## The runner returns -/

/-- The steps that a worker still has to take, without those for jobs that wait. -/
def Worker.weight : Worker → ℕ
  | .idle => 1
  | .busy .. => 3
  | .gone => 0

/-- An idle worker has to leave yet. -/
@[simp]
theorem weight_idle : Worker.idle.weight = 1 := rfl

/-- A busy worker has to finish and to leave yet. -/
@[simp]
theorem weight_busy (job : Job) (elapsed : ℕ) : (Worker.busy job elapsed).weight = 3 := rfl

/-- A worker that has left has nothing to do any more. -/
@[simp]
theorem weight_gone : Worker.gone.weight = 0 := rfl

/-- What is left to do: for each arrival to come, for the channel, for each job in it, and for each
worker. -/
def Runner.weight (c : Config) (p : Runner n) : ℕ :=
  4 * ((c.duration + c.interval - 1) / c.interval - p.next) + (!p.closed).toNat +
    3 * p.jobs.length + ∑ w, (p.worker w).weight

/-- The weights of the workers when one of them moves on. -/
theorem sum_weight_put (p : Runner n) (w : Fin n) (x : Worker) :
    ∑ w', ((p.put w x).worker w').weight + (p.worker w).weight =
      ∑ w', (p.worker w').weight + x.weight := by
  have hput : (fun w' => ((p.put w x).worker w').weight) =
      Function.update (fun w' => (p.worker w').weight) w x.weight :=
    funext fun w' => Function.apply_update (fun _ => Worker.weight) p.worker w x w'
  rw [hput, WorkQueue.sum_update_add]

/-- Every step but the passing of time leaves less to do. -/
theorem weight_step (hinterval : 0 < c.interval) {a : Action n} (ha : ∀ t, a ≠ .pass t)
    (hq : step c p a = some q) : q.weight c < p.weight c := by
  cases a with
  | pass t => exact absurd rfl (ha t)
  | offer =>
    simp only [step, Option.ite_none_right_eq_some] at hq
    obtain ⟨⟨-, hdue, -⟩, hq⟩ := hq
    -- One arrival less is to come, and a job weighs less than an arrival.
    have hleft : p.next < (c.duration + c.interval - 1) / c.interval := by
      rw [Nat.lt_iff_add_one_le, Nat.le_div_iff_mul_le hinterval, Nat.succ_mul]
      omega
    by_cases hroom : p.jobs.length < c.capacity
    · rw [if_pos hroom] at hq
      obtain rfl := Option.some.inj hq
      simp only [Runner.weight, List.length_append, List.length_singleton]
      omega
    · rw [if_neg hroom] at hq
      obtain rfl := Option.some.inj hq
      simp only [Runner.weight]
      omega
  | close =>
    simp only [step, Option.ite_none_right_eq_some, Option.some.injEq] at hq
    obtain ⟨⟨hopen, -⟩, rfl⟩ := hq
    simp [Runner.weight, hopen]
  | take w =>
    simp only [step] at hq
    split at hq
    · next job jobs hidle hjobs =>
      -- The job weighs three in the channel, and raises its worker's weight by two.
      obtain rfl := Option.some.inj hq
      have hsum := sum_weight_put { p with jobs } w (.busy job p.now)
      simp only [hidle, weight_idle, weight_busy] at hsum
      simp only [Runner.weight, hjobs, List.length_cons, Runner.put] at hsum ⊢
      omega
    · cases hq
  | finish w drawn a =>
    simp only [step] at hq
    split at hq
    · next job elapsed hworker =>
      obtain rfl := Option.some.inj hq
      have hsum := sum_weight_put p w .idle
      simp only [hworker, weight_idle, weight_busy] at hsum
      rw [count_eq]
      simp only [Runner.weight, Runner.put] at hsum ⊢
      omega
    · cases hq
  | leave w =>
    simp only [step, Option.ite_none_right_eq_some, Option.some.injEq] at hq
    obtain ⟨⟨hidle, -, -⟩, rfl⟩ := hq
    have hsum := sum_weight_put p w .gone
    simp only [hidle, weight_idle, weight_gone] at hsum
    simp only [Runner.weight, Runner.put] at hsum ⊢
    omega

/-- Unless the runner has returned, some goroutine can take a step sooner or later. -/
theorem exists_step (c : Config) (hp : ¬p.Returned) :
    ∃ (t : ℕ) (a : Action n) (q : Runner n), p.now ≤ t ∧ (∀ t, a ≠ .pass t) ∧
      step c { p with now := t } a = some q := by
  by_cases hclosed : p.closed = true
  · -- The channel is closed: a worker that is not gone finishes, takes a job, or leaves.
    obtain ⟨w, hw⟩ : ∃ w, p.worker w ≠ .gone := by
      by_contra hnone
      exact hp ⟨hclosed, by simpa using hnone⟩
    refine ⟨p.now, ?_⟩
    cases hworker : p.worker w with
    | gone => exact absurd hworker hw
    | busy job elapsed =>
      refine ⟨.finish w 0 {}, ?_⟩
      simp only [step, hworker]
      exact ⟨_, le_refl _, by simp, rfl⟩
    | idle =>
      by_cases hjobs : p.jobs = []
      · exact ⟨.leave w, _, le_refl _, by simp, if_pos ⟨hworker, hjobs, hclosed⟩⟩
      · obtain ⟨job, jobs, hjobs⟩ := List.exists_cons_of_ne_nil hjobs
        refine ⟨.take w, ?_⟩
        simp only [step, hworker, hjobs]
        exact ⟨_, le_refl _, by simp, rfl⟩
  · -- It is open: the runner offers the next arrival once it is due, or closes the channel.
    have hopen : p.closed = false := by simpa using hclosed
    by_cases hdue : p.next * c.interval < c.duration
    · refine ⟨max p.now (p.next * c.interval), .offer, ?_⟩
      simp only [step, hopen, hdue, true_and, le_max_right, if_true]
      split_ifs
      all_goals exact ⟨_, le_max_left _ _, by simp, rfl⟩
    · exact ⟨p.now, .close, _, le_refl _, by simp, if_pos ⟨hopen, Nat.not_lt.mp hdue⟩⟩

/-- From every state there are steps with which the runner returns. -/
theorem exists_returned (hinterval : 0 < c.interval) (p : Runner n) :
    ∃ (actions : List (Action n)) (q : Runner n),
      Offered.run c p actions = some q ∧ q.Returned := by
  have hprogress : ∀ s : Runner n, True → ¬s.Returned → ∃ (more : List (Action n)) (t : Runner n),
      (∀ a ∈ more, True) ∧ more.foldlM (step c) s = some t ∧ True ∧ t.weight c < s.weight c := by
    intro s _ hs
    -- the clock is moved to where the step can be taken, which leaves the weight alone
    obtain ⟨t, a, q, ht, ha, hq⟩ := exists_step c hs
    have hpass : step c s (.pass t) = some { s with now := t } := if_pos ht
    have hless : q.weight c < s.weight c := weight_step (p := { s with now := t }) hinterval ha hq
    have hrun : [.pass t, a].foldlM (step c) s = some q :=
      Runs.foldlM_cons_eq_some.mpr ⟨_, hpass, Runs.foldlM_cons_eq_some.mpr ⟨q, hq, rfl⟩⟩
    exact ⟨[.pass t, a], q, fun _ _ => trivial, hrun, trivial, hless⟩
  obtain ⟨actions, q, -, hrun, -, hreturned⟩ := Runs.exists_foldlM hprogress trivial
  exact ⟨actions, q, hrun, hreturned⟩

/-! ## The report -/

/-- The arrivals of a phase: as many as there are intervals in its duration, the last one possibly
cut short. -/
def Config.arrivals (c : Config) : List Job :=
  (List.range ((c.duration + c.interval - 1) / c.interval)).map c.job

/-- The runner has gone through all arrivals when it closes the channel. -/
theorem Tracks.next_eq (h : Tracks c p pool handled samples) (hclosed : p.closed = true) :
    p.next = (c.duration + c.interval - 1) / c.interval := by
  have hle := h.closed hclosed
  obtain hzero | hpos := Nat.eq_zero_or_pos c.interval
  · -- without an interval the phase has no duration
    rw [hzero, Nat.mul_zero] at hle
    have hnext : p.next = 0 := by
      by_contra hne
      have hlt := h.offered 0 (Nat.pos_of_ne_zero hne)
      omega
    rw [hnext, hzero, Nat.div_zero]
  · symm
    apply Nat.div_eq_of_lt_le
    · obtain hnext | hnext := Nat.eq_zero_or_pos p.next
      · simp [hnext]
      · have hlast := h.offered (p.next - 1) (Nat.sub_lt hnext Nat.one_pos)
        have hmul : p.next * c.interval = (p.next - 1) * c.interval + c.interval := by
          rw [← Nat.succ_mul, Nat.succ_eq_add_one, Nat.sub_add_cancel hnext]
        omega
    · rw [Nat.succ_mul]
      omega

/-- Workers received the jobs in the order of their arrival. -/
theorem Tracks.inOrder (h : Tracks c p pool handled samples) {x y : Job × ℕ} (hx : x ∈ pool.taken)
    (hy : y ∈ pool.taken) (hlt : x.1.index < y.1.index) : x.2 ≤ y.2 := by
  have hindex : (pool.taken.map Prod.fst).Pairwise fun j j' => j.index < j'.index := by
    have harrived : pool.arrived.Pairwise fun j j' => j.index < j'.index := by
      rw [h.arrived]
      exact List.pairwise_map.mpr List.pairwise_lt_range
    exact harrived.sublist ((List.sublist_append_left _ _).trans h.accounted.inOrder)
  have hbefore := List.pairwise_map.mp hindex
  have hsorted := List.pairwise_map.mp h.accounted.sorted
  refine List.Pairwise.forall_of_forall_of_flip
    (R := fun x y : Job × ℕ => x.1.index < y.1.index → x.2 ≤ y.2) ?_ ?_ ?_ hx hy hlt
  · intro x _ hirrefl
    exact absurd hirrefl (lt_irrefl _)
  · refine hsorted.imp ?_
    exact fun hle _ => hle
  · refine hbefore.imp ?_
    exact fun hlt hgt => absurd hgt (lt_asymm hlt)

/-- The phase that is recorded is that of the handled jobs' samples, in some order. -/
theorem Tracks.out_eq (h : Tracks c p pool handled samples) (hrecord : c.record = true) :
    ∃ ss : List Sample, ss.Perm (handled.map Handling.sample) ∧ p.out c = .ofSamples ss := by
  refine ⟨(List.ofFn samples).flatten, ?_, ?_⟩
  · rw [← Multiset.coe_eq_coe, ← WorkQueue.gathered_fin, h.samples]
  · have hparts : List.ofFn p.part = (List.ofFn samples).map Phase.ofSamples := by
      rw [List.map_ofFn]
      congr 1
      funext w
      exact h.part hrecord w
    rw [Runner.out, if_pos hrecord, hparts]
    exact foldl_add_ofSamples _ []

/-- However the steps of the runner and of its workers are interleaved, and whatever the backend
answers: `runOffered` can still return, when arrivals are apart at all. When it does, every arrival
of the phase has been dropped or handled, and this once. Their number does not depend on how late
the runner was. The workers received the arrivals in their order, and each latency is the time from
when the arrival was due to when its operation returned. The numbers of the report agree with this
and with each other. -/
theorem offered_accounts (c : Config) (hn : 0 < n) {actions : List (Action n)} {p : Runner n}
    (hrun : Offered.run c {} actions = some p) :
    (0 < c.interval → ∃ rest q, Offered.run c p rest = some q ∧ q.Returned) ∧
    (p.Returned → ∃ (dropped : List Job) (handled : List Handling),
      (dropped ++ handled.map Handling.job).Perm c.arrivals ∧ dropped.length = p.dropped ∧
      (∀ h ∈ handled, h.job.due ≤ h.taken ∧ h.taken ≤ h.finished ∧
        h.sample.latencyNS = h.finished - h.job.due) ∧
      (∀ h ∈ handled, ∀ h' ∈ handled, h.job.index < h'.job.index → h.taken ≤ h'.taken) ∧
      (c.record = true → (p.out c).Balanced c.o c.value ∧ (p.out c).batches = handled.length ∧
        (p.out c).latencies.Perm (handled.map fun h => h.sample.latencyNS)) ∧
      (c.record = false → (p.out c).operations = handled.length * c.o.n.toInt.toNat)) := by
  refine ⟨fun hinterval => exists_returned hinterval p, fun hreturned => ?_⟩
  obtain ⟨pool, handled, samples, h⟩ := (tracks_init c).run hrun
  obtain ⟨hclosed, hgone⟩ := hreturned
  have hwaiting : pool.waiting = [] := h.waiting.trans (h.gone ⟨0, hn⟩ (hgone _)).2
  have hidle : ∀ w, pool.busy w = none := by
    intro w
    rw [h.busy, hgone]
    rfl
  obtain ⟨htaken, hfate⟩ := h.accounted.complete hwaiting hidle
  have hmem : ∀ x ∈ handled, (x.job, x.taken) ∈ pool.taken := by
    intro x hx
    rw [htaken.mem_iff, h.finished]
    exact List.mem_map.mpr ⟨x, hx, rfl⟩
  have hobjects : ∀ x ∈ handled, x.sample.objects = c.o.n.toInt.toNat := fun x hx =>
    (h.sound x hx).balanced.objects
  refine ⟨pool.dropped, handled, ?_, h.dropped, ?_, ?_, ?_, ?_⟩
  · rw [Config.arrivals, ← h.next_eq hclosed, ← h.arrived]
    rw [h.finished, List.map_map] at hfate
    exact hfate.symm
  · intro x hx
    exact ⟨h.due_taken _ (hmem x hx), (h.sound x hx).taken_le, (h.sound x hx).latency⟩
  · exact fun x hx y hy hlt => h.inOrder (hmem x hx) (hmem y hy) hlt
  · intro hrecord
    obtain ⟨ss, hperm, hout⟩ := h.out_eq hrecord
    rw [hout]
    refine ⟨Phase.ofSamples_balanced ?_, ?_, ?_⟩
    · intro s hs
      obtain ⟨x, hx, rfl⟩ := List.mem_map.mp (hperm.mem_iff.mp hs)
      exact (h.sound x hx).balanced
    · simpa [Phase.ofSamples] using hperm.length_eq
    · have := hperm.map Sample.latencyNS
      rwa [List.map_map] at this
  · intro hrecord
    rw [Runner.out, if_neg (by simp [hrecord])]
    show p.operations = _
    rw [h.operations hrecord, List.map_congr_left hobjects]
    simp

end

/-- Two arrivals a second for a second, and one worker that is slow with the first: the second waits
for half a second, and that is part of its latency. -/
def slowFirst : List (Action 1) :=
  [.offer, .take 0, .pass 500000000, .offer, .pass 1000000000,
    .finish 0 0 { read := some fun _ => some [7] }, .take 0, .close, .pass 1100000000,
    .finish 0 0 { read := some fun _ => none }, .leave 0]

/-- A read-only phase of unary operations. -/
def twoPerSecond : Config where
  o := { runID := [], pattern := .uniform, workload := .readOnly, operation := .unary,
         model := .offered, objects := 10, concurrency := 1, batchSize := 16, warmupSeconds := 0,
         measureSeconds := 1, offeredRate := 2 }
  value := [7]
  duration := 1000000000
  record := true

/-- The report of that run. -/
theorem offered_accounts_slowFirst :
    ∃ p : Runner 1, run twoPerSecond {} slowFirst = some p ∧ p.Returned ∧
      p.out twoPerSecond = ⟨[1000000000, 600000000], 2, 2, 2, 1, 0, 1, 1⟩ ∧
      (p.out twoPerSecond).Balanced twoPerSecond.o twoPerSecond.value := by
  have hend : (run twoPerSecond {} slowFirst).map
      (fun p => (p.closed, p.worker 0, p.out twoPerSecond)) =
      some (true, .gone, ⟨[1000000000, 600000000], 2, 2, 2, 1, 0, 1, 1⟩) := by decide +kernel
  obtain ⟨p, hrun, hp⟩ := Option.map_eq_some_iff.mp hend
  obtain ⟨hclosed, hp⟩ := Prod.mk.inj hp
  obtain ⟨hgone, hout⟩ := Prod.mk.inj hp
  have hreturned : p.Returned := by
    refine ⟨hclosed, fun w => ?_⟩
    rw [Fin.fin_one_eq_zero w, hgone]
  obtain ⟨dropped, handled, -, -, -, -, hbalanced, -⟩ :=
    (offered_accounts twoPerSecond (by decide) hrun).2 hreturned
  exact ⟨p, hrun, hreturned, hout, (hbalanced rfl).1⟩

end CacheServer.Bench.Offered
