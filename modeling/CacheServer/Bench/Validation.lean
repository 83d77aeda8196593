import CacheServer.Bench.Campaign
import CacheServer.Bench.Load
import Mathlib.Data.List.ProdSigma
import Mathlib.Data.Rat.Defs

/-!
# The validation of a group

`run_strong.py` measures the runs of a group in an order that it shuffles, and leaves a directory of
files for each. A run may fail anywhere, and what it leaves then depends on how far it got. When the
group is done, `validate_group` of `release_campaign.py` goes through the runs that the definition
asks for, in an order of its own, and judges the group by the files that it finds.

The two programs share nothing but the files. `group_verdict` says for which runs of the first the
second finds the group valid, and for which it finds it qualified.

What Docker and the client do to a run is an input, an `Attempt`. So is the product
`seconds * .99`, a double. The text of a file is as `read_text` gives it, with `\n` at the end of
every line.
-/

namespace CacheServer.Bench.Validation

/-- A run: a case, the number of the repetition, and an engine. -/
structure Run where
  /-- The name of the case. -/
  case : String
  /-- The number of the repetition. -/
  rep : ℕ
  /-- The engine. -/
  engine : String
deriving DecidableEq, Repr

/-- What `result.json` holds, as far as it is looked at: its keys, and the values of some. -/
structure Result where
  /-- The keys of the object. -/
  keys : List String
  /-- `errors`. -/
  errors : ℤ
  /-- `client_exit_code`. -/
  clientExitCode : ℤ
  /-- `elapsed_s`. -/
  elapsed : ℚ
  /-- `latency_samples`. -/
  latencySamples : ℤ
  /-- `measure_seconds`, of `args` or of the result itself. -/
  measureSeconds : Option ℤ
  /-- `dropped_arrivals`. -/
  droppedArrivals : ℤ := 0
  /-- `warmup_errors`. -/
  warmupErrors : ℤ := 0
  /-- `warmup_stable`. -/
  warmupStable : Bool := false
  /-- `origins`. -/
  origins : ℤ := 0
  /-- `origin_requests_delta`. -/
  originRequestsDelta : ℤ := 0
deriving DecidableEq, Repr

/-- `result.json`. -/
inductive ResultFile
  | absent
  | unreadable (exc : String)
  | holds (result : Result)
deriving DecidableEq, Repr

/-- What `correctness.json` holds. -/
structure Probe where
  /-- `basic`. -/
  basic : Option String := none
  /-- `batch_pipeline`. -/
  batchPipeline : Option String := none
deriving DecidableEq, Repr

/-- The directory of a run. -/
structure Files where
  /-- `result.json`. -/
  result : ResultFile := .absent
  /-- `error.txt`. -/
  error : Option String := none
  /-- `correctness.json`. -/
  correctness : Option Probe := none
deriving DecidableEq, Repr

/-! ## `run_strong.py` -/

/-- What `run_once` looks at in an entry of `CASES` before it starts anything. -/
structure Case where
  /-- The size of a value. -/
  size : ℕ
  /-- The operation that the client measures. -/
  operation : Load.Operation
deriving DecidableEq, Repr

/-- The runs that `run_once` does not make. -/
def skipped (case : Case) (engine : String) : Bool :=
  (case.operation = .pipeline && engine ≠ "grpc") ||
    (case.operation = .batchSet && "memcached".isPrefixOf engine) ||
      (engine = "memcached_extstore" && case.size < 2048)

/-- How far a run gets, and the exception that it ends with. -/
inductive Attempt
  /-- The server does not come up, or the probe fails. -/
  | fails (exc : String)
  /-- The client does not start, or there is no result. -/
  | failsMeasuring (probe : Probe) (exc : String)
  /-- Something fails after `result.json` is written. -/
  | failsRecording (probe : Probe) (result : Result) (exc : String)
  | finishes (probe : Probe) (result : Result)
deriving DecidableEq, Repr

/-- `run_once`, on the directory of the run. -/
def runOnce (case : Case) (engine : String) (attempt : Attempt) (files : Files) : Files :=
  if skipped case engine then files
  else
    match attempt with
    | .fails exc => { files with error := some (exc ++ "\n") }
    | .failsMeasuring probe exc =>
      { files with correctness := some probe, error := some (exc ++ "\n") }
    | .failsRecording probe result exc =>
      { correctness := some probe, result := .holds result, error := some (exc ++ "\n") }
    | .finishes probe result =>
      { correctness := some probe
        result := .holds result
        error :=
          if result.clientExitCode ≠ 0 ∨ result.errors ≠ 0 ∨ result.droppedArrivals ≠ 0 then
            some "Client errors, dropped arrivals, or nonzero exit; see result.json.\n"
          else files.error }

/-- The order of the runs. `shuffle` gives the order of the engines in a repetition. -/
def schedule (spec : Campaign.Spec) (shuffle : String → ℕ → List String) : List Run :=
  spec.cases.flatMap fun case =>
    (List.range spec.reps).flatMap fun rep =>
      (shuffle case rep).map fun engine => ⟨case, rep, engine⟩

/-- The directories after the runs. -/
def measure (cases : String → Case) (attempt : Run → Attempt) (dir : Run → Files) :
    List Run → Run → Files
  | [] => dir
  | run :: runs =>
    measure cases attempt
      (Function.update dir run (runOnce (cases run.case) run.engine (attempt run) (dir run))) runs

/-! ## `release_campaign.py` -/

/-- `expected_runs`. -/
def expectedRuns (spec : Campaign.Spec) : List Run :=
  spec.cases.flatMap fun case =>
    (List.range spec.reps).flatMap fun rep => spec.engines.map fun engine => ⟨case, rep, engine⟩

/-- What invalidates a run. -/
inductive Problem
  /-- The text of `error.txt`, stripped. -/
  | error (text : String)
  | missingResult
  | cannotRead (exc : String)
  | missingFields (missing : List String)
  | noLatencySamples
  | durationConfiguration (seconds : Option ℤ)
  | nonzero (field : String) (value : ℤ)
  | truncated (elapsed : ℚ)
  | missingProbe
  | probeDidNotPass
deriving DecidableEq, Repr

/-- What is noted of a run without invalidating it. -/
inductive Note
  | droppedArrivals (n : ℤ)
  | warmupDidNotStabilize
  | originRequests (n : ℤ)
deriving DecidableEq, Repr

/-- What `validate_group` returns, each entry with the run that it is about. -/
structure Findings where
  /-- `problems`, which make the group invalid. -/
  problems : List (Run × Problem) := []
  /-- `observations`, which are data. -/
  observations : List (Run × Note) := []
  /-- `claim_limitations`, which leave the group valid but not qualified. -/
  limitations : List (Run × Note) := []
deriving DecidableEq, Repr

/-- `valid`. -/
def Findings.valid (v : Findings) : Bool := v.problems.isEmpty

/-- `qualified`. -/
def Findings.qualified (v : Findings) : Bool := v.problems.isEmpty && v.limitations.isEmpty

/-- `required`. -/
def required : Campaign.Kind → List String
  | .kv => ["errors", "client_exit_code", "elapsed_s", "latency_samples", "args", "operations",
      "successful_ops_s", "hits", "origins", "latency_ms", "dropped_arrivals", "warmup_stable",
      "server_stats_before", "server_stats_after", "client_cgroup_before", "client_cgroup_after"]
  | .http => ["errors", "client_exit_code", "elapsed_s", "latency_samples", "measure_seconds",
      "warmup_seconds", "warmup_success", "warmup_errors", "successful_objects", "objects_s",
      "p50_ms", "p95_ms", "p99_ms", "origin_requests_delta", "path_containers",
      "origin_container", "client_cpu_usage_usec", "client_memory_peak_bytes"]

/-- `FULL_HIT_GROUPS`. -/
def fullHitGroups : List String := ["primary", "ram192", "flash384", "parity1g-hit"]

/-- `drop_only_exit`: the client exits with 3 for errors or dropped arrivals, and there are no
errors. -/
def Result.dropOnlyExit (d : Result) (kind : Campaign.Kind) : Bool :=
  kind = .kv && d.clientExitCode = 3 && 0 < d.droppedArrivals && d.errors = 0

/-- The ends of the lines as `read_text` gives them. -/
def newlines : List Char → List Char
  | '\r' :: '\n' :: cs => '\n' :: newlines cs
  | '\r' :: cs => '\n' :: newlines cs
  | c :: cs => c :: newlines cs
  | [] => []

/-- `read_text`, of a file with the text. -/
def readText (text : String) : String := String.ofList (newlines text.toList)

/-- A character that `strip` takes off. -/
def isSpace (c : Char) : Bool :=
  (0x09 ≤ c.toNat && c.toNat ≤ 0x0d) || (0x1c ≤ c.toNat && c.toNat ≤ 0x20) ||
    (0x2000 ≤ c.toNat && c.toNat ≤ 0x200a) ||
    [0x85, 0xa0, 0x1680, 0x2028, 0x2029, 0x202f, 0x205f, 0x3000].contains c.toNat

/-- `strip`. -/
def strip (text : String) : String :=
  String.ofList ((text.toList.dropWhile isSpace).reverse.dropWhile isSpace).reverse

/-- The probe of an engine passed. -/
def Probe.passed (probe : Probe) (engine : String) : Bool :=
  probe.basic = some "passed" && (!"grpc".isPrefixOf engine || probe.batchPipeline = some "passed")

variable (limit : ℕ → ℚ)

/-- The problems of a run with a complete result, in the order in which they are found. -/
def resultProblems (spec : Campaign.Spec) (run : Run) (files : Files) (d : Result) : List Problem :=
  (if d.latencySamples ≤ 0 then [.noLatencySamples] else []) ++
  (if d.measureSeconds ≠ some (spec.seconds : ℤ) then [.durationConfiguration d.measureSeconds]
    else []) ++
  (if d.errors ≠ 0 then [.nonzero "errors" d.errors] else []) ++
  (if d.dropOnlyExit spec.kind = false ∧ d.clientExitCode ≠ 0 then
    [.nonzero "client_exit_code" d.clientExitCode] else []) ++
  (if d.warmupErrors ≠ 0 then [.nonzero "warmup_errors" d.warmupErrors] else []) ++
  (if d.elapsed < limit spec.seconds then [.truncated d.elapsed] else []) ++
  (match spec.kind, files.correctness with
    | .http, _ => []
    | .kv, none => [.missingProbe]
    | .kv, some probe => if probe.passed run.engine then [] else [.probeDidNotPass]) ++
  (match files.error with
    | none => []
    | some text =>
      if d.droppedArrivals ≠ 0 ∧ d.errors = 0 ∧
          (d.clientExitCode = 0 ∨ d.dropOnlyExit spec.kind = true) then []
      else [.error (strip (readText text))])

/-- The notes on a run with a complete result: observations, and limitations of the claim. -/
def resultNotes (spec : Campaign.Spec) (run : Run) (d : Result) : List Note × List Note :=
  match spec.kind with
  | .kv =>
    let dropped := if d.droppedArrivals ≠ 0 then [Note.droppedArrivals d.droppedArrivals] else []
    let unstable :=
      if d.warmupStable = false ∧ "cold_".isPrefixOf run.case = false then
        [Note.warmupDidNotStabilize]
      else []
    let probe := spec.name = "offered-saturation" ∨ spec.overloadProbe = true
    ((if probe then dropped else []) ++ (if spec.headline then [] else unstable),
      (if probe then [] else dropped) ++ (if spec.headline then unstable else []) ++
        if spec.name ∈ fullHitGroups ∧ d.origins ≠ 0 then [.originRequests d.origins] else [])
  | .http =>
    ([], if spec.name = "http" ∧ d.originRequestsDelta ≠ 0 then
      [.originRequests d.originRequestsDelta] else [])

/-- One turn of the loop of `validate_group`. -/
def validateRun (spec : Campaign.Spec) (run : Run) (files : Files) : Findings :=
  match files.result with
  | .absent =>
    match files.error with
    | some text => { problems := [(run, .error (strip (readText text)))] }
    | none => { problems := [(run, .missingResult)] }
  | .unreadable exc => { problems := [(run, .cannotRead exc)] }
  | .holds d =>
    let missing := (required spec.kind).filter fun field => field ∉ d.keys
    if missing ≠ [] then { problems := [(run, .missingFields missing.mergeSort)] }
    else
      { problems := (resultProblems limit spec run files d).map (run, ·)
        observations := (resultNotes spec run d).1.map (run, ·)
        limitations := (resultNotes spec run d).2.map (run, ·) }

/-- `validate_group`. -/
def validateGroup (spec : Campaign.Spec) (dir : Run → Files) : Findings :=
  (expectedRuns spec).foldl (fun v run =>
    let w := validateRun limit spec run (dir run)
    { problems := v.problems ++ w.problems
      observations := v.observations ++ w.observations
      limitations := v.limitations ++ w.limitations }) {}

/-! ## What a run must be -/

/-- The result is that of a run that was measured whole and without errors. Arrivals may have been
dropped. -/
structure Result.Clean (spec : Campaign.Spec) (d : Result) : Prop where
  /-- No key is missing. -/
  complete : ∀ field ∈ required spec.kind, field ∈ d.keys
  /-- Something was measured. -/
  samples : 0 < d.latencySamples
  /-- It was to be measured for the configured time. -/
  seconds : d.measureSeconds = some (spec.seconds : ℤ)
  /-- The client saw no errors. -/
  errors : d.errors = 0
  /-- The client exited well, or with the code for dropped arrivals. -/
  exit : d.clientExitCode = 0 ∨ d.clientExitCode = 3 ∧ 0 < d.droppedArrivals
  /-- Nor did it see errors before the measurement. -/
  warmup : d.warmupErrors = 0
  /-- The measurement was not cut short. -/
  whole : limit spec.seconds ≤ d.elapsed

/-- The run is good enough for the group to be valid. An exception after the result is written is
passed over when arrivals have been dropped, because `error.txt` is then put down to them. -/
def Attempt.Accepted (spec : Campaign.Spec) (engine : String) : Attempt → Prop
  | .finishes probe d => d.Clean limit spec ∧ probe.passed engine = true
  | .failsRecording probe d _ =>
    d.Clean limit spec ∧ probe.passed engine = true ∧ d.droppedArrivals ≠ 0
  | _ => False

/-- The result does not limit what can be claimed. -/
structure Result.Unlimited (spec : Campaign.Spec) (run : Run) (d : Result) : Prop where
  /-- Arrivals are dropped only where that is what is looked for. -/
  dropped : d.droppedArrivals ≠ 0 → spec.name = "offered-saturation" ∨ spec.overloadProbe = true
  /-- What is claimed in a headline was measured on a warm cache, unless it is about a cold one. -/
  stable : spec.headline = true → d.warmupStable = true ∨ "cold_".isPrefixOf run.case = true
  /-- Where every request is to be a hit, the origin was not asked. -/
  origins : spec.name ∈ fullHitGroups → d.origins = 0

/-- The run is good enough for the group to be qualified. -/
def Attempt.Qualified (spec : Campaign.Spec) (run : Run) : Attempt → Prop
  | .finishes _ d | .failsRecording _ d _ => d.Unlimited spec run
  | _ => True

/-! ## The runs that are made are those that are expected -/

variable {limit} {spec : Campaign.Spec} {shuffle : String → ℕ → List String}

/-- The expected runs are those of the definition's cases, repetitions, and engines. -/
theorem mem_expectedRuns {run : Run} :
    run ∈ expectedRuns spec ↔
      run.case ∈ spec.cases ∧ run.rep < spec.reps ∧ run.engine ∈ spec.engines := by
  obtain ⟨case, rep, engine⟩ := run
  simp [expectedRuns]

/-- Shuffling the engines does not change which runs are made. -/
theorem mem_schedule (hshuffle : ∀ case rep, (shuffle case rep).Perm spec.engines) {run : Run} :
    run ∈ schedule spec shuffle ↔ run ∈ expectedRuns spec := by
  rw [mem_expectedRuns]
  obtain ⟨case, rep, engine⟩ := run
  simp [schedule, (hshuffle _ _).mem_iff]

/-- Nor does it make one twice. -/
theorem nodup_schedule (hshuffle : ∀ case rep, (shuffle case rep).Perm spec.engines)
    (hcases : spec.cases.Nodup) (hengines : spec.engines.Nodup) :
    (schedule spec shuffle).Nodup := by
  have hrep : ∀ case rep,
      ((shuffle case rep).map fun engine => (⟨case, rep, engine⟩ : Run)).Nodup := by
    intro case rep
    refine List.Nodup.map ?_ ((hshuffle case rep).nodup_iff.mpr hengines)
    intro e e' h
    exact congrArg Run.engine h
  refine List.nodup_flatMap.mpr ⟨fun case _ => ?_, ?_⟩
  · -- Within a case, the runs differ in the repetition or in the engine.
    refine List.nodup_flatMap.mpr ⟨fun rep _ => hrep case rep, ?_⟩
    refine List.nodup_range.imp ?_
    intro rep rep' hne run hrun hrun'
    obtain ⟨_, _, rfl⟩ := List.mem_map.mp hrun
    obtain ⟨_, _, h⟩ := List.mem_map.mp hrun'
    exact hne (congrArg Run.rep h).symm
  · -- Between cases, they differ in the case.
    refine hcases.imp ?_
    intro case case' hne run hrun hrun'
    have hcase : run.case = case := by
      obtain ⟨rep, -, h⟩ := List.mem_flatMap.mp hrun
      obtain ⟨-, -, rfl⟩ := List.mem_map.mp h
      rfl
    have hcase' : run.case = case' := by
      obtain ⟨rep, -, h⟩ := List.mem_flatMap.mp hrun'
      obtain ⟨-, -, rfl⟩ := List.mem_map.mp h
      rfl
    exact hne (hcase.symm.trans hcase')

/-- The runs that are made once leave each its own directory. -/
theorem measure_eq (cases : String → Case) (attempt : Run → Attempt) {runs : List Run}
    (hnodup : runs.Nodup) (dir : Run → Files) (run : Run) :
    measure cases attempt dir runs run =
      if run ∈ runs then runOnce (cases run.case) run.engine (attempt run) (dir run)
      else dir run := by
  induction runs generalizing dir with
  | nil => rfl
  | cons first runs ih =>
    obtain ⟨hfirst, hnodup⟩ := List.nodup_cons.mp hnodup
    rw [measure, ih hnodup]
    -- The first run is not made again, so its directory stays as it leaves it.
    by_cases hrun : run = first
    · subst hrun
      simp [hfirst]
    · simp [hrun]

/-! ## What the validation finds -/

/-- The loop of `validate_group` puts the findings of the runs one after another. -/
theorem foldl_findings (findings : Run → Findings) (runs : List Run) (v : Findings) :
    runs.foldl (fun v run =>
      { problems := v.problems ++ (findings run).problems
        observations := v.observations ++ (findings run).observations
        limitations := v.limitations ++ (findings run).limitations }) v =
      { problems := v.problems ++ runs.flatMap fun run => (findings run).problems
        observations := v.observations ++ runs.flatMap fun run => (findings run).observations
        limitations := v.limitations ++ runs.flatMap fun run => (findings run).limitations } := by
  induction runs generalizing v with
  | nil => simp
  | cons run runs ih => simp [ih]

/-- A group is valid when none of its runs has a problem. -/
theorem valid_validateGroup {dir : Run → Files} :
    (validateGroup limit spec dir).valid = true ↔
      ∀ run ∈ expectedRuns spec, (validateRun limit spec run (dir run)).problems = [] := by
  rw [validateGroup, foldl_findings fun run => validateRun limit spec run (dir run)]
  simp [Findings.valid]

/-- A group is qualified when none of its runs has a problem or limits the claim. -/
theorem qualified_validateGroup {dir : Run → Files} :
    (validateGroup limit spec dir).qualified = true ↔
      ∀ run ∈ expectedRuns spec, (validateRun limit spec run (dir run)).problems = [] ∧
        (validateRun limit spec run (dir run)).limitations = [] := by
  rw [validateGroup, foldl_findings fun run => validateRun limit spec run (dir run)]
  simp [Findings.qualified, forall_and]

/-- A complete result has no problem exactly when it is clean, the probe passed, and an `error.txt`
can be put down to dropped arrivals. -/
theorem resultProblems_eq_nil (hkind : spec.kind = .kv) {run : Run} {files : Files} {d : Result}
    (hcomplete : ∀ field ∈ required spec.kind, field ∈ d.keys) :
    resultProblems limit spec run files d = [] ↔
      d.Clean limit spec ∧ (∃ probe, files.correctness = some probe ∧
        probe.passed run.engine = true) ∧ (files.error ≠ none → d.droppedArrivals ≠ 0) := by
  -- The code 3 is passed over only where it is put down to dropped arrivals.
  have hexit : (d.errors = 0 → ¬(d.dropOnlyExit spec.kind = false ∧ d.clientExitCode ≠ 0) →
      d.clientExitCode = 0 ∨ d.clientExitCode = 3 ∧ 0 < d.droppedArrivals) := by
    intro herrors h
    by_cases hzero : d.clientExitCode = 0
    · exact .inl hzero
    · have hdrop : d.dropOnlyExit spec.kind = true := by
        simpa [hzero] using h
      simp only [Result.dropOnlyExit, Bool.and_eq_true, decide_eq_true_eq] at hdrop
      exact .inr ⟨hdrop.1.1.2, hdrop.1.2⟩
  have hdrop : d.errors = 0 → d.clientExitCode = 3 ∧ 0 < d.droppedArrivals →
      d.dropOnlyExit spec.kind = true := by
    rintro herrors ⟨hcode, hdropped⟩
    simp [Result.dropOnlyExit, hkind, hcode, hdropped, herrors]
  simp only [resultProblems, List.append_eq_nil_iff, ite_eq_right_iff, List.cons_ne_nil, imp_false]
  constructor
  · rintro ⟨⟨⟨⟨⟨⟨⟨hsamples, hseconds⟩, herrors⟩, hcode⟩, hwarmup⟩, hwhole⟩, hprobe⟩, herror⟩
    have hzero : d.errors = 0 := not_not.mp herrors
    refine ⟨⟨hcomplete, not_le.mp hsamples, not_not.mp hseconds, hzero, hexit hzero hcode,
      not_not.mp hwarmup, not_lt.mp hwhole⟩, ?_, ?_⟩
    · cases hc : files.correctness with
      | none => simp [hkind, hc] at hprobe
      | some probe =>
        refine ⟨probe, rfl, ?_⟩
        simpa [hkind, hc] using hprobe
    · intro hne
      obtain ⟨text, htext⟩ := Option.ne_none_iff_exists'.mp hne
      rw [htext] at herror
      by_contra hdropped
      simp [hdropped] at herror
  · rintro ⟨hclean, ⟨probe, hprobe, hpassed⟩, herror⟩
    -- A clean result has one of the two exits for which `error.txt` can be passed over.
    have hcode : d.clientExitCode = 0 ∨ d.dropOnlyExit spec.kind = true :=
      hclean.exit.imp_right (hdrop hclean.errors)
    refine ⟨⟨⟨⟨⟨⟨⟨not_le.mpr hclean.samples, not_not.mpr hclean.seconds⟩,
      not_not.mpr hclean.errors⟩, ?_⟩, not_not.mpr hclean.warmup⟩, not_lt.mpr hclean.whole⟩,
      ?_⟩, ?_⟩
    · rintro ⟨hdropOnly, hne⟩
      obtain hcode | hcode := hcode
      · exact hne hcode
      · rw [hcode] at hdropOnly
        cases hdropOnly
    · simp [hkind, hprobe, hpassed]
    · cases herr : files.error with
      | none => rfl
      | some text =>
        exact if_pos ⟨herror (by simp [herr]), hclean.errors, hcode⟩

/-- The limitations that a complete result gives rise to. -/
theorem resultNotes_eq_nil (hkind : spec.kind = .kv) {run : Run} {d : Result} :
    (resultNotes spec run d).2 = [] ↔ d.Unlimited spec run := by
  simp only [resultNotes, hkind, List.append_eq_nil_iff]
  constructor
  · rintro ⟨⟨hdropped, hstable⟩, horigins⟩
    refine ⟨?_, ?_, ?_⟩
    · intro hne
      by_contra hprobe
      simp [hprobe, hne] at hdropped
    · intro hheadline
      by_contra hunstable
      rw [not_or, Bool.not_eq_true, Bool.not_eq_true] at hunstable
      simp [hheadline, hunstable] at hstable
    · intro hmem
      by_contra hne
      simp [hmem, hne] at horigins
  · rintro ⟨hdropped, hstable, horigins⟩
    refine ⟨⟨?_, ?_⟩, ?_⟩
    · -- Arrivals dropped by a probe are an observation.
      split_ifs with hprobe hne
      · rfl
      · exact absurd (hdropped hne) hprobe
      · rfl
    · -- So is an unstable warmup where no headline is claimed.
      split_ifs with hheadline hunstable
      · obtain h | h := hstable hheadline
        · rw [h] at hunstable
          cases hunstable.1
        · rw [h] at hunstable
          cases hunstable.2
      · rfl
      · rfl
    · refine if_neg ?_
      rintro ⟨hmem, hne⟩
      exact hne (horigins hmem)

/-- What the validation finds in a directory with a result. -/
theorem validateRun_holds (limit : ℕ → ℚ) (hkind : spec.kind = .kv) (run : Run) (files : Files)
    {d : Result} (hresult : files.result = .holds d) :
    ((validateRun limit spec run files).problems = [] ↔
      d.Clean limit spec ∧ (∃ probe, files.correctness = some probe ∧
        probe.passed run.engine = true) ∧ (files.error ≠ none → d.droppedArrivals ≠ 0)) ∧
    ((validateRun limit spec run files).problems = [] →
      ((validateRun limit spec run files).limitations = [] ↔ d.Unlimited spec run)) := by
  by_cases hcomplete : ∀ field ∈ required spec.kind, field ∈ d.keys
  · have hmissing : (required spec.kind).filter (fun field => decide (field ∉ d.keys)) = [] := by
      simpa [List.filter_eq_nil_iff] using hcomplete
    have hrun : validateRun limit spec run files =
        { problems := (resultProblems limit spec run files d).map (run, ·)
          observations := (resultNotes spec run d).1.map (run, ·)
          limitations := (resultNotes spec run d).2.map (run, ·) } := by
      simp only [validateRun, hresult, hmissing, ne_eq, not_true_eq_false, if_false]
    rw [hrun]
    simp only [List.map_eq_nil_iff]
    exact ⟨resultProblems_eq_nil hkind hcomplete, fun _ => resultNotes_eq_nil hkind⟩
  · have hmissing : (required spec.kind).filter (fun field => decide (field ∉ d.keys)) ≠ [] := by
      intro h
      exact hcomplete (by simpa [List.filter_eq_nil_iff] using h)
    -- Missing fields are the only problem that is reported then, and the result is not clean.
    have hproblems : (validateRun limit spec run files).problems ≠ [] := by
      simp only [validateRun, hresult]
      rw [if_pos hmissing]
      exact List.cons_ne_nil _ _
    refine ⟨⟨fun h => absurd h hproblems, ?_⟩, fun h => absurd h hproblems⟩
    rintro ⟨hclean, -⟩
    exact absurd hclean.complete hcomplete

/-- The newline that ends `error.txt` is stripped. -/
theorem strip_newline (text : String) : strip (text ++ "\n") = strip text := by
  unfold strip
  rw [String.toList_append, List.dropWhile_append]
  split_ifs with hempty
  · -- the text is all space
    rw [List.isEmpty_iff.mp hempty]
    rfl
  · rw [List.reverse_append]
    rfl

/-- A newline at the end stays one, or ends a line that had an end. -/
theorem newlines_concat (cs : List Char) :
    newlines (cs ++ ['\n']) = newlines cs ++ ['\n'] ∨ newlines (cs ++ ['\n']) = newlines cs := by
  fun_induction newlines cs with
  | case1 cs ih => simpa [newlines] using ih
  | case2 cs hcs ih =>
    -- A carriage return at the very end and the newline are one line end.
    cases cs with
    | nil => exact .inr rfl
    | cons c cs =>
      have hrest : newlines ('\r' :: (c :: cs ++ ['\n'])) =
          '\n' :: newlines (c :: cs ++ ['\n']) := by
        refine newlines.eq_2 _ fun cs' hc => hcs cs ?_
        rw [(List.cons.inj hc).1]
      exact ih.imp (fun h => hrest.trans (congrArg _ h)) fun h => hrest.trans (congrArg _ h)
  | case3 c cs hcs hc ih =>
    have hrest : newlines (c :: (cs ++ ['\n'])) = c :: newlines (cs ++ ['\n']) :=
      newlines.eq_3 _ _ (fun _ he _ => hc he) hc
    exact ih.imp (fun h => hrest.trans (congrArg _ h)) fun h => hrest.trans (congrArg _ h)
  | case4 => exact .inl rfl

/-- Nor is it seen when the line ends are read. -/
theorem strip_readText_newline (text : String) :
    strip (readText (text ++ "\n")) = strip (readText text) := by
  have htext : (text ++ "\n").toList = text.toList ++ ['\n'] := by
    rw [String.toList_append]
    rfl
  rw [readText, htext]
  rcases newlines_concat text.toList with hlast | hlast
  · rw [hlast, String.ofList_append]
    exact strip_newline _
  · rw [hlast]
    rfl

/-- A run that fails before it has a result is reported with the text of its exception. -/
theorem validateRun_fails (case : Case) (run : Run) (hskipped : skipped case run.engine = false)
    (exc : String) :
    (validateRun limit spec run (runOnce case run.engine (.fails exc) {})).problems =
      [(run, .error (strip (readText exc)))] := by
  simp [runOnce, hskipped, validateRun, strip_readText_newline]

/-- What the validation finds in the directory of a run that was made once. -/
theorem validateRun_runOnce (limit : ℕ → ℚ) (hkind : spec.kind = .kv) (case : Case) (run : Run)
    (attempt : Attempt) :
    ((validateRun limit spec run (runOnce case run.engine attempt {})).problems = [] ↔
      skipped case run.engine = false ∧ attempt.Accepted limit spec run.engine) ∧
    ((validateRun limit spec run (runOnce case run.engine attempt {})).problems = [] →
      ((validateRun limit spec run (runOnce case run.engine attempt {})).limitations = [] ↔
        attempt.Qualified spec run)) := by
  cases hskipped : skipped case run.engine with
  | true => simp [runOnce, hskipped, validateRun]
  | false =>
    cases attempt with
    | fails exc => simp [runOnce, hskipped, validateRun, Attempt.Accepted]
    | failsMeasuring probe exc => simp [runOnce, hskipped, validateRun, Attempt.Accepted]
    | failsRecording probe d exc =>
      -- The exception came after the result was written, so both files are there.
      have hfiles : runOnce case run.engine (.failsRecording probe d exc) {} =
          ⟨.holds d, some (exc ++ "\n"), some probe⟩ := by
        simp [runOnce, hskipped]
      rw [hfiles]
      obtain ⟨hproblems, hlimitations⟩ := validateRun_holds limit hkind run
        ⟨.holds d, some (exc ++ "\n"), some probe⟩ rfl
      refine ⟨hproblems.trans ?_, hlimitations⟩
      simp [Attempt.Accepted]
    | finishes probe d =>
      generalize hfiles : runOnce case run.engine (.finishes probe d) {} = files
      have hresult : files.result = .holds d := by simp [← hfiles, runOnce, hskipped]
      have hprobe : files.correctness = some probe := by simp [← hfiles, runOnce, hskipped]
      obtain ⟨hproblems, hlimitations⟩ := validateRun_holds limit hkind run files hresult
      refine ⟨hproblems.trans ?_, hlimitations⟩
      simp only [hprobe, Option.some.injEq, exists_eq_left', Attempt.Accepted, true_and]
      refine ⟨fun h => ⟨h.1, h.2.1⟩, fun h => ⟨h.1, h.2, fun herror hzero => ?_⟩⟩
      -- a clean run without dropped arrivals exits with zero, and leaves no `error.txt`
      have hcode : d.clientExitCode = 0 := by
        obtain hcode | ⟨-, hdropped⟩ := h.1.exit
        · exact hcode
        · omega
      simp [← hfiles, runOnce, hskipped, hcode, h.1.errors, hzero] at herror

/-- However the engines are shuffled, and whatever happens to the runs: the validation of the
directories that `run_strong.py` leaves finds a key-value group of distinct cases and engines valid
exactly when none of the expected runs is one that the harness skips, and each of them is accepted.
It finds the group qualified exactly when, besides, no run limits the claim. -/
theorem group_verdict (hkind : spec.kind = .kv) (hcases : spec.cases.Nodup)
    (hengines : spec.engines.Nodup)
    (hshuffle : ∀ case rep, (shuffle case rep).Perm spec.engines) (limit : ℕ → ℚ)
    (cases : String → Case) (attempt : Run → Attempt) :
    ((validateGroup limit spec
        (measure cases attempt (fun _ => {}) (schedule spec shuffle))).valid = true ↔
      ∀ run ∈ expectedRuns spec, skipped (cases run.case) run.engine = false ∧
        (attempt run).Accepted limit spec run.engine) ∧
    ((validateGroup limit spec
        (measure cases attempt (fun _ => {}) (schedule spec shuffle))).qualified = true ↔
      ∀ run ∈ expectedRuns spec, skipped (cases run.case) run.engine = false ∧
        (attempt run).Accepted limit spec run.engine ∧ (attempt run).Qualified spec run) := by
  have hdir : ∀ run ∈ expectedRuns spec,
      measure cases attempt (fun _ => {}) (schedule spec shuffle) run =
        runOnce (cases run.case) run.engine (attempt run) {} := by
    intro run hrun
    rw [measure_eq cases attempt (nodup_schedule hshuffle hcases hengines),
      if_pos ((mem_schedule hshuffle).mpr hrun)]
  rw [valid_validateGroup, qualified_validateGroup]
  constructor
  · refine forall₂_congr fun run hrun => ?_
    rw [hdir run hrun]
    exact (validateRun_runOnce limit hkind _ run _).1
  · refine forall₂_congr fun run hrun => ?_
    rw [hdir run hrun]
    obtain ⟨hproblems, hlimitations⟩ :=
      validateRun_runOnce limit hkind (cases run.case) run (attempt run)
    rw [← and_assoc, ← hproblems]
    exact and_congr_right hlimitations

/-- Two engines, of which the second repetition swaps the order. -/
def primary : Campaign.Spec where
  name := "primary"
  cases := ["hit_1k_c8"]
  engines := ["grpc", "redis"]
  reps := 2

/-- A run without errors. -/
def cleanRun : Attempt :=
  .finishes ⟨some "passed", some "passed"⟩
    { keys := required .kv, errors := 0, clientExitCode := 0, elapsed := 60, latencySamples := 9000,
      measureSeconds := some 60, warmupStable := true }

/-- The group is qualified when all its runs are such. -/
theorem group_verdict_primary :
    (validateGroup (fun seconds => seconds * 99 / 100) primary
      (measure (fun _ => ⟨1024, .unary⟩) (fun _ => cleanRun) (fun _ => {})
        (schedule primary fun _ rep => if rep = 0 then ["grpc", "redis"] else ["redis", "grpc"]))
      ).qualified = true := by
  refine (group_verdict rfl (by decide) (by decide) ?_ _ _ _).2.mpr ?_
  · intro case rep
    split_ifs
    · exact .refl _
    · exact List.Perm.swap ..
  · intro run hrun
    obtain ⟨-, -, hengine⟩ := mem_expectedRuns.mp hrun
    have hprobe : (⟨some "passed", some "passed"⟩ : Probe).passed run.engine = true := by
      simp [Probe.passed]
    refine ⟨?_, ⟨?_, hprobe⟩, ?_⟩
    · simp only [primary, List.mem_cons, List.not_mem_nil, or_false] at hengine
      obtain h | h := hengine <;> rw [h] <;> decide
    · exact ⟨fun field h => h, by decide, rfl, rfl, .inl rfl, rfl, by norm_num [primary]⟩
    · exact ⟨fun h => absurd rfl h, fun _ => .inl rfl, fun _ => rfl⟩

end CacheServer.Bench.Validation
