import CacheServer.Lib.Assoc
import CacheServer.Lib.Interrupted
import Mathlib.Data.Int.Notation
import Mathlib.Data.List.Dedup

/-!
# Measurement campaigns

`run` of `release_campaign.py`. A campaign measures the groups of its definition one after the
other, and keeps a record of its progress in `campaign.json`: a group is recorded as running before
its command is launched, and as complete after it. A run can be killed at any point. Another one
resumes the campaign from the record that it finds, unless it finds a group that is running, or
starts it afresh, unless it finds any trace of an earlier one.

What a run reads besides the record (the images, the harness, the clock, and what its commands left
behind) is an input. What it does to its output paths, and the commands that it launches, are its
effects. A save that is torn leaves a file that cannot be read.
-/

namespace CacheServer.Bench.Campaign

/-! ## Definitions and records -/

/-- The harness that measures a group. -/
inductive Kind
  | kv
  | http
deriving DecidableEq, Repr

/-- A group of the campaign's definition, as `group` makes it. -/
structure Spec where
  /-- The name of the group, by which its progress is kept. -/
  name : String
  /-- The cases that are measured. -/
  cases : List String
  /-- The engines that are compared. -/
  engines : List String
  /-- How often each case is measured with each engine. -/
  reps : ℕ := 5
  /-- The seconds of a measurement. -/
  seconds : ℕ := 60
  /-- The seconds of warm-up before it. -/
  warmup : ℕ := 15
  /-- Which harness measures the group. -/
  kind : Kind := .kv
  /-- The size of an engine's cache, in MiB. -/
  cacheMb : ℕ := 96
  /-- The memory that its container may take, in MiB. -/
  memoryMb : ℕ := 768
  /-- Whether the results may become headlines. -/
  headline : Bool := true
  /-- The size of the flash file in MiB, if there is one. -/
  flashMb : Option ℕ := none
  /-- Whether flash files are thrown away after each run. -/
  discardFlash : Bool := false
  /-- Whether dropped arrivals are what the group looks for. -/
  overloadProbe : Bool := false
deriving DecidableEq, Repr

/-- What `inspect_image` gives of an image. -/
structure Image where
  /-- The image's digest. -/
  id : String
  /-- The architecture that it was built for. -/
  architecture : String
deriving DecidableEq, Repr

/-- What is recorded of a group once it is complete. -/
structure Outcome where
  /-- What makes the group invalid. -/
  problems : List String
  /-- What is noted beside the results. -/
  observations : List String
  /-- What limits the claims that can be made. -/
  claimLimitations : List String
  /-- No problem was found. -/
  valid : Bool
  /-- Nor was there a limitation. -/
  qualified : Bool
  /-- The hashes of the files that the results rest on. -/
  evidenceSha256 : List (String × String)
  /-- When the group was complete. -/
  finishedUtc : String
deriving DecidableEq, Repr

/-- The entry of a group. It is running while it has no outcome, and then complete. -/
structure Status where
  /-- When the group was launched. -/
  startedUtc : String
  /-- The command that measures it. -/
  command : List String
  /-- What came of it, once it is complete. -/
  outcome : Option Outcome := none
deriving DecidableEq, Repr

/-- The record of a campaign, `campaign.json`. -/
structure Record where
  /-- The images that the campaign runs. -/
  images : List (String × Image)
  /-- The hashes of the harness files. -/
  harnessSha256 : List (String × String)
  /-- The definition of the campaign. -/
  groups : List Spec
  /-- The groups that have been launched, in order. -/
  progress : List (String × Status) := []
  /-- When the campaign was complete. -/
  finishedUtc : Option String := none
  /-- Whether all groups are qualified, once it is complete. -/
  qualified : Option Bool := none
  /-- Whether all groups are valid, once it is complete. -/
  valid : Option Bool := none
deriving DecidableEq, Repr

/-! ## Files and effects -/

/-- A file that holds a record. -/
inductive File
  | absent
  | unreadable
  | holds (record : Record)
deriving DecidableEq, Repr

/-- The output paths: the directories, and the record in each. -/
structure Disk where
  /-- The directory of the runs exists. -/
  runs : Bool := false
  /-- The directory of the results exists. -/
  results : Bool := false
  /-- The record in the former. -/
  runsFile : File := .absent
  /-- The record in the latter. -/
  resultsFile : File := .absent
deriving DecidableEq, Repr

/-- What a run does. -/
inductive Effect
  | mkdirRuns
  | mkdirResults
  | saveRuns (record : Record)
  | saveResults (record : Record)
  /-- The measurement command of a group. -/
  | launch (name : String) (command : List String)
  /-- The summarizer, after the measurement. -/
  | summarize (command : List String)
deriving DecidableEq, Repr

/-- The output paths, and everything that was done whole, in order. -/
structure World where
  /-- The output paths. -/
  disk : Disk := {}
  /-- What was done. -/
  trace : List Effect := []
deriving DecidableEq, Repr

/-- What an effect does to the output paths. -/
def Disk.perform (disk : Disk) : Effect → Disk
  | .mkdirRuns => { disk with runs := true }
  | .mkdirResults => { disk with results := true }
  | .saveRuns record => { disk with runsFile := .holds record }
  | .saveResults record => { disk with resultsFile := .holds record }
  | .launch _ _ => disk
  | .summarize _ => disk

/-- What an effect leaves behind that is torn. Only a save can be. -/
def Disk.tear (disk : Disk) : Effect → Disk
  | .saveRuns _ => { disk with runsFile := .unreadable }
  | .saveResults _ => { disk with resultsFile := .unreadable }
  | _ => disk

/-- The effects on the world. -/
def device : Interrupted.Device World Effect where
  perform w e := { disk := w.disk.perform e, trace := w.trace ++ [e] }
  tear w e := { w with disk := w.disk.tear e }

/-! ## The run -/

/-- Where the output goes. Paths outside of the repository are refused. -/
structure Paths where
  /-- The repository. -/
  root : String
  /-- The directory of the runs, from the repository. -/
  runs : String
  /-- The directory of the results, from the repository. -/
  results : String

/-- What a run meets when it measures a group. -/
structure GroupRun where
  /-- The time at its launch. -/
  startedUtc : String
  /-- The exit code of the measurement. -/
  code : ℤ
  /-- The exit code of the summarizer. -/
  summary : ℤ
  /-- What `validate_group` finds in the raw results. -/
  problems : List String
  /-- What it notes beside them. -/
  observations : List String
  /-- What it finds to limit the claims. -/
  claimLimitations : List String
  /-- What `evidence_hashes` computes. -/
  evidenceSha256 : List (String × String)
  /-- The time at its end. -/
  finishedUtc : String

/-- The arguments of a run, and what it meets. -/
structure Invocation where
  /-- `--resume`. -/
  resume : Bool
  /-- `--grpc-image`, which need not be given. -/
  grpcImage : Option String
  /-- `--go-client-image`. -/
  goClientImage : String
  /-- `--python-client-image`. -/
  pythonClientImage : String
  /-- The groups of the definition. -/
  groups : List Spec
  /-- The other engines with their images. -/
  comparators : List (String × String)
  /-- `sys.executable`. -/
  executable : String
  /-- The processors that Docker reports, unless it cannot be asked. -/
  cpus : Option ℕ
  /-- `inspect_image`, unless it fails. -/
  inspectImage : String → Option Image
  /-- The harness files with their hashes. -/
  harness : List (String × String)
  /-- What is met at a group. -/
  groupRun : String → GroupRun
  /-- The time at the end of the campaign. -/
  finishedUtc : String

/-- The ways in which a run ends before its first effect. -/
inductive Refusal
  | imageRequired
  /-- An exception: a file that is missing or cannot be read, or a command that fails. -/
  | raised
  | harnessChanged (changed : List String)
  | definitionChanged
  | runtimeImageChanged
  | interruptedGroups (incomplete : List String)
  | outputPathsExist
  | tooFewCpus
  | mixedArchitectures (architectures : List String)
deriving DecidableEq, Repr

/-- `ENGINE_IMAGE_KEYS`. -/
def engineImageKeys : List String :=
  ["redis", "valkey", "memcached", "dragonfly", "garnet", "kvrocks"]

/-- `group_command`. There is none when an image is not recorded. -/
def groupCommand (executable : String) (spec : Spec) (images : List (String × Image))
    (output : String) : Option (List String) := do
  let grpc ← images.lookup "grpc"
  let go ← images.lookup "go"
  let script := match spec.kind with
    | .kv => "run_strong.py"
    | .http => "run_http.py"
  let parts := [executable, "bench/strong/" ++ script, "--grpc-image", grpc.id,
    "--go-client-image", go.id, "--cases", ",".intercalate spec.cases,
    "--reps", toString spec.reps, "--seconds", toString spec.seconds,
    "--warmup", toString spec.warmup, "--output", output]
  let python ← images.lookup "python"
  match spec.kind with
  | .kv =>
    let flash := match spec.flashMb with
      | none => []
      | some 0 => []
      | some n => ["--flash-mb", toString n]
    let discard := if spec.discardFlash then ["--discard-flash-files"] else []
    let engines := engineImageKeys.flatMap fun engine =>
      match images.lookup engine with
      | none => []
      | some image => ["--" ++ engine ++ "-image", image.id]
    return parts ++ ["--engines", ",".intercalate spec.engines,
      "--cache-mb", toString spec.cacheMb, "--memory-mb", toString spec.memoryMb,
      "--correctness-client-image", python.id] ++ flash ++ discard ++ engines
  | .http =>
    let nginx ← images.lookup "nginx"
    return parts ++ ["--utility-image", python.id, "--adapter-image", python.id,
      "--nginx-image", nginx.id]

/-- The command of the summarizer. -/
def summarizeCommand (executable : String) (paths : Paths) (spec : Spec) : List String :=
  let kind := match spec.kind with
    | .kv => "kv"
    | .http => "http"
  [executable, "bench/strong/summarize.py", "--kind", kind, "--input",
    paths.runs ++ "/" ++ spec.name, "--output", paths.results ++ "/" ++ spec.name]

/-- What is recorded of a group that was measured. -/
def GroupRun.outcome (g : GroupRun) : Outcome :=
  let failed := g.code ≠ 0 ∨ g.summary ≠ 0
  { problems :=
      if failed then
        g.problems ++ ["harness exit=" ++ toString g.code ++ "; summarizer exit=" ++
          toString g.summary]
      else g.problems
    observations := g.observations
    claimLimitations := g.claimLimitations
    valid := if failed then false else g.problems.isEmpty
    qualified := if failed then false else g.problems.isEmpty && g.claimLimitations.isEmpty
    evidenceSha256 := g.evidenceSha256
    finishedUtc := g.finishedUtc }

/-- `all` over a field of the outcomes. An entry without an outcome does not have the field. -/
def allOutcomes (field : Outcome → Bool) : List (String × Status) → Option Bool
  | [] => some true
  | (_, status) :: progress =>
    match status.outcome with
    | none => none
    | some outcome => if field outcome then allOutcomes field progress else some false

/-- The end of a run, after the last group. -/
def finish (inv : Invocation) (record : Record) : List Effect :=
  match allOutcomes (·.qualified) record.progress, allOutcomes (·.valid) record.progress with
  | some qualified, some valid =>
    let record :=
      { record with
        finishedUtc := some inv.finishedUtc, qualified := some qualified, valid := some valid }
    [.saveRuns record, .saveResults record]
  | _, _ => []

/-- The loop over the groups. A group that is in the record is skipped. -/
def measure (paths : Paths) (inv : Invocation) (record : Record) : List Spec → List Effect
  | [] => finish inv record
  | spec :: specs =>
    if spec.name ∈ record.progress.map Prod.fst then measure paths inv record specs
    else
      let output := paths.root ++ "/" ++ paths.runs ++ "/" ++ spec.name
      match groupCommand inv.executable spec record.images output with
      | none => []
      | some parts =>
        let groupRun := inv.groupRun spec.name
        let status : Status := { startedUtc := groupRun.startedUtc, command := parts }
        let started := { record with progress := Assoc.set record.progress spec.name status }
        let complete := { status with outcome := some groupRun.outcome }
        let completed := { started with progress := Assoc.set started.progress spec.name complete }
        .saveRuns started :: .launch spec.name parts ::
          .summarize (summarizeCommand inv.executable paths spec) ::
          .saveRuns completed :: .saveResults completed :: measure paths inv completed specs

/-- The record that a resumed run goes on from. -/
def resumed (inv : Invocation) (grpcImage : String) (disk : Disk) : Except Refusal Record :=
  match disk.runsFile with
  | .absent => .error .raised
  | .unreadable => .error .raised
  | .holds record =>
    if record.harnessSha256.any fun file => (inv.harness.lookup file.1).isNone then .error .raised
    else
      let changed :=
        (record.harnessSha256.filter fun file => inv.harness.lookup file.1 ≠ some file.2).map
          Prod.fst
      if changed ≠ [] then .error (.harnessChanged changed)
      else if record.groups ≠ inv.groups then .error .definitionChanged
      else
        match record.images.lookup "grpc", inv.inspectImage grpcImage with
        | some image, some image' =>
          let incomplete :=
            (record.progress.filter fun entry => entry.2.outcome.isNone).map Prod.fst
          if image.id ≠ image'.id then .error .runtimeImageChanged
          else if incomplete ≠ [] then .error (.interruptedGroups incomplete)
          else .ok record
        | _, _ => .error .raised

/-- The references of the images that a campaign uses. -/
def imageRefs (inv : Invocation) (grpcImage : String) : List (String × String) :=
  inv.comparators.foldl (fun refs comparator => Assoc.set refs comparator.1 comparator.2)
    [("grpc", grpcImage), ("go", inv.goClientImage), ("python", inv.pythonClientImage)]

/-- The record that a fresh run starts from. -/
def fresh (inv : Invocation) (grpcImage : String) (disk : Disk) : Except Refusal Record :=
  if disk.runs || disk.results then .error .outputPathsExist
  else
    match inv.cpus with
    | none => .error .raised
    | some cpus =>
      if cpus < 8 then .error .tooFewCpus
      else
        match (imageRefs inv grpcImage).mapM fun ref =>
            (inv.inspectImage ref.2).map fun image => (ref.1, image) with
        | none => .error .raised
        | some images =>
          let architectures := (images.map (·.2.architecture)).dedup
          if architectures.length ≠ 1 then .error (.mixedArchitectures architectures)
          else .ok { images, harnessSha256 := inv.harness, groups := inv.groups }

/-- `run`: its effects, unless it is refused. -/
def run (paths : Paths) (inv : Invocation) (disk : Disk) : Except Refusal (List Effect) :=
  match inv.grpcImage with
  | none => .error .imageRequired
  | some grpcImage =>
    if inv.resume then
      (resumed inv grpcImage disk).map fun record => measure paths inv record inv.groups
    else
      (fresh inv grpcImage disk).map fun record =>
        .mkdirRuns :: .mkdirResults :: .saveRuns record :: measure paths inv record inv.groups

/-- The effects of a run. -/
def effects (paths : Paths) (inv : Invocation) (w : World) : List Effect :=
  match run paths inv w.disk with
  | .error _ => []
  | .ok es => es

/-- The world after runs on output paths that were not there at first, each of which may be killed.
-/
def history (paths : Paths) (runs : List (Invocation × Interrupted.Stop)) : World :=
  device.history (effects paths) {} runs

/-! ## What a campaign promises -/

/-- The groups whose measurement commands were launched, in order. -/
def launches (trace : List Effect) : List String :=
  trace.filterMap fun
    | .launch name _ => some name
    | _ => none

/-- The records that were saved whole, in order. -/
def saves (trace : List Effect) : List Record :=
  trace.filterMap fun
    | .saveRuns record => some record
    | .saveResults record => some record
    | _ => none

/-- What is recorded of a complete group in the first record is recorded of it in the second. -/
def Keeps (r r' : Record) : Prop :=
  ∀ name status, r.progress.lookup name = some status → status.outcome.isSome = true →
    r'.progress.lookup name = some status

/-- The outcome that is recorded of a group. -/
def Record.outcome (r : Record) (name : String) : Option Outcome :=
  (r.progress.lookup name).bind (·.outcome)

/-- A record that is finished has every group as complete, and is qualified and valid exactly when
all of them are. -/
def Record.Concluded (r : Record) : Prop :=
  r.finishedUtc.isSome = true →
    (∀ spec ∈ r.groups, (r.outcome spec.name).isSome = true) ∧
    (r.qualified = some true ↔
      ∀ spec ∈ r.groups, ∀ outcome ∈ r.outcome spec.name, outcome.qualified = true) ∧
    (r.valid = some true ↔
      ∀ spec ∈ r.groups, ∀ outcome ∈ r.outcome spec.name, outcome.valid = true)

/-- The promises of a campaign. -/
structure Sound (groups : List Spec) (w : World) : Prop where
  /-- There is one definition. -/
  definition : ∀ r ∈ saves w.trace, r.groups = groups
  /-- The groups are launched in its order. -/
  launched : launches w.trace <+: groups.map (·.name)
  /-- A complete group stays as it is in every later record. -/
  kept : (saves w.trace).Pairwise Keeps
  /-- A record that is finished has every group as complete, and sums up their verdicts. -/
  concluded : ∀ r ∈ saves w.trace, r.Concluded
  /-- What can be read was saved. -/
  readable : ∀ r, w.disk.runsFile = .holds r ∨ w.disk.resultsFile = .holds r → r ∈ saves w.trace

/-- The record with an entry after the others. -/
def Record.add (r : Record) (name : String) (status : Status) : Record :=
  { r with progress := r.progress ++ [(name, status)] }

/-! ## Traces -/

/-- To keep is transitive. -/
theorem Keeps.trans {r r' r'' : Record} (h : Keeps r r') (h' : Keeps r' r'') : Keeps r r'' :=
  fun name status hlookup hcomplete => h' name status (h name status hlookup hcomplete) hcomplete

/-- What is recorded stays when a group is added. -/
theorem keeps_add (r : Record) (name : String) (status : Status) : Keeps r (r.add name status) := by
  intro name' status' hlookup _
  simp [Record.add, List.lookup_append, hlookup]

/-- A group that is running adds nothing to what is to be kept. -/
theorem add_keeps (r : Record) (name : String) {status : Status} (hstatus : status.outcome = none) :
    Keeps (r.add name status) r := by
  intro name' status' hlookup hcomplete
  simp only [Record.add, List.lookup_append] at hlookup
  -- An entry that was there already is found first; otherwise it is the running one.
  cases hr : r.progress.lookup name' with
  | some status'' => simpa [hr] using hlookup
  | none =>
    have hlast : List.lookup name' [(name, status)] = some status' := by simpa [hr] using hlookup
    obtain ⟨-, rfl⟩ : name' = name ∧ status' = status := by simpa using Assoc.mem_of_lookup hlast
    simp [hstatus] at hcomplete

namespace Sound

variable {groups : List Spec} {w : World}

/-- A save keeps the promises when its record does. -/
theorem save (h : Sound groups w) {r : Record} {e : Effect}
    (he : e = .saveRuns r ∨ e = .saveResults r) (hgroups : r.groups = groups)
    (hkept : ∀ r' ∈ saves w.trace, Keeps r' r) (hconcluded : r.Concluded) :
    Sound groups (device.perform w e) := by
  have hsaves : saves (device.perform w e).trace = saves w.trace ++ [r] := by
    obtain rfl | rfl := he <;> simp [device, saves]
  have hlaunches : launches (device.perform w e).trace = launches w.trace := by
    obtain rfl | rfl := he <;> simp [device, launches]
  refine ⟨?_, ?_, ?_, ?_, ?_⟩
  · -- One more record, with the same definition.
    rw [hsaves]
    simpa [or_imp, forall_and, hgroups] using h.definition
  · rw [hlaunches]
    exact h.launched
  · -- It keeps what all earlier ones have as complete.
    rw [hsaves]
    refine List.pairwise_append.mpr ⟨h.kept, List.pairwise_singleton .., ?_⟩
    simpa using hkept
  · rw [hsaves]
    simpa [or_imp, forall_and, hconcluded] using h.concluded
  · -- A file that can be read holds this record, or what it held before.
    intro r' hr'
    rw [hsaves]
    have hold := h.readable r'
    obtain rfl | rfl := he <;> simp [device, Disk.perform] at hr' <;> grind

/-- What is neither a save nor a launch keeps them. -/
theorem of_silent (h : Sound groups w) {w' : World} (hsaves : saves w'.trace = saves w.trace)
    (hlaunches : launches w'.trace <+: groups.map (·.name))
    (hreadable : ∀ r, w'.disk.runsFile = .holds r ∨ w'.disk.resultsFile = .holds r →
      w.disk.runsFile = .holds r ∨ w.disk.resultsFile = .holds r) : Sound groups w' := by
  refine ⟨?_, hlaunches, ?_, ?_, ?_⟩
  · exact hsaves ▸ h.definition
  · exact hsaves ▸ h.kept
  · exact hsaves ▸ h.concluded
  · exact fun r hr => hsaves ▸ h.readable r (hreadable r hr)

/-- What is torn keeps them. -/
theorem tear (h : Sound groups w) (e : Effect) : Sound groups (device.tear w e) := by
  refine h.of_silent rfl h.launched fun r hr => ?_
  cases e <;> simp_all [device, Disk.tear]

end Sound

/-! ## Phases of a campaign -/

/-- The campaign can go on from the record: every group in it is complete, and was launched. -/
structure Resumable (groups : List Spec) (record : Record) (w : World) : Prop where
  /-- The promises are kept. -/
  sound : Sound groups w
  /-- There is a directory of runs. -/
  dir : w.disk.runs = true
  /-- The record is there, and can be read. -/
  file : w.disk.runsFile = .holds record
  /-- Every group in it is complete. -/
  complete : ∀ entry ∈ record.progress, entry.2.outcome.isSome = true
  /-- These groups, and no others, were launched. -/
  launched : launches w.trace = record.progress.map Prod.fst
  /-- No earlier record says otherwise of a complete group. -/
  kept : ∀ r ∈ saves w.trace, Keeps r record

/-- A group that the record did not have is recorded as running. Its command may be launched. -/
structure Running (groups : List Spec) (record : Record) (name : String) (status : Status)
    (launched : List String) (w : World) : Prop where
  /-- The promises are kept. -/
  sound : Sound groups w
  /-- There is a directory of runs. -/
  dir : w.disk.runs = true
  /-- The record has the group as its last one. -/
  file : w.disk.runsFile = .holds (record.add name status)
  /-- The group is not complete in it. -/
  running : status.outcome = none
  /-- What has been launched so far. -/
  launched : launches w.trace = launched
  /-- No earlier record says otherwise of a complete group. -/
  kept : ∀ r ∈ saves w.trace, Keeps r record

/-- The campaign is over: there are output paths, and no record that a run could go on from. -/
structure Over (groups : List Spec) (w : World) : Prop where
  /-- The promises are kept. -/
  sound : Sound groups w
  /-- There is some output path. -/
  dir : w.disk.runs = true ∨ w.disk.results = true
  /-- A record that can be read has a group that is not complete. -/
  stuck : ∀ record, w.disk.runsFile = .holds record →
    ∃ entry ∈ record.progress, entry.2.outcome = none

/-- A campaign that has not been started, that can go on, or that is over. -/
def Phase (groups : List Spec) (w : World) : Prop :=
  w = {} ∨ (∃ record, Resumable groups record w) ∨ Over groups w

section

variable {groups : List Spec} {record : Record} {name : String} {status : Status} {w : World}

/-- A campaign that can go on is in one of its phases. -/
theorem Phase.of_resumable (h : Resumable groups record w) : Phase groups w := .inr (.inl ⟨_, h⟩)

/-- So is one that is over. -/
theorem Phase.of_over (h : Over groups w) : Phase groups w := .inr (.inr h)

/-- The record is one of those that were saved. -/
theorem Resumable.saved (h : Resumable groups record w) : record ∈ saves w.trace :=
  h.sound.readable record (.inl h.file)

/-- A torn save of the record ends the campaign. -/
theorem Over.of_tear (hsound : Sound groups w) (hdir : w.disk.runs = true) (r : Record) :
    Over groups (device.tear w (.saveRuns r)) := by
  refine ⟨hsound.tear _, .inl hdir, fun record hfile => ?_⟩
  simp [device, Disk.tear] at hfile

/-- While a group is running, no run can go on. -/
theorem Running.over {launched : List String} (h : Running groups record name status launched w) :
    Over groups w := by
  refine ⟨h.sound, .inl h.dir, fun record' hfile => ?_⟩
  rw [h.file, File.holds.injEq] at hfile
  exact ⟨(name, status), by simp [← hfile, Record.add], h.running⟩

/-- A save of a record with complete groups only, all of them launched. -/
theorem Resumable.of_save (hsound : Sound groups w) (hdir : w.disk.runs = true)
    (hgroups : record.groups = groups) (hkept : ∀ r ∈ saves w.trace, Keeps r record)
    (hconcluded : record.Concluded)
    (hcomplete : ∀ entry ∈ record.progress, entry.2.outcome.isSome = true)
    (hlaunched : launches w.trace = record.progress.map Prod.fst) :
    Resumable groups record (device.perform w (.saveRuns record)) := by
  refine ⟨hsound.save (.inl rfl) hgroups hkept hconcluded, hdir, rfl, hcomplete, ?_, ?_⟩
  · rw [← hlaunched]
    simp [device, launches]
  · -- The new record keeps itself.
    intro r hr
    have hr : r ∈ saves w.trace ∨ r = record := by simpa [device, saves] using hr
    obtain hr | rfl := hr
    · exact hkept r hr
    · exact fun _ _ hlookup _ => hlookup

/-- The copy of the record is saved, and the campaign can go on. -/
theorem Resumable.saveResults (h : Resumable groups record w) :
    Resumable groups record (device.perform w (.saveResults record)) := by
  have hconcluded := h.sound.concluded _ h.saved
  refine ⟨h.sound.save (.inr rfl) (h.sound.definition _ h.saved) h.kept hconcluded, h.dir, h.file,
    h.complete, ?_, ?_⟩
  · rw [← h.launched]
    simp [device, launches]
  · intro r hr
    have hr : r ∈ saves w.trace ∨ r = record := by simpa [device, saves] using hr
    obtain hr | rfl := hr
    · exact h.kept r hr
    · exact h.kept r h.saved

/-- The save of the copy is torn, and the campaign can go on. -/
theorem Resumable.tear_saveResults (h : Resumable groups record w) (r : Record) :
    Resumable groups record (device.tear w (.saveResults r)) :=
  ⟨h.sound.tear _, h.dir, h.file, h.complete, h.launched, h.kept⟩

/-- A group is recorded as running. -/
theorem Resumable.start (h : Resumable groups record w) (hunfinished : record.finishedUtc = none)
    (name : String) (hstatus : status.outcome = none) :
    Running groups record name status (record.progress.map Prod.fst)
      (device.perform w (.saveRuns (record.add name status))) := by
  have hgroups : (record.add name status).groups = groups :=
    h.sound.definition record h.saved
  have hkept : ∀ r ∈ saves w.trace, Keeps r (record.add name status) := fun r hr =>
    (h.kept r hr).trans (keeps_add record name status)
  -- A record with a group to do is not finished.
  have hconcluded : (record.add name status).Concluded := fun hfinished => by
    simp [Record.add, hunfinished] at hfinished
  refine ⟨h.sound.save (.inl rfl) hgroups hkept hconcluded, h.dir, rfl, hstatus, ?_, ?_⟩
  · -- Nothing is launched before the group is recorded.
    rw [← h.launched]
    simp [device, launches]
  · intro r hr
    have hr : r ∈ saves w.trace ∨ r = record.add name status := by simpa [device, saves] using hr
    obtain hr | rfl := hr
    · exact h.kept r hr
    · exact add_keeps record name hstatus

/-- The command of the running group is launched. -/
theorem Running.launch {launched : List String}
    (h : Running groups record name status launched w)
    (hnext : launched ++ [name] <+: groups.map (·.name)) (command : List String) :
    Running groups record name status (launched ++ [name])
      (device.perform w (.launch name command)) := by
  have hlaunches :
      launches (device.perform w (.launch name command)).trace = launched ++ [name] := by
    simp [device, launches, ← h.launched]
  have hsaves : saves (device.perform w (.launch name command)).trace = saves w.trace := by
    simp [device, saves]
  -- A launch saves nothing, and it is the next group's.
  refine ⟨h.sound.of_silent hsaves ?_ fun _ hr => hr, h.dir, h.file, h.running, hlaunches, ?_⟩
  · rw [hlaunches]
    exact hnext
  · rw [hsaves]
    exact h.kept

/-- The summarizer does not change where the campaign is. -/
theorem Running.summarize {launched : List String}
    (h : Running groups record name status launched w) (command : List String) :
    Running groups record name status launched (device.perform w (.summarize command)) := by
  have hlaunches : launches (device.perform w (.summarize command)).trace = launches w.trace := by
    simp [device, launches]
  have hsaves : saves (device.perform w (.summarize command)).trace = saves w.trace := by
    simp [device, saves]
  refine ⟨h.sound.of_silent hsaves ?_ fun _ hr => hr, h.dir, h.file, h.running, ?_, ?_⟩
  · rw [hlaunches]
    exact h.sound.launched
  · rw [hlaunches]
    exact h.launched
  · rw [hsaves]
    exact h.kept

/-- The running group is recorded as complete, and the campaign can go on. -/
theorem Running.finish
    (h : Running groups record name status (record.progress.map Prod.fst ++ [name]) w)
    (hgroups : record.groups = groups) (hunfinished : record.finishedUtc = none)
    (hcomplete : ∀ entry ∈ record.progress, entry.2.outcome.isSome = true) (outcome : Outcome) :
    Resumable groups (record.add name { status with outcome := some outcome })
      (device.perform w (.saveRuns (record.add name { status with outcome := some outcome }))) := by
  refine Resumable.of_save h.sound h.dir hgroups ?_ ?_ ?_ ?_
  · intro r hr
    exact (h.kept r hr).trans (keeps_add record name _)
  · intro hfinished
    simp [Record.add, hunfinished] at hfinished
  · simpa [Record.add, or_imp, forall_and] using hcomplete
  · simp [Record.add, h.launched]

/-! ## The end of a campaign -/

/-- Where every group is complete, `all` is over their outcomes. -/
theorem allOutcomes_eq {progress : List (String × Status)} (field : Outcome → Bool)
    (h : ∀ entry ∈ progress, entry.2.outcome.isSome = true) :
    ∃ b, allOutcomes field progress = some b ∧
      (b = true ↔ ∀ entry ∈ progress, ∀ outcome ∈ entry.2.outcome, field outcome = true) := by
  induction progress with
  | nil => exact ⟨true, rfl, by simp⟩
  | cons entry progress ih =>
    obtain ⟨outcome, houtcome⟩ := Option.isSome_iff_exists.mp (h entry List.mem_cons_self)
    obtain ⟨b, hb, hiff⟩ := ih fun entry hentry => h entry (List.mem_cons_of_mem _ hentry)
    -- `all` stops at the first entry that is false, and all of them have an outcome.
    cases hfield : field outcome with
    | false => exact ⟨false, by simp [allOutcomes, houtcome, hfield], by simp [houtcome, hfield]⟩
    | true =>
      refine ⟨b, ?_, ?_⟩
      · simp [allOutcomes, houtcome, hfield, hb]
      · simp [houtcome, hfield, hiff]

/-- Where the progress has exactly the groups, it is the same to ask every entry or every group. -/
theorem forall_progress_iff {r : Record} (hnodup : (r.progress.map Prod.fst).Nodup)
    (hnames : r.progress.map Prod.fst = r.groups.map (·.name)) (field : Outcome → Bool) :
    (∀ entry ∈ r.progress, ∀ outcome ∈ entry.2.outcome, field outcome = true) ↔
      ∀ spec ∈ r.groups, ∀ outcome ∈ r.outcome spec.name, field outcome = true := by
  constructor
  · -- An outcome of a group is one in the progress.
    intro h spec _ outcome houtcome
    obtain ⟨status, hlookup, hstatus⟩ := Option.bind_eq_some_iff.mp houtcome
    exact h (spec.name, status) (Assoc.mem_of_lookup hlookup) outcome hstatus
  · -- And an entry is found under its name, as the names differ.
    intro h entry hentry outcome houtcome
    have hname : entry.1 ∈ r.groups.map (·.name) :=
      hnames ▸ List.mem_map_of_mem hentry
    obtain ⟨spec, hspec, hname⟩ := List.mem_map.mp hname
    refine h spec hspec outcome (Option.bind_eq_some_iff.mpr ⟨entry.2, ?_, houtcome⟩)
    rw [hname]
    exact (Assoc.lookup_eq_some_iff hnodup).mpr hentry

/-- A group of a finished record is in its progress. -/
theorem Record.Concluded.finishedUtc_eq {r : Record} (h : r.Concluded) {spec : Spec}
    (hspec : spec ∈ r.groups) (hname : spec.name ∉ r.progress.map Prod.fst) :
    r.finishedUtc = none := by
  by_contra hfinished
  have hsome := (h (Option.isSome_iff_ne_none.mpr hfinished)).1 spec hspec
  obtain ⟨outcome, houtcome⟩ := Option.isSome_iff_exists.mp hsome
  obtain ⟨status, hlookup, -⟩ := Option.bind_eq_some_iff.mp houtcome
  exact hname (List.mem_map_of_mem (f := Prod.fst) (Assoc.mem_of_lookup hlookup))

/-- The end of a run saves a record that is concluded. -/
theorem finish_eq (inv : Invocation) {record : Record}
    (hnodup : (record.groups.map (·.name)).Nodup)
    (hnames : record.progress.map Prod.fst = record.groups.map (·.name))
    (hcomplete : ∀ entry ∈ record.progress, entry.2.outcome.isSome = true) :
    ∃ final : Record, finish inv record = [.saveRuns final, .saveResults final] ∧
      final.groups = record.groups ∧ final.progress = record.progress ∧ final.Concluded := by
  obtain ⟨qualified, hqualified, hqiff⟩ := allOutcomes_eq (·.qualified) hcomplete
  obtain ⟨valid, hvalid, hviff⟩ := allOutcomes_eq (·.valid) hcomplete
  refine ⟨{ record with
      finishedUtc := some inv.finishedUtc, qualified := some qualified, valid := some valid },
    by simp only [finish, hqualified, hvalid], rfl, rfl, fun _ => ⟨?_, ?_, ?_⟩⟩
  · -- Every group of the definition has its entry, which is complete.
    intro spec hspec
    have hname : spec.name ∈ record.progress.map Prod.fst := hnames ▸ List.mem_map_of_mem hspec
    obtain ⟨entry, hentry, hname⟩ := List.mem_map.mp hname
    have hlookup := (Assoc.lookup_eq_some_iff (hnames ▸ hnodup)).mpr hentry
    rw [hname] at hlookup
    simpa [Record.outcome, hlookup] using hcomplete entry hentry
  · rw [Option.some.injEq, hqiff]
    exact forall_progress_iff (hnames ▸ hnodup) hnames (·.qualified)
  · rw [Option.some.injEq, hviff]
    exact forall_progress_iff (hnames ▸ hnodup) hnames (·.valid)

/-! ## Runs -/

variable {paths : Paths} {inv : Invocation}

/-- The groups in the record are skipped. -/
theorem measure_append {done rest : List Spec}
    (hdone : ∀ spec ∈ done, spec.name ∈ record.progress.map Prod.fst) :
    measure paths inv record (done ++ rest) = measure paths inv record rest := by
  induction done with
  | nil => rfl
  | cons spec done ih =>
    rw [List.cons_append, measure, if_pos (hdone spec List.mem_cons_self)]
    exact ih fun spec' hspec' => hdone spec' (List.mem_cons_of_mem _ hspec')

/-- The effects at a group that is not in the record, when there is a command for it. -/
theorem measure_cons {spec : Spec} {specs : List Spec}
    (hname : spec.name ∉ record.progress.map Prod.fst) :
    measure paths inv record (spec :: specs) = [] ∨
      ∃ status outcome command, status.outcome = none ∧
        let completed := record.add spec.name { status with outcome := some outcome }
        measure paths inv record (spec :: specs) =
          .saveRuns (record.add spec.name status) :: .launch spec.name status.command ::
            .summarize command :: .saveRuns completed :: .saveResults completed ::
            measure paths inv completed specs := by
  rw [measure, if_neg hname]
  -- Without an image for one of its engines the group raises, before anything is saved.
  cases hcommand : groupCommand inv.executable spec record.images
    (paths.root ++ "/" ++ paths.runs ++ "/" ++ spec.name) with
  | none =>
    left
    simp only [hcommand]
  | some parts =>
    refine .inr ⟨{ startedUtc := (inv.groupRun spec.name).startedUtc, command := parts },
      (inv.groupRun spec.name).outcome, summarizeCommand inv.executable paths spec, rfl, ?_⟩
    simp only [hcommand, Assoc.set_of_notMem hname, Assoc.set_append_singleton hname]
    rfl

/-- Wherever the loop is stopped, the campaign can go on or is over. -/
theorem phase_measure (hnodup : (groups.map (·.name)).Nodup) {done rest : List Spec}
    (hgroups : groups = done ++ rest) (h : Resumable groups record w)
    (hnames : record.progress.map Prod.fst = done.map (·.name)) (stop : Interrupted.Stop) :
    Phase groups (device.run w (measure paths inv record rest) stop) := by
  induction rest generalizing done record w stop with
  | nil =>
    -- No group is left: the record is finished and saved twice.
    have hrecord : record.groups = groups := h.sound.definition _ h.saved
    rw [List.append_nil] at hgroups
    obtain ⟨final, hfinish, hfinal, hprogress, hconcluded⟩ :=
      finish_eq inv (hrecord ▸ hnodup) (by rw [hnames, hrecord, hgroups]) h.complete
    have hkeeps : ∀ r ∈ saves w.trace, Keeps r final := fun r hr name status hlookup hcomplete =>
      hprogress ▸ h.kept r hr name status hlookup hcomplete
    have hsaved : Resumable groups final (device.perform w (.saveRuns final)) :=
      Resumable.of_save h.sound h.dir (hfinal.trans hrecord) hkeeps hconcluded
        (hprogress ▸ h.complete) (hprogress ▸ h.launched)
    rw [measure, hfinish]
    -- A kill inside the first save leaves no record to go on from; one inside the copy does.
    refine Interrupted.Device.run_cons (.of_resumable h) (.of_over (.of_tear h.sound h.dir _)) ?_ _
    refine Interrupted.Device.run_cons (.of_resumable hsaved)
      (.of_resumable (hsaved.tear_saveResults _)) ?_
    intro stop
    rw [Interrupted.Device.run_nil]
    exact .of_resumable hsaved.saveResults
  | cons spec rest ih =>
    have hrecord : record.groups = groups := h.sound.definition _ h.saved
    -- The next group is not in the record, so that the record is not finished.
    have hname : spec.name ∉ record.progress.map Prod.fst := by
      rw [hnames]
      rw [hgroups, List.map_append, List.map_cons] at hnodup
      exact fun hmem => (List.disjoint_of_nodup_append hnodup) hmem List.mem_cons_self
    have hunfinished : record.finishedUtc = none :=
      (h.sound.concluded _ h.saved).finishedUtc_eq (by simp [hrecord, hgroups]) hname
    have hnext : record.progress.map Prod.fst ++ [spec.name] <+: groups.map (·.name) := by
      rw [hnames, hgroups]
      exact ⟨rest.map (·.name), by simp⟩
    have hmeasure : measure paths inv record (spec :: rest) = [] ∨ _ := measure_cons hname
    obtain hnone | ⟨status, outcome, command, hstatus, heffects⟩ := hmeasure
    · -- There is no command for it, and nothing is done.
      rw [hnone, Interrupted.Device.run_nil]
      exact .of_resumable h
    · -- The five effects of a group, and where a kill at each of them leaves the campaign.
      have hstarted := h.start hunfinished spec.name hstatus
      have hlaunched := hstarted.launch hnext status.command
      have hmeasured := hlaunched.summarize command
      have hcompleted := hmeasured.finish hrecord hunfinished h.complete outcome
      rw [heffects]
      refine Interrupted.Device.run_cons (.of_resumable h)
        (.of_over (.of_tear h.sound h.dir _)) ?_ _
      refine Interrupted.Device.run_cons (.of_over hstarted.over) (.of_over hstarted.over) ?_
      refine Interrupted.Device.run_cons (.of_over hlaunched.over) (.of_over hlaunched.over) ?_
      refine Interrupted.Device.run_cons (.of_over hmeasured.over)
        (.of_over (.of_tear hmeasured.sound hmeasured.dir _)) ?_
      refine Interrupted.Device.run_cons (.of_resumable hcompleted)
        (.of_resumable (hcompleted.tear_saveResults _)) ?_
      have hdone : groups = (done ++ [spec]) ++ rest := by simp [hgroups]
      exact ih hdone hcompleted.saveResults (by simp [Record.add, hnames])

/-- A run that resumes goes on from a record with its own definition and complete groups. -/
theorem resumed_eq_ok {grpcImage : String} {disk : Disk}
    (h : resumed inv grpcImage disk = .ok record) :
    disk.runsFile = .holds record ∧ record.groups = inv.groups ∧
      ∀ entry ∈ record.progress, entry.2.outcome.isSome = true := by
  simp only [resumed] at h
  split at h
  · cases h
  · cases h
  · split_ifs at h with hmissing hchanged hgroups hincomplete
    · split at h
      · split_ifs at h
      · cases h
    · split at h
      · split_ifs at h with himage
        obtain rfl := Except.ok.inj h
        refine ⟨‹_›, not_not.mp hgroups, fun entry hentry => ?_⟩
        -- An entry that is not complete would be among those that are refused.
        by_contra hnone
        refine hincomplete (List.ne_nil_of_mem (a := entry.1) (List.mem_map_of_mem ?_))
        simpa [List.mem_filter, hentry] using hnone
      · cases h

/-- A fresh run starts from an empty record, and only when neither output path is there. -/
theorem fresh_eq_ok {grpcImage : String} {disk : Disk}
    (h : fresh inv grpcImage disk = .ok record) :
    disk.runs = false ∧ disk.results = false ∧ record.groups = inv.groups ∧
      record.progress = [] ∧ record.finishedUtc = none := by
  simp only [fresh] at h
  split_ifs at h with hexists
  split at h
  · cases h
  · split_ifs at h with hcpus
    split at h
    · cases h
    · split_ifs at h with harchitectures
      obtain rfl := Except.ok.inj h
      simp only [Bool.or_eq_true, not_or, Bool.not_eq_true] at hexists
      exact ⟨hexists.1, hexists.2, rfl, rfl, rfl⟩

/-- The effects of a run: none, those of the loop on a record that it found, or those of a start. -/
theorem effects_cases (paths : Paths) (inv : Invocation) (w : World) :
    effects paths inv w = [] ∨
    (∃ record, w.disk.runsFile = .holds record ∧ record.groups = inv.groups ∧
      (∀ entry ∈ record.progress, entry.2.outcome.isSome = true) ∧
      effects paths inv w = measure paths inv record inv.groups) ∨
    (inv.resume = false ∧ w.disk.runs = false ∧ w.disk.results = false ∧
      ∃ record : Record, record.groups = inv.groups ∧ record.progress = [] ∧
        record.finishedUtc = none ∧
        effects paths inv w =
          .mkdirRuns :: .mkdirResults :: .saveRuns record ::
            measure paths inv record inv.groups) := by
  -- Every refusal is without effects.
  cases himage : inv.grpcImage with
  | none => exact .inl (by simp [effects, run, himage])
  | some grpcImage =>
    cases hresume : inv.resume with
    | true =>
      cases hrecord : resumed inv grpcImage w.disk with
      | error refusal => exact .inl (by simp [effects, run, himage, hresume, hrecord, Except.map])
      | ok record =>
        obtain ⟨hfile, hgroups, hcomplete⟩ := resumed_eq_ok hrecord
        exact .inr (.inl ⟨record, hfile, hgroups, hcomplete,
          by simp [effects, run, himage, hresume, hrecord, Except.map]⟩)
    | false =>
      cases hrecord : fresh inv grpcImage w.disk with
      | error refusal => exact .inl (by simp [effects, run, himage, hresume, hrecord, Except.map])
      | ok record =>
        obtain ⟨hruns, hresults, hgroups, hprogress, hunfinished⟩ := fresh_eq_ok hrecord
        exact .inr (.inr ⟨rfl, hruns, hresults, record, hgroups, hprogress, hunfinished,
          by simp [effects, run, himage, hresume, hrecord, Except.map]⟩)

/-- Nothing has been done yet. -/
theorem sound_empty (groups : List Spec) : Sound groups {} := by
  refine ⟨?_, ?_, ?_, ?_, ?_⟩ <;> simp [saves, launches]

/-- A run that finds a record with complete groups only finds a campaign that can go on. -/
theorem Phase.resumable (h : Phase groups w) (hfile : w.disk.runsFile = .holds record)
    (hcomplete : ∀ entry ∈ record.progress, entry.2.outcome.isSome = true) :
    Resumable groups record w := by
  obtain rfl | ⟨record', hresumable⟩ | hover := h
  · -- There was no record.
    cases hfile
  · obtain rfl : record' = record := File.holds.inj (hresumable.file.symm.trans hfile)
    exact hresumable
  · -- A campaign that is over has a record with a group that is not complete.
    obtain ⟨entry, hentry, hnone⟩ := hover.stuck record hfile
    have hsome := hcomplete entry hentry
    simp [hnone] at hsome

/-- A run that finds no output paths finds a campaign that has not been started. -/
theorem Phase.eq_empty (h : Phase groups w) (hruns : w.disk.runs = false)
    (hresults : w.disk.results = false) : w = {} := by
  obtain hempty | ⟨record, hresumable⟩ | hover := h
  · exact hempty
  · simp [hresumable.dir] at hruns
  · have hdir := hover.dir
    simp [hruns, hresults] at hdir

/-- Wherever a resumed run is stopped, the campaign can go on or is over. -/
theorem phase_resume (hnodup : (groups.map (·.name)).Nodup) (h : Resumable groups record w)
    (stop : Interrupted.Stop) :
    Phase groups (device.run w (measure paths inv record groups) stop) := by
  have hnames := h.sound.launched
  rw [h.launched, List.prefix_iff_eq_take, ← List.map_take] at hnames
  -- The groups of the record are the first ones of the definition, and are skipped.
  have hsplit := (List.take_append_drop (record.progress.map Prod.fst).length groups).symm
  have hskip : measure paths inv record groups = measure paths inv record
      (groups.drop (record.progress.map Prod.fst).length) := by
    rw [hsplit, measure_append fun spec hspec => ?_, ← hsplit]
    rw [hnames]
    exact List.mem_map_of_mem hspec
  rw [hskip]
  exact phase_measure hnodup hsplit h hnames stop

/-- Wherever the first run is stopped, the campaign can go on, is over, or has not been started. -/
theorem phase_start (hnodup : (groups.map (·.name)).Nodup) (hgroups : record.groups = groups)
    (hprogress : record.progress = []) (hunfinished : record.finishedUtc = none)
    (stop : Interrupted.Stop) :
    Phase groups (device.run {} (.mkdirRuns :: .mkdirResults :: .saveRuns record ::
      measure paths inv record groups) stop) := by
  -- Until the first record is saved, a kill leaves directories that no run accepts.
  have hruns : Over groups (device.perform {} .mkdirRuns) :=
    ⟨(sound_empty groups).of_silent rfl List.nil_prefix fun _ hr => hr, .inl rfl,
      fun _ hfile => by cases hfile⟩
  have hresults : Over groups (device.perform (device.perform {} .mkdirRuns) .mkdirResults) :=
    ⟨hruns.sound.of_silent rfl List.nil_prefix fun _ hr => hr, .inl rfl,
      fun _ hfile => by cases hfile⟩
  have hsaved := Resumable.of_save hresults.sound rfl hgroups
    (fun r hr => by simp [device, saves] at hr)
    (fun hfinished => by simp [hunfinished] at hfinished) (by simp [hprogress])
    (by simp [hprogress, device, launches])
  refine Interrupted.Device.run_cons (.inl rfl) (.inl rfl) ?_ _
  refine Interrupted.Device.run_cons (.of_over hruns) (.of_over hruns) ?_
  refine Interrupted.Device.run_cons (.of_over hresults)
    (.of_over (.of_tear hresults.sound rfl _)) ?_
  exact phase_resume hnodup hsaved

/-- Every run preserves the phases. -/
theorem phase_run (hnodup : (groups.map (·.name)).Nodup)
    (hfresh : inv.resume = false → inv.groups = groups) (h : Phase groups w)
    (stop : Interrupted.Stop) : Phase groups (device.run w (effects paths inv w) stop) := by
  obtain heffects | ⟨record, hfile, hgroups, hcomplete, heffects⟩ |
    ⟨hresume, hruns, hresults, record, hgroups, hprogress, hunfinished, heffects⟩ :=
    effects_cases paths inv w
  · -- The run was refused.
    rw [heffects, Interrupted.Device.run_nil]
    exact h
  · -- It resumes the campaign.
    have hresumable := h.resumable hfile hcomplete
    rw [heffects, ← hgroups, hresumable.sound.definition _ hresumable.saved]
    exact phase_resume hnodup hresumable stop
  · -- It starts the campaign.
    rw [heffects, h.eq_empty hruns hresults, hfresh hresume]
    exact phase_start hnodup (hgroups.trans (hfresh hresume)) hprogress hunfinished stop

end

/-- For every definition with distinct names, and every sequence of runs on output paths that were
not there at first, where every fresh run has the definition and every run may be killed before any
effect or in the middle of a save: no group's command is launched twice, the groups are launched in
the order of the definition, a complete group has the same entry in every record that is saved
later, and a finished record has every group as complete, and is qualified and valid exactly when
all of them are. -/
theorem campaign_launches_once {groups : List Spec} (hnodup : (groups.map (·.name)).Nodup)
    (paths : Paths) {runs : List (Invocation × Interrupted.Stop)}
    (hfresh : ∀ run ∈ runs, run.1.resume = false → run.1.groups = groups) :
    (launches (history paths runs).trace).Nodup ∧ Sound groups (history paths runs) := by
  have hphase : Phase groups (history paths runs) :=
    Interrupted.Device.history_invariant (P := Phase groups)
      (fun run hrun _ h stop => phase_run hnodup (hfresh run hrun) h stop) (.inl rfl)
  have hsound : Sound groups (history paths runs) := by
    obtain hempty | ⟨record, hresumable⟩ | hover := hphase
    · rw [hempty]
      exact sound_empty groups
    · exact hresumable.sound
    · exact hover.sound
  exact ⟨hnodup.sublist hsound.launched.sublist, hsound⟩

/-- The first two groups of the release campaign. -/
def firstGroups : List Spec :=
  [{ name := "primary", cases := ["hit_1k_c8"], engines := ["grpc", "redis"] },
    { name := "hybrid", cases := ["origin_uniform_64k_5ms"], engines := ["grpc", "grpc_nvm"] }]

/-- A run of the two groups. -/
def firstGroupsRun (resume : Bool) : Invocation where
  resume
  grpcImage := some "cachelib-grpc-server:1.8.0"
  goClientImage := "cachebench-go:rc"
  pythonClientImage := "cachelib-investigation-client:local"
  groups := firstGroups
  comparators := [("redis", "redis:8.2-alpine")]
  executable := "python3"
  cpus := some 8
  inspectImage reference := some { id := reference, architecture := "arm64" }
  harness := []
  groupRun name :=
    { startedUtc := name, code := 0, summary := 0, problems := [], observations := [],
      claimLimitations := [], evidenceSha256 := [], finishedUtc := name }
  finishedUtc := "later"

/-- The start is killed in the middle of the save of the copy after the first group, and the
campaign is resumed. -/
def killedOnce : List (Invocation × Interrupted.Stop) :=
  [(firstGroupsRun false, ⟨7, true⟩), (firstGroupsRun true, ⟨100, false⟩)]

/-- Both groups are launched, one of them in each run. -/
theorem campaign_launches_once_killed :
    launches (history ⟨"/r", "runs", "results"⟩ killedOnce).trace = ["primary", "hybrid"] ∧
      (launches (history ⟨"/r", "runs", "results"⟩ killedOnce).trace).Nodup ∧
      Sound firstGroups (history ⟨"/r", "runs", "results"⟩ killedOnce) :=
  ⟨by decide +kernel, campaign_launches_once (by decide) ⟨"/r", "runs", "results"⟩
    (by simp [killedOnce, firstGroupsRun])⟩

end CacheServer.Bench.Campaign
