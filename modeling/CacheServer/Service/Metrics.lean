import CacheServer.Lib.Exposition
import CacheServer.Lib.Http
import CacheServer.Manager.CacheLib
import Mathlib.Data.Rat.Defs
import Mathlib.Tactic.SplitIfs

/-!
# The metrics endpoint

`MetricsServer.cc` answers `GET /metrics` with the manager's statistics as a text. What counts is
what a scraper makes of it: `scrape` reads the message up to its announced length, the families, and
from these the statistics, and `scrape_delivered` says that it gets them all back, or nothing when
the connection breaks off.

`getStats` asks CacheLib for its own statistics. They are a `Report`, with the call that throws, if
one does. A double is of any type with a division, and `format` is how a stream writes it.
-/

namespace CacheServer.Metrics

/-- The bytes of a text of the source. -/
def utf8 (s : String) : Bytes := s.toUTF8.data.toList

/-- `kServerVersion`. -/
def kServerVersion : Bytes := utf8 "1.8.0"

/-- `CacheStats`. -/
structure CacheStats (δ : Type) where
  /-- The configured size of the cache. -/
  totalSize : Int64 := 0
  /-- The part of it that is in use. -/
  usedSize : Int64 := 0
  /-- The items in it. -/
  itemCount : Int64 := 0
  /-- Hits by lookups, zero without lookups. -/
  hitRate : δ
  /-- The lookups. -/
  getCount : Int64 := 0
  /-- Those that found something. -/
  hitCount : Int64 := 0
  /-- Those that found nothing, or failed. -/
  missCount : Int64 := 0
  /-- The stores that were tried. -/
  setCount : Int64 := 0
  /-- The removals that were tried. -/
  deleteCount : Int64 := 0
  /-- The items that CacheLib has evicted. -/
  evictionCount : Int64 := 0
  /-- The expired items that lookups have met. -/
  expiredCount : Int64 := 0
  /-- There is a flash cache. -/
  nvmEnabled : Bool := false
  /-- Its configured size. -/
  nvmSize : Int64 := 0
  /-- The bytes that it has written. -/
  nvmUsed : Int64 := 0
  /-- The lookups of it that found something. -/
  nvmHitCount : Int64 := 0
  /-- Those that found nothing. -/
  nvmMissCount : Int64 := 0
  /-- The bytes that it has read. -/
  nvmDeviceBytesRead : Int64 := 0
  /-- The bytes that it has written. -/
  nvmDeviceBytesWritten : Int64 := 0
  /-- The age of the manager. -/
  uptimeSeconds : Int64 := 0
  /-- The version of the server. -/
  version : Bytes
deriving DecidableEq, Repr

/-! ## `CacheManager::getStats` -/

/-- The calls of CacheLib that `getStats` makes. -/
inductive StatsCall
  /-- `getCacheMemoryStats` or `getGlobalCacheStats` -/
  | cache
  /-- `getPoolStats` -/
  | pool
  /-- `getNvmCacheStatsMap` -/
  | nvm
deriving DecidableEq, Repr

/-- What CacheLib answers to `getStats`. -/
structure Report where
  /-- `ramCacheSize` of the memory statistics. -/
  ramCacheSize : UInt64
  /-- `numItems` of the global statistics. -/
  numItems : UInt64
  /-- `numEvictions` of them. -/
  numEvictions : UInt64
  /-- `numCacheGetExpiries` of them. -/
  numCacheGetExpiries : UInt64
  /-- `poolUsableSize` of the pool. -/
  poolUsableSize : UInt64
  /-- `freeMemoryBytes()` of the pool. -/
  freeMemoryBytes : UInt64
  /-- `toMap` of the flash statistics, with the values as they are cast. -/
  nvmStats : List (String × Int64)
  /-- The call that throws. -/
  throwsAt : Option StatsCall := none
deriving DecidableEq, Repr

/-- What `getStats` reads of the manager. The counters are those that it has loaded. -/
structure Loaded where
  /-- `config_.enableNvm`. -/
  enableNvm : Bool
  /-- `config_.nvmCacheSize`. -/
  nvmCacheSize : UInt64
  /-- `getCount_`. -/
  getCount : Int64
  /-- `hitCount_`. -/
  hitCount : Int64
  /-- `missCount_`. -/
  missCount : Int64
  /-- `setCount_`. -/
  setCount : Int64
  /-- `deleteCount_`. -/
  deleteCount : Int64
  /-- The seconds since `startTime_`. -/
  uptimeSeconds : Int64
deriving DecidableEq, Repr

section

variable {δ : Type} (zero : δ) (ratio : Int64 → Int64 → δ)

/-- The flash statistics, as `getStats` reads them from the map. -/
def readNvm (stats : CacheStats δ) (nvmStats : List (String × Int64)) : CacheStats δ :=
  let stats := match nvmStats.lookup "navy_device_bytes_written" with
    | some bytes => { stats with nvmUsed := bytes, nvmDeviceBytesWritten := bytes }
    | none => stats
  let stats := match nvmStats.lookup "navy_device_bytes_read" with
    | some bytes => { stats with nvmDeviceBytesRead := bytes }
    | none => stats
  match nvmStats.lookup "navy_lookups", nvmStats.lookup "navy_succ_lookups" with
  | some gets, some hits => { stats with nvmHitCount := hits, nvmMissCount := gets - hits }
  | _, _ => stats

/-- `getStats`. There is no report when there is no cache. An exception leaves what has been filled
in before it. -/
def getStats (m : Loaded) (report : Option Report) : CacheStats δ :=
  let stats : CacheStats δ := { hitRate := zero, version := kServerVersion }
  match report with
  | none => stats
  | some report =>
    if report.throwsAt = some .cache then stats
    else
      let stats := { stats with totalSize := report.ramCacheSize.toInt64 }
      if report.throwsAt = some .pool then stats
      else
        let usedSize := (report.poolUsableSize - report.freeMemoryBytes).toInt64
        let stats := { stats with
          usedSize := if usedSize < 0 then 0 else usedSize
          itemCount := report.numItems.toInt64
          evictionCount := report.numEvictions.toInt64
          expiredCount := report.numCacheGetExpiries.toInt64
          getCount := m.getCount
          hitCount := m.hitCount
          missCount := m.missCount
          setCount := m.setCount
          deleteCount := m.deleteCount
          hitRate := if m.getCount > 0 then ratio m.hitCount m.getCount else zero
          nvmEnabled := m.enableNvm }
        if m.enableNvm then
          if report.throwsAt = some .nvm then stats
          else
            { readNvm { stats with nvmSize := m.nvmCacheSize.toInt64 } report.nvmStats with
              uptimeSeconds := m.uptimeSeconds }
        else { stats with uptimeSeconds := m.uptimeSeconds }

/-! ## `MetricsServer::generateMetrics` -/

/-- A metric that shows a whole number of the statistics. -/
structure Metric (δ : Type) where
  /-- Its name. -/
  name : String
  /-- What it shows. -/
  help : String
  /-- Its type. -/
  kind : String
  /-- The statistic that it shows. -/
  value : CacheStats δ → Int64

/-- The text of a metric. -/
def metricText (name help kind : String) (value : Bytes) : Bytes :=
  utf8 "# HELP " ++ utf8 name ++ utf8 " " ++ utf8 help ++ utf8 "\n" ++
    utf8 "# TYPE " ++ utf8 name ++ utf8 " " ++ utf8 kind ++ utf8 "\n" ++
    utf8 name ++ utf8 " " ++ value ++ utf8 "\n\n"

/-- The text of a metric for the statistics. -/
def Metric.text (metric : Metric δ) (stats : CacheStats δ) : Bytes :=
  metricText metric.name metric.help metric.kind (Decimal.ofInt (metric.value stats).toInt)

/-- The memory metrics and the operation counters. -/
def cacheMetrics : List (Metric δ) := [
  ⟨"cachelib_cache_size_bytes", "Total configured cache size in bytes.", "gauge",
    fun stats => stats.totalSize⟩,
  ⟨"cachelib_cache_used_bytes", "Currently used cache size in bytes.", "gauge",
    fun stats => stats.usedSize⟩,
  ⟨"cachelib_items_total", "Number of items currently in cache.", "gauge",
    fun stats => stats.itemCount⟩,
  ⟨"cachelib_gets_total", "Total number of GET operations.", "counter",
    fun stats => stats.getCount⟩,
  ⟨"cachelib_hits_total", "Total number of cache hits.", "counter",
    fun stats => stats.hitCount⟩,
  ⟨"cachelib_misses_total", "Total number of cache misses.", "counter",
    fun stats => stats.missCount⟩,
  ⟨"cachelib_sets_total", "Total number of SET operations.", "counter",
    fun stats => stats.setCount⟩,
  ⟨"cachelib_deletes_total", "Total number of DELETE operations.", "counter",
    fun stats => stats.deleteCount⟩,
  ⟨"cachelib_evictions_total", "Total number of evictions.", "counter",
    fun stats => stats.evictionCount⟩,
  ⟨"cachelib_expired_total", "Total number of expired items found during gets.", "counter",
    fun stats => stats.expiredCount⟩]

/-- The uptime. -/
def uptimeMetric : Metric δ :=
  ⟨"cachelib_uptime_seconds", "Server uptime in seconds.", "gauge",
    fun stats => stats.uptimeSeconds⟩

/-- The flash metrics. -/
def nvmMetrics : List (Metric δ) := [
  ⟨"cachelib_nvm_size_bytes", "NVM cache size in bytes.", "gauge",
    fun stats => stats.nvmSize⟩,
  ⟨"cachelib_nvm_used_bytes",
    "Legacy name: cumulative Navy device bytes written since startup, not occupied capacity.",
    "gauge", fun stats => stats.nvmUsed⟩,
  ⟨"cachelib_nvm_device_bytes_read_total",
    "Bytes read by Navy's device abstraction; file reads may hit the OS page cache.",
    "counter", fun stats => stats.nvmDeviceBytesRead⟩,
  ⟨"cachelib_nvm_device_bytes_written_total",
    "Bytes written by Navy's device abstraction, not physical NAND writes.",
    "counter", fun stats => stats.nvmDeviceBytesWritten⟩,
  ⟨"cachelib_nvm_hits_total", "NVM cache hit count.", "counter",
    fun stats => stats.nvmHitCount⟩,
  ⟨"cachelib_nvm_misses_total", "NVM cache miss count.", "counter",
    fun stats => stats.nvmMissCount⟩]

/-- The version, as the label of a metric that is always one. -/
def infoText (version : Bytes) : Bytes :=
  utf8 "# HELP cachelib_info CacheLib gRPC server version info.\n" ++
    utf8 "# TYPE cachelib_info gauge\n" ++
    utf8 "cachelib_info\x7bversion=\"" ++ version ++ utf8 "\"\x7d 1\n\n"

variable (format : δ → Bytes)

/-- `generateMetrics`. -/
def generateMetrics (stats : CacheStats δ) : Bytes :=
  cacheMetrics.flatMap (fun metric => metric.text stats) ++
    metricText "cachelib_hit_rate" "Cache hit rate (0.0 - 1.0)." "gauge" (format stats.hitRate) ++
    uptimeMetric.text stats ++
    infoText stats.version ++
    if stats.nvmEnabled then nvmMetrics.flatMap (fun metric => metric.text stats) else []

/-! ## `MetricsServer::handleConnection` -/

/-- The test on the request. -/
def wantsMetrics (request : Bytes) : Bool :=
  (utf8 "GET /metrics").isPrefixOf request || decide (utf8 "GET /metrics " <:+: request)

/-- The response with the metrics. -/
def metricsResponse (body : Bytes) : Bytes :=
  utf8 "HTTP/1.1 200 OK\r\n" ++ utf8 "Content-Type: text/plain; version=0.0.4; charset=utf-8\r\n" ++
    utf8 "Content-Length: " ++ Decimal.ofNat body.length ++ utf8 "\r\n" ++
    utf8 "Connection: close\r\n" ++ utf8 "\r\n" ++ body

/-- The response to any other request. -/
def notFound : Bytes :=
  utf8 "HTTP/1.1 404 Not Found\r\nContent-Length: 0\r\nConnection: close\r\n\r\n"

/-- `handleConnection`: what it writes, for what `read` gives it. Nothing is written when that is
nothing. -/
def handleConnection (stats : CacheStats δ) (request : Bytes) : Bytes :=
  if request = [] then []
  else if wantsMetrics request then metricsResponse (generateMetrics format stats)
  else notFound

/-! ## The scraper -/

/-- The statistics with their hit rate as it is written. -/
def CacheStats.written (stats : CacheStats δ) : CacheStats Bytes :=
  { stats with hitRate := format stats.hitRate }

/-- The whole number that a family shows. -/
def integerNamed (families : List Exposition.Family) (name : String) : Option Int64 :=
  match Exposition.valueNamed families (utf8 name) with
  | some text =>
    match Decimal.scan text with
    | some (z, n) =>
      if n = text.length ∧ (Int64.ofInt z).toInt = z then some (Int64.ofInt z) else none
    | none => none
  | none => none

/-- The version, from the label of `cachelib_info`. -/
def versionOf (families : List Exposition.Family) : Option Bytes :=
  match Exposition.familyNamed families (utf8 "cachelib_info") with
  | some f =>
    match f.samples with
    | [⟨[(name, value)], _⟩] => if name = utf8 "version" then some value else none
    | _ => none
  | none => none

/-- The flash statistics from the families of a text, into the other statistics. -/
def nvmOf (families : List Exposition.Family) (stats : CacheStats Bytes) :
    Option (CacheStats Bytes) := do
  let nvmSize ← integerNamed families "cachelib_nvm_size_bytes"
  let nvmUsed ← integerNamed families "cachelib_nvm_used_bytes"
  let nvmDeviceBytesRead ← integerNamed families "cachelib_nvm_device_bytes_read_total"
  let nvmDeviceBytesWritten ← integerNamed families "cachelib_nvm_device_bytes_written_total"
  let nvmHitCount ← integerNamed families "cachelib_nvm_hits_total"
  let nvmMissCount ← integerNamed families "cachelib_nvm_misses_total"
  pure { stats with
    nvmEnabled := true
    nvmSize, nvmUsed, nvmHitCount, nvmMissCount, nvmDeviceBytesRead, nvmDeviceBytesWritten }

/-- The statistics from the families of a text. -/
def statsOf (families : List Exposition.Family) : Option (CacheStats Bytes) := do
  let totalSize ← integerNamed families "cachelib_cache_size_bytes"
  let usedSize ← integerNamed families "cachelib_cache_used_bytes"
  let itemCount ← integerNamed families "cachelib_items_total"
  let getCount ← integerNamed families "cachelib_gets_total"
  let hitCount ← integerNamed families "cachelib_hits_total"
  let missCount ← integerNamed families "cachelib_misses_total"
  let setCount ← integerNamed families "cachelib_sets_total"
  let deleteCount ← integerNamed families "cachelib_deletes_total"
  let evictionCount ← integerNamed families "cachelib_evictions_total"
  let expiredCount ← integerNamed families "cachelib_expired_total"
  let hitRate ← Exposition.valueNamed families (utf8 "cachelib_hit_rate")
  let uptimeSeconds ← integerNamed families "cachelib_uptime_seconds"
  let version ← versionOf families
  let stats : CacheStats Bytes := {
    totalSize, usedSize, itemCount, getCount, hitCount, missCount, setCount, deleteCount,
    evictionCount, expiredCount, hitRate, uptimeSeconds, version }
  match Exposition.familyNamed families (utf8 "cachelib_nvm_size_bytes") with
  | some _ => nvmOf families stats
  | none => pure stats

/-- A scrape: the statistics in what was delivered of a response. -/
def scrape (delivered : Bytes) : Option (CacheStats Bytes) :=
  match Http.decode delivered with
  | some (first, body) =>
    if first = utf8 "HTTP/1.1 200 OK" then (Exposition.read body).bind statsOf else none
  | none => none

/-! ## The families of the text -/

/-- The family of a metric. -/
def family (name help kind : String) (value : Bytes) : Exposition.Family :=
  ⟨utf8 name, utf8 help, utf8 kind, [⟨[], value⟩]⟩

/-- The family that a scraper makes of it. -/
def Metric.family (metric : Metric δ) (stats : CacheStats δ) : Exposition.Family :=
  Metrics.family metric.name metric.help metric.kind (Decimal.ofInt (metric.value stats).toInt)

/-- The family of the version. -/
def infoFamily (version : Bytes) : Exposition.Family :=
  ⟨utf8 "cachelib_info", utf8 "CacheLib gRPC server version info.", utf8 "gauge",
    [⟨[(utf8 "version", version)], utf8 "1"⟩]⟩

/-- The families that every text has. -/
def baseFamilies (stats : CacheStats δ) : List Exposition.Family :=
  cacheMetrics.map (fun metric => metric.family stats) ++
    [family "cachelib_hit_rate" "Cache hit rate (0.0 - 1.0)." "gauge" (format stats.hitRate),
      uptimeMetric.family stats, infoFamily stats.version]

/-- The families of the text. -/
def families (stats : CacheStats δ) : List Exposition.Family :=
  baseFamilies format stats ++
    if stats.nvmEnabled then nvmMetrics.map (fun metric => metric.family stats) else []

/-- The text of a metric is that of its family. -/
theorem metricText_eq (name help kind : String) (value : Bytes) :
    metricText name help kind value = (family name help kind value).text := by
  have hhelp : utf8 "# HELP " = Exposition.helpMark := by decide
  have htype : utf8 "# TYPE " = Exposition.typeMark := by decide
  have hspace : utf8 " " = [32] := by decide
  have hline : utf8 "\n" = [10] := by decide
  have hend : utf8 "\n\n" = [10, 10] := by decide
  simp [metricText, family, Exposition.Family.text, Exposition.Family.lines, Exposition.linesText,
    Exposition.Line.text, Exposition.labelsText, hhelp, htype, hspace, hline, hend]

/-- So is the text of the version. -/
theorem infoText_eq (version : Bytes) : infoText version = (infoFamily version).text := by
  have hhead : utf8 "# HELP cachelib_info CacheLib gRPC server version info.\n" =
      Exposition.helpMark ++ utf8 "cachelib_info" ++ 32 ::
        (utf8 "CacheLib gRPC server version info." ++ [10]) := by decide
  have htype : utf8 "# TYPE cachelib_info gauge\n" =
      Exposition.typeMark ++ utf8 "cachelib_info" ++ 32 :: (utf8 "gauge" ++ [10]) := by decide
  have hopen : utf8 "cachelib_info\x7bversion=\"" =
      utf8 "cachelib_info" ++ 123 :: (utf8 "version" ++ [61, 34]) := by decide
  have hclose : utf8 "\"\x7d 1\n\n" = 34 :: 125 :: 32 :: (utf8 "1" ++ [10, 10]) := by decide
  simp [infoText, infoFamily, Exposition.Family.text, Exposition.Family.lines,
    Exposition.linesText, Exposition.Line.text, Exposition.labelsText, Exposition.labelText,
    Exposition.moreLabelsText, hhead, htype, hopen, hclose]

/-- The text is that of the families. -/
theorem generateMetrics_eq (stats : CacheStats δ) :
    generateMetrics format stats = (families format stats).flatMap Exposition.Family.text := by
  have htext : ∀ metrics : List (Metric δ), metrics.flatMap (fun metric => metric.text stats) =
      (metrics.map fun metric => metric.family stats).flatMap Exposition.Family.text := by
    intro metrics
    rw [List.flatMap_map]
    congr 1
    funext metric
    exact metricText_eq ..
  have huptime : uptimeMetric.text stats = (uptimeMetric.family stats).text := metricText_eq ..
  unfold generateMetrics families baseFamilies
  rw [htext, htext, metricText_eq, huptime, infoText_eq]
  -- With flash, the text and the families both go on with those of flash.
  split_ifs <;> simp

/-! ## The families are well-formed -/

/-- The metrics with whole numbers. -/
def integerMetrics : List (Metric δ) := cacheMetrics ++ uptimeMetric :: nvmMetrics

/-- The names, help texts, and types can be written. -/
theorem integerMetrics_wellFormed {metric : Metric δ} (h : metric ∈ integerMetrics) :
    Exposition.isName (utf8 metric.name) = true ∧
      (utf8 metric.help).all Exposition.isDocByte = true ∧
        utf8 metric.kind ∈ Exposition.kinds := by
  -- the texts do not depend on the type of doubles
  have htexts : (integerMetrics (δ := δ)).map (fun m => (m.name, m.help, m.kind)) =
      (integerMetrics (δ := Unit)).map (fun m => (m.name, m.help, m.kind)) := rfl
  have hall : ∀ x ∈ (integerMetrics (δ := Unit)).map (fun m => (m.name, m.help, m.kind)),
      Exposition.isName (utf8 x.1) = true ∧ (utf8 x.2.1).all Exposition.isDocByte = true ∧
        utf8 x.2.2 ∈ Exposition.kinds := by decide
  exact hall _ (htexts ▸ List.mem_map_of_mem h)

/-- A number in decimal can be written. -/
theorem isValue_ofInt (z : ℤ) : Exposition.isValue (Decimal.ofInt z) = true := by
  -- Digits lie above the space and the line feed, which are all that a value must not have.
  have hdigit : ∀ b, Decimal.isDigit b = true → Exposition.isValueByte b = true := by
    intro b hb
    have := Decimal.isDigit_iff.mp hb
    simp only [Exposition.isValueByte, Bool.and_eq_true, decide_eq_true_eq]
    constructor <;> (rintro rfl; simp at this)
  have hdigits : ∀ b ∈ Decimal.ofNat z.natAbs, Exposition.isValueByte b = true := fun b hb =>
    hdigit b (Decimal.isDigit_of_mem_ofNat hb)
  unfold Decimal.ofInt Exposition.isValue
  split_ifs
  · have hminus : Exposition.isValueByte Decimal.minus = true := by decide
    simp [hminus]
    exact hdigits
  · simp [Decimal.ofNat_ne_nil]
    exact hdigits

/-- The family of a metric can be read back. -/
theorem family_wellFormed {name help kind : String} {value : Bytes}
    (hname : Exposition.isName (utf8 name) = true)
    (hhelp : (utf8 help).all Exposition.isDocByte = true) (hkind : utf8 kind ∈ Exposition.kinds)
    (hvalue : Exposition.isValue value = true) : (family name help kind value).WellFormed where
  name := hname
  help := hhelp
  kind := hkind
  samples := by
    intro s hs
    obtain rfl := List.mem_singleton.mp hs
    exact ⟨by simp, hvalue⟩
  distinct := List.nodup_singleton _

/-- So can the version. -/
theorem infoFamily_wellFormed {version : Bytes}
    (h : version.all Exposition.isLabelByte = true) : (infoFamily version).WellFormed where
  name := show Exposition.isName (utf8 "cachelib_info") = true by decide
  help := show (utf8 "CacheLib gRPC server version info.").all Exposition.isDocByte = true by decide
  kind := show utf8 "gauge" ∈ Exposition.kinds by decide
  samples := by
    intro s hs
    obtain rfl := List.mem_singleton.mp hs
    refine ⟨?_, show Exposition.isValue (utf8 "1") = true by decide⟩
    intro l hl
    obtain rfl := List.mem_singleton.mp hl
    exact ⟨show Exposition.isName (utf8 "version") = true by decide, h⟩
  distinct := List.nodup_singleton _

/-- Every family of the text is the hit rate's, the version's, or that of a metric with whole
numbers. -/
theorem mem_families {stats : CacheStats δ} {f : Exposition.Family}
    (h : f ∈ families format stats) :
    (∃ metric ∈ integerMetrics, f = Metric.family metric stats) ∨
      f = family "cachelib_hit_rate" "Cache hit rate (0.0 - 1.0)." "gauge" (format stats.hitRate) ∨
        f = infoFamily stats.version := by
  simp only [families, baseFamilies, List.mem_append, List.mem_map, List.mem_cons,
    List.not_mem_nil, or_false, or_assoc] at h
  -- In the order of the text: the cache, the hit rate, the uptime, the version, flash.
  obtain ⟨metric, hmetric, rfl⟩ | rfl | rfl | rfl | h := h
  · exact .inl ⟨metric, List.mem_append_left _ hmetric, rfl⟩
  · exact .inr (.inl rfl)
  · exact .inl ⟨uptimeMetric, List.mem_append_right _ List.mem_cons_self, rfl⟩
  · exact .inr (.inr rfl)
  · split_ifs at h with hnvm
    · obtain ⟨metric, hmetric, rfl⟩ := List.mem_map.mp h
      exact .inl ⟨metric, List.mem_append_right _ (List.mem_cons_of_mem _ hmetric), rfl⟩
    · cases h

/-- The families can be written so that they are read back. -/
theorem families_wellFormed {stats : CacheStats δ}
    (hrate : Exposition.isValue (format stats.hitRate) = true)
    (hversion : stats.version.all Exposition.isLabelByte = true) :
    ∀ f ∈ families format stats, f.WellFormed := by
  intro f hf
  obtain ⟨metric, hmetric, rfl⟩ | rfl | rfl := mem_families format hf
  · obtain ⟨hname, hhelp, hkind⟩ := integerMetrics_wellFormed hmetric
    exact family_wellFormed hname hhelp hkind (isValue_ofInt _)
  · exact family_wellFormed (by decide) (by decide) (by decide) hrate
  · exact infoFamily_wellFormed hversion

/-- The names of the families that every text has. -/
def baseNames : List Bytes :=
  (cacheMetrics (δ := Unit)).map (fun metric => utf8 metric.name) ++
    [utf8 "cachelib_hit_rate", utf8 "cachelib_uptime_seconds", utf8 "cachelib_info"]

/-- The names of the flash families. -/
def nvmNames : List Bytes := (nvmMetrics (δ := Unit)).map fun metric => utf8 metric.name

/-- The names of the families, in order. -/
theorem names_families (stats : CacheStats δ) :
    (families format stats).map Exposition.Family.name =
      baseNames ++ if stats.nvmEnabled then nvmNames else [] := by
  unfold families
  rw [List.map_append]
  split_ifs <;> rfl

/-- No family stands in the text twice. -/
theorem nodup_families (stats : CacheStats δ) :
    ((families format stats).map Exposition.Family.name).Nodup := by
  rw [names_families]
  split_ifs
  · -- Two lists of constants: without the flash names, and with them.
    decide
  · decide

/-! ## The values are read back -/

/-- A family with one sample shows its value. -/
theorem valueNamed_families {stats : CacheStats δ} {name help kind : String} {value : Bytes}
    (h : family name help kind value ∈ families format stats) :
    Exposition.valueNamed (families format stats) (utf8 name) = some value := by
  have hfamily := Exposition.familyNamed_of_mem (nodup_families format stats) h
  have hname : (family name help kind value).name = utf8 name := rfl
  rw [hname] at hfamily
  rw [Exposition.valueNamed, hfamily]
  rfl

/-- A metric with whole numbers shows its number. -/
theorem integerNamed_families {stats : CacheStats δ} {metric : Metric δ}
    (h : metric.family stats ∈ families format stats) :
    integerNamed (families format stats) metric.name = some (metric.value stats) := by
  have hvalue := valueNamed_families format h
  simp only [integerNamed, hvalue, Decimal.scan_ofInt, Int64.ofInt_toInt, and_self, if_true]

/-- The version is read back from the families. -/
theorem versionOf_families (stats : CacheStats δ) :
    versionOf (families format stats) = some stats.version := by
  have hmem : infoFamily stats.version ∈ families format stats := by
    simp [families, baseFamilies]
  have hfamily := Exposition.familyNamed_of_mem (nodup_families format stats) hmem
  have hname : (infoFamily stats.version).name = utf8 "cachelib_info" := rfl
  rw [hname] at hfamily
  rw [versionOf, hfamily]
  rfl

/-- The flash statistics are those of a manager without flash. -/
def CacheStats.NoNvm (stats : CacheStats δ) : Prop :=
  stats.nvmSize = 0 ∧ stats.nvmUsed = 0 ∧ stats.nvmHitCount = 0 ∧ stats.nvmMissCount = 0 ∧
    stats.nvmDeviceBytesRead = 0 ∧ stats.nvmDeviceBytesWritten = 0

/-- The statistics are read back from their families. -/
theorem statsOf_families {stats : CacheStats δ} (hnvm : stats.nvmEnabled = false → stats.NoNvm) :
    statsOf (families format stats) = some (stats.written format) := by
  -- Each field is read from the family of its metric, which is in the text.
  have hcache : ∀ metric ∈ cacheMetrics (δ := δ),
      integerNamed (families format stats) metric.name = some (metric.value stats) := by
    intro metric hmetric
    refine integerNamed_families format ?_
    simp only [families, baseFamilies, List.mem_append, List.mem_map]
    exact .inl (.inl ⟨metric, hmetric, rfl⟩)
  have huptime : integerNamed (families format stats) "cachelib_uptime_seconds" =
      some stats.uptimeSeconds := by
    have hmem : uptimeMetric.family stats ∈ families format stats := by
      simp [families, baseFamilies]
    exact integerNamed_families format hmem
  have hrate : Exposition.valueNamed (families format stats) (utf8 "cachelib_hit_rate") =
      some (format stats.hitRate) := by
    have hmem : family "cachelib_hit_rate" "Cache hit rate (0.0 - 1.0)." "gauge"
        (format stats.hitRate) ∈ families format stats := by
      simp [families, baseFamilies]
    exact valueNamed_families format hmem
  simp only [cacheMetrics, List.forall_mem_cons] at hcache
  obtain ⟨h₁, h₂, h₃, h₄, h₅, h₆, h₇, h₈, h₉, h₁₀, -⟩ := hcache
  simp only [statsOf, h₁, h₂, h₃, h₄, h₅, h₆, h₇, h₈, h₉, h₁₀, hrate, huptime,
    versionOf_families format stats, Option.bind_eq_bind, Option.bind_some]
  cases henabled : stats.nvmEnabled with
  | false =>
    -- The scraper tells by this family that there is no flash, and leaves its fields zero.
    have hnone : Exposition.familyNamed (families format stats) (utf8 "cachelib_nvm_size_bytes") =
        none := by
      refine Exposition.familyNamed_eq_none ?_
      rw [names_families, henabled]
      decide
    obtain ⟨h₁, h₂, h₃, h₄, h₅, h₆⟩ := hnvm henabled
    rw [hnone]
    simp [CacheStats.written, henabled, h₁, h₂, h₃, h₄, h₅, h₆]
  | true =>
    have hmem : ∀ metric ∈ nvmMetrics (δ := δ), metric.family stats ∈ families format stats := by
      intro metric hmetric
      simp only [families, henabled, if_true, List.mem_append, List.mem_map]
      exact .inr ⟨metric, hmetric, rfl⟩
    have hsize := Exposition.familyNamed_of_mem (nodup_families format stats)
      (hmem _ List.mem_cons_self)
    have hread : ∀ metric ∈ nvmMetrics (δ := δ),
        integerNamed (families format stats) metric.name = some (metric.value stats) :=
      fun metric hmetric => integerNamed_families format (hmem metric hmetric)
    simp only [Metric.family, family] at hsize
    simp only [nvmMetrics, List.forall_mem_cons] at hread
    obtain ⟨h₁, h₂, h₃, h₄, h₅, h₆, -⟩ := hread
    simp [hsize, nvmOf, h₁, h₂, h₃, h₄, h₅, h₆, CacheStats.written, henabled]

/-- The statistics are read back from the text. -/
theorem read_generateMetrics {stats : CacheStats δ}
    (hrate : Exposition.isValue (format stats.hitRate) = true)
    (hversion : stats.version.all Exposition.isLabelByte = true)
    (hnvm : stats.nvmEnabled = false → stats.NoNvm) :
    (Exposition.read (generateMetrics format stats)).bind statsOf =
      some (stats.written format) := by
  rw [generateMetrics_eq, Exposition.read_text (families_wellFormed format hrate hversion)
    (nodup_families format stats), Option.bind_some, statsOf_families format hnvm]

/-! ## The statistics that are shown -/

/-- The flash statistics leave the version alone. -/
@[simp]
theorem version_readNvm (stats : CacheStats δ) (nvmStats : List (String × Int64)) :
    (readNvm stats nvmStats).version = stats.version := by
  unfold readNvm
  repeat' first | rfl | split

/-- They leave alone whether there are any. -/
@[simp]
theorem nvmEnabled_readNvm (stats : CacheStats δ) (nvmStats : List (String × Int64)) :
    (readNvm stats nvmStats).nvmEnabled = stats.nvmEnabled := by
  unfold readNvm
  repeat' first | rfl | split

/-- `getStats` gives the version of the server. -/
theorem version_getStats (m : Loaded) (report : Option Report) :
    (getStats zero ratio m report).version = kServerVersion := by
  unfold getStats
  repeat' first | split | simp

/-- `getStats` fills in the flash statistics only with the flag. -/
theorem noNvm_getStats (m : Loaded) (report : Option Report)
    (h : (getStats zero ratio m report).nvmEnabled = false) :
    (getStats zero ratio m report).NoNvm := by
  -- The paths of `getStats`: no cache, an exception at either place, and the flag.
  obtain _ | report := report
  · simp [getStats, CacheStats.NoNvm]
  by_cases hcache : report.throwsAt = some .cache
  · simp [getStats, hcache, CacheStats.NoNvm]
  by_cases hpool : report.throwsAt = some .pool
  · simp [getStats, hpool, CacheStats.NoNvm]
  by_cases henabled : m.enableNvm = true
  · have hflag : (getStats zero ratio m (some report)).nvmEnabled = true := by
      simp only [getStats, hcache, hpool, henabled, if_true, if_false]
      split_ifs <;> simp
    rw [hflag] at h
    cases h
  · simp [getStats, hcache, hpool, henabled, CacheStats.NoNvm]

/-! ## Responses -/

/-- The lines of the response with the metrics. -/
def okFields (n : ℕ) : List Bytes :=
  [utf8 "Content-Type: text/plain; version=0.0.4; charset=utf-8"] ++
    ("Content-Length".toUTF8.data.toList ++ 58 :: 32 :: Decimal.ofNat n) ::
      [utf8 "Connection: close"]

/-- The response is a head with the length of its body, and the body. -/
theorem metricsResponse_eq (body : Bytes) :
    metricsResponse body =
      Http.headText (utf8 "HTTP/1.1 200 OK" :: okFields body.length) ++ body := by
  have hstatus : utf8 "HTTP/1.1 200 OK\r\n" = utf8 "HTTP/1.1 200 OK" ++ [13, 10] := by decide
  have htype : utf8 "Content-Type: text/plain; version=0.0.4; charset=utf-8\r\n" =
      utf8 "Content-Type: text/plain; version=0.0.4; charset=utf-8" ++ [13, 10] := by decide
  have hlength : utf8 "Content-Length: " = "Content-Length".toUTF8.data.toList ++ [58, 32] := by
    decide
  have hclose : utf8 "Connection: close\r\n" = utf8 "Connection: close" ++ [13, 10] := by decide
  have hend : utf8 "\r\n" = [13, 10] := by decide
  simp [metricsResponse, Http.headText, okFields, hstatus, htype, hlength, hclose, hend]

/-- The announced length is the length of the body. -/
theorem contentLength_okFields (n : ℕ) : Http.contentLength (okFields n) = some n := by
  refine Http.contentLength_append ?_ n _
  decide

/-- The lines of the head are lines. -/
theorem okFields_lines (n : ℕ) :
    ∀ l ∈ utf8 "HTTP/1.1 200 OK" :: okFields n, l ≠ [] ∧ 13 ∉ l := by
  have hdigits : 13 ∉ Decimal.ofNat n := by
    intro hmem
    exact absurd (Decimal.isDigit_of_mem_ofNat hmem) (by decide)
  have hlength : 13 ∉ "Content-Length".toUTF8.data.toList ++ [58, 32] := by decide
  intro l hl
  simp only [okFields, List.mem_cons, List.mem_append, List.not_mem_nil, or_false] at hl
  -- The status, the type, the length with its digits, and the last field.
  obtain rfl | rfl | rfl | rfl := hl
  · decide
  · decide
  · refine ⟨by simp, fun hmem => ?_⟩
    rw [show 58 :: 32 :: Decimal.ofNat n = [58, 32] ++ Decimal.ofNat n from rfl,
      ← List.append_assoc, List.mem_append] at hmem
    exact hmem.elim hlength hdigits
  · decide

/-- What a broken connection delivers of the refusal is no statistics. -/
theorem scrape_notFound {delivered : Bytes} (h : delivered <+: notFound) :
    scrape delivered = none := by
  have hresponse : notFound =
      Http.headText (utf8 "HTTP/1.1 404 Not Found" ::
        [utf8 "Content-Length: 0", utf8 "Connection: close"]) ++ [] := by decide
  rw [hresponse] at h
  have hdecode := Http.decode_of_isPrefix (by decide) (by decide) h
  rw [scrape, hdecode]
  -- All of it came, and the status is not 200, or a part of it, and the head does not decode.
  split_ifs with hwhole
  · rfl
  · rfl

/-- What a broken connection delivers of the metrics is all of their text or nothing. -/
theorem scrape_metricsResponse {body delivered : Bytes} (h : delivered <+: metricsResponse body) :
    scrape delivered =
      if delivered = metricsResponse body then (Exposition.read body).bind statsOf else none := by
  rw [metricsResponse_eq] at h
  have hdecode := Http.decode_of_isPrefix (okFields_lines _) (contentLength_okFields _) h
  rw [← metricsResponse_eq body] at hdecode
  rw [scrape, hdecode]
  split_ifs with hwhole
  · rfl
  · rfl

/-- A scrape gets the statistics or nothing. For every state of the counters, every report of
CacheLib, and every request, and wherever the connection breaks off, it gets all of the statistics
that `getStats` gave if the request was for them and the response was delivered whole, and nothing
otherwise. -/
theorem scrape_delivered (hformat : ∀ d, Exposition.isValue (format d) = true) (m : Loaded)
    (report : Option Report) (request delivered : Bytes)
    (hdelivered : delivered <+: handleConnection format (getStats zero ratio m report) request) :
    scrape delivered =
      if wantsMetrics request ∧
          delivered = handleConnection format (getStats zero ratio m report) request then
        some ((getStats zero ratio m report).written format)
      else none := by
  have hversion : (getStats zero ratio m report).version.all Exposition.isLabelByte = true := by
    rw [version_getStats]
    decide
  have hread :=
    read_generateMetrics format (hformat _) hversion (noNvm_getStats zero ratio m report)
  generalize getStats zero ratio m report = stats at hdelivered hread ⊢
  unfold handleConnection at hdelivered ⊢
  by_cases hempty : request = []
  · subst hempty
    rw [if_pos rfl, List.prefix_nil] at hdelivered
    have hwants : wantsMetrics [] = false := by decide
    rw [hdelivered, hwants]
    rfl
  rw [if_neg hempty] at hdelivered ⊢
  cases hwants : wantsMetrics request with
  | false =>
    simp only [hwants, Bool.false_eq_true, if_false] at hdelivered
    simp [scrape_notFound hdelivered]
  | true =>
    simp only [hwants, if_true] at hdelivered
    rw [scrape_metricsResponse hdelivered, hread]
    simp

end

/-- One hit in two gets, on a connection that breaks off after forty bytes and on one that does not.
-/
theorem scrape_delivered_half :
    let format : ℚ → Bytes := fun d => if d = 1 / 2 then utf8 "0.5" else utf8 "0"
    let m : Loaded := ⟨false, 0, 2, 1, 1, 1, 0, 60⟩
    let report : Report := ⟨1024, 1, 0, 0, 512, 256, [], none⟩
    let stats := getStats 0 (fun a b => (a.toInt : ℚ) / b.toInt) m (some report)
    let response := handleConnection format stats (utf8 "GET /metrics HTTP/1.1\r\n\r\n")
    scrape (response.take 40) = none ∧
      (scrape response).map (fun s => (s.getCount, s.hitRate, s.usedSize)) =
        some (2, utf8 "0.5", 256) := by
  intro format m report stats response
  have hformat : ∀ d, Exposition.isValue (format d) = true := by
    intro d
    simp only [format]
    split_ifs
    · decide
    · decide
  have hwants : wantsMetrics (utf8 "GET /metrics HTTP/1.1\r\n\r\n") = true := by decide
  have hresponse : response = metricsResponse (generateMetrics format stats) := by
    simp only [response, handleConnection, hwants, if_true]
    rfl
  have hlong : 40 < response.length := by
    have htype :
        (utf8 "Content-Type: text/plain; version=0.0.4; charset=utf-8\r\n").length = 56 := by decide
    rw [hresponse]
    simp only [metricsResponse, List.length_append, htype]
    omega
  constructor
  · have hscrape := scrape_delivered 0 _ format hformat m (some report) _ _
      (List.take_prefix 40 response)
    rw [hscrape, if_neg]
    rintro ⟨-, hwhole⟩
    have hlength : (response.take 40).length = response.length := congrArg List.length hwhole
    rw [List.length_take] at hlength
    omega
  · have hscrape := scrape_delivered 0 _ format hformat m (some report) _ _
      (List.prefix_refl response)
    rw [hscrape, if_pos ⟨hwants, rfl⟩]
    simp [CacheStats.written, getStats, m, report, format]

end CacheServer.Metrics
