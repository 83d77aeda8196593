import CacheServer.Lib.Assoc
import CacheServer.Lib.Blocks
import CacheServer.Lib.Decimal
import CacheServer.Lib.Duplex
import CacheServer.Lib.Exposition
import CacheServer.Lib.Guarded
import CacheServer.Lib.History
import CacheServer.Lib.Http
import CacheServer.Lib.Interrupted
import CacheServer.Lib.LittleEndian
import CacheServer.Lib.Paging
import CacheServer.Lib.Regex
import CacheServer.Lib.Regions
import CacheServer.Lib.Runs
import CacheServer.Lib.Serial
import CacheServer.Lib.Tags
import CacheServer.Lib.Transducer
import CacheServer.Lib.TtlMap
import CacheServer.Lib.Wire
import CacheServer.Lib.WorkQueue
import CacheServer.Manager.CacheLib
import CacheServer.Manager.Integer
import CacheServer.Manager.Operations
import CacheServer.Manager.Calls
import CacheServer.Manager.Frame
import CacheServer.Manager.Atomicity
import CacheServer.Manager.Interference
import CacheServer.Manager.Counter
import CacheServer.Manager.Expiry
import CacheServer.Manager.RateLimit
import CacheServer.Manager.Stats
import CacheServer.Manager.Lookup
import CacheServer.Manager.Glob
import CacheServer.Manager.GlobLanguage
import CacheServer.Manager.Scan
import CacheServer.Manager.ReadPaths
import CacheServer.Manager.Refinement
import CacheServer.Manager.Linearizable
import CacheServer.Manager.Leases
import CacheServer.Manager.Versions
import CacheServer.Manager.Tallies
import CacheServer.Manager.Wellformed
import CacheServer.Manager.Flush
import CacheServer.Service.Handlers
import CacheServer.Service.Conditional
import CacheServer.Service.Pipeline
import CacheServer.Service.Ttl
import CacheServer.Service.Pagination
import CacheServer.Service.Batch
import CacheServer.Service.Transport
import CacheServer.Service.Metrics
import CacheServer.Service.FuzzTarget
import CacheServer.Service.Administration
import CacheServer.Service.Lifecycle
import CacheServer.Bench.Campaign
import CacheServer.Bench.Validation
import CacheServer.Bench.Comparison
import CacheServer.Bench.Readme
import CacheServer.Bench.Markers
import CacheServer.Bench.Brackets
import CacheServer.Bench.Generators
import CacheServer.Bench.Load
import CacheServer.Bench.Draws
import CacheServer.Bench.OnePass
import CacheServer.Bench.Offered
import CacheServer.Bench.PipelineClient
import CacheServer.Bench.Media
import CacheServer.Bench.ReadThrough
