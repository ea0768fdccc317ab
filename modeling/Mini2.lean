import Mini2.Node.Abort
import Mini2.Node.Coverage
import Mini2.Node.Executions
import Mini2.Node.Upstream
import Mini2.Node.Completeness
import Mini2.Node.Collected
import Mini2.Node.Portal
import Mini2.Node.Duplicates
import Mini2.Node.Unreachable
import Mini2.Node.CancelRace
import Mini2.Node.ProducerOrder
import Mini2.Node.CancelEffect
import Mini2.Node.MaxRows
import Mini2.Node.Expiry
import Mini2.Node.Quiescence
import Mini2.Node.Tree
import Mini2.Node.ExactAnswer
import Mini2.Node.ClientProgress
import Mini2.Portal.BufferMonitor
import Mini2.Node.ClusterAnswer
import Mini2.Node.RawDataset
import Mini2.Node.HandlerActions
import Mini2.Framework.Postings
import Mini2.Store.Grid
import Mini2.Python.Plan
import Mini2.Query.GeoBox
import Mini2.Portal.QueryCache
import Mini2.Node.CacheReplay
import Mini2.Node.ServedResult
import Mini2.Portal.FinalStable
import Mini2.Portal.CacheLru
import Mini2.Portal.Pacing
import Mini2.Query.CacheKey
import Mini2.Query.ChunkProtocol
import Mini2.Python.BoundedBuffer
import Mini2.Python.RequestState
import Mini2.Node.PythonPortal
import Mini2.Python.EnginesAgree
import Mini2.Python.Load
import Mini2.Python.PartitionData
import Mini2.Python.LoadersAgree
import Mini2.Python.ParsersAgree
