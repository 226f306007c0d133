import Sodl.Effect.Prog
import Sodl.Effect.Runs
import Sodl.Effect.Follow
import Sodl.Data.Table
import Sodl.Core
import Sodl.Chunk.Manifest
import Sodl.Platform
import Sodl.Cas
import Sodl.Records
import Sodl.Index
import Sodl.Stores
import Sodl.Crypto
import Sodl.Chunk.Chunker
import Sodl.Chunk.Pipeline
import Sodl.Proof
import Sodl.Service
import Sodl.Effects
import Sodl.History
import Sodl.BlobRefs
import Sodl.Data.Codec
import Sodl.Sample
import Sodl.Gc
import Sodl.Retention
import Sodl.Api
import Sodl.ApiRuns
import Sodl.LivePayloads
import Sodl.OriginRefs
import Sodl.Persist
import Sodl.Backends
import Sodl.WellFormed
import Sodl.Readback
import Sodl.Effect.Fault
import Sodl.Failures
import Sodl.Effect.Pool
import Sodl.Tasks
import Sodl.Concurrent
import Sodl.CreateOrigin
import Sodl.Listing
import Sodl.Planning
import Sodl.ShareProofs
import Sodl.Data.Lines
import Sodl.LineageBinding
import Sodl.Provenance
import Sodl.Resolution
import Sodl.Audit
import Sodl.Executor
import Sodl.Repair
import Sodl.HealthyRecords
import Sodl.Durability
import Sodl.Data.Paths
import Sodl.BlobPaths
import Sodl.Fetch
import Sodl.FetchSources
import Sodl.Optimizer.Store
import Sodl.Optimizer.Names
import Sodl.Optimizer.Methods
import Sodl.Optimizer.Calls
import Sodl.Optimizer.Alone
import Sodl.Optimizer.Sessions
import Sodl.Optimizer.Quiet
import Sodl.Python.OffloadOptimizer
import Sodl.Python.OffloadRuns
import Sodl.Optimizer.FailedFlush
import Sodl.Checkpoint.Registry
import Sodl.Checkpoint.Trail
import Sodl.Checkpoint.Consistent
import Sodl.Checkpoint.Ids
import Sodl.Checkpoint.Alone
import Sodl.Checkpoint.Runs
import Sodl.Checkpoint.Numbers
import Sodl.Data.Tally
import Sodl.Tokenizer.Bpe
import Sodl.Tokenizer.Turns
import Sodl.Tokenizer.Vocabulary
import Sodl.Tokenizer.Naive
import Sodl.Tokenizer.Reproducible
import Sodl.PinStores
import Sodl.Data.Utf8
import Sodl.PythonProof
import Sodl.Data.Lowest
import Sodl.Weights.Registry
import Sodl.Weights.Capacity
import Sodl.Weights.PythonRegistry
import Sodl.Weights.Service
import Sodl.Weights.Transparent
import Sodl.Weights.Watched
import Sodl.Weights.Concurrent
import Sodl.Checkpoint.GivenUp
import Sodl.Weights.Manifests
import Sodl.Optimizer.GivenUp
import Sodl.Optimizer.Deadlock
import Sodl.SharedBlobs
import Sodl.Chunk.FastCdc
import Sodl.Chunk.Boundaries
import Sodl.Chunk.Lossless
import Sodl.Volume
import Sodl.FsPuts
import Sodl.PutGet
import Sodl.Python.Store
import Sodl.Python.Consistency
import Sodl.Python.Federation
import Sodl.Data.Alike
import Sodl.Python.Nodes
import Sodl.Data.Dict
import Sodl.Python.Pulsar
import Sodl.TokenHash.Exports
import Sodl.Python.Artifacts
import Sodl.Python.ArtifactRuns
import Sodl.LineageOrder
import Sodl.Rounds
import Sodl.Data.Hex
import Sodl.MasterKey
import Sodl.Python.Keyring
import Sodl.Data.JsonText
import Sodl.Python.Reuse
import Sodl.Data.TopK
import Sodl.Python.VectorIndex
import Sodl.Weights.Shards
import Sodl.Data.Ascent
import Sodl.Checkpoint.Commit
import Sodl.Checkpoint.Lineage
import Sodl.Checkpoint.Failed
import Sodl.Checkpoint.Concurrent
import Sodl.Checkpoint.Log
import Sodl.Checkpoint.NativeLog
import Sodl.Python.Checkpoints
import Sodl.Data.Bisect
import Sodl.Data.OrderedDict
import Sodl.Data.Stride
import Sodl.Python.Dataset
import Sodl.Data.LittleEndian
import Sodl.PolarQuant
import Sodl.Data.Quantize
import Sodl.Data.Records
import Sodl.Python.CompactQ8
import Sodl.Python.WeightCompress
import Sodl.Python.Prefetcher
import Sodl.Data.Scatter
import Sodl.TokenHash.Rebalance
import Sodl.TokenHash.ClusteredSoftmax
import Sodl.Python.LocalBlobs
import Sodl.Python.Quorum
import Sodl.Checkpoint.Staged
import Sodl.Checkpoint.StagedRuns
import Sodl.Optimizer.Order
