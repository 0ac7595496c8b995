import Oxillama.Lib.Run
import Oxillama.Lib.Usize
import Oxillama.Scheduler.Model
import Oxillama.Scheduler.Moves
import Oxillama.Scheduler.Bookkeeping
import Oxillama.Scheduler.Prefill
import Oxillama.Scheduler.Finish
import Oxillama.Scheduler.Limits
import Oxillama.Scheduler.Fairness
import Oxillama.Grammar.Parser
import Oxillama.Grammar.Scanning
import Oxillama.Grammar.Tokens
import Oxillama.Grammar.Texts
import Oxillama.Lib.Backtrack
import Oxillama.Grammar.Machine
import Oxillama.Grammar.Reading
import Oxillama.Grammar.Language
import Oxillama.Grammar.Decoding
import Oxillama.Gguf.Store
import Oxillama.Lib.Bytes
import Oxillama.Gguf.Reader
import Oxillama.Gguf.Parser
import Oxillama.Gguf.ReaderCore
import Oxillama.Gguf.Streaming
import Oxillama.Gguf.Agreement
import Oxillama.Gguf.Access
import Oxillama.Gguf.Writer
import Oxillama.Gguf.Format
import Oxillama.Gguf.RoundTrip
import Oxillama.Gguf.DataWriter
import Oxillama.Gguf.WrittenFile
import Oxillama.Gguf.Payload
import Oxillama.Gguf.Delivery
import Oxillama.Lib.PrefixRows
import Oxillama.Kv.Access
import Oxillama.Kv.RadixNode
import Oxillama.Kv.PrefixCache
import Oxillama.Kv.RadixRows
import Oxillama.Kv.RadixUpdates
import Oxillama.Kv.Eviction
import Oxillama.Kv.PrefixMap
import Oxillama.Lib.RowBuffer
import Oxillama.Kv.Storage
import Oxillama.Kv.KvCache
import Oxillama.Kv.KvInvariant
import Oxillama.Kv.History
import Oxillama.Kv.NoStaleRows
import Oxillama.Kv.Paged
import Oxillama.Kv.PagedAgreement
import Oxillama.Lib.Scanner
import Oxillama.Lib.Utf8
import Oxillama.Lib.Json
import Oxillama.Lib.JsonLanguage
import Oxillama.Stream.Utf8Decoder
import Oxillama.Lib.StopWords
import Oxillama.Lib.Str
import Oxillama.Stream.StopBuffer
import Oxillama.Stream.Chunking
import Oxillama.Lib.Draw
import Oxillama.Speculative.Sampling
import Oxillama.Speculative.Round
import Oxillama.Speculative.Rollback
import Oxillama.Speculative.FirstToken
import Oxillama.Speculative.Law
import Oxillama.Schema.Value
import Oxillama.Schema.Compiler
import Oxillama.Schema.Shape
import Oxillama.Schema.Parsed
import Oxillama.Schema.Good
import Oxillama.Schema.Sound
import Oxillama.Schema.JsonOutput
import Oxillama.Gguf.Loader
import Oxillama.Gguf.Safetensors
import Oxillama.Gguf.Import
import Oxillama.Lib.F32
import Oxillama.Quant.Q3K
import Oxillama.Quant.Q3KCodes
import Oxillama.Quant.Kernels
import Oxillama.Quant.FusedDot
import Oxillama.Quant.KQuantPacking
import Oxillama.Speculative.Snapshot
import Oxillama.Speculative.SnapshotSafety
import Oxillama.Lib.Blocks
import Oxillama.Gguf.QuantizeOnLoad
import Oxillama.Gguf.QuantizedRows
import Oxillama.Gguf.PlanContract
import Oxillama.Lib.ExactFloat
import Oxillama.Lib.Extended
import Oxillama.Lib.While
import Oxillama.Runtime.FlashAttention
import Oxillama.Lib.OnlineSoftmax
import Oxillama.Runtime.ExactAttention
import Oxillama.Arch.Lora
import Oxillama.Arch.LoraStack
import Oxillama.Arch.Moe
import Oxillama.Arch.MoeHistory
import Oxillama.Arch.QuantMoeHistory
import Oxillama.Lib.Channel
import Oxillama.Server.CacheNamespace
import Oxillama.Server.Usage
import Oxillama.Server.RunStream
import Oxillama.Server.ChatStream
import Oxillama.Server.NoGaps
import Oxillama.Runtime.BatchedAttention
import Oxillama.Runtime.ChatTemplate
import Oxillama.Runtime.ToolDetection
import Oxillama.Vocab.Symbols
import Oxillama.Vocab.Merge
import Oxillama.Vocab.ByteLevel
import Oxillama.Vocab.GgufVocab
import Oxillama.Vocab.Pretok
import Oxillama.Lib.GreedyMerge
import Oxillama.Vocab.Bpe
import Oxillama.Vocab.Spm
import Oxillama.Vocab.Lossless
import Oxillama.Vocab.ControlTokens
import Oxillama.Kv.Visible
import Oxillama.Kv.PureForward
import Oxillama.Runtime.PrefixPriming
import Oxillama.Runtime.PrefixReuse
import Oxillama.Lib.Recency
import Oxillama.Offload.LayerPager
import Oxillama.Offload.PagerThreads
import Oxillama.Lib.BoundedStore
import Oxillama.Server.LruQueue
import Oxillama.Server.KeyStores
import Oxillama.Server.ModelPool
import Oxillama.Server.PoolCounts
import Oxillama.Assistants.RunWorker
import Oxillama.Assistants.RunFinality
import Oxillama.Assistants.RunMessages
import Oxillama.Batch.Spool
import Oxillama.Batch.Accounting
import Oxillama.Batch.Cancellation
import Oxillama.Server.LoraWorker
import Oxillama.Server.AdapterIsolation
import Oxillama.Speculative.SnapshotRoundTrip
import Oxillama.Gguf.Resume
import Oxillama.Gguf.Integrity
import Oxillama.Lib.Fields
import Oxillama.Lib.Scatter
import Oxillama.Lib.FreeList
import Oxillama.Runtime.KvPool
import Oxillama.Runtime.SequencePool
import Oxillama.Server.LoraCleanup
import Oxillama.Grammar.Completion
import Oxillama.Grammar.Denotes
import Oxillama.Schema.Constants
import Oxillama.Schema.Inlining
import Oxillama.Schema.Languages
import Oxillama.Schema.Bounded
import Oxillama.Schema.Parallel
import Oxillama.Schema.Splices
import Oxillama.Grammar.Closed
import Oxillama.Schema.Deserialize
import Oxillama.Server.Tools
import Oxillama.Server.ToolRules
import Oxillama.Server.ToolSentences
import Oxillama.Server.ToolCalls
import Oxillama.Speculative.AsyncDecoder
import Oxillama.Speculative.AsyncConsistency
import Oxillama.Sampling.Sampler
import Oxillama.Kv.Alike
import Oxillama.Runtime.Session
import Oxillama.Runtime.SessionResume
import Oxillama.Sampling.Mask
import Oxillama.Vocab.MergeOrder
import Oxillama.Vocab.Specials
import Oxillama.Sampling.Dry
import Oxillama.Runtime.BeamSearch
import Oxillama.Runtime.EarlyStopping
import Oxillama.Runtime.ToolSafety
import Oxillama.Kv.Writes
import Oxillama.Runtime.DecodeLoop
import Oxillama.Server.PoolEviction
import Oxillama.Lib.Metered
import Oxillama.Server.TokenBucket
import Oxillama.Runtime.ConstrainedLoop
import Oxillama.Arch.ConvChunks
import Oxillama.Arch.Mamba2
import Oxillama.Arch.SequenceState
import Oxillama.Arch.SnapshotContinuation
import Oxillama.Arch.Dequant
import Oxillama.Gguf.ShardNames
import Oxillama.Cli.TypeSelect
import Oxillama.Cli.QuantizePlan
import Oxillama.Gguf.Growth
import Oxillama.Wasm.TensorCache
import Oxillama.Wasm.StreamingLoader
import Oxillama.Wasm.ReadTensor
import Oxillama.Gguf.ShardedModel
import Oxillama.Server.Responses
import Oxillama.Server.WsStream
