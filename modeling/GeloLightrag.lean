import GeloLightrag.Aloepri.Alg2
import GeloLightrag.Aloepri.Bf16
import GeloLightrag.Aloepri.Cancellation
import GeloLightrag.Aloepri.Covariance
import GeloLightrag.Aloepri.Equivalence
import GeloLightrag.Aloepri.Gguf
import GeloLightrag.Aloepri.Passes
import GeloLightrag.Aloepri.PreNorms
import GeloLightrag.Aloepri.Preservation
import GeloLightrag.Aloepri.Qwen3
import GeloLightrag.Aloepri.Rewriters
import GeloLightrag.Aloepri.Shapes
import GeloLightrag.Attestation.Binding
import GeloLightrag.Attestation.Verify
import GeloLightrag.Chunker.Coverage
import GeloLightrag.Chunker.Progress
import GeloLightrag.Chunker.TokenBased
import GeloLightrag.Compass.Codec
import GeloLightrag.Compass.Construction
import GeloLightrag.Compass.Descent
import GeloLightrag.Compass.Encrypted
import GeloLightrag.Compass.Exactness
import GeloLightrag.Compass.Hints
import GeloLightrag.Compass.HnswInvariant
import GeloLightrag.Compass.HnswPlain
import GeloLightrag.Compass.Index
import GeloLightrag.Compass.Nested
import GeloLightrag.Compass.Ranked
import GeloLightrag.Compass.Reachability
import GeloLightrag.Compass.Search
import GeloLightrag.Compass.StructuralInvariant
import GeloLightrag.Compass.Walks
import GeloLightrag.Embedder.Decoder.Attention
import GeloLightrag.Embedder.Decoder.Layers
import GeloLightrag.Embedder.Decoder.Windows
import GeloLightrag.Embedder.Generation
import GeloLightrag.Embedder.KvAtomicity
import GeloLightrag.Embedder.KvCache
import GeloLightrag.Embedder.KvRefinement
import GeloLightrag.Embedder.KvRows
import GeloLightrag.Extract.Extraction
import GeloLightrag.Extract.Merging
import GeloLightrag.Extract.Orchestrator
import GeloLightrag.Extract.Parser
import GeloLightrag.Extract.RoundTrip
import GeloLightrag.Extract.Surplus
import GeloLightrag.Foundation.Aead
import GeloLightrag.Foundation.Agreement
import GeloLightrag.Foundation.Angles
import GeloLightrag.Foundation.Array2
import GeloLightrag.Foundation.Array3
import GeloLightrag.Foundation.Bfloat16
import GeloLightrag.Foundation.Binary32
import GeloLightrag.Foundation.BinaryHeap
import GeloLightrag.Foundation.Bytes
import GeloLightrag.Foundation.Checked
import GeloLightrag.Foundation.CompleteTree
import GeloLightrag.Foundation.Cosine
import GeloLightrag.Foundation.Cuckoo
import GeloLightrag.Foundation.Digest
import GeloLightrag.Foundation.Frame
import GeloLightrag.Foundation.Grid
import GeloLightrag.Foundation.HashTable
import GeloLightrag.Foundation.HeapOrder
import GeloLightrag.Foundation.Hkdf
import GeloLightrag.Foundation.Ieee
import GeloLightrag.Foundation.InPlace
import GeloLightrag.Foundation.Interleaving
import GeloLightrag.Foundation.Inventory
import GeloLightrag.Foundation.Linearization
import GeloLightrag.Foundation.Literals
import GeloLightrag.Foundation.Loop
import GeloLightrag.Foundation.Machine
import GeloLightrag.Foundation.Mirroring
import GeloLightrag.Foundation.Noting
import GeloLightrag.Foundation.Observation
import GeloLightrag.Foundation.OrderedTable
import GeloLightrag.Foundation.Orthonormal
import GeloLightrag.Foundation.Proximity
import GeloLightrag.Foundation.QrFactor
import GeloLightrag.Foundation.Ranking
import GeloLightrag.Foundation.ResidualStream
import GeloLightrag.Foundation.Rows
import GeloLightrag.Foundation.SeededRng
import GeloLightrag.Foundation.Softmax
import GeloLightrag.Foundation.Splitting
import GeloLightrag.Foundation.Text
import GeloLightrag.Foundation.Utf8
import GeloLightrag.Foundation.Walsh
import GeloLightrag.Foundation.WalshMatrix
import GeloLightrag.Gelo.Attention
import GeloLightrag.Gelo.Dct4
import GeloLightrag.Gelo.Dct4Exact
import GeloLightrag.Gelo.Dct4Tiles
import GeloLightrag.Gelo.Exact
import GeloLightrag.Gelo.Executor
import GeloLightrag.Gelo.Frame
import GeloLightrag.Gelo.Haar
import GeloLightrag.Gelo.HaarFactor
import GeloLightrag.Gelo.Hd3
import GeloLightrag.Gelo.Hd3Operator
import GeloLightrag.Gelo.Hd3Passes
import GeloLightrag.Gelo.Hiding
import GeloLightrag.Gelo.Integrity
import GeloLightrag.Gelo.Mask
import GeloLightrag.Gelo.NonFinite
import GeloLightrag.Gelo.OutAttnMult
import GeloLightrag.Gelo.Parity
import GeloLightrag.Gelo.PermutedExact
import GeloLightrag.Gelo.Recorded
import GeloLightrag.Gelo.Recovery
import GeloLightrag.Gelo.ReferenceRuntime
import GeloLightrag.Gelo.Sessions
import GeloLightrag.Gelo.Shield
import GeloLightrag.Gelo.ShieldRows
import GeloLightrag.Gelo.Snp
import GeloLightrag.Gelo.Soundness
import GeloLightrag.Gelo.Trusted
import GeloLightrag.Gelo.Verified
import GeloLightrag.GeloRag.Atomicity
import GeloLightrag.GeloRag.Refinement
import GeloLightrag.GeloRag.Requests
import GeloLightrag.GeloRag.Service
import GeloLightrag.Keying.SchemeIdentity
import GeloLightrag.Keying.Separation
import GeloLightrag.Keying.TwoPartyKdf
import GeloLightrag.KgStore.Adjacency
import GeloLightrag.KgStore.BlockIds
import GeloLightrag.KgStore.ChunkStore
import GeloLightrag.KgStore.Gathering
import GeloLightrag.KgStore.Hits
import GeloLightrag.KgStore.PlainQuery
import GeloLightrag.KgStore.Query
import GeloLightrag.KgStore.Refinement
import GeloLightrag.KgStore.Standing
import GeloLightrag.KgStore.Store
import GeloLightrag.KgStore.Types
import GeloLightrag.KgStore.Values
import GeloLightrag.RagCore.Faithful
import GeloLightrag.RagCore.Schemes
import GeloLightrag.RagCore.Storage
import GeloLightrag.Reranker.CausalDiscriminator
import GeloLightrag.Reranker.Hostile
import GeloLightrag.Reranker.Open
import GeloLightrag.Reranker.Payload
import GeloLightrag.Reranker.Prompt
import GeloLightrag.Reranker.Rerank
import GeloLightrag.Reranker.TopK
import GeloLightrag.Reranker.Truncation
import GeloLightrag.Reranker.WireShape
import GeloLightrag.RestBackend.Isolation
import GeloLightrag.RestBackend.Server
import GeloLightrag.RestBackend.Writers
import GeloLightrag.RingOram.Answers
import GeloLightrag.RingOram.Backend
import GeloLightrag.RingOram.Client
import GeloLightrag.RingOram.Codec
import GeloLightrag.RingOram.Copies
import GeloLightrag.RingOram.Creation
import GeloLightrag.RingOram.Eviction
import GeloLightrag.RingOram.Faults
import GeloLightrag.RingOram.Flushing
import GeloLightrag.RingOram.Geometry
import GeloLightrag.RingOram.Invariant
import GeloLightrag.RingOram.Nonces
import GeloLightrag.RingOram.Oblivious
import GeloLightrag.RingOram.Operations
import GeloLightrag.RingOram.PathAccess
import GeloLightrag.RingOram.Placement
import GeloLightrag.RingOram.Public
import GeloLightrag.RingOram.Readmission
import GeloLightrag.RingOram.Refinement
import GeloLightrag.RingOram.Sealings
import GeloLightrag.RingOram.Stash
import GeloLightrag.RingOram.Steps
import GeloLightrag.RingOram.Tree
import GeloLightrag.RingOram.Treetop
import GeloLightrag.TwoParty.History
import GeloLightrag.TwoParty.Linearizable
import GeloLightrag.TwoParty.Service
import GeloLightrag.TwoParty.Shelves
import GeloLightrag.XorMm.Bucket
import GeloLightrag.XorMm.Client
import GeloLightrag.XorMm.Lookups
import GeloLightrag.XorMm.Multimap
import GeloLightrag.XorMm.VolumeHiding
