import SmolVlm2Kv260.Process.Basic
import SmolVlm2Kv260.Process.Trace
import SmolVlm2Kv260.Process.Network
import SmolVlm2Kv260.Process.Balance
import SmolVlm2Kv260.Process.Blocks
import SmolVlm2Kv260.Process.Fallible
import SmolVlm2Kv260.Memory.Cells
import SmolVlm2Kv260.Memory.Slices
import SmolVlm2Kv260.Memory.Grid
import SmolVlm2Kv260.Memory.Buckets
import SmolVlm2Kv260.Memory.Registers
import SmolVlm2Kv260.Arith.Levels
import SmolVlm2Kv260.Arith.OrderStatistics
import SmolVlm2Kv260.Arith.Interpolation
import SmolVlm2Kv260.Text.Search
import SmolVlm2Kv260.Text.Quoted
import SmolVlm2Kv260.Text.Decimal
import SmolVlm2Kv260.Validation.Report
import SmolVlm2Kv260.Validation.Py
import SmolVlm2Kv260.Validation.Dumps
import SmolVlm2Kv260.Kernel.Common
import SmolVlm2Kv260.Kernel.ApproxMath
import SmolVlm2Kv260.Kernel.Gemm
import SmolVlm2Kv260.Kernel.UnifiedGemm
import SmolVlm2Kv260.Kernel.PackedMac
import SmolVlm2Kv260.Kernel.Bridge
import SmolVlm2Kv260.Kernel.Vit
import SmolVlm2Kv260.Kernel.Rope
import SmolVlm2Kv260.Kernel.Attention
import SmolVlm2Kv260.Kernel.MultiHead
import SmolVlm2Kv260.Kernel.HeadOrder
import SmolVlm2Kv260.Kernel.KvStore
import SmolVlm2Kv260.Kernel.KvRoundTrip
import SmolVlm2Kv260.Kernel.QuantSound
import SmolVlm2Kv260.Kernel.KvOrder
import SmolVlm2Kv260.Kernel.Scores
import SmolVlm2Kv260.Kernel.OnlineSoftmax
import SmolVlm2Kv260.Kernel.TwoPass
import SmolVlm2Kv260.Kernel.RmsNorm
import SmolVlm2Kv260.Kernel.RopeExact
import SmolVlm2Kv260.Kernel.GemmRange
import SmolVlm2Kv260.Kernel.VitSoftmax
import SmolVlm2Kv260.Kernel.BridgeInt
import SmolVlm2Kv260.Kernel.PixelShuffle
import SmolVlm2Kv260.Kernel.RsqrtAccuracy
import SmolVlm2Kv260.Kernel.SinSymmetry
import SmolVlm2Kv260.Kernel.ApproxRegisters
import SmolVlm2Kv260.Validation.Approximations
import SmolVlm2Kv260.Dataflow.QuantGemm
import SmolVlm2Kv260.Dataflow.SoundQuant
import SmolVlm2Kv260.Dataflow.RopeAttention
import SmolVlm2Kv260.Dataflow.DecoderLayer
import SmolVlm2Kv260.Dataflow.Requant
import SmolVlm2Kv260.Export.Rtn
import SmolVlm2Kv260.Export.Bundle
import SmolVlm2Kv260.Export.WeightLayout
import SmolVlm2Kv260.Export.MatrixFile
import SmolVlm2Kv260.Export.VisionLayout
import SmolVlm2Kv260.Export.LmheadLayout
import SmolVlm2Kv260.Export.Fidelity
import SmolVlm2Kv260.Export.OfflineRtn
import SmolVlm2Kv260.Export.AwqFold
import SmolVlm2Kv260.Export.Checker
import SmolVlm2Kv260.Export.CheckerSlices
import SmolVlm2Kv260.Export.Manifest
import SmolVlm2Kv260.FakeQuant.Formats
import SmolVlm2Kv260.FakeQuant.Idempotent
import SmolVlm2Kv260.FakeQuant.BlockFloat
import SmolVlm2Kv260.FakeQuant.ZerosStay
import SmolVlm2Kv260.Pipeline.PruneHead
import SmolVlm2Kv260.Pipeline.PruneMlp
import SmolVlm2Kv260.Pipeline.Splits
import SmolVlm2Kv260.Ggml.Sidecar
import SmolVlm2Kv260.Ggml.Q8Export
import SmolVlm2Kv260.Ggml.MulMat
import SmolVlm2Kv260.Host.Runner
import SmolVlm2Kv260.Host.DecodeStep
import SmolVlm2Kv260.Host.LayerChain
import SmolVlm2Kv260.Host.FreshReads
import SmolVlm2Kv260.Host.RowBounds
import SmolVlm2Kv260.Host.Gamma
import SmolVlm2Kv260.Host.Artifacts
import SmolVlm2Kv260.Host.ManifestParser
import SmolVlm2Kv260.Host.ManifestStrings
import SmolVlm2Kv260.Host.ManifestRoundTrip
import SmolVlm2Kv260.Host.ManifestMissing
import SmolVlm2Kv260.Host.Prefill
import SmolVlm2Kv260.Host.EncodeImage
import SmolVlm2Kv260.Host.Server
import SmolVlm2Kv260.Host.SeqLimit
import SmolVlm2Kv260.Host.CallBounds
import SmolVlm2Kv260.Host.ServerTask
import SmolVlm2Kv260.Host.ImageChunk
import SmolVlm2Kv260.Host.Completion
import SmolVlm2Kv260.Process.Pipeline
import SmolVlm2Kv260.Dataflow.LayerFunction
import SmolVlm2Kv260.Dataflow.InertAttention
import SmolVlm2Kv260.Host.KernelRuns
import SmolVlm2Kv260.Host.DecodeSession
import SmolVlm2Kv260.Process.Confluence
import SmolVlm2Kv260.Dataflow.Schedules
import SmolVlm2Kv260.Host.ImageInfluence
import SmolVlm2Kv260.Host.FpgaCApi
import SmolVlm2Kv260.Host.Answer
import SmolVlm2Kv260.Host.AnswerInfluence
import SmolVlm2Kv260.Host.HostDriver
import SmolVlm2Kv260.Host.ManifestRepair
import SmolVlm2Kv260.Export.AcceptedExport
import SmolVlm2Kv260.Export.Replay
import SmolVlm2Kv260.Export.SavedState
import SmolVlm2Kv260.Export.ReplayOfExport
import SmolVlm2Kv260.Process.Simulation
import SmolVlm2Kv260.Pipeline.Training
import SmolVlm2Kv260.Pipeline.Preparation
import SmolVlm2Kv260.Pipeline.StagedRun
import SmolVlm2Kv260.Ggml.GraphCompute
