import OrthoCache.Foundation.WalshFunctions
import OrthoCache.Foundation.SoftmaxMean
import OrthoCache.Foundation.OnlineSoftmax
import OrthoCache.Foundation.StablePartition
import OrthoCache.Foundation.RowMajor
import OrthoCache.Foundation.TraceCache
import OrthoCache.Arrays
import OrthoCache.AttentionSpec
import OrthoCache.SparseAttention
import OrthoCache.KernelAgreement
import OrthoCache.Fwht
import OrthoCache.SpectralEnergy
import OrthoCache.SequencyBands
import OrthoCache.Reference
import OrthoCache.ButterflyLengths
import OrthoCache.TransformAgreement
import OrthoCache.ReferenceAgreement
import OrthoCache.TruncationBound
import OrthoCache.EnergyGate
import OrthoCache.Compaction
import OrthoCache.Decompaction
import OrthoCache.DynamicAttention
import OrthoCache.BucketedAttention
import OrthoCache.IndirectAttention
import OrthoCache.BucketDispatch
import OrthoCache.EvictionIsolation
import OrthoCache.Partitioning
import OrthoCache.Pipeline
import OrthoCache.QueryAwareGate
import OrthoCache.BoundTightness
import OrthoCache.ExecutionModes
import OrthoCache.AdaptiveAttention
import OrthoCache.DispatchCache
import OrthoCache.DistributedAttention
import OrthoCache.Normalisers
import OrthoCache.StratifiedGather
import OrthoCache.Alltoallv
import OrthoCache.KvExchange
import OrthoCache.BandwidthStatistics
import OrthoCache.PackUnpack
import OrthoCache.PackerAgreement
import OrthoCache.StreamCompactPass
import OrthoCache.Foundation.Hlo
import OrthoCache.Foundation.HloEvaluation
import OrthoCache.Foundation.HloVerifier
import OrthoCache.Foundation.HloSlices
import OrthoCache.EmittedCompaction
import OrthoCache.XlaBridge
import OrthoCache.StreamCompactions
import OrthoCache.StreamCompactFrame
import OrthoCache.MatchedLoops
import OrthoCache.EditedComputations
import OrthoCache.LoopOutcomes
import OrthoCache.ActiveBlockVisits
import OrthoCache.VisitedLoops
import OrthoCache.PassValidity
import OrthoCache.MatcherSoundness
import OrthoCache.PassFailures
import OrthoCache.Foundation.Spmd
import OrthoCache.DeviceProtocols
import OrthoCache.ConfinedEdits
import OrthoCache.RepeatedRuns
import OrthoCache.OutsideLoops
import OrthoCache.StrandedLoops
import OrthoCache.Foundation.SoftmaxTruncation
import OrthoCache.OutputError
import OrthoCache.Foundation.SoftmaxRange
import OrthoCache.OutputRange
import OrthoCache.BlockOrder
import OrthoCache.Foundation.OrderStatistics
import OrthoCache.EvictionAccuracy
import OrthoCache.GoldenModel
import OrthoCache.PathAgreement
import OrthoCache.ShardedGating
import OrthoCache.PipelineReport
import OrthoCache.Thresholds
import OrthoCache.Foundation.FloatRounding
import OrthoCache.IciBandwidthModel
import OrthoCache.DataVolume
import OrthoCache.Foundation.Memory
import OrthoCache.CustomCall
import OrthoCache.EnergyProfile
