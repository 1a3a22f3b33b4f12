import LayerSkip.RandomDescent
import LayerSkip.StreamNetwork
import LayerSkip.NodeMemory
import LayerSkip.NnNetwork
import LayerSkip.StarAllReduce
import LayerSkip.RingAllReduce
import LayerSkip.NnPipeline
import LayerSkip.WorkerLlmInference
import LayerSkip.WorkerRun
import LayerSkip.SkipBound
import LayerSkip.ShadowMode
import LayerSkip.PipelineLink
import LayerSkip.RoundFlow
import LayerSkip.StageNetwork
import LayerSkip.StageRound
import LayerSkip.StageRouting
import LayerSkip.KvCache
import LayerSkip.StageSkipKv
import LayerSkip.Dataflow
import LayerSkip.DeltaDrift
import LayerSkip.NnCore
import LayerSkip.LaneLinks
import LayerSkip.KvHeads
import LayerSkip.EqualPieces
import LayerSkip.NnCpu
import LayerSkip.TensorParallel
import LayerSkip.FirstMax
import LayerSkip.GreedySampling
import LayerSkip.FusedArgmax
import LayerSkip.ContinuousBatching
import LayerSkip.LogitsFreshness
import LayerSkip.NetworkSetup
import LayerSkip.WavePrefill
import LayerSkip.SequenceParallel
import LayerSkip.LlmGraph
import LayerSkip.ByteCover
import LayerSkip.WeightLoader
import LayerSkip.WeightDelivery
import LayerSkip.WeightArrival
import LayerSkip.WeightCoverage
import LayerSkip.WeightOwnership
import LayerSkip.WeightsDelivered
import LayerSkip.ExecutorBarrier
import LayerSkip.Rendezvous
import LayerSkip.KvExchange
import LayerSkip.ByteSession
import LayerSkip.LittleEndian
import LayerSkip.ConfigProtocol
import LayerSkip.ConfigRoundTrip
import LayerSkip.NaiveCache
import LayerSkip.NaiveCacheRuns
import LayerSkip.WeightStream
import LayerSkip.KeyValueHeader
import LayerSkip.ModelFile
import LayerSkip.ModelFileWriter
import LayerSkip.ModelFileHeader
import LayerSkip.RootBroadcast
import LayerSkip.DeltaNorm
import LayerSkip.PromptFeeding
import LayerSkip.DataMoving
import LayerSkip.RopeSlicing
import LayerSkip.ShiftDevices
import LayerSkip.ApiServer
import LayerSkip.PolledReceive
import LayerSkip.MoeKernels
import LayerSkip.MoeBlock
import LayerSkip.DevicePlacement
import LayerSkip.ChatTemplate
import LayerSkip.DecodeRounds
import LayerSkip.DeviceTransparency
import LayerSkip.PrefillChunks
import LayerSkip.StableSelection
import LayerSkip.TopKLogits
import LayerSkip.NucleusSampling
import LayerSkip.SamplerTopK
import LayerSkip.TokenizerDecode
import LayerSkip.DecodeBuffers
import LayerSkip.PairMerging
import LayerSkip.TokenizerEncode
import LayerSkip.StopDetection
import LayerSkip.GatewayBackends
import LayerSkip.GatewayAccounting
import LayerSkip.TopologyWords
import LayerSkip.CastRows
import LayerSkip.GatewayHealth
import LayerSkip.CompletionLoop
import LayerSkip.RequestParameters
import LayerSkip.RequestStream
import LayerSkip.QuantBlocks
import LayerSkip.FileRobustness
import LayerSkip.SocketTransfer
import LayerSkip.VulkanDevice
import LayerSkip.VulkanMatmul
import LayerSkip.VulkanMatmulGraph
import LayerSkip.FlushPlan
import LayerSkip.VulkanFootprints
import LayerSkip.VulkanBarriers
import LayerSkip.ActivationChecksum
import LayerSkip.FloatFormat
import LayerSkip.HalfConversion
import LayerSkip.TokenizerFile
import LayerSkip.ModelLayout
import LayerSkip.ModelFileAgreement
import LayerSkip.ForwardReads
import LayerSkip.ForwardFreshness
import LayerSkip.StageExecutor
import LayerSkip.StageSimulation
import LayerSkip.StageHandOver
import LayerSkip.RestingNetwork
import LayerSkip.PipelineNetwork
import LayerSkip.PipelineRounds
import LayerSkip.PipelineSchedule
import LayerSkip.PipelineRefinement
import LayerSkip.LlamafileSgemm
import LayerSkip.CpuMatmul
import LayerSkip.LoopInterchange
import LayerSkip.CpuKernels
import LayerSkip.VectorLoops
import LayerSkip.BatchRows
import LayerSkip.PrefillRows
import LayerSkip.ChunkedPrompt
import LayerSkip.PrefixCache
import LayerSkip.TextGeneration
