import LayerSkip.NnCore
import LayerSkip.NnCpu

/-!
# The graph of the model

`buildLlmNet` makes a list of segments for every node. A segment is a list of
operations and a list of syncs. A node has the layers of its pipeline stage, the
embedding if it is the root, a bridge to the next stage or the final segment.
-/

namespace LayerSkip.LlmGraph

open NnTopology NnPipeline NnCore NnCpu

/-- Architectures. -/
inductive LlmArchType
  | llama
  | qwen3
  | qwen3Moe
  deriving DecidableEq, Repr

/-- What the builder reads of a model file's header. -/
structure LlmHeader where
  /-- Architecture. -/
  archType : LlmArchType
  /-- Values of a row. -/
  dim : ℕ
  /-- Number of layers. -/
  nLayers : ℕ
  /-- Query heads. -/
  nHeads : ℕ
  /-- Values of a head. -/
  headDim : ℕ
  /-- Key heads. -/
  nKvHeads : ℕ
  /-- Experts, 0 for none. -/
  nExperts : ℕ
  /-- Experts used for a token. -/
  nActiveExperts : ℕ
  /-- Length of the context. -/
  seqLen : ℕ
  /-- Values inside the feed-forward block. -/
  hiddenDim : ℕ
  /-- The same of an expert. -/
  moeHiddenDim : ℕ
  /-- Values of all query heads. -/
  qDim : ℕ
  /-- Values of all key heads. -/
  kvDim : ℕ
  /-- Number of tokens. -/
  vocabSize : ℕ
  /-- Rotary embedding. -/
  ropeType : NnRopeType
  /-- Format of the weights. -/
  weightType : NnFloatType
  /-- Format of values that are multiplied. -/
  syncType : NnFloatType
  deriving DecidableEq, Repr

/-- Pipes, in the order in which they are added. -/
inductive NnPipe
  | pos
  | tok
  | x
  | lg
  | zq
  deriving DecidableEq, Repr

/-- Buffers of a node. -/
inductive NnBuffer
  | x
  | y
  | qY
  | z
  | qZSlice
  | q
  | kTemp
  | vTemp
  | invRms
  | ropeCache
  | att
  | lg
  | argmaxPartial
  | d
  | qD
  | l
  | gt
  | actExpIx
  | moeY
  | qMoeY
  | moeD
  | qMoeD
  | moeL
  | moeS
  /-- The key cache of a layer. -/
  | k (layer : ℕ)
  /-- The value cache of a layer. -/
  | v (layer : ℕ)
  deriving DecidableEq, Repr

/-- A pipe or a buffer. -/
inductive NnSource
  | pipe (pipe : NnPipe)
  | buffer (buffer : NnBuffer)
  deriving DecidableEq, Repr

/-- What an operation reads or writes. -/
structure NnPointerConfig where
  /-- Where. -/
  source : NnSource
  /-- Which part. -/
  type : NnPointerType
  deriving DecidableEq, Repr

/-- The rows of a batch. -/
def pointerBatchConfig (source : NnSource) : NnPointerConfig := ⟨source, .batch⟩

/-- The part of the tensor rank in the rows of a batch. -/
def pointerBatchedSliceConfig (source : NnSource) : NnPointerConfig := ⟨source, .batchedSlice⟩

/-- All of it. -/
def pointerRawConfig (source : NnSource) : NnPointerConfig := ⟨source, .raw⟩

/-- Kinds of operations. -/
inductive NnOpCode
  | mergeAdd
  | mergeSum
  | embedding
  | invRms
  | rmsNorm
  | matmul
  | rope
  | multiheadAtt
  | silu
  | mul
  | scale
  | cast
  | repeatZ
  | shift
  | softmax
  | matmulArgmax
  | argmaxReduce
  | moeGate
  deriving DecidableEq, Repr

/-- Configuration of an attention. -/
structure NnMultiHeadAttOpConfig where
  /-- All query heads. -/
  nHeads : ℕ
  /-- Query heads of the rank. -/
  nHeads0 : ℕ
  /-- Key heads. -/
  nKvHeads : ℕ
  /-- Values of a head. -/
  headDim : ℕ
  /-- Length of the context. -/
  seqLen : ℕ
  /-- Values of a query row of the rank. -/
  qSliceD0 : ℕ
  /-- Values of a cache row of the rank. -/
  kvDim0 : ℕ
  /-- Rows the sequence rank writes. -/
  localSeqLen : ℕ
  /-- First of these rows. -/
  localSeqStart : ℕ
  /-- Sequence ranks. -/
  spSize : ℕ
  /-- Positions. -/
  positionPipe : NnPipe
  /-- Queries. -/
  queryBuffer : NnBuffer
  /-- Key cache. -/
  keyCacheBuffer : NnBuffer
  /-- Value cache. -/
  valueCacheBuffer : NnBuffer
  /-- Attention weights. -/
  attBuffer : NnBuffer
  deriving DecidableEq, Repr

/-- Configurations of operations. -/
inductive NnOpCodeConfig
  /-- No configuration. -/
  | empty
  | invRms (nColumns : ℕ)
  | rmsNorm (invRmsBuffer : NnBuffer) (nColumns : ℕ)
  | matmul (nExperts nActiveExperts : ℕ) (activeExpertIndexesBuffer : NnBuffer)
  | rope (type : NnRopeType) (isQ : Bool) (positionPipe : NnPipe) (ropeCacheBuffer : NnBuffer)
      (slice : NnRopeSlice)
  | multiheadAtt (config : NnMultiHeadAttOpConfig)
  | mul (multiplierBuffer : NnBuffer)
  | scale (scaleBuffer : NnBuffer)
  | shift (indexPipe : NnPipe) (localSeqStart localSeqLen : ℕ)
  | moeGate (k normTopk : ℕ) (indexesBuffer : NnBuffer)
  | argmaxReduce (maxThreads : ℕ)
  deriving DecidableEq, Repr

/-- An operation. -/
structure NnOpConfig where
  /-- Kind. -/
  code : NnOpCode
  /-- Name. -/
  name : String
  /-- Layer, 0 outside of layers. -/
  index : ℕ
  /-- Input. -/
  input : NnPointerConfig
  /-- Output. -/
  output : NnPointerConfig
  /-- Weight. -/
  weightSize : NnSize3D
  /-- Configuration. -/
  config : NnOpCodeConfig
  deriving DecidableEq, Repr

/-- Syncs. -/
inductive NnSyncConfig
  /-- `SYNC_WITH_ROOT`. -/
  | withRoot (pipe : NnPipe)
  /-- `SYNC_NODE_SLICES`. -/
  | nodeSlices (pipe : NnPipe)
  /-- `SYNC_SP_KV`. -/
  | spKv (positionPipe : NnPipe) (kBuffer vBuffer : NnBuffer)
      (localSeqStart localSeqLen kvDim0 : ℕ)
  deriving DecidableEq, Repr

/-- A segment. -/
structure NnSegmentConfig where
  /-- Operations. -/
  ops : List NnOpConfig
  /-- Syncs. -/
  syncs : List NnSyncConfig
  deriving DecidableEq, Repr

/-- A node. -/
structure NnNodeConfig where
  /-- Ranks and groups. -/
  placement : NnNodePlacement
  /-- Sizes of the buffers. -/
  buffers : List (NnBuffer × NnSize3D)
  /-- Segments. -/
  segments : List NnSegmentConfig
  deriving DecidableEq, Repr

/-- Operations of a node. -/
def NnNodeConfig.ops (config : NnNodeConfig) : List NnOpConfig :=
  config.segments.flatMap NnSegmentConfig.ops

/-- First layer of every stage, and the number of layers. Sums are 32-bit words. -/
def buildLayerStartOffsets (nLayers ppSize : ℕ) (ppStageLayerCounts : Option (List ℕ)) :
    Except String (List ℕ) :=
  match ppStageLayerCounts with
  | some (count :: counts) => do
    let stageLayerCounts := count :: counts
    require (stageLayerCounts.length = ppSize) "ppStageLayerCounts size mismatch with ppSize"
    require (∀ c ∈ stageLayerCounts, c ≠ 0) "ppStageLayerCounts must be > 0 for all stages"
    let offsets := stageLayerCounts.scanl (fun sum c => (sum + c) % 2 ^ 32) 0
    require (offsets.getD ppSize 0 = nLayers) "ppStageLayerCounts sum must match nLayers"
    return offsets
  | _ => return (List.range ppSize).map (fun i => i * (nLayers / ppSize)) ++ [nLayers]

/-- What the builder computes before the nodes. -/
structure LlmShape where
  /-- The header. -/
  header : LlmHeader
  /-- Heads. -/
  multiHeadAttSlice : NnMultiHeadAttSlice
  /-- Queries. -/
  qSlice : NnRowMatmulSlice
  /-- Keys. -/
  kSlice : NnRowMatmulSlice
  /-- Values. -/
  vSlice : NnRowMatmulSlice
  /-- Output of the attention. -/
  woSlice : NnColMatmulSlice
  /-- Gate of the feed-forward block. -/
  w1Slice : NnRowMatmulSlice
  /-- Output of the feed-forward block. -/
  w2Slice : NnColMatmulSlice
  /-- Input of the feed-forward block. -/
  w3Slice : NnRowMatmulSlice
  /-- Logits. -/
  wclsSlice : NnColMatmulSlice
  deriving DecidableEq, Repr

namespace LlmShape

variable (n : LlmShape)

/-- Size of the token embedding. -/
def tokenEmbeddingSize : NnSize3D := size2D .f32 n.header.vocabSize n.header.dim

/-- Size of a norm. -/
def rmsNormSize : NnSize3D := size1D .f32 n.header.dim

/-- Size of a norm of heads. -/
def qkRmsNormSize : NnSize3D := size1D .f32 n.header.headDim

/-- Size of the gate of the experts. -/
def moeGateSize : NnSize3D := size2D .f32 n.header.dim n.header.nExperts

/-- Heads of queries and keys have norms. -/
def HasQkNorm : Prop := n.header.archType = .qwen3 ∨ n.header.archType = .qwen3Moe

instance : Decidable n.HasQkNorm := inferInstanceAs (Decidable (_ ∨ _))

/-- Columns of the norm of queries. -/
def nQNormColumns : ℕ := if n.HasQkNorm then n.qSlice.d0 / n.header.headDim else 1

/-- Columns of the norm of keys. -/
def nKNormColumns : ℕ := if n.HasQkNorm then n.kSlice.d0 / n.header.headDim else 1

/-- Columns of the buffer of norms. -/
def nInvBufferColumns : ℕ := if n.HasQkNorm then max n.nQNormColumns n.nKNormColumns else 1

/-- Values are multiplied in another format than `F_32`. -/
def Quantized : Prop := n.header.syncType ≠ .f32

instance : Decidable n.Quantized := inferInstanceAs (Decidable (_ ≠ _))

/-- Buffer of `y` as a factor. -/
def yqBuffer : NnBuffer := if n.Quantized then .qY else .y

/-- Buffer of `d` as a factor. -/
def dqBuffer : NnBuffer := if n.Quantized then .qD else .d

/-- Buffer of `moe_y` as a factor. -/
def moeYqBuffer : NnBuffer := if n.Quantized then .qMoeY else .moeY

/-- Buffer of `moe_d` as a factor. -/
def moeDqBuffer : NnBuffer := if n.Quantized then .qMoeD else .moeD

end LlmShape

/-- The hidden size the slices of the feed-forward block have. -/
def ffDim (h : LlmHeader) : ℕ := if h.archType = .qwen3Moe then h.moeHiddenDim else h.hiddenDim

/-- Slices of the weights for so many tensor ranks. -/
def buildShape (h : LlmHeader) (tpSize nBatches : ℕ) : Except String LlmShape := do
  let multiHeadAttSlice ← sliceMultiHeadAtt h.nHeads h.seqLen tpSize nBatches
  let qSlice ← sliceRowMatmul h.weightType tpSize h.dim h.qDim
  let kSlice ← sliceRowMatmul h.weightType tpSize h.dim h.kvDim
  let vSlice ← sliceRowMatmul h.weightType tpSize h.dim h.kvDim
  let woSlice ← sliceColMatmul h.weightType tpSize h.qDim h.dim
  let w1Slice ← sliceRowMatmul h.weightType tpSize h.dim (ffDim h)
  let w2Slice ← sliceColMatmul h.weightType tpSize (ffDim h) h.dim
  let w3Slice ← sliceRowMatmul h.weightType tpSize h.dim (ffDim h)
  let wclsSlice ← sliceColMatmul h.weightType tpSize h.dim h.vocabSize
  let n : LlmShape :=
    ⟨h, multiHeadAttSlice, qSlice, kSlice, vSlice, woSlice, w1Slice, w2Slice, w3Slice, wclsSlice⟩
  require (n.HasQkNorm → h.headDim ≠ 0 ∧ qSlice.d0 % h.headDim = 0)
    "n.qSlice.d0 % h->headDim == 0"
  require (n.HasQkNorm → kSlice.d0 % h.headDim = 0) "n.kSlice.d0 % h->headDim == 0"
  return n

/-- What the segments of one node are built from. -/
structure NnNodeBuilder where
  /-- Sizes of the whole graph. -/
  n : LlmShape
  /-- The topology. -/
  topology : NnParallelTopology
  /-- Ranks of the node. -/
  nodePlacement : NnNodePlacement
  /-- Its caches. -/
  kvCacheSlice : NnKvCacheSlice
  /-- Its rotary embedding. -/
  ropeSlice : NnRopeSlice
  /-- First layer of its stage. -/
  layerStart : ℕ
  /-- One past the last layer of its stage. -/
  layerEnd : ℕ
  deriving DecidableEq, Repr

namespace NnNodeBuilder

variable (b : NnNodeBuilder)

/-- The start segment. Only the root embeds; only a single stage has the embedding
sent around. -/
def start : NnSegmentConfig where
  ops :=
    if b.nodePlacement.ppRank = 0 ∧ b.nodePlacement.globalRank = 0 then
      [⟨.embedding, "embedding", 0, pointerBatchConfig (.pipe .tok), pointerBatchConfig (.pipe .x),
        b.n.tokenEmbeddingSize, .empty⟩]
    else []
  syncs :=
    if b.nodePlacement.ppRank = 0 ∧ b.topology.ppSize = 1 then [.withRoot .x] else []

/-- The operation that brings the rows into a layer. -/
def blockEntry (layerIndex : ℕ) : NnOpConfig :=
  if layerIndex = b.layerStart then
    ⟨.cast, "block_cast_x", layerIndex, pointerBatchConfig (.pipe .x),
      pointerBatchConfig (.buffer .x), size0, .empty⟩
  else
    ⟨.mergeAdd, "block_merge_add", layerIndex, pointerBatchConfig (.pipe .zq),
      pointerBatchConfig (.buffer .x), size0, .empty⟩

/-- Norm of `x` into `y`. -/
def normOps (preName name : String) (index : ℕ) : List NnOpConfig :=
  [⟨.invRms, preName, index, pointerBatchConfig (.buffer .x), pointerBatchConfig (.buffer .invRms),
      size0, .invRms 1⟩,
    ⟨.rmsNorm, name, index, pointerBatchConfig (.buffer .x), pointerBatchConfig (.buffer .y),
      b.n.rmsNormSize, .rmsNorm .invRms 1⟩]

/-- Cast of `y` into a factor. -/
def castYOps (name : String) (index : ℕ) : List NnOpConfig :=
  if b.n.Quantized then
    [⟨.cast, name, index, pointerBatchConfig (.buffer .y), pointerBatchConfig (.buffer .qY), size0,
      .empty⟩]
  else []

/-- Queries, keys and values. -/
def qkvOps (layerIndex : ℕ) : List NnOpConfig :=
  [⟨.matmul, "block_matmul_q", layerIndex, pointerBatchConfig (.buffer b.n.yqBuffer),
      pointerBatchConfig (.buffer .q), size2D b.n.header.weightType b.n.qSlice.n b.n.qSlice.d0,
      .matmul 0 0 .actExpIx⟩,
    ⟨.matmul, "block_matmul_k", layerIndex, pointerBatchConfig (.buffer b.n.yqBuffer),
      pointerBatchConfig (.buffer .kTemp), size2D b.n.header.weightType b.n.kSlice.n b.n.kSlice.d0,
      .matmul 0 0 .actExpIx⟩,
    ⟨.matmul, "block_matmul_v", layerIndex, pointerBatchConfig (.buffer b.n.yqBuffer),
      pointerBatchConfig (.buffer .vTemp), size2D b.n.header.weightType b.n.vSlice.n b.n.vSlice.d0,
      .matmul 0 0 .actExpIx⟩]

/-- Norms of the heads of queries and keys. -/
def qkNormOps (layerIndex : ℕ) : List NnOpConfig :=
  if b.n.HasQkNorm then
    [⟨.invRms, "block_norm_pre_q", layerIndex, pointerBatchConfig (.buffer .q),
        pointerBatchConfig (.buffer .invRms), size0, .invRms b.n.nQNormColumns⟩,
      ⟨.rmsNorm, "block_norm_q", layerIndex, pointerBatchConfig (.buffer .q),
        pointerBatchConfig (.buffer .q), size2D .f32 1 b.n.header.headDim,
        .rmsNorm .invRms b.n.nQNormColumns⟩,
      ⟨.invRms, "block_norm_pre_k", layerIndex, pointerBatchConfig (.buffer .kTemp),
        pointerBatchConfig (.buffer .invRms), size0, .invRms b.n.nKNormColumns⟩,
      ⟨.rmsNorm, "block_norm_k", layerIndex, pointerBatchConfig (.buffer .kTemp),
        pointerBatchConfig (.buffer .kTemp), size2D .f32 1 b.n.header.headDim,
        .rmsNorm .invRms b.n.nKNormColumns⟩]
  else []

/-- Rotary embedding, and the rows that go into the caches. -/
def ropeOps (layerIndex : ℕ) : List NnOpConfig :=
  [⟨.rope, "block_rope_q", layerIndex, pointerBatchConfig (.buffer .q),
      pointerBatchConfig (.buffer .q), size0,
      .rope b.n.header.ropeType true .pos .ropeCache b.ropeSlice⟩,
    ⟨.rope, "block_rope_k", layerIndex, pointerBatchConfig (.buffer .kTemp),
      pointerBatchConfig (.buffer .kTemp), size0,
      .rope b.n.header.ropeType false .pos .ropeCache b.ropeSlice⟩,
    ⟨.shift, "block_shift_k", layerIndex, pointerBatchConfig (.buffer .kTemp),
      pointerRawConfig (.buffer (.k layerIndex)), size0,
      .shift .pos b.kvCacheSlice.localSeqStart b.kvCacheSlice.localSeqLen⟩,
    ⟨.shift, "block_shift_v", layerIndex, pointerBatchConfig (.buffer .vTemp),
      pointerRawConfig (.buffer (.v layerIndex)), size0,
      .shift .pos b.kvCacheSlice.localSeqStart b.kvCacheSlice.localSeqLen⟩]

/-- Configuration of the attention of a layer. -/
def multiheadAttConfig (layerIndex : ℕ) : NnMultiHeadAttOpConfig where
  nHeads := b.n.multiHeadAttSlice.nHeads
  nHeads0 := b.n.multiHeadAttSlice.nHeads0
  nKvHeads := b.n.header.nKvHeads
  headDim := b.n.header.headDim
  seqLen := b.n.header.seqLen
  qSliceD0 := b.n.qSlice.d0
  kvDim0 := b.kvCacheSlice.kvDim0
  localSeqLen := b.kvCacheSlice.localSeqLen
  localSeqStart := b.kvCacheSlice.localSeqStart
  spSize := b.topology.spSize
  positionPipe := .pos
  queryBuffer := .q
  keyCacheBuffer := .k layerIndex
  valueCacheBuffer := .v layerIndex
  attBuffer := .att

/-- Attention and its output. -/
def attentionOps (layerIndex : ℕ) : List NnOpConfig :=
  [⟨.multiheadAtt, "block_multihead_att", layerIndex, pointerBatchedSliceConfig (.buffer .z),
      pointerBatchedSliceConfig (.buffer .z), size0,
      .multiheadAtt (b.multiheadAttConfig layerIndex)⟩,
    ⟨.cast, "block_cast_y2", layerIndex, pointerBatchedSliceConfig (.buffer .z),
      pointerBatchConfig (.buffer .qZSlice), size0, .empty⟩,
    ⟨.matmul, "block_matmul_wo", layerIndex, pointerBatchConfig (.buffer .qZSlice),
      pointerBatchConfig (.buffer .y), size2D b.n.header.weightType b.n.woSlice.n0 b.n.woSlice.d,
      .matmul 0 0 .actExpIx⟩,
    ⟨.cast, "block_cast_d", layerIndex, pointerBatchConfig (.buffer .y),
      pointerBatchConfig (.pipe .zq), size0, .empty⟩]

/-- The first segment of a layer. -/
def att (layerIndex : ℕ) : NnSegmentConfig where
  ops :=
    b.blockEntry layerIndex :: b.normOps "block_norm_pre_0" "block_norm_0" layerIndex ++
      b.castYOps "block_cast_y" layerIndex ++ b.qkvOps layerIndex ++ b.qkNormOps layerIndex ++
      b.ropeOps layerIndex ++ b.attentionOps layerIndex
  syncs :=
    (if 1 < b.topology.spSize then
      [.spKv .pos (.k layerIndex) (.v layerIndex) b.kvCacheSlice.localSeqStart
        b.kvCacheSlice.localSeqLen b.kvCacheSlice.kvDim0]
    else []) ++ [.nodeSlices .zq]

/-- Experts. -/
def moeOps (layerIndex : ℕ) : List NnOpConfig :=
  [⟨.repeatZ, "block_moe_y_repeat", layerIndex, pointerBatchConfig (.buffer .y),
      pointerBatchConfig (.buffer b.n.moeYqBuffer), size0, .empty⟩,
    ⟨.matmul, "block_moe_gate", layerIndex, pointerBatchConfig (.buffer .y),
      pointerBatchConfig (.buffer .gt), b.n.moeGateSize, .matmul 0 0 .actExpIx⟩,
    ⟨.softmax, "block_moe_softmax", layerIndex, pointerBatchConfig (.buffer .gt),
      pointerBatchConfig (.buffer .gt), size0, .empty⟩,
    ⟨.moeGate, "block_moe_gate2", layerIndex, pointerBatchConfig (.buffer .gt),
      pointerBatchConfig (.buffer .moeS), size0, .moeGate b.n.header.nActiveExperts 1 .actExpIx⟩,
    ⟨.matmul, "block_matmul_w1", layerIndex, pointerBatchConfig (.buffer b.n.moeYqBuffer),
      pointerBatchConfig (.buffer .moeD),
      size3D b.n.header.weightType b.n.header.nExperts b.n.w1Slice.n b.n.w1Slice.d0,
      .matmul b.n.header.nExperts b.n.header.nActiveExperts .actExpIx⟩,
    ⟨.matmul, "block_matmul_w3", layerIndex, pointerBatchConfig (.buffer b.n.moeYqBuffer),
      pointerBatchConfig (.buffer .moeL),
      size3D b.n.header.weightType b.n.header.nExperts b.n.w3Slice.n b.n.w3Slice.d0,
      .matmul b.n.header.nExperts b.n.header.nActiveExperts .actExpIx⟩,
    ⟨.silu, "block_act", layerIndex, pointerBatchConfig (.buffer .moeD),
      pointerBatchConfig (.buffer .moeD), size0, .empty⟩,
    ⟨.mul, "block_mul", layerIndex, pointerBatchConfig (.buffer .moeD),
      pointerBatchConfig (.buffer .moeD), size0, .mul .moeL⟩] ++
  (if b.n.Quantized then
    [⟨.cast, "block_cast_d2", layerIndex, pointerBatchConfig (.buffer .moeD),
      pointerBatchConfig (.buffer .qMoeD), size0, .empty⟩]
  else []) ++
  [⟨.matmul, "block_matmul_w2", layerIndex, pointerBatchConfig (.buffer b.n.moeDqBuffer),
      pointerBatchConfig (.buffer .moeY),
      size3D b.n.header.weightType b.n.header.nExperts b.n.w2Slice.n0 b.n.w2Slice.d,
      .matmul b.n.header.nExperts b.n.header.nActiveExperts .actExpIx⟩,
    ⟨.scale, "block_moe_scale", layerIndex, pointerBatchConfig (.buffer .moeY),
      pointerBatchConfig (.buffer .moeY), size0, .scale .moeS⟩,
    ⟨.mergeSum, "block_moe_merge_sum", layerIndex, pointerBatchConfig (.buffer .moeY),
      pointerBatchConfig (.buffer .y), size0, .empty⟩]

/-- The feed-forward block without experts. -/
def denseOps (layerIndex : ℕ) : List NnOpConfig :=
  b.castYOps "block_cast_y3" layerIndex ++
  [⟨.matmul, "block_matmul_w1", layerIndex, pointerBatchConfig (.buffer b.n.yqBuffer),
      pointerBatchConfig (.buffer .d), size2D b.n.header.weightType b.n.w1Slice.n b.n.w1Slice.d0,
      .matmul 0 0 .actExpIx⟩,
    ⟨.matmul, "block_matmul_w3", layerIndex, pointerBatchConfig (.buffer b.n.yqBuffer),
      pointerBatchConfig (.buffer .l), size2D b.n.header.weightType b.n.w3Slice.n b.n.w3Slice.d0,
      .matmul 0 0 .actExpIx⟩,
    ⟨.silu, "block_act", layerIndex, pointerBatchConfig (.buffer .d),
      pointerBatchConfig (.buffer .d), size0, .empty⟩,
    ⟨.mul, "block_mul", layerIndex, pointerBatchConfig (.buffer .d),
      pointerBatchConfig (.buffer .d), size0, .mul .l⟩] ++
  (if b.n.Quantized then
    [⟨.cast, "block_cast_d2", layerIndex, pointerBatchConfig (.buffer .d),
      pointerBatchConfig (.buffer .qD), size0, .empty⟩]
  else []) ++
  [⟨.matmul, "block_matmul_w2", layerIndex, pointerBatchConfig (.buffer b.n.dqBuffer),
      pointerBatchConfig (.buffer .y), size2D b.n.header.weightType b.n.w2Slice.n0 b.n.w2Slice.d,
      .matmul 0 0 .actExpIx⟩]

/-- The second segment of a layer. -/
def ff (layerIndex : ℕ) : NnSegmentConfig where
  ops :=
    ⟨.mergeAdd, "block_merge_add2", layerIndex, pointerBatchConfig (.pipe .zq),
        pointerBatchConfig (.buffer .x), size0, .empty⟩ ::
      b.normOps "block_norm_pre_1" "block_norm_1" layerIndex ++
      (if b.n.header.archType = .qwen3Moe then b.moeOps layerIndex else b.denseOps layerIndex) ++
      [⟨.cast, "block_cast_d3", layerIndex, pointerBatchConfig (.buffer .y),
        pointerBatchConfig (.pipe .zq), size0, .empty⟩]
  syncs := [.nodeSlices .zq]

/-- The segment that hands the rows to the next stage. -/
def bridge : NnSegmentConfig where
  ops :=
    [⟨.mergeAdd, "stage_bridge_merge_add", 0, pointerBatchConfig (.pipe .zq),
        pointerBatchConfig (.buffer .x), size0, .empty⟩,
      ⟨.cast, "stage_bridge_cast_x", 0, pointerBatchConfig (.buffer .x),
        pointerBatchConfig (.pipe .x), size0, .empty⟩]
  syncs := []

/-- The operations of the logits. -/
def logitsOps (fusedLmHeadArgmax : Bool) : List NnOpConfig :=
  if fusedLmHeadArgmax then
    [⟨.matmulArgmax, "final_matmul_logits", 0, pointerBatchedSliceConfig (.buffer b.n.yqBuffer),
        pointerBatchConfig (.buffer .argmaxPartial),
        size2D b.n.header.weightType b.n.wclsSlice.n0 b.n.wclsSlice.d, .matmul 0 0 .x⟩,
      ⟨.argmaxReduce, "final_reduce_argmax", 0, pointerBatchConfig (.buffer .argmaxPartial),
        pointerBatchConfig (.pipe .lg), size0, .argmaxReduce 64⟩]
  else
    [⟨.matmul, "final_matmul_logits", 0, pointerBatchedSliceConfig (.buffer b.n.yqBuffer),
      pointerBatchConfig (.pipe .lg),
      size2D b.n.header.weightType b.n.wclsSlice.n0 b.n.wclsSlice.d, .matmul 0 0 .x⟩]

/-- The final segment. -/
def finalSegment (fusedLmHeadArgmax : Bool) : NnSegmentConfig where
  ops :=
    ⟨.mergeAdd, "final_merge_add", 0, pointerBatchConfig (.pipe .zq),
        pointerBatchConfig (.buffer .x), size0, .empty⟩ ::
      b.normOps "final_norm_pre" "final_norm" 0 ++ b.castYOps "final_cast_y" 0 ++
      b.logitsOps fusedLmHeadArgmax
  syncs := [.nodeSlices .lg]

/-- Layers of the node. -/
def layers : List ℕ := List.range' b.layerStart (b.layerEnd - b.layerStart)

/-- All segments in the order of a forward. -/
def segments (fusedLmHeadArgmax : Bool) : List NnSegmentConfig :=
  [b.start] ++ b.layers.flatMap (fun layerIndex => [b.att layerIndex, b.ff layerIndex]) ++
    (if b.nodePlacement.ppRank < b.topology.ppSize - 1 then [bridge] else []) ++
    (if b.nodePlacement.ppRank = b.topology.ppSize - 1 then [b.finalSegment fusedLmHeadArgmax]
    else [])

/-- Buffers and their sizes. -/
def buffers (nBatches : ℕ) : List (NnBuffer × NnSize3D) :=
  let h := b.n.header
  let nExpertsOr1 := max h.nExperts 1
  let nActiveExpertsOr1 := max h.nActiveExperts 1
  let quantized (buffer : NnBuffer) (size : NnSize3D) : List (NnBuffer × NnSize3D) :=
    if b.n.Quantized then [(buffer, size)] else []
  [(.x, size2D .f32 nBatches h.dim), (.y, size2D .f32 nBatches h.dim)] ++
    quantized .qY (size2D h.syncType nBatches h.dim) ++
  [(.z, size2D .f32 nBatches h.qDim),
    (.qZSlice, size2D h.syncType nBatches (h.qDim / b.topology.tpSize)),
    (.q, size2D .f32 nBatches b.n.qSlice.d0), (.kTemp, size2D .f32 nBatches b.n.kSlice.d0),
    (.vTemp, size2D .f32 nBatches b.n.vSlice.d0),
    (.invRms, size2D .f32 nBatches b.n.nInvBufferColumns), (.ropeCache, b.ropeSlice.cacheSize),
    (.att, b.n.multiHeadAttSlice.attSize), (.lg, size2D .f32 nBatches h.vocabSize),
    (.argmaxPartial, size2D .f32 nBatches 128), (.d, size2D .f32 nBatches b.n.w1Slice.d0)] ++
    quantized .qD (size2D h.syncType nBatches b.n.w1Slice.d0) ++
  [(.l, size2D .f32 nBatches b.n.w3Slice.d0), (.gt, size2D .f32 nBatches nExpertsOr1),
    (.actExpIx, size2D .f32 nBatches nActiveExpertsOr1),
    (.moeY, size3D .f32 nActiveExpertsOr1 nBatches h.dim)] ++
    quantized .qMoeY (size3D h.syncType nActiveExpertsOr1 nBatches h.dim) ++
  [(.moeD, size3D .f32 nActiveExpertsOr1 nBatches b.n.w1Slice.d0)] ++
    quantized .qMoeD (size3D h.syncType nActiveExpertsOr1 nBatches b.n.w1Slice.d0) ++
  [(.moeL, size3D .f32 nActiveExpertsOr1 nBatches b.n.w3Slice.d0),
    (.moeS, size3D .f32 nActiveExpertsOr1 nBatches 1)] ++
  b.layers.flatMap fun layerIndex =>
    [(.k layerIndex, b.kvCacheSlice.keySize), (.v layerIndex, b.kvCacheSlice.valueSize)]

end NnNodeBuilder

/-- Every number of values a size is computed from is a number of whole blocks. -/
def Whole (size : NnSize3D) : Prop :=
  ∀ floatType ∈ size.floatType,
    WholeBlocks floatType size.length ∧ WholeBlocks floatType (size.y * size.x % 2 ^ 32)

instance (size : NnSize3D) : Decidable (Whole size) :=
  inferInstanceAs (Decidable (∀ floatType ∈ size.floatType, _ ∧ _))

/-- Text of a constructor's failure. -/
def faultText : Fault → String
  | .runtimeError text => text
  | .divisionByZero => "division by zero"

/-- What a node is built from. -/
def nodeBuilder (n : LlmShape) (topology : NnParallelTopology) (layerOffsets : List ℕ)
    (nodeIndex : ℕ) : Except String NnNodeBuilder := do
  let h := n.header
  let nodePlacement ← (topology.getPlacement nodeIndex).mapError faultText
  let kvCacheSlice ←
    sliceKvCache h.kvDim h.seqLen topology.tpSize topology.spSize nodePlacement.spRank
  let ropeSlice ← sliceRope h.ropeType h.qDim h.kvDim h.nKvHeads topology.tpSize h.seqLen h.headDim
    nodePlacement.tpRank
  return ⟨n, topology, nodePlacement, kvCacheSlice, ropeSlice,
    layerOffsets.getD nodePlacement.ppRank 0, layerOffsets.getD (nodePlacement.ppRank + 1) 0⟩

/-- A node. All sizes of buffers and weights are checked. -/
def NnNodeBuilder.build (b : NnNodeBuilder) (nBatches : ℕ) (fusedLmHeadArgmax : Bool) :
    Except String NnNodeConfig := do
  require (∀ buffer ∈ b.buffers nBatches, Whole buffer.2) "n % BLOCK_SIZE == 0"
  require (∀ segment ∈ b.segments fusedLmHeadArgmax, ∀ op ∈ segment.ops, Whole op.weightSize)
    "n % BLOCK_SIZE == 0"
  return ⟨b.nodePlacement, b.buffers nBatches, b.segments fusedLmHeadArgmax⟩

/-- The graph of all nodes. -/
structure LlmNet where
  /-- Sizes of the whole graph. -/
  shape : LlmShape
  /-- Nodes. -/
  nodeConfigs : List NnNodeConfig
  deriving DecidableEq, Repr

/-- Build the graph. -/
def buildLlmNet (h : LlmHeader) (topology : NnParallelTopology) (nBatches : ℕ)
    (ppStageLayerCounts : Option (List ℕ)) (fusedLmHeadArgmax : Bool) : Except String LlmNet := do
  let n ← buildShape h topology.tpSize nBatches
  let layerOffsets ← buildLayerStartOffsets h.nLayers topology.ppSize ppStageLayerCounts
  let nodeConfigs ← (List.range topology.nNodes).mapM fun nodeIndex => do
    let b ← nodeBuilder n topology layerOffsets nodeIndex
    b.build nBatches fusedLmHeadArgmax
  return ⟨n, nodeConfigs⟩

/-- What a node is built from, named. -/
structure BuiltFrom (n : LlmShape) (topology : NnParallelTopology) (layerOffsets : List ℕ)
    (nodeIndex : ℕ) (b : NnNodeBuilder) : Prop where
  /-- Sizes of the whole graph. -/
  shape_eq : b.n = n
  /-- The topology. -/
  topology_eq : b.topology = topology
  /-- Ranks of the node. -/
  placement_eq : topology.getPlacement nodeIndex = .ok b.nodePlacement
  /-- Its caches. -/
  kvCache_eq : sliceKvCache n.header.kvDim n.header.seqLen topology.tpSize topology.spSize
    b.nodePlacement.spRank = .ok b.kvCacheSlice
  /-- Its rotary embedding. -/
  rope_eq : sliceRope n.header.ropeType n.header.qDim n.header.kvDim n.header.nKvHeads topology.tpSize
    n.header.seqLen n.header.headDim b.nodePlacement.tpRank = .ok b.ropeSlice
  /-- First layer of its stage. -/
  layerStart_eq : b.layerStart = layerOffsets.getD b.nodePlacement.ppRank 0
  /-- One past the last layer of its stage. -/
  layerEnd_eq : b.layerEnd = layerOffsets.getD (b.nodePlacement.ppRank + 1) 0

theorem nodeBuilder_ok {n : LlmShape} {topology : NnParallelTopology} {layerOffsets : List ℕ}
    {nodeIndex : ℕ} {b : NnNodeBuilder} (h : nodeBuilder n topology layerOffsets nodeIndex = .ok b) :
    BuiltFrom n topology layerOffsets nodeIndex b := by
  obtain ⟨placement, hplacement, h⟩ := bind_eq_ok h
  obtain ⟨kvCache, hkv, h⟩ := bind_eq_ok h
  obtain ⟨rope, hrope, h⟩ := bind_eq_ok h
  injection h with h
  have hok : topology.getPlacement nodeIndex = .ok placement := by
    cases hp : topology.getPlacement nodeIndex with
    | error fault =>
      rw [hp] at hplacement
      cases hplacement
    | ok p =>
      rw [hp] at hplacement
      injection hplacement with hplacement
      rw [hplacement]
  rw [← h]
  exact ⟨rfl, rfl, hok, hkv, hrope, rfl, rfl⟩

/-- A node that could be built. -/
theorem NnNodeBuilder.build_ok {b : NnNodeBuilder} {nBatches : ℕ} {fusedLmHeadArgmax : Bool}
    {config : NnNodeConfig} (h : b.build nBatches fusedLmHeadArgmax = .ok config) :
    config = ⟨b.nodePlacement, b.buffers nBatches, b.segments fusedLmHeadArgmax⟩ ∧
      (∀ buffer ∈ b.buffers nBatches, Whole buffer.2) ∧
      ∀ segment ∈ b.segments fusedLmHeadArgmax, ∀ op ∈ segment.ops, Whole op.weightSize := by
  obtain ⟨u, hbuffers, h⟩ := bind_eq_ok h
  obtain ⟨v, hweights, h⟩ := bind_eq_ok h
  injection h with h
  exact ⟨h.symm, require_eq_ok hbuffers, require_eq_ok hweights⟩

/-- A graph that could be built. -/
theorem buildLlmNet_ok {h : LlmHeader} {topology : NnParallelTopology} {nBatches : ℕ}
    {ppStageLayerCounts : Option (List ℕ)} {fusedLmHeadArgmax : Bool} {net : LlmNet}
    (hnet : buildLlmNet h topology nBatches ppStageLayerCounts fusedLmHeadArgmax = .ok net) :
    ∃ layerOffsets, buildShape h topology.tpSize nBatches = .ok net.shape ∧
      buildLayerStartOffsets h.nLayers topology.ppSize ppStageLayerCounts = .ok layerOffsets ∧
      net.nodeConfigs.length = topology.nNodes ∧
      ∀ nodeIndex < topology.nNodes, ∃ b,
        BuiltFrom net.shape topology layerOffsets nodeIndex b ∧
        net.nodeConfigs[nodeIndex]? =
          some ⟨b.nodePlacement, b.buffers nBatches, b.segments fusedLmHeadArgmax⟩ := by
  obtain ⟨n, hn, hnet⟩ := bind_eq_ok hnet
  obtain ⟨layerOffsets, hoffsets, hnet⟩ := bind_eq_ok hnet
  obtain ⟨nodeConfigs, hnodes, hnet⟩ := bind_eq_ok hnet
  injection hnet with hnet
  have ⟨hlength, heach⟩ := mapM_eq_ok hnodes
  rw [List.length_range] at hlength
  rw [← hnet]
  refine ⟨layerOffsets, hn, hoffsets, hlength, ?_⟩
  intro nodeIndex hlt
  obtain ⟨config, hconfig, hbuild⟩ := heach nodeIndex nodeIndex (List.getElem?_range hlt)
  obtain ⟨b, hb, hbuild⟩ := bind_eq_ok hbuild
  have ⟨hequal, _⟩ := NnNodeBuilder.build_ok hbuild
  exact ⟨b, nodeBuilder_ok hb, hequal ▸ hconfig⟩

/-- What the slices of the weights were made from. -/
theorem buildShape_ok {h : LlmHeader} {tpSize nBatches : ℕ} {n : LlmShape}
    (hn : buildShape h tpSize nBatches = .ok n) : n.header = h ∧
      sliceMultiHeadAtt h.nHeads h.seqLen tpSize nBatches = .ok n.multiHeadAttSlice ∧
      sliceRowMatmul h.weightType tpSize h.dim h.qDim = .ok n.qSlice ∧
      sliceRowMatmul h.weightType tpSize h.dim h.kvDim = .ok n.kSlice ∧
      sliceRowMatmul h.weightType tpSize h.dim h.kvDim = .ok n.vSlice ∧
      sliceColMatmul h.weightType tpSize h.qDim h.dim = .ok n.woSlice ∧
      sliceRowMatmul h.weightType tpSize h.dim (ffDim h) = .ok n.w1Slice ∧
      sliceColMatmul h.weightType tpSize (ffDim h) h.dim = .ok n.w2Slice ∧
      sliceRowMatmul h.weightType tpSize h.dim (ffDim h) = .ok n.w3Slice ∧
      sliceColMatmul h.weightType tpSize h.dim h.vocabSize = .ok n.wclsSlice := by
  obtain ⟨multiHeadAtt, hatt, hn⟩ := bind_eq_ok hn
  obtain ⟨q, hq, hn⟩ := bind_eq_ok hn
  obtain ⟨k, hk, hn⟩ := bind_eq_ok hn
  obtain ⟨v, hv, hn⟩ := bind_eq_ok hn
  obtain ⟨wo, hwo, hn⟩ := bind_eq_ok hn
  obtain ⟨w1, hw1, hn⟩ := bind_eq_ok hn
  obtain ⟨w2, hw2, hn⟩ := bind_eq_ok hn
  obtain ⟨w3, hw3, hn⟩ := bind_eq_ok hn
  obtain ⟨wcls, hwcls, hn⟩ := bind_eq_ok hn
  obtain ⟨_, _, hn⟩ := bind_eq_ok hn
  obtain ⟨_, _, hn⟩ := bind_eq_ok hn
  injection hn with hn
  rw [← hn]
  exact ⟨rfl, hatt, hq, hk, hv, hwo, hw1, hw2, hw3, hwcls⟩

end LayerSkip.LlmGraph
