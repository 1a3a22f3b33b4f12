import LayerSkip.ByteCover
import LayerSkip.LlmGraph

/-!
# Weights on their way to the nodes

The root walks through the model file, cuts each tensor into parts and hands every
part to a node under the name and the index of an operation. A node looks up the
operation and copies the part into its weight. The loader has its own idea of the
stage that owns a layer.
-/

namespace LayerSkip.WeightLoader

open NnTopology NnPipeline NnCore LlmGraph

/-- What the loader of the root knows. -/
structure NnRootWeightLoader where
  /-- Number of nodes. -/
  nNodes : ℕ
  /-- Pipeline stages. -/
  ppSize : ℕ
  /-- Number of layers. -/
  nLayers : ℕ
  deriving DecidableEq, Repr

/-- Stage that owns a layer, none for all of them. -/
def getLayerOwnerPpRank (layerIndex nLayers ppSize : ℕ) : Option ℕ :=
  if ppSize ≤ 1 ∨ nLayers = 0 then none
  else if nLayers / ppSize = 0 then none
  else if ppSize ≤ layerIndex / (nLayers / ppSize) then some (ppSize - 1)
  else some (layerIndex / (nLayers / ppSize))

/-- A node belongs to a stage. The size of a sequence group stands for that of a stage. -/
def nodeInPpStage (nodeIndex targetPpRank tpSize : ℕ) : Prop := nodeIndex / tpSize = targetPpRank

instance (nodeIndex targetPpRank tpSize : ℕ) : Decidable (nodeInPpStage nodeIndex targetPpRank tpSize) :=
  inferInstanceAs (Decidable (_ = _))

/-- The parts of a weight that the tensor ranks hold. -/
inductive NnWeightSlice
  | row (slice : NnRowMatmulSlice)
  | column (slice : NnColMatmulSlice)
  deriving DecidableEq, Repr

namespace NnWeightSlice

/-- Tensor ranks. -/
def tpSize : NnWeightSlice → ℕ
  | .row slice => slice.nNodes
  | .column slice => slice.nNodes

/-- The whole weight. -/
def size : NnWeightSlice → NnSize3D
  | .row slice => slice.size
  | .column slice => slice.size

/-- The part of a rank. -/
def sliceSize : NnWeightSlice → NnSize3D
  | .row slice => slice.sliceSize
  | .column slice => slice.sliceSize

/-- Copy the part of a rank. -/
def split (slice : NnWeightSlice) (tpRank : ℕ) (weight : ℕ → UInt8) : Except String (List UInt8) :=
  match slice with
  | .row slice => splitRowMatmulWeight slice tpRank weight
  | .column slice => splitColMatmulWeight slice tpRank weight

end NnWeightSlice

/-- Ways to hand out a tensor. -/
inductive WeightSource
  /-- To the root only. -/
  | root (size : NnSize3D)
  /-- To all nodes. -/
  | all (size : NnSize3D)
  /-- A part to every node of a stage. -/
  | slices (slice : NnWeightSlice) (overridePpRank : Option ℕ)
  deriving DecidableEq, Repr

/-- A tensor of the file and the operation it is for. -/
structure WeightLoad where
  /-- Name of the operation. -/
  opName : String
  /-- Index of the operation. -/
  opIndex : ℕ
  /-- Expert, 0 for a weight without experts. -/
  expertIndex : ℕ
  /-- What to do. -/
  source : WeightSource
  deriving DecidableEq, Repr

/-- A part for one node. -/
structure WeightRecord where
  /-- Name of the operation. -/
  opName : String
  /-- Index of the operation. -/
  opIndex : ℕ
  /-- First byte in the weight. -/
  offset : ℕ
  /-- The bytes. -/
  weight : List UInt8
  deriving DecidableEq, Repr

/-- First bytes of a tensor. -/
def firstBytes (weight : ℕ → UInt8) (nBytes : ℕ) : List UInt8 := (List.range nBytes).map weight

/-- Size of a buffer that has room for so many bytes. -/
def allocate (tempSize size : ℕ) : ℕ := if tempSize < size then size else tempSize

section Loads

variable (loader : NnRootWeightLoader) (opName : String) (opIndex : ℕ)

/-- Hand a tensor to the root. -/
def loadRoot (nBytes : ℕ) (weight : ℕ → UInt8) : List (ℕ × WeightRecord) :=
  [(0, ⟨opName, opIndex, 0, firstBytes weight nBytes⟩)]

/-- Hand a tensor to all nodes. -/
def loadAll (nBytes : ℕ) (weight : ℕ → UInt8) : List (ℕ × WeightRecord) :=
  (List.range loader.nNodes).map fun nodeIndex =>
    (nodeIndex, ⟨opName, opIndex, 0, firstBytes weight nBytes⟩)

/-- Hand the parts of a tensor to the nodes of a stage. The offset is a 32-bit word.
Writing past the end of the buffer for one part is an error here. -/
def loadSlices (slice : NnWeightSlice) (expertIndex : ℕ) (ownerPpRank : Option ℕ)
    (weight : ℕ → UInt8) (tempSize : ℕ) : Except String (List (ℕ × WeightRecord) × ℕ) :=
  let offset := expertIndex * slice.sliceSize.nBytes % 2 ^ 32
  if loader.nNodes = 1 then
    .ok ([(0, ⟨opName, opIndex, offset, firstBytes weight slice.sliceSize.nBytes⟩)], tempSize)
  else do
    let room := allocate tempSize slice.sliceSize.nBytes
    let nodes := (List.range loader.nNodes).filter fun nodeIndex =>
      ∀ owner ∈ ownerPpRank, nodeInPpStage nodeIndex owner slice.tpSize
    let records ← nodes.mapM fun nodeIndex => do
      let temp ← slice.split (nodeIndex % slice.tpSize) weight
      require (temp.length ≤ room) "heap-buffer-overflow"
      return (nodeIndex, ⟨opName, opIndex, offset, temp.take slice.sliceSize.nBytes⟩)
    return (records, room)

/-- Hand out a weight that is split by rows. -/
def loadRowMatmulSlices (expertIndex : ℕ) (slice : NnRowMatmulSlice) (weight : ℕ → UInt8)
    (tempSize : ℕ) : Except String (List (ℕ × WeightRecord) × ℕ) :=
  loadSlices loader opName opIndex (.row slice) expertIndex
    (getLayerOwnerPpRank opIndex loader.nLayers loader.ppSize) weight tempSize

/-- Hand out a weight that is split by columns. -/
def loadColMatmulSlices (expertIndex : ℕ) (slice : NnColMatmulSlice) (overridePpRank : Option ℕ)
    (weight : ℕ → UInt8) (tempSize : ℕ) : Except String (List (ℕ × WeightRecord) × ℕ) :=
  loadSlices loader opName opIndex (.column slice) expertIndex
    (overridePpRank.or (getLayerOwnerPpRank opIndex loader.nLayers loader.ppSize)) weight tempSize

end Loads

/-- Hand out one tensor of the file. -/
def WeightLoad.load (load : WeightLoad) (loader : NnRootWeightLoader) (weight : ℕ → UInt8)
    (tempSize : ℕ) : Except String (List (ℕ × WeightRecord) × ℕ) :=
  match load.source with
  | .root size => .ok (loadRoot load.opName load.opIndex size.nBytes weight, tempSize)
  | .all size => .ok (loadAll loader load.opName load.opIndex size.nBytes weight, tempSize)
  | .slices (.row slice) _ =>
    loadRowMatmulSlices loader load.opName load.opIndex load.expertIndex slice weight tempSize
  | .slices (.column slice) overridePpRank =>
    loadColMatmulSlices loader load.opName load.opIndex load.expertIndex slice overridePpRank weight
      tempSize

/-- The whole tensor. -/
def WeightSource.size : WeightSource → NnSize3D
  | .root size => size
  | .all size => size
  | .slices slice _ => slice.size

/-- Tensors of a layer in the order of the file. -/
def layerLoads (n : LlmShape) (layerIndex : ℕ) : List WeightLoad :=
  [⟨"block_matmul_q", layerIndex, 0, .slices (.row n.qSlice) none⟩,
    ⟨"block_matmul_k", layerIndex, 0, .slices (.row n.kSlice) none⟩,
    ⟨"block_matmul_v", layerIndex, 0, .slices (.row n.vSlice) none⟩,
    ⟨"block_matmul_wo", layerIndex, 0, .slices (.column n.woSlice) none⟩] ++
  (if 0 < n.header.nExperts then
    ⟨"block_moe_gate", layerIndex, 0, .all n.moeGateSize⟩ ::
      (List.range n.header.nExperts).flatMap fun expertIndex =>
        [⟨"block_matmul_w1", layerIndex, expertIndex, .slices (.row n.w1Slice) none⟩,
          ⟨"block_matmul_w2", layerIndex, expertIndex, .slices (.column n.w2Slice) none⟩,
          ⟨"block_matmul_w3", layerIndex, expertIndex, .slices (.row n.w3Slice) none⟩]
  else
    [⟨"block_matmul_w1", layerIndex, 0, .slices (.row n.w1Slice) none⟩,
      ⟨"block_matmul_w2", layerIndex, 0, .slices (.column n.w2Slice) none⟩,
      ⟨"block_matmul_w3", layerIndex, 0, .slices (.row n.w3Slice) none⟩]) ++
  (if n.HasQkNorm then
    [⟨"block_norm_q", layerIndex, 0, .all n.qkRmsNormSize⟩,
      ⟨"block_norm_k", layerIndex, 0, .all n.qkRmsNormSize⟩]
  else []) ++
  [⟨"block_norm_0", layerIndex, 0, .all n.rmsNormSize⟩,
    ⟨"block_norm_1", layerIndex, 0, .all n.rmsNormSize⟩]

/-- The last stage as the loader computes it from the tensor group of the root. -/
def lastPpStage (nNodes tpGroupEnd : ℕ) : ℕ := if 1 < nNodes then nNodes / tpGroupEnd - 1 else 0

/-- Tensors in the order of the file. -/
def netLoads (n : LlmShape) (nNodes tpGroupEnd : ℕ) : List WeightLoad :=
  [⟨"embedding", 0, 0, .root n.tokenEmbeddingSize⟩] ++
  (List.range n.header.nLayers).flatMap (layerLoads n) ++
  [⟨"final_norm", 0, 0, .all n.rmsNormSize⟩,
    ⟨"final_matmul_logits", 0, 0, .slices (.column n.wclsSlice)
      (if 0 < lastPpStage nNodes tpGroupEnd then some (lastPpStage nNodes tpGroupEnd) else none)⟩]

/-- Tensors in the order of the file of a graph. -/
def loads (net : LlmNet) : List WeightLoad :=
  netLoads net.shape net.nodeConfigs.length
    ((net.nodeConfigs[0]?.map fun config => config.placement.tpGroupEnd).getD 0)

/-- A model file. -/
structure MmapFile where
  /-- Bytes of the header. -/
  headerSize : ℕ
  /-- All bytes, counted. -/
  fileSize : ℕ
  /-- The bytes. -/
  data : ℕ → UInt8

/-- Hand out tensors one after the other, from a byte of the file on. -/
def loadTensors (loader : NnRootWeightLoader) (data : ℕ → UInt8) :
    List WeightLoad → ℕ → ℕ → Except String (List (ℕ × WeightRecord) × ℕ)
  | [], b, _ => .ok ([], b)
  | load :: loads, b, tempSize => do
    let (records, room) ← load.load loader (fun i => data (b + i)) tempSize
    let (rest, last) ← loadTensors loader data loads (b + load.source.size.nBytes) room
    return (records ++ rest, last)

/-- Hand out a whole file. -/
def loadLlmNetWeight (loader : NnRootWeightLoader) (net : LlmNet) (file : MmapFile) :
    Except String (List (ℕ × WeightRecord)) := do
  let (records, b) ← loadTensors loader file.data (loads net) file.headerSize 0
  require (b = file.fileSize) "Missing bytes in weight file"
  return records

/-- A part that has been copied into the weight of an operation. -/
structure Applied where
  /-- Place of the operation on the node. -/
  position : ℕ
  /-- First byte in the weight. -/
  offset : ℕ
  /-- The bytes. -/
  weight : List UInt8
  deriving DecidableEq, Repr

/-- The first operation of a part's name and index, and its place. -/
def locate (ops : List NnOpConfig) (record : WeightRecord) : Option (NnOpConfig × ℕ) :=
  ops.zipIdx.find? fun op => op.1.index = record.opIndex ∧ op.1.name = record.opName

/-- Copy a part into the weight of its operation. A part for an operation the node does
not have is ignored. -/
def loadWeight (ops : List NnOpConfig) (record : WeightRecord) : Except String (Option Applied) :=
  match locate ops record with
  | none => .ok none
  | some (op, position) => do
    require (record.offset + record.weight.length ≤ op.weightSize.nBytes)
      "offset + nBytes <= context->weightSize.nBytes"
    return some ⟨position, record.offset, record.weight⟩

/-- Parts that a worker reads. The size of its buffer is a 32-bit word. -/
def readWeights (ops : List NnOpConfig) : List WeightRecord → ℕ → Except String (List Applied)
  | [], _ => .ok []
  | record :: records, tempSize => do
    let room := allocate tempSize (record.weight.length % 2 ^ 32)
    require (record.weight.length ≤ room) "heap-buffer-overflow"
    let applied ← loadWeight ops record
    let rest ← readWeights ops records room
    return applied.toList ++ rest

/-- Parts that the root copies. -/
def loadWeights (ops : List NnOpConfig) (records : List WeightRecord) :
    Except String (List Applied) := do
  let applied ← records.mapM (loadWeight ops)
  return applied.flatMap Option.toList

/-- Parts for a node. -/
def recordsOf (nodeIndex : ℕ) (records : List (ℕ × WeightRecord)) : List WeightRecord :=
  (records.filter fun record => record.1 = nodeIndex).map Prod.snd

/-- What a node has copied in the end. -/
def nodeWeights (ops : List NnOpConfig) (nodeIndex : ℕ) (records : List (ℕ × WeightRecord)) :
    Except String (List Applied) :=
  if nodeIndex = 0 then loadWeights ops (recordsOf nodeIndex records)
  else readWeights ops (recordsOf nodeIndex records) 0

end LayerSkip.WeightLoader
