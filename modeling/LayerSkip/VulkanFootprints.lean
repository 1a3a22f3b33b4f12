import LayerSkip.VulkanMatmul

/-!
# What operations of the graphics device read and write

The segment lists the buffers of an operation with the kind of access to each of them. A shader
reads and writes elements of these buffers, those of a work group depend on the rows of the batch
and, for the caches, on positions that are read from a pipe. Buffers that no operation can write,
which hold rows, weights and configurations, are left out of what a shader reads.
-/

namespace LayerSkip.VulkanFootprints

open NnTopology NnPipeline NnCore NnCpu EqualPieces DataMoving MoeKernels VulkanDevice
open VulkanMatmul (WorkGroup)

/-- Buffers of the device: pipes, buffers of the node, and those of an operation. -/
inductive NnVulkanBuffer
  | pipe (pipeIndex : ℕ)
  | buffer (bufferIndex : ℕ)
  | batchInfo (opIndex : ℕ)
  | weight (opIndex : ℕ)
  | config (opIndex : ℕ)
  deriving DecidableEq, Repr

/-- Kinds of access. -/
inductive NnOpBufferAccessType
  | immutable
  | readonly
  | readWrite
  deriving DecidableEq, Repr

/-- The access of an operation to a buffer. -/
structure NnOpBufferAccess where
  /-- Kind. -/
  type : NnOpBufferAccessType
  /-- Buffer. -/
  buffer : NnVulkanBuffer
  deriving DecidableEq, Repr

/-- What the device knows of the node. -/
structure NnVulkanDeviceData where
  /-- Rows of a batch. -/
  nBatches : ℕ
  /-- Size of the tensor group. -/
  tpSize : ℕ
  /-- Rank in the tensor group. -/
  tpRank : ℕ
  /-- Sizes of the pipes. -/
  pipes : List NnSize3D
  /-- Sizes of the buffers. -/
  buffers : List NnSize3D
  /-- Bytes that are made visible to the host together. -/
  nonCoherentAtomSize : ℕ
  deriving DecidableEq, Repr

/-- The buffer behind a pointer. -/
def pointerBuffer (config : NnPointerConfig) : NnVulkanBuffer :=
  match config.source with
  | .pipe => .pipe config.pointerIndex
  | .buffer => .buffer config.pointerIndex

/-- Bytes of the configuration of an operation. A structure without fields has one byte. -/
def configSize : NnOpCode → ℕ
  | .mergeAdd => 1
  | .mergeSum => 1
  | .embedding => 1
  | .invRms _ => 8
  | .rmsNorm _ _ => 8
  | .matmul _ _ _ => 12
  | .rope _ => 120
  | .multiheadAtt _ => 60
  | .silu => 1
  | .mul _ => 4
  | .scale _ => 4
  | .cast => 1
  | .repeatZ => 1
  | .shift _ => 12
  | .softmax => 1
  | .moeGate _ _ => 12

section Layout

variable (data : NnVulkanDeviceData)

/-- A pipe. -/
def resolvePipeByIndex (pipeIndex : ℕ) : Except String NnVulkanBuffer := do
  require (pipeIndex < data.pipes.length) "pipeIndex < netConfig->nPipes"
  return .pipe pipeIndex

/-- A buffer of the node. -/
def resolveBufferByIndex (bufferIndex : ℕ) : Except String NnVulkanBuffer := do
  require (bufferIndex < data.buffers.length) "bufferIndex < nodeConfig->nBuffers"
  return .buffer bufferIndex

/-- The buffer behind a pointer, if there is one. -/
def resolvePointerVulkanBuffer (config : NnPointerConfig) : Except String NnVulkanBuffer :=
  match config.source with
  | .buffer => resolveBufferByIndex data config.pointerIndex
  | .pipe => resolvePipeByIndex data config.pointerIndex

/-- The size of what is behind a pointer. -/
def resolveBufferSize (config : NnPointerConfig) : Except String NnSize3D :=
  match config.source with
  | .buffer =>
    match data.buffers[config.pointerIndex]? with
    | some size => .ok size
    | none => .error "bufferIndex < nodeConfig->nBuffers"
  | .pipe =>
    match data.pipes[config.pointerIndex]? with
    | some size => .ok size
    | none => .error "pipeIndex < netConfig->nPipes"

/-- The accesses that follow from the configuration of an operation. -/
def configAccesses (code : NnOpCode) : Except String (List NnOpBufferAccess) :=
  match code with
  | .rmsNorm invRmsBufferIndex _ => do
    let invRms ← resolveBufferByIndex data invRmsBufferIndex
    return [⟨.readonly, invRms⟩]
  | .mul multiplierBufferIndex => do
    let multiplier ← resolveBufferByIndex data multiplierBufferIndex
    return [⟨.readonly, multiplier⟩]
  | .matmul _ _ activeExpertIndexesBufferIndex => do
    let activeExpertIndexes ← resolveBufferByIndex data activeExpertIndexesBufferIndex
    return [⟨.readonly, activeExpertIndexes⟩]
  | .scale scaleBufferIndex => do
    let scale ← resolveBufferByIndex data scaleBufferIndex
    return [⟨.readonly, scale⟩]
  | .shift indexPipeIndex => do
    let index ← resolvePipeByIndex data indexPipeIndex
    return [⟨.readonly, index⟩]
  | .rope config => do
    let positions ← resolvePipeByIndex data config.positionPipeIndex
    let ropeCache ← resolveBufferByIndex data config.ropeCacheBufferIndex
    return [⟨.readonly, positions⟩, ⟨.immutable, ropeCache⟩]
  | .multiheadAtt config => do
    let positions ← resolvePipeByIndex data config.positionPipeIndex
    let query ← resolveBufferByIndex data config.queryBufferIndex
    let keyCache ← resolveBufferByIndex data config.keyCacheBufferIndex
    let valueCache ← resolveBufferByIndex data config.valueCacheBufferIndex
    let att ← resolveBufferByIndex data config.attBufferIndex
    return [⟨.readonly, positions⟩, ⟨.readonly, query⟩, ⟨.readonly, keyCache⟩,
      ⟨.readonly, valueCache⟩, ⟨.readWrite, att⟩]
  | .moeGate _ indexesBufferIndex => do
    let indexes ← resolveBufferByIndex data indexesBufferIndex
    return [⟨.readWrite, indexes⟩]
  | _ => return []

/-- The accesses of an operation, in the order of the bindings of its shader. -/
def buildShaderLayout (opIndex : ℕ) (opConfig : NnOpConfig) :
    Except String (List NnOpBufferAccess) := do
  let input ← resolvePointerVulkanBuffer data opConfig.input
  let output ← resolvePointerVulkanBuffer data opConfig.output
  let config ← configAccesses data opConfig.code
  return [⟨.readonly, input⟩, ⟨.readWrite, output⟩, ⟨.immutable, .batchInfo opIndex⟩] ++
    (if opConfig.weightSize.nBytes > 0 then [⟨.immutable, .weight opIndex⟩] else []) ++
    (if configSize opConfig.code > 0 then ⟨.immutable, .config opIndex⟩ :: config else [])

theorem resolveBufferByIndex_eq {bufferIndex : ℕ} {buffer : NnVulkanBuffer}
    (h : resolveBufferByIndex data bufferIndex = .ok buffer) : buffer = .buffer bufferIndex := by
  obtain ⟨_, _, h⟩ := bind_eq_ok h
  injection h with h
  exact h.symm

theorem resolvePipeByIndex_eq {pipeIndex : ℕ} {buffer : NnVulkanBuffer}
    (h : resolvePipeByIndex data pipeIndex = .ok buffer) : buffer = .pipe pipeIndex := by
  obtain ⟨_, _, h⟩ := bind_eq_ok h
  injection h with h
  exact h.symm

theorem resolvePointerVulkanBuffer_eq {config : NnPointerConfig} {buffer : NnVulkanBuffer}
    (h : resolvePointerVulkanBuffer data config = .ok buffer) : buffer = pointerBuffer config := by
  unfold resolvePointerVulkanBuffer at h
  unfold pointerBuffer
  cases hsource : config.source with
  | pipe =>
    simp only [hsource] at h ⊢
    exact resolvePipeByIndex_eq data h
  | buffer =>
    simp only [hsource] at h ⊢
    exact resolveBufferByIndex_eq data h

end Layout

/-- Bytes of a buffer. -/
structure NnRegion where
  /-- Buffer. -/
  buffer : NnVulkanBuffer
  /-- First byte. -/
  first : ℕ
  /-- Number of bytes. -/
  size : ℕ
  deriving DecidableEq, Repr

/-- A byte is in a region. -/
def NnRegion.Has (region : NnRegion) (byte : ℕ) : Prop :=
  region.first ≤ byte ∧ byte < region.first + region.size

instance (region : NnRegion) (byte : ℕ) : Decidable (region.Has byte) :=
  inferInstanceAs (Decidable (_ ∧ _))

/-- What a work group reads and writes. -/
structure NnFootprint where
  /-- Read. -/
  reads : List NnRegion
  /-- Written. -/
  writes : List NnRegion
  deriving DecidableEq, Repr

/-- Consecutive elements. -/
def span (first count : ℕ) : List ℕ := (List.range count).map (first + ·)

/-- Numbers of a buffer. -/
def floats (buffer : NnVulkanBuffer) (elements : List ℕ) : List NnRegion :=
  elements.map fun i => ⟨buffer, i % uintRange * getBytes .f32 1, getBytes .f32 1⟩

/-- Blocks of a buffer. -/
def blocks (buffer : NnVulkanBuffer) (elements : List ℕ) : List NnRegion :=
  elements.map fun i =>
    ⟨buffer, i % uintRange * getBytes .q80 q80BlockSize, getBytes .q80 q80BlockSize⟩

theorem buffer_of_mem_floats {buffer : NnVulkanBuffer} {elements : List ℕ} {region : NnRegion}
    (h : region ∈ floats buffer elements) : region.buffer = buffer := by
  obtain ⟨_, _, heq⟩ := List.mem_map.mp h
  rw [← heq]

theorem buffer_of_mem_blocks {buffer : NnVulkanBuffer} {elements : List ℕ} {region : NnRegion}
    (h : region ∈ blocks buffer elements) : region.buffer = buffer := by
  obtain ⟨_, _, heq⟩ := List.mem_map.mp h
  rw [← heq]

section Shaders

variable (infos : List NnVulkanBatchInfo) (nBatches : ℕ) (x y : NnVulkanBuffer) (group : WorkGroup)

/-- The rows of a work group in a plane. -/
def batchInfo (z : ℕ) : NnVulkanBatchInfo := infos.getD (z * nBatches + group.y) default

/-- A chunk of a row to a chunk of a row. -/
def chunkForward (info : NnVulkanBatchInfo) : NnFootprint where
  reads := floats x (span (info.inputOffset + group.x * chunkSize) chunkSize)
  writes := floats y (span (info.outputOffset + group.x * chunkSize) chunkSize)

/-- Cast. -/
def castForwardF32F32 : NnFootprint :=
  chunkForward x y group (batchInfo infos nBatches group group.z)

/-- Cast to blocks. -/
def castForwardF32Q80 : NnFootprint :=
  let info := batchInfo infos nBatches group group.z
  { reads := floats x (span (info.inputOffset + group.x * q80BlockSize) q80BlockSize)
    writes := blocks y [info.outputOffset + group.x] }

/-- Embedding of the token of a row. -/
def embeddingForwardF32F32 : NnFootprint where
  reads := floats x [group.y]
  writes := (chunkForward x y group (batchInfo infos nBatches group 0)).writes

/-- Inverse root mean square of a part of a row. -/
def invRmsForwardF32F32 (nColumns : ℕ) : NnFootprint :=
  let info := batchInfo infos nBatches group 0
  let dim := info.inputSizeX / nColumns
  { reads := floats x (span (info.inputOffset + dim * group.x) dim)
    writes := floats y [group.y * nColumns + group.x] }

/-- Part of a row that a work group takes, the first ones take one more of the rest. -/
def sliceOffset (outputSizeX nWorkGroups : ℕ) : ℕ :=
  group.x * (outputSizeX / nWorkGroups) + min group.x (outputSizeX % nWorkGroups)

/-- Values of this part. -/
def sliceDim (outputSizeX nWorkGroups : ℕ) : ℕ :=
  outputSizeX / nWorkGroups + if group.x < outputSizeX % nWorkGroups then 1 else 0

/-- The expert index that a product reads. -/
def expertReads (nExperts nActiveExperts : ℕ) (activeExpertIndexes : NnVulkanBuffer) :
    List NnRegion :=
  if nExperts = 0 then [] else floats activeExpertIndexes [group.y * nActiveExperts + group.z]

/-- Product with a weight of numbers. -/
def matmulForwardF32F32F32 (nWorkGroups nExperts nActiveExperts : ℕ)
    (activeExpertIndexes : NnVulkanBuffer) : NnFootprint :=
  let info := batchInfo infos nBatches group group.z
  let dim := sliceDim group info.outputSizeX nWorkGroups
  { reads := expertReads group nExperts nActiveExperts activeExpertIndexes ++
      (List.range dim).flatMap fun _ => floats x (span info.inputOffset info.inputSizeX)
    writes := floats y
      (span (info.outputOffset + sliceOffset group info.outputSizeX nWorkGroups) dim) }

/-- Product of blocks with a weight of blocks. -/
def matmulForwardQ80Q40F32 (nThreads nExperts nActiveExperts : ℕ)
    (activeExpertIndexes : NnVulkanBuffer) : NnFootprint :=
  let info := batchInfo infos nBatches group group.z
  { reads := expertReads group nExperts nActiveExperts activeExpertIndexes ++
      blocks x (span info.inputOffset (tileSizeX * nThreads))
    writes := floats y (span (info.outputOffset + tileSizeD * group.x) tileSizeD) }

/-- Adds the parts of a row to the output. -/
def mergeAddForwardF32F32 (nWorkGroups : ℕ) : NnFootprint :=
  let info := batchInfo infos nBatches group 0
  let offset := sliceOffset group info.outputSizeX nWorkGroups
  let dim := sliceDim group info.outputSizeX nWorkGroups
  let parts := info.inputSizeX / info.outputSizeX
  let output := floats y (span (info.outputOffset + offset) dim)
  { reads := ((List.range parts).flatMap fun n =>
      floats x (span (n * info.outputSizeX + (info.inputOffset + offset)) dim)) ++ output
    writes := output }

/-- Adds the parts of a row of blocks to the output. -/
def mergeAddForwardQ80F32 : NnFootprint :=
  let info := batchInfo infos nBatches group 0
  let nBlocks := info.outputSizeX / q80BlockSize
  let nSlices := info.inputSizeX / nBlocks
  let output := floats y (span (info.outputOffset + group.x * q80BlockSize) q80BlockSize)
  { reads :=
      blocks x ((List.range nSlices).map fun n => info.inputOffset + group.x + n * nBlocks) ++ output
    writes := output }

/-- Sum over planes. -/
def mergeSumForwardF32F32 (nZ : ℕ) : NnFootprint where
  reads := (List.range nZ).flatMap fun z =>
    (chunkForward x y group (batchInfo infos nBatches group z)).reads
  writes := (chunkForward x y group (batchInfo infos nBatches group 0)).writes

/-- Choice of experts. -/
def moeGateForwardF32F32 (k : ℕ) (indexes : NnVulkanBuffer) : NnFootprint :=
  let info := batchInfo infos nBatches group 0
  { reads := floats x (span info.inputOffset info.inputSizeX)
    writes := floats indexes (span (group.y * k) k) ++
      floats y ((List.range k).map fun e => (batchInfo infos nBatches group e).outputOffset) }

/-- Product of values. The output is taken at the place of the input. -/
def mulForwardF32F32 (multiplier : NnVulkanBuffer) : NnFootprint :=
  let info := batchInfo infos nBatches group group.z
  let xyOffset := info.inputOffset + group.x * chunkSize
  let mOffset := info.inputSizeX * (group.z * nBatches + group.y) + group.x * chunkSize
  { reads := floats x (span xyOffset chunkSize) ++ floats multiplier (span mOffset chunkSize)
    writes := floats y (span xyOffset chunkSize) }

/-- Attention of a head over all positions up to that of the row. -/
def multiHeadAttForwardF32F32 (config : NnMultiHeadAttOpConfig) (position : ℕ) : NnFootprint :=
  let info := batchInfo infos nBatches group 0
  let headIndex := group.x / (config.nHeads / config.nKvHeads)
  let attOffset := group.y * config.nHeads0 * config.seqLen + group.x * config.seqLen
  let qOffset := group.y * config.qSliceD0 + group.x * config.headDim
  let kvOffset := headIndex * config.headDim
  let scores := floats (.buffer config.attBufferIndex) (span attOffset (position + 1))
  let rows := fun cache => (List.range (position + 1)).flatMap fun p =>
    floats cache (span (kvOffset + p * config.kvDim0) config.headDim)
  { reads := floats (.pipe config.positionPipeIndex) [group.y] ++
      floats (.buffer config.queryBufferIndex) (span qOffset config.headDim) ++
      rows (.buffer config.keyCacheBufferIndex) ++ rows (.buffer config.valueCacheBufferIndex) ++
      scores
    writes := scores ++
      floats y (span (info.outputOffset + group.x * config.headDim) config.headDim) }

/-- Cast of a row to the blocks of all planes. -/
def repeatzForwardF32Q80 (nZ : ℕ) : NnFootprint :=
  let info := batchInfo infos nBatches group 0
  { reads := floats x (span (info.inputOffset + group.x * q80BlockSize) q80BlockSize)
    writes := blocks y
      ((List.range nZ).map fun z => (batchInfo infos nBatches group z).outputOffset + group.x) }

/-- Normalised chunk of a row. -/
def rmsNormForwardF32F32F32 (nColumns : ℕ) (invRms : NnVulkanBuffer) : NnFootprint :=
  let info := batchInfo infos nBatches group 0
  let dim := info.inputSizeX / nColumns
  let colIndex := group.x * chunkSize / dim
  let chunk := chunkForward x y group info
  { reads := floats invRms [group.y * nColumns + colIndex] ++ chunk.reads
    writes := chunk.writes }

/-- Pairs of a row that are rotated together, with the place of their angle in the cache. -/
def ropePairs (config : NnRopeOpConfig) (position : ℕ) : List ((ℕ × ℕ) × (ℕ × ℕ)) :=
  let dim0 := if config.isQ then config.qDim0 else config.kvDim0
  match config.type with
  | .falcon =>
    let headDimHalf := config.headDim / 2
    (List.range (dim0 / config.headDim)).flatMap fun h => (List.range headDimHalf).map fun i =>
      ((h * config.headDim + i, h * config.headDim + i + headDimHalf),
        (position * config.headDim + i, position * config.headDim + i + headDimHalf))
  | _ =>
    let posOffset := position * config.sliceDim + if config.isQ then config.qShift else 0
    (List.range (dim0 / 2)).map fun i =>
      ((i * 2, i * 2 + 1), (posOffset + i * 2, posOffset + i * 2 + 1))

/-- Rotation of a row by its position. -/
def ropeForwardF32F32 (config : NnRopeOpConfig) (position : ℕ) : NnFootprint :=
  let info := batchInfo infos nBatches group 0
  let pairs := ropePairs config position
  let values := fun offset => pairs.flatMap fun pair => [offset + pair.1.1, offset + pair.1.2]
  { reads := floats (.pipe config.positionPipeIndex) [group.y] ++
      floats (.buffer config.ropeCacheBufferIndex)
        (pairs.flatMap fun pair => [pair.2.1, pair.2.2]) ++
      floats x (values info.inputOffset)
    writes := floats y (values info.outputOffset) }

/-- Chunk of a row times the number of the row. -/
def scaleForwardF32F32 (scale : NnVulkanBuffer) : NnFootprint :=
  let chunk := chunkForward x y group (batchInfo infos nBatches group group.z)
  { reads := floats scale [group.z * nBatches + group.y] ++ chunk.reads
    writes := chunk.writes }

/-- Chunk of a row to the row at an index. -/
def shiftForwardF32F32 (indexPipe : NnVulkanBuffer) (index : ℕ) : NnFootprint :=
  let info := batchInfo infos nBatches group 0
  { reads := floats indexPipe [group.y] ++ (chunkForward x y group info).reads
    writes := floats y (span (index * info.inputSizeX + group.x * chunkSize) chunkSize) }

/-- Activation. -/
def siluForwardF32F32 : NnFootprint :=
  chunkForward x y group (batchInfo infos nBatches group group.z)

/-- Exponentials of a row. -/
def softmaxForwardF32F32 : NnFootprint :=
  let info := batchInfo infos nBatches group group.z
  { reads := floats x (span info.inputOffset info.inputSizeX)
    writes := floats y (span info.outputOffset info.inputSizeX) }

end Shaders

/-- An operation of a segment, as the device has prepared it. -/
structure NnVulkanSegmentOp where
  /-- Configuration. -/
  opConfig : NnOpConfig
  /-- Shader. -/
  shader : NnShader
  /-- Rows of the batch. -/
  infos : List NnVulkanBatchInfo
  /-- Constants of the shader. -/
  constants : List ℕ
  /-- Accesses to buffers. -/
  accesses : List NnOpBufferAccess
  deriving DecidableEq, Repr

/-- Numbers of work groups. -/
structure NnGroupCounts where
  /-- For the parts of a row. -/
  x : ℕ
  /-- For the rows of the batch. -/
  y : ℕ
  /-- For the planes. -/
  z : ℕ
  deriving DecidableEq, Repr

/-- The work groups. -/
def NnGroupCounts.workGroups (counts : NnGroupCounts) : List WorkGroup :=
  (List.range counts.x).flatMap fun x => (List.range counts.y).flatMap fun y =>
    (List.range counts.z).map fun z => ⟨x, y, z⟩

namespace NnVulkanSegmentOp

variable (op : NnVulkanSegmentOp)

/-- What a work group reads and writes. The index is that of the row of the work group: where a row
goes in a cache, or the position of the row. -/
def groupFootprint (nWorkGroups index : ℕ) (group : WorkGroup) : NnFootprint :=
  let nBatches := op.constants.getD 0 32
  let nZ := op.constants.getD 1 1
  let x := pointerBuffer op.opConfig.input
  let y := pointerBuffer op.opConfig.output
  match op.shader, op.opConfig.code with
  | .castForwardF32F32, _ => castForwardF32F32 op.infos nBatches x y group
  | .castForwardF32Q80, _ => castForwardF32Q80 op.infos nBatches x y group
  | .embeddingForwardF32F32, _ => embeddingForwardF32F32 op.infos nBatches x y group
  | .invRmsForwardF32F32, .invRms nColumns =>
    invRmsForwardF32F32 op.infos nBatches x y group nColumns
  | .matmulForwardF32F32F32, .matmul nExperts nActiveExperts activeExpertIndexes =>
    matmulForwardF32F32F32 op.infos nBatches x y group nWorkGroups nExperts nActiveExperts
      (.buffer activeExpertIndexes)
  | .matmulForwardQ80Q40F32, .matmul nExperts nActiveExperts activeExpertIndexes =>
    matmulForwardQ80Q40F32 op.infos nBatches x y group (op.constants.getD 2 32) nExperts
      nActiveExperts (.buffer activeExpertIndexes)
  | .mergeAddForwardF32F32, _ => mergeAddForwardF32F32 op.infos nBatches x y group nWorkGroups
  | .mergeAddForwardQ80F32, _ => mergeAddForwardQ80F32 op.infos nBatches x y group
  | .mergeSumForwardF32F32, _ => mergeSumForwardF32F32 op.infos nBatches x y group nZ
  | .moeGateForwardF32F32, .moeGate _ indexes =>
    moeGateForwardF32F32 op.infos nBatches x y group (op.constants.getD 2 2) (.buffer indexes)
  | .mulForwardF32F32, .mul multiplier =>
    mulForwardF32F32 op.infos nBatches x y group (.buffer multiplier)
  | .multiHeadAttForwardF32F32, .multiheadAtt config =>
    multiHeadAttForwardF32F32 op.infos nBatches y group config index
  | .repeatzForwardF32Q80, _ => repeatzForwardF32Q80 op.infos nBatches x y group nZ
  | .rmsNormForwardF32F32F32, .rmsNorm invRms nColumns =>
    rmsNormForwardF32F32F32 op.infos nBatches x y group nColumns (.buffer invRms)
  | .ropeForwardF32F32, .rope config => ropeForwardF32F32 op.infos nBatches x y group config index
  | .scaleForwardF32F32, .scale scale =>
    scaleForwardF32F32 op.infos nBatches x y group (.buffer scale)
  | .shiftForwardF32F32, .shift indexPipe =>
    shiftForwardF32F32 op.infos nBatches x y group (.pipe indexPipe) index
  | .siluForwardF32F32, _ => siluForwardF32F32 op.infos nBatches x y group
  | .softmaxForwardF32F32, _ => softmaxForwardF32F32 op.infos nBatches x y group
  | _, _ => ⟨[], []⟩

/-- What all work groups read and write, for the indexes of the rows. -/
def footprint (counts : NnGroupCounts) (index : ℕ → ℕ) : NnFootprint where
  reads := counts.workGroups.flatMap fun group =>
    (op.groupFootprint counts.x (index group.y) group).reads
  writes := counts.workGroups.flatMap fun group =>
    (op.groupFootprint counts.x (index group.y) group).writes

/-- Only the output, the attention weights and the chosen experts are written. -/
theorem buffer_of_mem_writes {nWorkGroups index : ℕ} {group : WorkGroup} {region : NnRegion}
    (h : region ∈ (op.groupFootprint nWorkGroups index group).writes) :
    region.buffer = pointerBuffer op.opConfig.output ∨
      (∃ config, op.opConfig.code = .multiheadAtt config ∧
        region.buffer = .buffer config.attBufferIndex) ∨
      ∃ k indexes, op.opConfig.code = .moeGate k indexes ∧ region.buffer = .buffer indexes := by
  unfold groupFootprint at h
  split at h
  case h_10 k indexes _ hcode =>
    cases List.mem_append.mp h with
    | inl h => exact .inr (.inr ⟨k, indexes, hcode, buffer_of_mem_floats h⟩)
    | inr h => exact .inl (buffer_of_mem_floats h)
  case h_12 config _ hcode =>
    cases List.mem_append.mp h with
    | inl h => exact .inr (.inl ⟨config, hcode, buffer_of_mem_floats h⟩)
    | inr h => exact .inl (buffer_of_mem_floats h)
  all_goals first
    | exact .inl (buffer_of_mem_floats h)
    | exact .inl (buffer_of_mem_blocks h)
    | cases h

/-- What is written is listed as read and written. -/
theorem readWrite_of_mem_writes {data : NnVulkanDeviceData} {opIndex : ℕ}
    {accesses : List NnOpBufferAccess}
    (hlayout : buildShaderLayout data opIndex op.opConfig = .ok accesses)
    {counts : NnGroupCounts} {index : ℕ → ℕ} {region : NnRegion}
    (h : region ∈ (op.footprint counts index).writes) :
    ⟨.readWrite, region.buffer⟩ ∈ accesses := by
  obtain ⟨group, _, hmem⟩ := List.mem_flatMap.mp h
  obtain ⟨input, _, hlayout⟩ := bind_eq_ok hlayout
  obtain ⟨output, houtput, hlayout⟩ := bind_eq_ok hlayout
  obtain ⟨config, hconfig, hlayout⟩ := bind_eq_ok hlayout
  injection hlayout with hlayout
  have hsize : configSize op.opConfig.code > 0 := by
    cases op.opConfig.code <;> simp [configSize]
  rw [if_pos hsize] at hlayout
  have hlisted : ∀ access ∈ config, access ∈ accesses := by
    intro access haccess
    rw [← hlayout]
    exact List.mem_append_right _ (List.mem_cons_of_mem _ haccess)
  obtain hbuffer | ⟨config', hcode, hbuffer⟩ | ⟨k, indexes, hcode, hbuffer⟩ :=
    op.buffer_of_mem_writes hmem
  · rw [hbuffer, ← resolvePointerVulkanBuffer_eq data houtput, ← hlayout]
    simp
  · rw [hcode] at hconfig
    obtain ⟨_, _, hconfig⟩ := bind_eq_ok hconfig
    obtain ⟨_, _, hconfig⟩ := bind_eq_ok hconfig
    obtain ⟨_, _, hconfig⟩ := bind_eq_ok hconfig
    obtain ⟨_, _, hconfig⟩ := bind_eq_ok hconfig
    obtain ⟨att, hatt, hconfig⟩ := bind_eq_ok hconfig
    injection hconfig with hconfig
    apply hlisted
    rw [hbuffer, ← resolveBufferByIndex_eq data hatt, ← hconfig]
    simp
  · rw [hcode] at hconfig
    obtain ⟨buffer, hresolve, hconfig⟩ := bind_eq_ok hconfig
    injection hconfig with hconfig
    apply hlisted
    rw [hbuffer, ← resolveBufferByIndex_eq data hresolve, ← hconfig]
    simp

end NnVulkanSegmentOp

end LayerSkip.VulkanFootprints
