import LayerSkip.DataMoving
import LayerSkip.DevicePlacement
import LayerSkip.MoeKernels

/-!
# Operations on the graphics device

The device runs a shader for each operation. Before that the host computes for each row of a batch
where it starts in the input and in the output, the constants of the shader and the number of work
groups. Offsets and numbers are 32-bit words, rows of quantised values are counted in blocks.
-/

namespace LayerSkip.VulkanDevice

open NnPipeline NnCore NnCpu EqualPieces DataMoving MoeKernels

/-- What a pointer points into. -/
inductive NnPointerSource
  | pipe
  | buffer
  deriving DecidableEq, Repr

/-- A pointer. -/
structure NnPointerConfig where
  /-- Pipe or buffer. -/
  source : NnPointerSource
  /-- Index of it. -/
  pointerIndex : ℕ
  /-- Part of it. -/
  type : NnPointerType
  deriving DecidableEq, Repr

/-- Configuration of a rotary embedding. -/
structure NnRopeOpConfig where
  /-- Kind. -/
  type : NnRopeType
  /-- The input is a query. -/
  isQ : Bool
  /-- Positions. -/
  positionPipeIndex : ℕ
  /-- Rotary cache. -/
  ropeCacheBufferIndex : ℕ
  /-- Query columns of the rank. -/
  qDim0 : ℕ
  /-- Query columns before those of the keys. -/
  qShift : ℕ
  /-- Key columns of the rank. -/
  kvDim0 : ℕ
  /-- Columns of the cache. -/
  sliceDim : ℕ
  /-- Columns of a head. -/
  headDim : ℕ
  deriving DecidableEq, Repr

/-- Configuration of an attention. -/
structure NnMultiHeadAttOpConfig where
  /-- All query heads. -/
  nHeads : ℕ
  /-- Query heads of the rank. -/
  nHeads0 : ℕ
  /-- Key heads. -/
  nKvHeads : ℕ
  /-- Values of a head. -/
  headDim : ℕ
  /-- Length of the context. -/
  seqLen : ℕ
  /-- Values of a query row of the rank. -/
  qSliceD0 : ℕ
  /-- Values of a cache row of the rank. -/
  kvDim0 : ℕ
  /-- Positions. -/
  positionPipeIndex : ℕ
  /-- Queries. -/
  queryBufferIndex : ℕ
  /-- Key cache. -/
  keyCacheBufferIndex : ℕ
  /-- Value cache. -/
  valueCacheBufferIndex : ℕ
  /-- Attention weights. -/
  attBufferIndex : ℕ
  deriving DecidableEq, Repr

/-- Kinds of operations with their configurations. -/
inductive NnOpCode
  | mergeAdd
  | mergeSum
  | embedding
  | invRms (nColumns : ℕ)
  | rmsNorm (invRmsBufferIndex nColumns : ℕ)
  | matmul (nExperts nActiveExperts activeExpertIndexesBufferIndex : ℕ)
  | rope (config : NnRopeOpConfig)
  | multiheadAtt (config : NnMultiHeadAttOpConfig)
  | silu
  | mul (multiplierBufferIndex : ℕ)
  | scale (scaleBufferIndex : ℕ)
  | cast
  | repeatZ
  | shift (indexPipeIndex : ℕ)
  | softmax
  | moeGate (k indexesBufferIndex : ℕ)
  deriving DecidableEq, Repr

/-- An operation. -/
structure NnOpConfig where
  /-- Kind. -/
  code : NnOpCode
  /-- Input. -/
  input : NnPointerConfig
  /-- Output. -/
  output : NnPointerConfig
  /-- Weight. -/
  weightSize : NnSize3D
  deriving DecidableEq, Repr

/-- Shaders, under the names of their files. -/
inductive NnShader
  | mergeAddForwardF32F32
  | mergeAddForwardQ80F32
  | mergeSumForwardF32F32
  | embeddingForwardF32F32
  | ropeForwardF32F32
  | invRmsForwardF32F32
  | matmulForwardF32F32F32
  | matmulForwardQ80Q40F32
  | multiHeadAttForwardF32F32
  | rmsNormForwardF32F32F32
  | siluForwardF32F32
  | mulForwardF32F32
  | scaleForwardF32F32
  | castForwardF32F32
  | castForwardF32Q80
  | repeatzForwardF32Q80
  | shiftForwardF32F32
  | softmaxForwardF32F32
  | moeGateForwardF32F32
  deriving DecidableEq, Repr

/-- The shader of an operation. -/
def getShaderFileName (code : NnOpCode) (quantType : NnOpQuantType) : Except String NnShader :=
  match code, quantType with
  | .mergeAdd, .f32f32f32 => .ok .mergeAddForwardF32F32
  | .mergeAdd, .q80q80f32 => .ok .mergeAddForwardQ80F32
  | .mergeSum, .f32f32f32 => .ok .mergeSumForwardF32F32
  | .embedding, .f32f32f32 => .ok .embeddingForwardF32F32
  | .rope _, .f32f32f32 => .ok .ropeForwardF32F32
  | .invRms _, .f32f32f32 => .ok .invRmsForwardF32F32
  | .matmul _ _ _, .f32f32f32 => .ok .matmulForwardF32F32F32
  | .matmul _ _ _, .q80q40f32 => .ok .matmulForwardQ80Q40F32
  | .multiheadAtt _, .f32f32f32 => .ok .multiHeadAttForwardF32F32
  | .rmsNorm _ _, .f32f32f32 => .ok .rmsNormForwardF32F32F32
  | .silu, .f32f32f32 => .ok .siluForwardF32F32
  | .mul _, .f32f32f32 => .ok .mulForwardF32F32
  | .scale _, .f32f32f32 => .ok .scaleForwardF32F32
  | .cast, .f32f32f32 => .ok .castForwardF32F32
  | .cast, .f32f32q80 => .ok .castForwardF32Q80
  | .repeatZ, .f32f32q80 => .ok .repeatzForwardF32Q80
  | .shift _, .f32f32f32 => .ok .shiftForwardF32F32
  | .softmax, .f32f32f32 => .ok .softmaxForwardF32F32
  | .moeGate _ _, .f32f32f32 => .ok .moeGateForwardF32F32
  | _, _ => .error "Unsupported shader"

section BatchInfo

variable (nBatches tpSize tpRank : ℕ)

/-- Values of a row, or its blocks when the values are quantised. -/
def resolveSizeX (bufferSize : NnSize3D) : Except String ℕ :=
  match bufferSize.floatType with
  | none => .error "Unsupported float type"
  | some floatType =>
    if bufferSize.x % getBlockSize floatType = 0 then
      .ok (bufferSize.x / getBlockSize floatType)
    else .error "bufferSize.x % blockSize == 0"

/-- Where a row of a batch starts. -/
def resolveBufferBatchOffset (type : NnPointerType) (bufferSize : NnSize3D)
    (batchIndex zIndex : ℕ) : Except String ℕ := do
  require (batchIndex < nBatches) "batchIndex < netConfig->nBatches"
  match type with
  | .raw => return 0
  | .batch =>
    let sizeX ← resolveSizeX bufferSize
    return (sizeX * nBatches * zIndex + sizeX * batchIndex) % uintRange
  | .batchedSlice =>
    let sizeX ← resolveSizeX bufferSize
    require (sizeX % tpSize = 0) "sizeX % tpSize == 0"
    return (sizeX * nBatches * zIndex + sizeX * batchIndex + sizeX / tpSize * tpRank) % uintRange

/-- The width of the part of a row. -/
def resolveBufferBatchWidth (type : NnPointerType) (bufferSize : NnSize3D) : Except String ℕ := do
  let sizeX ← resolveSizeX bufferSize
  match type with
  | .raw => return sizeX
  | .batch => return sizeX
  | .batchedSlice =>
    require (sizeX % tpSize = 0) "sizeX % tpSize == 0"
    return sizeX / tpSize

/-- Where a row of a batch is in the input and in the output. -/
structure NnVulkanBatchInfo where
  /-- Start in the input. -/
  inputOffset : ℕ
  /-- Width in the input. -/
  inputSizeX : ℕ
  /-- Start in the output. -/
  outputOffset : ℕ
  /-- Width in the output. -/
  outputSizeX : ℕ
  deriving DecidableEq, Repr, Inhabited

/-- Planes of an operation. -/
def resolveNumberOfBatchInfoZ (inputSize outputSize : NnSize3D) : ℕ := max inputSize.z outputSize.z

/-- The rows of a plane. -/
def batchInfoAt (inputType : NnPointerType) (inputSize : NnSize3D) (outputType : NnPointerType)
    (outputSize : NnSize3D) (zIndex batchIndex : ℕ) : Except String NnVulkanBatchInfo := do
  let inputOffset ←
    resolveBufferBatchOffset nBatches tpSize tpRank inputType inputSize batchIndex zIndex
  let inputSizeX ← resolveBufferBatchWidth tpSize inputType inputSize
  let outputOffset ←
    resolveBufferBatchOffset nBatches tpSize tpRank outputType outputSize batchIndex zIndex
  let outputSizeX ← resolveBufferBatchWidth tpSize outputType outputSize
  return ⟨inputOffset, inputSizeX, outputOffset, outputSizeX⟩

/-- The rows of all planes, plane by plane. -/
def buildBatchInfo (inputType : NnPointerType) (inputSize : NnSize3D) (outputType : NnPointerType)
    (outputSize : NnSize3D) : Except String (List NnVulkanBatchInfo) :=
  (List.range (resolveNumberOfBatchInfoZ inputSize outputSize * nBatches)).mapM fun b =>
    batchInfoAt nBatches tpSize tpRank inputType inputSize outputType outputSize (b / nBatches)
      (b % nBatches)

end BatchInfo

/-- Values of a chunk of a shader. -/
def chunkSize : ℕ := 4

/-- Blocks of a row that one invocation of the quantised product takes. -/
def tileSizeX : ℕ := 2

/-- Rows of a weight that one work group of the quantised product takes. -/
def tileSizeD : ℕ := 8

/-- Constants of the shader. -/
def resolveShaderConstants (code : NnOpCode) (weightSize : NnSize3D) (nBatches : ℕ)
    (inputSize outputSize : NnSize3D) : Except String (List ℕ) :=
  let nZ := resolveNumberOfBatchInfoZ inputSize outputSize
  match code with
  | .matmul _ _ _ =>
    if weightSize.floatType = some .q40 then
      if inputSize.x % (q80BlockSize * tileSizeX) = 0 then
        .ok [nBatches, nZ, inputSize.x / (q80BlockSize * tileSizeX)]
      else .error "inputSize.x % (Q40_BLOCK_SIZE * tileSizeX) == 0"
    else .ok [nBatches, nZ]
  | .cast => .ok [nBatches, nZ]
  | .mergeSum => .ok [nBatches, nZ]
  | .mul _ => .ok [nBatches, nZ]
  | .repeatZ => .ok [nBatches, nZ]
  | .scale _ => .ok [nBatches, nZ]
  | .silu => .ok [nBatches, nZ]
  | .softmax => .ok [nBatches, nZ]
  | .moeGate k _ => .ok [nBatches, inputSize.x, k]
  | _ => .ok [nBatches]

/-- Work groups for the chunks of a row. -/
def chunkGroups (outputSize : NnSize3D) : Except String ℕ :=
  if outputSize.x % chunkSize = 0 then .ok (outputSize.x / chunkSize)
  else .error "outputSize.x % chunkSize == 0"

/-- Work groups for the parts of a row. -/
def resolveShaderNumberOfWorkGroupsX (code : NnOpCode)
    (weightSize inputSize outputSize : NnSize3D) : Except String ℕ :=
  match code with
  | .cast =>
    .ok (if outputSize.floatType = some .q80 then outputSize.x / q80BlockSize
      else outputSize.x / chunkSize)
  | .repeatZ =>
    .ok (if outputSize.floatType = some .q80 then outputSize.x / q80BlockSize
      else outputSize.x / chunkSize)
  | .mergeAdd =>
    .ok (if inputSize.floatType = some .q80 then outputSize.x / q80BlockSize else 32)
  | .matmul _ _ _ =>
    if weightSize.floatType = some .q40 then
      if weightSize.x % tileSizeD = 0 then .ok (weightSize.x / tileSizeD)
      else .error "opConfig->weightSize.x % tileSizeD == 0u"
    else .ok 32
  | .multiheadAtt config => .ok config.nHeads0
  | .invRms nColumns => .ok nColumns
  | .embedding => chunkGroups outputSize
  | .rmsNorm _ _ => chunkGroups outputSize
  | .mul _ => chunkGroups outputSize
  | .scale _ => chunkGroups outputSize
  | .silu => chunkGroups outputSize
  | .shift _ => chunkGroups outputSize
  | .mergeSum => chunkGroups outputSize
  | _ => .ok 1

/-- Work groups for the planes. -/
def resolveShaderNumberOfWorkGroupsZ (code : NnOpCode) (inputSize outputSize : NnSize3D) : ℕ :=
  match code with
  | .mergeSum => 1
  | .repeatZ => 1
  | .moeGate _ _ => 1
  | _ => resolveNumberOfBatchInfoZ inputSize outputSize

end LayerSkip.VulkanDevice
