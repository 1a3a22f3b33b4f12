import LayerSkip.NnPipeline
import Mathlib.Data.List.Basic

/-!
# Sizes, slices and splitters of tensors

Extents are 32-bit words and so is the product of them. A slicer says what part
of a tensor one tensor rank holds; a splitter copies that part out of the whole
tensor.
-/

namespace LayerSkip.NnCore

open NnTopology NnPipeline

/-- Go on only when a check holds. -/
def require (check : Prop) [Decidable check] (text : String) : Except String Unit :=
  if check then .ok () else .error text

theorem require_eq_ok {check : Prop} [Decidable check] {text : String} {u : Unit}
    (h : require check text = .ok u) : check := by
  unfold require at h
  split at h
  · assumption
  · cases h

/-- A computation over a list has succeeded for each element. -/
theorem mapM_eq_ok {α β ε : Type} {f : α → Except ε β} {l : List α} {r : List β}
    (h : l.mapM f = .ok r) : r.length = l.length ∧
      ∀ (i : ℕ) x, l[i]? = some x → ∃ y, r[i]? = some y ∧ f x = .ok y := by
  induction l generalizing r with
  | nil =>
    injection h with h
    rw [← h]
    exact ⟨rfl, fun _ _ hx => by cases hx⟩
  | cons a l ih =>
    rw [List.mapM_cons] at h
    obtain ⟨b, hb, h⟩ := bind_eq_ok h
    obtain ⟨rest, hrest, h⟩ := bind_eq_ok h
    injection h with h
    have ⟨hlength, heach⟩ := ih hrest
    rw [← h]
    refine ⟨congrArg (· + 1) hlength, ?_⟩
    intro i x hx
    cases i with
    | zero =>
      injection hx with hx
      exact ⟨b, rfl, hx ▸ hb⟩
    | succ i => exact heach i x hx

/-- A computation that succeeds for each element succeeds for the list. -/
theorem mapM_of_ok {α β ε : Type} {f : α → Except ε β} {g : α → β} {l : List α}
    (h : ∀ x ∈ l, f x = .ok (g x)) : l.mapM f = .ok (l.map g) := by
  induction l with
  | nil => rfl
  | cons a l ih =>
    rw [List.mapM_cons, h a List.mem_cons_self, ih fun x hx => h x (List.mem_cons_of_mem a hx)]
    rfl

/-- Extents and bytes of a tensor. -/
structure NnSize3D where
  /-- Number format, none for no tensor. -/
  floatType : Option NnFloatType
  /-- Planes. -/
  z : ℕ
  /-- Rows of a plane. -/
  y : ℕ
  /-- Values of a row. -/
  x : ℕ
  /-- Values. -/
  length : ℕ
  /-- Bytes. -/
  nBytes : ℕ
  /-- Bytes of a plane. -/
  nBytesXY : ℕ
  deriving DecidableEq, Repr

/-- No tensor. -/
def size0 : NnSize3D := ⟨none, 0, 0, 0, 0, 0, 0⟩

/-- A tensor. The products are 32-bit words. -/
def size3D (floatType : NnFloatType) (z y x : ℕ) : NnSize3D :=
  ⟨some floatType, z, y, x, z * y * x % 2 ^ 32, getBytes floatType (z * y * x % 2 ^ 32),
    getBytes floatType (y * x % 2 ^ 32)⟩

/-- A plane. -/
def size2D (floatType : NnFloatType) (y x : ℕ) : NnSize3D := size3D floatType 1 y x

/-- A row. -/
def size1D (floatType : NnFloatType) (x : ℕ) : NnSize3D := size3D floatType 1 1 x

/-- Values of one block of a format. -/
def getBlockSize : NnFloatType → ℕ
  | .f32 => 1
  | .f16 => 1
  | .q40 => q80BlockSize
  | .q80 => q80BlockSize

/-- What `getBytes` checks of a number of values. -/
def WholeBlocks (floatType : NnFloatType) (n : ℕ) : Prop := n % getBlockSize floatType = 0

instance (floatType : NnFloatType) (n : ℕ) : Decidable (WholeBlocks floatType n) :=
  inferInstanceAs (Decidable (_ = _))

/-- The cache of one node. -/
structure NnKvCacheSlice where
  /-- Values of a row. -/
  kvDim0 : ℕ
  /-- Positions this sequence rank writes. -/
  localSeqLen : ℕ
  /-- First of these positions. -/
  localSeqStart : ℕ
  /-- The key cache. -/
  keySize : NnSize3D
  /-- The value cache. -/
  valueSize : NnSize3D
  deriving DecidableEq, Repr

/-- Rows of a weight that one tensor rank holds. -/
structure NnRowMatmulSlice where
  /-- Number format. -/
  type : NnFloatType
  /-- Tensor ranks. -/
  nNodes : ℕ
  /-- Rows of a rank. -/
  d0 : ℕ
  /-- Values of a row. -/
  n : ℕ
  /-- The whole weight. -/
  size : NnSize3D
  /-- The part of a rank. -/
  sliceSize : NnSize3D
  deriving DecidableEq, Repr

/-- Columns of a weight that one tensor rank holds. -/
structure NnColMatmulSlice where
  /-- Number format. -/
  type : NnFloatType
  /-- Tensor ranks. -/
  nNodes : ℕ
  /-- Values of a row. -/
  n : ℕ
  /-- Values of a row that a rank holds. -/
  n0 : ℕ
  /-- Rows. -/
  d : ℕ
  /-- The whole weight. -/
  size : NnSize3D
  /-- The part of a rank. -/
  sliceSize : NnSize3D
  deriving DecidableEq, Repr

/-- Kinds of rotary embeddings. -/
inductive NnRopeType
  | llama
  | falcon
  | llama3_1
  deriving DecidableEq, Repr

/-- Columns of the rotary cache that a tensor rank needs. -/
structure NnRopeShift where
  /-- First query column of this rank. -/
  qDimStart : ℕ
  /-- One past the last query column of this rank. -/
  qDimEnd : ℕ
  /-- Query columns before those of the keys. -/
  qShift : ℕ
  /-- First key column of this rank. -/
  kvDimStart : ℕ
  /-- Columns of the cache. -/
  sliceDim : ℕ
  deriving DecidableEq, Repr

/-- Rotary embedding of one node. The shift is only set for the llama kinds. -/
structure NnRopeSlice where
  /-- Query columns of this rank. -/
  qDim0 : ℕ
  /-- Key columns. -/
  kvDim : ℕ
  /-- Key columns of this rank. -/
  kvDim0 : ℕ
  /-- Positions. -/
  seqLen : ℕ
  /-- Columns of a head. -/
  headDim : ℕ
  /-- Key heads. -/
  nKvHeads : ℕ
  /-- Columns of this rank. -/
  shift : Option NnRopeShift
  /-- The rotary cache. -/
  cacheSize : NnSize3D
  deriving DecidableEq, Repr

/-- Heads of one node. -/
structure NnMultiHeadAttSlice where
  /-- All heads. -/
  nHeads : ℕ
  /-- Heads of this rank. -/
  nHeads0 : ℕ
  /-- Room for the attention weights. -/
  attSize : NnSize3D
  deriving DecidableEq, Repr

/-- Slice of the caches. Every node has room for all positions. -/
def sliceKvCache (kvDim seqLen nNodes spSize spRank : ℕ) : Except String NnKvCacheSlice := do
  require (kvDim % nNodes = 0) "kvDim % nNodes == 0"
  require (1 ≤ spSize) "spSize >= 1"
  require (seqLen % spSize = 0) "seqLen % spSize == 0"
  return ⟨kvDim / nNodes, seqLen / spSize, spRank * (seqLen / spSize),
    size2D .f32 seqLen (kvDim / nNodes), size2D .f32 seqLen (kvDim / nNodes)⟩

/-- Slice of a weight by rows. -/
def sliceRowMatmul (type : NnFloatType) (nNodes n d : ℕ) : Except String NnRowMatmulSlice := do
  require (d % nNodes = 0) "d % nNodes == 0"
  require (WholeBlocks type (n * d % 2 ^ 32)) "n % BLOCK_SIZE == 0"
  require (WholeBlocks type (n * (d / nNodes) % 2 ^ 32)) "n % BLOCK_SIZE == 0"
  return ⟨type, nNodes, d / nNodes, n, size2D type n d, size2D type n (d / nNodes)⟩

/-- Slice of a weight by columns. -/
def sliceColMatmul (type : NnFloatType) (nNodes n d : ℕ) : Except String NnColMatmulSlice := do
  require (n % nNodes = 0) "n % nNodes == 0"
  require (WholeBlocks type (n * d % 2 ^ 32)) "n % BLOCK_SIZE == 0"
  require (WholeBlocks type (n / nNodes * d % 2 ^ 32)) "n % BLOCK_SIZE == 0"
  return ⟨type, nNodes, n, n / nNodes, d, size2D type n d, size2D type (n / nNodes) d⟩

/-- Slice of the rotary embedding. -/
def sliceRope (type : NnRopeType) (qDim kvDim nKvHeads nNodes seqLen headDim nodeIndex : ℕ) :
    Except String NnRopeSlice := do
  require (kvDim ≤ qDim) "qDim >= kvDim"
  require (qDim % nNodes = 0) "qDim % nNodes == 0"
  require (kvDim % nNodes = 0) "kvDim % nNodes == 0"
  let qDim0 := qDim / nNodes
  let kvDim0 := kvDim / nNodes
  require (qDim0 % 2 = 0) "s.qDim0 % 2 == 0"
  require (kvDim0 % 2 = 0) "s.kvDim0 % 2 == 0"
  if type = .falcon then
    return ⟨qDim0, kvDim, kvDim0, seqLen, headDim, nKvHeads, none, size2D .f32 seqLen headDim⟩
  else
    let kvDimStart := kvDim0 * nodeIndex
    let qDimStart := qDim0 * nodeIndex
    let qDimEnd := qDimStart + qDim0
    let sliceDim := qDimEnd - kvDimStart
    require (sliceDim % 2 = 0) "s.sliceDim % 2 == 0"
    return ⟨qDim0, kvDim, kvDim0, seqLen, headDim, nKvHeads,
      some ⟨qDimStart, qDimEnd, qDimStart - kvDimStart, kvDimStart, sliceDim⟩,
      size2D .f32 seqLen sliceDim⟩

/-- Slice of the heads. -/
def sliceMultiHeadAtt (nHeads seqLen nNodes nBatches : ℕ) : Except String NnMultiHeadAttSlice := do
  require (nHeads % nNodes = 0) "nHeads % nNodes == 0"
  return ⟨nHeads, nHeads / nNodes, size2D .f32 nBatches (nHeads / nNodes * seqLen)⟩

/-- Copy the rows of a rank out of a weight. -/
def splitRowMatmulWeight (slice : NnRowMatmulSlice) (nodeIndex : ℕ) (weight : ℕ → UInt8) :
    Except String (List UInt8) := do
  let blockSize := getBlockSize slice.type
  let batchBytes := getBytes slice.type blockSize
  require (slice.n % blockSize = 0) "slice->n % blockSize == 0"
  let n := slice.n / blockSize
  let offset := slice.d0 * nodeIndex * n * batchBytes
  return (List.range slice.d0).flatMap fun d => (List.range n).flatMap fun j =>
    (List.range batchBytes).map fun i => weight (offset + (d * n + j) * batchBytes + i)

/-- Copy the columns of a rank out of a weight. -/
def splitColMatmulWeight (slice : NnColMatmulSlice) (nodeIndex : ℕ) (weight : ℕ → UInt8) :
    Except String (List UInt8) := do
  let blockSize := getBlockSize slice.type
  let batchBytes := getBytes slice.type blockSize
  require (slice.n0 % blockSize = 0) "slice->n0 % blockSize == 0"
  let rowBytes := slice.n / blockSize * batchBytes
  let row0Bytes := slice.n0 / blockSize * batchBytes
  return (List.range slice.d).flatMap fun d =>
    (List.range row0Bytes).map fun i => weight (rowBytes * d + nodeIndex * row0Bytes + i)

end LayerSkip.NnCore
