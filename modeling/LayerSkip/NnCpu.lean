import LayerSkip.EqualPieces
import LayerSkip.NnCore
import LayerSkip.NodeMemory

/-!
# Pointers and products of the processor device

An operation works on rows of a batch. Its pointers say where each row starts in a
buffer; a sliced pointer starts every row at the part of this tensor rank. The
product reads both factors in blocks.
-/

namespace LayerSkip.NnCpu

open NnPipeline NnCore EqualPieces

/-- What an operation sees of a buffer. -/
inductive NnPointerType
  /-- All of it. -/
  | raw
  /-- The rows of a batch. -/
  | batch
  /-- The part of this tensor rank in every row of a batch. -/
  | batchedSlice
  deriving DecidableEq, Repr

/-- Size of one pointer and the bytes at which its rows start. -/
def resolvePointer (nBatches tpSize tpRank : ℕ) (type : NnPointerType) (sourceSize : NnSize3D) :
    Except String (NnSize3D × List ℕ) :=
  match sourceSize.floatType with
  | none => .error "Unsupported float type"
  | some floatType =>
    match type with
    | .raw => .ok (size1D floatType sourceSize.length, [0])
    | .batch => do
      require (sourceSize.y = nBatches) "sourceSize->y == netConfig->nBatches"
      require (WholeBlocks floatType sourceSize.x) "n % BLOCK_SIZE == 0"
      return (sourceSize, (List.range (sourceSize.z * sourceSize.y)).map fun row =>
        row * getBytes floatType sourceSize.x)
    | .batchedSlice => do
      require (sourceSize.y = nBatches) "sourceSize->y == netConfig->nBatches"
      require (WholeBlocks floatType sourceSize.x) "n % BLOCK_SIZE == 0"
      require (sourceSize.x % tpSize = 0) "sourceSize->x % tpSize == 0"
      let xSlice := sourceSize.x / tpSize
      require (WholeBlocks floatType xSlice) "n % BLOCK_SIZE == 0"
      return (size3D floatType sourceSize.z sourceSize.y xSlice,
        (List.range (sourceSize.z * sourceSize.y)).map fun row =>
          row * getBytes floatType sourceSize.x + getBytes floatType xSlice * tpRank)

/-- A sliced pointer starts a row at the row and the part of the rank. -/
theorem resolvePointer_batchedSlice {nBatches tpSize tpRank : ℕ} {floatType : NnFloatType}
    {z x : ℕ} (hx : x % tpSize = 0) (hrow : WholeBlocks floatType x)
    (hslice : WholeBlocks floatType (x / tpSize)) :
    resolvePointer nBatches tpSize tpRank .batchedSlice (size3D floatType z nBatches x) =
      .ok (size3D floatType z nBatches (x / tpSize), (List.range (z * nBatches)).map fun row =>
        row * getBytes floatType x + getBytes floatType (x / tpSize) * tpRank) := by
  simp [resolvePointer, size3D, require, hx, hrow, hslice, bind, Except.bind, pure, Except.pure]

/-- The bytes of one block. -/
def blockAt (bytes : ℕ → UInt8) (blockBytes block : ℕ) : List UInt8 :=
  (List.range blockBytes).map fun i => bytes (block * blockBytes + i)

/-- Formats that a product can take, and the values in a block of either factor. -/
structure MatmulFormat (R : Type*) where
  /-- Format of the weight. -/
  weightType : NnFloatType
  /-- Format of the input. -/
  inputType : NnFloatType
  /-- Both have blocks of one size. -/
  blockSize_eq : getBlockSize inputType = getBlockSize weightType
  /-- Values of a weight block. -/
  weightValue : List UInt8 → ℕ → R
  /-- Values of an input block. -/
  inputValue : List UInt8 → ℕ → R

namespace MatmulFormat

variable {R : Type*} (f : MatmulFormat R)

/-- Values of a block. -/
def blockSize : ℕ := getBlockSize f.weightType

theorem blockSize_pos : 0 < f.blockSize := by
  unfold blockSize
  cases f.weightType <;> decide

/-- Bytes of a weight block. -/
def weightBytes : ℕ := getBytes f.weightType f.blockSize

/-- Bytes of an input block. -/
def inputBytes : ℕ := getBytes f.inputType f.blockSize

variable [AddCommMonoid R] [Mul R]

/-- The product of a weight of `d` rows of `n` values with an input, as the kernel
takes it: row by row, block by block. -/
def matmul (w x : ℕ → UInt8) (n d : ℕ) : List R :=
  (List.range d).map fun i =>
    ∑ j ∈ Finset.range (n / f.blockSize), ∑ t ∈ Finset.range f.blockSize,
      f.weightValue (blockAt w f.weightBytes (i * (n / f.blockSize) + j)) t *
        f.inputValue (blockAt x f.inputBytes j) t

/-- An entry of the matrix that a weight holds. -/
def weightAt (w : ℕ → UInt8) (n row column : ℕ) : R :=
  f.weightValue (blockAt w f.weightBytes (row * (n / f.blockSize) + column / f.blockSize))
    (column % f.blockSize)

/-- A value of the input. -/
def inputAt (x : ℕ → UInt8) (column : ℕ) : R :=
  f.inputValue (blockAt x f.inputBytes (column / f.blockSize)) (column % f.blockSize)

/-- A value of the matrix times the input. -/
def mulVec (w x : ℕ → UInt8) (n row : ℕ) : R :=
  ∑ column ∈ Finset.range n, f.weightAt w n row column * f.inputAt x column

/-- Block by block the kernel adds up the products of all values. -/
theorem matmul_eq (w x : ℕ → UInt8) {n : ℕ} (hn : n % f.blockSize = 0) (d : ℕ) :
    f.matmul w x n d = (List.range d).map (f.mulVec w x n) := by
  refine List.map_congr_left fun i _ => ?_
  have hwhole : n / f.blockSize * f.blockSize = n := Nat.div_mul_cancel (Nat.dvd_of_mod_eq_zero hn)
  have hsum := sum_range_mul (fun column => f.weightAt w n i column * f.inputAt x column)
    (n / f.blockSize) f.blockSize
  rw [hwhole] at hsum
  rw [mulVec, hsum]
  refine Finset.sum_congr rfl fun j _ => Finset.sum_congr rfl fun t ht => ?_
  have hplace := Finset.mem_range.mp ht
  rw [weightAt, inputAt, index_div j hplace, index_mod j hplace]

theorem matmul_length (w x : ℕ → UInt8) (n d : ℕ) : (f.matmul w x n d).length = d := by
  rw [matmul, List.length_map, List.length_range]

end MatmulFormat

/-- Whole blocks of a format take so many bytes each. -/
theorem getBytes_blocks (floatType : NnFloatType) {n : ℕ} (hn : WholeBlocks floatType n) :
    getBytes floatType n =
      n / getBlockSize floatType * getBytes floatType (getBlockSize floatType) := by
  cases floatType with
  | f32 => simp [getBytes, getBlockSize, Nat.mul_comm]
  | f16 => simp [getBytes, getBlockSize, Nat.mul_comm]
  | q40 => simp [getBytes, getBlockSize, q80BlockSize]
  | q80 => simp [getBytes, getBlockSize, q80BlockSize]

end LayerSkip.NnCpu
