import LayerSkip.FusedArgmax
import LayerSkip.LlamafileSgemm
import LayerSkip.MoeKernels

/-!
# The product on the processor

Every instruction set has its own loop over a row, with several sums next to each other, and the
rows are dealt out to the threads. When `llamafile_sgemm` has a class for the product the tiles are
dealt out instead. Either way the threads store the products of the rows of the batch and the rows
of a weight, each once, on every processor.
-/

namespace LayerSkip.CpuMatmul

open NnTopology NnPipeline NnCore NnCpu EqualPieces QuantBlocks SgemmTiles TileGrid LlamafileSgemm
open FusedArgmax (splitThreads shardStart splitThreads_eq shardStart_mono)
open MoeKernels (hasPointerContinuousMemory)
open VulkanMatmul (MatmulOp FitsWord storeAll storeAll_eq Functional blockProduct lowNumber
  highNumber widthOf createContext createContext_ok resolvePointer_ok)

section Kernels

variable {R : Type*} [CommRing R]

/-- Lanes of a register in `matmul_F32_F32_F32`. -/
def lanesF32 (t : Target) : ℕ := if t.neon then 4 else if t.avx2 then 8 else 1

/-- `matmul_F32_F32_F32`, for a row of the weight. -/
def matmul_F32_F32_F32 (t : Target) (x w : ℕ → R) (n i : ℕ) : R :=
  ∑ lane ∈ Finset.range (lanesF32 t),
    (loop n (lanesF32 t)).foldl (fun acc j => acc + x (j + lane) * w (i * n + j + lane)) 0

/-- A sum that is kept in 16 bits. -/
def wrap16 (v : ℤ) : ℤ := Int.bmod v (2 ^ 16)

/-- `vpaddlq_s16` of `vmull_s8`: products of bytes from a place on, two to a lane. -/
def pairSum (a b : ℕ → Int8) (first lane : ℕ) : ℤ :=
  (a (first + lane * 2)).toInt * (b (first + lane * 2)).toInt +
    (a (first + (lane * 2 + 1))).toInt * (b (first + (lane * 2 + 1))).toInt

/-- Lanes of the product of two blocks, with `__ARM_NEON`. -/
def neonLanes (t : Target) (a b : ℕ → Int8) (lane : ℕ) : ℤ :=
  if t.dotprod then
    vdotq_s32 (vdotq_s32 0 a b lane) (fun k => a (16 + k)) (fun k => b (16 + k)) lane
  else pairSum a b 0 lane + pairSum a b 8 lane + (pairSum a b 16 lane + pairSum a b 24 lane)

/-- The product of two blocks, with `__AVX512F__`. -/
def avx512Sum (a b : ℕ → Int8) : ℤ := ∑ lane ∈ Finset.range 16, pairSum a b 0 lane

/-- The product of two blocks, with `__AVX2__`. Both halves are added in 16 bits. -/
def avx2Sum (a b : ℕ → Int8) : ℤ :=
  let sum_prod (k : ℕ) : ℤ :=
    wrap16 (wrap16 ((a k).toInt * (b k).toInt) + wrap16 ((a (16 + k)).toInt * (b (16 + k)).toInt))
  ∑ lane ∈ Finset.range 8, (sum_prod (lane * 2) + sum_prod (lane * 2 + 1))

/-- The loop over the blocks of a row with `__ARM_NEON`: four sums, or two, take turns, and the
blocks that are left over go to the first one. -/
def neonRow (t : Target) (term : ℕ → ℕ → R) (nBlocks : ℕ) : R :=
  let sums := if t.dotprod then 4 else 2
  let sumv (a lane : ℕ) : R :=
    (loop (nBlocks / sums * sums) sums).foldl (fun acc j => acc + term (j + a) lane) 0
  let sumv0 (lane : ℕ) : R :=
    (List.range' (nBlocks / sums * sums) (nBlocks % sums)).foldl (fun acc j => acc + term j lane)
      (sumv 0 lane)
  ∑ lane ∈ Finset.range 4, sumv0 lane +
    ∑ a ∈ Finset.range (sums - 1), ∑ lane ∈ Finset.range 4, sumv (a + 1) lane

/-- `matmul_Q80_Q40_F32`, for a row of the weight. -/
def matmul_Q80_Q40_F32 (t : Target) (x : ℕ → NnBlockQ80 R) (w : ℕ → NnBlockQ40 R) (n i : ℕ) : R :=
  let nBlocks := n / q80BlockSize
  let wb (j : ℕ) := loadQ40 (w (i * nBlocks + j))
  let xb (j : ℕ) := loadQ80 (x j)
  let s (j : ℕ) := (wb j).d * (xb j).d
  if t.neon then
    neonRow t (fun j lane => (neonLanes t (wb j).qs (xb j).qs lane : ℤ) * s j) nBlocks
  else if t.avx512f then ∑ j ∈ Finset.range nBlocks, (avx512Sum (wb j).qs (xb j).qs : ℤ) * s j
  else if t.avx2 then ∑ j ∈ Finset.range nBlocks, (avx2Sum (wb j).qs (xb j).qs : ℤ) * s j
  else VulkanMatmul.matmul_Q80_Q40_F32 x w n i

end Kernels

section Blocks

/-- Products of the numbers of two blocks. -/
def numbersSum (a b : ℕ → Int8) : ℤ := ∑ c ∈ Finset.range 32, (a c).toInt * (b c).toInt

theorem sum_pairSum (a b : ℕ → Int8) (first lanes : ℕ) :
    ∑ lane ∈ Finset.range lanes, pairSum a b first lane =
      ∑ c ∈ Finset.range (lanes * 2), (a (first + c)).toInt * (b (first + c)).toInt := by
  rw [sum_range_mul]
  apply Finset.sum_congr (Eq.refl _)
  intro lane _
  rw [Finset.sum_range_succ, Finset.sum_range_one]
  exact Eq.refl _

theorem avx512Sum_eq (a b : ℕ → Int8) : avx512Sum a b = numbersSum a b := by
  rw [avx512Sum, sum_pairSum, numbersSum]
  simp only [Nat.zero_add]

/-- A sum of 32 terms as four sums of eight. -/
theorem sum_quarters (f : ℕ → ℤ) : ∑ c ∈ Finset.range 8, f (0 + c) + ∑ c ∈ Finset.range 8, f (8 + c) +
    (∑ c ∈ Finset.range 8, f (16 + c) + ∑ c ∈ Finset.range 8, f (24 + c)) =
      ∑ c ∈ Finset.range 32, f c := by
  have hparts := sum_range_mul f 4 8
  simp only [Finset.sum_range_succ _ 3, Finset.sum_range_succ _ 2, Finset.sum_range_succ _ 1,
    Finset.sum_range_one] at hparts
  rw [← add_assoc]
  exact hparts.symm

theorem sum_neonLanes (t : Target) (a b : ℕ → Int8) :
    ∑ lane ∈ Finset.range 4, neonLanes t a b lane = numbersSum a b := by
  by_cases h : t.dotprod = true
  · simp only [neonLanes, h, if_true, vdotq_s32, zero_add]
    exact sum_halves fun c => (a c).toInt * (b c).toInt
  · simp only [neonLanes, h, Bool.false_eq_true, if_false, Finset.sum_add_distrib, sum_pairSum]
    exact sum_quarters fun c => (a c).toInt * (b c).toInt

theorem wrap16_eq {v : ℤ} (hlow : -32768 ≤ v) (hhigh : v ≤ 32767) : wrap16 v = v := by
  rw [wrap16, Int.bmod]
  split <;> omega

/-- A number of four bits less eight times a byte. -/
theorem small_product {a b : Int8} (hlow : -8 ≤ a.toInt) (hhigh : a.toInt ≤ 7) :
    -1024 ≤ a.toInt * b.toInt ∧ a.toInt * b.toInt ≤ 1024 := by
  have hb := byte_bounds b
  have habs : |a.toInt * b.toInt| ≤ 8 * 128 := by
    rw [abs_mul]
    exact mul_le_mul (abs_le.mpr ⟨by omega, by omega⟩) (abs_le.mpr ⟨by omega, by omega⟩)
      (abs_nonneg _) (by decide)
  exact abs_le.mp habs

/-- Sums in 16 bits do not wrap when one factor has four bits. -/
theorem avx2Sum_eq {a : ℕ → Int8} (ha : ∀ k, -8 ≤ (a k).toInt ∧ (a k).toInt ≤ 7) (b : ℕ → Int8) :
    avx2Sum a b = numbersSum a b := by
  have hwrap (k : ℕ) : wrap16 (wrap16 ((a k).toInt * (b k).toInt) +
      wrap16 ((a (16 + k)).toInt * (b (16 + k)).toInt)) =
        (a k).toInt * (b k).toInt + (a (16 + k)).toInt * (b (16 + k)).toInt := by
    have hfirst := small_product (b := b k) (ha k).1 (ha k).2
    have hsecond := small_product (b := b (16 + k)) (ha (16 + k)).1 (ha (16 + k)).2
    have hlow : wrap16 ((a k).toInt * (b k).toInt) = (a k).toInt * (b k).toInt :=
      wrap16_eq (by omega) (by omega)
    have hhigh : wrap16 ((a (16 + k)).toInt * (b (16 + k)).toInt) =
        (a (16 + k)).toInt * (b (16 + k)).toInt := wrap16_eq (by omega) (by omega)
    rw [hlow, hhigh]
    exact wrap16_eq (by omega) (by omega)
  have hpairs := sum_range_mul
    (fun k => (a k).toInt * (b k).toInt + (a (16 + k)).toInt * (b (16 + k)).toInt) 8 2
  simp only [Finset.sum_range_succ _ 1, Finset.sum_range_one, Nat.add_zero] at hpairs
  have hhalves := Finset.sum_range_add (fun c => (a c).toInt * (b c).toInt) 16 16
  rw [avx2Sum, numbersSum, hhalves, ← Finset.sum_add_distrib]
  simp only [hwrap]
  exact hpairs.symm

end Blocks

section Rows

variable {R : Type*} [CommRing R]

theorem foldl_range' (first count : ℕ) (f : ℕ → R) (sum : R) :
    (List.range' first count).foldl (fun acc j => acc + f j) sum =
      sum + ∑ c ∈ Finset.range count, f (first + c) := by
  induction count with
  | zero => simp
  | succ count ih =>
    rw [List.range'_1_concat, List.foldl_append, ih, Finset.sum_range_succ, ← add_assoc]
    exact Eq.refl _

/-- Sums that take turns, and what is left over, are one sum. -/
theorem neonRow_eq (t : Target) (term : ℕ → ℕ → R) (nBlocks : ℕ) :
    neonRow t term nBlocks =
      ∑ j ∈ Finset.range nBlocks, ∑ lane ∈ Finset.range 4, term j lane := by
  have hsums : ∃ more, (if t.dotprod then 4 else 2) = more + 1 := by
    by_cases h : t.dotprod = true
    · exact ⟨3, if_pos h⟩
    · exact ⟨1, if_neg h⟩
  obtain ⟨more, hmore⟩ := hsums
  have hturns : (nBlocks / (more + 1) * (more + 1) + (more + 1) - 1) / (more + 1) =
      nBlocks / (more + 1) := by
    rw [turns_eq (Nat.succ_pos more) (Nat.mul_mod_left _ _), Nat.mul_div_cancel _ (Nat.succ_pos more)]
  have hsplit : nBlocks / (more + 1) * (more + 1) + nBlocks % (more + 1) = nBlocks :=
    Nat.div_add_mod' nBlocks (more + 1)
  have hwhole : ∑ j ∈ Finset.range nBlocks, ∑ lane ∈ Finset.range 4, term j lane =
      ∑ j ∈ Finset.range (nBlocks / (more + 1) * (more + 1)), ∑ lane ∈ Finset.range 4, term j lane +
        ∑ c ∈ Finset.range (nBlocks % (more + 1)), ∑ lane ∈ Finset.range 4,
          term (nBlocks / (more + 1) * (more + 1) + c) lane := by
    rw [← Finset.sum_range_add, hsplit]
  have hturn : ∑ j ∈ Finset.range (nBlocks / (more + 1) * (more + 1)),
      ∑ lane ∈ Finset.range 4, term j lane =
        ∑ a ∈ Finset.range (more + 1), ∑ lane ∈ Finset.range 4,
          ∑ turn ∈ Finset.range (nBlocks / (more + 1)), term (turn * (more + 1) + a) lane := by
    rw [sum_range_mul, Finset.sum_comm]
    apply Finset.sum_congr (Eq.refl _)
    intro a _
    rw [Finset.sum_comm]
  rw [hwhole, hturn, Finset.sum_range_succ', neonRow]
  simp only [hmore, foldl_loop, foldl_range', hturns, Nat.add_sub_cancel, Nat.add_zero,
    Finset.sum_add_distrib]
  rw [Finset.sum_comm (s := Finset.range (nBlocks % (more + 1)))]
  ring

/-- The kernel for two blocks adds up the products of their numbers. -/
theorem blockProduct_eq (wb : NnBlockQ40 R) (xb : NnBlockQ80 R) :
    blockProduct wb xb = (numbersSum (loadQ40 wb).qs (loadQ80 xb).qs : ℤ) * (wb.d * xb.d) := by
  have hlow (k : Fin 16) : ((loadQ40 wb).qs k).toInt = lowNumber (wb.qs k) := by
    have hplace : (Fin.ofNat 32 k.val : Fin 32).val = k.val := Nat.mod_eq_of_lt (by omega)
    rw [loadQ40, toInt_nibble, nibble, dif_pos (by omega), lowNumber]
    simp only [hplace]
  have hhigh (k : Fin 16) : ((loadQ40 wb).qs (16 + k)).toInt = highNumber (wb.qs k) := by
    have hplace : (Fin.ofNat 32 (16 + k.val) : Fin 32).val = 16 + k.val :=
      Nat.mod_eq_of_lt (by omega)
    rw [loadQ40, toInt_nibble, nibble, dif_neg (by omega), highNumber]
    simp only [hplace, Nat.add_sub_cancel_left]
  have hfirst (k : Fin 16) : (loadQ80 xb).qs k = xb.qs (firstHalf k) := by
    rw [loadQ80, firstHalf]
    exact congrArg xb.qs (Fin.ext (Nat.mod_eq_of_lt (by omega)))
  have hsecond (k : Fin 16) : (loadQ80 xb).qs (16 + k) = xb.qs (secondHalf k) := by
    rw [loadQ80, secondHalf]
    exact congrArg xb.qs (Fin.ext (Nat.mod_eq_of_lt (by omega)))
  have hhalves := Finset.sum_range_add
    (fun c => ((loadQ40 wb).qs c).toInt * ((loadQ80 xb).qs c).toInt) 16 16
  rw [blockProduct, numbersSum, hhalves, ← Finset.sum_mul, ← Int.cast_sum, ← Finset.sum_add_distrib,
    Finset.sum_range]
  simp only [hlow, hhigh, hfirst, hsecond]

/-- Every processor has the product of the plain loop. -/
theorem matmul_Q80_Q40_F32_eq (t : Target) (x : ℕ → NnBlockQ80 R) (w : ℕ → NnBlockQ40 R)
    (n i : ℕ) : matmul_Q80_Q40_F32 t x w n i = VulkanMatmul.matmul_Q80_Q40_F32 x w n i := by
  have hsmall (b : NnBlockQ40 R) (k : ℕ) :
      -8 ≤ ((loadQ40 b).qs k).toInt ∧ ((loadQ40 b).qs k).toInt ≤ 7 := by
    have hlt := nibble_lt b.qs (Fin.ofNat 32 k)
    rw [loadQ40, toInt_nibble]
    omega
  simp only [matmul_Q80_Q40_F32, VulkanMatmul.matmul_Q80_Q40_F32, neonRow_eq, blockProduct_eq,
    avx512Sum_eq, avx2Sum_eq (hsmall _)]
  simp only [← Finset.sum_mul, ← Int.cast_sum, sum_neonLanes]
  split
  · exact Eq.refl _
  · split
    · exact Eq.refl _
    · split
      · exact Eq.refl _
      · exact Eq.refl _

theorem matmul_F32_F32_F32_eq (t : Target) (x w : ℕ → R) {n : ℕ} (hn : n % lanesF32 t = 0) (i : ℕ) :
    matmul_F32_F32_F32 t x w n i = ∑ c ∈ Finset.range n, w (i * n + c) * x c := by
  have hlanes : 0 < lanesF32 t := by
    rw [lanesF32]
    split
    · decide
    · split <;> decide
  have hwhole : n / lanesF32 t * lanesF32 t = n := Nat.div_mul_cancel (Nat.dvd_of_mod_eq_zero hn)
  have hsum := sum_range_mul (fun c => w (i * n + c) * x c) (n / lanesF32 t) (lanesF32 t)
  rw [hwhole] at hsum
  rw [matmul_F32_F32_F32, hsum, Finset.sum_comm]
  simp only [foldl_loop, turns_eq hlanes hn, Nat.add_assoc, mul_comm]

end Rows

section Forward

variable {R : Type*} [CommRing R]

/-- Input and weight of a product, in formats for which there is a kernel. -/
inductive Operands (R : Type*)
  /-- Floats. -/
  | F32_F32_F32 (input weight : ℕ → R)
  /-- Blocks. -/
  | Q80_Q40_F32 (input : ℕ → NnBlockQ80 R) (weight : ℕ → NnBlockQ40 R)

namespace Operands

/-- The input. -/
def input : Operands R → Matrix R
  | F32_F32_F32 x _ => .f32 x
  | Q80_Q40_F32 x _ => .q80 x

/-- The weight. -/
def weight : Operands R → Matrix R
  | F32_F32_F32 _ w => .f32 w
  | Q80_Q40_F32 _ w => .q40 w

/-- Format of the input. -/
def inputType : Operands R → NnFloatType
  | F32_F32_F32 _ _ => .f32
  | Q80_Q40_F32 _ _ => .q80

/-- Format of the weight. -/
def weightType : Operands R → NnFloatType
  | F32_F32_F32 _ _ => .f32
  | Q80_Q40_F32 _ _ => .q40

/-- The kernel, for a row of the input and a row of the weight from some blocks on. -/
def kernel (t : Target) (o : Operands R) (xRow w n i : ℕ) : R :=
  match o with
  | F32_F32_F32 x weight =>
    matmul_F32_F32_F32 t (fun l => x (xRow + l)) (fun l => weight (w + l)) n i
  | Q80_Q40_F32 x weight =>
    matmul_Q80_Q40_F32 t (fun l => x (xRow + l)) (fun l => weight (w + l)) n i

/-- What the kernel of floats asserts. -/
def WholeRegisters (t : Target) (n : ℕ) : Operands R → Prop
  | F32_F32_F32 _ _ => n % lanesF32 t = 0
  | Q80_Q40_F32 _ _ => True

end Operands

/-- The place `i * n + j` of a value in a plane is a word when words count the values of the weight. -/
theorem weightIndex_lt {size : NnSize3D} (hfits : FitsWord size) (hplanes : 0 < size.z) {i j : ℕ}
    (hi : i < size.x) (hj : j < size.y) : i * size.y + j < DataMoving.uintRange := by
  have hrow : i * size.y + j < (i + 1) * size.y := by
    rw [Nat.succ_mul]
    exact Nat.add_lt_add_left hj _
  have hplane : (i + 1) * size.y ≤ size.y * size.x := by
    rw [Nat.mul_comm size.y]
    exact Nat.mul_le_mul_right _ hi
  have hweight : size.y * size.x ≤ size.z * size.y * size.x := by
    rw [Nat.mul_assoc]
    exact Nat.le_mul_of_pos_left _ hplanes
  exact Nat.lt_trans (Nat.lt_of_lt_of_le hrow (Nat.le_trans hplane hweight)) hfits

variable (t : Target) (op : MatmulOp) (o : Operands R) (input output : NnSize3D × List ℕ)
  (nThreads threadIndex batchSize : ℕ) (activeExpertIndexes : ℕ → ℕ)

/-- First block of a row of the input. -/
def inputRow (row : ℕ) : ℕ :=
  input.2.getD row 0 / getBytes o.inputType (getBlockSize o.inputType)

/-- First value of a row of the output. -/
def outputRow (row : ℕ) : ℕ := output.2.getD row 0 / getBytes .f32 1

/-- First block of the weight of an expert. -/
def expertBlock (y e : ℕ) : ℕ :=
  (if op.nActiveExperts = 0 then 0 else activeExpertIndexes (y * op.nActiveExperts + e)) *
    op.weightSize.nBytesXY / getBytes o.weightType (getBlockSize o.weightType)

/-- The stores of a thread on the fast path, if it is taken. -/
def matmulForward_llamafile : Option (List (ℕ × R)) :=
  if !hasPointerContinuousMemory op.inputType ∨ !hasPointerContinuousMemory op.outputType ∨
      input.1.z ≠ 1 then none
  else
    let n := op.weightSize.y / getBlockSize o.inputType
    let d := op.weightSize.x
    (llamafile_sgemm t d batchSize n o.weight n (o.input.drop (inputRow o input 0)) n d threadIndex
      nThreads .f32).map fun stores => stores.map fun store => (outputRow output 0 + store.1, store.2)

/-- The stores of a thread on the plain path. -/
def matmulRows : List (ℕ × R) :=
  (List.range batchSize).flatMap fun y =>
    (List.range (max op.nActiveExperts 1)).flatMap fun e =>
      let rows := splitThreads op.weightSize.x nThreads threadIndex
      (List.range' rows.1 (rows.2 - rows.1)).map fun i =>
        (outputRow output (e * output.1.y + y) + i,
          o.kernel t (inputRow o input (e * input.1.y + y))
            (expertBlock op o activeExpertIndexes y e) op.weightSize.y i)

/-- The stores of a thread. -/
def matmulForward : List (ℕ × R) :=
  match matmulForward_llamafile t op o input output nThreads threadIndex batchSize with
  | some stores => stores
  | none => matmulRows t op o input output nThreads threadIndex batchSize activeExpertIndexes

/-- The stores of a product: for each row of the batch and each expert used for it, the row of the
input times the rows of the weight of the expert. -/
def productStores : List (ℕ × R) :=
  (List.range batchSize).flatMap fun y =>
    (List.range (max op.nActiveExperts 1)).flatMap fun e =>
      (List.range op.weightSize.x).map fun i =>
        (outputRow output (e * output.1.y + y) + i,
          rowProduct (o.weight.drop (expertBlock op o activeExpertIndexes y e))
            (op.weightSize.y / getBlockSize o.inputType)
            (o.input.drop (inputRow o input (e * input.1.y + y))) 0
            (op.weightSize.y / getBlockSize o.inputType) i 0)

/-- Rows of a product in one of the formats, to rows of floats. -/
structure Formats : Prop where
  /-- Rows of the input. -/
  inputType : op.inputType ≠ .raw
  /-- Format of the input. -/
  inputFloats : op.inputSize.floatType = some o.inputType
  /-- Rows of the output. -/
  outputType : op.outputType = .batch
  /-- Format of the output. -/
  outputFloats : op.outputSize.floatType = some .f32

/-- What the fast path takes for granted: rows of the input lie next to each other, and one active
expert is the first one. -/
structure Straight (tpSize : ℕ) : Prop where
  /-- Whole rows, or one row. -/
  rows : op.inputType = .batchedSlice → tpSize = 1 ∨ batchSize ≤ 1
  /-- The first expert. -/
  expert : op.nActiveExperts = 1 → ∀ y < batchSize, activeExpertIndexes y = 0

end Forward

section Rows

variable {R : Type*} {t : Target} {o : Operands R}

theorem blockBytes_pos (o : Operands R) :
    0 < getBytes o.inputType (getBlockSize o.inputType) := by
  cases o <;> simp [Operands.inputType, getBytes, getBlockSize, q80BlockSize]

theorem getBytes_inputType (o : Operands R) (n : ℕ) : getBytes o.inputType n =
    n / getBlockSize o.inputType * getBytes o.inputType (getBlockSize o.inputType) := by
  cases o with
  | F32_F32_F32 x w =>
    simp only [Operands.inputType, getBytes, getBlockSize, Nat.div_one]
    omega
  | Q80_Q40_F32 x w => simp [Operands.inputType, getBytes, getBlockSize, q80BlockSize]

/-- Values of a row are values of another matrix. -/
theorem drop_value [CommRing R] (M : Matrix R) (first stride row c : ℕ) :
    (M.drop (first + stride * row)).value 0 0 c = (M.drop first).value stride row c := by
  cases M <;> simp only [Matrix.drop, Matrix.value, Nat.mul_zero, Nat.zero_add, Nat.add_assoc]

theorem drop_zero (M : Matrix R) : M.drop 0 = M := by
  cases M <;> simp only [Matrix.drop, Nat.zero_add]

theorem invertible_drop {M : Matrix R} (h : M.Invertible) (first : ℕ) :
    (M.drop first).Invertible := by
  cases M with
  | f32 values => trivial
  | f16 values => trivial
  | q80 blocks => exact fun l j => h (first + l) j
  | q40 blocks => trivial

/-- The kernels compute the product of a row and a row. -/
theorem kernel_eq [CommRing R] {n : ℕ} (hregisters : o.WholeRegisters t n) (xRow w i : ℕ) :
    o.kernel t xRow w n i = rowProduct (o.weight.drop w) (n / getBlockSize o.inputType)
      (o.input.drop xRow) 0 (n / getBlockSize o.inputType) i 0 := by
  cases o with
  | F32_F32_F32 x weight =>
    simp only [Operands.kernel, matmul_F32_F32_F32_eq t _ _ hregisters, Operands.input,
      Operands.weight, Operands.inputType, getBlockSize, rowProduct, Matrix.drop, Matrix.value,
      Matrix.blockSize, Nat.div_one, Nat.mul_one, Nat.zero_mul, Nat.zero_add, Nat.mul_comm n i]
  | Q80_Q40_F32 x weight =>
    have hdot := blockDot_eq (loads_q40 fun l => weight (w + l)) (loads_q80 fun l => x (xRow + l))
      (n / q80BlockSize) 0 (n / q80BlockSize) i 0
    have hblocks : getBlockSize (Operands.Q80_Q40_F32 x weight).inputType = q80BlockSize :=
      Eq.refl _
    rw [Operands.kernel, matmul_Q80_Q40_F32_eq, VulkanMatmul.matmul_Q80_Q40_F32, hblocks]
    refine Eq.trans ?_ hdot
    apply Finset.sum_congr (Eq.refl _)
    intro l _
    rw [blockProduct_eq, ← sum_numbers, Nat.mul_comm (n / q80BlockSize) i, Nat.zero_mul,
      Nat.zero_add]
    exact Eq.refl _

end Rows

section Context

variable {R : Type*} [CommRing R] {nBatches tpSize tpRank : ℕ} {op : MatmulOp} {o : Operands R}
  {input output : NnSize3D × List ℕ}

/-- The numbers of a product that the processor takes. -/
structure Sized (nBatches tpSize tpRank : ℕ) (op : MatmulOp) (o : Operands R)
    (input output : NnSize3D × List ℕ) : Prop where
  /-- Rows of a plane of the input. -/
  inputRows : input.1.y = nBatches
  /-- Rows of a plane of the output. -/
  outputRows : output.1.y = nBatches
  /-- Planes of the input. -/
  planes : input.1.z = max op.nActiveExperts 1
  /-- Values of a row of the weight. -/
  width : op.weightSize.y = widthOf tpSize op.inputSize.x op.inputType
  /-- Rows of the input. -/
  inputRow_eq : ∀ row < max op.nActiveExperts 1 * nBatches, inputRow o input row =
    row * (op.inputSize.x / getBlockSize o.inputType) +
      if op.inputType = .batchedSlice then
        op.inputSize.x / tpSize / getBlockSize o.inputType * tpRank else 0
  /-- Rows of the output. -/
  outputRow_eq : ∀ row < max op.nActiveExperts 1 * nBatches,
    outputRow output row = row * op.weightSize.x

omit [CommRing R] in
/-- A product that the processor takes has its numbers. -/
theorem sized_of_context (hctx : createContext nBatches tpSize tpRank op = .ok (input, output))
    (hformats : Formats op o) : Sized nBatches tpSize tpRank op o input output := by
  obtain ⟨hinput, houtput, hinit⟩ := createContext_ok hctx
  obtain ⟨hyIn, hinputRows, hzIn, hwidth, _, _, _, hinRow⟩ :=
    resolvePointer_ok hformats.inputType hformats.inputFloats hinput
  have hbatch : op.outputType ≠ .raw := by
    rw [hformats.outputType]
    simp
  obtain ⟨hyOut, houtputRows, hzOut, houtWidth, _, _, _, houtRow⟩ :=
    resolvePointer_ok hbatch hformats.outputFloats houtput
  obtain ⟨_, _, hx, hz, hd, hz', _⟩ := hinit
  have hrows : op.outputSize.x = op.weightSize.x := by
    rw [houtWidth, hformats.outputType] at hd
    exact hd
  constructor
  · rw [hinputRows, hyIn]
  · rw [houtputRows, hyOut]
  · exact hz
  · rw [← hx, hwidth]
  · intro row hrow
    have hlt : row < op.inputSize.z * op.inputSize.y := by
      rw [← hzIn, hz, hyIn]
      exact hrow
    have hbytes := getBytes_inputType o
    have hplace : row * getBytes o.inputType op.inputSize.x + (if op.inputType = .batchedSlice then
        getBytes o.inputType (op.inputSize.x / tpSize) * tpRank else 0) =
          (row * (op.inputSize.x / getBlockSize o.inputType) +
            if op.inputType = .batchedSlice then
              op.inputSize.x / tpSize / getBlockSize o.inputType * tpRank else 0) *
            getBytes o.inputType (getBlockSize o.inputType) := by
      rw [hbytes op.inputSize.x, hbytes (op.inputSize.x / tpSize)]
      split <;> ring
    rw [inputRow, hinRow row hlt, hplace]
    exact Nat.mul_div_cancel _ (blockBytes_pos o)
  · intro row hrow
    have hlt : row < op.outputSize.z * op.outputSize.y := by
      rw [← hzOut, hz', hyOut]
      exact hrow
    have hone : getBytes .f32 1 = 4 := Eq.refl _
    have hbytes : getBytes .f32 op.weightSize.x = 4 * op.weightSize.x := Eq.refl _
    have hplace : row * (4 * op.weightSize.x) = row * op.weightSize.x * 4 := by ring
    rw [outputRow, houtRow row hlt, hformats.outputType, if_neg (by simp), hrows, hbytes, hone,
      Nat.add_zero, hplace]
    exact Nat.mul_div_cancel _ (by decide)

variable {activeExpertIndexes : ℕ → ℕ} {batchSize : ℕ}

/-- Every value of the output has one product. -/
theorem functional_productStores (hs : Sized nBatches tpSize tpRank op o input output)
    (hbatch : batchSize ≤ nBatches) :
    Functional (productStores op o input output batchSize activeExpertIndexes) := by
  have hmem {store : ℕ × R}
      (h : store ∈ productStores op o input output batchSize activeExpertIndexes) :
      ∃ y < nBatches, ∃ e, ∃ i < op.weightSize.x,
        store.1 = (e * nBatches + y) * op.weightSize.x + i ∧
        store.2 = rowProduct (o.weight.drop (expertBlock op o activeExpertIndexes y e))
          (op.weightSize.y / getBlockSize o.inputType)
          (o.input.drop (inputRow o input (e * input.1.y + y))) 0
          (op.weightSize.y / getBlockSize o.inputType) i 0 := by
    obtain ⟨y, hy, h⟩ := List.mem_flatMap.mp h
    obtain ⟨e, he, h⟩ := List.mem_flatMap.mp h
    obtain ⟨i, hi, h⟩ := List.mem_map.mp h
    have hyLt := Nat.lt_of_lt_of_le (List.mem_range.mp hy) hbatch
    have hrow := hs.outputRow_eq _ (index_lt (List.mem_range.mp he) hyLt)
    refine ⟨y, hyLt, e, i, List.mem_range.mp hi, ?_, ?_⟩
    · rw [← h, hs.outputRows, hrow]
    · rw [← h]
  intro l v v' h h'
  obtain ⟨y, hy, e, i, hi, hplace, hvalue⟩ := hmem h
  obtain ⟨y', hy', e', i', hi', hplace', hvalue'⟩ := hmem h'
  obtain ⟨hrow, hcolumn⟩ := index_inj hi hi' (hplace.symm.trans hplace')
  obtain ⟨hplane, hbatchRow⟩ := index_inj hy hy' hrow
  dsimp only at hvalue hvalue'
  rw [hvalue, hvalue', hplane, hbatchRow, hcolumn]

end Context

section Threads

variable {R : Type*} [CommRing R] {t : Target} {nBatches tpSize tpRank : ℕ} {op : MatmulOp}
  {o : Operands R} {input output : NnSize3D × List ℕ} {nThreads batchSize : ℕ}
  {activeExpertIndexes : ℕ → ℕ}

/-- The threads have all rows together. -/
theorem rows_of_threads (rows : ℕ) (hnThreads : 0 < nThreads) :
    ((List.range nThreads).flatMap fun threadIndex =>
      List.range' (splitThreads rows nThreads threadIndex).1
        ((splitThreads rows nThreads threadIndex).2 - (splitThreads rows nThreads threadIndex).1)) =
      List.range rows := by
  have hzero : shardStart rows nThreads 0 = 0 := by
    simp [shardStart]
  have hall : shardStart rows nThreads nThreads = rows := by
    have hmod := Nat.mod_lt rows hnThreads
    rw [shardStart, Nat.min_eq_right (Nat.le_of_lt hmod)]
    exact Nat.div_add_mod rows nThreads
  have hruns := runs_eq hzero
    (fun threadIndex => shardStart_mono rows nThreads (Nat.le_succ threadIndex)) nThreads
  rw [hall] at hruns
  simp only [splitThreads_eq]
  exact hruns

/-- On the plain path the threads store every product once. -/
theorem matmulRows_perm (hnThreads : 0 < nThreads)
    (hregisters : o.WholeRegisters t op.weightSize.y) :
    ((List.range nThreads).flatMap fun threadIndex =>
      matmulRows t op o input output nThreads threadIndex batchSize activeExpertIndexes).Perm
        (productStores op o input output batchSize activeExpertIndexes) := by
  refine (flatMap_comm _ _ _).trans ?_
  apply List.Perm.flatMap_left
  intro y _
  refine (flatMap_comm _ _ _).trans ?_
  apply List.Perm.flatMap_left
  intro e _
  simp only [kernel_eq hregisters]
  rw [← List.map_flatMap, rows_of_threads op.weightSize.x hnThreads]

omit [CommRing R] in
/-- Rows of the input that lie next to each other. -/
theorem inputRow_straight (hs : Sized nBatches tpSize tpRank op o input output)
    (hformats : Formats op o)
    (hstraight : Straight op batchSize activeExpertIndexes tpSize) (hbatch : batchSize ≤ nBatches)
    {y : ℕ} (hy : y < batchSize) : inputRow o input y =
      inputRow o input 0 + op.weightSize.y / getBlockSize o.inputType * y := by
  have hle : nBatches ≤ max op.nActiveExperts 1 * nBatches :=
    Nat.le_mul_of_pos_left nBatches (Nat.lt_of_lt_of_le Nat.one_pos (Nat.le_max_right op.nActiveExperts 1))
  have hlt : y < max op.nActiveExperts 1 * nBatches := by
    omega
  rw [hs.inputRow_eq y hlt, hs.inputRow_eq 0 (by omega), hs.width, Nat.zero_mul, Nat.zero_add]
  cases htype : op.inputType with
  | raw => exact absurd htype hformats.inputType
  | batch => simp [widthOf, Nat.mul_comm]
  | batchedSlice =>
    cases hstraight.rows htype with
    | inl hone =>
      simp only [widthOf, hone, Nat.div_one, if_true]
      ring
    | inr hbatchOne =>
      have hzero : y = 0 := by
        omega
      rw [hzero, Nat.zero_mul, Nat.mul_zero, Nat.zero_add, Nat.add_zero]

/-- On the fast path the threads store every product once. -/
theorem llamafile_perm (hs : Sized nBatches tpSize tpRank op o input output)
    (hformats : Formats op o)
    (hstraight : Straight op batchSize activeExpertIndexes tpSize) (hbatch : batchSize ≤ nBatches)
    (hnThreads : 0 < nThreads) (hinput : o.input.Invertible) (hplanes : input.1.z = 1)
    {b : TinyBlas R} (hkernel : sgemmKernel t batchSize (op.weightSize.y / getBlockSize o.inputType)
      o.weight (op.weightSize.y / getBlockSize o.inputType) (o.input.drop (inputRow o input 0))
      (op.weightSize.y / getBlockSize o.inputType) = some b) :
    ((List.range nThreads).flatMap fun threadIndex =>
      (b.matmul (op.weightSize.y / getBlockSize o.inputType) op.weightSize.x op.weightSize.x batchSize
        threadIndex nThreads).map fun store => (outputRow output 0 + store.1, store.2)).Perm
        (productStores op o input output batchSize activeExpertIndexes) := by
  have hperm : ((List.range nThreads).flatMap fun threadIndex =>
      b.matmul (op.weightSize.y / getBlockSize o.inputType) op.weightSize.x op.weightSize.x batchSize
        threadIndex nThreads).Perm _ :=
    matmul_perm (invertible_drop hinput _) hnThreads hkernel
  by_cases hnone : batchSize = 0
  · rw [← List.map_flatMap]
    refine (hperm.map _).trans ?_
    rw [hnone, productStores, grid, Nat.sub_self, List.range'_zero, List.product_nil]
    exact List.Perm.refl _
  have hone : max op.nActiveExperts 1 = 1 := hs.planes.symm.trans hplanes
  have hrow {y : ℕ} (hy : y < batchSize) : outputRow output y = y * op.weightSize.x := by
    apply hs.outputRow_eq
    rw [hone]
    omega
  have hcolumns := column_cells_perm 0 0 op.weightSize.x batchSize
  rw [Nat.zero_add, Nat.zero_add] at hcolumns
  rw [← List.map_flatMap]
  refine (hperm.map _).trans ?_
  refine ((hcolumns.symm.map _).map _).trans ?_
  rw [List.map_map, List.map_flatMap, productStores]
  apply List.Perm.flatMap_left
  intro y hy
  have hyLt := List.mem_range.mp hy
  have hexpert : expertBlock op o activeExpertIndexes y 0 = 0 := by
    rw [expertBlock]
    split
    · rw [Nat.zero_mul, Nat.zero_div]
    · have hactive : op.nActiveExperts = 1 := by
        omega
      rw [hactive, Nat.mul_one, Nat.add_zero, hstraight.expert hactive y hyLt, Nat.zero_mul,
        Nat.zero_div]
  rw [hone, List.range_one, List.flatMap_singleton, List.map_map]
  apply List.Perm.of_eq
  apply List.map_congr_left
  intro i _
  have hinputRow := inputRow_straight hs hformats hstraight hbatch hyLt
  simp only [Function.comp_apply, Nat.zero_add, Nat.zero_mul, hexpert, drop_zero, hrow hyLt,
    hrow (Nat.pos_of_ne_zero hnone), hinputRow, rowProduct, drop_value, Nat.mul_comm y]

/-- The threads store every product once, on the fast path and on the plain one. -/
theorem matmulForward_perm (hs : Sized nBatches tpSize tpRank op o input output)
    (hformats : Formats op o) (hbatch : batchSize ≤ nBatches) (hnThreads : 0 < nThreads)
    (hinput : o.input.Invertible) (hregisters : o.WholeRegisters t op.weightSize.y)
    (hstraight : matmulForward_llamafile t op o input output nThreads 0 batchSize ≠ none →
      Straight op batchSize activeExpertIndexes tpSize) :
    ((List.range nThreads).flatMap fun threadIndex =>
      matmulForward t op o input output nThreads threadIndex batchSize activeExpertIndexes).Perm
        (productStores op o input output batchSize activeExpertIndexes) := by
  by_cases hplanes : input.1.z = 1
  · cases hkernel : sgemmKernel t batchSize (op.weightSize.y / getBlockSize o.inputType)
        o.weight (op.weightSize.y / getBlockSize o.inputType)
        (o.input.drop (inputRow o input 0)) (op.weightSize.y / getBlockSize o.inputType) with
    | none =>
      have hplain (threadIndex : ℕ) :
          matmulForward t op o input output nThreads threadIndex batchSize activeExpertIndexes =
            matmulRows t op o input output nThreads threadIndex batchSize activeExpertIndexes := by
        simp [matmulForward, matmulForward_llamafile, llamafile_sgemm, hkernel]
      simp only [hplain]
      exact matmulRows_perm hnThreads hregisters
    | some b =>
      have hfast (threadIndex : ℕ) :
          matmulForward_llamafile t op o input output nThreads threadIndex batchSize =
            some ((b.matmul (op.weightSize.y / getBlockSize o.inputType) op.weightSize.x
              op.weightSize.x batchSize threadIndex nThreads).map fun store =>
                (outputRow output 0 + store.1, store.2)) := by
        have hcontinuous (type : NnPointerType) : hasPointerContinuousMemory type = true := by
          cases type <;> exact Eq.refl _
        simp [matmulForward_llamafile, llamafile_sgemm, hkernel, hplanes, hcontinuous]
      have hnone : matmulForward_llamafile t op o input output nThreads 0 batchSize ≠ none := by
        rw [hfast 0]
        exact Option.some_ne_none _
      simp only [matmulForward, hfast]
      exact llamafile_perm hs hformats (hstraight hnone) hbatch hnThreads hinput hplanes hkernel
  · have hplain (threadIndex : ℕ) :
        matmulForward t op o input output nThreads threadIndex batchSize activeExpertIndexes =
          matmulRows t op o input output nThreads threadIndex batchSize activeExpertIndexes := by
      simp [matmulForward, matmulForward_llamafile, hplanes]
    simp only [hplain]
    exact matmulRows_perm hnThreads hregisters

/-- On every processor, with any number of threads whose stores come in any order, a product leaves
the rows of the input times the rows of the weight, on the fast path and on the plain one. -/
theorem matmulForward_product
    (hctx : createContext nBatches tpSize tpRank op = .ok (input, output))
    (hformats : Formats op o) (hbatch : batchSize ≤ nBatches) (hnThreads : 0 < nThreads)
    (hinput : o.input.Invertible) (hregisters : o.WholeRegisters t op.weightSize.y)
    (hstraight : matmulForward_llamafile t op o input output nThreads 0 batchSize ≠ none →
      Straight op batchSize activeExpertIndexes tpSize)
    {order : List (ℕ × R)} (horder : order.Perm ((List.range nThreads).flatMap fun threadIndex =>
      matmulForward t op o input output nThreads threadIndex batchSize activeExpertIndexes))
    (y : ℕ → R) :
    storeAll y order =
      storeAll y (productStores op o input output batchSize activeExpertIndexes) := by
  have hs := sized_of_context hctx hformats
  have hperm := horder.trans
    (matmulForward_perm hs hformats hbatch hnThreads hinput hregisters hstraight)
  exact storeAll_eq y (fun store => hperm.mem_iff) (functional_productStores hs hbatch)

/-- Two rows of the batch times three rows of a weight. -/
def smallOp : MatmulOp where
  inputType := .batch
  inputSize := size2D .q80 2 32
  outputType := .batch
  outputSize := size2D .f32 2 3
  weightSize := size2D .q40 32 3
  nExperts := 0
  nActiveExperts := 0
  activeExpertIndexesBufferIndex := 0

/-- Blocks of numbers. -/
def smallOperands : Operands ℤ :=
  .Q80_Q40_F32 (fun l => ⟨(l : ℤ) + 1, fun _ => 5⟩) fun l => ⟨(l : ℤ) + 2, fun _ => 3⟩

/-- Two threads, whose stores come thread by thread. -/
theorem matmulForward_product_two :
    storeAll 0 ((List.range 2).flatMap fun threadIndex =>
      matmulForward avx2Target smallOp smallOperands (size2D .q80 2 32, [0, 34])
        (size2D .f32 2 3, [0, 12]) 2 threadIndex 2 fun _ => 0) =
      storeAll 0 (productStores smallOp smallOperands (size2D .q80 2 32, [0, 34])
        (size2D .f32 2 3, [0, 12]) 2 fun _ => 0) :=
  @matmulForward_product ℤ _ avx2Target 2 1 0 smallOp smallOperands (size2D .q80 2 32, [0, 34])
    (size2D .f32 2 3, [0, 12]) 2 2 (fun _ => 0) (Eq.refl _)
    ⟨by decide, Eq.refl _, Eq.refl _, Eq.refl _⟩ (by decide) (by decide)
    (fun _ _ => show (5 : Int8) ≠ -128 by decide) trivial
    (fun _ => ⟨fun _ => .inl (Eq.refl _), fun _ _ _ => Eq.refl _⟩) _ (List.Perm.refl _) 0

end Threads

section Devices

open VulkanMatmul (Accepted Quantized Agreeing Dispatch)

variable {R : Type*} [CommRing R] {t : Target} {nBatches tpSize tpRank : ℕ} {op : MatmulOp}
  {dispatch : Dispatch} {input output : NnSize3D × List ℕ} {nThreads batchSize : ℕ}
  {activeExpertIndexes : ℕ → ℕ}

/-- Products of blocks are those of the plain loop on one thread. -/
theorem productStores_blocks (x : ℕ → NnBlockQ80 R) (weight : ℕ → NnBlockQ40 R) :
    productStores op (.Q80_Q40_F32 x weight) input output batchSize activeExpertIndexes =
      VulkanMatmul.matmulForward_Q80_Q40_F32 op input output batchSize activeExpertIndexes x
        weight := by
  have hkernel (xRow w i : ℕ) :
      rowProduct ((Operands.Q80_Q40_F32 x weight).weight.drop w) (op.weightSize.y / q80BlockSize)
        ((Operands.Q80_Q40_F32 x weight).input.drop xRow) 0 (op.weightSize.y / q80BlockSize) i 0 =
        VulkanMatmul.matmul_Q80_Q40_F32 (fun l => x (xRow + l)) (fun l => weight (w + l))
          op.weightSize.y i := by
    rw [← matmul_Q80_Q40_F32_eq avx2Target]
    exact (kernel_eq (t := avx2Target) (o := .Q80_Q40_F32 x weight) trivial xRow w i).symm
  apply List.flatMap_congr
  intro y _
  apply List.flatMap_congr
  intro e _
  apply List.map_congr_left
  intro i _
  exact congrArg (Prod.mk _) (hkernel _ _ i)

/-- When whole rows are seen, words count all values and the fast path is not taken with one active
expert other than the first, the graphics device with its work groups in any order leaves what any
processor leaves with its threads in any order. -/
theorem devices_agree [Nontrivial R]
    (h : Accepted nBatches tpSize tpRank op dispatch input output) (hop : Quantized op)
    (hrank : tpRank < tpSize) (hagreeing : Agreeing tpSize op) (hbatch : batchSize ≤ nBatches)
    (hnThreads : 0 < nThreads)
    (hactive : 0 < op.nExperts → ∀ i, activeExpertIndexes i < op.nExperts)
    {x : ℕ → NnBlockQ80 R} (hx : ∀ l j, (x l).qs j ≠ -128) (weight : ℕ → NnBlockQ40 R)
    (hexpert : matmulForward_llamafile t op (.Q80_Q40_F32 x weight) input output nThreads 0
      batchSize ≠ none → op.nActiveExperts = 1 → ∀ y < batchSize, activeExpertIndexes y = 0)
    {groups : List VulkanMatmul.WorkGroup} (hgroups : groups.Perm (dispatch.workGroups batchSize))
    {order : List (ℕ × R)} (horder : order.Perm ((List.range nThreads).flatMap fun threadIndex =>
      matmulForward t op (.Q80_Q40_F32 x weight) input output nThreads threadIndex batchSize
        activeExpertIndexes))
    (y : ℕ → R) :
    dispatch.run activeExpertIndexes x weight groups y = some (storeAll y order) := by
  obtain ⟨zIn, yIn, xIn, hinputSize⟩ := hop.inputSize
  obtain ⟨zOut, yOut, xOut, houtputSize⟩ := hop.outputSize
  have hformats : Formats op (.Q80_Q40_F32 x weight) := by
    constructor
    · exact hop.inputType
    · rw [hinputSize]
      exact Eq.refl _
    · exact hop.outputType
    · rw [houtputSize]
      exact Eq.refl _
  have hagree := (h.agree_iff (R := R) hop hrank).mpr hagreeing batchSize hbatch
    activeExpertIndexes x weight y hactive groups hgroups
  have hs := sized_of_context h.cpu hformats
  have hperm := horder.trans (matmulForward_perm hs hformats hbatch hnThreads hx trivial
    fun hfast => ⟨fun htype => .inl (hagreeing.wholeRows htype), hexpert hfast⟩)
  rw [hagree, ← productStores_blocks]
  exact congrArg some
    (storeAll_eq y (fun store => hperm.mem_iff) (functional_productStores hs hbatch)).symm

/-- One row of two blocks times eight rows of a weight. -/
def deviceOp : MatmulOp where
  inputType := .batch
  inputSize := size2D .q80 1 64
  outputType := .batch
  outputSize := size2D .f32 1 8
  weightSize := size2D .q40 64 8
  nExperts := 0
  nActiveExperts := 0
  activeExpertIndexesBufferIndex := 0

/-- What the host computes for it. -/
def deviceDispatch : Dispatch where
  infos := [⟨0, 2, 0, 8⟩]
  nBatches := 1
  nThreads := 1
  nExperts := 0
  nActiveExperts := 0
  groupsX := 1
  groupsZ := 1
  inputBlocks := 2
  weightBlocks := 16
  outputValues := 8

/-- One work group next to three threads. -/
theorem devices_agree_three :
    deviceDispatch.run (fun _ => 0) (fun l => ⟨(l : ℤ) + 1, fun _ => 5⟩)
      (fun l => ⟨(l : ℤ) + 2, fun _ => 3⟩) (deviceDispatch.workGroups 1) 0 =
      some (storeAll 0 ((List.range 3).flatMap fun threadIndex =>
        matmulForward avx2Target deviceOp
          (.Q80_Q40_F32 (fun l => ⟨(l : ℤ) + 1, fun _ => 5⟩) fun l => ⟨(l : ℤ) + 2, fun _ => 3⟩)
          (size2D .q80 1 64, [0]) (size2D .f32 1 8, [0]) 3 threadIndex 1 fun _ => 0)) :=
  @devices_agree ℤ _ avx2Target 1 1 0 deviceOp deviceDispatch (size2D .q80 1 64, [0])
    (size2D .f32 1 8, [0]) 3 1 (fun _ => 0) _
    ⟨Eq.refl _, Eq.refl _, by decide, by decide, by decide⟩
    ⟨by decide, ⟨1, 1, 64, Eq.refl _⟩, Eq.refl _, ⟨1, 1, 8, Eq.refl _⟩, ⟨1, 64, 8, Eq.refl _⟩,
      fun _ => .inl (Eq.refl _)⟩
    (by decide) ⟨fun _ => Eq.refl _, by decide, by decide, by decide, fun _ => by decide⟩ (by decide)
    (by decide) (fun hpos _ => hpos) _ (fun _ _ => show (5 : Int8) ≠ -128 by decide) _
    (fun _ _ _ _ => Eq.refl _) _ (List.Perm.refl _) _ (List.Perm.refl _) 0

end Devices

end LayerSkip.CpuMatmul
