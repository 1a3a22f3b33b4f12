import LayerSkip.SgemmTiles
import LayerSkip.VulkanMatmul

/-!
# The tiled product of the processor

For every instruction set and pair of formats there is a class with its own register: a turn of the
innermost loop adds to every lane, and the lanes are added up when a cell is stored. Arithmetic of
floats is exact, that of bytes and of 16-bit numbers wraps or saturates as the instructions do.
-/

namespace LayerSkip.LlamafileSgemm

open NnPipeline EqualPieces QuantBlocks SgemmTiles TileGrid
open VulkanMatmul (storeAll storeAll_of_mem storeAll_of_notMem)

section Instructions

/-- `_mm256_sign_epi8`, for a byte. -/
def sign_epi8 (a b : Int8) : Int8 := if b < 0 then -a else if b = 0 then 0 else a

/-- A sum that has to fit 16 bits. -/
def saturate16 (v : ℤ) : ℤ := max (-32768) (min 32767 v)

/-- `updot`: products of bytes without and with a sign, four to a lane. Without the instruction for
it pairs of products are added in 16 bits. -/
def updot (t : Target) (u : ℕ → UInt8) (s : ℕ → Int8) (lane : ℕ) : ℤ :=
  let product (k : ℕ) : ℤ := (u (lane * 4 + k)).toNat * (s (lane * 4 + k)).toInt
  if t.vnni then product 0 + product 1 + product 2 + product 3
  else saturate16 (product 0 + product 1) + saturate16 (product 2 + product 3)

/-- `vdotq_s32`: products of bytes with a sign, four to a lane. -/
def vdotq_s32 (acc : ℤ) (a b : ℕ → Int8) (lane : ℕ) : ℤ :=
  acc + ∑ k ∈ Finset.range 4, (a (lane * 4 + k)).toInt * (b (lane * 4 + k)).toInt

end Instructions

section Classes

variable {R : Type*} [CommRing R]

/-- A block as it is loaded: its scale and its numbers. -/
structure LoadedBlock (R : Type*) where
  /-- Scale. -/
  d : R
  /-- Numbers. -/
  qs : ℕ → Int8

/-- A block of eight bit numbers. -/
def loadQ80 (b : NnBlockQ80 R) : LoadedBlock R := ⟨b.d, fun k => b.qs (Fin.ofNat 32 k)⟩

/-- A block of four bit numbers: the low halves of the bytes, then the high ones. -/
def loadQ40 (b : NnBlockQ40 R) : LoadedBlock R :=
  ⟨b.d, fun k => (nibble b.qs (Fin.ofNat 32 k)).toInt8 - 8⟩

/-- A class: its tiles, the lanes of its register, the step of its innermost loop, and what a turn
adds to a lane for a row and a column. -/
structure TinyBlas (R : Type*) where
  /-- Tiles. -/
  table : TileTable
  /-- Lanes of a register. -/
  lanes : ℕ
  /-- Step of the loop. -/
  step : ℕ
  /-- What is added. -/
  term : ℕ → ℕ → ℕ → ℕ → R

/-- Turns of `for (l = 0; l < k; l += step)`. -/
def loop (k step : ℕ) : List ℕ := (List.range ((k + step - 1) / step)).map fun turn => turn * step

/-- What is stored for a cell: the lanes are added up. -/
def TinyBlas.cell (b : TinyBlas R) (k i j : ℕ) : R :=
  ∑ lane ∈ Finset.range b.lanes, (loop k b.step).foldl (fun acc l => acc + b.term i j l lane) 0

/-- `matmul`: the stores of a thread. -/
def TinyBlas.matmul (b : TinyBlas R) (k ldc m n ith nth : ℕ) : List (ℕ × R) :=
  (threadCells b.table m n ith nth).map fun c => (ldc * c.2 + c.1, b.cell k c.1 c.2)

/-- `tinyBLAS<KN, ...>`. -/
def tinyBLAS (t : Target) (KN : ℕ) (A : ℕ → R) (lda : ℕ) (B : ℕ → R) (ldb : ℕ) : TinyBlas R where
  table := tinyBLASTiles t
  lanes := KN
  step := KN
  term i j l lane := A (lda * i + l + lane) * B (ldb * j + l + lane)

/-- `tinyBLAS_Q0_ARM`. -/
def tinyBLAS_Q0_ARM (A : ℕ → LoadedBlock R) (lda : ℕ) (B : ℕ → LoadedBlock R) (ldb : ℕ) :
    TinyBlas R where
  table := tinyBLAS_Q0_ARMTiles
  lanes := 4
  step := 1
  term i j l lane :=
    let a := A (lda * i + l)
    let b := B (ldb * j + l)
    (vdotq_s32 (vdotq_s32 0 a.qs b.qs lane) (fun k => a.qs (16 + k)) (fun k => b.qs (16 + k)) lane :
      ℤ) * (a.d * b.d)

/-- `tinyBLAS_Q0_AVX2`. -/
def tinyBLAS_Q0_AVX2 (t : Target) (A : ℕ → LoadedBlock R) (lda : ℕ) (B : ℕ → LoadedBlock R)
    (ldb : ℕ) : TinyBlas R where
  table := tinyBLAS_Q0_AVX2Tiles t
  lanes := 8
  step := 1
  term i j l lane :=
    let a := A (lda * i + l)
    let b := B (ldb * j + l)
    a.d * b.d * (updot t (fun k => (sign_epi8 (a.qs k) (a.qs k)).toUInt8)
      (fun k => sign_epi8 (b.qs k) (a.qs k)) lane : ℤ)

/-- Values of a matrix, in one of the formats. Half floats are the numbers they stand for. -/
inductive Matrix (R : Type*)
  /-- Floats. -/
  | f32 (values : ℕ → R)
  /-- Half floats. -/
  | f16 (values : ℕ → R)
  /-- Blocks of eight bit numbers. -/
  | q80 (blocks : ℕ → NnBlockQ80 R)
  /-- Blocks of four bit numbers. -/
  | q40 (blocks : ℕ → NnBlockQ40 R)

/-- The class for a product, if there is one. -/
def sgemmKernel (t : Target) (n k : ℕ) (A : Matrix R) (lda : ℕ) (B : Matrix R) (ldb : ℕ) :
    Option (TinyBlas R) :=
  match A with
  | .f32 a =>
    match B with
    | .f32 b =>
      if t.avx512f then
        if k % 16 ≠ 0 then none else some (tinyBLAS t 16 a lda b ldb)
      else if t.avx || t.avx2 then
        if k % 8 ≠ 0 then none else some (tinyBLAS t 8 a lda b ldb)
      else if t.neon then
        if n < 4 then none else if k % 4 ≠ 0 then none else some (tinyBLAS t 4 a lda b ldb)
      else none
    | _ => none
  | .f16 a =>
    if t.avx512f then
      if k % 16 ≠ 0 then none
      else match B with
        | .f32 b => some (tinyBLAS t 16 a lda b ldb)
        | _ => none
    else if (t.avx || t.avx2) && t.f16c then
      if k % 8 ≠ 0 then none
      else match B with
        | .f32 b => some (tinyBLAS t 8 a lda b ldb)
        | _ => none
    else if t.fp16Vector && !t.msc then
      if n < 8 then none else if k % 8 ≠ 0 then none
      else match B with
        | .f16 b => some (tinyBLAS t 8 a lda b ldb)
        | _ => none
    else if t.neon && !t.msc then
      if k % 4 ≠ 0 then none
      else match B with
        | .f32 b => some (tinyBLAS t 4 a lda b ldb)
        | _ => none
    else none
  | .q80 a =>
    match B with
    | .q40 b =>
      if t.dotprod then
        some (tinyBLAS_Q0_ARM (fun l => loadQ80 (a l)) lda (fun l => loadQ40 (b l)) ldb)
      else none
    | .q80 b =>
      if t.avx2 || t.avx512f then
        some (tinyBLAS_Q0_AVX2 t (fun l => loadQ80 (a l)) lda (fun l => loadQ80 (b l)) ldb)
      else if t.dotprod then
        some (tinyBLAS_Q0_ARM (fun l => loadQ80 (a l)) lda (fun l => loadQ80 (b l)) ldb)
      else none
    | _ => none
  | .q40 a =>
    match B with
    | .q80 b =>
      if t.avx2 || t.avx512f then
        some (tinyBLAS_Q0_AVX2 t (fun l => loadQ40 (a l)) lda (fun l => loadQ80 (b l)) ldb)
      else if t.dotprod then
        some (tinyBLAS_Q0_ARM (fun l => loadQ40 (a l)) lda (fun l => loadQ80 (b l)) ldb)
      else none
    | _ => none

/-- `llamafile_sgemm`: the stores of a thread, or that there is no class for the product. -/
def llamafile_sgemm (t : Target) (m n k : ℕ) (A : Matrix R) (lda : ℕ) (B : Matrix R) (ldb ldc : ℕ)
    (ith nth : ℕ) (Ctype : NnFloatType) : Option (List (ℕ × R)) :=
  if Ctype ≠ .f32 then none
  else (sgemmKernel t n k A lda B ldb).map fun b => b.matmul k ldc m n ith nth

end Classes

section Values

variable {R : Type*} [CommRing R]

/-- Values of a block. -/
def Matrix.blockSize : Matrix R → ℕ
  | .f32 _ => 1
  | .f16 _ => 1
  | .q80 _ => 32
  | .q40 _ => 32

/-- A value of a row. The stride counts blocks. -/
def Matrix.value (M : Matrix R) (stride row c : ℕ) : R :=
  match M with
  | .f32 values => values (stride * row + c)
  | .f16 values => values (stride * row + c)
  | .q80 blocks =>
    let b := blocks (stride * row + c / 32)
    ((b.qs (Fin.ofNat 32 (c % 32))).toInt : R) * b.d
  | .q40 blocks =>
    let b := blocks (stride * row + c / 32)
    (((nibble b.qs (Fin.ofNat 32 (c % 32))).toNat : ℤ) - 8 : ℤ) * b.d

/-- Values from a block on. -/
def Matrix.drop (first : ℕ) : Matrix R → Matrix R
  | .f32 values => .f32 fun l => values (first + l)
  | .f16 values => .f16 fun l => values (first + l)
  | .q80 blocks => .q80 fun l => blocks (first + l)
  | .q40 blocks => .q40 fun l => blocks (first + l)

/-- No number of an input is -128, which has no positive counterpart in a byte. -/
def Matrix.Invertible : Matrix R → Prop
  | .q80 blocks => ∀ l j, (blocks l).qs j ≠ -128
  | _ => True

end Values

section Bytes

theorem byte_bounds (a : Int8) : -128 ≤ a.toInt ∧ a.toInt ≤ 127 := by
  have hlow := Int8.le_toInt a
  have hhigh := Int8.toInt_lt a
  omega

/-- A byte without its sign. -/
theorem toNat_toUInt8 (a : Int8) :
    (a.toUInt8.toNat : ℤ) = if a.toInt < 0 then a.toInt + 256 else a.toInt := by
  have hvalue : a.toInt = (a.toUInt8.toNat : ℤ).bmod (2 ^ 8) := BitVec.toInt_eq_toNat_bmod _
  have hlt : a.toUInt8.toNat < 256 := UInt8.toNat_lt _
  rw [Int.bmod] at hvalue
  split at hvalue <;> split <;> omega

theorem toInt_neg_byte {a : Int8} (h : a.toInt ≠ -128) : (-a).toInt = -a.toInt := by
  have hbounds := byte_bounds a
  rw [Int8.toInt_neg, Int.bmod]
  split <;> omega

/-- The size of a number as a byte. -/
theorem sign_self (a : Int8) : ((sign_epi8 a a).toUInt8.toNat : ℤ) = |a.toInt| := by
  have hbounds := byte_bounds a
  rw [sign_epi8]
  split
  · rename_i hneg
    have hlt : a.toInt < 0 := Int8.lt_iff_toInt_lt.mp hneg
    rw [toNat_toUInt8, abs_of_neg hlt, Int8.toInt_neg, Int.bmod]
    split <;> split <;> omega
  · rename_i hnot
    have hle : ¬a.toInt < 0 := fun hlt => hnot (Int8.lt_iff_toInt_lt.mpr hlt)
    split
    · rename_i hzero
      rw [hzero]
      decide
    · rw [toNat_toUInt8, if_neg hle, abs_of_nonneg (by omega)]

/-- The signs cancel. -/
theorem sign_product (a b : Int8) (hb : b ≠ -128) :
    ((sign_epi8 a a).toUInt8.toNat : ℤ) * (sign_epi8 b a).toInt = a.toInt * b.toInt := by
  have hb' : b.toInt ≠ -128 := fun heq => hb (Int8.toInt_inj.mp heq)
  rw [sign_self, sign_epi8]
  split
  · rename_i hneg
    have hlt : a.toInt < 0 := Int8.lt_iff_toInt_lt.mp hneg
    rw [abs_of_neg hlt, toInt_neg_byte hb', neg_mul_neg]
  · rename_i hnot
    have hle : ¬a.toInt < 0 := fun hlt => hnot (Int8.lt_iff_toInt_lt.mpr hlt)
    split
    · rename_i hzero
      rw [hzero]
      simp
    · rw [abs_of_nonneg (by omega)]

/-- The product of two bytes fits 15 bits. -/
theorem byte_product_bound (a b : Int8) (hb : b ≠ -128) :
    -16256 ≤ a.toInt * b.toInt ∧ a.toInt * b.toInt ≤ 16256 := by
  have hb' : b.toInt ≠ -128 := fun heq => hb (Int8.toInt_inj.mp heq)
  have ha := byte_bounds a
  have hbound := byte_bounds b
  have habs : |a.toInt * b.toInt| ≤ 128 * 127 := by
    rw [abs_mul]
    exact mul_le_mul (abs_le.mpr ⟨by omega, by omega⟩) (abs_le.mpr ⟨by omega, by omega⟩)
      (abs_nonneg _) (by decide)
  have hboth := abs_le.mp habs
  omega

/-- The lanes add up products of the numbers, whatever the instruction. -/
theorem updot_eq (t : Target) (a b : ℕ → Int8) (hb : ∀ k, b k ≠ -128) (lane : ℕ) :
    updot t (fun k => (sign_epi8 (a k) (a k)).toUInt8) (fun k => sign_epi8 (b k) (a k)) lane =
      ∑ k ∈ Finset.range 4, (a (lane * 4 + k)).toInt * (b (lane * 4 + k)).toInt := by
  have hproduct (k : ℕ) := sign_product (a k) (b k) (hb k)
  have hbound (k : ℕ) := byte_product_bound (a k) (b k) (hb k)
  simp only [updot, hproduct, Finset.sum_range_succ, Finset.sum_range_zero, zero_add]
  split
  · exact Eq.refl _
  · have hfirst := hbound (lane * 4 + 0)
    have hsecond := hbound (lane * 4 + 1)
    have hthird := hbound (lane * 4 + 2)
    have hfourth := hbound (lane * 4 + 3)
    rw [saturate16, saturate16, min_eq_right (by omega), max_eq_right (by omega),
      min_eq_right (by omega), max_eq_right (by omega)]
    ring

/-- The lanes of a register have all products of a block. -/
theorem sum_lanes (f : ℕ → ℤ) :
    ∑ lane ∈ Finset.range 8, ∑ k ∈ Finset.range 4, f (lane * 4 + k) = ∑ c ∈ Finset.range 32, f c :=
  (sum_range_mul f 8 4).symm

/-- Both halves of a block. -/
theorem sum_halves (f : ℕ → ℤ) :
    ∑ lane ∈ Finset.range 4, (∑ k ∈ Finset.range 4, f (lane * 4 + k) +
      ∑ k ∈ Finset.range 4, f (16 + (lane * 4 + k))) = ∑ c ∈ Finset.range 32, f c := by
  have hlow : ∑ lane ∈ Finset.range 4, ∑ k ∈ Finset.range 4, f (lane * 4 + k) =
      ∑ c ∈ Finset.range 16, f c := (sum_range_mul f 4 4).symm
  have hhigh : ∑ lane ∈ Finset.range 4, ∑ k ∈ Finset.range 4, f (16 + (lane * 4 + k)) =
      ∑ c ∈ Finset.range 16, f (16 + c) := (sum_range_mul (fun c => f (16 + c)) 4 4).symm
  rw [Finset.sum_add_distrib, hlow, hhigh]
  exact (Finset.sum_range_add f 16 16).symm

/-- A half of a byte. -/
theorem nibble_lt (qs : Fin 16 → UInt8) (k : Fin 32) : (nibble qs k).toNat < 16 := by
  rw [nibble]
  split
  · rw [UInt8.toNat_and]
    exact Nat.lt_succ_of_le Nat.and_le_right
  · rw [UInt8.toNat_shiftRight]
    have hbyte := UInt8.toNat_lt (qs ⟨k.val - 16, by omega⟩)
    have hshift : (4 : UInt8).toNat % 8 = 4 := by decide
    rw [hshift, Nat.shiftRight_eq_div_pow]
    omega

/-- A number of four bits less eight fits a byte. -/
theorem toInt_nibble (qs : Fin 16 → UInt8) (k : Fin 32) :
    ((nibble qs k).toInt8 - 8).toInt = ((nibble qs k).toNat : ℤ) - 8 := by
  have hlt := nibble_lt qs k
  have hnumber : (nibble qs k).toInt8.toInt = ((nibble qs k).toNat : ℤ) := by
    have hvalue := toNat_toUInt8 (nibble qs k).toInt8
    have hbounds := byte_bounds (nibble qs k).toInt8
    rw [UInt8.toUInt8_toInt8] at hvalue
    split at hvalue <;> omega
  have height : (8 : Int8).toInt = 8 := by decide
  rw [Int8.toInt_sub, hnumber, height, Int.bmod]
  split <;> omega

end Bytes

section Cells

variable {R : Type*} [CommRing R]

/-- A lane adds up what the turns add. -/
theorem foldl_loop (k step : ℕ) (f : ℕ → R) :
    (loop k step).foldl (fun acc l => acc + f l) 0 =
      ∑ turn ∈ Finset.range ((k + step - 1) / step), f (turn * step) := by
  rw [loop]
  induction (k + step - 1) / step with
  | zero => exact Eq.refl _
  | succ turns ih =>
    rw [List.range_succ, List.map_append, List.foldl_append, ih, Finset.sum_range_succ]
    exact Eq.refl _

/-- The turns of a loop over whole registers. -/
theorem turns_eq {k step : ℕ} (hstep : 0 < step) (hk : k % step = 0) :
    (k + step - 1) / step = k / step := by
  have hsplit := Nat.div_add_mod k step
  rw [hk, Nat.add_zero] at hsplit
  calc (k + step - 1) / step = (step * (k / step) + (step - 1)) / step := by
        rw [hsplit, Nat.add_sub_assoc hstep]
    _ = k / step + (step - 1) / step := Nat.mul_add_div hstep _ _
    _ = k / step := by
        rw [Nat.div_eq_of_lt (Nat.sub_lt hstep Nat.one_pos), Nat.add_zero]

theorem tinyBLAS_cell (t : Target) {KN : ℕ} (hKN : 0 < KN) {k : ℕ} (hk : k % KN = 0) (A B : ℕ → R)
    (lda ldb i j : ℕ) : (tinyBLAS t KN A lda B ldb).cell k i j =
      ∑ c ∈ Finset.range k, A (lda * i + c) * B (ldb * j + c) := by
  have hwhole : k / KN * KN = k := Nat.div_mul_cancel (Nat.dvd_of_mod_eq_zero hk)
  have hsum := sum_range_mul (fun c => A (lda * i + c) * B (ldb * j + c)) (k / KN) KN
  rw [hwhole] at hsum
  rw [TinyBlas.cell, hsum, Finset.sum_comm]
  simp only [foldl_loop, tinyBLAS, turns_eq hKN hk, Nat.add_assoc]

/-- A product of rows of blocks. -/
def blockDot (A : ℕ → LoadedBlock R) (lda : ℕ) (B : ℕ → LoadedBlock R) (ldb k i j : ℕ) : R :=
  ∑ l ∈ Finset.range k, ∑ c ∈ Finset.range 32,
    (((A (lda * i + l)).qs c).toInt : R) * (A (lda * i + l)).d *
      ((((B (ldb * j + l)).qs c).toInt : R) * (B (ldb * j + l)).d)

theorem sum_numbers (a b : LoadedBlock R) :
    ((∑ c ∈ Finset.range 32, (a.qs c).toInt * (b.qs c).toInt : ℤ) : R) * (a.d * b.d) =
      ∑ c ∈ Finset.range 32, ((a.qs c).toInt : R) * a.d * (((b.qs c).toInt : R) * b.d) := by
  rw [Int.cast_sum, Finset.sum_mul]
  apply Finset.sum_congr (Eq.refl _)
  intro c _
  rw [Int.cast_mul]
  ring

theorem tinyBLAS_Q0_ARM_cell (A : ℕ → LoadedBlock R) (lda : ℕ) (B : ℕ → LoadedBlock R)
    (ldb k i j : ℕ) :
    (tinyBLAS_Q0_ARM A lda B ldb).cell k i j = blockDot A lda B ldb k i j := by
  simp only [TinyBlas.cell, foldl_loop, tinyBLAS_Q0_ARM, turns_eq Nat.one_pos (Nat.mod_one k),
    Nat.div_one, Nat.mul_one]
  rw [Finset.sum_comm, blockDot]
  apply Finset.sum_congr (Eq.refl _)
  intro l _
  rw [← Finset.sum_mul, ← sum_numbers, ← Int.cast_sum, ← sum_halves]
  simp only [vdotq_s32, zero_add]

theorem tinyBLAS_Q0_AVX2_cell (t : Target) (A : ℕ → LoadedBlock R) (lda : ℕ)
    (B : ℕ → LoadedBlock R) (hB : ∀ l c, (B l).qs c ≠ -128) (ldb k i j : ℕ) :
    (tinyBLAS_Q0_AVX2 t A lda B ldb).cell k i j = blockDot A lda B ldb k i j := by
  simp only [TinyBlas.cell, foldl_loop, tinyBLAS_Q0_AVX2, turns_eq Nat.one_pos (Nat.mod_one k),
    Nat.div_one, Nat.mul_one]
  rw [Finset.sum_comm, blockDot]
  apply Finset.sum_congr (Eq.refl _)
  intro l _
  rw [← Finset.mul_sum, ← sum_numbers, ← Int.cast_sum, ← sum_lanes, mul_comm]
  simp only [updot_eq t _ _ (hB _)]

/-- Blocks have the values of a matrix. -/
def Loads (M : Matrix R) (blocks : ℕ → LoadedBlock R) : Prop :=
  M.blockSize = 32 ∧ ∀ stride row l c, c < 32 → M.value stride row (l * 32 + c) =
    (((blocks (stride * row + l)).qs c).toInt : R) * (blocks (stride * row + l)).d

theorem loads_q80 (blocks : ℕ → NnBlockQ80 R) : Loads (.q80 blocks) fun l => loadQ80 (blocks l) := by
  refine ⟨Eq.refl _, ?_⟩
  intro stride row l c hc
  simp only [Matrix.value, index_div l hc, index_mod l hc, loadQ80]

theorem loads_q40 (blocks : ℕ → NnBlockQ40 R) : Loads (.q40 blocks) fun l => loadQ40 (blocks l) := by
  refine ⟨Eq.refl _, ?_⟩
  intro stride row l c hc
  simp only [Matrix.value, index_div l hc, index_mod l hc, loadQ40, toInt_nibble]

/-- A product of a row and a column. -/
def rowProduct (A : Matrix R) (lda : ℕ) (B : Matrix R) (ldb k i j : ℕ) : R :=
  ∑ c ∈ Finset.range (k * A.blockSize), A.value lda i c * B.value ldb j c

theorem blockDot_eq {A B : Matrix R} {a b : ℕ → LoadedBlock R} (hA : Loads A a) (hB : Loads B b)
    (lda ldb k i j : ℕ) : blockDot a lda b ldb k i j = rowProduct A lda B ldb k i j := by
  rw [rowProduct, hA.1, sum_range_mul]
  apply Finset.sum_congr (Eq.refl _)
  intro l _
  apply Finset.sum_congr (Eq.refl _)
  intro c hc
  have hlt := Finset.mem_range.mp hc
  rw [hA.2 lda i l c hlt, hB.2 ldb j l c hlt]

/-- Every cell of every class is the product of a row and a column. -/
theorem cell_eq {t : Target} {n k lda ldb : ℕ} {A B : Matrix R} (hB : B.Invertible)
    {b : TinyBlas R} (h : sgemmKernel t n k A lda B ldb = some b) (i j : ℕ) :
    b.cell k i j = rowProduct A lda B ldb k i j := by
  have hfloats {KN : ℕ} (hKN : 0 < KN) (hk : ¬k % KN ≠ 0) (values values' : ℕ → R) :
      (tinyBLAS t KN values lda values' ldb).cell k i j = ∑ c ∈ Finset.range (k * 1),
        values (lda * i + c) * values' (ldb * j + c) := by
    rw [Nat.mul_one]
    exact tinyBLAS_cell t hKN (not_not.mp hk) values values' lda ldb i j
  cases A with
  | f32 values =>
    cases B with
    | f32 values' =>
      simp only [sgemmKernel] at h
      split at h
      · split at h
        · cases h
        · rename_i hk
          cases h
          exact hfloats (by decide) hk values values'
      · split at h
        · split at h
          · cases h
          · rename_i hk
            cases h
            exact hfloats (by decide) hk values values'
        · split at h
          · split at h
            · cases h
            · split at h
              · cases h
              · rename_i hk
                cases h
                exact hfloats (by decide) hk values values'
          · cases h
    | f16 _ => cases h
    | q80 _ => cases h
    | q40 _ => cases h
  | f16 values =>
    simp only [sgemmKernel] at h
    split at h
    · split at h
      · cases h
      · rename_i hk
        split at h
        · cases h
          exact hfloats (by decide) hk values _
        · cases h
    · split at h
      · split at h
        · cases h
        · rename_i hk
          split at h
          · cases h
            exact hfloats (by decide) hk values _
          · cases h
      · split at h
        · split at h
          · cases h
          · split at h
            · cases h
            · rename_i hk
              split at h
              · cases h
                exact hfloats (by decide) hk values _
              · cases h
        · split at h
          · split at h
            · cases h
            · rename_i hk
              split at h
              · cases h
                exact hfloats (by decide) hk values _
              · cases h
          · cases h
  | q80 blocks =>
    cases B with
    | f32 _ => cases h
    | f16 _ => cases h
    | q80 blocks' =>
      have hdot := blockDot_eq (loads_q80 blocks) (loads_q80 blocks') lda ldb k i j
      simp only [sgemmKernel] at h
      split at h
      · cases h
        exact (tinyBLAS_Q0_AVX2_cell t _ lda _ (fun l c => hB l _) ldb k i j).trans hdot
      · split at h
        · cases h
          exact (tinyBLAS_Q0_ARM_cell _ lda _ ldb k i j).trans hdot
        · cases h
    | q40 blocks' =>
      simp only [sgemmKernel] at h
      split at h
      · cases h
        exact (tinyBLAS_Q0_ARM_cell _ lda _ ldb k i j).trans
          (blockDot_eq (loads_q80 blocks) (loads_q40 blocks') lda ldb k i j)
      · cases h
  | q40 blocks =>
    cases B with
    | f32 _ => cases h
    | f16 _ => cases h
    | q40 _ => cases h
    | q80 blocks' =>
      have hdot := blockDot_eq (loads_q40 blocks) (loads_q80 blocks') lda ldb k i j
      simp only [sgemmKernel] at h
      split at h
      · cases h
        exact (tinyBLAS_Q0_AVX2_cell t _ lda _ (fun l c => hB l _) ldb k i j).trans hdot
      · split at h
        · cases h
          exact (tinyBLAS_Q0_ARM_cell _ lda _ ldb k i j).trans hdot
        · cases h

end Cells

section Product

variable {R : Type*}

/-- Stores that leave a value in every cell of rows and columns, each cell once, and nothing
elsewhere. -/
structure Fills (m n ldc : ℕ) (value : ℕ → ℕ → R) (stores : List (ℕ × R)) : Prop where
  /-- No place is stored to twice. -/
  once : (stores.map Prod.fst).Nodup
  /-- Every cell gets its value. -/
  cells : ∀ C : ℕ → R, ∀ i < m, ∀ j < n, storeAll C stores (ldc * j + i) = value i j
  /-- Other places are left. -/
  others : ∀ (C : ℕ → R) (place : ℕ), (∀ i < m, ∀ j < n, place ≠ ldc * j + i) →
    storeAll C stores place = C place

/-- One store for each cell, in any order. -/
theorem fills_of_perm {m n ldc : ℕ} (hldc : m ≤ ldc) {value : ℕ → ℕ → R} {stores : List (ℕ × R)}
    (h : stores.Perm ((grid 0 m 0 n).map fun c => (ldc * c.2 + c.1, value c.1 c.2))) :
    Fills m n ldc value stores := by
  have hinj {c c' : ℕ × ℕ} (hc : c ∈ grid 0 m 0 n) (hc' : c' ∈ grid 0 m 0 n)
      (heq : ldc * c.2 + c.1 = ldc * c'.2 + c'.1) : c = c' := by
    have hrow := (mem_grid.mp hc).1.2
    have hrow' := (mem_grid.mp hc').1.2
    rw [Nat.mul_comm ldc, Nat.mul_comm ldc] at heq
    obtain ⟨hcolumn, hsame⟩ := index_inj (hrow.trans_le hldc) (hrow'.trans_le hldc) heq
    exact Prod.ext hsame hcolumn
  constructor
  · have hnodup : (((grid 0 m 0 n).map fun c => (ldc * c.2 + c.1, value c.1 c.2)).map
        Prod.fst).Nodup := by
      rw [List.map_map]
      exact List.Nodup.map_on (fun c hc c' hc' heq => hinj hc hc' heq) (nodup_grid 0 m 0 n)
    exact (h.map Prod.fst).nodup_iff.mpr hnodup
  · intro C i hi j hj
    have hcell : (i, j) ∈ grid 0 m 0 n :=
      mem_grid.mpr ⟨⟨Nat.zero_le i, hi⟩, Nat.zero_le j, hj⟩
    apply storeAll_of_mem
    · intro v hv
      obtain ⟨c, hc, heq⟩ := List.mem_map.mp (h.mem_iff.mp hv)
      have hplace := congrArg Prod.fst heq
      have hvalue := congrArg Prod.snd heq
      dsimp only at hplace hvalue
      rw [hinj hc hcell hplace] at hvalue
      exact hvalue.symm
    · exact h.mem_iff.mpr (List.mem_map.mpr ⟨(i, j), hcell, Eq.refl _⟩)
  · intro C place hplace
    apply storeAll_of_notMem
    intro v hv
    obtain ⟨c, hc, heq⟩ := List.mem_map.mp (h.mem_iff.mp hv)
    obtain ⟨⟨_, hrow⟩, _, hcolumn⟩ := mem_grid.mp hc
    exact hplace c.1 hrow c.2 hcolumn (congrArg Prod.fst heq).symm

variable [CommRing R]

/-- The threads of a class store the product of a row and a column in every cell, once. -/
theorem matmul_perm {t : Target} {m n k lda ldb ldc nth : ℕ} {A B : Matrix R}
    (hB : B.Invertible) (hnth : 0 < nth) {b : TinyBlas R}
    (hkernel : sgemmKernel t n k A lda B ldb = some b) :
    ((List.range nth).flatMap fun ith => b.matmul k ldc m n ith nth).Perm
      ((grid 0 m 0 n).map fun c => (ldc * c.2 + c.1, rowProduct A lda B ldb k c.1 c.2)) := by
  have hcells := (threadCells_perm b.table hnth m n).map fun c =>
    (ldc * c.2 + c.1, b.cell k c.1 c.2)
  rw [List.map_flatMap] at hcells
  have hvalues : ((grid 0 m 0 n).map fun c => (ldc * c.2 + c.1, b.cell k c.1 c.2)) =
      (grid 0 m 0 n).map fun c => (ldc * c.2 + c.1, rowProduct A lda B ldb k c.1 c.2) :=
    List.map_congr_left fun c _ => by rw [cell_eq hB hkernel]
  rw [hvalues] at hcells
  exact hcells

/-- All threads decide alike whether there is a class for a product. When there is one, their stores
in any order leave the product of the matrices, with one store for each cell and none elsewhere. -/
theorem sgemm_product (t : Target) {m n k lda ldb ldc nth : ℕ} {A B : Matrix R}
    (hB : B.Invertible) (hldc : m ≤ ldc) (hnth : 0 < nth) :
    (∀ ith, llamafile_sgemm t m n k A lda B ldb ldc ith nth .f32 = none) ∨
      ∃ stores : ℕ → List (ℕ × R),
        (∀ ith, llamafile_sgemm t m n k A lda B ldb ldc ith nth .f32 = some (stores ith)) ∧
        ∀ order : List (ℕ × R), order.Perm ((List.range nth).flatMap stores) →
          Fills m n ldc (rowProduct A lda B ldb k) order := by
  cases hkernel : sgemmKernel t n k A lda B ldb with
  | none =>
    apply Or.inl
    intro ith
    simp [llamafile_sgemm, hkernel]
  | some b =>
    apply Or.inr
    refine ⟨fun ith => b.matmul k ldc m n ith nth, ?_, ?_⟩
    · intro ith
      simp [llamafile_sgemm, hkernel]
    · intro order horder
      exact fills_of_perm hldc (horder.trans (matmul_perm hB hnth hkernel))

/-- A processor with `__AVX2__` and `__F16C__`. -/
def avx2Target : Target where
  avx512f := false
  avx := true
  avx2 := true
  f16c := true
  vnni := false
  neon := false
  fp16Vector := false
  dotprod := false
  msc := false

/-- Seven rows of two blocks times three, on three threads. Some tiles are left over. -/
theorem sgemm_product_avx2 :
    ∃ stores : ℕ → List (ℕ × ℤ),
      (∀ ith, llamafile_sgemm avx2Target 7 3 2 (.q40 fun l => ⟨(l : ℤ), fun _ => 3⟩) 2
        (.q80 fun l => ⟨(l : ℤ) + 2, fun _ => 5⟩) 2 8 ith 3 .f32 = some (stores ith)) ∧
      ∀ order : List (ℕ × ℤ), order.Perm ((List.range 3).flatMap stores) →
        Fills 7 3 8 (rowProduct (.q40 fun l => ⟨(l : ℤ), fun _ => 3⟩) 2
          (.q80 fun l => ⟨(l : ℤ) + 2, fun _ => 5⟩) 2 2) order := by
  have hdecided := @sgemm_product ℤ _ avx2Target 7 3 2 2 2 8 3 (.q40 fun l => ⟨(l : ℤ), fun _ => 3⟩)
    (.q80 fun l => ⟨(l : ℤ) + 2, fun _ => 5⟩) (fun _ _ => show (5 : Int8) ≠ -128 by decide)
    (by decide) (by decide)
  exact hdecided.resolve_left fun hnone => Option.some_ne_none _ (hnone 0)

end Product

end LayerSkip.LlamafileSgemm
