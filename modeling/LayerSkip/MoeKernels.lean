import LayerSkip.LlmGraph
import LayerSkip.RowLoops
import Mathlib.Algebra.BigOperators.Field
import Mathlib.Algebra.Order.BigOperators.Group.Finset
import Mathlib.Algebra.Order.Floor.Semiring

/-!
# Kernels of the experts on the processor device

The operations of the block of experts, as a single thread runs them in exact arithmetic. A number
in a buffer is a number whatever the format, so casts copy. Buffers are flat; some kernels go
through the row pointers of a context, others index a buffer as a whole.
-/

namespace LayerSkip.MoeKernels

open NnPipeline NnCore NnCpu LlmGraph RowLoops

/-- Formats of the input, the weight and the output. -/
inductive NnOpQuantType
  | f32f32f32
  | f32q40f32
  | f32f32q80
  | f32q40q80
  | q80q80f32
  | q80f32f32
  | q80q40f32
  | q80q80q80
  deriving DecidableEq, Repr

/-- No weight counts as one in the format of the input. -/
def getOpQuantType (input : NnFloatType) (weight : Option NnFloatType) (output : NnFloatType) :
    Option NnOpQuantType :=
  match input, weight, output with
  | .f32, none, .f32 => some .f32f32f32
  | .f32, some .f32, .f32 => some .f32f32f32
  | .f32, some .q40, .f32 => some .f32q40f32
  | .f32, none, .q80 => some .f32f32q80
  | .f32, some .f32, .q80 => some .f32f32q80
  | .f32, some .q40, .q80 => some .f32q40q80
  | .q80, none, .f32 => some .q80q80f32
  | .q80, some .q80, .f32 => some .q80q80f32
  | .q80, some .f32, .f32 => some .q80f32f32
  | .q80, some .q40, .f32 => some .q80q40f32
  | .q80, none, .q80 => some .q80q80q80
  | .q80, some .q80, .q80 => some .q80q80q80
  | _, _, _ => none

/-- Whether there is a kernel, for the operations of the block. -/
def hasCpuOpForward (code : NnOpCode) (quant : NnOpQuantType) : Bool :=
  match code with
  | .mergeSum => quant = .f32f32f32
  | .matmul => quant = .f32f32f32 ∨ quant = .q80q40f32
  | .silu => quant = .f32f32f32
  | .mul => quant = .f32f32f32
  | .scale => quant = .f32f32f32
  | .cast => quant = .f32f32f32 ∨ quant = .f32f32q80 ∨ quant = .q80q80q80 ∨ quant = .q80q80f32
  | .repeatZ => quant = .f32f32q80
  | .softmax => quant = .f32f32f32
  | .moeGate => quant = .f32f32f32
  | _ => false

/-- Whether the memory of a pointer is in one piece. -/
def hasPointerContinuousMemory : NnPointerType → Bool
  | .raw => true
  | .batch => true
  | .batchedSlice => true

/-- What a kernel knows of its operation. -/
structure NnCpuOpContext where
  /-- The operation. -/
  op : NnOpConfig
  /-- Rows of a layer of a buffer. -/
  nBatches : ℕ
  /-- Input. -/
  input : NnBuffer
  /-- Its size. -/
  inputSize : NnSize3D
  /-- Output. -/
  output : NnBuffer
  /-- Its size. -/
  outputSize : NnSize3D
  deriving DecidableEq, Repr

/-- Size of a buffer of a node. -/
def bufferSize (b : NnNodeBuilder) (nBatches : ℕ) (buffer : NnBuffer) : Option NnSize3D :=
  ((b.buffers nBatches).find? fun entry => entry.1 = buffer).map Prod.snd

/-- What the kernels check of their contexts. -/
def NnCpuOpContext.Checked (c : NnCpuOpContext) : Prop :=
  match c.op.code, c.op.config with
  | .matmul, .matmul nExperts nActiveExperts _ =>
    c.inputSize.y = c.nBatches ∧ c.outputSize.y = c.nBatches ∧ c.inputSize.x = c.op.weightSize.y ∧
      c.inputSize.z = max nActiveExperts 1 ∧ c.outputSize.x = c.op.weightSize.x ∧
      c.outputSize.z = max nActiveExperts 1 ∧ c.op.weightSize.z = max nExperts 1
  | .silu, _ => c.inputSize.x = c.outputSize.x ∧ c.inputSize.y = c.outputSize.y
  | .mul, _ => c.inputSize.x = c.outputSize.x ∧ c.inputSize.y = c.outputSize.y ∧
      c.inputSize.z = c.outputSize.z
  | .cast, _ => c.inputSize.x = c.outputSize.x ∧ c.inputSize.y = c.outputSize.y ∧
      c.inputSize.z = c.outputSize.z
  | .repeatZ, _ => c.inputSize.x = c.outputSize.x ∧ c.inputSize.y = c.outputSize.y ∧
      c.inputSize.z = 1 ∧ c.inputSize.z ≤ c.outputSize.z
  | .softmax, _ => c.input = c.output
  | .moeGate, .moeGate k _ _ => c.inputSize.z = 1 ∧ c.inputSize.y = c.nBatches ∧
      k ≤ c.inputSize.x ∧ c.outputSize.z = k ∧ c.outputSize.y = c.nBatches ∧ c.outputSize.x = 1
  | .mergeSum, _ => c.outputSize.z = 1 ∧ 1 ≤ c.inputSize.z
  | _, _ => True

instance (c : NnCpuOpContext) : Decidable c.Checked := by
  unfold NnCpuOpContext.Checked
  split <;> infer_instance

/-- The context of an operation on the rows of two buffers, if there is a kernel for its formats. -/
def createContext (b : NnNodeBuilder) (nBatches : ℕ) (op : NnOpConfig) : Option NnCpuOpContext :=
  match op.input, op.output with
  | ⟨.buffer input, .batch⟩, ⟨.buffer output, .batch⟩ => do
    let inputSize ← bufferSize b nBatches input
    let outputSize ← bufferSize b nBatches output
    let inputType ← inputSize.floatType
    let outputType ← outputSize.floatType
    let quant ← getOpQuantType inputType op.weightSize.floatType outputType
    let c : NnCpuOpContext := ⟨op, nBatches, input, inputSize, output, outputSize⟩
    if inputSize.y = nBatches ∧ outputSize.y = nBatches ∧ hasCpuOpForward op.code quant ∧
        c.Checked then some c
    else none
  | _, _ => none

/-- The exponential function. -/
structure Exponential (F : Type*) [Field F] [LinearOrder F] where
  /-- Its values. -/
  expf : F → F
  /-- They are positive. -/
  expf_pos : ∀ x, 0 < expf x
  /-- Sums become products. -/
  expf_add : ∀ x y, expf (x + y) = expf x * expf y
  /-- Larger numbers have larger values. -/
  expf_strictMono : StrictMono expf

/-- A sort, by decreasing key. The order of equal keys is open. -/
structure StdSort (F : Type*) [LinearOrder F] where
  /-- Sort by a comparison. -/
  sort : (ℕ → ℕ → Bool) → List ℕ → List ℕ
  /-- Nothing is lost. -/
  sort_perm : ∀ less items, (sort less items).Perm items
  /-- Keys do not increase. -/
  sort_sorted : ∀ (key : ℕ → F) items,
    (sort (fun a b => decide (key b < key a)) items).Pairwise fun a b => key b ≤ key a

/-- Numbers in the buffers of a node. -/
abbrev NnMemory (F : Type*) := NnBuffer → ℕ → F

/-- Values of a plane. Its bytes are counted in words. -/
def planeValues (size : NnSize3D) : ℕ := size.y * size.x % 2 ^ 32

section Kernels

variable {F : Type*} [Field F] [LinearOrder F] (e : Exponential F) (s : StdSort F)

/-- Values over their sum, after the exponential function. -/
def softmax_F32 (size : ℕ) (x : ℕ → F) : ℕ → F :=
  let maxVal := (List.range size).foldl (fun a i => max a (x i)) (x 0)
  let sum := ∑ i ∈ Finset.range size, e.expf (x i - maxVal)
  fun i => e.expf (x i - maxVal) / if sum = 0 then 1 / 1000000 else sum

/-- A value times its logistic function. -/
def silu_F32 (x : F) : F := x / (1 + e.expf (-x))

/-- Indexes of the `k` largest values. -/
def topk_F32 (x : ℕ → F) (size k : ℕ) : List ℕ :=
  (s.sort (fun a b => decide (x b < x a)) (List.range size)).take k

/-- A row of a product. -/
def matmul_F32 (w x : ℕ → F) (n : ℕ) : ℕ → F := fun i => ∑ j ∈ Finset.range n, w (i * n + j) * x j

variable (c : NnCpuOpContext) (batchSize : ℕ) (m : NnMemory F)

/-- Turns layer by layer. -/
def layerTurns (z : ℕ) : List (ℕ × ℕ) := List.range z ×ˢ List.range batchSize

/-- Turns row by row. -/
def rowTurns (z : ℕ) : List (ℕ × ℕ) := List.range batchSize ×ˢ List.range z

/-- What a turn of the repetition stores: the first layer is quantised from the input, the others
are copied from the first. -/
def repeatZValue (m : NnMemory F) (t : ℕ × ℕ) : ℕ → F :=
  if t.1 = 0 then rowOf m c.input c.inputSize.x t.2 else rowOf m c.output c.outputSize.x t.2

/-- Repeat the input in every layer. -/
def repeatZForward : NnMemory F :=
  storeRows m c.output c.outputSize.x (fun t => t.1 * c.outputSize.y + t.2) (repeatZValue c)
    (layerTurns batchSize c.outputSize.z)

/-- The fast path: rows of the batch times the block at the start of the weight. It is open which
products it takes. -/
def matmulForward_llamafile (llamafile_sgemm : ℕ → ℕ → ℕ → NnSize3D → NnSize3D → Bool)
    (weight : ℕ → F) : Option (NnMemory F) :=
  if !hasPointerContinuousMemory c.op.input.type ∨ !hasPointerContinuousMemory c.op.output.type ∨
      c.inputSize.z ≠ 1 then none
  else
    let n := c.op.weightSize.y / (c.inputSize.floatType.map getBlockSize).getD 1
    let d := c.op.weightSize.x
    if llamafile_sgemm d batchSize n c.op.weightSize c.inputSize then
      some (storeRows m c.output d id
        (fun m y => matmul_F32 weight (rowOf m c.input c.op.weightSize.y y) c.op.weightSize.y)
        (List.range batchSize))
    else none

/-- The product, with the weights of the active experts. -/
def matmulForward (llamafile_sgemm : ℕ → ℕ → ℕ → NnSize3D → NnSize3D → Bool) [FloorSemiring F]
    (weight : ℕ → F) (nActiveExperts : ℕ) (activeExpertIndexesBuffer : NnBuffer) : NnMemory F :=
  match matmulForward_llamafile c batchSize m llamafile_sgemm weight with
  | some m' => m'
  | none =>
    storeRows m c.output c.outputSize.x (fun t => t.2 * c.outputSize.y + t.1)
      (fun m t =>
        let activeExpertIndex :=
          if nActiveExperts = 0 then 0
          else ⌊m activeExpertIndexesBuffer (t.1 * nActiveExperts + t.2)⌋₊
        matmul_F32 (fun l => weight (activeExpertIndex * planeValues c.op.weightSize + l))
          (rowOf m c.input c.inputSize.x (t.2 * c.inputSize.y + t.1)) c.op.weightSize.y)
      (rowTurns batchSize (max nActiveExperts 1))

/-- Softmax of every row, in place. -/
def softmaxForward : NnMemory F :=
  storeRows m c.output c.outputSize.x id
    (fun m y => softmax_F32 e c.outputSize.x (rowOf m c.output c.outputSize.x y))
    (List.range batchSize)

/-- Sum of the values that are selected. -/
def topkSum (normTopk : ℕ) (input : ℕ → F) (pos : List ℕ) : F :=
  if normTopk = 1 then (pos.map input).sum else 1

/-- Indexes and weights of the experts. The values of a row are sorted once for all its turns. -/
def moeGateForward (k normTopk : ℕ) (indexesBuffer : NnBuffer) : NnMemory F :=
  let input (m : NnMemory F) (y : ℕ) := rowOf m c.input c.inputSize.x y
  let pos (m : NnMemory F) (y : ℕ) := topk_F32 s (input m y) c.inputSize.x k
  storePairs m indexesBuffer 1 (fun t => t.1 * k + t.2)
    (fun m t _ => ((pos m t.1).getD t.2 0 : F))
    c.output 1 (fun t => t.2 * c.outputSize.y + t.1)
    (fun m t _ => input m t.1 ((pos m t.1).getD t.2 0) /
      topkSum normTopk (input m t.1) (pos m t.1))
    (rowTurns batchSize k)

/-- The activation, in place. -/
def siluForward : NnMemory F :=
  storeRows m c.output c.outputSize.x (fun t => t.1 * c.outputSize.y + t.2)
    (fun m t i => silu_F32 e (rowOf m c.output c.outputSize.x (t.1 * c.outputSize.y + t.2) i))
    (layerTurns batchSize c.inputSize.z)

/-- The product with another buffer. -/
def mulForward (multiplierBuffer : NnBuffer) : NnMemory F :=
  storeRows m c.output c.outputSize.x (fun t => t.1 * c.inputSize.y + t.2)
    (fun m t i => rowOf m c.input c.inputSize.x (t.1 * c.inputSize.y + t.2) i *
      m multiplierBuffer (c.outputSize.x * (t.1 * c.inputSize.y + t.2) + i))
    (layerTurns batchSize c.inputSize.z)

/-- The product of every row with one number. -/
def scaleForward (scaleBuffer : NnBuffer) : NnMemory F :=
  storeRows m c.output c.inputSize.x (fun t => t.1 * c.inputSize.y + t.2)
    (fun m t i => rowOf m c.input c.inputSize.x (t.1 * c.inputSize.y + t.2) i *
      m scaleBuffer (t.1 * c.inputSize.y + t.2))
    (layerTurns batchSize c.inputSize.z)

/-- A copy to another format. -/
def castForward : NnMemory F :=
  storeRows m c.output c.outputSize.x (fun t => t.1 * c.inputSize.y + t.2)
    (fun m t => rowOf m c.input c.inputSize.x (t.1 * c.inputSize.y + t.2))
    (layerTurns batchSize c.inputSize.z)

/-- The sum over the layers. -/
def mergeSumForward : NnMemory F :=
  storeRows m c.output c.outputSize.x id
    (fun m y i => ∑ z ∈ Finset.range c.inputSize.z,
      rowOf m c.input c.inputSize.x (y + z * c.nBatches) i)
    (List.range batchSize)

variable [FloorSemiring F] (llamafile_sgemm : ℕ → ℕ → ℕ → NnSize3D → NnSize3D → Bool)
  (weights : String → ℕ → F)

/-- Run an operation of the block. -/
def opForward : Option (NnMemory F) :=
  match c.op.code, c.op.config with
  | .repeatZ, _ => some (repeatZForward c batchSize m)
  | .matmul, .matmul _ nActiveExperts activeExpertIndexesBuffer =>
    some (matmulForward c batchSize m llamafile_sgemm (weights c.op.name) nActiveExperts
      activeExpertIndexesBuffer)
  | .softmax, _ => some (softmaxForward e c batchSize m)
  | .moeGate, .moeGate k normTopk indexesBuffer =>
    some (moeGateForward s c batchSize m k normTopk indexesBuffer)
  | .silu, _ => some (siluForward e c batchSize m)
  | .mul, .mul multiplierBuffer => some (mulForward c batchSize m multiplierBuffer)
  | .scale, .scale scaleBuffer => some (scaleForward c batchSize m scaleBuffer)
  | .cast, _ => some (castForward c batchSize m)
  | .mergeSum, _ => some (mergeSumForward c batchSize m)
  | _, _ => none

end Kernels

section Values

variable {F : Type*} [Field F] [LinearOrder F] [IsStrictOrderedRing F] (e : Exponential F)

/-- Shifted values have the same ratios, so the kernel computes what softmax is. -/
theorem softmax_F32_eq {size : ℕ} (x : ℕ → F) {i : ℕ} (hi : i < size) :
    softmax_F32 e size x i = e.expf (x i) / ∑ j ∈ Finset.range size, e.expf (x j) := by
  unfold softmax_F32
  generalize (List.range size).foldl (fun a i => max a (x i)) (x 0) = maxVal
  have hshift (j : ℕ) : e.expf (x j) = e.expf (x j - maxVal) * e.expf maxVal := by
    rw [← e.expf_add, sub_add_cancel]
  have hsum : 0 < ∑ j ∈ Finset.range size, e.expf (x j - maxVal) :=
    Finset.sum_pos (fun j _ => e.expf_pos _) ⟨i, Finset.mem_range.mpr hi⟩
  have hall : ∑ j ∈ Finset.range size, e.expf (x j) =
      (∑ j ∈ Finset.range size, e.expf (x j - maxVal)) * e.expf maxVal := by
    rw [Finset.sum_mul]
    exact Finset.sum_congr (Eq.refl _) fun j _ => hshift j
  rw [if_neg (ne_of_gt hsum), hall, hshift i, mul_div_mul_right _ _ (ne_of_gt (e.expf_pos maxVal))]

theorem softmax_F32_congr {size : ℕ} {x x' : ℕ → F} (h : ∀ i < size, x' i = x i) {i : ℕ}
    (hi : i < size) : softmax_F32 e size x' i = softmax_F32 e size x i := by
  have hsum : ∑ j ∈ Finset.range size, e.expf (x' j) = ∑ j ∈ Finset.range size, e.expf (x j) :=
    Finset.sum_congr (Eq.refl _) fun j hj => by rw [h j (Finset.mem_range.mp hj)]
  rw [softmax_F32_eq e x' hi, softmax_F32_eq e x hi, h i hi, hsum]

omit [IsStrictOrderedRing F] in
theorem silu_F32_zero : silu_F32 e 0 = 0 := zero_div _

theorem silu_F32_pos {x : F} (hx : 0 < x) : 0 < silu_F32 e x :=
  div_pos hx (add_pos one_pos (e.expf_pos _))

end Values

section Specs

variable {F : Type*} [Field F] [LinearOrder F] {c : NnCpuOpContext} {batchSize : ℕ}

omit [Field F] [LinearOrder F] in
/-- A row of the input, whether or not the input is the output. -/
theorem rowOf_input {m m' : NnMemory F} {row : ℕ} (hx : c.inputSize.x = c.outputSize.x)
    (hothers : ∀ b ≠ c.output, m' b = m b)
    (hown : ∀ i < c.outputSize.x,
      rowOf m' c.output c.outputSize.x row i = rowOf m c.output c.outputSize.x row i) {i : ℕ}
    (hi : i < c.outputSize.x) :
    rowOf m' c.input c.inputSize.x row i = rowOf m c.input c.inputSize.x row i := by
  by_cases hsame : c.input = c.output
  · rw [hsame, hx]
    exact hown i hi
  · unfold rowOf
    rw [hothers c.input hsame]

theorem mem_layerTurns {z : ℕ} {t : ℕ × ℕ} :
    t ∈ layerTurns batchSize z ↔ t.1 < z ∧ t.2 < batchSize := mem_turns

theorem mem_rowTurns {z : ℕ} {t : ℕ × ℕ} :
    t ∈ rowTurns batchSize z ↔ t.1 < batchSize ∧ t.2 < z := mem_turns

/-- Turns of the layers after the first one. -/
def laterTurns (batchSize layers : ℕ) : List (ℕ × ℕ) :=
  (List.range layers).map Nat.succ ×ˢ List.range batchSize

theorem layerTurns_succ (layers : ℕ) : layerTurns batchSize (layers + 1) =
    (List.range batchSize).map (fun y => (0, y)) ++ laterTurns batchSize layers := by
  rw [layerTurns, List.range_succ_eq_map, List.product_cons, laterTurns]

theorem mem_laterTurns {layers : ℕ} {t : ℕ × ℕ} (h : t ∈ laterTurns batchSize layers) :
    0 < t.1 ∧ t.2 < batchSize := by
  obtain ⟨hlayer, hrow⟩ := List.mem_product.mp h
  obtain ⟨z, _, heq⟩ := List.mem_map.mp hlayer
  exact ⟨heq ▸ Nat.succ_pos z, List.mem_range.mp hrow⟩

/-- Rows of the later layers lie after the first layer. -/
theorem laterTurns_ne {layers y row : ℕ} (hbatch : batchSize ≤ y) (hrow : row < batchSize)
    {t : ℕ × ℕ} (ht : t ∈ laterTurns batchSize layers) : t.1 * y + t.2 ≠ row := by
  have hlayer : y ≤ t.1 * y := Nat.le_mul_of_pos_left _ (mem_laterTurns ht).1
  omega

section

omit [Field F] [LinearOrder F]

/-- The first layer is a copy of the input. -/
theorem repeatZ_first (m : NnMemory F) (hx : c.inputSize.x = c.outputSize.x)
    (hdiff : c.input ≠ c.output) {y i : ℕ} (hy : y < batchSize) (hi : i < c.outputSize.x) :
    rowOf (storeRows m c.output c.outputSize.x (fun t => t.1 * c.outputSize.y + t.2)
        (repeatZValue c) ((List.range batchSize).map fun y => (0, y))) c.output c.outputSize.x y i =
      rowOf m c.input c.outputSize.x y i := by
  have hzero : ∀ t ∈ (List.range batchSize).map (fun y => ((0, y) : ℕ × ℕ)), t.1 = 0 := by
    intro t ht
    obtain ⟨y', _, heq⟩ := List.mem_map.mp ht
    rw [← heq]
  have hmem : ((0, y) : ℕ × ℕ) ∈ (List.range batchSize).map (fun y => ((0, y) : ℕ × ℕ)) :=
    List.mem_map_of_mem (List.mem_range.mpr hy)
  have hnodup : ((List.range batchSize).map (fun y => ((0, y) : ℕ × ℕ))).Nodup :=
    List.nodup_range.map fun y y' h => (Prod.mk.inj h).2
  have hinj : Set.InjOn (fun t : ℕ × ℕ => t.1 * c.outputSize.y + t.2)
      {t | t ∈ (List.range batchSize).map (fun y => ((0, y) : ℕ × ℕ))} := by
    intro t ht s hs hsame
    have htzero := hzero t ht
    have hszero := hzero s hs
    dsimp only at hsame
    rw [htzero, hszero, Nat.zero_mul, Nat.zero_add, Nat.zero_add] at hsame
    exact Prod.ext (htzero.trans hszero.symm) hsame
  have hown : OwnRow c.output c.outputSize.x (fun t : ℕ × ℕ => t.1 * c.outputSize.y + t.2)
      (repeatZValue (F := F) c) ((List.range batchSize).map fun y => (0, y)) := by
    intro m m' t ht hothers _ j _
    unfold repeatZValue rowOf
    rw [if_pos (hzero t ht), if_pos (hzero t ht), hothers c.input hdiff]
  have hvalue : repeatZValue c m (0, y) i = rowOf m c.input c.outputSize.x y i := by
    unfold repeatZValue
    rw [if_pos (Eq.refl _), hx]
  have hstored := storeRows_row m hown hnodup hinj hmem hi
  dsimp only at hstored
  rw [Nat.zero_mul, Nat.zero_add] at hstored
  exact hstored.trans hvalue

/-- Every layer is a copy of the input. -/
theorem repeatZForward_row (m : NnMemory F) (hx : c.inputSize.x = c.outputSize.x)
    (hdiff : c.input ≠ c.output) (hbatch : batchSize ≤ c.outputSize.y) {z y i : ℕ}
    (hz : z < c.outputSize.z) (hy : y < batchSize) (hi : i < c.outputSize.x) :
    rowOf (repeatZForward c batchSize m) c.output c.outputSize.x (z * c.outputSize.y + y) i =
      rowOf m c.input c.outputSize.x y i := by
  obtain ⟨layers, hlayers⟩ := Nat.exists_eq_succ_of_ne_zero (Nat.ne_of_gt (Nat.zero_lt_of_lt hz))
  rw [Nat.succ_eq_add_one] at hlayers
  have hinj : Set.InjOn (fun t : ℕ × ℕ => t.1 * c.outputSize.y + t.2)
      {t | t ∈ layerTurns batchSize (layers + 1)} := injOn_rows hbatch
  have hnodup : (layerTurns batchSize (layers + 1)).Nodup := nodup_turns _ _
  unfold repeatZForward
  rw [hlayers] at hz ⊢
  rw [layerTurns_succ] at hnodup hinj ⊢
  obtain ⟨_, hlater, _⟩ := List.nodup_append.mp hnodup
  rw [storeRows_append]
  cases z with
  | zero =>
    rw [Nat.zero_mul, Nat.zero_add,
      storeRows_of_notMem _ (fun t ht => laterTurns_ne hbatch hy ht) hi]
    exact repeatZ_first m hx hdiff hy hi
  | succ z =>
    have hmem : ((z + 1, y) : ℕ × ℕ) ∈ laterTurns batchSize layers :=
      List.mem_product.mpr ⟨List.mem_map_of_mem (List.mem_range.mpr (Nat.lt_of_succ_lt_succ hz)),
        List.mem_range.mpr hy⟩
    have hown : OwnRow c.output c.outputSize.x (fun t : ℕ × ℕ => t.1 * c.outputSize.y + t.2)
        (repeatZValue (F := F) c) (laterTurns batchSize layers) := by
      intro m m' t ht _ hfree j hj
      obtain ⟨hlayer, hrow⟩ := mem_laterTurns ht
      unfold repeatZValue
      rw [if_neg (Nat.ne_of_gt hlayer), if_neg (Nat.ne_of_gt hlayer)]
      exact hfree t.2 (fun s hs hsame => absurd hsame (laterTurns_ne hbatch hrow hs)) j hj
    rw [storeRows_row _ hown hlater (hinj.mono fun t ht => List.mem_append_right _ ht) hmem hi]
    unfold repeatZValue
    rw [if_neg (Nat.succ_ne_zero z)]
    exact repeatZ_first m hx hdiff hy hi

/-- Layers other than the output stay. -/
theorem repeatZForward_of_ne (m : NnMemory F) {buffer : NnBuffer} (h : buffer ≠ c.output) :
    repeatZForward c batchSize m buffer = m buffer := storeRows_of_ne m h

end

/-- A row of the factor times the weights of an expert. -/
def expertRow (c : NnCpuOpContext) (weight : ℕ → F) (expert : ℕ) (x : ℕ → F) : ℕ → F :=
  matmul_F32 (fun l => weight (expert * planeValues c.op.weightSize + l)) x c.op.weightSize.y

/-- Whether the fast path takes the product. -/
def TakesFast (c : NnCpuOpContext) (batchSize : ℕ)
    (llamafile_sgemm : ℕ → ℕ → ℕ → NnSize3D → NnSize3D → Bool) : Prop :=
  c.inputSize.z = 1 ∧ llamafile_sgemm c.op.weightSize.x batchSize
    (c.op.weightSize.y / (c.inputSize.floatType.map getBlockSize).getD 1) c.op.weightSize
    c.inputSize = true

instance (llamafile_sgemm : ℕ → ℕ → ℕ → NnSize3D → NnSize3D → Bool) :
    Decidable (TakesFast c batchSize llamafile_sgemm) := inferInstanceAs (Decidable (_ ∧ _))

section Products

variable (llamafile_sgemm : ℕ → ℕ → ℕ → NnSize3D → NnSize3D → Bool) (weight : ℕ → F)

theorem hasPointerContinuousMemory_true (type : NnPointerType) :
    hasPointerContinuousMemory type = true := by
  cases type with
  | raw => exact Eq.refl _
  | batch => exact Eq.refl _
  | batchedSlice => exact Eq.refl _

omit [LinearOrder F] in
theorem matmulForward_llamafile_eq (m : NnMemory F) :
    matmulForward_llamafile c batchSize m llamafile_sgemm weight =
      if TakesFast c batchSize llamafile_sgemm then
        some (storeRows m c.output c.op.weightSize.x id
          (fun m y => matmul_F32 weight (rowOf m c.input c.op.weightSize.y y) c.op.weightSize.y)
          (List.range batchSize))
      else none := by
  unfold matmulForward_llamafile
  rw [hasPointerContinuousMemory_true, hasPointerContinuousMemory_true]
  by_cases hz : c.inputSize.z = 1
  · rw [if_neg (by simp [hz])]
    by_cases htakes : TakesFast c batchSize llamafile_sgemm
    · rw [if_pos htakes, if_pos htakes.2]
    · rw [if_neg htakes, if_neg fun h => htakes ⟨hz, h⟩]
  · have htakes : ¬TakesFast c batchSize llamafile_sgemm := fun h => hz h.1
    rw [if_pos (by simp [hz]), if_neg htakes]

variable [FloorSemiring F] (nActiveExperts : ℕ) (indexes : NnBuffer)

/-- The block of the weight for a row of a layer. -/
def usedExpert (c : NnCpuOpContext) (batchSize : ℕ) (m : NnMemory F) (z y : ℕ) : ℕ :=
  if TakesFast c batchSize llamafile_sgemm then 0
  else if nActiveExperts = 0 then 0 else ⌊m indexes (y * nActiveExperts + z)⌋₊

theorem matmulForward_of_ne (m : NnMemory F) {buffer : NnBuffer} (h : buffer ≠ c.output) :
    matmulForward c batchSize m llamafile_sgemm weight nActiveExperts indexes buffer =
      m buffer := by
  unfold matmulForward
  rw [matmulForward_llamafile_eq]
  by_cases hfast : TakesFast c batchSize llamafile_sgemm
  · rw [if_pos hfast]
    exact storeRows_of_ne m h
  · rw [if_neg hfast]
    exact storeRows_of_ne m h

/-- Every row of every layer is the product with the block that is used. -/
theorem matmulForward_row (m : NnMemory F) (hchecked : c.Checked) (hcode : c.op.code = .matmul)
    {nExperts : ℕ} (hconfig : c.op.config = .matmul nExperts nActiveExperts indexes)
    (hdiff : c.input ≠ c.output) (hindexes : indexes ≠ c.output) (hbatch : batchSize ≤ c.nBatches)
    {z y i : ℕ} (hz : z < c.outputSize.z) (hy : y < batchSize) (hi : i < c.outputSize.x) :
    rowOf (matmulForward c batchSize m llamafile_sgemm weight nActiveExperts indexes) c.output
        c.outputSize.x (z * c.nBatches + y) i =
      expertRow c weight (usedExpert llamafile_sgemm nActiveExperts indexes c batchSize m z y)
        (rowOf m c.input c.inputSize.x (z * c.nBatches + y)) i := by
  unfold NnCpuOpContext.Checked at hchecked
  rw [hcode, hconfig] at hchecked
  obtain ⟨hinput, houtput, hn, hzin, hd, hzout, _⟩ := hchecked
  unfold matmulForward expertRow usedExpert
  rw [matmulForward_llamafile_eq]
  by_cases hfast : TakesFast c batchSize llamafile_sgemm
  · rw [if_pos hfast, if_pos hfast, Nat.zero_mul, hd]
    have hlayer : z = 0 := by
      have hone := hfast.1
      omega
    have hown : OwnRow c.output c.op.weightSize.x id
        (fun m y => matmul_F32 weight (rowOf m c.input c.op.weightSize.y y) c.op.weightSize.y)
        (List.range batchSize) := by
      intro m m' t _ hothers _ j _
      unfold rowOf
      dsimp only
      rw [hothers c.input hdiff]
    have hstored := storeRows_row m hown List.nodup_range Function.injective_id.injOn
      (List.mem_range.mpr hy) (hd ▸ hi)
    rw [hlayer, Nat.zero_mul, Nat.zero_add, hn]
    simpa using hstored
  · rw [if_neg hfast, if_neg hfast]
    have hrows : Set.InjOn (fun t : ℕ × ℕ => t.2 * c.outputSize.y + t.1)
        {t | t ∈ rowTurns batchSize (max nActiveExperts 1)} :=
      injOn_rows_swap (houtput ▸ hbatch)
    have hown : OwnRow c.output c.outputSize.x (fun t : ℕ × ℕ => t.2 * c.outputSize.y + t.1)
        (fun (m : NnMemory F) t =>
          matmul_F32 (fun l => weight ((if nActiveExperts = 0 then 0
              else ⌊m indexes (t.1 * nActiveExperts + t.2)⌋₊) * planeValues c.op.weightSize + l))
            (rowOf m c.input c.inputSize.x (t.2 * c.inputSize.y + t.1)) c.op.weightSize.y)
        (rowTurns batchSize (max nActiveExperts 1)) := by
      intro m m' t _ hothers _ j _
      unfold rowOf
      dsimp only
      rw [hothers c.input hdiff, hothers indexes hindexes]
    have hmem : ((y, z) : ℕ × ℕ) ∈ rowTurns batchSize (max nActiveExperts 1) :=
      mem_rowTurns.mpr ⟨hy, hzout ▸ hz⟩
    have hstored := storeRows_row m hown (nodup_turns _ _) hrows hmem hi
    dsimp only at hstored ⊢
    rw [houtput, hinput] at hstored ⊢
    exact hstored

end Products

/-- Every row becomes its softmax. -/
theorem softmaxForward_row [IsStrictOrderedRing F] (e : Exponential F) (m : NnMemory F) {y i : ℕ}
    (hy : y < batchSize) (hi : i < c.outputSize.x) :
    rowOf (softmaxForward e c batchSize m) c.output c.outputSize.x y i =
      softmax_F32 e c.outputSize.x (rowOf m c.output c.outputSize.x y) i := by
  have hinj : Set.InjOn id {t | t ∈ List.range batchSize} := Function.injective_id.injOn
  have hown : OwnRow c.output c.outputSize.x id
      (fun m y => softmax_F32 e c.outputSize.x (rowOf m c.output c.outputSize.x y))
      (List.range batchSize) := by
    apply ownRow_of_own hinj
    intro m m' t _ hrow j hj
    exact softmax_F32_congr e hrow hj
  exact storeRows_row m hown List.nodup_range hinj (List.mem_range.mpr hy) hi

theorem softmaxForward_of_ne (e : Exponential F) (m : NnMemory F) {buffer : NnBuffer}
    (h : buffer ≠ c.output) : softmaxForward e c batchSize m buffer = m buffer :=
  storeRows_of_ne m h

omit [Field F] [LinearOrder F] in
/-- Rows of one value. -/
theorem rowOf_one (m : NnMemory F) (buffer : NnBuffer) (l : ℕ) :
    rowOf m buffer 1 l 0 = m buffer l := by
  rw [rowOf, Nat.mul_one, Nat.add_zero]

section Gates

variable (s : StdSort F) (m : NnMemory F) (normTopk : ℕ) {k : ℕ} {indexes : NnBuffer}

theorem moeGateForward_eq (hindexes : indexes ≠ c.output) (hinput : c.input ≠ indexes)
    (hdiff : c.input ≠ c.output) : moeGateForward s c batchSize m k normTopk indexes =
      storeRows (storeRows m indexes 1 (fun t => t.1 * k + t.2)
          (fun m t _ => ((topk_F32 s (rowOf m c.input c.inputSize.x t.1) c.inputSize.x k).getD t.2 0
            : F)) (rowTurns batchSize k))
        c.output 1 (fun t => t.2 * c.outputSize.y + t.1)
        (fun m t _ => rowOf m c.input c.inputSize.x t.1
            ((topk_F32 s (rowOf m c.input c.inputSize.x t.1) c.inputSize.x k).getD t.2 0) /
          topkSum normTopk (rowOf m c.input c.inputSize.x t.1)
            (topk_F32 s (rowOf m c.input c.inputSize.x t.1) c.inputSize.x k))
        (rowTurns batchSize k) := by
  have hsame (m m' : NnMemory F) (y : ℕ)
      (h : ∀ b, b ≠ indexes → b ≠ c.output → m' b = m b) :
      rowOf m' c.input c.inputSize.x y = rowOf m c.input c.inputSize.x y := by
    unfold rowOf
    rw [h c.input hinput hdiff]
  apply storePairs_eq m hindexes
  · intro m m' t h
    dsimp only
    rw [hsame m m' t.1 h]
  · intro m m' t h
    dsimp only
    rw [hsame m m' t.1 h]

/-- The indexes of the selected experts, and their weights, go to the places of the row. -/
theorem moeGateForward_row (hindexes : indexes ≠ c.output) (hinput : c.input ≠ indexes)
    (hdiff : c.input ≠ c.output) (hbatch : batchSize ≤ c.outputSize.y) {y z : ℕ}
    (hy : y < batchSize) (hz : z < k) :
    rowOf (moeGateForward s c batchSize m k normTopk indexes) indexes 1 (y * k + z) 0 =
        ((topk_F32 s (rowOf m c.input c.inputSize.x y) c.inputSize.x k).getD z 0 : F) ∧
      rowOf (moeGateForward s c batchSize m k normTopk indexes) c.output 1
          (z * c.outputSize.y + y) 0 =
        rowOf m c.input c.inputSize.x y
            ((topk_F32 s (rowOf m c.input c.inputSize.x y) c.inputSize.x k).getD z 0) /
          topkSum normTopk (rowOf m c.input c.inputSize.x y)
            (topk_F32 s (rowOf m c.input c.inputSize.x y) c.inputSize.x k) := by
  have hmem : ((y, z) : ℕ × ℕ) ∈ rowTurns batchSize k := mem_rowTurns.mpr ⟨hy, hz⟩
  rw [moeGateForward_eq s m normTopk hindexes hinput hdiff]
  constructor
  · have hinj : Set.InjOn (fun t : ℕ × ℕ => t.1 * k + t.2) {t | t ∈ rowTurns batchSize k} :=
      injOn_rows (Nat.le_refl k)
    rw [rowOf_congr (storeRows_of_ne _ hindexes)]
    have hown : OwnRow indexes 1 (fun t : ℕ × ℕ => t.1 * k + t.2)
        (fun (m : NnMemory F) t _ =>
          ((topk_F32 s (rowOf m c.input c.inputSize.x t.1) c.inputSize.x k).getD t.2 0 : F))
        (rowTurns batchSize k) := by
      apply ownRow_of_others
      intro m m' t hothers j _
      unfold rowOf
      rw [hothers c.input hinput]
    exact storeRows_row m hown (nodup_turns _ _) hinj hmem Nat.one_pos
  · have hinj : Set.InjOn (fun t : ℕ × ℕ => t.2 * c.outputSize.y + t.1)
        {t | t ∈ rowTurns batchSize k} := injOn_rows_swap hbatch
    have hown : OwnRow c.output 1 (fun t : ℕ × ℕ => t.2 * c.outputSize.y + t.1)
        (fun (m : NnMemory F) t _ => rowOf m c.input c.inputSize.x t.1
            ((topk_F32 s (rowOf m c.input c.inputSize.x t.1) c.inputSize.x k).getD t.2 0) /
          topkSum normTopk (rowOf m c.input c.inputSize.x t.1)
            (topk_F32 s (rowOf m c.input c.inputSize.x t.1) c.inputSize.x k))
        (rowTurns batchSize k) := by
      apply ownRow_of_others
      intro m m' t hothers j _
      unfold rowOf
      rw [hothers c.input hdiff]
    rw [storeRows_row _ hown (nodup_turns _ _) hinj hmem Nat.one_pos]
    dsimp only
    unfold rowOf
    rw [storeRows_of_ne m hinput]

theorem moeGateForward_of_ne (hindexes : indexes ≠ c.output) (hinput : c.input ≠ indexes)
    (hdiff : c.input ≠ c.output) {buffer : NnBuffer} (h : buffer ≠ c.output)
    (h' : buffer ≠ indexes) :
    moeGateForward s c batchSize m k normTopk indexes buffer = m buffer := by
  rw [moeGateForward_eq s m normTopk hindexes hinput hdiff, storeRows_of_ne _ h, storeRows_of_ne m h']

end Gates

section Elementwise

variable (m : NnMemory F) {buffer : NnBuffer} {z y i : ℕ}

omit [Field F] [LinearOrder F] in
/-- A loop over the rows of the layers whose turns read other buffers and their own rows. -/
theorem storeLayers_row {output : NnBuffer} {n rows layers : ℕ}
    {value : NnMemory F → ℕ × ℕ → ℕ → F} (hbatch : batchSize ≤ rows)
    (hvalue : ∀ (m m' : NnMemory F) (t : ℕ × ℕ), (∀ b ≠ output, m' b = m b) →
      (∀ j < n, rowOf m' output n (t.1 * rows + t.2) j = rowOf m output n (t.1 * rows + t.2) j) →
        ∀ j < n, value m' t j = value m t j)
    (hz : z < layers) (hy : y < batchSize) (hi : i < n) :
    rowOf (storeRows m output n (fun t => t.1 * rows + t.2) value (layerTurns batchSize layers))
      output n (z * rows + y) i = value m (z, y) i := by
  have hinj : Set.InjOn (fun t : ℕ × ℕ => t.1 * rows + t.2) {t | t ∈ layerTurns batchSize layers} :=
    injOn_rows hbatch
  have hmem : ((z, y) : ℕ × ℕ) ∈ layerTurns batchSize layers := mem_layerTurns.mpr ⟨hz, hy⟩
  exact storeRows_row m (ownRow_of_own hinj hvalue) (nodup_turns _ _) hinj hmem hi

theorem siluForward_row (e : Exponential F) (hbatch : batchSize ≤ c.outputSize.y)
    (hz : z < c.inputSize.z) (hy : y < batchSize) (hi : i < c.outputSize.x) :
    rowOf (siluForward e c batchSize m) c.output c.outputSize.x (z * c.outputSize.y + y) i =
      silu_F32 e (rowOf m c.output c.outputSize.x (z * c.outputSize.y + y) i) := by
  refine storeLayers_row m hbatch ?_ hz hy hi
  intro m m' t _ hrow j hj
  exact congrArg (silu_F32 e) (hrow j hj)

theorem siluForward_of_ne (e : Exponential F) (h : buffer ≠ c.output) :
    siluForward e c batchSize m buffer = m buffer := storeRows_of_ne m h

section

omit [LinearOrder F]

theorem mulForward_row {multiplier : NnBuffer} (hx : c.inputSize.x = c.outputSize.x)
    (hdiff : multiplier ≠ c.output) (hbatch : batchSize ≤ c.inputSize.y)
    (hz : z < c.inputSize.z) (hy : y < batchSize) (hi : i < c.outputSize.x) :
    rowOf (mulForward c batchSize m multiplier) c.output c.outputSize.x
        (z * c.inputSize.y + y) i =
      rowOf m c.input c.inputSize.x (z * c.inputSize.y + y) i *
        rowOf m multiplier c.outputSize.x (z * c.inputSize.y + y) i := by
  have hflat : rowOf m multiplier c.outputSize.x (z * c.inputSize.y + y) i =
      m multiplier (c.outputSize.x * (z * c.inputSize.y + y) + i) := by
    rw [rowOf, Nat.mul_comm]
  rw [hflat]
  refine storeLayers_row m hbatch ?_ hz hy hi
  intro m m' t hothers hrow j hj
  rw [rowOf_input hx hothers hrow hj, hothers multiplier hdiff]

theorem mulForward_of_ne {multiplier : NnBuffer} (h : buffer ≠ c.output) :
    mulForward c batchSize m multiplier buffer = m buffer := storeRows_of_ne m h

theorem scaleForward_row {scale : NnBuffer} (hx : c.inputSize.x = c.outputSize.x)
    (hdiff : scale ≠ c.output) (hbatch : batchSize ≤ c.inputSize.y)
    (hz : z < c.inputSize.z) (hy : y < batchSize) (hi : i < c.inputSize.x) :
    rowOf (scaleForward c batchSize m scale) c.output c.inputSize.x (z * c.inputSize.y + y) i =
      rowOf m c.input c.inputSize.x (z * c.inputSize.y + y) i *
        m scale (z * c.inputSize.y + y) := by
  refine storeLayers_row m hbatch ?_ hz hy hi
  intro m m' t hothers hrow j hj
  rw [rowOf_input hx hothers (hx ▸ hrow) (hx ▸ hj), hothers scale hdiff]

theorem scaleForward_of_ne {scale : NnBuffer} (h : buffer ≠ c.output) :
    scaleForward c batchSize m scale buffer = m buffer := storeRows_of_ne m h

end

omit [Field F] [LinearOrder F] in
theorem castForward_row (hx : c.inputSize.x = c.outputSize.x)
    (hbatch : batchSize ≤ c.inputSize.y) (hz : z < c.inputSize.z) (hy : y < batchSize)
    (hi : i < c.outputSize.x) :
    rowOf (castForward c batchSize m) c.output c.outputSize.x (z * c.inputSize.y + y) i =
      rowOf m c.input c.inputSize.x (z * c.inputSize.y + y) i := by
  refine storeLayers_row m hbatch ?_ hz hy hi
  intro m m' t hothers hrow j hj
  exact rowOf_input hx hothers hrow hj

omit [Field F] [LinearOrder F] in
theorem castForward_of_ne (h : buffer ≠ c.output) :
    castForward c batchSize m buffer = m buffer := storeRows_of_ne m h

omit [LinearOrder F] in
theorem mergeSumForward_row (hdiff : c.input ≠ c.output) (hy : y < batchSize)
    (hi : i < c.outputSize.x) :
    rowOf (mergeSumForward c batchSize m) c.output c.outputSize.x y i =
      ∑ z ∈ Finset.range c.inputSize.z, rowOf m c.input c.inputSize.x (y + z * c.nBatches) i := by
  have hown : OwnRow c.output c.outputSize.x id
      (fun (m : NnMemory F) y i => ∑ z ∈ Finset.range c.inputSize.z,
        rowOf m c.input c.inputSize.x (y + z * c.nBatches) i) (List.range batchSize) := by
    apply ownRow_of_others
    intro m m' t hothers j _
    unfold rowOf
    rw [hothers c.input hdiff]
  exact storeRows_row m hown List.nodup_range Function.injective_id.injOn
    (List.mem_range.mpr hy) hi

end Elementwise

end Specs

end LayerSkip.MoeKernels
