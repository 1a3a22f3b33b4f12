import LayerSkip.QuantBlocks
import LayerSkip.VulkanDevice
import Mathlib.Algebra.BigOperators.Fin
import Mathlib.Tactic.Ring

/-!
# The quantised product on two devices

The processor multiplies a row of blocks with each row of a weight, block by block. On the graphics
device a work group takes eight rows of a weight. Each of its invocations adds up two blocks of each
row, and the sums of the invocations are added in halves as long as their number is even. Arithmetic
is exact, indexes of the shader are 32-bit words, and an access outside of a buffer is undefined.
-/

namespace LayerSkip.VulkanMatmul

open NnTopology NnPipeline NnCore NnCpu EqualPieces DataMoving QuantBlocks VulkanDevice

section Stores

variable {V : Type*}

/-- Stores one after the other. -/
def storeAll (y : ℕ → V) (stores : List (ℕ × V)) : ℕ → V :=
  stores.foldl (fun y store => Function.update y store.1 store.2) y

/-- Stores to one place store one value. -/
def Functional (stores : List (ℕ × V)) : Prop :=
  ∀ l v v', (l, v) ∈ stores → (l, v') ∈ stores → v = v'

theorem storeAll_of_notMem {stores : List (ℕ × V)} {l : ℕ} (y : ℕ → V)
    (h : ∀ v, (l, v) ∉ stores) : storeAll y stores l = y l := by
  induction stores generalizing y with
  | nil => exact Eq.refl _
  | cons store stores ih =>
    have hne : l ≠ store.1 := by
      intro heq
      exact h store.2 (heq ▸ List.mem_cons_self)
    have hrest := ih (Function.update y store.1 store.2) fun v hv =>
      h v (List.mem_cons_of_mem store hv)
    exact hrest.trans (Function.update_of_ne hne _ y)

/-- A place that is stored to has the value of its stores. -/
theorem storeAll_of_mem {stores : List (ℕ × V)} {l : ℕ} {v : V} (y : ℕ → V)
    (hone : ∀ v', (l, v') ∈ stores → v' = v) (h : (l, v) ∈ stores) :
    storeAll y stores l = v := by
  induction stores generalizing y with
  | nil => cases h
  | cons store stores ih =>
    have hrest := fun v' hv' => hone v' (List.mem_cons_of_mem store hv')
    by_cases hlater : (l, v) ∈ stores
    · exact ih (Function.update y store.1 store.2) hrest hlater
    · have hnone : ∀ v', (l, v') ∉ stores := by
        intro v' hv'
        have hv : v' = v := hrest v' hv'
        exact hlater (hv ▸ hv')
      cases List.mem_cons.mp h with
      | inl heq =>
        have hkept := storeAll_of_notMem (Function.update y store.1 store.2) hnone
        rw [← heq] at hkept
        rw [← heq]
        exact hkept.trans (Function.update_self l v y)
      | inr hmem => exact absurd hmem hlater

/-- The same stores leave the same memory, in any order. -/
theorem storeAll_eq {stores others : List (ℕ × V)} (y : ℕ → V)
    (h : ∀ store, store ∈ stores ↔ store ∈ others) (hone : Functional others) :
    storeAll y stores = storeAll y others := by
  funext l
  by_cases hsome : ∃ v, (l, v) ∈ others
  · obtain ⟨v, hv⟩ := hsome
    have hothers := storeAll_of_mem y (fun v' hv' => hone l v' v hv' hv) hv
    have hstores := storeAll_of_mem y (fun v' hv' => hone l v' v ((h _).mp hv') hv) ((h _).mpr hv)
    rw [hothers, hstores]
  · have hnone : ∀ v, (l, v) ∉ others := fun v hv => hsome ⟨v, hv⟩
    rw [storeAll_of_notMem y hnone, storeAll_of_notMem y fun v hv => hnone v ((h _).mp hv)]

end Stores

section Blocks

variable {R : Type*} [CommRing R]

/-- The number in the low half of a byte. -/
def lowNumber (w : UInt8) : ℤ := ((w &&& 15).toNat : ℤ) - 8

/-- The number in the high half of a byte. -/
def highNumber (w : UInt8) : ℤ := ((w >>> 4).toNat : ℤ) - 8

/-- Place of the first byte of a pair. -/
def firstOfPair (j : Fin 8) : Fin 16 := ⟨j.val * 2, by omega⟩

/-- Place of the second byte of a pair. -/
def secondOfPair (j : Fin 8) : Fin 16 := ⟨j.val * 2 + 1, by omega⟩

/-- Four numbers of an input block, in the order of the numbers of two weight bytes. -/
def xTemp (b : NnBlockQ80 R) (j : Fin 8) : Fin 4 → ℤ :=
  ![(b.qs (firstHalf (firstOfPair j))).toInt, (b.qs (secondHalf (firstOfPair j))).toInt,
    (b.qs (firstHalf (secondOfPair j))).toInt, (b.qs (secondHalf (secondOfPair j))).toInt]

/-- Four numbers of a weight block. -/
def wTemp (b : NnBlockQ40 R) (j : Fin 8) : Fin 4 → ℤ :=
  ![lowNumber (b.qs (firstOfPair j)), highNumber (b.qs (firstOfPair j)),
    lowNumber (b.qs (secondOfPair j)), highNumber (b.qs (secondOfPair j))]

/-- A product of vectors. -/
def dot (a b : Fin 4 → ℤ) : R := ∑ k, (a k : R) * (b k : R)

/-- The product of two blocks in the shader. -/
def shaderProduct (xb : NnBlockQ80 R) (wb : NnBlockQ40 R) : R :=
  (∑ j : Fin 8, dot (xTemp xb j) (wTemp wb j)) * xb.d * wb.d

/-- The product of two blocks in the kernel of the processor. -/
def blockProduct (wb : NnBlockQ40 R) (xb : NnBlockQ80 R) : R :=
  ∑ k : Fin 16, ((lowNumber (wb.qs k) * (xb.qs (firstHalf k)).toInt +
    highNumber (wb.qs k) * (xb.qs (secondHalf k)).toInt : ℤ) : R) * (wb.d * xb.d)

/-- A sum over bytes is a sum over pairs of bytes. -/
theorem sum_pairs (f : Fin 16 → R) :
    ∑ k, f k = ∑ j : Fin 8, (f (firstOfPair j) + f (secondOfPair j)) := by
  simp only [Fin.sum_univ_succ, Fin.sum_univ_zero]
  simp only [firstOfPair, secondOfPair]
  ring_nf
  rfl

/-- Both devices multiply blocks alike. -/
theorem shaderProduct_eq (xb : NnBlockQ80 R) (wb : NnBlockQ40 R) :
    shaderProduct xb wb = blockProduct wb xb := by
  rw [shaderProduct, blockProduct, ← Finset.sum_mul, sum_pairs]
  have hdot : ∀ j : Fin 8, (dot (xTemp xb j) (wTemp wb j) : R) =
      ((lowNumber (wb.qs (firstOfPair j)) * (xb.qs (firstHalf (firstOfPair j))).toInt +
        highNumber (wb.qs (firstOfPair j)) * (xb.qs (secondHalf (firstOfPair j))).toInt : ℤ) : R) +
      ((lowNumber (wb.qs (secondOfPair j)) * (xb.qs (firstHalf (secondOfPair j))).toInt +
        highNumber (wb.qs (secondOfPair j)) * (xb.qs (secondHalf (secondOfPair j))).toInt : ℤ) :
          R) := by
    intro j
    rw [dot, Fin.sum_univ_four]
    simp only [xTemp, wTemp, Matrix.cons_val]
    push_cast
    ring
  rw [Finset.sum_congr (Eq.refl _) fun j _ => hdot j]
  ring

end Blocks

section Shader

/-- A work group. -/
structure WorkGroup where
  /-- Rows of the weight, by eight. -/
  x : ℕ
  /-- Row of the batch. -/
  y : ℕ
  /-- Plane. -/
  z : ℕ
  deriving DecidableEq, Repr

/-- What the host hands to the shader. -/
structure Dispatch where
  /-- Rows of the batch. -/
  infos : List NnVulkanBatchInfo
  /-- Constant `N_BATCHES`. -/
  nBatches : ℕ
  /-- Constant `N_THREADS`. -/
  nThreads : ℕ
  /-- Experts. -/
  nExperts : ℕ
  /-- Experts used for a row. -/
  nActiveExperts : ℕ
  /-- Work groups for the rows of the weight. -/
  groupsX : ℕ
  /-- Work groups for the planes. -/
  groupsZ : ℕ
  /-- Blocks of the input. -/
  inputBlocks : ℕ
  /-- Blocks of the weight. -/
  weightBlocks : ℕ
  /-- Values of the output. -/
  outputValues : ℕ
  deriving DecidableEq, Repr

variable {R : Type*} [CommRing R]

/-- The sums after a round: the invocations below `i` add what is `i` further on. -/
def reduceRound (i : ℕ) (sums : ℕ → ℕ → R) : ℕ → ℕ → R := fun thread dt =>
  if thread < i then sums thread dt + sums (thread + i) dt else sums thread dt

/-- Rounds as long as the number of sums is even. Sums are `sums[thread * TILE_SIZE_D + dt]`. -/
def reduce (sums : ℕ → ℕ → R) (i : ℕ) : (ℕ → ℕ → R) × ℕ :=
  if 0 < i ∧ i % 2 = 0 then reduce (reduceRound (i / 2) sums) (i / 2) else (sums, i)
termination_by i
decreasing_by omega

/-- No round changes the total of the sums. -/
theorem reduce_total (sums : ℕ → ℕ → R) (i dt : ℕ) :
    ∑ thread ∈ Finset.range (reduce sums i).2, (reduce sums i).1 thread dt =
      ∑ thread ∈ Finset.range i, sums thread dt := by
  induction i using Nat.strongRecOn generalizing sums with
  | ind i ih =>
    rw [reduce]
    by_cases heven : 0 < i ∧ i % 2 = 0
    · rw [if_pos heven, ih (i / 2) (by omega)]
      have hhalves : i = i / 2 + i / 2 := by omega
      have hright : ∑ thread ∈ Finset.range i, sums thread dt =
          ∑ thread ∈ Finset.range (i / 2), sums thread dt +
            ∑ thread ∈ Finset.range (i / 2), sums (i / 2 + thread) dt := by
        rw [← Finset.sum_range_add, ← hhalves]
      rw [hright, ← Finset.sum_add_distrib]
      apply Finset.sum_congr (Eq.refl _)
      intro thread hthread
      rw [reduceRound, if_pos (Finset.mem_range.mp hthread), Nat.add_comm thread]
    · rw [if_neg heven]

namespace Dispatch

variable (d : Dispatch) (activeExpertIndexes : ℕ → ℕ) (x : ℕ → NnBlockQ80 R)
  (weight : ℕ → NnBlockQ40 R)

/-- The row of a work group. -/
def info (group : WorkGroup) : NnVulkanBatchInfo :=
  d.infos.getD (group.z * d.nBatches + group.y) default

/-- The expert of a work group. -/
def expertIndex (group : WorkGroup) : ℕ :=
  if d.nExperts = 0 then 0 else activeExpertIndexes (group.y * d.nActiveExperts + group.z)

/-- First block of the expert. -/
def expertOffset (group : WorkGroup) : ℕ :=
  d.expertIndex activeExpertIndexes group * (d.info group).inputSizeX * (d.info group).outputSizeX

/-- An input block of an invocation. -/
def xi (group : WorkGroup) (thread it : ℕ) : ℕ :=
  ((d.info group).inputOffset + thread + it * d.nThreads) % uintRange

/-- A weight block of an invocation. -/
def wi (group : WorkGroup) (dt thread it : ℕ) : ℕ :=
  (d.expertOffset activeExpertIndexes group +
    (tileSizeD * group.x + dt) * (d.info group).inputSizeX + thread + it * d.nThreads) % uintRange

/-- A value of a work group in the output. -/
def yi (group : WorkGroup) (dt : ℕ) : ℕ :=
  ((d.info group).outputOffset + tileSizeD * group.x + dt) % uintRange

/-- The sum of an invocation for a row of the weight. -/
def threadSum (group : WorkGroup) (thread dt : ℕ) : R :=
  ∑ it ∈ Finset.range tileSizeX,
    shaderProduct (x (d.xi group thread it)) (weight (d.wi activeExpertIndexes group dt thread it))

/-- The value of a work group for a row of the weight: what is left of the rounds is added up. -/
def groupValue (group : WorkGroup) (dt : ℕ) : R :=
  let reduced := reduce (d.threadSum activeExpertIndexes x weight group) d.nThreads
  ∑ j ∈ Finset.range reduced.2, reduced.1 j dt

/-- All accesses of a work group are inside of the buffers. -/
def InBounds (group : WorkGroup) : Prop :=
  (∀ thread < d.nThreads, ∀ it < tileSizeX, d.xi group thread it < d.inputBlocks ∧
    ∀ dt < tileSizeD, d.wi activeExpertIndexes group dt thread it < d.weightBlocks) ∧
  ∀ dt < tileSizeD, d.yi group dt < d.outputValues

instance (group : WorkGroup) : Decidable (d.InBounds activeExpertIndexes group) :=
  inferInstanceAs (Decidable (_ ∧ _))

/-- The stores of work groups. -/
def stores (groups : List WorkGroup) : List (ℕ × R) :=
  groups.flatMap fun group => (List.range tileSizeD).map fun dt =>
    (d.yi group dt, d.groupValue activeExpertIndexes x weight group dt)

/-- The work groups of a batch. -/
def workGroups (batchSize : ℕ) : List WorkGroup :=
  (List.range d.groupsX).flatMap fun x => (List.range batchSize).flatMap fun y =>
    (List.range d.groupsZ).map fun z => ⟨x, y, z⟩

/-- The output after work groups in an order. -/
def run (groups : List WorkGroup) (y : ℕ → R) : Option (ℕ → R) :=
  if ∀ group ∈ groups, d.InBounds activeExpertIndexes group then
    some (storeAll y (d.stores activeExpertIndexes x weight groups))
  else none

theorem mem_workGroups {batchSize : ℕ} {group : WorkGroup} :
    group ∈ d.workGroups batchSize ↔
      group.x < d.groupsX ∧ group.y < batchSize ∧ group.z < d.groupsZ := by
  simp only [workGroups, List.mem_flatMap, List.mem_map, List.mem_range]
  constructor
  · intro h
    obtain ⟨x, hx, y, hy, z, hz, heq⟩ := h
    rw [← heq]
    exact ⟨hx, hy, hz⟩
  · intro h
    exact ⟨group.x, h.1, group.y, h.2.1, group.z, h.2.2, Eq.refl _⟩

/-- The rounds do not matter: the value is the sum over all blocks of the row. -/
theorem groupValue_eq (group : WorkGroup) (dt : ℕ) :
    d.groupValue activeExpertIndexes x weight group dt =
      ∑ j ∈ Finset.range (2 * d.nThreads),
        shaderProduct (x (((d.info group).inputOffset + j) % uintRange))
          (weight ((d.expertOffset activeExpertIndexes group +
            (tileSizeD * group.x + dt) * (d.info group).inputSizeX + j) % uintRange)) := by
  rw [groupValue, reduce_total, sum_range_mul _ 2 d.nThreads, Finset.sum_comm]
  apply Finset.sum_congr (Eq.refl _)
  intro thread _
  apply Finset.sum_congr (Eq.refl _)
  intro it _
  have hplace : it * d.nThreads + thread = thread + it * d.nThreads := Nat.add_comm _ _
  rw [xi, wi, hplace, Nat.add_assoc, Nat.add_assoc _ thread]

end Dispatch

end Shader

section Devices

/-- What both devices know of a product. -/
structure MatmulOp where
  /-- Part of the input. -/
  inputType : NnPointerType
  /-- Size of the input. -/
  inputSize : NnSize3D
  /-- Part of the output. -/
  outputType : NnPointerType
  /-- Size of the output. -/
  outputSize : NnSize3D
  /-- Size of the weight. -/
  weightSize : NnSize3D
  /-- Experts. -/
  nExperts : ℕ
  /-- Experts used for a row. -/
  nActiveExperts : ℕ
  /-- Buffer of the experts that are used. -/
  activeExpertIndexesBufferIndex : ℕ
  deriving DecidableEq, Repr

/-- The kind of the operation. -/
def MatmulOp.code (op : MatmulOp) : NnOpCode :=
  .matmul op.nExperts op.nActiveExperts op.activeExpertIndexesBufferIndex

variable {R : Type*} [CommRing R] (nBatches tpSize tpRank : ℕ) (op : MatmulOp)

/-- What the host computes for the shader. -/
def createDispatch : Except String Dispatch := do
  let infos ← buildBatchInfo nBatches tpSize tpRank op.inputType op.inputSize op.outputType
    op.outputSize
  let constants ←
    resolveShaderConstants op.code op.weightSize nBatches op.inputSize op.outputSize
  let groupsX ←
    resolveShaderNumberOfWorkGroupsX op.code op.weightSize op.inputSize op.outputSize
  return {
    infos := infos
    nBatches := constants.getD 0 32
    nThreads := constants.getD 2 32
    nExperts := op.nExperts
    nActiveExperts := op.nActiveExperts
    groupsX := groupsX
    groupsZ := resolveShaderNumberOfWorkGroupsZ op.code op.inputSize op.outputSize
    inputBlocks := op.inputSize.nBytes / getBytes .q80 q80BlockSize
    weightBlocks := op.weightSize.nBytes / getBytes .q40 q80BlockSize
    outputValues := op.outputSize.nBytes / getBytes .f32 1 }

/-- The kernel of the processor: a row of a weight times a row of blocks. -/
def matmul_Q80_Q40_F32 (x : ℕ → NnBlockQ80 R) (w : ℕ → NnBlockQ40 R) (n i : ℕ) : R :=
  ∑ j ∈ Finset.range (n / q80BlockSize), blockProduct (w (i * (n / q80BlockSize) + j)) (x j)

/-- What the processor checks of the sizes of its pointers. -/
def initMatmulForward (inputSize outputSize : NnSize3D) : Prop :=
  inputSize.y = nBatches ∧ outputSize.y = nBatches ∧ inputSize.x = op.weightSize.y ∧
    inputSize.z = max op.nActiveExperts 1 ∧ outputSize.x = op.weightSize.x ∧
    outputSize.z = max op.nActiveExperts 1 ∧ op.weightSize.z = max op.nExperts 1

instance (inputSize outputSize : NnSize3D) :
    Decidable (initMatmulForward nBatches op inputSize outputSize) :=
  inferInstanceAs (Decidable (_ ∧ _))

/-- Sizes and rows of both pointers of the processor. -/
def createContext : Except String ((NnSize3D × List ℕ) × (NnSize3D × List ℕ)) := do
  let input ← resolvePointer nBatches tpSize tpRank op.inputType op.inputSize
  let output ← resolvePointer nBatches tpSize tpRank op.outputType op.outputSize
  require (initMatmulForward nBatches op input.1 output.1) "ASSERT_EQ"
  return (input, output)

/-- The stores of the processor: for each row of the batch and each expert used for it, the row of
the input times the weight of the expert. -/
def matmulForward_Q80_Q40_F32 (input output : NnSize3D × List ℕ) (batchSize : ℕ)
    (activeExpertIndexes : ℕ → ℕ) (x : ℕ → NnBlockQ80 R) (weight : ℕ → NnBlockQ40 R) :
    List (ℕ × R) :=
  (List.range batchSize).flatMap fun y =>
    (List.range (max op.nActiveExperts 1)).flatMap fun e =>
      let activeExpertIndex :=
        if op.nActiveExperts = 0 then 0 else activeExpertIndexes (y * op.nActiveExperts + e)
      let xRow := input.2.getD (e * input.1.y + y) 0 / getBytes .q80 q80BlockSize
      let yRow := output.2.getD (e * output.1.y + y) 0 / getBytes .f32 1
      let w := activeExpertIndex * op.weightSize.nBytesXY / getBytes .q40 q80BlockSize
      (List.range op.weightSize.x).map fun i =>
        (yRow + i, matmul_Q80_Q40_F32 (fun l => x (xRow + l)) (fun l => weight (w + l))
          op.weightSize.y i)

/-- Both devices take the product, and the graphics device has no buffer without bytes. -/
structure Accepted (dispatch : Dispatch) (input output : NnSize3D × List ℕ) : Prop where
  /-- The graphics device. -/
  vulkan : createDispatch nBatches tpSize tpRank op = .ok dispatch
  /-- The processor. -/
  cpu : createContext nBatches tpSize tpRank op = .ok (input, output)
  /-- The input. -/
  inputBytes : 0 < op.inputSize.nBytes
  /-- The output. -/
  outputBytes : 0 < op.outputSize.nBytes
  /-- The weight. -/
  weightBytes : 0 < op.weightSize.nBytes

/-- Both devices leave the same output, for all batch sizes, inputs, weights, experts and prior
contents, and work groups in any order. -/
def MatmulsAgree (R : Type*) [CommRing R] (dispatch : Dispatch)
    (input output : NnSize3D × List ℕ) : Prop :=
  ∀ batchSize ≤ nBatches, ∀ (activeExpertIndexes : ℕ → ℕ) (x : ℕ → NnBlockQ80 R)
    (weight : ℕ → NnBlockQ40 R) (y : ℕ → R),
    (0 < op.nExperts → ∀ i, activeExpertIndexes i < op.nExperts) →
    ∀ groups, groups.Perm (dispatch.workGroups batchSize) →
      dispatch.run activeExpertIndexes x weight groups y =
        some (storeAll y
          (matmulForward_Q80_Q40_F32 op input output batchSize activeExpertIndexes x weight))

/-- The number of values of a size is a word. -/
def FitsWord (size : NnSize3D) : Prop := size.z * size.y * size.x < uintRange

instance (size : NnSize3D) : Decidable (FitsWord size) := inferInstanceAs (Decidable (_ < _))

/-- When the two products are the same. -/
structure Agreeing : Prop where
  /-- The input has whole rows. -/
  wholeRows : op.inputType = .batchedSlice → tpSize = 1
  /-- The values of the input are counted by a word. -/
  inputFits : FitsWord op.inputSize
  /-- The values of the weight are counted by a word. -/
  weightFits : FitsWord op.weightSize
  /-- The values of the output are counted by a word. -/
  outputFits : FitsWord op.outputSize
  /-- Without active experts there is one expert at most. -/
  oneExpert : op.nActiveExperts = 0 → op.nExperts ≤ 1

end Devices

section Sizes

variable {nBatches tpSize tpRank : ℕ} {floatType : NnFloatType} {size : NnSize3D}

/-- Blocks of a row of which a part is seen. -/
def widthOf (tpSize sizeX : ℕ) : NnPointerType → ℕ
  | .raw => sizeX
  | .batch => sizeX
  | .batchedSlice => sizeX / tpSize

/-- Blocks of a row before the part that is seen. -/
def startOf (tpSize tpRank sizeX : ℕ) : NnPointerType → ℕ
  | .raw => 0
  | .batch => 0
  | .batchedSlice => sizeX / tpSize * tpRank

theorem resolveSizeX_ok {sizeX : ℕ} (hsize : size.floatType = some floatType)
    (h : resolveSizeX size = .ok sizeX) :
    size.x % getBlockSize floatType = 0 ∧ sizeX = size.x / getBlockSize floatType := by
  simp only [resolveSizeX, hsize] at h
  by_cases hwhole : size.x % getBlockSize floatType = 0
  · rw [if_pos hwhole] at h
    injection h with h
    exact ⟨hwhole, h.symm⟩
  · rw [if_neg hwhole] at h
    cases h

theorem resolveBufferBatchOffset_ok {type : NnPointerType} {batchIndex zIndex offset : ℕ}
    (hsize : size.floatType = some floatType) (htype : type ≠ .raw)
    (h : resolveBufferBatchOffset nBatches tpSize tpRank type size batchIndex zIndex =
      .ok offset) :
    offset = (size.x / getBlockSize floatType * nBatches * zIndex +
      size.x / getBlockSize floatType * batchIndex +
        startOf tpSize tpRank (size.x / getBlockSize floatType) type) % uintRange := by
  obtain ⟨_, _, h⟩ := bind_eq_ok h
  cases type with
  | raw => exact absurd (Eq.refl _) htype
  | batch =>
    obtain ⟨sizeX, hsizeX, h⟩ := bind_eq_ok h
    injection h with h
    rw [← h, (resolveSizeX_ok hsize hsizeX).2, startOf, Nat.add_zero]
  | batchedSlice =>
    obtain ⟨sizeX, hsizeX, h⟩ := bind_eq_ok h
    obtain ⟨_, _, h⟩ := bind_eq_ok h
    injection h with h
    rw [← h, (resolveSizeX_ok hsize hsizeX).2, startOf]

theorem resolveBufferBatchWidth_ok {type : NnPointerType} {width : ℕ}
    (hsize : size.floatType = some floatType)
    (h : resolveBufferBatchWidth tpSize type size = .ok width) :
    size.x % getBlockSize floatType = 0 ∧
      width = widthOf tpSize (size.x / getBlockSize floatType) type := by
  obtain ⟨sizeX, hsizeX, h⟩ := bind_eq_ok h
  obtain ⟨hwhole, hsizeX⟩ := resolveSizeX_ok hsize hsizeX
  refine ⟨hwhole, ?_⟩
  cases type with
  | raw =>
    injection h with h
    rw [← h, hsizeX, widthOf]
  | batch =>
    injection h with h
    rw [← h, hsizeX, widthOf]
  | batchedSlice =>
    obtain ⟨_, _, h⟩ := bind_eq_ok h
    injection h with h
    rw [← h, hsizeX, widthOf]

/-- The table of rows has the row of each plane and row of the batch. -/
theorem buildBatchInfo_ok {inputType outputType : NnPointerType} {inputSize outputSize : NnSize3D}
    {infos : List NnVulkanBatchInfo}
    (h : buildBatchInfo nBatches tpSize tpRank inputType inputSize outputType outputSize =
      .ok infos)
    {zIndex batchIndex : ℕ} (hz : zIndex < resolveNumberOfBatchInfoZ inputSize outputSize)
    (hb : batchIndex < nBatches) :
    batchInfoAt nBatches tpSize tpRank inputType inputSize outputType outputSize zIndex batchIndex =
      .ok (infos.getD (zIndex * nBatches + batchIndex) default) := by
  obtain ⟨_, heach⟩ := mapM_eq_ok h
  have hlt : zIndex * nBatches + batchIndex <
      resolveNumberOfBatchInfoZ inputSize outputSize * nBatches := index_lt hz hb
  obtain ⟨info, hinfo, hat⟩ := heach _ _ (List.getElem?_range hlt)
  rw [index_div zIndex hb, index_mod zIndex hb] at hat
  rw [hat, List.getD_eq_getElem?_getD, hinfo, Option.getD_some]

/-- The row of a plane and a row of the batch, for an input in blocks and an output of values. -/
theorem batchInfoAt_ok {inputType : NnPointerType} {inputSize outputSize : NnSize3D}
    {zIndex batchIndex : ℕ} {info : NnVulkanBatchInfo} (htype : inputType ≠ .raw)
    (hinput : inputSize.floatType = some .q80) (houtput : outputSize.floatType = some .f32)
    (h : batchInfoAt nBatches tpSize tpRank inputType inputSize .batch outputSize zIndex
      batchIndex = .ok info) :
    info = ⟨(inputSize.x / q80BlockSize * nBatches * zIndex +
        inputSize.x / q80BlockSize * batchIndex +
          startOf tpSize tpRank (inputSize.x / q80BlockSize) inputType) % uintRange,
      widthOf tpSize (inputSize.x / q80BlockSize) inputType,
      (outputSize.x * nBatches * zIndex + outputSize.x * batchIndex) % uintRange,
      outputSize.x⟩ := by
  obtain ⟨inputOffset, hin, h⟩ := bind_eq_ok h
  obtain ⟨inputSizeX, hinX, h⟩ := bind_eq_ok h
  obtain ⟨outputOffset, hout, h⟩ := bind_eq_ok h
  obtain ⟨outputSizeX, houtX, h⟩ := bind_eq_ok h
  injection h with h
  have hbatch : NnPointerType.batch ≠ .raw := by simp
  rw [← h, resolveBufferBatchOffset_ok hinput htype hin, (resolveBufferBatchWidth_ok hinput hinX).2,
    resolveBufferBatchOffset_ok houtput hbatch hout, (resolveBufferBatchWidth_ok houtput houtX).2]
  simp only [getBlockSize, widthOf, startOf, Nat.div_one, Nat.add_zero]

/-- A pointer of the processor to rows of a batch. -/
theorem resolvePointer_ok {type : NnPointerType} {pointer : NnSize3D × List ℕ} (htype : type ≠ .raw)
    (hsize : size.floatType = some floatType)
    (h : resolvePointer nBatches tpSize tpRank type size = .ok pointer) :
    size.y = nBatches ∧ pointer.1.y = size.y ∧ pointer.1.z = size.z ∧
      pointer.1.x = widthOf tpSize size.x type ∧ WholeBlocks floatType size.x ∧
      WholeBlocks floatType (widthOf tpSize size.x type) ∧
      (type = .batchedSlice → size.x % tpSize = 0) ∧
      ∀ row < size.z * size.y, pointer.2.getD row 0 = row * getBytes floatType size.x +
        if type = .batchedSlice then getBytes floatType (size.x / tpSize) * tpRank else 0 := by
  rw [resolvePointer, hsize] at h
  cases type with
  | raw => exact absurd (Eq.refl _) htype
  | batch =>
    obtain ⟨_, hy, h⟩ := bind_eq_ok h
    obtain ⟨_, hwhole, h⟩ := bind_eq_ok h
    injection h with h
    rw [← h]
    refine ⟨require_eq_ok hy, Eq.refl _, Eq.refl _, Eq.refl _, require_eq_ok hwhole,
      require_eq_ok hwhole, (by simp), ?_⟩
    intro row hrow
    rw [List.getD_eq_getElem?_getD, List.getElem?_map, List.getElem?_range hrow]
    exact Eq.refl _
  | batchedSlice =>
    obtain ⟨_, hy, h⟩ := bind_eq_ok h
    obtain ⟨_, hwhole, h⟩ := bind_eq_ok h
    obtain ⟨_, hslice, h⟩ := bind_eq_ok h
    obtain ⟨_, hpart, h⟩ := bind_eq_ok h
    injection h with h
    rw [← h]
    refine ⟨require_eq_ok hy, Eq.refl _, Eq.refl _, Eq.refl _, require_eq_ok hwhole,
      require_eq_ok hpart, fun _ => require_eq_ok hslice, ?_⟩
    intro row hrow
    rw [List.getD_eq_getElem?_getD, List.getElem?_map, List.getElem?_range hrow, if_pos (Eq.refl _)]
    exact Eq.refl _

end Sizes

section Accepted

variable {nBatches tpSize tpRank : ℕ} {op : MatmulOp} {dispatch : Dispatch}
  {input output : NnSize3D × List ℕ}

/-- The product is from blocks with a weight of blocks to values, and sees rows. -/
structure Quantized (op : MatmulOp) : Prop where
  /-- Rows of the input. -/
  inputType : op.inputType ≠ .raw
  /-- Blocks of the input. -/
  inputSize : ∃ z y x, op.inputSize = size3D .q80 z y x
  /-- Rows of the output. -/
  outputType : op.outputType = .batch
  /-- Values of the output. -/
  outputSize : ∃ z y x, op.outputSize = size3D .f32 z y x
  /-- Blocks of the weight. -/
  weightSize : ∃ z y x, op.weightSize = size3D .q40 z y x
  /-- Without experts none is used. -/
  noExperts : op.nExperts = 0 → op.nActiveExperts = 0 ∨ op.weightSize.z = 0

/-- The numbers of an accepted product: blocks of a row of the input, the blocks of it that are seen
and those before them, and rows of the weight. -/
structure Sized (nBatches tpSize tpRank : ℕ) (op : MatmulOp) (dispatch : Dispatch)
    (blocks width start rows : ℕ) : Prop where
  /-- Blocks that are seen. -/
  width_eq : width = widthOf tpSize blocks op.inputType
  /-- Blocks before them. -/
  start_eq : start = startOf tpSize tpRank blocks op.inputType
  /-- Without experts none is used. -/
  noExperts : op.nExperts = 0 → op.nActiveExperts = 0
  /-- Values of an expert. -/
  plane : op.weightSize.y * op.weightSize.x = 32 * (width * rows)
  /-- There are rows of a batch. -/
  nBatches_pos : 0 < nBatches
  /-- Blocks are seen. -/
  width_pos : 0 < width
  /-- There are rows of the weight. -/
  rows_pos : 0 < rows
  /-- An invocation has two blocks of a whole row. -/
  threads : blocks = 2 * dispatch.nThreads
  /-- A work group has eight rows. -/
  groups : rows = tileSizeD * dispatch.groupsX
  /-- Planes. -/
  groupsZ : dispatch.groupsZ = max op.nActiveExperts 1
  /-- The constant is the number of rows. -/
  batches : dispatch.nBatches = nBatches
  /-- Experts. -/
  nExperts : dispatch.nExperts = op.nExperts
  /-- Experts used for a row. -/
  nActiveExperts : dispatch.nActiveExperts = op.nActiveExperts
  /-- Blocks of the input. -/
  inputBlocks : dispatch.inputBlocks =
    max op.nActiveExperts 1 * nBatches * (32 * blocks) % uintRange / 32
  /-- Blocks of the weight. -/
  weightBlocks : dispatch.weightBlocks = max op.nExperts 1 * (32 * width) * rows % uintRange / 32
  /-- Values of the output. -/
  outputValues : dispatch.outputValues = max op.nActiveExperts 1 * nBatches * rows % uintRange
  /-- Rows of the batch. -/
  info : ∀ x, ∀ b < nBatches, ∀ z < max op.nActiveExperts 1, dispatch.info ⟨x, b, z⟩ =
    ⟨(blocks * nBatches * z + blocks * b + start) % uintRange, width,
      (rows * nBatches * z + rows * b) % uintRange, rows⟩
  /-- Values of the input. -/
  inputFits : FitsWord op.inputSize ↔ max op.nActiveExperts 1 * nBatches * (32 * blocks) < uintRange
  /-- Values of the weight. -/
  weightFits : FitsWord op.weightSize ↔ max op.nExperts 1 * (32 * width) * rows < uintRange
  /-- Values of the output. -/
  outputFits : FitsWord op.outputSize ↔ max op.nActiveExperts 1 * nBatches * rows < uintRange

theorem size3D_q80_blocks (z y x : ℕ) :
    (size3D .q80 z y x).nBytes / getBytes .q80 q80BlockSize = z * y * x % uintRange / 32 := by
  have hblock : getBytes .q80 q80BlockSize = 34 := Eq.refl _
  rw [hblock]
  exact Nat.mul_div_cancel _ (by omega)

theorem size3D_q40_blocks (z y x : ℕ) :
    (size3D .q40 z y x).nBytes / getBytes .q40 q80BlockSize = z * y * x % uintRange / 32 := by
  have hblock : getBytes .q40 q80BlockSize = 18 := Eq.refl _
  rw [hblock]
  exact Nat.mul_div_cancel _ (by omega)

theorem size3D_f32_values (z y x : ℕ) :
    (size3D .f32 z y x).nBytes / getBytes .f32 1 = z * y * x % uintRange := by
  have hblock : getBytes .f32 1 = 4 := Eq.refl _
  rw [hblock]
  exact Nat.mul_div_cancel_left _ (by omega)

/-- A size with bytes has planes, rows and values. -/
theorem size3D_pos {floatType : NnFloatType} {z y x : ℕ}
    (h : 0 < (size3D floatType z y x).nBytes) : 0 < z ∧ 0 < y ∧ 0 < x := by
  have hlength : z * y * x ≠ 0 := by
    intro hzero
    have hbytes : (size3D floatType z y x).nBytes = 0 := by
      rw [size3D, hzero]
      cases floatType <;> exact Eq.refl _
    omega
  refine ⟨?_, ?_, ?_⟩
  · apply Nat.pos_of_ne_zero
    intro hz
    rw [hz, Nat.zero_mul, Nat.zero_mul] at hlength
    exact hlength (Eq.refl _)
  · apply Nat.pos_of_ne_zero
    intro hy
    rw [hy, Nat.mul_zero, Nat.zero_mul] at hlength
    exact hlength (Eq.refl _)
  · apply Nat.pos_of_ne_zero
    intro hx
    rw [hx, Nat.mul_zero] at hlength
    exact hlength (Eq.refl _)

theorem widthOf_div (tpSize x : ℕ) (type : NnPointerType) :
    widthOf tpSize (x / q80BlockSize) type = widthOf tpSize x type / q80BlockSize := by
  cases type with
  | raw => exact Eq.refl _
  | batch => exact Eq.refl _
  | batchedSlice =>
    simp only [widthOf]
    rw [Nat.div_div_eq_div_mul, Nat.div_div_eq_div_mul, Nat.mul_comm]

theorem resolveShaderConstants_ok {inputSize outputSize weightSize : NnSize3D} {constants : List ℕ}
    (hweight : weightSize.floatType = some .q40)
    (h : resolveShaderConstants op.code weightSize nBatches inputSize outputSize = .ok constants) :
    inputSize.x % 64 = 0 ∧ constants =
      [nBatches, resolveNumberOfBatchInfoZ inputSize outputSize, inputSize.x / 64] := by
  rw [MatmulOp.code, resolveShaderConstants] at h
  rw [if_pos hweight] at h
  by_cases hx : inputSize.x % (q80BlockSize * tileSizeX) = 0
  · rw [if_pos hx] at h
    injection h with h
    exact ⟨hx, h.symm⟩
  · rw [if_neg hx] at h
    cases h

theorem resolveShaderNumberOfWorkGroupsX_ok {inputSize outputSize weightSize : NnSize3D}
    {groups : ℕ}
    (hweight : weightSize.floatType = some .q40)
    (h : resolveShaderNumberOfWorkGroupsX op.code weightSize inputSize outputSize = .ok groups) :
    weightSize.x = tileSizeD * groups := by
  rw [MatmulOp.code, resolveShaderNumberOfWorkGroupsX] at h
  rw [if_pos hweight] at h
  by_cases hx : weightSize.x % tileSizeD = 0
  · rw [if_pos hx] at h
    injection h with h
    rw [← h]
    exact (Nat.mul_div_cancel' (Nat.dvd_of_mod_eq_zero hx)).symm
  · rw [if_neg hx] at h
    cases h

/-- The processor's context of an accepted product. -/
theorem createContext_ok (h : createContext nBatches tpSize tpRank op = .ok (input, output)) :
    resolvePointer nBatches tpSize tpRank op.inputType op.inputSize = .ok input ∧
      resolvePointer nBatches tpSize tpRank op.outputType op.outputSize = .ok output ∧
      initMatmulForward nBatches op input.1 output.1 := by
  obtain ⟨input', hinput, h⟩ := bind_eq_ok h
  obtain ⟨output', houtput, h⟩ := bind_eq_ok h
  obtain ⟨_, hinit, h⟩ := bind_eq_ok h
  injection h with h
  injection h with hin hout
  rw [← hin, ← hout]
  exact ⟨hinput, houtput, require_eq_ok hinit⟩

/-- An accepted product has its numbers. -/
theorem Accepted.sized (h : Accepted nBatches tpSize tpRank op dispatch input output)
    (hop : Quantized op) :
    Sized nBatches tpSize tpRank op dispatch (op.inputSize.x / 32) (op.weightSize.y / 32)
      (startOf tpSize tpRank (op.inputSize.x / 32) op.inputType) op.weightSize.x := by
  obtain ⟨zi, yi, xi, hin⟩ := hop.inputSize
  obtain ⟨zo, yo, xo, hout⟩ := hop.outputSize
  obtain ⟨e, n, m, hw⟩ := hop.weightSize
  have hinType : op.inputSize.floatType = some .q80 := by rw [hin, size3D]
  have houtType : op.outputSize.floatType = some .f32 := by rw [hout, size3D]
  have hwType : op.weightSize.floatType = some .q40 := by rw [hw, size3D]
  have hbatch : op.outputType ≠ .raw := by
    rw [hop.outputType]
    simp
  obtain ⟨hinput, houtput, hinit⟩ := createContext_ok h.cpu
  obtain ⟨hyi, _, hzin, hxin, _, hpart, _, _⟩ := resolvePointer_ok hop.inputType hinType hinput
  obtain ⟨hyo, _, hzout, hxout, _⟩ := resolvePointer_ok hbatch houtType houtput
  obtain ⟨_, _, hn, hz, hx, hz', he⟩ := hinit
  rw [hzin] at hz
  rw [hzout] at hz'
  rw [hxin] at hn
  rw [hxout, hop.outputType] at hx
  have hrows : op.outputSize.x = op.weightSize.x := hx
  obtain ⟨infos, hinfos, hdispatch⟩ := bind_eq_ok h.vulkan
  obtain ⟨constants, hconstants, hdispatch⟩ := bind_eq_ok hdispatch
  obtain ⟨groupsX, hgroups, hdispatch⟩ := bind_eq_ok hdispatch
  injection hdispatch with hdispatch
  obtain ⟨hx64, hconstants⟩ := resolveShaderConstants_ok hwType hconstants
  have hgroups := resolveShaderNumberOfWorkGroupsX_ok hwType hgroups
  have hplanes :
      resolveNumberOfBatchInfoZ op.inputSize op.outputSize = max op.nActiveExperts 1 := by
    rw [resolveNumberOfBatchInfoZ, hz, hz', Nat.max_self]
  have hinPos := h.inputBytes
  have houtPos := h.outputBytes
  have hwPos := h.weightBytes
  rw [hin] at hinPos
  rw [hout] at houtPos
  rw [hw] at hwPos
  obtain ⟨_, hyPos, _⟩ := size3D_pos hinPos
  obtain ⟨_, _, hmPos⟩ := size3D_pos houtPos
  obtain ⟨_, hnPos, _⟩ := size3D_pos hwPos
  have hwidth : widthOf tpSize (op.inputSize.x / q80BlockSize) op.inputType =
      op.weightSize.y / 32 := by
    rw [widthOf_div, hn]
    exact Eq.refl _
  have hxWhole : op.inputSize.x = 32 * (op.inputSize.x / 32) := by omega
  have hnWhole : op.weightSize.y = 32 * (op.weightSize.y / 32) := by
    have hmod : widthOf tpSize op.inputSize.x op.inputType % 32 = 0 := hpart
    rw [hn] at hmod
    omega
  have hzx : op.inputSize.z = zi := by rw [hin, size3D]
  have hyx : op.inputSize.y = yi := by rw [hin, size3D]
  have hxx : op.inputSize.x = xi := by rw [hin, size3D]
  have hzo : op.outputSize.z = zo := by rw [hout, size3D]
  have hyo' : op.outputSize.y = yo := by rw [hout, size3D]
  have hxo : op.outputSize.x = xo := by rw [hout, size3D]
  have hew : op.weightSize.z = e := by rw [hw, size3D]
  have hnw : op.weightSize.y = n := by rw [hw, size3D]
  have hmw : op.weightSize.x = m := by rw [hw, size3D]
  have hinfo : ∀ x, ∀ b < nBatches, ∀ z < max op.nActiveExperts 1, dispatch.info ⟨x, b, z⟩ =
      ⟨(op.inputSize.x / 32 * nBatches * z + op.inputSize.x / 32 * b +
          startOf tpSize tpRank (op.inputSize.x / 32) op.inputType) % uintRange,
        op.weightSize.y / 32, (op.weightSize.x * nBatches * z + op.weightSize.x * b) % uintRange,
        op.weightSize.x⟩ := by
    intro x b hb z hlt
    have hat := buildBatchInfo_ok hinfos (hplanes.symm ▸ hlt) hb
    rw [hop.outputType] at hat
    have hrow := batchInfoAt_ok hop.inputType hinType houtType hat
    rw [hwidth, hrows] at hrow
    have hhere : dispatch.info ⟨x, b, z⟩ = infos.getD (z * nBatches + b) default := by
      rw [← hdispatch, hconstants]
      exact Eq.refl _
    rw [hhere]
    exact hrow
  constructor
  · exact hwidth.symm
  · exact Eq.refl _
  · intro hnone
    cases hop.noExperts hnone with
    | inl hzero => exact hzero
    | inr hempty =>
      rw [he] at hempty
      omega
  · rw [← Nat.mul_assoc, ← hnWhole]
  · omega
  · omega
  · omega
  · rw [← hdispatch, hconstants]
    have hthreads : ([nBatches, resolveNumberOfBatchInfoZ op.inputSize op.outputSize,
        op.inputSize.x / 64].getD 2 32) = op.inputSize.x / 64 := Eq.refl _
    simp only [hthreads]
    omega
  · rw [← hdispatch]
    exact hgroups
  · rw [← hdispatch]
    exact hplanes
  · rw [← hdispatch, hconstants]
    exact Eq.refl _
  · rw [← hdispatch]
  · rw [← hdispatch]
  · rw [← hdispatch, ← hxWhole, ← hz, ← hyi, hzx, hyx, hxx, hin]
    exact size3D_q80_blocks zi yi xi
  · rw [← hdispatch, ← hnWhole, ← he, hew, hnw, hmw, hw]
    exact size3D_q40_blocks e n m
  · rw [← hdispatch, ← hrows, ← hz', ← hyo, hzo, hyo', hxo, hout]
    exact size3D_f32_values zo yo xo
  · exact hinfo
  · rw [FitsWord, ← hxWhole, ← hz, ← hyi]
  · rw [FitsWord, ← hnWhole, ← he]
  · rw [FitsWord, ← hrows, ← hz', ← hyo]

end Accepted

section Products

variable {R : Type*} [CommRing R]

/-- A row of the input times a row of a weight. -/
def rowProduct (width : ℕ) (x : ℕ → NnBlockQ80 R) (weight : ℕ → NnBlockQ40 R) (xRow wRow : ℕ) : R :=
  ∑ j ∈ Finset.range width, blockProduct (weight (wRow + j)) (x (xRow + j))

/-- The stores of a product: in each row of the batch and each plane the row of the input times the
rows of an expert. -/
def productStores (nBatches planes rows width start : ℕ) (x : ℕ → NnBlockQ80 R)
    (weight : ℕ → NnBlockQ40 R) (blocks : ℕ) (offset : ℕ → ℕ → ℕ) (batchSize : ℕ) : List (ℕ × R) :=
  (List.range batchSize).flatMap fun y => (List.range planes).flatMap fun e =>
    (List.range rows).map fun i => ((e * nBatches + y) * rows + i,
      rowProduct width x weight ((e * nBatches + y) * blocks + start) (offset y e + i * width))

variable {nBatches planes rows width start blocks batchSize : ℕ} {x : ℕ → NnBlockQ80 R}
  {weight : ℕ → NnBlockQ40 R} {offset : ℕ → ℕ → ℕ}

theorem mem_productStores {store : ℕ × R} :
    store ∈ productStores nBatches planes rows width start x weight blocks offset batchSize ↔
      ∃ y < batchSize, ∃ e < planes, ∃ i < rows, store = ((e * nBatches + y) * rows + i,
        rowProduct width x weight ((e * nBatches + y) * blocks + start)
          (offset y e + i * width)) := by
  simp only [productStores, List.mem_flatMap, List.mem_map, List.mem_range]
  constructor
  · intro h
    obtain ⟨y, hy, e, he, i, hi, heq⟩ := h
    exact ⟨y, hy, e, he, i, hi, heq.symm⟩
  · intro h
    obtain ⟨y, hy, e, he, i, hi, heq⟩ := h
    exact ⟨y, hy, e, he, i, hi, heq.symm⟩

/-- Every row of the output has one product. -/
theorem functional_productStores (hbatch : batchSize ≤ nBatches) : Functional
    (productStores nBatches planes rows width start x weight blocks offset batchSize) := by
  intro l v v' h h'
  obtain ⟨y, hy, e, _, i, hi, heq⟩ := mem_productStores.mp h
  obtain ⟨y', hy', e', _, i', hi', heq'⟩ := mem_productStores.mp h'
  injection heq with hl hv
  injection heq' with hl' hv'
  obtain ⟨hrow, hplace⟩ := index_inj hi hi' (hl.symm.trans hl')
  obtain ⟨hplane, hbatchRow⟩ := index_inj (Nat.lt_of_lt_of_le hy hbatch)
    (Nat.lt_of_lt_of_le hy' hbatch) hrow
  rw [hv, hv', hrow, hplace, hplane, hbatchRow]

end Products

section Kernels

variable {R : Type*} [CommRing R] {nBatches tpSize tpRank : ℕ} {op : MatmulOp}
  {dispatch : Dispatch} {input output : NnSize3D × List ℕ}
  {blocks width start rows : ℕ}

/-- First block of the expert that the processor takes. -/
def cpuOffset (op : MatmulOp) (activeExpertIndexes : ℕ → ℕ) (plane : ℕ) (y e : ℕ) : ℕ :=
  (if op.nActiveExperts = 0 then 0 else activeExpertIndexes (y * op.nActiveExperts + e)) * plane

/-- First block of the expert that the graphics device takes. -/
def vulkanOffset (op : MatmulOp) (activeExpertIndexes : ℕ → ℕ) (plane : ℕ) (y e : ℕ) : ℕ :=
  (if op.nExperts = 0 then 0 else activeExpertIndexes (y * op.nActiveExperts + e)) * plane

/-- A row of the input in blocks. -/
theorem inputRow_eq (tpSize tpRank row x : ℕ) {type : NnPointerType} (htype : type ≠ .raw) :
    (row * getBytes .q80 x + if type = .batchedSlice then getBytes .q80 (x / tpSize) * tpRank
      else 0) / getBytes .q80 q80BlockSize =
      row * (x / 32) + startOf tpSize tpRank (x / 32) type := by
  have hblock : getBytes .q80 q80BlockSize = 34 := Eq.refl _
  have hrow : getBytes .q80 x = x / 32 * 34 := Eq.refl _
  have hpart : getBytes .q80 (x / tpSize) = x / tpSize / 32 * 34 := Eq.refl _
  rw [hblock, hrow, hpart]
  cases type with
  | raw => exact absurd (Eq.refl _) htype
  | batch =>
    have hplace : row * (x / 32 * 34) = row * (x / 32) * 34 := by ring
    rw [if_neg (by simp), startOf, Nat.add_zero, Nat.add_zero, hplace]
    exact Nat.mul_div_cancel _ (by decide : 0 < 34)
  | batchedSlice =>
    have hcomm : x / tpSize / 32 = x / 32 / tpSize := by
      rw [Nat.div_div_eq_div_mul, Nat.div_div_eq_div_mul, Nat.mul_comm]
    have hplace : row * (x / 32 * 34) + x / 32 / tpSize * 34 * tpRank =
        (row * (x / 32) + x / 32 / tpSize * tpRank) * 34 := by ring
    rw [if_pos (Eq.refl _), hcomm, hplace, startOf]
    exact Nat.mul_div_cancel _ (by decide : 0 < 34)

/-- The processor stores the products of the rows it sees. -/
theorem Accepted.cpu_stores (h : Accepted nBatches tpSize tpRank op dispatch input output)
    (hop : Quantized op) {batchSize : ℕ} (hbatch : batchSize ≤ nBatches)
    (activeExpertIndexes : ℕ → ℕ) (x : ℕ → NnBlockQ80 R) (weight : ℕ → NnBlockQ40 R) :
    matmulForward_Q80_Q40_F32 op input output batchSize activeExpertIndexes x weight =
      productStores nBatches (max op.nActiveExperts 1) op.weightSize.x (op.weightSize.y / 32)
        (startOf tpSize tpRank (op.inputSize.x / 32) op.inputType) x weight (op.inputSize.x / 32)
        (cpuOffset op activeExpertIndexes
          (op.weightSize.y * op.weightSize.x % uintRange / 32)) batchSize := by
  obtain ⟨zi, yi, xi, hin⟩ := hop.inputSize
  obtain ⟨zo, yo, xo, hout⟩ := hop.outputSize
  obtain ⟨e, n, m, hw⟩ := hop.weightSize
  have hinType : op.inputSize.floatType = some .q80 := by rw [hin, size3D]
  have houtType : op.outputSize.floatType = some .f32 := by rw [hout, size3D]
  have hbatchType : op.outputType ≠ .raw := by
    rw [hop.outputType]
    simp
  obtain ⟨hinput, houtput, hinit⟩ := createContext_ok h.cpu
  obtain ⟨hyi, hyin, hzin, _, hwhole, _, hslice, hinRow⟩ :=
    resolvePointer_ok hop.inputType hinType hinput
  obtain ⟨hyo, hyout, hzout, hxout, _, _, _, houtRow⟩ :=
    resolvePointer_ok hbatchType houtType houtput
  obtain ⟨_, _, _, hz, hx, hz', _⟩ := hinit
  rw [hzin] at hz
  rw [hzout] at hz'
  have hrows : op.outputSize.x = op.weightSize.x := by
    rw [hxout, hop.outputType] at hx
    exact hx
  apply List.flatMap_congr
  intro y hy
  apply List.flatMap_congr
  intro e he
  have hyLt : y < nBatches := Nat.lt_of_lt_of_le (List.mem_range.mp hy) hbatch
  have heLt : e < max op.nActiveExperts 1 := List.mem_range.mp he
  have hxRow : input.2.getD (e * input.1.y + y) 0 / getBytes .q80 q80BlockSize =
      (e * nBatches + y) * (op.inputSize.x / 32) +
        startOf tpSize tpRank (op.inputSize.x / 32) op.inputType := by
    rw [hyin, hyi, hinRow _ (by rw [hz, hyi]; exact index_lt heLt hyLt)]
    exact inputRow_eq tpSize tpRank _ _ hop.inputType
  have hyRow : output.2.getD (e * output.1.y + y) 0 / getBytes .f32 1 =
      (e * nBatches + y) * op.weightSize.x := by
    have hbytes : getBytes .f32 op.weightSize.x = 4 * op.weightSize.x := Eq.refl _
    have hone : getBytes .f32 1 = 4 := Eq.refl _
    have hplace : (e * nBatches + y) * (4 * op.weightSize.x) =
        4 * ((e * nBatches + y) * op.weightSize.x) := by ring
    rw [hyout, hyo, houtRow _ (by rw [hz', hyo]; exact index_lt heLt hyLt), hop.outputType,
      if_neg (by simp), hrows, hbytes, hone, Nat.add_zero, hplace]
    exact Nat.mul_div_cancel_left _ (by decide : 0 < 4)
  have hw' : ∀ index : ℕ, index * op.weightSize.nBytesXY / getBytes .q40 q80BlockSize =
      index * (op.weightSize.y * op.weightSize.x % uintRange / 32) := by
    intro index
    have hblock : getBytes .q40 q80BlockSize = 18 := Eq.refl _
    have hbytes : op.weightSize.nBytesXY =
        op.weightSize.y * op.weightSize.x % uintRange / 32 * 18 := by
      rw [hw]
      exact Eq.refl _
    rw [hblock, hbytes, ← Nat.mul_assoc]
    exact Nat.mul_div_cancel _ (by decide : 0 < 18)
  apply List.map_congr_left
  intro i _
  rw [hxRow, hyRow, hw', matmul_Q80_Q40_F32, rowProduct]
  refine congrArg (Prod.mk _) ?_
  apply Finset.sum_congr (Eq.refl _)
  intro j _
  have hblocks : op.weightSize.y / q80BlockSize = op.weightSize.y / 32 := Eq.refl _
  rw [hblocks, cpuOffset, ← Nat.add_assoc (_ * _) (i * _) j]

/-- Words hold the places of rows that fit. -/
theorem place_mod {pieces size piece place : ℕ} (hpiece : piece < pieces) (hplace : place < size)
    (hfits : pieces * size ≤ uintRange) :
    (piece * size % uintRange + place) % uintRange = piece * size + place := by
  have hlt := Nat.lt_of_lt_of_le (index_lt hpiece hplace) hfits
  have hstart : piece * size < uintRange := Nat.lt_of_le_of_lt (Nat.le_add_right _ place) hlt
  rw [Nat.mod_eq_of_lt hstart, Nat.mod_eq_of_lt hlt]

/-- The expert of a work group is one of the experts. -/
theorem vulkanExpert_lt {activeExpertIndexes : ℕ → ℕ}
    (hactive : 0 < op.nExperts → ∀ i, activeExpertIndexes i < op.nExperts) (i : ℕ) :
    (if op.nExperts = 0 then 0 else activeExpertIndexes i) < max op.nExperts 1 := by
  split
  · omega
  · have hlt := hactive (by omega) i
    omega

section Wide

variable (hs : Sized nBatches tpSize tpRank op dispatch blocks width start rows)
include hs

theorem Sized.expertOffset_eq (activeExpertIndexes : ℕ → ℕ) {group : WorkGroup}
    (hy : group.y < nBatches) (hz : group.z < max op.nActiveExperts 1) :
    dispatch.expertOffset activeExpertIndexes group =
      vulkanOffset op activeExpertIndexes (width * rows) group.y group.z := by
  have hinfo : dispatch.info group = _ := hs.info group.x group.y hy group.z hz
  rw [Dispatch.expertOffset, hinfo, Dispatch.expertIndex, hs.nExperts, hs.nActiveExperts,
    vulkanOffset, Nat.mul_assoc]

/-- The block of an input row that an invocation takes. -/
theorem Sized.xi_eq {group : WorkGroup} (hy : group.y < nBatches)
    (hz : group.z < max op.nActiveExperts 1) (thread it : ℕ) :
    dispatch.xi group thread it = (((group.z * nBatches + group.y) * blocks + start) % uintRange +
      (thread + it * dispatch.nThreads)) % uintRange := by
  have hinfo : dispatch.info group = _ := hs.info group.x group.y hy group.z hz
  have hplace : blocks * nBatches * group.z + blocks * group.y =
      (group.z * nBatches + group.y) * blocks := by ring
  rw [Dispatch.xi, hinfo, hplace, Nat.add_assoc]

/-- The block of a weight that an invocation takes. -/
theorem Sized.wi_eq (activeExpertIndexes : ℕ → ℕ) {group : WorkGroup} (hy : group.y < nBatches)
    (hz : group.z < max op.nActiveExperts 1) (dt thread it : ℕ) :
    dispatch.wi activeExpertIndexes group dt thread it =
      (vulkanOffset op activeExpertIndexes (width * rows) group.y group.z +
        (tileSizeD * group.x + dt) * width + (thread + it * dispatch.nThreads)) % uintRange := by
  have hinfo : dispatch.info group = _ := hs.info group.x group.y hy group.z hz
  rw [Dispatch.wi, hs.expertOffset_eq activeExpertIndexes hy hz, hinfo, Nat.add_assoc _ thread]

/-- The value of the output that a work group stores. -/
theorem Sized.yi_eq {group : WorkGroup} (hy : group.y < nBatches)
    (hz : group.z < max op.nActiveExperts 1) (dt : ℕ) :
    dispatch.yi group dt = ((group.z * nBatches + group.y) * rows % uintRange +
      (tileSizeD * group.x + dt)) % uintRange := by
  have hinfo : dispatch.info group = _ := hs.info group.x group.y hy group.z hz
  have hplace : rows * nBatches * group.z + rows * group.y =
      (group.z * nBatches + group.y) * rows := by ring
  rw [Dispatch.yi, hinfo, hplace, Nat.add_assoc]

end Wide

section Fitting

variable (hs : Sized nBatches tpSize tpRank op dispatch blocks blocks 0 rows)
  (hinput : max op.nActiveExperts 1 * nBatches * (32 * blocks) < uintRange)
  (hweight : max op.nExperts 1 * (32 * blocks) * rows < uintRange)
  (houtput : max op.nActiveExperts 1 * nBatches * rows < uintRange)
  {activeExpertIndexes : ℕ → ℕ}
  (hactive : 0 < op.nExperts → ∀ i, activeExpertIndexes i < op.nExperts)
include hs hinput

/-- The input block is in the row and in the buffer. -/
theorem Sized.input_place {group : WorkGroup} (hy : group.y < nBatches)
    (hz : group.z < max op.nActiveExperts 1) {j : ℕ} (hj : j < blocks) :
    (((group.z * nBatches + group.y) * blocks + 0) % uintRange + j) % uintRange =
        (group.z * nBatches + group.y) * blocks + j ∧
      (group.z * nBatches + group.y) * blocks + j < dispatch.inputBlocks := by
  have hrow := index_lt hz hy
  have hwhole : max op.nActiveExperts 1 * nBatches * (32 * blocks) =
      32 * (max op.nActiveExperts 1 * nBatches * blocks) := by ring
  have hblocks : dispatch.inputBlocks = max op.nActiveExperts 1 * nBatches * blocks := by
    rw [hs.inputBlocks, Nat.mod_eq_of_lt hinput, hwhole]
    exact Nat.mul_div_cancel_left _ (by decide : 0 < 32)
  rw [hblocks, Nat.add_zero]
  exact ⟨place_mod hrow hj (by omega), index_lt hrow hj⟩

omit hinput in
include hweight hactive in
/-- The weight block is in the row and in the buffer. -/
theorem Sized.weight_place {group : WorkGroup} {i : ℕ} (hi : i < rows) {j : ℕ} (hj : j < blocks) :
    (vulkanOffset op activeExpertIndexes (blocks * rows) group.y group.z + i * blocks + j) %
        uintRange =
        vulkanOffset op activeExpertIndexes (blocks * rows) group.y group.z + i * blocks + j ∧
      vulkanOffset op activeExpertIndexes (blocks * rows) group.y group.z + i * blocks + j <
        dispatch.weightBlocks := by
  have hexpert := vulkanExpert_lt hactive (group.y * op.nActiveExperts + group.z)
  have hplace : vulkanOffset op activeExpertIndexes (blocks * rows) group.y group.z + i * blocks =
      ((if op.nExperts = 0 then 0 else
        activeExpertIndexes (group.y * op.nActiveExperts + group.z)) * rows + i) * blocks := by
    rw [vulkanOffset]
    ring
  have hwhole : max op.nExperts 1 * (32 * blocks) * rows =
      32 * (max op.nExperts 1 * rows * blocks) := by ring
  have hblocks : dispatch.weightBlocks = max op.nExperts 1 * rows * blocks := by
    rw [hs.weightBlocks, Nat.mod_eq_of_lt hweight, hwhole]
    exact Nat.mul_div_cancel_left _ (by decide : 0 < 32)
  have hlt := index_lt (index_lt hexpert hi) hj
  rw [hblocks, hplace]
  exact ⟨Nat.mod_eq_of_lt (by omega), hlt⟩

omit hinput in
include houtput in
/-- The value of the output is in the row and in the buffer. -/
theorem Sized.output_place {group : WorkGroup} (hy : group.y < nBatches)
    (hz : group.z < max op.nActiveExperts 1) {i : ℕ} (hi : i < rows) :
    ((group.z * nBatches + group.y) * rows % uintRange + i) % uintRange =
        (group.z * nBatches + group.y) * rows + i ∧
      (group.z * nBatches + group.y) * rows + i < dispatch.outputValues := by
  have hrow := index_lt hz hy
  rw [hs.outputValues, Nat.mod_eq_of_lt houtput]
  exact ⟨place_mod hrow hi (Nat.le_of_lt houtput), index_lt hrow hi⟩

omit hs hinput in
theorem group_row (hs : Sized nBatches tpSize tpRank op dispatch blocks width start rows)
    {group : WorkGroup} (hx : group.x < dispatch.groupsX) {dt : ℕ} (hdt : dt < tileSizeD) :
    tileSizeD * group.x + dt < rows := by
  rw [hs.groups, Nat.mul_comm, Nat.mul_comm tileSizeD]
  exact index_lt hx hdt

include hweight houtput hactive in
/-- The work groups of a batch stay inside of the buffers. -/
theorem Sized.inBounds {group : WorkGroup} (hx : group.x < dispatch.groupsX)
    (hy : group.y < nBatches) (hz : group.z < max op.nActiveExperts 1) :
    dispatch.InBounds activeExpertIndexes group := by
  constructor
  · intro thread hthread it hit
    have hj : thread + it * dispatch.nThreads < blocks := by
      have hplace := index_lt hit hthread
      rw [Nat.add_comm, hs.threads]
      exact hplace
    constructor
    · obtain ⟨hplace, hlt⟩ := hs.input_place hinput hy hz hj
      rw [hs.xi_eq hy hz, hplace]
      exact hlt
    · intro dt hdt
      obtain ⟨hplace, hlt⟩ := hs.weight_place hweight hactive (group_row hs hx hdt) hj
      rw [hs.wi_eq activeExpertIndexes hy hz, hplace]
      exact hlt
  · intro dt hdt
    obtain ⟨hplace, hlt⟩ := hs.output_place houtput hy hz (group_row hs hx hdt)
    rw [hs.yi_eq hy hz, hplace]
    exact hlt

include hweight hactive in
/-- The value of a work group is the product of its rows. -/
theorem Sized.groupValue_eq (x : ℕ → NnBlockQ80 R) (weight : ℕ → NnBlockQ40 R) {group : WorkGroup}
    (hx : group.x < dispatch.groupsX) (hy : group.y < nBatches)
    (hz : group.z < max op.nActiveExperts 1) {dt : ℕ} (hdt : dt < tileSizeD) :
    dispatch.groupValue activeExpertIndexes x weight group dt =
      rowProduct blocks x weight ((group.z * nBatches + group.y) * blocks + 0)
        (vulkanOffset op activeExpertIndexes (blocks * rows) group.y group.z +
          (tileSizeD * group.x + dt) * blocks) := by
  have hinfo : dispatch.info group = _ := hs.info group.x group.y hy group.z hz
  have hplace : blocks * nBatches * group.z + blocks * group.y =
      (group.z * nBatches + group.y) * blocks := by ring
  rw [dispatch.groupValue_eq, ← hs.threads, rowProduct]
  apply Finset.sum_congr (Eq.refl _)
  intro j hj
  have hjLt := Finset.mem_range.mp hj
  rw [hs.expertOffset_eq activeExpertIndexes hy hz, hinfo, hplace,
    (hs.input_place hinput hy hz hjLt).1,
    (hs.weight_place hweight hactive (group_row hs hx hdt) hjLt).1, shaderProduct_eq, Nat.add_zero]

include hweight houtput hactive in
/-- The graphics device stores the products of whole rows. -/
theorem Sized.run_eq (x : ℕ → NnBlockQ80 R) (weight : ℕ → NnBlockQ40 R) (y : ℕ → R)
    {batchSize : ℕ} (hbatch : batchSize ≤ nBatches) {groups : List WorkGroup}
    (hgroups : groups.Perm (dispatch.workGroups batchSize)) :
    dispatch.run activeExpertIndexes x weight groups y =
      some (storeAll y (productStores nBatches (max op.nActiveExperts 1) rows blocks 0 x weight
        blocks (vulkanOffset op activeExpertIndexes (blocks * rows)) batchSize)) := by
  have hmem : ∀ group, group ∈ groups ↔ group.x < dispatch.groupsX ∧ group.y < batchSize ∧
      group.z < max op.nActiveExperts 1 := by
    intro group
    rw [hgroups.mem_iff, dispatch.mem_workGroups, hs.groupsZ]
  have hinside : ∀ group ∈ groups, dispatch.InBounds activeExpertIndexes group := by
    intro group hgroup
    obtain ⟨hx, hy, hz⟩ := (hmem group).mp hgroup
    exact hs.inBounds hinput hweight houtput hactive hx (Nat.lt_of_lt_of_le hy hbatch) hz
  have hstore : ∀ group ∈ groups, ∀ dt < tileSizeD,
      (dispatch.yi group dt, dispatch.groupValue activeExpertIndexes x weight group dt) =
        ((group.z * nBatches + group.y) * rows + (tileSizeD * group.x + dt),
          rowProduct blocks x weight ((group.z * nBatches + group.y) * blocks + 0)
            (vulkanOffset op activeExpertIndexes (blocks * rows) group.y group.z +
              (tileSizeD * group.x + dt) * blocks)) := by
    intro group hgroup dt hdt
    obtain ⟨hx, hy, hz⟩ := (hmem group).mp hgroup
    have hyLt := Nat.lt_of_lt_of_le hy hbatch
    rw [hs.groupValue_eq hinput hweight hactive x weight hx hyLt hz hdt, hs.yi_eq hyLt hz,
      (hs.output_place houtput hyLt hz (group_row hs hx hdt)).1]
  rw [Dispatch.run, if_pos hinside]
  refine congrArg some (storeAll_eq y ?_ (functional_productStores hbatch))
  intro store
  rw [mem_productStores, Dispatch.stores]
  simp only [List.mem_flatMap, List.mem_map, List.mem_range]
  constructor
  · intro h
    obtain ⟨group, hgroup, dt, hdt, heq⟩ := h
    obtain ⟨hx, hy, hz⟩ := (hmem group).mp hgroup
    exact ⟨group.y, hy, group.z, hz, tileSizeD * group.x + dt, group_row hs hx hdt,
      heq.symm.trans (hstore group hgroup dt hdt)⟩
  · intro h
    obtain ⟨b, hb, e, he, i, hi, heq⟩ := h
    have htile : tileSizeD * (i / tileSizeD) + i % tileSizeD = i := Nat.div_add_mod i tileSizeD
    have hx : i / tileSizeD < dispatch.groupsX := by
      rw [hs.groups] at hi
      exact Nat.div_lt_of_lt_mul hi
    have hgroup : (⟨i / tileSizeD, b, e⟩ : WorkGroup) ∈ groups := (hmem _).mpr ⟨hx, hb, he⟩
    have hdt : i % tileSizeD < tileSizeD := Nat.mod_lt i (by decide)
    refine ⟨_, hgroup, i % tileSizeD, hdt, ?_⟩
    rw [hstore _ hgroup _ hdt, heq]
    simp only [htile]

end Fitting

/-- Both devices take the same expert, when without active experts there is one at most. -/
theorem vulkanOffset_eq {activeExpertIndexes : ℕ → ℕ}
    (hactive : 0 < op.nExperts → ∀ i, activeExpertIndexes i < op.nExperts)
    (hnone : op.nExperts = 0 → op.nActiveExperts = 0)
    (hone : op.nActiveExperts = 0 → op.nExperts ≤ 1) (plane : ℕ) :
    vulkanOffset op activeExpertIndexes plane = cpuOffset op activeExpertIndexes plane := by
  funext y e
  rw [vulkanOffset, cpuOffset]
  by_cases hzero : op.nExperts = 0
  · rw [if_pos hzero, if_pos (hnone hzero)]
  · rw [if_neg hzero]
    by_cases hunused : op.nActiveExperts = 0
    · have hle := hone hunused
      have hlt := hactive (by omega) (y * op.nActiveExperts + e)
      have hfirst : activeExpertIndexes (y * op.nActiveExperts + e) = 0 := by omega
      rw [if_pos hunused, hfirst]
    · rw [if_neg hunused]

section Inside

variable (hs : Sized nBatches tpSize tpRank op dispatch blocks width start rows)
  (hinside : ∀ activeExpertIndexes : ℕ → ℕ,
    (0 < op.nExperts → ∀ i, activeExpertIndexes i < op.nExperts) →
      ∀ group ∈ dispatch.workGroups nBatches, dispatch.InBounds activeExpertIndexes group)
include hs

theorem Sized.width_le : width ≤ blocks := by
  rw [hs.width_eq]
  cases op.inputType with
  | raw => exact Nat.le_refl blocks
  | batch => exact Nat.le_refl blocks
  | batchedSlice => exact Nat.div_le_self blocks tpSize

/-- A block of a row is a block of one of the invocations. -/
theorem Sized.exists_thread {j : ℕ} (hj : j < blocks) : ∃ thread < dispatch.nThreads,
    ∃ it < tileSizeX, thread + it * dispatch.nThreads = j := by
  have hthreads := hs.threads
  have hpos : 0 < dispatch.nThreads := by omega
  refine ⟨j % dispatch.nThreads, Nat.mod_lt j hpos, j / dispatch.nThreads, ?_, ?_⟩
  · have htile : tileSizeX = 2 := Eq.refl _
    rw [Nat.div_lt_iff_lt_mul hpos, htile, ← hthreads]
    exact hj
  · rw [Nat.mul_comm]
    exact Nat.mod_add_div j dispatch.nThreads

include hinside in
/-- The shader reads all rows of all experts, each as far as a row of the input is long. -/
theorem Sized.weight_read {e i j : ℕ} (he : e < max op.nExperts 1) (hi : i < rows)
    (hj : j < blocks) :
    (e * (width * rows) + i * width + j) % uintRange < dispatch.weightBlocks := by
  have hactive : 0 < op.nExperts → ∀ _ : ℕ, e < op.nExperts := by omega
  have htile : tileSizeD * (i / tileSizeD) + i % tileSizeD = i := Nat.div_add_mod i tileSizeD
  have hx : i / tileSizeD < dispatch.groupsX := by
    rw [hs.groups] at hi
    exact Nat.div_lt_of_lt_mul hi
  have hz : 0 < max op.nActiveExperts 1 := by omega
  have hgroup : (⟨i / tileSizeD, 0, 0⟩ : WorkGroup) ∈ dispatch.workGroups nBatches := by
    rw [dispatch.mem_workGroups, hs.groupsZ]
    exact ⟨hx, hs.nBatches_pos, hz⟩
  have hoffset : vulkanOffset op (fun _ => e) (width * rows) 0 0 = e * (width * rows) := by
    rw [vulkanOffset]
    by_cases hzero : op.nExperts = 0
    · have hfirst : e = 0 := by omega
      rw [if_pos hzero, hfirst]
    · rw [if_neg hzero]
  obtain ⟨thread, hthread, it, hit, hsum⟩ := hs.exists_thread hj
  have hread := ((hinside (fun _ => e) hactive _ hgroup).1 thread hthread it hit).2
    (i % tileSizeD) (Nat.mod_lt i (by decide))
  rw [hs.wi_eq (fun _ => e) hs.nBatches_pos hz] at hread
  simp only [htile, hsum, hoffset] at hread
  exact hread

include hinside in
/-- The weight fits and whole rows are seen. -/
theorem Sized.weight_fits :
    max op.nExperts 1 * (32 * width) * rows < uintRange ∧ width = blocks := by
  have hwidth := hs.width_pos
  have hrows := hs.rows_pos
  have hplane : 0 < width * rows := Nat.mul_pos hwidth hrows
  have hwhole : max op.nExperts 1 * (32 * width) * rows =
      32 * (max op.nExperts 1 * (width * rows)) := by ring
  have hbound := hs.weightBlocks
  rw [hwhole] at hbound
  have hfits : max op.nExperts 1 * (32 * width) * rows < uintRange := by
    by_contra hwrap
    have hlt : dispatch.weightBlocks < max op.nExperts 1 * (width * rows) := by
      rw [hwhole, uintRange] at hwrap
      rw [hbound, uintRange]
      omega
    have he : dispatch.weightBlocks / (width * rows) < max op.nExperts 1 :=
      Nat.div_lt_of_lt_mul (by rw [Nat.mul_comm]; exact hlt)
    have hi : dispatch.weightBlocks % (width * rows) / width < rows :=
      Nat.div_lt_of_lt_mul (Nat.mod_lt _ hplane)
    have hj : dispatch.weightBlocks % (width * rows) % width < blocks :=
      Nat.lt_of_lt_of_le (Nat.mod_lt _ hwidth) hs.width_le
    have hread := hs.weight_read hinside he hi hj
    have hplace : dispatch.weightBlocks / (width * rows) * (width * rows) +
        dispatch.weightBlocks % (width * rows) / width * width +
          dispatch.weightBlocks % (width * rows) % width = dispatch.weightBlocks := by
      rw [Nat.add_assoc, Nat.div_add_mod', Nat.div_add_mod']
    have hword : dispatch.weightBlocks < uintRange := by
      rw [hbound, uintRange]
      omega
    rw [hplace, Nat.mod_eq_of_lt hword] at hread
    omega
  refine ⟨hfits, ?_⟩
  by_contra hne
  have hless : width < blocks := Nat.lt_of_le_of_ne hs.width_le hne
  rw [Nat.mod_eq_of_lt (hwhole ▸ hfits), Nat.mul_div_cancel_left _ (by decide : 0 < 32)] at hbound
  have hlast := hs.weight_read hinside (Nat.sub_one_lt (by omega : max op.nExperts 1 ≠ 0))
    (Nat.sub_one_lt (by omega : rows ≠ 0)) hless
  have hrowEnd : (rows - 1) * width + width = width * rows := by
    rw [← Nat.succ_mul, Nat.succ_eq_add_one, Nat.sub_add_cancel hrows, Nat.mul_comm]
  have hplaneEnd : (max op.nExperts 1 - 1) * (width * rows) + width * rows =
      max op.nExperts 1 * (width * rows) := by
    rw [← Nat.succ_mul, Nat.succ_eq_add_one, Nat.sub_add_cancel (by omega)]
  have hend : (max op.nExperts 1 - 1) * (width * rows) + (rows - 1) * width + width =
      dispatch.weightBlocks := by omega
  rw [hend, Nat.mod_eq_of_lt (by omega)] at hlast
  omega

include hinside in
/-- The input fits, when it has whole rows. -/
theorem Sized.input_fits (hwidth : width = blocks) (hstart : start = 0) :
    max op.nActiveExperts 1 * nBatches * (32 * blocks) < uintRange := by
  by_contra hwrap
  have hpos : 0 < blocks := hwidth ▸ hs.width_pos
  have hwhole : max op.nActiveExperts 1 * nBatches * (32 * blocks) =
      32 * (max op.nActiveExperts 1 * nBatches * blocks) := by ring
  have hbound := hs.inputBlocks
  have hlt : dispatch.inputBlocks < max op.nActiveExperts 1 * nBatches * blocks := by
    rw [hwhole, uintRange] at hwrap
    rw [hbound, hwhole, uintRange]
    omega
  have hword : dispatch.inputBlocks < uintRange := by
    have hle : dispatch.inputBlocks < uintRange / 32 := by
      rw [hbound, uintRange]
      omega
    exact Nat.lt_of_lt_of_le hle (Nat.div_le_self _ _)
  have hrow : dispatch.inputBlocks / blocks < max op.nActiveExperts 1 * nBatches :=
    Nat.div_lt_of_lt_mul (by rw [Nat.mul_comm]; exact hlt)
  have hz : dispatch.inputBlocks / blocks / nBatches < max op.nActiveExperts 1 :=
    Nat.div_lt_of_lt_mul (by rw [Nat.mul_comm]; exact hrow)
  have hy : dispatch.inputBlocks / blocks % nBatches < nBatches := Nat.mod_lt _ hs.nBatches_pos
  have hx : 0 < dispatch.groupsX := by
    have hgroups := hs.groups
    have hrows := hs.rows_pos
    apply Nat.pos_of_ne_zero
    intro hzero
    rw [hzero, Nat.mul_zero] at hgroups
    omega
  have hgroup : (⟨0, dispatch.inputBlocks / blocks % nBatches,
      dispatch.inputBlocks / blocks / nBatches⟩ : WorkGroup) ∈ dispatch.workGroups nBatches := by
    rw [dispatch.mem_workGroups, hs.groupsZ]
    exact ⟨hx, hy, hz⟩
  obtain ⟨thread, hthread, it, hit, hsum⟩ := hs.exists_thread (Nat.mod_lt dispatch.inputBlocks hpos)
  have hactive : 0 < op.nExperts → ∀ _ : ℕ, 0 < op.nExperts := fun h _ => h
  have hread := ((hinside (fun _ => 0) hactive _ hgroup).1 thread hthread it hit).1
  rw [hs.xi_eq hy hz] at hread
  simp only [hsum, hstart, Nat.add_zero, Nat.div_add_mod'] at hread
  have hstartLt : dispatch.inputBlocks / blocks * blocks < uintRange :=
    Nat.lt_of_le_of_lt (Nat.div_mul_le_self _ _) hword
  rw [Nat.mod_eq_of_lt hstartLt, Nat.div_add_mod', Nat.mod_eq_of_lt hword] at hread
  omega

include hinside in
/-- The output fits. -/
theorem Sized.output_fits : max op.nActiveExperts 1 * nBatches * rows < uintRange := by
  by_contra hwrap
  have hrows := hs.rows_pos
  have hword : dispatch.outputValues < uintRange := by
    rw [hs.outputValues]
    exact Nat.mod_lt _ (by decide)
  have hlt : dispatch.outputValues < max op.nActiveExperts 1 * nBatches * rows := by omega
  have hrow : dispatch.outputValues / rows < max op.nActiveExperts 1 * nBatches :=
    Nat.div_lt_of_lt_mul (by rw [Nat.mul_comm]; exact hlt)
  have hz : dispatch.outputValues / rows / nBatches < max op.nActiveExperts 1 :=
    Nat.div_lt_of_lt_mul (by rw [Nat.mul_comm]; exact hrow)
  have hy : dispatch.outputValues / rows % nBatches < nBatches := Nat.mod_lt _ hs.nBatches_pos
  have hi : dispatch.outputValues % rows < rows := Nat.mod_lt _ hrows
  have hx : dispatch.outputValues % rows / tileSizeD < dispatch.groupsX := by
    apply Nat.div_lt_of_lt_mul
    rw [← hs.groups]
    exact hi
  have htile : tileSizeD * (dispatch.outputValues % rows / tileSizeD) +
      dispatch.outputValues % rows % tileSizeD = dispatch.outputValues % rows :=
    Nat.div_add_mod _ tileSizeD
  have hgroup : (⟨dispatch.outputValues % rows / tileSizeD,
      dispatch.outputValues / rows % nBatches, dispatch.outputValues / rows / nBatches⟩ :
        WorkGroup) ∈ dispatch.workGroups nBatches := by
    rw [dispatch.mem_workGroups, hs.groupsZ]
    exact ⟨hx, hy, hz⟩
  have hactive : 0 < op.nExperts → ∀ _ : ℕ, 0 < op.nExperts := fun h _ => h
  have hstore := (hinside (fun _ => 0) hactive _ hgroup).2
    (dispatch.outputValues % rows % tileSizeD) (Nat.mod_lt _ (by decide))
  rw [hs.yi_eq hy hz] at hstore
  simp only [htile, Nat.div_add_mod'] at hstore
  have hstartLt : dispatch.outputValues / rows * rows < uintRange :=
    Nat.lt_of_le_of_lt (Nat.div_mul_le_self _ _) hword
  rw [Nat.mod_eq_of_lt hstartLt, Nat.div_add_mod', Nat.mod_eq_of_lt hword] at hstore
  omega

end Inside

/-- One block of the input has a number. -/
def oneInput : ℕ → NnBlockQ80 R := fun l =>
  ⟨if l = 0 then 1 else 0, fun k => if k = firstHalf 0 then 1 else 0⟩

/-- All blocks of a weight from one on have numbers. -/
def laterWeight (first : ℕ) : ℕ → NnBlockQ40 R := fun l =>
  ⟨if first ≤ l then 1 else 0, fun _ => 9⟩

theorem blockProduct_later {first l : ℕ} (hl : l < first) (xb : NnBlockQ80 R) :
    blockProduct (laterWeight first l) xb = 0 := by
  have hscale : (laterWeight first l : NnBlockQ40 R).d = 0 := if_neg (by omega)
  rw [blockProduct]
  simp only [hscale, zero_mul, mul_zero, Finset.sum_const_zero]

theorem blockProduct_zero {l : ℕ} (hl : l ≠ 0) (wb : NnBlockQ40 R) :
    blockProduct wb (oneInput l) = 0 := by
  have hscale : (oneInput l : NnBlockQ80 R).d = 0 := if_neg hl
  rw [blockProduct]
  simp only [hscale, mul_zero, Finset.sum_const_zero]

theorem blockProduct_one {first l : ℕ} (hl : first ≤ l) :
    blockProduct (laterWeight first l) (oneInput 0 : NnBlockQ80 R) = 1 := by
  have hweight : (laterWeight first l : NnBlockQ40 R).d = 1 := if_pos hl
  have hinput : (oneInput 0 : NnBlockQ80 R).d = 1 := by simp [oneInput]
  have hterm : ∀ k : Fin 16, lowNumber ((laterWeight first l : NnBlockQ40 R).qs k) *
      ((oneInput 0 : NnBlockQ80 R).qs (firstHalf k)).toInt +
        highNumber ((laterWeight first l : NnBlockQ40 R).qs k) *
          ((oneInput 0 : NnBlockQ80 R).qs (secondHalf k)).toInt = if k = 0 then 1 else 0 := by
    intro k
    have hsame : ∀ k : Fin 16, lowNumber 9 * (if firstHalf k = firstHalf 0 then (1 : Int8)
        else 0).toInt + highNumber 9 * (if secondHalf k = firstHalf 0 then (1 : Int8)
        else 0).toInt = if k = 0 then 1 else 0 := by decide
    exact hsame k
  rw [blockProduct, hweight, hinput]
  simp only [hterm]
  simp

/-- With active experts left out, the devices differ on a weight that only one expert has. -/
theorem rowProduct_later {width first : ℕ} (hwidth : 0 < width) {l : ℕ} (hl : first ≤ l) :
    rowProduct width oneInput (laterWeight first : ℕ → NnBlockQ40 R) 0 l = 1 := by
  rw [rowProduct, Finset.sum_eq_single_of_mem 0 (Finset.mem_range.mpr hwidth)]
  · exact blockProduct_one hl
  · intro j _ hj
    rw [Nat.zero_add]
    exact blockProduct_zero hj _

theorem rowProduct_before {width first : ℕ} (hfirst : width ≤ first) :
    rowProduct width oneInput (laterWeight first : ℕ → NnBlockQ40 R) 0 0 = 0 := by
  apply Finset.sum_eq_zero
  intro j hj
  have hlt := Finset.mem_range.mp hj
  rw [Nat.zero_add]
  exact blockProduct_later (by omega) _

/-- Without active experts and with whole rows that fit, there is one expert at most. -/
theorem Sized.oneExpert [Nontrivial R]
    (hs : Sized nBatches tpSize tpRank op dispatch blocks blocks 0 rows)
    (hsame : ∀ activeExpertIndexes : ℕ → ℕ,
      (0 < op.nExperts → ∀ i, activeExpertIndexes i < op.nExperts) →
        ∀ (x : ℕ → NnBlockQ80 R) (weight : ℕ → NnBlockQ40 R) (y : ℕ → R),
          storeAll y (productStores nBatches (max op.nActiveExperts 1) rows blocks 0 x weight blocks
            (vulkanOffset op activeExpertIndexes (blocks * rows)) nBatches) =
          storeAll y (productStores nBatches (max op.nActiveExperts 1) rows blocks 0 x weight blocks
            (cpuOffset op activeExpertIndexes (blocks * rows)) nBatches))
    (hnone : op.nActiveExperts = 0) : op.nExperts ≤ 1 := by
  by_contra hmany
  have hrows := hs.rows_pos
  have hpos := hs.width_pos
  have hfirst : blocks ≤ blocks * rows := Nat.le_mul_of_pos_right blocks hrows
  have hactive : 0 < op.nExperts → ∀ _ : ℕ, 1 < op.nExperts := by omega
  have hplane : 0 < max op.nActiveExperts 1 := by omega
  have hvalue : ∀ offset : ℕ → ℕ → ℕ, storeAll (fun _ => (0 : R))
      (productStores nBatches (max op.nActiveExperts 1) rows blocks 0 oneInput
        (laterWeight (blocks * rows)) blocks offset nBatches) 0 =
      rowProduct blocks oneInput (laterWeight (blocks * rows)) 0 (offset 0 0) := by
    intro offset
    have hmem : ((0, rowProduct blocks oneInput (laterWeight (blocks * rows)) 0 (offset 0 0)) :
        ℕ × R) ∈ productStores nBatches (max op.nActiveExperts 1) rows blocks 0 oneInput
          (laterWeight (blocks * rows)) blocks offset nBatches := by
      rw [mem_productStores]
      refine ⟨0, hs.nBatches_pos, 0, hplane, 0, hrows, ?_⟩
      simp only [Nat.zero_mul, Nat.add_zero]
    exact storeAll_of_mem _
      (fun v' hv' => functional_productStores (Nat.le_refl nBatches) 0 v' _ hv' hmem) hmem
  have hequal := congrFun (hsame (fun _ => 1) hactive oneInput (laterWeight (blocks * rows))
    fun _ => 0) 0
  have hvulkan : vulkanOffset op (fun _ => 1) (blocks * rows) 0 0 = blocks * rows := by
    rw [vulkanOffset, if_neg (by omega), Nat.one_mul]
  have hcpu : cpuOffset op (fun _ => 1) (blocks * rows) 0 0 = 0 := by
    rw [cpuOffset, if_pos hnone, Nat.zero_mul]
  rw [hvalue, hvalue, hvulkan, hcpu, rowProduct_later hpos (Nat.le_refl _),
    rowProduct_before hfirst] at hequal
  exact one_ne_zero hequal

/-- The products of an accepted operation are the same exactly when whole rows are seen, words count
all values, and without active experts there is one expert at most. -/
theorem Accepted.agree_iff [Nontrivial R]
    (h : Accepted nBatches tpSize tpRank op dispatch input output) (hop : Quantized op)
    (hrank : tpRank < tpSize) :
    MatmulsAgree nBatches op R dispatch input output ↔ Agreeing tpSize op := by
  have hs := h.sized hop
  have hstart : (op.inputType = .batchedSlice → tpSize = 1) →
      startOf tpSize tpRank (op.inputSize.x / 32) op.inputType = 0 := by
    intro hwhole
    cases htype : op.inputType with
    | raw => exact absurd htype hop.inputType
    | batch => exact Eq.refl _
    | batchedSlice =>
      have hone := hwhole htype
      have hzero : tpRank = 0 := by omega
      rw [startOf, hzero, Nat.mul_zero]
  have hplane : ∀ {width : ℕ}, op.weightSize.y * op.weightSize.x = 32 * (width * op.weightSize.x) →
      max op.nExperts 1 * (32 * width) * op.weightSize.x < uintRange →
        op.weightSize.y * op.weightSize.x % uintRange / 32 = width * op.weightSize.x := by
    intro width heq hfits
    have hle : 32 * (width * op.weightSize.x) ≤
        max op.nExperts 1 * (32 * (width * op.weightSize.x)) :=
      Nat.le_mul_of_pos_left _ (by omega)
    have hassoc : max op.nExperts 1 * (32 * (width * op.weightSize.x)) =
        max op.nExperts 1 * (32 * width) * op.weightSize.x := by ring
    rw [heq, Nat.mod_eq_of_lt (by omega)]
    exact Nat.mul_div_cancel_left _ (by decide : 0 < 32)
  constructor
  · intro hagree
    have hinside : ∀ activeExpertIndexes : ℕ → ℕ,
        (0 < op.nExperts → ∀ i, activeExpertIndexes i < op.nExperts) →
          ∀ group ∈ dispatch.workGroups nBatches, dispatch.InBounds activeExpertIndexes group := by
      intro activeExpertIndexes hactive
      by_contra hout
      have hrun := hagree nBatches (Nat.le_refl _) activeExpertIndexes oneInput (laterWeight 0)
        (fun _ => 0) hactive _ (List.Perm.refl _)
      rw [Dispatch.run, if_neg hout] at hrun
      cases hrun
    obtain ⟨hweight, hwidth⟩ := hs.weight_fits hinside
    have hwhole : op.inputType = .batchedSlice → tpSize = 1 := by
      intro htype
      have hpart := hs.width_eq
      have hpos := hs.width_pos
      rw [htype, widthOf, hwidth] at hpart
      by_contra hne
      have hless := Nat.div_lt_self (by omega : 0 < op.inputSize.x / 32) (by omega : 1 < tpSize)
      omega
    have hinputFits := hs.input_fits hinside hwidth (hstart hwhole)
    have houtputFits := hs.output_fits hinside
    refine ⟨hwhole, hs.inputFits.mpr hinputFits, hs.weightFits.mpr hweight,
      hs.outputFits.mpr houtputFits, ?_⟩
    have hcpuPlane := hplane hs.plane hweight
    have hzero := hstart hwhole
    rw [hwidth] at hweight hcpuPlane
    have hs' := hs
    rw [hwidth, hzero] at hs'
    apply hs'.oneExpert (R := R)
    intro activeExpertIndexes hactive x weight y
    have hrun := hagree nBatches (Nat.le_refl _) activeExpertIndexes x weight y hactive _
      (List.Perm.refl _)
    rw [hs'.run_eq hinputFits hweight houtputFits hactive x weight y (Nat.le_refl _)
      (List.Perm.refl _), h.cpu_stores hop (Nat.le_refl _), hzero, hcpuPlane, hwidth] at hrun
    injection hrun
  · intro hagreeing batchSize hbatch activeExpertIndexes x weight y hactive groups hgroups
    have hzero := hstart hagreeing.wholeRows
    have hwidth : op.weightSize.y / 32 = op.inputSize.x / 32 := by
      rw [hs.width_eq]
      cases htype : op.inputType with
      | raw => exact Eq.refl _
      | batch => exact Eq.refl _
      | batchedSlice => rw [widthOf, hagreeing.wholeRows htype, Nat.div_one]
    have hinputFits := hs.inputFits.mp hagreeing.inputFits
    have houtputFits := hs.outputFits.mp hagreeing.outputFits
    have hweight := hs.weightFits.mp hagreeing.weightFits
    have hcpuPlane := hplane hs.plane hweight
    rw [hwidth] at hweight hcpuPlane
    have hs' := hs
    rw [hwidth, hzero] at hs'
    rw [hs'.run_eq hinputFits hweight houtputFits hactive x weight y hbatch hgroups,
      h.cpu_stores hop hbatch, hzero, hcpuPlane, hwidth,
      vulkanOffset_eq hactive hs.noExperts hagreeing.oneExpert]

end Kernels

end LayerSkip.VulkanMatmul
