import LayerSkip.MoeKernels
import LayerSkip.WeightDelivery
import Mathlib.Analysis.SpecialFunctions.Exp
import Mathlib.Data.List.GetD

/-!
# The block of experts

The operations that the builder emits for the feed-forward block of a mixture of experts, run one
after the other. Every row should become the weighted sum of what its selected experts make of it.
A product of one active expert can take the fast path, which uses the first expert of the weight.
-/

namespace LayerSkip.MoeBlock

open NnPipeline NnCore NnCpu LlmGraph RowLoops MoeKernels WeightLoader

/-- Run operations one after the other. -/
def forwardOps {F : Type*} [Field F] [LinearOrder F] [FloorSemiring F] (e : Exponential F)
    (s : StdSort F) (llamafile_sgemm : ℕ → ℕ → ℕ → NnSize3D → NnSize3D → Bool)
    (weights : String → ℕ → F) (b : NnNodeBuilder) (nBatches batchSize : ℕ) :
    List NnOpConfig → NnMemory F → Option (NnMemory F)
  | [], m => some m
  | op :: ops, m =>
    (createContext b nBatches op).bind fun c =>
      (opForward e s c batchSize m llamafile_sgemm weights).bind
        (forwardOps e s llamafile_sgemm weights b nBatches batchSize ops)

/-- The device takes the operations. -/
def Accepts (b : NnNodeBuilder) (nBatches : ℕ) (ops : List NnOpConfig) : Prop :=
  ∀ op ∈ ops, (createContext b nBatches op).isSome

instance (b : NnNodeBuilder) (nBatches : ℕ) (ops : List NnOpConfig) :
    Decidable (Accepts b nBatches ops) := inferInstanceAs (Decidable (∀ op ∈ ops, _))

section Sizes

variable {b : NnNodeBuilder} {nBatches layerIndex : ℕ}

variable (nBatches) in
/-- Buffers of the block. -/
theorem bufferSize_eq (hq : b.n.header.syncType = .q80) :
    bufferSize b nBatches .y = some (size2D .f32 nBatches b.n.header.dim) ∧
      bufferSize b nBatches .gt = some (size2D .f32 nBatches (max b.n.header.nExperts 1)) ∧
      bufferSize b nBatches .actExpIx =
        some (size2D .f32 nBatches (max b.n.header.nActiveExperts 1)) ∧
      bufferSize b nBatches .moeY =
        some (size3D .f32 (max b.n.header.nActiveExperts 1) nBatches b.n.header.dim) ∧
      bufferSize b nBatches .qMoeY =
        some (size3D .q80 (max b.n.header.nActiveExperts 1) nBatches b.n.header.dim) ∧
      bufferSize b nBatches .moeD =
        some (size3D .f32 (max b.n.header.nActiveExperts 1) nBatches b.n.w1Slice.d0) ∧
      bufferSize b nBatches .qMoeD =
        some (size3D .q80 (max b.n.header.nActiveExperts 1) nBatches b.n.w1Slice.d0) ∧
      bufferSize b nBatches .moeL =
        some (size3D .f32 (max b.n.header.nActiveExperts 1) nBatches b.n.w3Slice.d0) ∧
      bufferSize b nBatches .moeS =
        some (size3D .f32 (max b.n.header.nActiveExperts 1) nBatches 1) := by
  simp [bufferSize, NnNodeBuilder.buffers, LlmShape.Quantized, hq]

/-- The device takes the repetition only with a sync type of `F_Q80`. -/
theorem syncType_of_accepts (h : Accepts b nBatches (b.moeOps layerIndex)) :
    b.n.header.syncType = .q80 := by
  have hfirst := h _ List.mem_cons_self
  cases hs : b.n.header.syncType with
  | q80 => exact Eq.refl _
  | f32 =>
    simp [createContext, pointerBatchConfig, bufferSize, NnNodeBuilder.buffers, LlmShape.Quantized,
      LlmShape.moeYqBuffer, hs, size2D, size3D, getOpQuantType, hasCpuOpForward, size0] at hfirst
  | f16 =>
    simp [createContext, pointerBatchConfig, bufferSize, NnNodeBuilder.buffers, LlmShape.Quantized,
      LlmShape.moeYqBuffer, hs, size2D, size3D, getOpQuantType, hasCpuOpForward, size0] at hfirst
  | q40 =>
    simp [createContext, pointerBatchConfig, bufferSize, NnNodeBuilder.buffers, LlmShape.Quantized,
      LlmShape.moeYqBuffer, hs, size2D, size3D, getOpQuantType, hasCpuOpForward, size0] at hfirst

/-- Extents of the weights of experts. -/
structure ExpertShape (n : LlmShape) : Prop where
  /-- Values that the gate of an expert takes. -/
  gateIn : n.w1Slice.n = n.header.dim
  /-- Values that the gate of an expert gives. -/
  gateOut : n.w1Slice.d0 = n.header.moeHiddenDim
  /-- Values that the other factor takes. -/
  factorIn : n.w3Slice.n = n.header.dim
  /-- Values that the other factor gives. -/
  factorOut : n.w3Slice.d0 = n.header.moeHiddenDim
  /-- Values that the output takes. -/
  outputIn : n.w2Slice.n0 = n.header.moeHiddenDim
  /-- Values that the output gives. -/
  outputOut : n.w2Slice.d = n.header.dim

variable (nBatches) in
/-- On one node every slice is the whole weight. -/
theorem expertShape {h : LlmHeader} {n : LlmShape} (hn : buildShape h 1 nBatches = .ok n)
    (harch : h.archType = .qwen3Moe) : ExpertShape n := by
  have ⟨hheader, _, _, _, _, _, hw1, hw2, hw3, _⟩ := buildShape_ok hn
  have ⟨_, _, _, hslice1⟩ := sliceRowMatmul_ok hw1
  have ⟨_, _, _, hslice2⟩ := sliceColMatmul_ok hw2
  have ⟨_, _, _, hslice3⟩ := sliceRowMatmul_ok hw3
  have hff : ffDim h = h.moeHiddenDim := if_pos harch
  rw [hff] at hslice1 hslice2 hslice3
  constructor
  · rw [hslice1, hheader]
  · rw [hslice1, hheader]
    exact Nat.div_one _
  · rw [hslice3, hheader]
  · rw [hslice3, hheader]
    exact Nat.div_one _
  · rw [hslice2, hheader]
    exact Nat.div_one _
  · rw [hslice2, hheader]

/-- A context of an operation from rows of `n` values to rows of `d`. -/
def rowsContext (op : NnOpConfig) (nBatches : ℕ) (input : NnBuffer) (inputType : NnFloatType)
    (zIn n : ℕ) (output : NnBuffer) (outputType : NnFloatType) (z d : ℕ) : NnCpuOpContext :=
  ⟨op, nBatches, input, size3D inputType zIn nBatches n, output, size3D outputType z nBatches d⟩

/-- The context of an operation that the device takes. -/
theorem createContext_eq {op : NnOpConfig} {input output : NnBuffer}
    {inputType outputType : NnFloatType} {zIn n z d : ℕ}
    (hin : op.input = pointerBatchConfig (.buffer input))
    (hout : op.output = pointerBatchConfig (.buffer output))
    (hinput : bufferSize b nBatches input = some (size3D inputType zIn nBatches n))
    (houtput : bufferSize b nBatches output = some (size3D outputType z nBatches d))
    (h : (createContext b nBatches op).isSome) :
    createContext b nBatches op =
        some (rowsContext op nBatches input inputType zIn n output outputType z d) ∧
      (rowsContext op nBatches input inputType zIn n output outputType z d).Checked := by
  obtain ⟨c, hc⟩ := Option.isSome_iff_exists.mp h
  rw [hc]
  unfold createContext at hc
  rw [hin, hout] at hc
  unfold pointerBatchConfig at hc
  dsimp only at hc
  rw [hinput, houtput, Option.bind_eq_bind, Option.bind_some, Option.bind_eq_bind,
    Option.bind_some] at hc
  obtain ⟨_, _, hc⟩ := Option.bind_eq_some_iff.mp hc
  obtain ⟨_, _, hc⟩ := Option.bind_eq_some_iff.mp hc
  obtain ⟨quant, _, hc⟩ := Option.bind_eq_some_iff.mp hc
  by_cases htaken : (size3D inputType zIn nBatches n).y = nBatches ∧
      (size3D outputType z nBatches d).y = nBatches ∧ hasCpuOpForward op.code quant ∧
      (rowsContext op nBatches input inputType zIn n output outputType z d).Checked
  · unfold rowsContext at htaken ⊢
    rw [if_pos htaken] at hc
    exact ⟨hc.symm, htaken.2.2.2⟩
  · unfold rowsContext at htaken
    rw [if_neg htaken] at hc
    cases hc

end Sizes

section Runs

variable {F : Type*} [Field F] [LinearOrder F] [FloorSemiring F]
  (e : Exponential F) (s : StdSort F)
  (llamafile_sgemm : ℕ → ℕ → ℕ → NnSize3D → NnSize3D → Bool) (weights : String → ℕ → F)
  (b : NnNodeBuilder) (nBatches batchSize layerIndex : ℕ)

theorem forwardOps_append (before after : List NnOpConfig) (m : NnMemory F) :
    forwardOps e s llamafile_sgemm weights b nBatches batchSize (before ++ after) m =
      (forwardOps e s llamafile_sgemm weights b nBatches batchSize before m).bind
        (forwardOps e s llamafile_sgemm weights b nBatches batchSize after) := by
  induction before generalizing m with
  | nil => exact Eq.refl _
  | cons op before ih =>
    rw [List.cons_append, forwardOps, forwardOps]
    cases createContext b nBatches op with
    | none => exact Eq.refl _
    | some c =>
      rw [Option.bind_some, Option.bind_some]
      cases opForward e s c batchSize m llamafile_sgemm weights with
      | none => exact Eq.refl _
      | some m' => exact ih m'

/-- Weight of an expert for a row. -/
def gateValue (x : ℕ → F) (expert : ℕ) : F :=
  e.expf (matmul_F32 (weights "block_moe_gate") x b.n.header.dim expert) /
    ∑ other ∈ Finset.range b.n.header.nExperts,
      e.expf (matmul_F32 (weights "block_moe_gate") x b.n.header.dim other)

/-- As many experts as are active, with the largest weights. -/
structure Chosen (gate : ℕ → F) (nExperts nActiveExperts : ℕ) (chosen : List ℕ) : Prop where
  /-- All are different. -/
  nodup : chosen.Nodup
  /-- As many as are active. -/
  length_eq : chosen.length = nActiveExperts
  /-- They are experts. -/
  lt : ∀ expert ∈ chosen, expert < nExperts
  /-- No other one has a larger weight. -/
  largest : ∀ expert ∈ chosen, ∀ other < nExperts, other ∉ chosen → gate other ≤ gate expert

/-- A row of a weight of the experts. Experts lie one after the other. -/
def expertMatmul (name : String) (n d expert : ℕ) (x : ℕ → F) : ℕ → F :=
  matmul_F32 (fun l => weights name (expert * (n * d % 2 ^ 32) + l)) x n

/-- What three experts make of a row, each with one of its weights. -/
def mixedForward (gate factor output : ℕ) (x : ℕ → F) : ℕ → F :=
  let h := b.n.header
  expertMatmul weights "block_matmul_w2" h.moeHiddenDim h.dim output fun i =>
    silu_F32 e (expertMatmul weights "block_matmul_w1" h.dim h.moeHiddenDim gate x i) *
      expertMatmul weights "block_matmul_w3" h.dim h.moeHiddenDim factor x i

/-- What an expert makes of a row. -/
def feedForward (expert : ℕ) (x : ℕ → F) : ℕ → F := mixedForward e weights b expert expert expert x

/-- The block leaves in every row the sum of what the selected experts make of it, weighted by their
shares in the weights of the selected ones. -/
def MoeComputes : Prop :=
  ∀ (weights : String → ℕ → F) (m : NnMemory F), ∃ m',
    forwardOps e s llamafile_sgemm weights b nBatches batchSize (b.moeOps layerIndex) m = some m' ∧
      ∀ row < batchSize, ∃ chosen,
        Chosen (gateValue e weights b (rowOf m .y b.n.header.dim row)) b.n.header.nExperts
          b.n.header.nActiveExperts chosen ∧
        ∀ i < b.n.header.dim, rowOf m' .y b.n.header.dim row i =
          (chosen.map fun expert =>
            gateValue e weights b (rowOf m .y b.n.header.dim row) expert /
                (chosen.map (gateValue e weights b (rowOf m .y b.n.header.dim row))).sum *
              feedForward e weights b expert (rowOf m .y b.n.header.dim row) i).sum

/-- The fast path takes the products of the experts from rows of `n` values to rows of `d`. -/
def FastProduct (n d : ℕ) : Prop :=
  b.n.header.nActiveExperts = 1 ∧
    llamafile_sgemm d batchSize (n / q80BlockSize)
      (size3D b.n.header.weightType b.n.header.nExperts n d)
      (size3D b.n.header.syncType b.n.header.nActiveExperts nBatches n) = true

instance (n d : ℕ) : Decidable (FastProduct llamafile_sgemm b nBatches batchSize n d) :=
  inferInstanceAs (Decidable (_ ∧ _))

/-- The expert whose weights a product uses. -/
def usedIn (n d expert : ℕ) : ℕ :=
  if FastProduct llamafile_sgemm b nBatches batchSize n d then 0 else expert

variable {e s llamafile_sgemm weights b nBatches batchSize layerIndex}

/-- What the operations before the experts leave. -/
structure Gated (e : Exponential F) (weights : String → ℕ → F) (b : NnNodeBuilder)
    (nBatches batchSize : ℕ) (m m' : NnMemory F) : Prop where
  /-- Every expert has a copy of the row. -/
  factor : ∀ z < b.n.header.nActiveExperts, ∀ y < batchSize, ∀ i < b.n.header.dim,
    rowOf m' .qMoeY b.n.header.dim (z * nBatches + y) i = rowOf m .y b.n.header.dim y i
  /-- The experts are chosen, with their indexes and their shares. -/
  chosen : ∀ y < batchSize, ∃ chosen,
    Chosen (gateValue e weights b (rowOf m .y b.n.header.dim y)) b.n.header.nExperts
      b.n.header.nActiveExperts chosen ∧
    ∀ z < b.n.header.nActiveExperts,
      m' .actExpIx (y * b.n.header.nActiveExperts + z) = (chosen.getD z 0 : F) ∧
      m' .moeS (z * nBatches + y) =
        gateValue e weights b (rowOf m .y b.n.header.dim y) (chosen.getD z 0) /
          (chosen.map (gateValue e weights b (rowOf m .y b.n.header.dim y))).sum

section Steps

variable {op : NnOpConfig} {input output : NnBuffer} {inputType outputType : NnFloatType}
  {zIn z n d : ℕ}

/-- Running an operation, whatever comes after it. -/
def Runs (e : Exponential F) (s : StdSort F)
    (llamafile_sgemm : ℕ → ℕ → ℕ → NnSize3D → NnSize3D → Bool) (weights : String → ℕ → F)
    (b : NnNodeBuilder) (nBatches batchSize : ℕ) (op : NnOpConfig) (m m' : NnMemory F) : Prop :=
  ∀ ops, forwardOps e s llamafile_sgemm weights b nBatches batchSize (op :: ops) m =
    forwardOps e s llamafile_sgemm weights b nBatches batchSize ops m'

theorem runs_of {c : NnCpuOpContext} {m m' : NnMemory F} (hc : createContext b nBatches op = some c)
    (hop : opForward e s c batchSize m llamafile_sgemm weights = some m') :
    Runs e s llamafile_sgemm weights b nBatches batchSize op m m' := by
  intro ops
  rw [forwardOps, hc, Option.bind_some, hop, Option.bind_some]

variable (e s llamafile_sgemm weights)

theorem repeatZ_step (hc : createContext b nBatches op =
      some (rowsContext op nBatches input inputType zIn n output outputType z n))
    (hcode : op.code = .repeatZ) (hdiff : input ≠ output) (hbatch : batchSize ≤ nBatches)
    (m : NnMemory F) :
    ∃ m', Runs e s llamafile_sgemm weights b nBatches batchSize op m m' ∧
      (∀ z' < z, ∀ y < batchSize, ∀ i < n,
        rowOf m' output n (z' * nBatches + y) i = rowOf m input n y i) ∧
      ∀ buffer ≠ output, m' buffer = m buffer := by
  refine ⟨repeatZForward (rowsContext op nBatches input inputType zIn n output outputType z n)
    batchSize m, ?_, ?_, ?_⟩
  · apply runs_of hc
    unfold opForward rowsContext
    rw [hcode]
  · intro z' hz y hy i hi
    exact repeatZForward_row
      (c := rowsContext op nBatches input inputType zIn n output outputType z n) m (Eq.refl _) hdiff
      hbatch hz hy hi
  · intro buffer h
    exact repeatZForward_of_ne m h

theorem matmul_step {nExperts nActiveExperts : ℕ} {indexes : NnBuffer} {weightType : NnFloatType}
    {zWeight : ℕ} (hc : createContext b nBatches op =
      some (rowsContext op nBatches input inputType zIn n output outputType z d))
    (hchecked : (rowsContext op nBatches input inputType zIn n output outputType z d).Checked)
    (hcode : op.code = .matmul) (hconfig : op.config = .matmul nExperts nActiveExperts indexes)
    (hweight : op.weightSize = size3D weightType zWeight n d) (hdiff : input ≠ output)
    (hindexes : indexes ≠ output) (hbatch : batchSize ≤ nBatches) (m : NnMemory F) :
    ∃ m', Runs e s llamafile_sgemm weights b nBatches batchSize op m m' ∧
      (∀ z' < z, ∀ y < batchSize, ∀ i < d, rowOf m' output d (z' * nBatches + y) i =
        expertMatmul weights op.name n d (usedExpert llamafile_sgemm nActiveExperts indexes
            (rowsContext op nBatches input inputType zIn n output outputType z d) batchSize m z' y)
          (rowOf m input n (z' * nBatches + y)) i) ∧
      ∀ buffer ≠ output, m' buffer = m buffer := by
  refine ⟨matmulForward (rowsContext op nBatches input inputType zIn n output outputType z d)
    batchSize m llamafile_sgemm (weights op.name) nActiveExperts indexes, ?_, ?_, ?_⟩
  · apply runs_of hc
    unfold opForward rowsContext
    rw [hcode, hconfig]
  · intro z' hz y hy i hi
    have hrow := matmulForward_row llamafile_sgemm (weights op.name) nActiveExperts indexes m
      hchecked hcode hconfig hdiff hindexes hbatch hz hy hi
    unfold expertRow rowsContext at hrow
    rw [hweight] at hrow
    exact hrow
  · intro buffer h
    exact matmulForward_of_ne llamafile_sgemm (weights op.name) nActiveExperts indexes m h

variable (batchSize) in
theorem softmax_step [IsStrictOrderedRing F] (hc : createContext b nBatches op =
      some (rowsContext op nBatches output outputType 1 d output outputType 1 d))
    (hcode : op.code = .softmax) (m : NnMemory F) :
    ∃ m', Runs e s llamafile_sgemm weights b nBatches batchSize op m m' ∧
      (∀ y < batchSize, ∀ i < d,
        rowOf m' output d y i = softmax_F32 e d (rowOf m output d y) i) ∧
      ∀ buffer ≠ output, m' buffer = m buffer := by
  refine ⟨softmaxForward e (rowsContext op nBatches output outputType 1 d output outputType 1 d)
    batchSize m, ?_, ?_, ?_⟩
  · apply runs_of hc
    unfold opForward rowsContext
    rw [hcode]
  · intro y hy i hi
    exact softmaxForward_row
      (c := rowsContext op nBatches output outputType 1 d output outputType 1 d) e m hy hi
  · intro buffer h
    exact softmaxForward_of_ne e m h

theorem moeGate_step {k normTopk : ℕ} {indexes : NnBuffer} (hc : createContext b nBatches op =
      some (rowsContext op nBatches input inputType 1 n output outputType k 1))
    (hcode : op.code = .moeGate) (hconfig : op.config = .moeGate k normTopk indexes)
    (hindexes : indexes ≠ output) (hinput : input ≠ indexes) (hdiff : input ≠ output)
    (hbatch : batchSize ≤ nBatches) (m : NnMemory F) :
    ∃ m', Runs e s llamafile_sgemm weights b nBatches batchSize op m m' ∧
      (∀ z' < k, ∀ y < batchSize, m' indexes (y * k + z') =
          ((topk_F32 s (rowOf m input n y) n k).getD z' 0 : F) ∧
        m' output (z' * nBatches + y) =
          rowOf m input n y ((topk_F32 s (rowOf m input n y) n k).getD z' 0) /
            topkSum normTopk (rowOf m input n y) (topk_F32 s (rowOf m input n y) n k)) ∧
      ∀ buffer ≠ output, buffer ≠ indexes → m' buffer = m buffer := by
  refine ⟨moeGateForward s (rowsContext op nBatches input inputType 1 n output outputType k 1)
    batchSize m k normTopk indexes, ?_, ?_, ?_⟩
  · apply runs_of hc
    unfold opForward rowsContext
    rw [hcode, hconfig]
  · intro z' hz y hy
    have hrow := moeGateForward_row
      (c := rowsContext op nBatches input inputType 1 n output outputType k 1) s m normTopk
      hindexes hinput hdiff hbatch hy hz
    rw [rowOf_one, rowOf_one] at hrow
    exact hrow
  · intro buffer h h'
    exact moeGateForward_of_ne s m normTopk hindexes hinput hdiff h h'

theorem silu_step (hc : createContext b nBatches op =
      some (rowsContext op nBatches output outputType z d output outputType z d))
    (hcode : op.code = .silu) (hbatch : batchSize ≤ nBatches) (m : NnMemory F) :
    ∃ m', Runs e s llamafile_sgemm weights b nBatches batchSize op m m' ∧
      (∀ z' < z, ∀ y < batchSize, ∀ i < d, rowOf m' output d (z' * nBatches + y) i =
        silu_F32 e (rowOf m output d (z' * nBatches + y) i)) ∧
      ∀ buffer ≠ output, m' buffer = m buffer := by
  refine ⟨siluForward e (rowsContext op nBatches output outputType z d output outputType z d)
    batchSize m, ?_, ?_, ?_⟩
  · apply runs_of hc
    unfold opForward rowsContext
    rw [hcode]
  · intro z' hz y hy i hi
    exact siluForward_row
      (c := rowsContext op nBatches output outputType z d output outputType z d) m e hbatch hz hy hi
  · intro buffer h
    exact siluForward_of_ne m e h

theorem mul_step {multiplier : NnBuffer} (hc : createContext b nBatches op =
      some (rowsContext op nBatches input inputType z d output outputType z d))
    (hcode : op.code = .mul) (hconfig : op.config = .mul multiplier) (hdiff : multiplier ≠ output)
    (hbatch : batchSize ≤ nBatches) (m : NnMemory F) :
    ∃ m', Runs e s llamafile_sgemm weights b nBatches batchSize op m m' ∧
      (∀ z' < z, ∀ y < batchSize, ∀ i < d, rowOf m' output d (z' * nBatches + y) i =
        rowOf m input d (z' * nBatches + y) i * rowOf m multiplier d (z' * nBatches + y) i) ∧
      ∀ buffer ≠ output, m' buffer = m buffer := by
  refine ⟨mulForward (rowsContext op nBatches input inputType z d output outputType z d)
    batchSize m multiplier, ?_, ?_, ?_⟩
  · apply runs_of hc
    unfold opForward rowsContext
    rw [hcode, hconfig]
  · intro z' hz y hy i hi
    exact mulForward_row
      (c := rowsContext op nBatches input inputType z d output outputType z d) m (Eq.refl _) hdiff
      hbatch hz hy hi
  · intro buffer h
    exact mulForward_of_ne m h

theorem cast_step (hc : createContext b nBatches op =
      some (rowsContext op nBatches input inputType z d output outputType z d))
    (hcode : op.code = .cast) (hbatch : batchSize ≤ nBatches) (m : NnMemory F) :
    ∃ m', Runs e s llamafile_sgemm weights b nBatches batchSize op m m' ∧
      (∀ z' < z, ∀ y < batchSize, ∀ i < d, rowOf m' output d (z' * nBatches + y) i =
        rowOf m input d (z' * nBatches + y) i) ∧
      ∀ buffer ≠ output, m' buffer = m buffer := by
  refine ⟨castForward (rowsContext op nBatches input inputType z d output outputType z d)
    batchSize m, ?_, ?_, ?_⟩
  · apply runs_of hc
    unfold opForward rowsContext
    rw [hcode]
  · intro z' hz y hy i hi
    exact castForward_row
      (c := rowsContext op nBatches input inputType z d output outputType z d) m (Eq.refl _) hbatch
      hz hy hi
  · intro buffer h
    exact castForward_of_ne m h

theorem scale_step {scale : NnBuffer} (hc : createContext b nBatches op =
      some (rowsContext op nBatches input inputType z d output outputType z d))
    (hcode : op.code = .scale) (hconfig : op.config = .scale scale) (hdiff : scale ≠ output)
    (hbatch : batchSize ≤ nBatches) (m : NnMemory F) :
    ∃ m', Runs e s llamafile_sgemm weights b nBatches batchSize op m m' ∧
      (∀ z' < z, ∀ y < batchSize, ∀ i < d, rowOf m' output d (z' * nBatches + y) i =
        rowOf m input d (z' * nBatches + y) i * m scale (z' * nBatches + y)) ∧
      ∀ buffer ≠ output, m' buffer = m buffer := by
  refine ⟨scaleForward (rowsContext op nBatches input inputType z d output outputType z d)
    batchSize m scale, ?_, ?_, ?_⟩
  · apply runs_of hc
    unfold opForward rowsContext
    rw [hcode, hconfig]
  · intro z' hz y hy i hi
    exact scaleForward_row
      (c := rowsContext op nBatches input inputType z d output outputType z d) m (Eq.refl _) hdiff
      hbatch hz hy hi
  · intro buffer h
    exact scaleForward_of_ne m h

variable (batchSize) in
theorem mergeSum_step (hc : createContext b nBatches op =
      some (rowsContext op nBatches input inputType z d output outputType 1 d))
    (hcode : op.code = .mergeSum) (hdiff : input ≠ output) (m : NnMemory F) :
    ∃ m', Runs e s llamafile_sgemm weights b nBatches batchSize op m m' ∧
      ∀ y < batchSize, ∀ i < d, rowOf m' output d y i =
        ∑ z' ∈ Finset.range z, rowOf m input d (z' * nBatches + y) i := by
  refine ⟨mergeSumForward (rowsContext op nBatches input inputType z d output outputType 1 d)
    batchSize m, ?_, ?_⟩
  · apply runs_of hc
    unfold opForward rowsContext
    rw [hcode]
  · intro y hy i hi
    have hrow := mergeSumForward_row
      (c := rowsContext op nBatches input inputType z d output outputType 1 d) m hdiff hy hi
    have hsum : ∑ z' ∈ Finset.range z, rowOf m input d (z' * nBatches + y) i =
        ∑ z' ∈ Finset.range z, rowOf m input d (y + z' * nBatches) i :=
      Finset.sum_congr (Eq.refl _) fun z' _ => by rw [Nat.add_comm]
    rw [hsum]
    exact hrow

end Steps

section

omit [Field F] [FloorSemiring F]

/-- The `k` first indexes of a sort. -/
theorem topk_F32_chosen (x : ℕ → F) {size k : ℕ} (hk : k ≤ size) :
    Chosen x size k (topk_F32 s x size k) := by
  have hperm := s.sort_perm (fun a b => decide (x b < x a)) (List.range size)
  have hsorted := s.sort_sorted x (List.range size)
  unfold topk_F32
  generalize s.sort (fun a b => decide (x b < x a)) (List.range size) = items at hperm hsorted
  have hlength : items.length = size := hperm.length_eq.trans List.length_range
  have hnodup : items.Nodup := hperm.nodup_iff.mpr List.nodup_range
  constructor
  · exact hnodup.sublist (List.take_sublist k items)
  · rw [List.length_take, hlength]
    exact Nat.min_eq_left hk
  · intro expert hexpert
    exact List.mem_range.mp (hperm.mem_iff.mp (List.mem_of_mem_take hexpert))
  · intro expert hexpert other hother hnot
    rw [← List.take_append_drop k items, List.pairwise_append] at hsorted
    have hmem : other ∈ items := hperm.mem_iff.mpr (List.mem_range.mpr hother)
    rw [← List.take_append_drop k items] at hmem
    cases List.mem_append.mp hmem with
    | inl hfirst => exact absurd hfirst hnot
    | inr hlater => exact hsorted.2.2 expert hexpert other hlater

theorem Chosen.congr {gate gate' : ℕ → F} {size k : ℕ} {chosen : List ℕ}
    (h : Chosen gate size k chosen) (hsame : ∀ expert < size, gate expert = gate' expert) :
    Chosen gate' size k chosen := by
  refine ⟨h.nodup, h.length_eq, h.lt, ?_⟩
  intro expert hexpert other hother hnot
  rw [← hsame expert (h.lt expert hexpert), ← hsame other hother]
  exact h.largest expert hexpert other hother hnot

theorem Chosen.getD_mem {gate : ℕ → F} {size k : ℕ} {chosen : List ℕ}
    (h : Chosen gate size k chosen) {z : ℕ} (hz : z < k) : chosen.getD z 0 ∈ chosen := by
  have hlt : z < chosen.length := h.length_eq ▸ hz
  rw [List.getD_eq_getElem _ _ hlt]
  exact List.getElem_mem hlt

end

omit [LinearOrder F] [FloorSemiring F] in
theorem expertMatmul_zero (name : String) (n d : ℕ) (x : ℕ → F) :
    expertMatmul weights name n d 0 x = matmul_F32 (weights name) x n := by
  unfold expertMatmul
  simp only [Nat.zero_mul, Nat.zero_add]

theorem usedExpert_zero (indexes : NnBuffer) (c : NnCpuOpContext) (m : NnMemory F) (z y : ℕ) :
    usedExpert llamafile_sgemm 0 indexes c batchSize m z y = 0 := by
  unfold usedExpert
  rw [if_pos (Eq.refl _), ite_self]

variable (e s llamafile_sgemm weights) in
/-- The operations before the experts choose them. -/
theorem forward_gate [IsStrictOrderedRing F] (haccepts : Accepts b nBatches (b.moeOps layerIndex))
    (hbatch : batchSize ≤ nBatches) (hk : 1 ≤ b.n.header.nActiveExperts)
    (hke : b.n.header.nActiveExperts ≤ b.n.header.nExperts) (m : NnMemory F) :
    ∃ m', forwardOps e s llamafile_sgemm weights b nBatches batchSize
        ((b.moeOps layerIndex).take 4) m = some m' ∧
      Gated e weights b nBatches batchSize m m' := by
  have hq := syncType_of_accepts haccepts
  have hquantized : b.n.Quantized := by
    unfold LlmShape.Quantized
    rw [hq]
    decide
  have hfactor : b.n.moeYqBuffer = .qMoeY := if_pos hquantized
  have ⟨hy, hgt, hix, _, hqmy, _, _, _, hms⟩ := bufferSize_eq nBatches hq
  rw [Nat.max_eq_left hk] at hix hqmy hms
  rw [Nat.max_eq_left (Nat.le_trans hk hke)] at hgt
  unfold NnNodeBuilder.moeOps at haccepts ⊢
  simp only [Accepts, List.cons_append, List.nil_append, List.forall_mem_cons] at haccepts
  obtain ⟨h1, h2, h3, h4, _⟩ := haccepts
  obtain ⟨hc1, _⟩ := createContext_eq (Eq.refl _) (by rw [hfactor]) hy hqmy h1
  obtain ⟨hc2, hchecked2⟩ := createContext_eq (Eq.refl _) (Eq.refl _) hy hgt h2
  obtain ⟨hc3, _⟩ := createContext_eq (Eq.refl _) (Eq.refl _) hgt hgt h3
  obtain ⟨hc4, _⟩ := createContext_eq (Eq.refl _) (Eq.refl _) hgt hms h4
  obtain ⟨m1, hrun1, hrow1, hkeep1⟩ :=
    repeatZ_step e s llamafile_sgemm weights hc1 (Eq.refl _) (by decide) hbatch m
  obtain ⟨m2, hrun2, hrow2, hkeep2⟩ :=
    matmul_step e s llamafile_sgemm weights hc2 hchecked2 (Eq.refl _) (Eq.refl _) (Eq.refl _)
      (by decide) (by decide) hbatch m1
  obtain ⟨m3, hrun3, hrow3, hkeep3⟩ :=
    softmax_step e s llamafile_sgemm weights batchSize hc3 (Eq.refl _) m2
  obtain ⟨m4, hrun4, hrow4, hkeep4⟩ :=
    moeGate_step e s llamafile_sgemm weights hc4 (Eq.refl _) (Eq.refl _) (by decide) (by decide)
      (by decide) hbatch m3
  refine ⟨m4, ?_, ?_, ?_⟩
  · exact (hrun1 _).trans ((hrun2 _).trans ((hrun3 _).trans (hrun4 _)))
  · intro z hz y hy i hi
    rw [rowOf_congr (hkeep4 .qMoeY (by decide) (by decide)), rowOf_congr (hkeep3 .qMoeY (by decide)),
      rowOf_congr (hkeep2 .qMoeY (by decide))]
    exact hrow1 z hz y hy i hi
  · intro y hy
    have hgate : ∀ expert < b.n.header.nExperts, rowOf m3 .gt b.n.header.nExperts y expert =
        gateValue e weights b (rowOf m .y b.n.header.dim y) expert := by
      have hlogit : ∀ expert < b.n.header.nExperts, rowOf m2 .gt b.n.header.nExperts y expert =
          matmul_F32 (weights "block_moe_gate") (rowOf m .y b.n.header.dim y) b.n.header.dim
            expert := by
        intro expert hexpert
        have hrow := hrow2 0 Nat.one_pos y hy expert hexpert
        rw [usedExpert_zero, expertMatmul_zero, Nat.zero_mul, Nat.zero_add,
          rowOf_congr (hkeep1 .y (by decide))] at hrow
        exact hrow
      intro expert hexpert
      rw [hrow3 y hy expert hexpert, softmax_F32_eq e _ hexpert, hlogit expert hexpert]
      have hsum : ∑ other ∈ Finset.range b.n.header.nExperts,
          e.expf (rowOf m2 .gt b.n.header.nExperts y other) =
          ∑ other ∈ Finset.range b.n.header.nExperts, e.expf (matmul_F32
            (weights "block_moe_gate") (rowOf m .y b.n.header.dim y) b.n.header.dim other) :=
        Finset.sum_congr (Eq.refl _) fun other hother => by
          rw [hlogit other (Finset.mem_range.mp hother)]
      rw [hsum]
      exact Eq.refl _
    have hchosen := topk_F32_chosen (s := s) (rowOf m3 .gt b.n.header.nExperts y) hke
    refine ⟨_, hchosen.congr hgate, ?_⟩
    intro z hz
    obtain ⟨hindex, hshare⟩ := hrow4 z hz y hy
    refine ⟨hindex, ?_⟩
    have hmem := hchosen.getD_mem hz
    have hsum : (topk_F32 s (rowOf m3 .gt b.n.header.nExperts y) b.n.header.nExperts
          b.n.header.nActiveExperts).map (rowOf m3 .gt b.n.header.nExperts y) =
        (topk_F32 s (rowOf m3 .gt b.n.header.nExperts y) b.n.header.nExperts
          b.n.header.nActiveExperts).map
            (gateValue e weights b (rowOf m .y b.n.header.dim y)) :=
      List.map_congr_left fun expert hexpert => hgate expert (hchosen.lt expert hexpert)
    have htotal (input : ℕ → F) (pos : List ℕ) : topkSum 1 input pos = (pos.map input).sum :=
      if_pos (Eq.refl _)
    rw [htotal, hsum, hgate _ (hchosen.lt _ hmem)] at hshare
    exact hshare

/-- The expert that a product of the block uses for a row. -/
theorem usedExpert_eq [IsStrictOrderedRing F]
    {op : NnOpConfig} {output : NnBuffer} {input : NnBuffer} {n d z' d' : ℕ}
    {outputType : NnFloatType} (hq : b.n.header.syncType = .q80)
    (hk : 1 ≤ b.n.header.nActiveExperts)
    (hweight : op.weightSize = size3D b.n.header.weightType b.n.header.nExperts n d)
    {m : NnMemory F} {z y expert : ℕ}
    (hindex : m .actExpIx (y * b.n.header.nActiveExperts + z) = (expert : F)) :
    usedExpert llamafile_sgemm b.n.header.nActiveExperts .actExpIx
        (rowsContext op nBatches input .q80 b.n.header.nActiveExperts n output outputType z' d')
        batchSize m z y =
      usedIn llamafile_sgemm b nBatches batchSize n d expert := by
  have hfast : TakesFast (rowsContext op nBatches input .q80 b.n.header.nActiveExperts n output
      outputType z' d') batchSize llamafile_sgemm ↔
        FastProduct llamafile_sgemm b nBatches batchSize n d := by
    unfold TakesFast FastProduct rowsContext
    rw [hweight, hq]
    exact Iff.rfl
  unfold usedExpert usedIn
  rw [if_neg (by omega : ¬b.n.header.nActiveExperts = 0), hindex, Nat.floor_natCast]
  by_cases htakes : FastProduct llamafile_sgemm b nBatches batchSize n d
  · rw [if_pos htakes, if_pos (hfast.mpr htakes)]
  · rw [if_neg htakes, if_neg fun h => htakes (hfast.mp h)]

variable (e s llamafile_sgemm weights) in
/-- The products of the experts, up to the output. -/
theorem forward_experts [IsStrictOrderedRing F]
    (haccepts : Accepts b nBatches (b.moeOps layerIndex))
    (hshape : ExpertShape b.n) (hbatch : batchSize ≤ nBatches)
    (hk : 1 ≤ b.n.header.nActiveExperts) (m : NnMemory F) {expert : ℕ → ℕ → ℕ}
    (hindexes : ∀ z < b.n.header.nActiveExperts, ∀ y < batchSize,
      m .actExpIx (y * b.n.header.nActiveExperts + z) = (expert z y : F)) :
    ∃ m', forwardOps e s llamafile_sgemm weights b nBatches batchSize
        (((b.moeOps layerIndex).drop 4).take 5) m = some m' ∧
      (∀ z < b.n.header.nActiveExperts, ∀ y < batchSize, ∀ i < b.n.header.moeHiddenDim,
        rowOf m' .qMoeD b.n.header.moeHiddenDim (z * nBatches + y) i =
          silu_F32 e (expertMatmul weights "block_matmul_w1" b.n.header.dim b.n.header.moeHiddenDim
            (usedIn llamafile_sgemm b nBatches batchSize b.n.header.dim b.n.header.moeHiddenDim
              (expert z y)) (rowOf m .qMoeY b.n.header.dim (z * nBatches + y)) i) *
          expertMatmul weights "block_matmul_w3" b.n.header.dim b.n.header.moeHiddenDim
            (usedIn llamafile_sgemm b nBatches batchSize b.n.header.dim b.n.header.moeHiddenDim
              (expert z y)) (rowOf m .qMoeY b.n.header.dim (z * nBatches + y)) i) ∧
      m' .actExpIx = m .actExpIx ∧ m' .moeS = m .moeS := by
  have hq := syncType_of_accepts haccepts
  have hquantized : b.n.Quantized := by
    unfold LlmShape.Quantized
    rw [hq]
    decide
  have hfactor : b.n.moeYqBuffer = .qMoeY := if_pos hquantized
  have ⟨_, _, _, _, hqmy, hmd, hqmd, hml, _⟩ := bufferSize_eq nBatches hq
  rw [Nat.max_eq_left hk] at hqmy hmd hqmd hml
  rw [hshape.gateOut] at hmd hqmd
  rw [hshape.factorOut] at hml
  unfold NnNodeBuilder.moeOps at haccepts ⊢
  rw [if_pos hquantized] at haccepts ⊢
  simp only [Accepts, List.cons_append, List.nil_append, List.forall_mem_cons] at haccepts
  obtain ⟨_, _, _, _, h5, h6, h7, h8, h9, _⟩ := haccepts
  obtain ⟨hc5, hchecked5⟩ := createContext_eq (by rw [hfactor]) (Eq.refl _) hqmy hmd h5
  obtain ⟨hc6, hchecked6⟩ := createContext_eq (by rw [hfactor]) (Eq.refl _) hqmy hml h6
  obtain ⟨hc7, _⟩ := createContext_eq (Eq.refl _) (Eq.refl _) hmd hmd h7
  obtain ⟨hc8, _⟩ := createContext_eq (Eq.refl _) (Eq.refl _) hmd hmd h8
  obtain ⟨hc9, _⟩ := createContext_eq (Eq.refl _) (Eq.refl _) hmd hqmd h9
  obtain ⟨m5, hrun5, hrow5, hkeep5⟩ :=
    matmul_step e s llamafile_sgemm weights hc5 hchecked5 (Eq.refl _) (Eq.refl _)
      (by rw [hshape.gateIn, hshape.gateOut]) (by decide) (by decide) hbatch m
  obtain ⟨m6, hrun6, hrow6, hkeep6⟩ :=
    matmul_step e s llamafile_sgemm weights hc6 hchecked6 (Eq.refl _) (Eq.refl _)
      (by rw [hshape.factorIn, hshape.factorOut]) (by decide) (by decide) hbatch m5
  obtain ⟨m7, hrun7, hrow7, hkeep7⟩ :=
    silu_step e s llamafile_sgemm weights hc7 (Eq.refl _) hbatch m6
  obtain ⟨m8, hrun8, hrow8, hkeep8⟩ :=
    mul_step e s llamafile_sgemm weights hc8 (Eq.refl _) (Eq.refl _) (by decide) hbatch m7
  obtain ⟨m9, hrun9, hrow9, hkeep9⟩ :=
    cast_step e s llamafile_sgemm weights hc9 (Eq.refl _) hbatch m8
  have hkeep {buffer : NnBuffer} (hd : buffer ≠ .moeD) (hl : buffer ≠ .moeL)
      (hqd : buffer ≠ .qMoeD) : m9 buffer = m buffer := by
    rw [hkeep9 buffer hqd, hkeep8 buffer hd, hkeep7 buffer hd, hkeep6 buffer hl, hkeep5 buffer hd]
  refine ⟨m9, ?_, ?_, hkeep (by decide) (by decide) (by decide),
    hkeep (by decide) (by decide) (by decide)⟩
  · exact (hrun5 _).trans ((hrun6 _).trans ((hrun7 _).trans ((hrun8 _).trans (hrun9 _))))
  · intro z hz y hy i hi
    have hgate := hrow5 z hz y hy i hi
    have hother := hrow6 z hz y hy i hi
    have hindex5 : m5 .actExpIx (y * b.n.header.nActiveExperts + z) = (expert z y : F) := by
      rw [hkeep5 .actExpIx (by decide)]
      exact hindexes z hz y hy
    rw [usedExpert_eq hq hk (by rw [hshape.gateIn, hshape.gateOut]) (hindexes z hz y hy)] at hgate
    rw [usedExpert_eq hq hk (by rw [hshape.factorIn, hshape.factorOut]) hindex5,
      rowOf_congr (hkeep5 .qMoeY (by decide))] at hother
    rw [hrow9 z hz y hy i hi, hrow8 z hz y hy i hi, hrow7 z hz y hy i hi,
      rowOf_congr (hkeep7 .moeL (by decide)), rowOf_congr (hkeep6 .moeD (by decide)), hgate, hother]

variable (e s llamafile_sgemm weights) in
/-- The products up to the row. -/
theorem forward_output [IsStrictOrderedRing F] (haccepts : Accepts b nBatches (b.moeOps layerIndex))
    (hshape : ExpertShape b.n) (hbatch : batchSize ≤ nBatches)
    (hk : 1 ≤ b.n.header.nActiveExperts) (m : NnMemory F) {expert : ℕ → ℕ → ℕ}
    (hindexes : ∀ z < b.n.header.nActiveExperts, ∀ y < batchSize,
      m .actExpIx (y * b.n.header.nActiveExperts + z) = (expert z y : F)) :
    ∃ m', forwardOps e s llamafile_sgemm weights b nBatches batchSize
        ((b.moeOps layerIndex).drop 9) m = some m' ∧
      ∀ y < batchSize, ∀ i < b.n.header.dim, rowOf m' .y b.n.header.dim y i =
        ∑ z ∈ Finset.range b.n.header.nActiveExperts,
          expertMatmul weights "block_matmul_w2" b.n.header.moeHiddenDim b.n.header.dim
            (usedIn llamafile_sgemm b nBatches batchSize b.n.header.moeHiddenDim b.n.header.dim
              (expert z y)) (rowOf m .qMoeD b.n.header.moeHiddenDim (z * nBatches + y)) i *
            m .moeS (z * nBatches + y) := by
  have hq := syncType_of_accepts haccepts
  have hquantized : b.n.Quantized := by
    unfold LlmShape.Quantized
    rw [hq]
    decide
  have hfactor : b.n.moeDqBuffer = .qMoeD := if_pos hquantized
  have ⟨hy, _, _, hmy, _, _, hqmd, _, _⟩ := bufferSize_eq nBatches hq
  rw [Nat.max_eq_left hk] at hmy hqmd
  rw [hshape.gateOut] at hqmd
  unfold NnNodeBuilder.moeOps at haccepts ⊢
  rw [if_pos hquantized] at haccepts ⊢
  simp only [Accepts, List.cons_append, List.nil_append, List.forall_mem_cons] at haccepts
  obtain ⟨_, _, _, _, _, _, _, _, _, h10, h11, h12, _⟩ := haccepts
  obtain ⟨hc10, hchecked10⟩ := createContext_eq (by rw [hfactor]) (Eq.refl _) hqmd hmy h10
  obtain ⟨hc11, _⟩ := createContext_eq (Eq.refl _) (Eq.refl _) hmy hmy h11
  obtain ⟨hc12, _⟩ := createContext_eq (Eq.refl _) (Eq.refl _) hmy hy h12
  obtain ⟨m10, hrun10, hrow10, hkeep10⟩ :=
    matmul_step e s llamafile_sgemm weights hc10 hchecked10 (Eq.refl _) (Eq.refl _)
      (by rw [hshape.outputIn, hshape.outputOut]) (by decide) (by decide) hbatch m
  obtain ⟨m11, hrun11, hrow11, _⟩ :=
    scale_step e s llamafile_sgemm weights hc11 (Eq.refl _) (Eq.refl _) (by decide) hbatch m10
  obtain ⟨m12, hrun12, hrow12⟩ :=
    mergeSum_step e s llamafile_sgemm weights batchSize hc12 (Eq.refl _) (by decide) m11
  refine ⟨m12, (hrun10 _).trans ((hrun11 _).trans (hrun12 _)), ?_⟩
  intro y hy i hi
  rw [hrow12 y hy i hi]
  apply Finset.sum_congr (Eq.refl _)
  intro z hz
  have hlayer := Finset.mem_range.mp hz
  have hproduct := hrow10 z hlayer y hy i hi
  rw [usedExpert_eq hq hk (by rw [hshape.outputIn, hshape.outputOut])
    (hindexes z hlayer y hy)] at hproduct
  rw [hrow11 z hlayer y hy i hi, hproduct, hkeep10 .moeS (by decide)]

omit [LinearOrder F] [FloorSemiring F] in
theorem expertMatmul_congr (name : String) (n d expert : ℕ) {x x' : ℕ → F}
    (h : ∀ j < n, x j = x' j) (i : ℕ) :
    expertMatmul weights name n d expert x i = expertMatmul weights name n d expert x' i := by
  unfold expertMatmul matmul_F32
  apply Finset.sum_congr (Eq.refl _)
  intro j hj
  rw [h j (Finset.mem_range.mp hj)]

variable (e s llamafile_sgemm weights) in
/-- What the block leaves in every row, whichever products take the fast path. -/
theorem forward_moe [IsStrictOrderedRing F] (haccepts : Accepts b nBatches (b.moeOps layerIndex))
    (hshape : ExpertShape b.n) (hbatch : batchSize ≤ nBatches)
    (hk : 1 ≤ b.n.header.nActiveExperts)
    (hke : b.n.header.nActiveExperts ≤ b.n.header.nExperts) (m : NnMemory F) :
    ∃ m', forwardOps e s llamafile_sgemm weights b nBatches batchSize (b.moeOps layerIndex) m =
        some m' ∧
      ∀ row < batchSize, ∃ chosen,
        Chosen (gateValue e weights b (rowOf m .y b.n.header.dim row)) b.n.header.nExperts
          b.n.header.nActiveExperts chosen ∧
        ∀ i < b.n.header.dim, rowOf m' .y b.n.header.dim row i =
          ∑ z ∈ Finset.range b.n.header.nActiveExperts,
            mixedForward e weights b
              (usedIn llamafile_sgemm b nBatches batchSize b.n.header.dim b.n.header.moeHiddenDim
                (chosen.getD z 0))
              (usedIn llamafile_sgemm b nBatches batchSize b.n.header.dim b.n.header.moeHiddenDim
                (chosen.getD z 0))
              (usedIn llamafile_sgemm b nBatches batchSize b.n.header.moeHiddenDim b.n.header.dim
                (chosen.getD z 0)) (rowOf m .y b.n.header.dim row) i *
            (gateValue e weights b (rowOf m .y b.n.header.dim row) (chosen.getD z 0) /
              (chosen.map (gateValue e weights b (rowOf m .y b.n.header.dim row))).sum) := by
  obtain ⟨m4, hrun4, hgated⟩ :=
    forward_gate e s llamafile_sgemm weights
      haccepts hbatch hk hke m
  choose! chosen hchosen using hgated.chosen
  have hindexes : ∀ z < b.n.header.nActiveExperts, ∀ y < batchSize,
      m4 .actExpIx (y * b.n.header.nActiveExperts + z) = ((chosen y).getD z 0 : F) :=
    fun z hz y hy => ((hchosen y hy).2 z hz).1
  obtain ⟨m9, hrun9, hrow9, hix9, hshare9⟩ :=
    forward_experts e s llamafile_sgemm weights
      haccepts hshape hbatch hk m4 hindexes
  have hindexes9 : ∀ z < b.n.header.nActiveExperts, ∀ y < batchSize,
      m9 .actExpIx (y * b.n.header.nActiveExperts + z) = ((chosen y).getD z 0 : F) := by
    rw [hix9]
    exact hindexes
  obtain ⟨m12, hrun12, hrow12⟩ :=
    forward_output e s llamafile_sgemm weights
      haccepts hshape hbatch hk m9 hindexes9
  refine ⟨m12, ?_, ?_⟩
  · have hops : b.moeOps layerIndex = (b.moeOps layerIndex).take 4 ++
        (((b.moeOps layerIndex).drop 4).take 5 ++ (b.moeOps layerIndex).drop 9) := by
      have hrest : (b.moeOps layerIndex).drop 9 = ((b.moeOps layerIndex).drop 4).drop 5 := by
        rw [List.drop_drop]
      rw [hrest, List.take_append_drop, List.take_append_drop]
    rw [hops, forwardOps_append, hrun4, Option.bind_some, forwardOps_append, hrun9,
      Option.bind_some, hrun12]
  · intro row hrow
    refine ⟨chosen row, (hchosen row hrow).1, ?_⟩
    intro i hi
    rw [hrow12 row hrow i hi]
    apply Finset.sum_congr (Eq.refl _)
    intro z hz
    have hlayer := Finset.mem_range.mp hz
    rw [hshare9, ((hchosen row hrow).2 z hlayer).2]
    have hinput : ∀ j < b.n.header.dim, rowOf m4 .qMoeY b.n.header.dim (z * nBatches + row) j =
        rowOf m .y b.n.header.dim row j := hgated.factor z hlayer row hrow
    have hhidden : ∀ j < b.n.header.moeHiddenDim,
        rowOf m9 .qMoeD b.n.header.moeHiddenDim (z * nBatches + row) j = _ :=
      hrow9 z hlayer row hrow
    rw [expertMatmul_congr "block_matmul_w2" _ _ _ hhidden]
    unfold mixedForward
    simp only [expertMatmul_congr _ _ _ _ hinput]

omit [LinearOrder F] [FloorSemiring F] in
theorem sum_map_getD (values : List ℕ) (f : ℕ → F) :
    (values.map f).sum = ∑ z ∈ Finset.range values.length, f (values.getD z 0) := by
  induction values with
  | nil => exact Eq.refl _
  | cons first values ih =>
    rw [List.map_cons, List.sum_cons, ih, List.length_cons, Finset.sum_range_succ', add_comm]
    exact Eq.refl _

omit [FloorSemiring F] in
/-- When no product takes the fast path, or all experts are the first one, or all their weights are
one block, a product uses the weights of its expert. -/
theorem mixedForward_used
    (h : (¬FastProduct llamafile_sgemm b nBatches batchSize b.n.header.dim b.n.header.moeHiddenDim ∧
        ¬FastProduct llamafile_sgemm b nBatches batchSize b.n.header.moeHiddenDim b.n.header.dim) ∨
      b.n.header.nExperts = 1 ∨ b.n.header.dim * b.n.header.moeHiddenDim % 2 ^ 32 = 0)
    {expert : ℕ} (hexpert : expert < b.n.header.nExperts) (x : ℕ → F) :
    mixedForward e weights b
        (usedIn llamafile_sgemm b nBatches batchSize b.n.header.dim b.n.header.moeHiddenDim expert)
        (usedIn llamafile_sgemm b nBatches batchSize b.n.header.dim b.n.header.moeHiddenDim expert)
        (usedIn llamafile_sgemm b nBatches batchSize b.n.header.moeHiddenDim b.n.header.dim expert)
        x = feedForward e weights b expert x := by
  unfold feedForward
  rcases h with hplain | hone | hblock
  · unfold usedIn
    rw [if_neg hplain.1, if_neg hplain.2]
  · have hfirst : expert = 0 := by omega
    unfold usedIn
    rw [hfirst, ite_self, ite_self]
  · have hswap : b.n.header.moeHiddenDim * b.n.header.dim % 2 ^ 32 = 0 := by
      rw [Nat.mul_comm]
      exact hblock
    unfold mixedForward expertMatmul
    simp only [hblock, hswap, Nat.mul_zero]

/-- A row with a one and zeros. -/
structure UnitRow (x : ℕ → F) (n : ℕ) : Prop where
  /-- It is not empty. -/
  pos : 0 < n
  /-- The one. -/
  one : x 0 = 1
  /-- The zeros. -/
  zero : ∀ j < n, j ≠ 0 → x j = 0

omit [LinearOrder F] [FloorSemiring F] in
theorem UnitRow.matmul {x : ℕ → F} {n : ℕ} (h : UnitRow x n) (w : ℕ → F) (i : ℕ) :
    matmul_F32 w x n i = w (i * n) := by
  unfold matmul_F32
  rw [Finset.sum_eq_single_of_mem 0 (Finset.mem_range.mpr h.pos)]
  · rw [h.one, mul_one, Nat.add_zero]
  · intro j hj hne
    rw [h.zero j (Finset.mem_range.mp hj) hne, mul_zero]

omit [FloorSemiring F] in
/-- What three experts make of a row with a one and zeros. -/
theorem UnitRow.mixedForward {x : ℕ → F} (h : UnitRow x b.n.header.dim) (gate factor output : ℕ) :
    mixedForward e weights b gate factor output x 0 =
      ∑ j ∈ Finset.range b.n.header.moeHiddenDim,
        weights "block_matmul_w2"
          (output * (b.n.header.dim * b.n.header.moeHiddenDim % 2 ^ 32) + j) *
        (silu_F32 e (weights "block_matmul_w1"
            (gate * (b.n.header.dim * b.n.header.moeHiddenDim % 2 ^ 32) + j * b.n.header.dim)) *
          weights "block_matmul_w3"
            (factor * (b.n.header.dim * b.n.header.moeHiddenDim % 2 ^ 32) + j * b.n.header.dim)) := by
  have hrow (name : String) (expert i : ℕ) :
      expertMatmul weights name b.n.header.dim b.n.header.moeHiddenDim expert x i =
        weights name (expert * (b.n.header.dim * b.n.header.moeHiddenDim % 2 ^ 32) +
          i * b.n.header.dim) := h.matmul _ i
  unfold MoeBlock.mixedForward
  simp only [hrow]
  unfold expertMatmul matmul_F32
  rw [Nat.mul_comm b.n.header.moeHiddenDim b.n.header.dim]
  apply Finset.sum_congr (Eq.refl _)
  intro j _
  rw [Nat.zero_mul, Nat.zero_add]

/-- Weights that tell the first expert from the second: in one product only the block of the first
has ones. -/
def marked (b : NnNodeBuilder) (product : String) : String → ℕ → F := fun name l =>
  if name = "block_moe_gate" then if l = b.n.header.dim then 1 else 0
  else if name = product then
    if l < b.n.header.dim * b.n.header.moeHiddenDim % 2 ^ 32 then 1 else 0
  else 1

/-- A memory whose first row is a one and zeros. -/
def unitMemory : NnMemory F := fun buffer l => if buffer = .y ∧ l = 0 then 1 else 0

omit [LinearOrder F] [FloorSemiring F] in
theorem unitRow {n : ℕ} (hn : 0 < n) : UnitRow (rowOf (unitMemory (F := F)) .y n 0) n := by
  refine ⟨hn, ?_, ?_⟩
  · unfold rowOf unitMemory
    rw [if_pos ⟨Eq.refl _, by rw [Nat.zero_mul]⟩]
  · intro j _ hne
    unfold rowOf unitMemory
    rw [if_neg fun h => hne (by omega)]

theorem marked_nonneg (product name : String) (l : ℕ) : (0 : F) ≤ marked b product name l := by
  unfold marked
  split_ifs
  · exact zero_le_one
  · exact le_refl 0
  · exact zero_le_one
  · exact le_refl 0
  · exact zero_le_one

theorem marked_pos {product name : String} (hgate : name ≠ "block_moe_gate") {l : ℕ}
    (h : name = product → l < b.n.header.dim * b.n.header.moeHiddenDim % 2 ^ 32) :
    (0 : F) < marked b product name l := by
  unfold marked
  rw [if_neg hgate]
  by_cases hname : name = product
  · rw [if_pos hname, if_pos (h hname)]
    exact one_pos
  · rw [if_neg hname]
    exact one_pos

omit [LinearOrder F] [FloorSemiring F] in
/-- The block of the second expert has zeros. -/
theorem marked_zero {product : String} (hgate : product ≠ "block_moe_gate") (l : ℕ) :
    (marked b product product (1 * (b.n.header.dim * b.n.header.moeHiddenDim % 2 ^ 32) + l) : F) =
      0 := by
  unfold marked
  rw [if_neg hgate, if_pos (Eq.refl _), if_neg (by omega)]

/-- The gate selects the second expert. -/
theorem gateValue_marked [IsStrictOrderedRing F]
    (product : String) {x : ℕ → F} (h : UnitRow x b.n.header.dim)
    (hexperts : 0 < b.n.header.nExperts) {other : ℕ} (hother : other ≠ 1) :
    gateValue e (marked b product) b x other < gateValue e (marked b product) b x 1 := by
  have hlogit (expert : ℕ) : matmul_F32 (marked b product "block_moe_gate") x b.n.header.dim
      expert = if expert * b.n.header.dim = b.n.header.dim then 1 else 0 := by
    rw [h.matmul]
    exact if_pos (Eq.refl _)
  have hless : matmul_F32 (marked b product "block_moe_gate") x b.n.header.dim other <
      matmul_F32 (marked b product "block_moe_gate") x b.n.header.dim 1 := by
    have hplace : ¬other * b.n.header.dim = b.n.header.dim := by
      intro hsame
      exact hother (Nat.eq_of_mul_eq_mul_right h.pos (hsame.trans (Nat.one_mul _).symm))
    rw [hlogit, hlogit, if_neg hplace, if_pos (Nat.one_mul _)]
    exact one_pos
  have hsum : 0 < ∑ expert ∈ Finset.range b.n.header.nExperts,
      e.expf (matmul_F32 (marked b product "block_moe_gate") x b.n.header.dim expert) :=
    Finset.sum_pos (fun expert _ => e.expf_pos _) ⟨0, Finset.mem_range.mpr hexperts⟩
  exact div_lt_div_of_pos_right (e.expf_strictMono hless) hsum

omit [Field F] [FloorSemiring F] in
theorem Chosen.eq_second {gate : ℕ → F} {size : ℕ} {chosen : List ℕ}
    (h : Chosen gate size 1 chosen) (hsize : 1 < size)
    (hgate : ∀ other, other ≠ 1 → gate other < gate 1) : chosen = [1] := by
  obtain ⟨expert, hone⟩ := List.length_eq_one_iff.mp h.length_eq
  by_cases hsecond : expert = 1
  · rw [hone, hsecond]
  · have hmem : expert ∈ chosen := hone ▸ List.mem_singleton_self expert
    have hnot : 1 ∉ chosen := by
      rw [hone, List.mem_singleton]
      exact fun hsame => hsecond hsame.symm
    have hle := h.largest expert hmem 1 hsize hnot
    exact absurd (hgate expert hsecond) (not_lt.mpr hle)

omit [FloorSemiring F] in
/-- The second expert makes nothing of the row when a product marks its block. -/
theorem feedForward_marked {product : String}
    (hproduct : product = "block_matmul_w1" ∨ product = "block_matmul_w2") {x : ℕ → F}
    (h : UnitRow x b.n.header.dim) : feedForward e (marked b product) b 1 x 0 = 0 := by
  unfold feedForward
  rw [h.mixedForward]
  apply Finset.sum_eq_zero
  intro j _
  cases hproduct with
  | inl hgate =>
    rw [hgate, marked_zero (by decide), silu_F32_zero, zero_mul, mul_zero]
  | inr houtput =>
    rw [houtput, marked_zero (by decide), zero_mul]

/-- The first expert makes something of it. -/
theorem mixedForward_marked [IsStrictOrderedRing F] {product : String} {gate factor output : ℕ}
    (hproduct : product = "block_matmul_w1" ∧ gate = 0 ∨ product = "block_matmul_w2" ∧ output = 0)
    (hblock : 0 < b.n.header.dim * b.n.header.moeHiddenDim % 2 ^ 32) {x : ℕ → F}
    (h : UnitRow x b.n.header.dim) :
    0 < mixedForward e (marked b product) b gate factor output x 0 := by
  have hhidden : 0 < b.n.header.moeHiddenDim := by
    apply Nat.pos_of_ne_zero
    intro hzero
    rw [hzero, Nat.mul_zero, Nat.zero_mod] at hblock
    exact absurd hblock (Nat.lt_irrefl 0)
  have hsilu (name : String) (l : ℕ) : (0 : F) ≤ silu_F32 e (marked b product name l) :=
    div_nonneg (marked_nonneg product name l) (add_pos one_pos (e.expf_pos _)).le
  rw [h.mixedForward]
  apply Finset.sum_pos'
  · intro j _
    exact mul_nonneg (marked_nonneg _ _ _) (mul_nonneg (hsilu _ _) (marked_nonneg _ _ _))
  · refine ⟨0, Finset.mem_range.mpr hhidden, ?_⟩
    have houtput : (0 : F) < marked b product "block_matmul_w2"
        (output * (b.n.header.dim * b.n.header.moeHiddenDim % 2 ^ 32) + 0) := by
      apply marked_pos (by decide)
      intro hname
      rcases hproduct with ⟨hother, _⟩ | ⟨_, hzero⟩
      · rw [hother] at hname
        exact absurd hname (by decide)
      · rw [hzero, Nat.zero_mul]
        exact hblock
    have hgate : (0 : F) < marked b product "block_matmul_w1"
        (gate * (b.n.header.dim * b.n.header.moeHiddenDim % 2 ^ 32) + 0 * b.n.header.dim) := by
      apply marked_pos (by decide)
      intro hname
      rcases hproduct with ⟨_, hzero⟩ | ⟨hother, _⟩
      · rw [hzero, Nat.zero_mul, Nat.zero_mul]
        exact hblock
      · rw [hother] at hname
        exact absurd hname (by decide)
    have hfactor : (0 : F) < marked b product "block_matmul_w3"
        (factor * (b.n.header.dim * b.n.header.moeHiddenDim % 2 ^ 32) + 0 * b.n.header.dim) := by
      apply marked_pos (by decide)
      intro hname
      rcases hproduct with ⟨hother, _⟩ | ⟨hother, _⟩
      · rw [hother] at hname
        exact absurd hname (by decide)
      · rw [hother] at hname
        exact absurd hname (by decide)
    exact mul_pos houtput (mul_pos (silu_F32_pos e hgate) hfactor)

/-- With a second expert, a product on the fast path gives a row of the wrong expert. -/
theorem not_moeComputes [IsStrictOrderedRing F]
    (haccepts : Accepts b nBatches (b.moeOps layerIndex))
    (hshape : ExpertShape b.n) (hbatch : batchSize ≤ nBatches) (hrows : 0 < batchSize)
    (hexperts : 1 < b.n.header.nExperts)
    (hblock : 0 < b.n.header.dim * b.n.header.moeHiddenDim % 2 ^ 32)
    (hfast : FastProduct llamafile_sgemm b nBatches batchSize b.n.header.dim
        b.n.header.moeHiddenDim ∨
      FastProduct llamafile_sgemm b nBatches batchSize b.n.header.moeHiddenDim b.n.header.dim) :
    ¬MoeComputes e s llamafile_sgemm b nBatches batchSize layerIndex := by
  intro hcomputes
  have hone : b.n.header.nActiveExperts = 1 := by
    cases hfast with
    | inl h => exact h.1
    | inr h => exact h.1
  have hdim : 0 < b.n.header.dim := by
    apply Nat.pos_of_ne_zero
    intro hzero
    rw [hzero, Nat.zero_mul, Nat.zero_mod] at hblock
    exact absurd hblock (Nat.lt_irrefl 0)
  obtain ⟨product, hname, hused⟩ : ∃ product,
      (product = "block_matmul_w1" ∨ product = "block_matmul_w2") ∧
      (product = "block_matmul_w1" ∧ usedIn llamafile_sgemm b nBatches batchSize b.n.header.dim
          b.n.header.moeHiddenDim 1 = 0 ∨
        product = "block_matmul_w2" ∧ usedIn llamafile_sgemm b nBatches batchSize
          b.n.header.moeHiddenDim b.n.header.dim 1 = 0) := by
    cases hfast with
    | inl h => exact ⟨_, .inl (Eq.refl _), .inl ⟨Eq.refl _, if_pos h⟩⟩
    | inr h => exact ⟨_, .inr (Eq.refl _), .inr ⟨Eq.refl _, if_pos h⟩⟩
  have hrow : UnitRow (rowOf (unitMemory (F := F)) .y b.n.header.dim 0) b.n.header.dim :=
    unitRow hdim
  have hsecond {chosen : List ℕ} (h : Chosen (gateValue e (marked b product) b
      (rowOf (unitMemory (F := F)) .y b.n.header.dim 0)) b.n.header.nExperts
        b.n.header.nActiveExperts chosen) : chosen = [1] := by
    rw [hone] at h
    exact h.eq_second hexperts fun other hother =>
      gateValue_marked product hrow (by omega) hother
  obtain ⟨m', hrun, hspec⟩ := hcomputes (marked b product) unitMemory
  obtain ⟨m'', hrun', hvalue⟩ := forward_moe e s llamafile_sgemm (marked b product) haccepts hshape
    hbatch (by omega) (by omega) unitMemory
  have hsame : m' = m'' := Option.some_inj.mp (hrun.symm.trans hrun')
  obtain ⟨chosen, hchosen, hleft⟩ := hspec 0 hrows
  obtain ⟨chosen', hchosen', hright⟩ := hvalue 0 hrows
  have hzero := hleft 0 hdim
  have hpos := hright 0 hdim
  rw [hsecond hchosen, List.map_singleton, List.sum_singleton, feedForward_marked hname hrow,
    mul_zero, hsame] at hzero
  rw [hsecond hchosen', hone, Finset.sum_range_one, List.map_singleton, List.sum_singleton,
    hzero] at hpos
  have hshare : gateValue e (marked b product) b
      (rowOf (unitMemory (F := F)) .y b.n.header.dim 0) 1 ≠ 0 := by
    apply ne_of_gt
    exact div_pos (e.expf_pos _) (Finset.sum_pos (fun expert _ => e.expf_pos _)
      ⟨0, Finset.mem_range.mpr (by omega)⟩)
  have hmixed : 0 < mixedForward e (marked b product) b
      (usedIn llamafile_sgemm b nBatches batchSize b.n.header.dim b.n.header.moeHiddenDim 1)
      (usedIn llamafile_sgemm b nBatches batchSize b.n.header.dim b.n.header.moeHiddenDim 1)
      (usedIn llamafile_sgemm b nBatches batchSize b.n.header.moeHiddenDim b.n.header.dim 1)
      (rowOf (unitMemory (F := F)) .y b.n.header.dim 0) 0 :=
    mixedForward_marked hused hblock hrow
  have hindex : ([1] : List ℕ).getD 0 0 = 1 := Eq.refl _
  rw [hindex, div_self hshare, mul_one] at hpos
  exact absurd hpos (ne_of_lt hmixed)

/-- The block computes the weighted sum of what the selected experts make of every row exactly when
no product of its experts takes the fast path, or there is only one expert, or there are no rows, or
the weights of all experts are the same block. -/
theorem moeComputes_iff [IsStrictOrderedRing F] (hn : buildShape b.n.header 1 nBatches = .ok b.n)
    (harch : b.n.header.archType = .qwen3Moe)
    (haccepts : Accepts b nBatches (b.moeOps layerIndex)) (hbatch : batchSize ≤ nBatches)
    (hk : 1 ≤ b.n.header.nActiveExperts)
    (hke : b.n.header.nActiveExperts ≤ b.n.header.nExperts) :
    MoeComputes e s llamafile_sgemm b nBatches batchSize layerIndex ↔
      (¬FastProduct llamafile_sgemm b nBatches batchSize b.n.header.dim b.n.header.moeHiddenDim ∧
        ¬FastProduct llamafile_sgemm b nBatches batchSize b.n.header.moeHiddenDim
          b.n.header.dim) ∨
      b.n.header.nExperts = 1 ∨ b.n.header.dim * b.n.header.moeHiddenDim % 2 ^ 32 = 0 ∨
      batchSize = 0 := by
  have hshape := expertShape nBatches hn harch
  constructor
  · intro h
    by_contra hnot
    obtain ⟨hfast, hnot⟩ := not_or.mp hnot
    obtain ⟨hexperts, hnot⟩ := not_or.mp hnot
    obtain ⟨hblock, hrows⟩ := not_or.mp hnot
    apply not_moeComputes haccepts hshape hbatch (by omega) (by omega) (by omega) _ h
    by_contra hneither
    exact hfast (not_or.mp hneither)
  · intro h weights m
    obtain ⟨m', hrun, hvalue⟩ :=
      forward_moe e s llamafile_sgemm weights haccepts hshape hbatch hk hke m
    refine ⟨m', hrun, ?_⟩
    intro row hrow
    obtain ⟨chosen, hchosen, hsum⟩ := hvalue row hrow
    refine ⟨chosen, hchosen, ?_⟩
    intro i hi
    have hcase : (¬FastProduct llamafile_sgemm b nBatches batchSize b.n.header.dim
          b.n.header.moeHiddenDim ∧
        ¬FastProduct llamafile_sgemm b nBatches batchSize b.n.header.moeHiddenDim
          b.n.header.dim) ∨
        b.n.header.nExperts = 1 ∨ b.n.header.dim * b.n.header.moeHiddenDim % 2 ^ 32 = 0 := by
      rcases h with hplain | hone | hblock | hnone
      · exact .inl hplain
      · exact .inr (.inl hone)
      · exact .inr (.inr hblock)
      · omega
    rw [hsum i hi]
    generalize (chosen.map (gateValue e weights b (rowOf m .y b.n.header.dim row))).sum = total
    rw [sum_map_getD, hchosen.length_eq]
    apply Finset.sum_congr (Eq.refl _)
    intro z hz
    have hexpert := hchosen.lt _ (hchosen.getD_mem (Finset.mem_range.mp hz))
    rw [mixedForward_used hcase hexpert, mul_comm]

end Runs

section Examples

open NnTopology

/-- The exponential function of real numbers. -/
noncomputable def realExponential : Exponential ℝ where
  expf := Real.exp
  expf_pos := Real.exp_pos
  expf_add := Real.exp_add
  expf_strictMono := Real.exp_strictMono

/-- A sort that keeps the order of equal keys. -/
def stableSort (F : Type*) [LinearOrder F] : StdSort F where
  sort less items := items.mergeSort fun a b => !less b a
  sort_perm less items := List.mergeSort_perm items _
  sort_sorted key items := by
    have hsorted : (items.mergeSort fun a b => !decide (key a < key b)).Pairwise
        fun a b => (!decide (key a < key b)) = true := List.pairwise_mergeSort
      (fun a b c hab hbc => by
        simp only [Bool.not_eq_true', decide_eq_false_iff_not, not_lt] at hab hbc ⊢
        exact le_trans hbc hab)
      (fun a b => by
        simp only [Bool.or_eq_true, Bool.not_eq_true', decide_eq_false_iff_not, not_lt]
        exact le_total _ _) items
    exact hsorted.imp fun h => by
      simpa only [Bool.not_eq_true', decide_eq_false_iff_not, not_lt] using h

/-- A model with two experts of which some are active. -/
def twoExperts (nActiveExperts : ℕ) : LlmHeader where
  archType := .qwen3Moe
  dim := 32
  nLayers := 1
  nHeads := 1
  headDim := 32
  nKvHeads := 1
  nExperts := 2
  nActiveExperts := nActiveExperts
  seqLen := 4
  hiddenDim := 32
  moeHiddenDim := 64
  qDim := 32
  kvDim := 32
  vocabSize := 64
  ropeType := .falcon
  weightType := .q40
  syncType := .q80

/-- A weight of rows, on one node. -/
def wholeRows (n d : ℕ) : NnRowMatmulSlice :=
  ⟨.q40, 1, d, n, size2D .q40 n d, size2D .q40 n d⟩

/-- A weight of columns, on one node. -/
def wholeColumns (n d : ℕ) : NnColMatmulSlice :=
  ⟨.q40, 1, n, n, d, size2D .q40 n d, size2D .q40 n d⟩

/-- Its only node, for a batch of one row. -/
def twoExpertsNode (nActiveExperts : ℕ) : NnNodeBuilder where
  n :=
    { header := twoExperts nActiveExperts
      multiHeadAttSlice := ⟨1, 1, size2D .f32 1 4⟩
      qSlice := wholeRows 32 32
      kSlice := wholeRows 32 32
      vSlice := wholeRows 32 32
      woSlice := wholeColumns 32 32
      w1Slice := wholeRows 32 64
      w2Slice := wholeColumns 64 32
      w3Slice := wholeRows 32 64
      wclsSlice := wholeColumns 32 64 }
  topology := ⟨1, 1, 1, 1⟩
  nodePlacement := ⟨0, 0, 0, 0, 0, 1, 0, 1⟩
  kvCacheSlice := ⟨32, 4, 0, size2D .f32 4 32, size2D .f32 4 32⟩
  ropeSlice := ⟨32, 32, 32, 4, 32, 1, none, size2D .f32 4 32⟩
  layerStart := 0
  layerEnd := 1

theorem moeComputes_two : MoeComputes realExponential (stableSort ℝ) (fun _ _ _ _ _ => true)
    (twoExpertsNode 2) 1 1 0 := by
  apply (moeComputes_iff (by decide +kernel) (by decide) (by decide +kernel) (by decide) (by decide)
    (by decide)).mpr
  left
  constructor
  · intro h
    exact absurd h.1 (by decide)
  · intro h
    exact absurd h.1 (by decide)

/-- With one active expert of two, the fast path takes the first one. -/
theorem not_moeComputes_one : ¬MoeComputes realExponential (stableSort ℝ) (fun _ _ _ _ _ => true)
    (twoExpertsNode 1) 1 1 0 := by
  have hshape : ExpertShape (twoExpertsNode 1).n :=
    expertShape 1 (h := twoExperts 1) (by decide +kernel) (by decide)
  exact not_moeComputes (by decide +kernel) hshape (by decide) (by decide) (by decide)
    (by decide +kernel) (.inl ⟨by decide, by decide⟩)

end Examples

end LayerSkip.MoeBlock
