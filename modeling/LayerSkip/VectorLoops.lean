import LayerSkip.CpuKernels
import LayerSkip.ForwardFreshness
import LayerSkip.WeightOwnership

/-!
# Loops over registers

With vector instructions a mean square, a row of floats and a head are added up register by register,
and the loops assert that nothing is left over. The sizes are those of the graph. So for a model
whose rows are whole registers on every rank no forward on any node stops at these assertions.
-/

namespace LayerSkip.VectorLoops

open NnTopology NnPipeline NnCore NnCpu LlmGraph ForwardReads ForwardTriples ForwardFreshness
open WeightLoader CpuKernels
open DevicePlacement (NnNode)

/-- A model whose rows are whole registers of some lanes on every tensor rank. -/
structure VectorHeader (lanes tpSize : ℕ) (h : LlmHeader) : Prop where
  /-- Columns of an activation. -/
  dim : lanes ∣ h.dim
  /-- Columns of a head. -/
  headDim : lanes ∣ h.headDim
  /-- Columns of the attention on a rank. -/
  qDim : lanes ∣ h.qDim / tpSize
  /-- Columns of the feed-forward block on a rank. -/
  ffDim : lanes ∣ ffDim h / tpSize
  /-- Columns of an activation on a rank. -/
  part : lanes ∣ h.dim / tpSize

/-- What the slicers check of the heads whose queries and keys have norms. -/
theorem buildShape_heads {h : LlmHeader} {tpSize nBatches : ℕ} {n : LlmShape}
    (hn : buildShape h tpSize nBatches = .ok n) : n.HasQkNorm →
      n.header.headDim ∣ n.qSlice.d0 ∧ n.header.headDim ∣ n.kSlice.d0 := by
  obtain ⟨multiHeadAtt, _, hn⟩ := bind_eq_ok hn
  obtain ⟨q, _, hn⟩ := bind_eq_ok hn
  obtain ⟨k, _, hn⟩ := bind_eq_ok hn
  obtain ⟨v, _, hn⟩ := bind_eq_ok hn
  obtain ⟨wo, _, hn⟩ := bind_eq_ok hn
  obtain ⟨w1, _, hn⟩ := bind_eq_ok hn
  obtain ⟨w2, _, hn⟩ := bind_eq_ok hn
  obtain ⟨w3, _, hn⟩ := bind_eq_ok hn
  obtain ⟨wcls, _, hn⟩ := bind_eq_ok hn
  obtain ⟨_, hqueries, hn⟩ := bind_eq_ok hn
  obtain ⟨_, hkeys, hn⟩ := bind_eq_ok hn
  injection hn with hn
  rw [← hn]
  intro hnorm
  exact ⟨Nat.dvd_of_mod_eq_zero (require_eq_ok hqueries hnorm).2,
    Nat.dvd_of_mod_eq_zero (require_eq_ok hkeys hnorm)⟩

/-- A row of heads that is cut into heads. -/
theorem head_columns {d0 headDim : ℕ} (h : headDim ∣ d0) : d0 / (d0 / headDim) = headDim ∨
    d0 / (d0 / headDim) = 0 := by
  obtain ⟨heads, hheads⟩ := h
  cases Nat.eq_zero_or_pos headDim with
  | inl hzero =>
    right
    rw [hzero, Nat.div_zero, Nat.div_zero]
  | inr hpos =>
    rw [hheads, Nat.mul_div_cancel_left heads hpos]
    cases Nat.eq_zero_or_pos heads with
    | inl hnone =>
      right
      rw [hnone, Nat.div_zero]
    | inr hsome =>
      left
      exact Nat.mul_div_cancel headDim hsome

section Operations

variable {lanes : ℕ} {node : NnNode} {name : String} {index : ℕ} {output : NnPointerConfig}

theorem wholeRegisters_matmul {y : ℕ} (hrow : lanes ∣ y) (input : NnPointerConfig)
    (type : NnFloatType) (z x : ℕ) (config : NnOpCodeConfig) :
    WholeRegisters node ⟨.matmul, name, index, input, output, size3D type z y x, config⟩ lanes :=
  fun _ => Nat.mod_eq_zero_of_dvd hrow

theorem wholeRegisters_invRms {source : NnSource} {size : NnSize3D} {nColumns : ℕ}
    (hsize : node.sourceSize source = some size) (hcolumn : lanes ∣ size.x / nColumns)
    (weightSize : NnSize3D) :
    WholeRegisters node ⟨.invRms, name, index, pointerBatchConfig source, output, weightSize,
      .invRms nColumns⟩ lanes := by
  have hinput : pointerSize node (pointerBatchConfig source) = size := by
    simp [pointerSize, pointerBatchConfig, hsize]
  have hx : (pointerSize node (pointerBatchConfig source)).x / nColumns % lanes = 0 := by
    rw [hinput]
    exact Nat.mod_eq_zero_of_dvd hcolumn
  exact hx

end Operations

section Nodes

variable {lanes : ℕ} {b : NnNodeBuilder} {nBatches : ℕ} {fusedLmHeadArgmax : Bool}

/-- A node whose rows are whole registers of some lanes. -/
structure VectorNode (lanes : ℕ) (b : NnNodeBuilder) : Prop where
  /-- Columns of an activation. -/
  dim : lanes ∣ b.n.header.dim
  /-- Columns of a head. -/
  headDim : lanes ∣ b.n.header.headDim
  /-- Rows of weights that are split by rows. -/
  rows : ∀ slice ∈ [b.n.qSlice, b.n.kSlice, b.n.vSlice, b.n.w1Slice, b.n.w3Slice], lanes ∣ slice.n
  /-- Rows of weights that are split by columns. -/
  columns : ∀ slice ∈ [b.n.woSlice, b.n.w2Slice, b.n.wclsSlice], lanes ∣ slice.n0
  /-- Queries with norms. -/
  queries : b.n.HasQkNorm → lanes ∣ b.n.qSlice.d0 / b.n.nQNormColumns
  /-- Keys with norms. -/
  keys : b.n.HasQkNorm → lanes ∣ b.n.kSlice.d0 / b.n.nKNormColumns

theorem size_q : (builtNode b nBatches fusedLmHeadArgmax).sourceSize (.buffer .q) =
    some (size2D .f32 nBatches b.n.qSlice.d0) := by
  by_cases hq : b.n.Quantized <;> simp [nodeOf, NnNode.sourceSize, NnNodeBuilder.buffers, hq]

theorem size_kTemp : (builtNode b nBatches fusedLmHeadArgmax).sourceSize (.buffer .kTemp) =
    some (size2D .f32 nBatches b.n.kSlice.d0) := by
  by_cases hq : b.n.Quantized <;> simp [nodeOf, NnNode.sourceSize, NnNodeBuilder.buffers, hq]

theorem wholeRegisters_norm (h : VectorNode lanes b) (preName name : String) (index : ℕ) :
    ∀ op ∈ b.normOps preName name index,
      WholeRegisters (builtNode b nBatches fusedLmHeadArgmax) op lanes := by
  have hdim : lanes ∣ b.n.header.dim / 1 := by
    rw [Nat.div_one]
    exact h.dim
  simp only [NnNodeBuilder.normOps, List.forall_mem_cons, List.not_mem_nil, false_implies,
    implies_true, and_true]
  constructor
  · exact wholeRegisters_invRms size_x hdim _
  · trivial

theorem wholeRegisters_castY (name : String) (index : ℕ) :
    ∀ op ∈ b.castYOps name index,
      WholeRegisters (builtNode b nBatches fusedLmHeadArgmax) op lanes := by
  intro op hop
  rw [NnNodeBuilder.castYOps] at hop
  split at hop
  · rw [List.mem_singleton.mp hop]
    trivial
  · exact absurd hop List.not_mem_nil

theorem wholeRegisters_qkv (h : VectorNode lanes b) (index : ℕ) :
    ∀ op ∈ b.qkvOps index, WholeRegisters (builtNode b nBatches fusedLmHeadArgmax) op lanes := by
  simp only [NnNodeBuilder.qkvOps, List.forall_mem_cons, List.not_mem_nil, false_implies,
    implies_true, and_true]
  and_intros
  · exact wholeRegisters_matmul (h.rows b.n.qSlice (by simp)) _ _ _ _ _
  · exact wholeRegisters_matmul (h.rows b.n.kSlice (by simp)) _ _ _ _ _
  · exact wholeRegisters_matmul (h.rows b.n.vSlice (by simp)) _ _ _ _ _

theorem wholeRegisters_qkNorm (h : VectorNode lanes b) (index : ℕ) :
    ∀ op ∈ b.qkNormOps index, WholeRegisters (builtNode b nBatches fusedLmHeadArgmax) op lanes := by
  by_cases hnorm : b.n.HasQkNorm
  · simp only [NnNodeBuilder.qkNormOps, hnorm, if_true, List.forall_mem_cons, List.not_mem_nil,
      false_implies, implies_true, and_true]
    and_intros
    · exact wholeRegisters_invRms size_q (h.queries hnorm) _
    · trivial
    · exact wholeRegisters_invRms size_kTemp (h.keys hnorm) _
    · trivial
  · simp [NnNodeBuilder.qkNormOps, hnorm]

theorem wholeRegisters_rope (index : ℕ) :
    ∀ op ∈ b.ropeOps index, WholeRegisters (builtNode b nBatches fusedLmHeadArgmax) op lanes := by
  simp only [NnNodeBuilder.ropeOps, List.forall_mem_cons, List.not_mem_nil, false_implies,
    implies_true, and_true]
  and_intros
  all_goals trivial

theorem wholeRegisters_attention (h : VectorNode lanes b) (index : ℕ) :
    ∀ op ∈ b.attentionOps index,
      WholeRegisters (builtNode b nBatches fusedLmHeadArgmax) op lanes := by
  simp only [NnNodeBuilder.attentionOps, List.forall_mem_cons, List.not_mem_nil, false_implies,
    implies_true, and_true]
  and_intros
  · exact Nat.mod_eq_zero_of_dvd h.headDim
  · trivial
  · exact wholeRegisters_matmul (h.columns b.n.woSlice (by simp)) _ _ _ _ _
  · trivial

theorem wholeRegisters_moe (h : VectorNode lanes b) (index : ℕ) :
    ∀ op ∈ b.moeOps index, WholeRegisters (builtNode b nBatches fusedLmHeadArgmax) op lanes := by
  simp only [NnNodeBuilder.moeOps, List.forall_mem_append, List.forall_mem_cons, List.not_mem_nil,
    false_implies, implies_true, and_true]
  and_intros
  all_goals first
    | exact wholeRegisters_matmul h.dim _ _ _ _ _
    | exact wholeRegisters_matmul (h.rows b.n.w1Slice (by simp)) _ _ _ _ _
    | exact wholeRegisters_matmul (h.rows b.n.w3Slice (by simp)) _ _ _ _ _
    | exact wholeRegisters_matmul (h.columns b.n.w2Slice (by simp)) _ _ _ _ _
    | trivial
    | (split <;> simp only [List.forall_mem_singleton, List.not_mem_nil, false_implies, implies_true]
       trivial)

theorem wholeRegisters_dense (h : VectorNode lanes b) (index : ℕ) :
    ∀ op ∈ b.denseOps index, WholeRegisters (builtNode b nBatches fusedLmHeadArgmax) op lanes := by
  have hcast : ∀ op ∈ b.castYOps "block_cast_y3" index,
      WholeRegisters (builtNode b nBatches fusedLmHeadArgmax) op lanes := wholeRegisters_castY _ _
  simp only [NnNodeBuilder.denseOps, List.forall_mem_append, List.forall_mem_cons, List.not_mem_nil,
    false_implies, implies_true, and_true]
  and_intros
  · exact hcast
  all_goals first
    | exact wholeRegisters_matmul (h.rows b.n.w1Slice (by simp)) _ _ _ _ _
    | exact wholeRegisters_matmul (h.rows b.n.w3Slice (by simp)) _ _ _ _ _
    | exact wholeRegisters_matmul (h.columns b.n.w2Slice (by simp)) _ _ _ _ _
    | trivial
    | (split <;> simp only [List.forall_mem_singleton, List.not_mem_nil, false_implies, implies_true]
       trivial)

theorem wholeRegisters_layer (h : VectorNode lanes b) (index : ℕ) :
    ∀ segment ∈ [b.att index, b.ff index], ∀ op ∈ segment.ops,
      WholeRegisters (builtNode b nBatches fusedLmHeadArgmax) op lanes := by
  have hblock : ∀ op ∈ (if b.n.header.archType = .qwen3Moe then b.moeOps index
      else b.denseOps index), WholeRegisters (builtNode b nBatches fusedLmHeadArgmax) op lanes := by
    split
    · exact wholeRegisters_moe h index
    · exact wholeRegisters_dense h index
  simp only [NnNodeBuilder.att, NnNodeBuilder.ff, List.forall_mem_append, List.forall_mem_cons,
    List.cons_append, List.not_mem_nil, false_implies, implies_true, and_true]
  and_intros
  · rw [NnNodeBuilder.blockEntry]
    split <;> trivial
  · exact wholeRegisters_norm h _ _ _
  · exact wholeRegisters_castY _ _
  · exact wholeRegisters_qkv h _
  · exact wholeRegisters_qkNorm h _
  · exact wholeRegisters_rope _
  · exact wholeRegisters_attention h _
  · trivial
  · exact wholeRegisters_norm h _ _ _
  · exact hblock
  · trivial

theorem wholeRegisters_finalSegment (h : VectorNode lanes b) :
    ∀ op ∈ (b.finalSegment fusedLmHeadArgmax).ops,
      WholeRegisters (builtNode b nBatches fusedLmHeadArgmax) op lanes := by
  simp only [NnNodeBuilder.finalSegment, NnNodeBuilder.logitsOps, List.forall_mem_append,
    List.forall_mem_cons,
    List.cons_append]
  and_intros
  · trivial
  · exact wholeRegisters_norm h _ _ _
  · exact wholeRegisters_castY _ _
  · split
    · simp only [List.forall_mem_cons, List.not_mem_nil, false_implies, implies_true, and_true]
      exact ⟨trivial, trivial⟩
    · simp only [List.forall_mem_singleton]
      exact wholeRegisters_matmul (h.columns b.n.wclsSlice (by simp)) _ _ _ _ _

/-- All operations of a node. -/
theorem wholeRegisters_node (h : VectorNode lanes b) :
    ∀ op ∈ (b.segments fusedLmHeadArgmax).flatMap NnSegmentConfig.ops,
      WholeRegisters (builtNode b nBatches fusedLmHeadArgmax) op lanes := by
  intro op hop
  obtain ⟨segment, hsegment, hop⟩ := List.mem_flatMap.mp hop
  rw [NnNodeBuilder.segments] at hsegment
  cases List.mem_append.mp hsegment with
  | inl hbefore =>
    cases List.mem_append.mp hbefore with
    | inl hlayers =>
      cases List.mem_append.mp hlayers with
      | inl hstart =>
        rw [List.mem_singleton.mp hstart, NnNodeBuilder.start] at hop
        simp only at hop
        split at hop
        · rw [List.mem_singleton.mp hop]
          trivial
        · exact absurd hop List.not_mem_nil
      | inr hlayer =>
        obtain ⟨index, _, hmem⟩ := List.mem_flatMap.mp hlayer
        exact wholeRegisters_layer h index segment hmem op hop
    | inr hbridge =>
      split at hbridge
      · rw [List.mem_singleton.mp hbridge] at hop
        simp only [NnNodeBuilder.bridge, List.mem_cons, List.not_mem_nil, or_false] at hop
        cases hop with
        | inl hmerge =>
          rw [hmerge]
          trivial
        | inr hcast =>
          rw [hcast]
          trivial
      · exact absurd hbridge List.not_mem_nil
  | inr hfinal =>
    split at hfinal
    · rw [List.mem_singleton.mp hfinal] at hop
      exact wholeRegisters_finalSegment h op hop
    · exact absurd hfinal List.not_mem_nil

end Nodes

section Graphs

variable {lanes nBatches : ℕ} {h : LlmHeader} {topology : NnParallelTopology}
  {ppStageLayerCounts : Option (List ℕ)} {fusedLmHeadArgmax : Bool} {net : LlmNet}

/-- The nodes of a graph of a model whose rows are whole registers. -/
theorem vectorNode_of_build (hvector : VectorHeader lanes topology.tpSize h)
    (hshape : buildShape h topology.tpSize nBatches = .ok net.shape) {b : NnNodeBuilder}
    (hb : b.n = net.shape) : VectorNode lanes b := by
  have hheads := buildShape_heads hshape
  obtain ⟨hheader, hslices⟩ := shapeOf_of_build hshape
  rw [← hb] at hheads hheader hslices
  have hcolumns {d0 : ℕ} (hd0 : b.n.header.headDim ∣ d0) :
      lanes ∣ d0 / (d0 / b.n.header.headDim) := by
    cases head_columns hd0 with
    | inl hhead =>
      rw [hhead, hheader]
      exact hvector.headDim
    | inr hzero =>
      rw [hzero]
      exact Nat.dvd_zero lanes
  obtain ⟨_, _, _, hq⟩ := sliceRowMatmul_ok hslices.q
  obtain ⟨_, _, _, hk⟩ := sliceRowMatmul_ok hslices.k
  obtain ⟨_, _, _, hv⟩ := sliceRowMatmul_ok hslices.v
  obtain ⟨_, _, _, hw1⟩ := sliceRowMatmul_ok hslices.w1
  obtain ⟨_, _, _, hw3⟩ := sliceRowMatmul_ok hslices.w3
  obtain ⟨_, _, _, hwo⟩ := sliceColMatmul_ok hslices.wo
  obtain ⟨_, _, _, hw2⟩ := sliceColMatmul_ok hslices.w2
  obtain ⟨_, _, _, hwcls⟩ := sliceColMatmul_ok hslices.wcls
  constructor
  · rw [hheader]
    exact hvector.dim
  · rw [hheader]
    exact hvector.headDim
  · simp only [List.forall_mem_cons, List.not_mem_nil, false_implies, implies_true, and_true]
    rw [hq, hk, hv, hw1, hw3, hheader]
    exact ⟨hvector.dim, hvector.dim, hvector.dim, hvector.dim, hvector.dim⟩
  · simp only [List.forall_mem_cons, List.not_mem_nil, false_implies, implies_true, and_true]
    rw [hwo, hw2, hwcls, hheader]
    exact ⟨hvector.qDim, hvector.ffDim, hvector.part⟩
  · intro hnorm
    rw [LlmShape.nQNormColumns, if_pos hnorm]
    exact hcolumns (hheads hnorm).1
  · intro hnorm
    rw [LlmShape.nKNormColumns, if_pos hnorm]
    exact hcolumns (hheads hnorm).2

/-- No operation of a graph stops at the assertions of the loops over registers when the rows of the
model are whole registers. -/
theorem wholeRegisters_of_build (hvector : VectorHeader lanes topology.tpSize h)
    (hnet : buildLlmNet h topology nBatches ppStageLayerCounts fusedLmHeadArgmax = .ok net)
    {config : NnNodeConfig} (hconfig : config ∈ net.nodeConfigs) :
    ∀ op ∈ config.ops, WholeRegisters (nodeOf h nBatches config) op lanes := by
  obtain ⟨layerOffsets, hshape, _, hlength, hnodes⟩ := buildLlmNet_ok hnet
  obtain ⟨nodeIndex, hlt, hget⟩ := List.mem_iff_getElem.mp hconfig
  obtain ⟨b, hb⟩ := exists_builtNode hshape hnodes (hlength ▸ hlt)
  have hsame := hb.config
  rw [List.getElem?_eq_getElem hlt, hget] at hsame
  injection hsame with hsame
  rw [hsame, hb.node_eq]
  exact wholeRegisters_node (vectorNode_of_build hvector hshape hb.built.shape_eq)

end Graphs

end LayerSkip.VectorLoops
