import LayerSkip.LaneLinks
import LayerSkip.WeightOwnership

/-!
# When all weights are delivered

The root loads a model file of the right length and every node copies what it gets.
All weights of all operations are complete exactly when the sizes fit the words they
are kept in and the loader's owner of a layer is the sequence group of every node
that has the layer.
-/

namespace LayerSkip.WeightLoader

open NnTopology NnPipeline NnCore LlmGraph ByteCover LaneLinks

/-- The loader that the root makes. -/
def rootLoader (topology : NnParallelTopology) (nLayers : ℕ) : NnRootWeightLoader :=
  ⟨topology.nNodes, topology.ppSize, nLayers⟩

/-- After the load every node has each weight of its operations complete. -/
def Delivered (topology : NnParallelTopology) (net : LlmNet) (file : MmapFile) : Prop :=
  ∃ records,
    loadLlmNetWeight (rootLoader topology net.shape.header.nLayers) net file = .ok records ∧
    ∀ nodeIndex config, net.nodeConfigs[nodeIndex]? = some config →
      ∃ parts, nodeWeights config.ops nodeIndex records = .ok parts ∧
        ∀ position op, config.ops[position]? = some op →
          Complete file (loads net) config.placement.tpRank op position parts

section Conditions

variable (topology : NnParallelTopology) (n : LlmShape) (layerOffsets : List ℕ)
  (nodeIndex layerIndex : ℕ)

/-- Stage of a node. -/
def stageOf : ℕ := nodeIndex / (topology.spSize * topology.tpSize)

/-- The stage of a node has a layer. -/
def HasLayer : Prop :=
  layerOffsets.getD (stageOf topology nodeIndex) 0 ≤ layerIndex ∧
    layerIndex < layerOffsets.getD (stageOf topology nodeIndex + 1) 0

/-- The loader takes the sequence group of a node for the owner of a layer. -/
def OwnedBy : Prop :=
  topology.nNodes = 1 ∨
    ∀ owner ∈ getLayerOwnerPpRank layerIndex n.header.nLayers topology.ppSize,
      nodeIndex / topology.tpSize = owner

/-- A layer of a node can be loaded. -/
structure LayerFits : Prop where
  /-- A layer with weights is one of the model's. -/
  inside : ∀ w ∈ layerWeights n layerIndex, 0 < w.weightSize.nBytes → layerIndex < n.header.nLayers
  /-- The loader sends its parts to the node. -/
  owned : ∀ w ∈ slicedWeights n layerIndex, 0 < w.weightSize.nBytes →
    OwnedBy topology n nodeIndex layerIndex
  /-- Words can count the values of all experts, and the bytes before the last one. -/
  experts : n.header.archType = .qwen3Moe → layerIndex < n.header.nLayers →
    OwnedBy topology n nodeIndex layerIndex →
    ∀ slice ∈ [NnWeightSlice.row n.w1Slice, .column n.w2Slice, .row n.w3Slice],
      0 < slice.sliceSize.nBytes →
        n.header.nExperts * values slice.sliceSize < 2 ^ 32 ∧
        (n.header.nExperts - 1) * slice.sliceSize.nBytes < 2 ^ 32

/-- A node can be loaded. -/
structure NodeFits : Prop where
  /-- Each of its layers can be. -/
  layers : ∀ layerIndex, HasLayer topology layerOffsets nodeIndex layerIndex →
    LayerFits topology n nodeIndex layerIndex
  /-- A node of the last stage is in the last of all sequence groups. -/
  logits : stageOf topology nodeIndex = topology.ppSize - 1 → 0 < n.wclsSlice.sliceSize.nBytes →
    topology.nNodes = 1 ∨
      nodeIndex / topology.tpSize = topology.nNodes / topology.tpSize - 1

/-- A model file can be loaded to all nodes. -/
structure FitsLoader (loads : List WeightLoad) : Prop where
  /-- A word can count the values of each tensor. -/
  tensors : ∀ load ∈ loads, values load.source.size < 2 ^ 32
  /-- Rows that are cut consist of whole blocks. -/
  blocks : ∀ load ∈ loads, load.CanSplit (rootLoader topology n.header.nLayers)
  /-- Workers have room for the parts they get. -/
  sent : ∀ nodeIndex < topology.nNodes, nodeIndex ≠ 0 → ∀ load ∈ loads,
    load.source.Reaches (rootLoader topology n.header.nLayers) load.opIndex nodeIndex →
      load.source.partSize.nBytes < 2 ^ 32
  /-- Every node can be loaded. -/
  nodes : ∀ nodeIndex < topology.nNodes, NodeFits topology n layerOffsets nodeIndex

end Conditions

section Ranks

variable {topology : NnParallelTopology}

/-- Ranks of a node in terms of its index. -/
theorem placement_ranks {nodeIndex : ℕ} {placement : NnNodePlacement}
    (h : topology.getPlacement nodeIndex = .ok placement) :
    placement.globalRank = nodeIndex ∧ placement.tpRank = nodeIndex % topology.tpSize ∧
      placement.ppRank = stageOf topology nodeIndex ∧
      (nodeIndex = 0 → placement.tpGroupEnd = topology.tpSize) := by
  unfold NnParallelTopology.getPlacement at h
  split at h
  · cases h
  · injection h with h
    rw [← h]
    refine ⟨Eq.refl _, Nat.mod_mul_left_mod _ _ _, Eq.refl _, ?_⟩
    intro hzero
    simp [hzero]

/-- A single node is a single tensor rank. -/
theorem tpSize_of_single (hf : Factored topology) (h : topology.nNodes = 1) : topology.tpSize = 1 := by
  have hproduct := hf.nNodes_eq
  rw [h, ← Nat.mul_assoc] at hproduct
  exact Nat.eq_one_of_mul_eq_one_left hproduct.symm

theorem tpSize_pos (hf : Factored topology) : 0 < topology.tpSize :=
  Nat.pos_of_mul_pos_left hf.stage_pos

/-- Number of sequence groups. -/
theorem groups_eq (hf : Factored topology) :
    topology.nNodes / topology.tpSize = topology.ppSize * topology.spSize := by
  rw [hf.nNodes_eq, ← Nat.mul_assoc]
  exact Nat.mul_div_cancel _ (tpSize_pos hf)

/-- Nodes that get a part of the logits. -/
theorem logits_reaches (hf : Factored topology) (n : LlmShape)
    (htp : n.wclsSlice.nNodes = topology.tpSize) {nodeIndex : ℕ} (hlt : nodeIndex < topology.nNodes) :
    (WeightSource.slices (.column n.wclsSlice)
      (if 0 < lastPpStage topology.nNodes topology.tpSize then
        some (lastPpStage topology.nNodes topology.tpSize) else none)).Reaches
      (rootLoader topology n.header.nLayers) 0 nodeIndex ↔
    topology.nNodes = 1 ∨
      nodeIndex / topology.tpSize = topology.nNodes / topology.tpSize - 1 := by
  have hgroup : nodeIndex / topology.tpSize < topology.nNodes / topology.tpSize := by
    rw [Nat.div_lt_iff_lt_mul (tpSize_pos hf), groups_eq hf, Nat.mul_assoc, ← hf.nNodes_eq]
    exact hlt
  have hpp : topology.ppSize ≤ topology.nNodes / topology.tpSize := by
    rw [groups_eq hf]
    exact Nat.le_mul_of_pos_right _ (Nat.pos_of_mul_pos_right hf.stage_pos)
  have hpos := hf.pos
  unfold WeightSource.Reaches WeightSource.owner nodeInPpStage rootLoader
  dsimp only [NnWeightSlice.tpSize]
  rw [htp]
  refine or_congr_right' fun hmany => ?_
  have hlast : lastPpStage topology.nNodes topology.tpSize =
      topology.nNodes / topology.tpSize - 1 := if_pos (by omega)
  rw [hlast]
  split
  · simp
  · rename_i hnone
    have hsingle : topology.ppSize ≤ 1 ∨ n.header.nLayers = 0 := Or.inl (by omega)
    rw [getLayerOwnerPpRank, if_pos hsingle]
    constructor
    · intro _
      generalize nodeIndex / topology.tpSize = group at hgroup ⊢
      generalize topology.nNodes / topology.tpSize = groups at hgroup hnone ⊢
      omega
    · intro _ owner howner
      cases howner

end Ranks

section Nodes

variable {topology : NnParallelTopology} {n : LlmShape} {layerOffsets : List ℕ}
  {nodeIndex layerIndex : ℕ}

theorem tensorsOf_pos_iff {count : ℕ} (hcount : 0 < count) :
    0 < tensorsOf n layerIndex count ↔ layerIndex < n.header.nLayers := by
  unfold tensorsOf
  split
  · exact iff_of_true hcount ‹_›
  · exact iff_of_false (Nat.lt_irrefl 0) ‹_›

/-- Nodes that get a part of a weight of a layer. -/
theorem sliced_reaches {slice : NnWeightSlice} (hcut : CutFor slice topology.tpSize) :
    (WeightSource.slices slice none).Reaches (rootLoader topology n.header.nLayers) layerIndex
      nodeIndex ↔ OwnedBy topology n nodeIndex layerIndex := by
  unfold WeightSource.Reaches OwnedBy WeightSource.owner nodeInPpStage rootLoader
  dsimp only
  rw [hcut.2]
  cases slice with
  | row slice => exact Iff.rfl
  | column slice => exact Iff.rfl

/-- Values of the parts are bounded by those of the tensors. -/
theorem values_lt_of_fed {loads : List WeightLoad} {op : NnOpConfig} {experts : ℕ}
    {source : WeightSource} (hfed : Fed loads op experts source) (hexperts : 0 < experts)
    (htensors : ∀ load ∈ loads, values load.source.size < 2 ^ 32) :
    values source.size < 2 ^ 32 := by
  have hmem : (⟨op.name, op.index, 0, source⟩ : WeightLoad) ∈
      (List.range experts).map fun expertIndex => ⟨op.name, op.index, expertIndex, source⟩ :=
    List.mem_map_of_mem (List.mem_range.mpr hexperts)
  rw [← hfed] at hmem
  exact htensors _ (List.mem_filter.mp hmem).1

end Nodes

section Layers

variable {topology : NnParallelTopology} {n : LlmShape} {nodeIndex layerIndex : ℕ} {w : NnWeight}

/-- A part for a node fits a word when the tensor does. -/
theorem part_values_lt {slice : NnWeightSlice} (hcut : CutFor slice topology.tpSize)
    (h : values slice.size < 2 ^ 32) : values slice.sliceSize < 2 ^ 32 :=
  Nat.lt_of_le_of_lt hcut.1.values_le h

/-- What it takes for a weight of a layer with one tensor. -/
theorem one_partsFill_iff (hw : w ∈ layerWeights n layerIndex) (hshaped : Shaped w.weightSize w.source 1)
    (hcount : w.experts = tensorsOf n layerIndex 1)
    (hvalues : 0 < w.experts → values w.source.partSize < 2 ^ 32) :
    PartsFill (rootLoader topology n.header.nLayers) nodeIndex w.index w.weightSize w.experts
      w.source ↔ (0 < w.weightSize.nBytes → layerIndex < n.header.nLayers ∧
        w.source.Reaches (rootLoader topology n.header.nLayers) layerIndex nodeIndex) := by
  rw [partsFill_one_iff hshaped fun hpos => ⟨?_, hvalues hpos⟩, hcount, (layerWeights_key hw).1,
    tensorsOf_pos_iff Nat.one_pos]
  rw [hcount] at hpos ⊢
  exact if_pos ((tensorsOf_pos_iff Nat.one_pos).mp hpos)

/-- What it takes for a weight that is cut, without experts. -/
theorem sliced_partsFill_iff (hw : w ∈ layerWeights n layerIndex)
    (hfacts : Shaped w.weightSize w.source 1 ∧ w.experts = tensorsOf n layerIndex 1 ∧
      ∃ slice, w.source = .slices slice none ∧ CutFor slice topology.tpSize)
    (hbound : 0 < w.experts → values w.source.size < 2 ^ 32) :
    PartsFill (rootLoader topology n.header.nLayers) nodeIndex w.index w.weightSize w.experts
      w.source ↔ (0 < w.weightSize.nBytes → layerIndex < n.header.nLayers ∧
        OwnedBy topology n nodeIndex layerIndex) := by
  obtain ⟨hshaped, hcount, slice, hslice, hcut⟩ := hfacts
  rw [hslice] at hbound
  rw [one_partsFill_iff hw hshaped hcount fun hpos => by
    rw [hslice]; exact part_values_lt hcut (hbound hpos), hslice, sliced_reaches hcut]

/-- What it takes for a weight that every node has whole. -/
theorem whole_partsFill_iff (topology : NnParallelTopology) (nodeIndex : ℕ)
    (hw : w ∈ wholeWeights n layerIndex)
    (hbound : 0 < w.experts → values w.source.size < 2 ^ 32) :
    PartsFill (rootLoader topology n.header.nLayers) nodeIndex w.index w.weightSize w.experts
      w.source ↔ (0 < w.weightSize.nBytes → layerIndex < n.header.nLayers) := by
  have hmem : w ∈ layerWeights n layerIndex := List.mem_append_right _ hw
  obtain ⟨hshaped, hcount, size, hsize⟩ := wholeWeights_facts hw
  rw [hsize] at hbound
  rw [one_partsFill_iff hmem hshaped hcount fun hpos => by rw [hsize]; exact hbound hpos, hsize]
  exact imp_congr_right fun _ => and_iff_left trivial

/-- What it takes for a weight of experts. -/
theorem moe_partsFill_iff (hs : ShapeOf n topology.tpSize) (hexperts : 0 < n.header.nExperts)
    (hw : w ∈ layerWeights n layerIndex) (hmem : w ∈ moeWeights n layerIndex)
    (hbound : 0 < w.experts → values w.source.size < 2 ^ 32) :
    PartsFill (rootLoader topology n.header.nLayers) nodeIndex w.index w.weightSize w.experts
      w.source ↔ (0 < w.weightSize.nBytes → layerIndex < n.header.nLayers ∧
        OwnedBy topology n nodeIndex layerIndex) ∧
      (layerIndex < n.header.nLayers → OwnedBy topology n nodeIndex layerIndex →
        0 < w.source.partSize.nBytes →
          n.header.nExperts * values w.source.partSize < 2 ^ 32 ∧
          (n.header.nExperts - 1) * w.source.partSize.nBytes < 2 ^ 32) := by
  obtain ⟨hshaped, hcount, slice, hslice, hcut⟩ := moe_facts hs hmem
  rw [partsFill_iff hshaped fun hpos => ⟨?_, ?_⟩, hcount, (layerWeights_key hw).1,
    tensorsOf_pos_iff hexperts, hslice, sliced_reaches hcut]
  · rw [hcount] at hpos ⊢
    exact if_pos ((tensorsOf_pos_iff hexperts).mp hpos)
  · rw [hslice] at hbound ⊢
    exact part_values_lt hcut (hbound hpos)

/-- Slices of the experts are those of their weights. -/
theorem mem_moe_slices {slice : NnWeightSlice} :
    slice ∈ [NnWeightSlice.row n.w1Slice, .column n.w2Slice, .row n.w3Slice] ↔
      ∃ w ∈ moeWeights n layerIndex, w.source = .slices slice none := by
  simp [moeWeights, eq_comm]

/-- Weights of the experts are cut weights of the layer. -/
theorem moe_sliced (harch : n.header.archType = .qwen3Moe) (hw : w ∈ moeWeights n layerIndex) :
    w ∈ slicedWeights n layerIndex := by
  unfold slicedWeights
  rw [if_pos harch]
  exact List.mem_append_right _ hw

/-- What it takes for a cut weight of a layer. -/
theorem cut_partsFill_iff (nodeIndex : ℕ) (hs : ShapeOf n topology.tpSize)
    (hexperts : 0 < n.header.nExperts ↔ n.header.archType = .qwen3Moe)
    (hw : w ∈ slicedWeights n layerIndex)
    (hbound : 0 < w.experts → values w.source.size < 2 ^ 32) :
    PartsFill (rootLoader topology n.header.nLayers) nodeIndex w.index w.weightSize w.experts
      w.source ↔ (0 < w.weightSize.nBytes → layerIndex < n.header.nLayers ∧
        OwnedBy topology n nodeIndex layerIndex) ∧
      (n.header.archType = .qwen3Moe → w ∈ moeWeights n layerIndex →
        layerIndex < n.header.nLayers → OwnedBy topology n nodeIndex layerIndex →
        0 < w.source.partSize.nBytes →
          n.header.nExperts * values w.source.partSize < 2 ^ 32 ∧
          (n.header.nExperts - 1) * w.source.partSize.nBytes < 2 ^ 32) := by
  have hmem : w ∈ layerWeights n layerIndex := List.mem_append_left _ hw
  have hnames (hatt : w ∈ attentionWeights n layerIndex) : w ∉ moeWeights n layerIndex := by
    intro hmoe
    simp only [attentionWeights, moeWeights, List.mem_cons, List.not_mem_nil, or_false] at hatt hmoe
    rcases hatt with rfl | rfl | rfl | rfl <;> simp at hmoe
  rcases slicedWeights_cases hw with hatt | ⟨harch, hmoe⟩ | ⟨harch, hdense⟩
  · rw [sliced_partsFill_iff hmem (attention_facts hs hatt) hbound]
    exact (and_iff_left fun _ hmoe => absurd hmoe (hnames hatt)).symm
  · rw [moe_partsFill_iff hs (hexperts.mpr harch) hmem hmoe hbound]
    exact and_congr_right fun _ => ⟨fun h _ _ => h, fun h => h harch hmoe⟩
  · rw [sliced_partsFill_iff hmem (dense_facts hs hdense) hbound]
    exact (and_iff_left fun hmoe => absurd hmoe harch).symm

/-- What it takes for a layer of a node. -/
theorem layer_partsFill_iff (hs : ShapeOf n topology.tpSize)
    (hexperts : 0 < n.header.nExperts ↔ n.header.archType = .qwen3Moe)
    (hbound : ∀ w ∈ layerWeights n layerIndex, 0 < w.experts → values w.source.size < 2 ^ 32) :
    (∀ w ∈ layerWeights n layerIndex,
      PartsFill (rootLoader topology n.header.nLayers) nodeIndex w.index w.weightSize w.experts
        w.source) ↔ LayerFits topology n nodeIndex layerIndex := by
  have hcut (w : NnWeight) (hw : w ∈ slicedWeights n layerIndex) :=
    cut_partsFill_iff nodeIndex hs hexperts hw (hbound w (List.mem_append_left _ hw))
  have hwhole (w : NnWeight) (hw : w ∈ wholeWeights n layerIndex) :=
    whole_partsFill_iff topology nodeIndex hw
      (hbound w (List.mem_append_right _ hw))
  constructor
  · intro h
    refine ⟨fun w hw hbytes => ?_, fun w hw hbytes => ?_, ?_⟩
    · cases List.mem_append.mp hw with
      | inl hsliced => exact (((hcut w hsliced).mp (h w hw)).1 hbytes).1
      | inr hrest => exact (hwhole w hrest).mp (h w hw) hbytes
    · exact (((hcut w hw).mp (h w (List.mem_append_left _ hw))).1 hbytes).2
    · intro harch hlayer howned slice hslice hbytes
      obtain ⟨w, hw, hsource⟩ := mem_moe_slices.mp hslice
      have hsliced := moe_sliced harch hw
      have hfits := ((hcut w hsliced).mp (h w (List.mem_append_left _ hsliced))).2 harch hw hlayer
        howned
      rw [hsource] at hfits
      exact hfits hbytes
  · intro h w hw
    cases List.mem_append.mp hw with
    | inl hsliced =>
      refine (hcut w hsliced).mpr ⟨fun hbytes => ⟨h.inside w hw hbytes, h.owned w hsliced hbytes⟩,
        ?_⟩
      intro harch hmoe hlayer howned hbytes
      obtain ⟨_, _, slice, hsource, _⟩ := moe_facts hs hmoe
      have hslice := mem_moe_slices.mpr ⟨w, hmoe, hsource⟩
      have hfits := h.experts harch hlayer howned slice hslice
      rw [hsource] at hbytes ⊢
      exact hfits hbytes
    | inr hrest => exact (hwhole w hrest).mpr (h.inside w hw)

end Layers

section Delivery

variable {topology : NnParallelTopology} {h : LlmHeader} {nBatches nodeIndex : ℕ}
  {ppStageLayerCounts : Option (List ℕ)} {fusedLmHeadArgmax : Bool} {net : LlmNet}
  {layerOffsets : List ℕ} {b : NnNodeBuilder} {file : MmapFile}

/-- What it takes for the weights of the final segment. -/
theorem final_partsFill_iff {n : LlmShape} (hf : Factored topology) (hlt : nodeIndex < topology.nNodes)
    (hs : ShapeOf n topology.tpSize)
    (hbound : ∀ w ∈ finalWeights n topology.nNodes topology.tpSize, 0 < w.experts →
      values w.source.size < 2 ^ 32) :
    (∀ w ∈ finalWeights n topology.nNodes topology.tpSize,
      PartsFill (rootLoader topology n.header.nLayers) nodeIndex w.index w.weightSize w.experts
        w.source) ↔ (0 < n.wclsSlice.sliceSize.nBytes → topology.nNodes = 1 ∨
          nodeIndex / topology.tpSize = topology.nNodes / topology.tpSize - 1) := by
  have hcut := column_cut hs.wcls
  have hsize : size2D n.header.weightType n.wclsSlice.n0 n.wclsSlice.d = n.wclsSlice.sliceSize := by
    obtain ⟨_, _, _, hslice⟩ := sliceColMatmul_ok hs.wcls
    rw [hslice]
  unfold finalWeights at hbound ⊢
  rw [List.forall_mem_cons, List.forall_mem_singleton] at hbound ⊢
  have hnorm : PartsFill (rootLoader topology n.header.nLayers) nodeIndex 0 n.rmsNormSize 1
      (.all n.rmsNormSize) :=
    (partsFill_one_iff (whole_shaped 1 n.header.dim).1 fun hpos => ⟨Eq.refl _, hbound.1 hpos⟩).mpr
      fun _ => ⟨Nat.one_pos, trivial⟩
  refine (and_iff_right hnorm).trans ((partsFill_one_iff (column_shaped hs.wcls 1 _) fun hpos =>
    ⟨Eq.refl _, part_values_lt hcut (hbound.2 hpos)⟩).trans ?_)
  rw [logits_reaches hf n hcut.2 hlt, ← hsize]
  exact imp_congr_right fun _ => and_iff_right Nat.one_pos

/-- What it takes for the weights of a node. -/
theorem node_partsFill_iff (hf : Factored topology) (hlt : nodeIndex < topology.nNodes)
    (hs : ShapeOf b.n topology.tpSize)
    (hexperts : 0 < b.n.header.nExperts ↔ b.n.header.archType = .qwen3Moe)
    (hb : BuiltFrom b.n topology layerOffsets nodeIndex b)
    (hbound : ∀ w ∈ stageWeights b topology.nNodes topology.tpSize, 0 < w.experts →
      values w.source.size < 2 ^ 32) :
    (∀ w ∈ stageWeights b topology.nNodes topology.tpSize,
      PartsFill (rootLoader topology b.n.header.nLayers) nodeIndex w.index w.weightSize w.experts
        w.source) ↔ NodeFits topology b.n layerOffsets nodeIndex := by
  obtain ⟨hglobal, _, hpp, _⟩ := placement_ranks hb.placement_eq
  have htopology := hb.topology_eq
  have hlayers (layerIndex : ℕ) : layerIndex ∈ b.layers ↔
      HasLayer topology layerOffsets nodeIndex layerIndex := by
    unfold NnNodeBuilder.layers HasLayer
    rw [List.mem_range'_1, hb.layerStart_eq, hb.layerEnd_eq, hpp]
    omega
  have hlayer (layerIndex : ℕ) (hmem : layerIndex ∈ b.layers) :
      (∀ w ∈ layerWeights b.n layerIndex,
        PartsFill (rootLoader topology b.n.header.nLayers) nodeIndex w.index w.weightSize w.experts
          w.source) ↔ LayerFits topology b.n nodeIndex layerIndex :=
    layer_partsFill_iff hs hexperts fun w hw => hbound w (List.mem_append_left _
      (List.mem_append_right _ (List.mem_flatMap.mpr ⟨layerIndex, hmem, hw⟩)))
  have hembedding : ∀ w ∈ (if b.nodePlacement.ppRank = 0 ∧ b.nodePlacement.globalRank = 0 then
      [embeddingWeight b.n] else []), PartsFill (rootLoader topology b.n.header.nLayers) nodeIndex
        w.index w.weightSize w.experts w.source := by
    intro w hw
    have hvalues := hbound w (List.mem_append_left _ (List.mem_append_left _ hw))
    split at hw
    · rename_i hroot
      rw [List.mem_singleton.mp hw] at hvalues ⊢
      refine (partsFill_one_iff (whole_shaped _ _).2 fun hpos => ⟨Eq.refl _, hvalues hpos⟩).mpr ?_
      intro _
      exact ⟨Nat.one_pos, hglobal.symm.trans hroot.2⟩
    · exact absurd hw List.not_mem_nil
  have hfinal : (∀ w ∈ (if b.nodePlacement.ppRank = b.topology.ppSize - 1 then
      finalWeights b.n topology.nNodes topology.tpSize else []),
        PartsFill (rootLoader topology b.n.header.nLayers) nodeIndex w.index w.weightSize w.experts
          w.source) ↔ (stageOf topology nodeIndex = topology.ppSize - 1 →
            0 < b.n.wclsSlice.sliceSize.nBytes → topology.nNodes = 1 ∨
              nodeIndex / topology.tpSize = topology.nNodes / topology.tpSize - 1) := by
    rw [hpp, htopology]
    have hbound' (w : NnWeight) (hw : w ∈ (if stageOf topology nodeIndex = topology.ppSize - 1 then
        finalWeights b.n topology.nNodes topology.tpSize else [])) :=
      hbound w (List.mem_append_right _ (by rw [hpp, htopology]; exact hw))
    split at hbound'
    · rename_i hstage
      rw [if_pos hstage, imp_iff_right hstage]
      exact final_partsFill_iff hf hlt hs hbound'
    · rename_i hstage
      rw [if_neg hstage]
      exact iff_of_true (fun _ hw => absurd hw List.not_mem_nil) fun h => absurd h hstage
  unfold stageWeights
  rw [List.forall_mem_append, List.forall_mem_append]
  constructor
  · intro hboth
    obtain ⟨⟨_, hrows⟩, hlast⟩ := hboth
    refine ⟨fun layerIndex hhas => ?_, hfinal.mp hlast⟩
    have hmem := (hlayers layerIndex).mpr hhas
    exact (hlayer layerIndex hmem).mp fun w hw =>
      hrows w (List.mem_flatMap.mpr ⟨layerIndex, hmem, hw⟩)
  · intro hfits
    refine ⟨⟨hembedding, ?_⟩, hfinal.mpr hfits.logits⟩
    intro w hw
    obtain ⟨layerIndex, hmem, hw⟩ := List.mem_flatMap.mp hw
    exact (hlayer layerIndex hmem).mpr (hfits.layers layerIndex ((hlayers layerIndex).mp hmem)) w hw

/-- What it takes for a node to copy what it gets. -/
theorem copied_iff (file : MmapFile) (loads : List WeightLoad) {loader : NnRootWeightLoader}
    (tpSize : ℕ) (hlt : nodeIndex < loader.nNodes) (hkeys : ((nodeOps b fusedLmHeadArgmax).map opKey).Nodup)
    (parts : List Applied) :
    nodeWeights (nodeOps b fusedLmHeadArgmax) nodeIndex (allParts loader tpSize file loads) =
        .ok parts ↔
      (nodeIndex ≠ 0 → ∀ load ∈ loads, load.source.Reaches loader load.opIndex nodeIndex →
        load.source.partSize.nBytes < 2 ^ 32) ∧
      EndInside (nodeOps b fusedLmHeadArgmax) (nodeRecords loader tpSize file loads nodeIndex) ∧
      parts = (nodeRecords loader tpSize file loads nodeIndex).filterMap
        (applied (nodeOps b fusedLmHeadArgmax)) := by
  have hrecords : recordsOf nodeIndex (allParts loader tpSize file loads) =
      nodeRecords loader tpSize file loads nodeIndex := recordsOf_allParts hlt loads
  have hsent : (∀ record ∈ nodeRecords loader tpSize file loads nodeIndex,
      record.weight.length < 2 ^ 32) ↔
      ∀ load ∈ loads, load.source.Reaches loader load.opIndex nodeIndex →
        load.source.partSize.nBytes < 2 ^ 32 := by
    have hlength (load : WeightLoad) (tpRank : ℕ) (weight : ℕ → UInt8) :
        (load.record tpRank weight).weight.length = load.source.partSize.nBytes := by
      unfold WeightLoad.record
      rw [List.length_map, List.length_range]
    constructor
    · intro h load hload hreach
      rw [← map_snd_placed file.headerSize loads] at hload
      obtain ⟨at0, hat0, hsnd⟩ := List.mem_map.mp hload
      rw [← hsnd] at hreach ⊢
      rw [← hlength at0.2 (nodeIndex % tpSize) fun i => file.data (at0.1 + i)]
      exact h _ (List.mem_map_of_mem (List.mem_filter.mpr ⟨hat0, decide_eq_true hreach⟩))
    · intro h record hrecord
      obtain ⟨at0, hat0, hmade⟩ := List.mem_map.mp hrecord
      have hin := List.mem_filter.mp hat0
      rw [← hmade, hlength]
      exact h at0.2 (mem_of_mem_placed hin.1) (of_decide_eq_true hin.2)
  unfold nodeWeights
  rw [hrecords]
  split
  · rename_i hzero
    rw [loadWeights_eq_ok_iff hkeys]
    exact (and_iff_right fun hne => absurd hzero hne).symm
  · rename_i hne
    rw [readWeights_eq_ok_iff (by decide), loadWeights_eq_ok_iff hkeys, hsent, imp_iff_right hne]

/-- The tensors of the file for a weight of a node. -/
theorem fed_stage {nNodes tpSize : ℕ}
    (hexperts : 0 < b.n.header.nExperts ↔ b.n.header.archType = .qwen3Moe) {w : NnWeight}
    (hw : w ∈ stageWeights b nNodes tpSize) {op : NnOpConfig} (hweighs : Weighs op w) :
    Fed (netLoads b.n nNodes tpSize) op w.experts w.source := by
  have houter (hmem : w ∈ embeddingWeight b.n :: finalWeights b.n nNodes tpSize) :=
    fed_outer hmem hweighs.1 hweighs.2.1
  rcases List.mem_append.mp hw with hw | hw
  · rcases List.mem_append.mp hw with hw | hw
    · split at hw
      · rw [List.mem_singleton] at hw
        exact houter (hw ▸ List.mem_cons_self)
      · exact absurd hw List.not_mem_nil
    · obtain ⟨layerIndex, _, hw⟩ := List.mem_flatMap.mp hw
      exact fed_layer hexperts hw hweighs.1 (hweighs.2.1.trans (layerWeights_key hw).1)
  · split at hw
    · exact houter (List.mem_cons_of_mem _ hw)
    · exact absurd hw List.not_mem_nil

/-- Weights of a node have planes of the size of their parts. -/
theorem shaped_stage {nNodes tpSize : ℕ} (hs : ShapeOf b.n tpSize) {w : NnWeight}
    (hw : w ∈ stageWeights b nNodes tpSize) : ∃ E, Shaped w.weightSize w.source E := by
  rcases List.mem_append.mp hw with hw | hw
  · rcases List.mem_append.mp hw with hw | hw
    · split at hw
      · rw [List.mem_singleton.mp hw]
        exact ⟨1, (whole_shaped _ _).2⟩
      · exact absurd hw List.not_mem_nil
    · obtain ⟨layerIndex, _, hw⟩ := List.mem_flatMap.mp hw
      rcases List.mem_append.mp hw with hw | hw
      · rcases slicedWeights_cases hw with hw | ⟨_, hw⟩ | ⟨_, hw⟩
        · exact ⟨1, (attention_facts hs hw).1⟩
        · exact ⟨b.n.header.nExperts, (moe_facts hs hw).1⟩
        · exact ⟨1, (dense_facts hs hw).1⟩
      · exact ⟨1, (wholeWeights_facts hw).1⟩
  · split at hw
    · unfold finalWeights at hw
      rcases List.mem_cons.mp hw with rfl | hw
      · exact ⟨1, (whole_shaped _ _).1⟩
      · rw [List.mem_singleton.mp hw]
        exact ⟨1, column_shaped hs.wcls 1 _⟩
    · exact absurd hw List.not_mem_nil

/-- What it takes for a node to have all weights complete. -/
theorem delivered_node_iff (hf : Factored topology) (hlt : nodeIndex < topology.nNodes)
    (hs : ShapeOf b.n topology.tpSize)
    (hexperts : 0 < b.n.header.nExperts ↔ b.n.header.archType = .qwen3Moe)
    (hb : BuiltFrom b.n topology layerOffsets nodeIndex b) {loads : List WeightLoad}
    (hloads : loads = netLoads b.n topology.nNodes topology.tpSize)
    (htensors : ∀ load ∈ loads, values load.source.size < 2 ^ 32) :
    (∃ parts, nodeWeights (nodeOps b fusedLmHeadArgmax) nodeIndex
        (allParts (rootLoader topology b.n.header.nLayers) topology.tpSize file loads) = .ok parts ∧
      ∀ position op, (nodeOps b fusedLmHeadArgmax)[position]? = some op →
        Complete file loads b.nodePlacement.tpRank op position parts) ↔
    (nodeIndex ≠ 0 → ∀ load ∈ loads,
      load.source.Reaches (rootLoader topology b.n.header.nLayers) load.opIndex nodeIndex →
        load.source.partSize.nBytes < 2 ^ 32) ∧
      NodeFits topology b.n layerOffsets nodeIndex := by
  obtain ⟨_, htp, _, _⟩ := placement_ranks hb.placement_eq
  have hfed (w : NnWeight) (hw : w ∈ stageWeights b topology.nNodes topology.tpSize)
      (op : NnOpConfig) (hweighs : Weighs op w) : Fed loads op w.experts w.source := by
    rw [hloads]
    exact fed_stage hexperts hw hweighs
  have hnone (op : NnOpConfig) (hop : Weightless op) : Fed loads op 0 (.root size0) := by
    rw [hloads]
    exact filter_netLoads_none hop.2.1 hop.2.2
  have hplane (w : NnWeight) (hw : w ∈ stageWeights b topology.nNodes topology.tpSize)
      (_ : 0 < w.weightSize.nBytes) : w.weightSize.nBytesXY = w.source.partSize.nBytes := by
    obtain ⟨E, hshaped⟩ := shaped_stage hs hw
    exact hshaped.plane
  have hbound (w : NnWeight) (hw : w ∈ stageWeights b topology.nNodes topology.tpSize)
      (hpos : 0 < w.experts) : values w.source.size < 2 ^ 32 := by
    obtain ⟨op, _, hweighs⟩ := stageWeights_present b fusedLmHeadArgmax _ _ w hw
    exact values_lt_of_fed (hfed w hw op hweighs) hpos htensors
  have hkeys := nodeOps_nodup b fusedLmHeadArgmax
  have hcomplete := node_complete_iff (rootLoader topology b.n.header.nLayers) nodeIndex file
    fusedLmHeadArgmax hfed hnone hplane
  rw [node_partsFill_iff hf hlt hs hexperts hb hbound, ← htp] at hcomplete
  rw [← hcomplete]
  have hinside : nodeIndex < (rootLoader topology b.n.header.nLayers).nNodes := hlt
  have hcopied := copied_iff file loads topology.tpSize hinside hkeys
  constructor
  · intro hboth
    obtain ⟨parts, hparts, hall⟩ := hboth
    obtain ⟨hsent, hends, hresult⟩ := (hcopied parts).mp hparts
    exact ⟨hsent, hends, hresult ▸ hall⟩
  · intro hboth
    obtain ⟨hsent, hends, hall⟩ := hboth
    exact ⟨_, (hcopied _).mpr ⟨hsent, hends, Eq.refl _⟩, hall⟩

/-- In a grid of ranks the load delivers all weights exactly when the file fits the
loader. -/
theorem delivered_iff (hf : Factored topology)
    (hexperts : 0 < h.nExperts ↔ h.archType = .qwen3Moe)
    (hoffsets : buildLayerStartOffsets h.nLayers topology.ppSize ppStageLayerCounts =
      .ok layerOffsets)
    (hnet : buildLlmNet h topology nBatches ppStageLayerCounts fusedLmHeadArgmax = .ok net)
    (hfile : file.Of net) :
    Delivered topology net file ↔ FitsLoader topology net.shape layerOffsets (loads net) := by
  obtain ⟨layerOffsets', hshape, hoffsets', hlength, hnodes⟩ := buildLlmNet_ok hnet
  rw [hoffsets] at hoffsets'
  injection hoffsets' with hoffsets'
  rw [← hoffsets'] at hnodes
  obtain ⟨hheader, hs⟩ := shapeOf_of_build hshape
  rw [← hheader] at hexperts
  have hloads : loads net = netLoads net.shape topology.nNodes topology.tpSize := by
    obtain ⟨b, hb, hconfig⟩ := hnodes 0 hf.pos
    obtain ⟨_, _, _, hend⟩ := placement_ranks hb.placement_eq
    unfold loads
    rw [hlength, hconfig, Option.map_some, Option.getD_some, hend (Eq.refl _)]
  have hproper (load : WeightLoad) (hmem : load ∈ loads net) :
      load.Proper topology.tpSize ∧ Sized load.source.size :=
    netLoads_proper hs (hloads ▸ hmem)
  have hload := loadLlmNetWeight_eq_ok_iff (rootLoader topology net.shape.header.nLayers) hfile
    hf.pos (tpSize_of_single hf) hproper
  have hnode (htensors : ∀ load ∈ loads net, values load.source.size < 2 ^ 32) (nodeIndex : ℕ)
      (hlt : nodeIndex < topology.nNodes) : ∃ config, net.nodeConfigs[nodeIndex]? = some config ∧
      ((∃ parts, nodeWeights config.ops nodeIndex
          (allParts (rootLoader topology net.shape.header.nLayers) topology.tpSize file (loads net)) =
            .ok parts ∧
        ∀ position op, config.ops[position]? = some op →
          Complete file (loads net) config.placement.tpRank op position parts) ↔
      (nodeIndex ≠ 0 → ∀ load ∈ loads net,
        load.source.Reaches (rootLoader topology net.shape.header.nLayers) load.opIndex nodeIndex →
          load.source.partSize.nBytes < 2 ^ 32) ∧
        NodeFits topology net.shape layerOffsets nodeIndex) := by
    obtain ⟨b, hb, hconfig⟩ := hnodes nodeIndex hlt
    have hshape := hb.shape_eq
    rw [← hshape] at hb hs hexperts hloads ⊢
    exact ⟨_, hconfig, delivered_node_iff hf hlt hs hexperts hb hloads htensors⟩
  constructor
  · intro hboth
    obtain ⟨records, hrecords, hall⟩ := hboth
    obtain ⟨htensors, hblocks, hparts⟩ := (hload records).mp hrecords
    rw [hparts] at hall
    refine ⟨htensors, hblocks, ?_, ?_⟩
    · intro nodeIndex hlt
      obtain ⟨config, hconfig, hiff⟩ := hnode htensors nodeIndex hlt
      exact (hiff.mp (hall nodeIndex config hconfig)).1
    · intro nodeIndex hlt
      obtain ⟨config, hconfig, hiff⟩ := hnode htensors nodeIndex hlt
      exact (hiff.mp (hall nodeIndex config hconfig)).2
  · intro hfits
    refine ⟨_, (hload _).mpr ⟨hfits.tensors, hfits.blocks, Eq.refl _⟩, ?_⟩
    intro nodeIndex config hconfig
    have hlt : nodeIndex < topology.nNodes := by
      rw [← hlength]
      exact (List.getElem?_eq_some_iff.mp hconfig).1
    obtain ⟨other, hother, hiff⟩ := hnode hfits.tensors nodeIndex hlt
    rw [hconfig] at hother
    injection hother with hother
    rw [hother]
    exact hiff.mpr ⟨hfits.sent nodeIndex hlt, hfits.nodes nodeIndex hlt⟩

/-- For a file that consists of the tensors of the graph, and a grid of `pp`, `sp` and
`tp` ranks, the load delivers all weights exactly when the file fits the loader. -/
theorem weights_delivered_iff {nNodes ppSize spSize : NnUint}
    (hcreate : createPPxSPxTPTopology nNodes ppSize spSize = .ok topology)
    (hgrid : ppSize.toNat * spSize.toNat < 2 ^ 32)
    (hexperts : 0 < h.nExperts ↔ h.archType = .qwen3Moe)
    (hoffsets : buildLayerStartOffsets h.nLayers topology.ppSize ppStageLayerCounts =
      .ok layerOffsets)
    (hnet : buildLlmNet h topology nBatches ppStageLayerCounts fusedLmHeadArgmax = .ok net)
    (hfile : file.Of net) :
    Delivered topology net file ↔ FitsLoader topology net.shape layerOffsets (loads net) :=
  delivered_iff (factored_of_create hcreate hgrid) hexperts hoffsets hnet hfile

end Delivery

/-- A model of one layer. -/
def smallHeader : LlmHeader :=
  ⟨.llama, 4, 1, 2, 2, 2, 0, 0, 4, 4, 0, 4, 4, 8, .llama, .f32, .f32⟩

/-- A file of the right length. -/
def blankFile (net : LlmNet) : MmapFile :=
  ⟨0, ((loads net).map fun load => fileBytes load.source.size).sum, fun _ => 0⟩

theorem blankFile_of (net : LlmNet) : (blankFile net).Of net := (Nat.zero_add _).symm

theorem weights_delivered_iff_small : createPPxSPxTPTopology 2 2 1 = .ok ⟨2, 2, 1, 1⟩ ∧
    ∃ net, buildLlmNet { smallHeader with nLayers := 2 } ⟨2, 2, 1, 1⟩ 1 none false = .ok net ∧
      (Delivered ⟨2, 2, 1, 1⟩ net (blankFile net) ↔
        FitsLoader ⟨2, 2, 1, 1⟩ net.shape [0, 1, 2] (loads net)) := by
  have hcreate : createPPxSPxTPTopology 2 2 1 = .ok ⟨2, 2, 1, 1⟩ := by decide
  have hok : (buildLlmNet { smallHeader with nLayers := 2 } ⟨2, 2, 1, 1⟩ 1 none false).isOk =
      true := by decide +kernel
  refine ⟨hcreate, ?_⟩
  cases hnet : buildLlmNet { smallHeader with nLayers := 2 } ⟨2, 2, 1, 1⟩ 1 none false with
  | error text =>
    rw [hnet] at hok
    cases hok
  | ok net =>
    exact ⟨net, Eq.refl _, weights_delivered_iff hcreate (by decide) (by decide) (by decide) hnet
      (blankFile_of net)⟩

/-- Two sequence ranks in one stage: the logits only reach the second. -/
theorem not_delivered_sequence : createPPxSPxTPTopology 2 1 2 = .ok ⟨2, 1, 2, 1⟩ ∧
    ∃ net, buildLlmNet smallHeader ⟨2, 1, 2, 1⟩ 1 none false = .ok net ∧
      ¬Delivered ⟨2, 1, 2, 1⟩ net (blankFile net) := by
  have hcreate : createPPxSPxTPTopology 2 1 2 = .ok ⟨2, 1, 2, 1⟩ := by decide
  have hok : (buildLlmNet smallHeader ⟨2, 1, 2, 1⟩ 1 none false).isOk = true := by decide +kernel
  refine ⟨hcreate, ?_⟩
  cases hnet : buildLlmNet smallHeader ⟨2, 1, 2, 1⟩ 1 none false with
  | error text =>
    rw [hnet] at hok
    cases hok
  | ok net =>
    refine ⟨net, Eq.refl _, ?_⟩
    intro hdelivered
    have hoffsets : buildLayerStartOffsets 1 1 none = .ok [0, 1] := by decide
    have hfits := (delivered_iff (factored_of_create hcreate (by decide)) (by decide) hoffsets hnet
      (blankFile_of net)).mp hdelivered
    obtain ⟨_, hshape, _⟩ := buildLlmNet_ok hnet
    obtain ⟨_, _, _, hslice⟩ := sliceColMatmul_ok (buildShape_ok hshape).2.2.2.2.2.2.2.2.2
    have hbytes : 0 < net.shape.wclsSlice.sliceSize.nBytes := by
      rw [hslice]
      decide
    have hlogits := (hfits.nodes 0 (by decide)).logits (by decide) hbytes
    exact absurd hlogits (by decide)

end LayerSkip.WeightLoader
