import LayerSkip.WeightCoverage

/-!
# Which node owns a layer

The builder gives a node the layers of its pipeline stage. The loader computes an
owner for each layer from the number of layers and stages, and compares it with the
index of the sequence group of a node. Weights are complete on all nodes when the two
agree wherever there is something to load.
-/

namespace LayerSkip.WeightLoader

open NnTopology NnPipeline NnCore LlmGraph ByteCover

/-- Weights of a node. -/
def stageWeights (b : NnNodeBuilder) (nNodes tpSize : ℕ) : List NnWeight :=
  (if b.nodePlacement.ppRank = 0 ∧ b.nodePlacement.globalRank = 0 then [embeddingWeight b.n]
  else []) ++
  b.layers.flatMap (layerWeights b.n) ++
  (if b.nodePlacement.ppRank = b.topology.ppSize - 1 then finalWeights b.n nNodes tpSize else [])

section Segments

variable {b : NnNodeBuilder} {fused : Bool} {nNodes tpSize : ℕ}

/-- Operations of a node. -/
def nodeOps (b : NnNodeBuilder) (fused : Bool) : List NnOpConfig :=
  (b.segments fused).flatMap NnSegmentConfig.ops

theorem nodeOps_eq : nodeOps b fused = b.start.ops ++
    b.layers.flatMap (fun layerIndex => (b.att layerIndex).ops ++ (b.ff layerIndex).ops) ++
    (if b.nodePlacement.ppRank < b.topology.ppSize - 1 then NnNodeBuilder.bridge.ops else []) ++
    (if b.nodePlacement.ppRank = b.topology.ppSize - 1 then (b.finalSegment fused).ops else []) := by
  unfold nodeOps NnNodeBuilder.segments
  rw [List.flatMap_append, List.flatMap_append, List.flatMap_append, List.flatMap_singleton,
    List.flatMap_assoc]
  congr 1
  · congr 1
    · congr 1
      refine List.flatMap_congr fun layerIndex _ => ?_
      rw [List.flatMap_cons, List.flatMap_singleton]
    · split
      · exact List.flatMap_singleton _ _
      · exact Eq.refl _
  · split
    · exact List.flatMap_singleton _ _
    · exact Eq.refl _

theorem start_covered : Covered b.start.ops
    (if b.nodePlacement.ppRank = 0 ∧ b.nodePlacement.globalRank = 0 then [embeddingWeight b.n]
    else []) := by
  unfold NnNodeBuilder.start
  dsimp only
  split
  · simp [Covered, embeddingWeight, Weighs]
  · exact covered_nil

theorem bridge_covered {weights : List NnWeight} : Covered NnNodeBuilder.bridge.ops weights := by
  simp [Covered, NnNodeBuilder.bridge, Weightless, layerLoadNames, outerLoadNames]

theorem finalSegment_covered :
    Covered (b.finalSegment fused).ops (finalWeights b.n nNodes tpSize) := by
  have hadd : Covered [⟨.mergeAdd, "final_merge_add", 0, pointerBatchConfig (.pipe .zq),
      pointerBatchConfig (.buffer .x), size0, .empty⟩] (finalWeights b.n nNodes tpSize) :=
    covered_of_weightless ⟨rfl, by simp [layerLoadNames], by simp [outerLoadNames]⟩
  have hnorm : Covered (b.normOps "final_norm_pre" "final_norm" 0) (finalWeights b.n nNodes tpSize) :=
    normOps_covered ⟨by simp [layerLoadNames], by simp [outerLoadNames]⟩
      ⟨_, List.mem_cons_self, rfl, rfl, rfl⟩
  have hcast : Covered (b.castYOps "final_cast_y" 0) (finalWeights b.n nNodes tpSize) :=
    castYOps_covered ⟨by simp [layerLoadNames], by simp [outerLoadNames]⟩
  refine ((hadd.append hnorm).append hcast).append ?_
  unfold NnNodeBuilder.logitsOps
  split
  · simp [Covered, finalWeights, Weighs, Weightless, layerLoadNames, outerLoadNames]
  · simp [Covered, finalWeights, Weighs]

theorem finalWeights_present :
    Present (finalWeights b.n nNodes tpSize) (b.finalSegment fused).ops := by
  by_cases hq : b.n.Quantized <;> cases fused <;>
    simp [Present, finalWeights, NnNodeBuilder.finalSegment, NnNodeBuilder.logitsOps,
      NnNodeBuilder.normOps, NnNodeBuilder.castYOps, Weighs, hq]

/-- Operations of a node have no weight or one of the node's. -/
theorem nodeOps_covered (b : NnNodeBuilder) (fused : Bool) (nNodes tpSize : ℕ) :
    Covered (nodeOps b fused) (stageWeights b nNodes tpSize) := by
  have hlayers : Covered (b.layers.flatMap fun layerIndex =>
      (b.att layerIndex).ops ++ (b.ff layerIndex).ops) (b.layers.flatMap (layerWeights b.n)) := by
    intro op hop
    obtain ⟨layerIndex, hlayer, hop⟩ := List.mem_flatMap.mp hop
    have hsub : layerWeights b.n layerIndex ⊆ b.layers.flatMap (layerWeights b.n) :=
      fun w hw => List.mem_flatMap.mpr ⟨layerIndex, hlayer, hw⟩
    exact ((att_covered.append ff_covered).mono hsub) op hop
  rw [nodeOps_eq]
  refine ((Covered.append ?_ ?_).append ?_).append ?_
  · exact start_covered.mono fun w hw => List.mem_append_left _ (List.mem_append_left _ hw)
  · exact hlayers.mono fun w hw => List.mem_append_left _ (List.mem_append_right _ hw)
  · split
    · exact bridge_covered
    · exact covered_nil
  · refine Covered.mono ?_ (List.subset_append_right _ _)
    split
    · exact finalSegment_covered
    · exact covered_nil

/-- Weights of a node have operations. -/
theorem stageWeights_present (b : NnNodeBuilder) (fused : Bool) (nNodes tpSize : ℕ) :
    Present (stageWeights b nNodes tpSize) (nodeOps b fused) := by
  rw [nodeOps_eq]
  refine Present.append (Present.append ?_ ?_) ?_
  · refine Present.mono ?_ fun op hop =>
      List.mem_append_left _ (List.mem_append_left _ (List.mem_append_left _ hop))
    unfold NnNodeBuilder.start
    dsimp only
    split
    · simp [Present, embeddingWeight, Weighs]
    · exact present_nil
  · intro w hw
    obtain ⟨layerIndex, hlayer, hw⟩ := List.mem_flatMap.mp hw
    obtain ⟨op, hop, hweighs⟩ := layerWeights_present w hw
    exact ⟨op, List.mem_append_left _ (List.mem_append_left _ (List.mem_append_right _
      (List.mem_flatMap.mpr ⟨layerIndex, hlayer, hop⟩))), hweighs⟩
  · refine Present.mono ?_ (List.subset_append_right _ _)
    split
    · exact finalWeights_present
    · exact present_nil

end Segments

section Keys

/-- Names of operations in the first segment of a layer. -/
def attOpNames : List String :=
  ["block_cast_x", "block_merge_add"] ++ ["block_norm_pre_0", "block_norm_0"] ++
  ["block_cast_y"] ++ ["block_matmul_q", "block_matmul_k", "block_matmul_v"] ++
  ["block_norm_pre_q", "block_norm_q", "block_norm_pre_k", "block_norm_k"] ++
  ["block_rope_q", "block_rope_k", "block_shift_k", "block_shift_v"] ++
  ["block_multihead_att", "block_cast_y2", "block_matmul_wo", "block_cast_d"]

/-- Names of operations in the second segment of a layer. -/
def ffOpNames : List String :=
  ["block_merge_add2"] ++ ["block_norm_pre_1", "block_norm_1"] ++
  ["block_cast_y3", "block_moe_y_repeat", "block_moe_gate", "block_moe_softmax", "block_moe_gate2",
    "block_matmul_w1", "block_matmul_w3", "block_act", "block_mul", "block_cast_d2",
    "block_matmul_w2", "block_moe_scale", "block_moe_merge_sum"] ++ ["block_cast_d3"]

/-- Names of the other operations. -/
def outerOpNames : List String :=
  ["embedding"] ++ ["stage_bridge_merge_add", "stage_bridge_cast_x"] ++
  (["final_merge_add"] ++ ["final_norm_pre", "final_norm"] ++ ["final_cast_y"] ++
    ["final_matmul_logits", "final_reduce_argmax"])

/-- Operations have some of the names, in order, and one index. -/
def Named (ops : List NnOpConfig) (names : List String) (index : ℕ) : Prop :=
  (ops.map opKey).Sublist (names.map fun name => (name, index))

variable {b : NnNodeBuilder} {fused : Bool} {layerIndex index : ℕ}

theorem Named.append {ops others : List NnOpConfig} {names more : List String}
    (h : Named ops names index) (h' : Named others more index) :
    Named (ops ++ others) (names ++ more) index := by
  unfold Named at *
  rw [List.map_append, List.map_append]
  exact h.append h'

theorem named_nil {names : List String} : Named [] names index := List.nil_sublist _

/-- Operations whose names are given in full. -/
theorem named_of_eq {ops : List NnOpConfig} {all : List String} (names : List String)
    (h : ops.map opKey = names.map fun name => (name, index)) (hsub : names.Sublist all) :
    Named ops all index := by
  unfold Named
  rw [h]
  exact hsub.map _

theorem castYOps_named {name : String} : Named (b.castYOps name index) [name] index := by
  unfold NnNodeBuilder.castYOps
  split
  · exact named_of_eq [name] (Eq.refl _) (List.Sublist.refl _)
  · exact named_nil

theorem normOps_named {preName name : String} :
    Named (b.normOps preName name index) [preName, name] index :=
  named_of_eq [preName, name] (Eq.refl _) (List.Sublist.refl _)

/-- Names in the first segment of a layer. -/
theorem att_named : Named (b.att layerIndex).ops attOpNames layerIndex := by
  have hentry : Named [b.blockEntry layerIndex] ["block_cast_x", "block_merge_add"] layerIndex := by
    unfold NnNodeBuilder.blockEntry
    split
    · exact named_of_eq ["block_cast_x"] (Eq.refl _) (by decide)
    · exact named_of_eq ["block_merge_add"] (Eq.refl _) (by decide)
  have hqkv : Named (b.qkvOps layerIndex) ["block_matmul_q", "block_matmul_k", "block_matmul_v"]
      layerIndex := named_of_eq _ (Eq.refl _) (List.Sublist.refl _)
  have hqk : Named (b.qkNormOps layerIndex)
      ["block_norm_pre_q", "block_norm_q", "block_norm_pre_k", "block_norm_k"] layerIndex := by
    unfold NnNodeBuilder.qkNormOps
    split
    · exact named_of_eq _ (Eq.refl _) (List.Sublist.refl _)
    · exact named_nil
  have hrope : Named (b.ropeOps layerIndex)
      ["block_rope_q", "block_rope_k", "block_shift_k", "block_shift_v"] layerIndex :=
    named_of_eq _ (Eq.refl _) (List.Sublist.refl _)
  have hattention : Named (b.attentionOps layerIndex)
      ["block_multihead_att", "block_cast_y2", "block_matmul_wo", "block_cast_d"] layerIndex :=
    named_of_eq _ (Eq.refl _) (List.Sublist.refl _)
  exact (((((hentry.append normOps_named).append castYOps_named).append hqkv).append hqk).append
    hrope).append hattention

/-- Names in the second segment of a layer. -/
theorem ff_named : Named (b.ff layerIndex).ops ffOpNames layerIndex := by
  have hadd : Named [⟨.mergeAdd, "block_merge_add2", layerIndex, pointerBatchConfig (.pipe .zq),
      pointerBatchConfig (.buffer .x), size0, .empty⟩] ["block_merge_add2"] layerIndex :=
    named_of_eq _ (Eq.refl _) (List.Sublist.refl _)
  have hcast : Named [⟨.cast, "block_cast_d3", layerIndex, pointerBatchConfig (.buffer .y),
      pointerBatchConfig (.pipe .zq), size0, .empty⟩] ["block_cast_d3"] layerIndex :=
    named_of_eq _ (Eq.refl _) (List.Sublist.refl _)
  refine ((hadd.append normOps_named).append ?_).append hcast
  split
  · unfold NnNodeBuilder.moeOps
    split
    · exact named_of_eq ["block_moe_y_repeat", "block_moe_gate", "block_moe_softmax",
        "block_moe_gate2", "block_matmul_w1", "block_matmul_w3", "block_act", "block_mul",
        "block_cast_d2", "block_matmul_w2", "block_moe_scale", "block_moe_merge_sum"]
        (Eq.refl _) (by decide)
    · exact named_of_eq ["block_moe_y_repeat", "block_moe_gate", "block_moe_softmax",
        "block_moe_gate2", "block_matmul_w1", "block_matmul_w3", "block_act", "block_mul",
        "block_matmul_w2", "block_moe_scale", "block_moe_merge_sum"] (Eq.refl _) (by decide)
  · by_cases hq : b.n.Quantized
    · refine named_of_eq ["block_cast_y3", "block_matmul_w1", "block_matmul_w3", "block_act",
        "block_mul", "block_cast_d2", "block_matmul_w2"] ?_ (by decide)
      simp [NnNodeBuilder.denseOps, NnNodeBuilder.castYOps, hq, opKey]
    · refine named_of_eq ["block_matmul_w1", "block_matmul_w3", "block_act", "block_mul",
        "block_matmul_w2"] ?_ (by decide)
      simp [NnNodeBuilder.denseOps, NnNodeBuilder.castYOps, hq, opKey]

/-- Names outside of the layers. -/
theorem finalSegment_named : Named (b.finalSegment fused).ops
    (["final_merge_add"] ++ ["final_norm_pre", "final_norm"] ++ ["final_cast_y"] ++
      ["final_matmul_logits", "final_reduce_argmax"]) 0 := by
  have hadd : Named [⟨.mergeAdd, "final_merge_add", 0, pointerBatchConfig (.pipe .zq),
      pointerBatchConfig (.buffer .x), size0, .empty⟩] ["final_merge_add"] 0 :=
    named_of_eq _ (Eq.refl _) (List.Sublist.refl _)
  refine ((hadd.append normOps_named).append castYOps_named).append ?_
  unfold NnNodeBuilder.logitsOps
  split
  · exact named_of_eq ["final_matmul_logits", "final_reduce_argmax"] (Eq.refl _) (by decide)
  · exact named_of_eq ["final_matmul_logits"] (Eq.refl _) (by decide)

theorem start_named : Named b.start.ops ["embedding"] 0 := by
  unfold NnNodeBuilder.start
  dsimp only
  split
  · exact named_of_eq ["embedding"] (Eq.refl _) (by decide)
  · exact named_nil

theorem bridge_named : Named NnNodeBuilder.bridge.ops
    ["stage_bridge_merge_add", "stage_bridge_cast_x"] 0 :=
  named_of_eq _ (Eq.refl _) (List.Sublist.refl _)

/-- Names and indices that operations of a node can have. -/
def nodeKeys (b : NnNodeBuilder) : List (String × ℕ) :=
  ["embedding"].map (fun name => (name, 0)) ++
  b.layers.flatMap (fun layerIndex => (attOpNames ++ ffOpNames).map fun name => (name, layerIndex)) ++
  ["stage_bridge_merge_add", "stage_bridge_cast_x"].map (fun name => (name, 0)) ++
  (["final_merge_add"] ++ ["final_norm_pre", "final_norm"] ++ ["final_cast_y"] ++
    ["final_matmul_logits", "final_reduce_argmax"]).map fun name => (name, 0)

theorem nodeOps_keys : ((nodeOps b fused).map opKey).Sublist (nodeKeys b) := by
  rw [nodeOps_eq, List.map_append, List.map_append, List.map_append]
  refine List.Sublist.append (List.Sublist.append (List.Sublist.append start_named ?_) ?_) ?_
  · rw [List.map_flatMap]
    induction b.layers with
    | nil => exact List.Sublist.refl _
    | cons layerIndex rest ih =>
      rw [List.flatMap_cons, List.flatMap_cons]
      exact List.Sublist.append (att_named.append ff_named) ih
  · split
    · exact bridge_named
    · exact List.nil_sublist _
  · split
    · exact finalSegment_named
    · exact List.nil_sublist _

/-- No two operations of a node share name and index. -/
theorem nodeOps_nodup (b : NnNodeBuilder) (fused : Bool) : ((nodeOps b fused).map opKey).Nodup := by
  refine nodeOps_keys.nodup ?_
  have hlayerNames : (attOpNames ++ ffOpNames).Nodup := by decide
  have hinner : ∀ name ∈ attOpNames ++ ffOpNames, name ∉ outerOpNames := by decide
  have hinj (k : ℕ) : Function.Injective fun name : String => (name, k) :=
    fun _ _ h => congrArg Prod.fst h
  have hlayers : (b.layers.flatMap fun layerIndex =>
      (attOpNames ++ ffOpNames).map fun name => (name, layerIndex)).Nodup := by
    rw [List.nodup_flatMap]
    refine ⟨fun layerIndex _ => hlayerNames.map (hinj layerIndex), ?_⟩
    have hdistinct : b.layers.Nodup := List.nodup_range' 1
    refine hdistinct.imp ?_
    intro i j hne key hi hj
    obtain ⟨name, _, hname⟩ := List.mem_map.mp hi
    obtain ⟨other, _, hother⟩ := List.mem_map.mp hj
    exact hne ((congrArg Prod.snd hname).trans (congrArg Prod.snd hother).symm)
  have hname : ∀ key ∈ b.layers.flatMap fun layerIndex =>
      (attOpNames ++ ffOpNames).map fun name => (name, layerIndex), key.1 ∉ outerOpNames := by
    intro key hkey
    obtain ⟨layerIndex, _, hkey⟩ := List.mem_flatMap.mp hkey
    obtain ⟨name, hmem, heq⟩ := List.mem_map.mp hkey
    rw [← heq]
    exact hinner name hmem
  have houter : outerOpNames.Nodup := by decide
  have hrest : (outerOpNames.map fun name => (name, 0)).Nodup := houter.map (hinj 0)
  have hperm : (nodeKeys b).Perm (b.layers.flatMap (fun layerIndex =>
      (attOpNames ++ ffOpNames).map fun name => (name, layerIndex)) ++
        outerOpNames.map fun name => (name, 0)) := by
    have houterKeys : outerOpNames.map (fun name => (name, 0)) =
        ["embedding"].map (fun name => (name, 0)) ++
        (["stage_bridge_merge_add", "stage_bridge_cast_x"].map (fun name => (name, 0)) ++
        (["final_merge_add"] ++ ["final_norm_pre", "final_norm"] ++ ["final_cast_y"] ++
          ["final_matmul_logits", "final_reduce_argmax"]).map fun name => (name, 0)) := Eq.refl _
    unfold nodeKeys
    rw [houterKeys, List.append_assoc, ← List.append_assoc (List.flatMap _ _)]
    exact List.perm_append_comm.append_right _
  rw [hperm.nodup_iff, List.nodup_append]
  refine ⟨hlayers, hrest, ?_⟩
  intro key hkey other hother heq
  obtain ⟨name, hmem, hmade⟩ := List.mem_map.mp hother
  refine hname key hkey ?_
  rw [heq, ← hmade]
  exact hmem

end Keys

section Fill

variable {loader : NnRootWeightLoader} {nodeIndex opIndex E experts : ℕ} {weightSize : NnSize3D}
  {source : WeightSource}

/-- A weight has planes of the size of a part. -/
def Shaped (weightSize : NnSize3D) (source : WeightSource) (E : ℕ) : Prop :=
  ∃ type y x, weightSize = size3D type E y x ∧ source.partSize = size3D type 1 y x ∧
    WholeBlocks type (y * x)

/-- Whole blocks, so many times. -/
theorem getBytes_mul (type : NnFloatType) {v : ℕ} (E : ℕ) (hv : WholeBlocks type v) :
    getBytes type (E * v) = E * getBytes type v := by
  rw [Nat.mul_comm E v, getBytes_rows type E hv, ← NnCpu.getBytes_blocks type hv]

/-- Whole blocks without bytes are no values. -/
theorem getBytes_eq_zero {type : NnFloatType} {v : ℕ} (hv : WholeBlocks type v)
    (h : getBytes type v = 0) : v = 0 := by
  cases type with
  | f32 | f16 | q40 | q80 =>
    unfold WholeBlocks at hv
    simp only [getBytes, getBlockSize, q80BlockSize] at h hv
    omega

theorem Shaped.plane (h : Shaped weightSize source E) :
    weightSize.nBytesXY = source.partSize.nBytes := by
  obtain ⟨type, y, x, rfl, hpart, _⟩ := h
  rw [hpart]
  simp only [size3D, Nat.one_mul]

/-- A weight with bytes has parts with bytes. -/
theorem Shaped.part_pos (h : Shaped weightSize source E) (hbytes : 0 < weightSize.nBytes) :
    0 < source.partSize.nBytes := by
  obtain ⟨type, y, x, rfl, hpart, hwhole⟩ := h
  rw [hpart]
  rcases Nat.eq_zero_or_pos (size3D type 1 y x).nBytes with hzero | hpos
  · simp only [size3D, Nat.one_mul] at hzero hbytes
    have hmod : y * x % 2 ^ 32 = 0 :=
      getBytes_eq_zero ((wholeBlocks_mod type _).mpr hwhole) hzero
    rw [Nat.mul_assoc, Nat.mul_mod, hmod, Nat.mul_zero, Nat.zero_mod] at hbytes
    have hnone : getBytes type 0 = 0 := by cases type <;> decide
    omega
  · exact hpos

/-- The parts fill the weight exactly when a word can count its values. -/
theorem Shaped.fills_iff (h : Shaped weightSize source E)
    (hvalues : values source.partSize < 2 ^ 32) :
    E * source.partSize.nBytes = weightSize.nBytes ↔ E * values source.partSize < 2 ^ 32 := by
  obtain ⟨type, y, x, rfl, hsize, hwhole⟩ := h
  rw [hsize] at hvalues ⊢
  simp only [values, size3D, Nat.one_mul] at hvalues ⊢
  rw [Nat.mod_eq_of_lt hvalues, ← getBytes_mul type E hwhole, Nat.mul_assoc]
  constructor
  · intro heq
    rcases Nat.lt_or_ge (E * (y * x)) (2 ^ 32) with hlt | hge
    · exact hlt
    · have hless := getBytes_mod_lt type hge
      omega
  · intro hlt
    rw [Nat.mod_eq_of_lt hlt]

/-- What it takes for the parts of a weight to fill it. -/
theorem partsFill_iff (h : Shaped weightSize source E)
    (hexperts : 0 < experts → experts = E ∧ values source.partSize < 2 ^ 32) :
    PartsFill loader nodeIndex opIndex weightSize experts source ↔
      (0 < weightSize.nBytes → 0 < experts ∧ source.Reaches loader opIndex nodeIndex) ∧
      (0 < experts → source.Reaches loader opIndex nodeIndex → 0 < source.partSize.nBytes →
        E * values source.partSize < 2 ^ 32 ∧ (E - 1) * source.partSize.nBytes < 2 ^ 32) := by
  unfold PartsFill
  refine and_congr ?_ ?_
  · constructor
    · intro hfill hbytes
      obtain ⟨hpos, hreach, _⟩ := hfill hbytes
      exact ⟨hpos, hreach⟩
    · intro hfill hbytes
      obtain ⟨hpos, hreach⟩ := hfill hbytes
      exact ⟨hpos, hreach, h.part_pos hbytes⟩
  · refine forall_congr' fun hpos => forall_congr' fun _ => forall_congr' fun _ => ?_
    obtain ⟨heq, hvalues⟩ := hexperts hpos
    rw [heq, h.fills_iff hvalues]

/-- A weight with one tensor is filled when the tensor reaches the node. -/
theorem partsFill_one_iff (h : Shaped weightSize source 1)
    (hexperts : 0 < experts → experts = 1 ∧ values source.partSize < 2 ^ 32) :
    PartsFill loader nodeIndex opIndex weightSize experts source ↔
      (0 < weightSize.nBytes → 0 < experts ∧ source.Reaches loader opIndex nodeIndex) := by
  rw [partsFill_iff h hexperts]
  refine and_iff_left fun hpos _ _ => ?_
  have hvalues := (hexperts hpos).2
  omega

end Fill

section Node

variable {loader : NnRootWeightLoader} {tpSize nodeIndex nNodes : ℕ} {file : MmapFile}
  {loads : List WeightLoad} {b : NnNodeBuilder} {fused : Bool}

/-- All weights of a node are complete when the parts of each fill it. -/
theorem node_complete_iff (loader : NnRootWeightLoader) (nodeIndex : ℕ) (file : MmapFile)
    (fused : Bool)
    (hfed : ∀ w ∈ stageWeights b nNodes tpSize, ∀ op, Weighs op w → Fed loads op w.experts w.source)
    (hnone : ∀ op, Weightless op → Fed loads op 0 (.root size0))
    (hplane : ∀ w ∈ stageWeights b nNodes tpSize, 0 < w.weightSize.nBytes →
      w.weightSize.nBytesXY = w.source.partSize.nBytes) :
    (EndInside (nodeOps b fused) (nodeRecords loader tpSize file loads nodeIndex) ∧
      ∀ position op, (nodeOps b fused)[position]? = some op →
        Complete file loads (nodeIndex % tpSize) op position
          ((nodeRecords loader tpSize file loads nodeIndex).filterMap
            (applied (nodeOps b fused)))) ↔
      ∀ w ∈ stageWeights b nNodes tpSize,
        PartsFill loader nodeIndex w.index w.weightSize w.experts w.source := by
  have hkeys := nodeOps_nodup b fused
  constructor
  · intro hboth w hw
    obtain ⟨hends, hcomplete⟩ := hboth
    obtain ⟨op, hop, hweighs⟩ := stageWeights_present b fused nNodes tpSize w hw
    obtain ⟨position, hposition⟩ := List.getElem?_of_mem hop
    have hsize : op.weightSize = w.weightSize := hweighs.2.2
    have hfill : PartsFill loader nodeIndex op.index op.weightSize w.experts w.source :=
      (complete_iff hkeys hposition (hfed w hw op hweighs) (by rw [hsize]; exact hplane w hw)).mp
        ⟨fun record hrecord hkey => hends record hrecord op hop hkey,
          hcomplete position op hposition⟩
    rw [hweighs.2.1, hsize] at hfill
    exact hfill
  · intro hfills
    have heach (position : ℕ) (op : NnOpConfig) (hop : (nodeOps b fused)[position]? = some op) :
        (∀ record ∈ nodeRecords loader tpSize file loads nodeIndex, opKey op = recordKey record →
          record.offset + record.weight.length ≤ op.weightSize.nBytes) ∧
        Complete file loads (nodeIndex % tpSize) op position
          ((nodeRecords loader tpSize file loads nodeIndex).filterMap
            (applied (nodeOps b fused))) := by
      cases nodeOps_covered b fused nNodes tpSize op (List.mem_of_getElem? hop) with
      | inl hweightless =>
        have hbytes : op.weightSize.nBytes = 0 := by
          rw [hweightless.1]
          exact Eq.refl _
        exact (complete_iff hkeys hop (hnone op hweightless) (fun h => by omega)).mpr
          ⟨fun h => by omega, fun h => by omega⟩
      | inr hsome =>
        obtain ⟨w, hw, hweighs⟩ := hsome
        have hsize : op.weightSize = w.weightSize := hweighs.2.2
        refine (complete_iff hkeys hop (hfed w hw op hweighs) (by rw [hsize]; exact hplane w hw)).mpr
          ?_
        rw [hweighs.2.1, hsize]
        exact hfills w hw
    constructor
    · intro record hrecord op hop hkey
      obtain ⟨position, hposition⟩ := List.getElem?_of_mem hop
      exact (heach position op hposition).1 record hrecord hkey
    · exact fun position op hop => (heach position op hop).2

end Node

section Shapes

variable {n : LlmShape} {tpSize layerIndex : ℕ} {w : NnWeight}

/-- The slices of a shape are cut for so many tensor ranks. -/
structure ShapeOf (n : LlmShape) (tpSize : ℕ) : Prop where
  /-- Queries. -/
  q : sliceRowMatmul n.header.weightType tpSize n.header.dim n.header.qDim = .ok n.qSlice
  /-- Keys. -/
  k : sliceRowMatmul n.header.weightType tpSize n.header.dim n.header.kvDim = .ok n.kSlice
  /-- Values. -/
  v : sliceRowMatmul n.header.weightType tpSize n.header.dim n.header.kvDim = .ok n.vSlice
  /-- Output of the attention. -/
  wo : sliceColMatmul n.header.weightType tpSize n.header.qDim n.header.dim = .ok n.woSlice
  /-- Gate of the feed-forward block. -/
  w1 : sliceRowMatmul n.header.weightType tpSize n.header.dim (ffDim n.header) = .ok n.w1Slice
  /-- Output of the feed-forward block. -/
  w2 : sliceColMatmul n.header.weightType tpSize (ffDim n.header) n.header.dim = .ok n.w2Slice
  /-- Input of the feed-forward block. -/
  w3 : sliceRowMatmul n.header.weightType tpSize n.header.dim (ffDim n.header) = .ok n.w3Slice
  /-- Logits. -/
  wcls : sliceColMatmul n.header.weightType tpSize n.header.dim n.header.vocabSize = .ok n.wclsSlice

theorem shapeOf_of_build {h : LlmHeader} {nBatches : ℕ}
    (hn : buildShape h tpSize nBatches = .ok n) : n.header = h ∧ ShapeOf n tpSize := by
  obtain ⟨hheader, _, hq, hk, hv, hwo, hw1, hw2, hw3, hwcls⟩ := buildShape_ok hn
  rw [← hheader] at hq hk hv hwo hw1 hw2 hw3 hwcls
  exact ⟨hheader, ⟨hq, hk, hv, hwo, hw1, hw2, hw3, hwcls⟩⟩

/-- A slice that a slicer has made for the tensor ranks. -/
def CutFor (slice : NnWeightSlice) (tpSize : ℕ) : Prop := slice.Cut ∧ slice.tpSize = tpSize

theorem row_cut {type : NnFloatType} {n d : ℕ} {slice : NnRowMatmulSlice}
    (h : sliceRowMatmul type tpSize n d = .ok slice) : CutFor (.row slice) tpSize := by
  obtain ⟨_, _, _, hslice⟩ := sliceRowMatmul_ok h
  refine ⟨⟨type, tpSize, n, d, h⟩, ?_⟩
  rw [hslice]
  exact Eq.refl _

theorem column_cut {type : NnFloatType} {n d : ℕ} {slice : NnColMatmulSlice}
    (h : sliceColMatmul type tpSize n d = .ok slice) : CutFor (.column slice) tpSize := by
  obtain ⟨_, _, _, hslice⟩ := sliceColMatmul_ok h
  refine ⟨⟨type, tpSize, n, d, h⟩, ?_⟩
  rw [hslice]
  exact Eq.refl _

/-- Planes of a weight that is split by rows. -/
theorem row_shaped {type : NnFloatType} {n d : ℕ} {slice : NnRowMatmulSlice}
    (h : sliceRowMatmul type tpSize n d = .ok slice) (E : ℕ) (rank : Option ℕ) :
    Shaped (size3D type E slice.n slice.d0) (.slices (.row slice) rank) E := by
  obtain ⟨_, _, hwhole, hslice⟩ := sliceRowMatmul_ok h
  refine ⟨type, slice.n, slice.d0, Eq.refl _, ?_, ?_⟩
  · rw [hslice]
    exact Eq.refl _
  · rw [hslice]
    exact (wholeBlocks_mod type _).mp hwhole

/-- Planes of a weight that is split by columns. -/
theorem column_shaped {type : NnFloatType} {n d : ℕ} {slice : NnColMatmulSlice}
    (h : sliceColMatmul type tpSize n d = .ok slice) (E : ℕ) (rank : Option ℕ) :
    Shaped (size3D type E slice.n0 slice.d) (.slices (.column slice) rank) E := by
  obtain ⟨_, _, hwhole, hslice⟩ := sliceColMatmul_ok h
  refine ⟨type, slice.n0, slice.d, Eq.refl _, ?_, ?_⟩
  · rw [hslice]
    exact Eq.refl _
  · rw [hslice]
    exact (wholeBlocks_mod type _).mp hwhole

/-- A weight that every node has whole. -/
theorem whole_shaped (y x : ℕ) :
    Shaped (size2D .f32 y x) (.all (size2D .f32 y x)) 1 ∧
      Shaped (size2D .f32 y x) (.root (size2D .f32 y x)) 1 :=
  ⟨⟨.f32, y, x, Eq.refl _, Eq.refl _, Nat.mod_one _⟩,
    ⟨.f32, y, x, Eq.refl _, Eq.refl _, Nat.mod_one _⟩⟩

/-- Weights of a layer that are cut, without experts. -/
theorem attention_facts (hs : ShapeOf n tpSize) (hw : w ∈ attentionWeights n layerIndex) :
    Shaped w.weightSize w.source 1 ∧ w.experts = tensorsOf n layerIndex 1 ∧
      ∃ slice, w.source = .slices slice none ∧ CutFor slice tpSize := by
  simp only [attentionWeights, List.mem_cons, List.not_mem_nil, or_false] at hw
  rcases hw with rfl | rfl | rfl | rfl
  · exact ⟨row_shaped hs.q 1 none, Eq.refl _, _, Eq.refl _, row_cut hs.q⟩
  · exact ⟨row_shaped hs.k 1 none, Eq.refl _, _, Eq.refl _, row_cut hs.k⟩
  · exact ⟨row_shaped hs.v 1 none, Eq.refl _, _, Eq.refl _, row_cut hs.v⟩
  · exact ⟨column_shaped hs.wo 1 none, Eq.refl _, _, Eq.refl _, column_cut hs.wo⟩

theorem dense_facts (hs : ShapeOf n tpSize) (hw : w ∈ denseWeights n layerIndex) :
    Shaped w.weightSize w.source 1 ∧ w.experts = tensorsOf n layerIndex 1 ∧
      ∃ slice, w.source = .slices slice none ∧ CutFor slice tpSize := by
  simp only [denseWeights, List.mem_cons, List.not_mem_nil, or_false] at hw
  rcases hw with rfl | rfl | rfl
  · exact ⟨row_shaped hs.w1 1 none, Eq.refl _, _, Eq.refl _, row_cut hs.w1⟩
  · exact ⟨column_shaped hs.w2 1 none, Eq.refl _, _, Eq.refl _, column_cut hs.w2⟩
  · exact ⟨row_shaped hs.w3 1 none, Eq.refl _, _, Eq.refl _, row_cut hs.w3⟩

/-- Weights of a layer that are cut, with experts. -/
theorem moe_facts (hs : ShapeOf n tpSize) (hw : w ∈ moeWeights n layerIndex) :
    Shaped w.weightSize w.source n.header.nExperts ∧
      w.experts = tensorsOf n layerIndex n.header.nExperts ∧
      ∃ slice, w.source = .slices slice none ∧ CutFor slice tpSize := by
  simp only [moeWeights, List.mem_cons, List.not_mem_nil, or_false] at hw
  rcases hw with rfl | rfl | rfl
  · exact ⟨row_shaped hs.w1 _ none, Eq.refl _, _, Eq.refl _, row_cut hs.w1⟩
  · exact ⟨column_shaped hs.w2 _ none, Eq.refl _, _, Eq.refl _, column_cut hs.w2⟩
  · exact ⟨row_shaped hs.w3 _ none, Eq.refl _, _, Eq.refl _, row_cut hs.w3⟩

/-- Weights of a layer that every node has whole. -/
theorem wholeWeights_facts (hw : w ∈ wholeWeights n layerIndex) :
    Shaped w.weightSize w.source 1 ∧ w.experts = tensorsOf n layerIndex 1 ∧
      ∃ size, w.source = .all size := by
  simp only [wholeWeights, List.mem_append] at hw
  rcases hw with (hw | hw) | hw
  · unfold gateWeights at hw
    split at hw
    · rw [List.mem_singleton.mp hw]
      exact ⟨(whole_shaped _ _).1, Eq.refl _, _, Eq.refl _⟩
    · exact absurd hw List.not_mem_nil
  · unfold headNormWeights at hw
    split at hw
    · simp only [List.mem_cons, List.not_mem_nil, or_false] at hw
      rcases hw with rfl | rfl <;> exact ⟨(whole_shaped _ _).1, Eq.refl _, _, Eq.refl _⟩
    · exact absurd hw List.not_mem_nil
  · simp only [rowNormWeights, List.mem_cons, List.not_mem_nil, or_false] at hw
    rcases hw with rfl | rfl <;> exact ⟨(whole_shaped _ _).1, Eq.refl _, _, Eq.refl _⟩

/-- Tensors of a layer are handed out in a way the loader can follow. -/
theorem layerLoads_proper (hs : ShapeOf n tpSize) {load : WeightLoad}
    (h : load ∈ layerLoads n layerIndex) : load.Proper tpSize ∧ Sized load.source.size := by
  have hslice (name : String) (expertIndex : ℕ) {slice : NnWeightSlice} (hcut : CutFor slice tpSize)
      (rank : Option ℕ) : WeightLoad.Proper ⟨name, layerIndex, expertIndex, .slices slice rank⟩
        tpSize ∧ Sized (WeightSource.slices slice rank).size :=
    ⟨hcut, hcut.1.sized.1⟩
  have hall (name : String) (y x : ℕ) : WeightLoad.Proper
      ⟨name, layerIndex, 0, .all (size2D .f32 y x)⟩ tpSize ∧
        Sized (WeightSource.all (size2D .f32 y x)).size :=
    ⟨⟨⟨.f32, 1, y, x, Eq.refl _⟩, Eq.refl _⟩, ⟨.f32, 1, y, x, Eq.refl _⟩⟩
  unfold layerLoads at h
  simp only [List.mem_append, List.mem_cons, List.not_mem_nil, or_false] at h
  rcases h with ((((rfl | rfl | rfl | rfl) | h) | h) | (rfl | rfl))
  · exact hslice _ _ (row_cut hs.q) _
  · exact hslice _ _ (row_cut hs.k) _
  · exact hslice _ _ (row_cut hs.v) _
  · exact hslice _ _ (column_cut hs.wo) _
  · split at h
    · rcases List.mem_cons.mp h with rfl | h
      · exact hall _ _ _
      · obtain ⟨expertIndex, _, h⟩ := List.mem_flatMap.mp h
        simp only [List.mem_cons, List.not_mem_nil, or_false] at h
        rcases h with rfl | rfl | rfl
        · exact hslice _ _ (row_cut hs.w1) _
        · exact hslice _ _ (column_cut hs.w2) _
        · exact hslice _ _ (row_cut hs.w3) _
    · simp only [List.mem_cons, List.not_mem_nil, or_false] at h
      rcases h with rfl | rfl | rfl
      · exact hslice _ _ (row_cut hs.w1) _
      · exact hslice _ _ (column_cut hs.w2) _
      · exact hslice _ _ (row_cut hs.w3) _
  · split at h
    · simp only [List.mem_cons, List.not_mem_nil, or_false] at h
      rcases h with rfl | rfl <;> exact hall _ _ _
    · exact absurd h List.not_mem_nil
  · exact hall _ _ _
  · exact hall _ _ _

/-- Tensors of the file are handed out in a way the loader can follow. -/
theorem netLoads_proper (hs : ShapeOf n tpSize) {nNodes tpGroupEnd : ℕ} {load : WeightLoad}
    (h : load ∈ netLoads n nNodes tpGroupEnd) : load.Proper tpSize ∧ Sized load.source.size := by
  unfold netLoads at h
  simp only [List.mem_append, List.mem_cons, List.not_mem_nil, or_false] at h
  rcases h with (rfl | h) | (rfl | rfl)
  · exact ⟨⟨⟨.f32, 1, _, _, Eq.refl _⟩, Eq.refl _⟩, ⟨.f32, 1, _, _, Eq.refl _⟩⟩
  · obtain ⟨layer, _, h⟩ := List.mem_flatMap.mp h
    exact layerLoads_proper hs h
  · exact ⟨⟨⟨.f32, 1, 1, _, Eq.refl _⟩, Eq.refl _⟩, ⟨.f32, 1, 1, _, Eq.refl _⟩⟩
  · exact ⟨column_cut hs.wcls, (column_cut hs.wcls).1.sized.1⟩

end Shapes

end LayerSkip.WeightLoader
