import LayerSkip.ForwardReads

/-!
# Groups of operations read what is known

Every group of operations reads only regions that are known before it, and makes known what the next
group needs. A layer hands `ZQ` and the residual row to the next one, the first layer of a stage
starts with `X`.
-/

namespace LayerSkip.ForwardTriples

open NnTopology NnPipeline NnCore NnCpu LlmGraph RegionFlow RootBroadcast ForwardReads
open DevicePlacement (NnNode)

section Groups

variable (node : NnNode) (c : Cluster) (b : NnNodeBuilder)

/-- What operations read and write. -/
def opUses (ops : List NnOpConfig) : List (Use Region) :=
  ops.map fun op => stepUse c node (.executeOp op)

theorem opUses_append (ops more : List NnOpConfig) :
    opUses node c (ops ++ more) = opUses node c ops ++ opUses node c more := List.map_append

attribute [local simp] opUses stepUse opReads opWrites configReads pointerRegion pointerBatchConfig
  Checks RegionFlow.after whole

theorem triple_norm (preName name : String) (index : ℕ) :
    Triple [whole (.buffer .x)] (opUses node c (b.normOps preName name index))
      [whole (.buffer .y)] := by
  rw [triple_iff]
  simp [NnNodeBuilder.normOps]

theorem triple_castY (name : String) (index : ℕ) :
    Triple [whole (.buffer .y)] (opUses node c (b.castYOps name index))
      [whole (.buffer b.n.yqBuffer)] := by
  rw [triple_iff]
  by_cases h : b.n.Quantized
  · simp [NnNodeBuilder.castYOps, LlmShape.yqBuffer, h]
  · simp [NnNodeBuilder.castYOps, LlmShape.yqBuffer, h]

theorem triple_qkv (layerIndex : ℕ) :
    Triple [whole (.buffer b.n.yqBuffer)] (opUses node c (b.qkvOps layerIndex))
      [whole (.buffer .q), whole (.buffer .kTemp), whole (.buffer .vTemp)] := by
  rw [triple_iff]
  simp [NnNodeBuilder.qkvOps]

theorem triple_qkNorm (layerIndex : ℕ) :
    Triple [whole (.buffer .q), whole (.buffer .kTemp)] (opUses node c (b.qkNormOps layerIndex))
      [] := by
  rw [triple_iff]
  by_cases h : b.n.HasQkNorm
  · simp [NnNodeBuilder.qkNormOps, h]
  · simp [NnNodeBuilder.qkNormOps, h]

theorem triple_rope (layerIndex : ℕ) :
    Triple [whole (.pipe .pos), whole (.buffer .q), whole (.buffer .kTemp), whole (.buffer .vTemp)]
      (opUses node c (b.ropeOps layerIndex)) [] := by
  rw [triple_iff]
  simp [NnNodeBuilder.ropeOps]

/-- The part of the rank that goes into the product was written by the heads of the rank. -/
theorem triple_attention (layerIndex : ℕ)
    (hheads : sliceWidth node (.buffer .z) ≤ b.n.multiHeadAttSlice.nHeads0 * b.n.header.headDim) :
    Triple [whole (.pipe .pos), whole (.buffer .q)] (opUses node c (b.attentionOps layerIndex))
      [whole (.pipe .zq)] := by
  rw [triple_iff]
  simp [NnNodeBuilder.attentionOps, NnNodeBuilder.multiheadAttConfig, pointerBatchedSliceConfig,
    hheads]

theorem triple_dense (layerIndex : ℕ) :
    Triple [whole (.buffer .y)] (opUses node c (b.denseOps layerIndex)) [whole (.buffer .y)] := by
  rw [triple_iff]
  by_cases h : b.n.Quantized
  · simp [NnNodeBuilder.denseOps, NnNodeBuilder.castYOps, LlmShape.yqBuffer, LlmShape.dqBuffer, h]
  · simp [NnNodeBuilder.denseOps, NnNodeBuilder.castYOps, LlmShape.yqBuffer, LlmShape.dqBuffer, h]

/-- The gate writes one scale and one index for each plane that is scaled and multiplied. -/
theorem triple_moe (layerIndex : ℕ) (hplanes :
      ((node.sourceSize (.buffer .moeY)).map NnSize3D.z).getD 0 ≤ b.n.header.nActiveExperts) :
    Triple [whole (.buffer .y)] (opUses node c (b.moeOps layerIndex)) [whole (.buffer .y)] := by
  rw [triple_iff]
  by_cases hactive : b.n.header.nActiveExperts = 0
  · rw [hactive] at hplanes
    have hnone := Nat.le_zero.mp hplanes
    by_cases h : b.n.Quantized
    · simp [NnNodeBuilder.moeOps, LlmShape.moeYqBuffer, LlmShape.moeDqBuffer, h, hactive, hnone]
    · simp [NnNodeBuilder.moeOps, LlmShape.moeYqBuffer, LlmShape.moeDqBuffer, h, hactive, hnone]
  · by_cases h : b.n.Quantized
    · simp [NnNodeBuilder.moeOps, LlmShape.moeYqBuffer, LlmShape.moeDqBuffer, h, hactive, hplanes]
    · simp [NnNodeBuilder.moeOps, LlmShape.moeYqBuffer, LlmShape.moeDqBuffer, h, hactive, hplanes]

/-- What a layer leaves for the next segment. -/
def handOver : List Region := [whole (.buffer .x), whole (.pipe .zq)]

theorem triple_mergeAdd (name : String) (index : ℕ) :
    Triple handOver (opUses node c [⟨.mergeAdd, name, index, pointerBatchConfig (.pipe .zq),
      pointerBatchConfig (.buffer .x), size0, .empty⟩]) [whole (.buffer .x)] := by
  rw [triple_iff]
  simp [handOver]

theorem triple_entry_first :
    Triple [whole (.pipe .x)] (opUses node c [b.blockEntry b.layerStart]) [whole (.buffer .x)] := by
  rw [triple_iff]
  simp [NnNodeBuilder.blockEntry]

theorem triple_entry_next {layerIndex : ℕ} (h : layerIndex ≠ b.layerStart) :
    Triple handOver (opUses node c [b.blockEntry layerIndex]) [whole (.buffer .x)] := by
  rw [NnNodeBuilder.blockEntry, if_neg h]
  exact triple_mergeAdd node c _ _

theorem triple_castD (layerIndex : ℕ) :
    Triple [whole (.buffer .y)] (opUses node c [⟨.cast, "block_cast_d3", layerIndex,
      pointerBatchConfig (.buffer .y), pointerBatchConfig (.pipe .zq), size0, .empty⟩])
      [whole (.pipe .zq)] := by
  rw [triple_iff]
  simp

theorem triple_bridgeOps : Triple handOver (opUses node c NnNodeBuilder.bridge.ops) [] := by
  rw [triple_iff]
  simp [NnNodeBuilder.bridge, handOver]

/-- Every thread writes its pair before the pairs are compared. -/
theorem triple_logits (fusedLmHeadArgmax : Bool) :
    Triple [whole (.buffer b.n.yqBuffer)] (opUses node c (b.logitsOps fusedLmHeadArgmax)) [] := by
  have hthreads : min (c.nThreads node.config.placement.globalRank) 64 * 2 ≤
      c.nThreads node.config.placement.globalRank * 2 := by
    omega
  rw [triple_iff]
  cases fusedLmHeadArgmax with
  | false => simp [NnNodeBuilder.logitsOps, pointerBatchedSliceConfig]
  | true => simp [NnNodeBuilder.logitsOps, pointerBatchedSliceConfig, hthreads]

end Groups

section Segments

variable (node : NnNode) (c : Cluster) (b : NnNodeBuilder)

/-- What the steps of a segment read and write. -/
def segmentUses (segment : NnSegmentConfig) : List (Use Region) :=
  (segmentSteps (c.nSockets + 1) segment).map (stepUse c node)

theorem segmentUses_eq (segment : NnSegmentConfig) : ∃ syncs : List (Use Region),
    segmentUses node c segment = opUses node c segment.ops ++ syncs ∧
      ∀ u ∈ syncs, u.reads = [] := by
  refine ⟨(if 1 < c.nSockets + 1 ∧ 0 < segment.syncs.length then [.syncNodes segment.syncs]
    else []).map (stepUse c node), ?_, ?_⟩
  · rw [segmentUses, segmentSteps, List.map_append, List.map_map]
    exact Eq.refl _
  · intro u hu
    obtain ⟨step, hstep, hstepUse⟩ := List.mem_map.mp hu
    split at hstep
    · rw [← hstepUse, List.mem_singleton.mp hstep]
      exact Eq.refl _
    · cases hstep

/-- Steps that read nothing. -/
theorem triple_of_reads_nil {us : List (Use Region)} (h : ∀ u ∈ us, u.reads = [])
    (known : List Region) : Triple known us known := by
  induction us with
  | nil => exact Triple.nil known
  | cons u us ih =>
    have hfirst : Triple known [u] known := by
      rw [triple_iff]
      constructor
      · rw [Checks, h u List.mem_cons_self]
        exact ⟨fun r hr => absurd hr List.not_mem_nil, trivial⟩
      · intro r hr
        exact (covered_append _ _ _).mpr (.inr (covered_of_mem hr))
    exact hfirst.append (ih fun v hv => h v (List.mem_cons_of_mem u hv))

/-- Syncs only write. -/
theorem triple_segment {segment : NnSegmentConfig} {pre post : List Region}
    (h : Triple pre (opUses node c segment.ops) post) :
    Triple pre (segmentUses node c segment) post := by
  obtain ⟨syncs, heq, hreads⟩ := segmentUses_eq node c segment
  rw [heq]
  exact h.append (triple_of_reads_nil hreads post)

/-- The first segment of a layer after the operation that brings the rows in. -/
def attRest (layerIndex : ℕ) : List NnOpConfig :=
  b.normOps "block_norm_pre_0" "block_norm_0" layerIndex ++ b.castYOps "block_cast_y" layerIndex ++
    b.qkvOps layerIndex ++ b.qkNormOps layerIndex ++ b.ropeOps layerIndex ++
    b.attentionOps layerIndex

theorem att_ops (layerIndex : ℕ) :
    (b.att layerIndex).ops = b.blockEntry layerIndex :: attRest b layerIndex := by
  simp only [NnNodeBuilder.att, attRest, List.cons_append]

theorem triple_attRest (layerIndex : ℕ)
    (hheads : sliceWidth node (.buffer .z) ≤ b.n.multiHeadAttSlice.nHeads0 * b.n.header.headDim) :
    Triple [whole (.pipe .pos), whole (.buffer .x)] (opUses node c (attRest b layerIndex))
      handOver := by
  rw [attRest]
  simp only [opUses_append]
  have hnorm := (triple_norm node c b "block_norm_pre_0" "block_norm_0" layerIndex).weaken
    (List.subset_cons_self (whole (.pipe .pos)) _) fun _ h => h
  have hcast := hnorm.seq (triple_castY node c b "block_cast_y" layerIndex) (by simp)
  have hqkv := hcast.seq (triple_qkv node c b layerIndex) (by simp)
  have hqkNorm := hqkv.seq (triple_qkNorm node c b layerIndex) (by simp)
  have hrope := hqkNorm.seq (triple_rope node c b layerIndex) (by simp)
  have hattention := hrope.seq (triple_attention node c b layerIndex hheads) (by simp)
  exact hattention.keep.weaken (fun _ h => h) (by simp [handOver])

theorem triple_att {layerIndex : ℕ} {entry : List Region}
    (hheads : sliceWidth node (.buffer .z) ≤ b.n.multiHeadAttSlice.nHeads0 * b.n.header.headDim)
    (hentry : Triple entry (opUses node c [b.blockEntry layerIndex]) [whole (.buffer .x)]) :
    Triple (whole (.pipe .pos) :: entry) (segmentUses node c (b.att layerIndex)) handOver := by
  apply triple_segment
  have hops : (b.att layerIndex).ops = [b.blockEntry layerIndex] ++ attRest b layerIndex :=
    att_ops b layerIndex
  rw [hops, opUses_append]
  have hstart := hentry.weaken (List.subset_cons_self (whole (.pipe .pos)) entry) fun _ h => h
  have hrest := hstart.seq (triple_attRest node c b layerIndex hheads) (by simp)
  exact hrest.weaken (fun _ h => h) (by simp [handOver])

theorem triple_ffOps (layerIndex : ℕ) (hplanes : b.n.header.archType = .qwen3Moe →
      ((node.sourceSize (.buffer .moeY)).map NnSize3D.z).getD 0 ≤ b.n.header.nActiveExperts) :
    Triple handOver (opUses node c (b.ff layerIndex).ops) handOver := by
  have hblock : Triple [whole (.buffer .y)] (opUses node c
      (if b.n.header.archType = .qwen3Moe then b.moeOps layerIndex else b.denseOps layerIndex))
      [whole (.buffer .y)] := by
    split
    · rename_i hmoe
      exact triple_moe node c b layerIndex (hplanes hmoe)
    · exact triple_dense node c b layerIndex
  have hops : (b.ff layerIndex).ops = [⟨.mergeAdd, "block_merge_add2", layerIndex,
      pointerBatchConfig (.pipe .zq), pointerBatchConfig (.buffer .x), size0, .empty⟩] ++
      b.normOps "block_norm_pre_1" "block_norm_1" layerIndex ++
      (if b.n.header.archType = .qwen3Moe then b.moeOps layerIndex else b.denseOps layerIndex) ++
      [⟨.cast, "block_cast_d3", layerIndex, pointerBatchConfig (.buffer .y),
        pointerBatchConfig (.pipe .zq), size0, .empty⟩] := Eq.refl _
  rw [hops]
  simp only [opUses_append]
  have hnorm := (triple_mergeAdd node c "block_merge_add2" layerIndex).seq
    (triple_norm node c b "block_norm_pre_1" "block_norm_1" layerIndex) (by simp)
  have hffn := hnorm.seq hblock (by simp)
  have hcast := hffn.seq (triple_castD node c layerIndex) (by simp)
  exact hcast.weaken (fun _ h => h) (by simp [handOver])

theorem triple_ff (layerIndex : ℕ) (hplanes : b.n.header.archType = .qwen3Moe →
      ((node.sourceSize (.buffer .moeY)).map NnSize3D.z).getD 0 ≤ b.n.header.nActiveExperts) :
    Triple handOver (segmentUses node c (b.ff layerIndex)) handOver :=
  triple_segment node c (triple_ffOps node c b layerIndex hplanes)

theorem triple_bridge : Triple handOver (segmentUses node c NnNodeBuilder.bridge) [] :=
  triple_segment node c (triple_bridgeOps node c)

theorem triple_finalOps (fusedLmHeadArgmax : Bool) :
    Triple handOver (opUses node c (b.finalSegment fusedLmHeadArgmax).ops) [] := by
  have hnorm := (triple_mergeAdd node c "final_merge_add" 0).seq
    (triple_norm node c b "final_norm_pre" "final_norm" 0) (by simp)
  have hcast := hnorm.seq (triple_castY node c b "final_cast_y" 0) (by simp)
  have hlogits := hcast.seq (triple_logits node c b fusedLmHeadArgmax) (by simp)
  simp only [← opUses_append] at hlogits
  exact hlogits.weaken (fun _ h => h) (by simp)

theorem triple_finalSegment (fusedLmHeadArgmax : Bool) :
    Triple handOver (segmentUses node c (b.finalSegment fusedLmHeadArgmax)) [] :=
  triple_segment node c (triple_finalOps node c b fusedLmHeadArgmax)

/-- What the steps of a layer read and write. -/
def layerUses (layerIndex : ℕ) : List (Use Region) :=
  segmentUses node c (b.att layerIndex) ++ segmentUses node c (b.ff layerIndex)

/-- Sizes that the attention and the experts of a node rely on. -/
structure Sized : Prop where
  /-- The heads of the rank fill its part of the output. -/
  heads : sliceWidth node (.buffer .z) ≤ b.n.multiHeadAttSlice.nHeads0 * b.n.header.headDim
  /-- One expert for each plane. -/
  planes : b.n.header.archType = .qwen3Moe →
    ((node.sourceSize (.buffer .moeY)).map NnSize3D.z).getD 0 ≤ b.n.header.nActiveExperts

theorem triple_layer (hs : Sized node b) {layerIndex : ℕ} {entry : List Region}
    (hentry : Triple entry (opUses node c [b.blockEntry layerIndex]) [whole (.buffer .x)]) :
    Triple (whole (.pipe .pos) :: entry) (layerUses node c b layerIndex) handOver :=
  (triple_att node c b hs.heads hentry).append (triple_ff node c b layerIndex hs.planes)

/-- Layers after the first one. -/
theorem triple_next (hs : Sized node b) {first : ℕ} (hfirst : b.layerStart < first) (count : ℕ) :
    Triple (whole (.pipe .pos) :: handOver) ((List.range' first count).flatMap (layerUses node c b))
      handOver := by
  induction count generalizing first with
  | zero => exact (Triple.nil _).weaken (fun _ h => h) (List.subset_cons_self _ _)
  | succ count ih =>
    have hentry := triple_entry_next node c b (Nat.ne_of_gt hfirst)
    have hlayer := (triple_layer node c b hs hentry).keep
    have hrest := ih (Nat.lt_succ_of_lt hfirst)
    rw [List.range'_succ, List.flatMap_cons]
    exact hlayer.append (hrest.weaken (by simp) fun _ h => h)

/-- The layers of a stage that has some. -/
theorem triple_layers (hs : Sized node b) (hlt : b.layerStart < b.layerEnd) :
    Triple [whole (.pipe .pos), whole (.pipe .x)] (b.layers.flatMap (layerUses node c b))
      handOver := by
  have hcount : b.layerEnd - b.layerStart = b.layerEnd - b.layerStart - 1 + 1 := by
    omega
  have hlayer := (triple_layer node c b hs (triple_entry_first node c b)).keep
  have hrest := triple_next node c b hs (Nat.lt_succ_self b.layerStart)
    (b.layerEnd - b.layerStart - 1)
  rw [NnNodeBuilder.layers, hcount, List.range'_succ, List.flatMap_cons]
  exact hlayer.append (hrest.weaken (by simp) fun _ h => h)

/-- What follows the layers. -/
def tailUses (fusedLmHeadArgmax : Bool) : List (Use Region) :=
  (if b.nodePlacement.ppRank < b.topology.ppSize - 1 then segmentUses node c NnNodeBuilder.bridge
    else []) ++
  if b.nodePlacement.ppRank = b.topology.ppSize - 1 then
    segmentUses node c (b.finalSegment fusedLmHeadArgmax) else []

theorem triple_tail (fusedLmHeadArgmax : Bool) :
    Triple handOver (tailUses node c b fusedLmHeadArgmax) [] := by
  have hbridge : Triple handOver (if b.nodePlacement.ppRank < b.topology.ppSize - 1 then
      segmentUses node c NnNodeBuilder.bridge else []) handOver := by
    split
    · exact (triple_bridge node c).keep.weaken (fun _ h => h) (by simp)
    · exact Triple.nil handOver
  have hfinal : Triple handOver (if b.nodePlacement.ppRank = b.topology.ppSize - 1 then
      segmentUses node c (b.finalSegment fusedLmHeadArgmax) else []) [] := by
    split
    · exact triple_finalSegment node c b fusedLmHeadArgmax
    · exact (Triple.nil handOver).weaken (fun _ h => h) (List.nil_subset _)
  exact hbridge.append hfinal

/-- A forward is the start, the layers and what follows them. -/
theorem forwardUses_eq {fusedLmHeadArgmax : Bool}
    (h : node.config.segments = b.segments fusedLmHeadArgmax) : forwardUses c node =
      segmentUses node c b.start ++
        (b.layers.flatMap (layerUses node c b) ++ tailUses node c b fusedLmHeadArgmax) := by
  have hsegments (segments : List NnSegmentConfig) :
      (segments.flatMap (segmentSteps (c.nSockets + 1))).map (stepUse c node) =
        segments.flatMap (segmentUses node c) := List.map_flatMap
  have hlayers : (b.layers.flatMap fun layerIndex => [b.att layerIndex, b.ff layerIndex]).flatMap
      (segmentUses node c) = b.layers.flatMap (layerUses node c b) := by
    rw [List.flatMap_assoc]
    simp only [List.flatMap_cons, List.flatMap_nil, List.append_nil]
    exact Eq.refl _
  have htail : ((if b.nodePlacement.ppRank < b.topology.ppSize - 1 then [NnNodeBuilder.bridge]
      else []) ++ (if b.nodePlacement.ppRank = b.topology.ppSize - 1 then
        [b.finalSegment fusedLmHeadArgmax] else [])).flatMap (segmentUses node c) =
      tailUses node c b fusedLmHeadArgmax := by
    rw [List.flatMap_append, tailUses]
    congr 1 <;> split <;> simp
  rw [forwardUses, forwardSteps, h, hsegments, NnNodeBuilder.segments, List.append_assoc,
    List.append_assoc, List.flatMap_append, List.flatMap_append, hlayers, htail,
    List.flatMap_singleton]

end Segments

section Nodes

variable {h : LlmHeader} {topology : NnParallelTopology} {nBatches nodeIndex : ℕ}
  {layerOffsets : List ℕ} {n : LlmShape} {b : NnNodeBuilder} {fusedLmHeadArgmax : Bool}

/-- A node with the configuration that is built. -/
abbrev builtNode (b : NnNodeBuilder) (nBatches : ℕ) (fusedLmHeadArgmax : Bool) : NnNode :=
  nodeOf b.n.header nBatches
    ⟨b.nodePlacement, b.buffers nBatches, b.segments fusedLmHeadArgmax⟩

theorem size_x : (builtNode b nBatches fusedLmHeadArgmax).sourceSize (.buffer .x) =
    some (size2D .f32 nBatches b.n.header.dim) := by
  simp [nodeOf, NnNode.sourceSize, NnNodeBuilder.buffers]

theorem size_z : (builtNode b nBatches fusedLmHeadArgmax).sourceSize (.buffer .z) =
    some (size2D .f32 nBatches b.n.header.qDim) := by
  by_cases hq : b.n.Quantized <;>
  simp [nodeOf, NnNode.sourceSize, NnNodeBuilder.buffers, hq]

theorem size_moeY : (builtNode b nBatches fusedLmHeadArgmax).sourceSize (.buffer .moeY) =
    some (size3D .f32 (max b.n.header.nActiveExperts 1) nBatches b.n.header.dim) := by
  by_cases hq : b.n.Quantized <;>
  simp [nodeOf, NnNode.sourceSize, NnNodeBuilder.buffers, hq]

theorem size_moeS : (builtNode b nBatches fusedLmHeadArgmax).sourceSize (.buffer .moeS) =
    some (size3D .f32 (max b.n.header.nActiveExperts 1) nBatches 1) := by
  by_cases hq : b.n.Quantized <;>
  simp [nodeOf, NnNode.sourceSize, NnNodeBuilder.buffers, hq]

/-- Ranks of a node. -/
theorem placement_ok {placement : NnNodePlacement}
    (h : topology.getPlacement nodeIndex = .ok placement) :
    nodeIndex < topology.nNodes ∧ placement.globalRank = nodeIndex ∧
      placement.ppRank = nodeIndex / (topology.spSize * topology.tpSize) ∧
      placement.tpGroupEnd - placement.tpGroupStart = topology.tpSize := by
  unfold NnParallelTopology.getPlacement at h
  split at h
  · cases h
  · rename_i hlt
    injection h with h
    rw [← h]
    exact ⟨Nat.not_le.mp hlt, Eq.refl _, Eq.refl _, Nat.add_sub_cancel_left _ _⟩

/-- The layers of a stage rely on the sizes that they have. -/
theorem sized (hbuilt : BuiltFrom n topology layerOffsets nodeIndex b)
    (hshape : buildShape h topology.tpSize nBatches = .ok n)
    (hqDim : h.qDim = h.headDim * h.nHeads % 2 ^ 32)
    (hinit : Initialized (builtNode b nBatches fusedLmHeadArgmax))
    (hlt : b.layerStart < b.layerEnd) : Sized (builtNode b nBatches fusedLmHeadArgmax) b := by
  obtain ⟨hheader, hatt, _⟩ := buildShape_ok hshape
  have hgroup := (placement_ok hbuilt.placement_eq).2.2.2
  constructor
  · obtain ⟨u, hwhole, hslice⟩ := bind_eq_ok hatt
    injection hslice with hslice
    have hdvd : topology.tpSize ∣ h.nHeads := Nat.dvd_of_mod_eq_zero (require_eq_ok hwhole)
    have hwidth : sliceWidth (builtNode b nBatches fusedLmHeadArgmax) (.buffer .z) =
        h.qDim / topology.tpSize := by
      rw [sliceWidth, size_z, hbuilt.shape_eq, hheader]
      exact congrArg (h.qDim / ·) hgroup
    rw [hwidth, hbuilt.shape_eq, hheader, ← hslice, hqDim]
    have hle : h.headDim * h.nHeads % 2 ^ 32 ≤ h.headDim * h.nHeads := Nat.mod_le _ _
    calc h.headDim * h.nHeads % 2 ^ 32 / topology.tpSize
        ≤ h.headDim * h.nHeads / topology.tpSize := Nat.div_le_div_right hle
      _ = h.headDim * (h.nHeads / topology.tpSize) := Nat.mul_div_assoc _ hdvd
      _ = h.nHeads / topology.tpSize * h.headDim := Nat.mul_comm _ _
  · intro hmoe
    have hlayer : b.layerStart ∈ b.layers := by
      rw [NnNodeBuilder.layers, List.mem_range']
      exact ⟨0, by omega, by omega⟩
    have hsegment : b.ff b.layerStart ∈ b.segments fusedLmHeadArgmax := by
      have hpair : b.ff b.layerStart ∈
          b.layers.flatMap fun layerIndex => [b.att layerIndex, b.ff layerIndex] :=
        List.mem_flatMap.mpr ⟨b.layerStart, hlayer, by simp⟩
      simp [NnNodeBuilder.segments, hpair]
    have hops : (⟨.moeGate, "block_moe_gate2", b.layerStart, pointerBatchConfig (.buffer .gt),
        pointerBatchConfig (.buffer .moeS), size0, .moeGate b.n.header.nActiveExperts 1 .actExpIx⟩ :
        NnOpConfig) ∈ (b.ff b.layerStart).ops := by
      simp [NnNodeBuilder.ff, hmoe, NnNodeBuilder.moeOps]
    have hgate : ((builtNode b nBatches fusedLmHeadArgmax).sourceSize (.buffer .moeS)).map
        NnSize3D.z = some b.n.header.nActiveExperts :=
      hinit _ (List.mem_flatMap.mpr ⟨_, hsegment, hops⟩) _ _ _ (Eq.refl _)
    rw [size_moeS] at hgate
    injection hgate with hgate
    rw [size_moeY]
    exact Nat.le_of_eq hgate

end Nodes

end LayerSkip.ForwardTriples
