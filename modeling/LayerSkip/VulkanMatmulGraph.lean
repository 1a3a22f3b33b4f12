import LayerSkip.RopeSlicing
import LayerSkip.VulkanMatmul

/-!
# The quantised products of the graph

All products that `buildLlmNet` emits see rows: those of a layer whole rows, that of the logits the
part of the tensor rank. The constant that says how many invocations share a row is computed from
the whole row, so with more than one tensor rank the logits are wrong.
-/

namespace LayerSkip.VulkanMatmulGraph

open NnTopology NnPipeline NnCore NnCpu LlmGraph DevicePlacement VulkanMatmul

/-- The product of an operation on blocks with a weight of blocks. -/
def matmulOp (node : NnNode) (op : LlmGraph.NnOpConfig) : Option MatmulOp :=
  match op.code, op.config with
  | .matmul, .matmul nExperts nActiveExperts activeExpertIndexesBuffer => do
    let inputSize ← node.sourceSize op.input.source
    let outputSize ← node.sourceSize op.output.source
    if inputSize.floatType = some .q80 ∧ op.weightSize.floatType = some .q40 ∧
        outputSize.floatType = some .f32 then
      some ⟨op.input.type, inputSize, op.output.type, outputSize, op.weightSize, nExperts,
        nActiveExperts,
        node.config.buffers.findIdx fun entry => entry.1 = activeExpertIndexesBuffer⟩
    else none
  | _, _ => none

/-- A size made from extents. -/
def Made (size : NnSize3D) : Prop := ∃ floatType z y x, size = size3D floatType z y x

theorem made_size3D (floatType : NnFloatType) (z y x : ℕ) : Made (size3D floatType z y x) :=
  ⟨floatType, z, y, x, Eq.refl _⟩

theorem made_size2D (floatType : NnFloatType) (y x : ℕ) : Made (size2D floatType y x) :=
  made_size3D floatType 1 y x

theorem made_cacheSize {type : NnRopeType}
    {qDim kvDim nKvHeads nNodes seqLen headDim nodeIndex : ℕ} {slice : NnRopeSlice}
    (h : sliceRope type qDim kvDim nKvHeads nNodes seqLen headDim nodeIndex = .ok slice) :
    Made slice.cacheSize := by
  obtain ⟨_, _, h⟩ := bind_eq_ok h
  obtain ⟨_, _, h⟩ := bind_eq_ok h
  obtain ⟨_, _, h⟩ := bind_eq_ok h
  obtain ⟨_, _, h⟩ := bind_eq_ok h
  obtain ⟨_, _, h⟩ := bind_eq_ok h
  by_cases htype : type = .falcon
  · rw [if_pos htype] at h
    injection h with h
    rw [← h]
    exact made_size2D _ _ _
  · rw [if_neg htype] at h
    obtain ⟨_, _, h⟩ := bind_eq_ok h
    injection h with h
    rw [← h]
    exact made_size2D _ _ _

theorem made_attSize {nHeads seqLen nNodes nBatches : ℕ} {slice : NnMultiHeadAttSlice}
    (h : sliceMultiHeadAtt nHeads seqLen nNodes nBatches = .ok slice) : Made slice.attSize := by
  obtain ⟨_, _, h⟩ := bind_eq_ok h
  injection h with h
  rw [← h]
  exact made_size2D _ _ _

theorem made_kvSizes {kvDim seqLen nNodes spSize spRank : ℕ} {slice : NnKvCacheSlice}
    (h : sliceKvCache kvDim seqLen nNodes spSize spRank = .ok slice) :
    Made slice.keySize ∧ Made slice.valueSize := by
  obtain ⟨_, _, h⟩ := bind_eq_ok h
  obtain ⟨_, _, h⟩ := bind_eq_ok h
  obtain ⟨_, _, h⟩ := bind_eq_ok h
  injection h with h
  rw [← h]
  exact ⟨made_size2D _ _ _, made_size2D _ _ _⟩

/-- All buffers of a node have sizes made from extents. -/
theorem made_buffers {b : NnNodeBuilder} (hatt : Made b.n.multiHeadAttSlice.attSize)
    (hrope : Made b.ropeSlice.cacheSize) (hkey : Made b.kvCacheSlice.keySize)
    (hvalue : Made b.kvCacheSlice.valueSize) (nBatches : ℕ) :
    ∀ entry ∈ b.buffers nBatches, Made entry.2 := by
  have hoptional : ∀ buffer size, Made size →
      ∀ entry ∈ (if b.n.Quantized then [(buffer, size)] else [] : List (NnBuffer × NnSize3D)),
        Made entry.2 := by
    intro buffer size hsize entry hentry
    split at hentry
    · rw [List.mem_singleton.mp hentry]
      exact hsize
    · cases hentry
  have hlayers : ∀ entry ∈ b.layers.flatMap (fun layerIndex =>
      [(NnBuffer.k layerIndex, b.kvCacheSlice.keySize),
        (NnBuffer.v layerIndex, b.kvCacheSlice.valueSize)]), Made entry.2 := by
    intro entry hentry
    obtain ⟨layerIndex, _, hmem⟩ := List.mem_flatMap.mp hentry
    simp only [List.mem_cons, List.not_mem_nil, or_false] at hmem
    cases hmem with
    | inl heq => exact heq ▸ hkey
    | inr heq => exact heq ▸ hvalue
  simp only [NnNodeBuilder.buffers, List.forall_mem_append, List.forall_mem_cons,
    List.not_mem_nil, false_implies, implies_true, and_true, true_and, made_size2D, made_size3D,
    hatt, hrope]
  exact ⟨⟨⟨⟨hoptional _ _ (made_size2D _ _ _), hoptional _ _ (made_size2D _ _ _)⟩,
    hoptional _ _ (made_size3D _ _ _ _)⟩, hoptional _ _ (made_size3D _ _ _ _)⟩, hlayers⟩

/-- A product sees rows of its input and whole rows of its output, and without experts none is
used. -/
def SeesRows (op : LlmGraph.NnOpConfig) : Prop :=
  op.code = .matmul → op.input.type ≠ .raw ∧ op.output.type = .batch ∧ Made op.weightSize ∧
    ∀ nExperts nActiveExperts buffer, op.config = .matmul nExperts nActiveExperts buffer →
      nExperts = 0 → nActiveExperts = 0 ∨ op.weightSize.z = 0

theorem seesRows_of_ne {op : LlmGraph.NnOpConfig} (h : op.code ≠ .matmul) : SeesRows op :=
  fun hcode => absurd hcode h

theorem batch_ne_raw : NnPointerType.batch ≠ .raw := by
  simp

/-- A product of whole rows, with as many experts as the weight has planes. -/
theorem seesRows_batch {name : String} {index : ℕ} {input output : NnSource}
    {floatType : NnFloatType} {nExperts nActiveExperts n d : ℕ} {buffer : NnBuffer} :
    SeesRows ⟨.matmul, name, index, pointerBatchConfig input, pointerBatchConfig output,
      size3D floatType nExperts n d, .matmul nExperts nActiveExperts buffer⟩ := by
  intro _
  refine ⟨batch_ne_raw, Eq.refl _, made_size3D _ _ _ _, ?_⟩
  intro nExperts' nActiveExperts' buffer' hconfig hzero
  injection hconfig with hexperts
  exact .inr (hexperts.trans hzero)

/-- A product without experts. -/
theorem seesRows_dense {name : String} {index : ℕ} {input output : NnSource} {type : NnPointerType}
    (htype : type ≠ .raw) {floatType : NnFloatType} {n d : ℕ} {buffer : NnBuffer} :
    SeesRows ⟨.matmul, name, index, ⟨input, type⟩, pointerBatchConfig output, size2D floatType n d,
      .matmul 0 0 buffer⟩ := by
  intro _
  refine ⟨htype, Eq.refl _, made_size2D _ _ _, ?_⟩
  intro nExperts' nActiveExperts' buffer' hconfig _
  injection hconfig with _ hactive
  exact .inl hactive.symm

section Graph

variable (b : NnNodeBuilder)

theorem seesRows_norm (preName name : String) (index : ℕ) :
    ∀ op ∈ b.normOps preName name index, SeesRows op := by
  simp [NnNodeBuilder.normOps, SeesRows]

theorem seesRows_castY (name : String) (index : ℕ) :
    ∀ op ∈ b.castYOps name index, SeesRows op := by
  intro op hop
  rw [NnNodeBuilder.castYOps] at hop
  split at hop
  · rw [List.mem_singleton.mp hop]
    exact seesRows_of_ne (by simp)
  · cases hop

theorem seesRows_blockEntry (layerIndex : ℕ) : SeesRows (b.blockEntry layerIndex) := by
  rw [NnNodeBuilder.blockEntry]
  split
  · exact seesRows_of_ne (by simp)
  · exact seesRows_of_ne (by simp)

theorem seesRows_qkv (layerIndex : ℕ) : ∀ op ∈ b.qkvOps layerIndex, SeesRows op := by
  simp only [NnNodeBuilder.qkvOps, List.forall_mem_cons, List.not_mem_nil, false_implies,
    implies_true, and_true]
  exact ⟨seesRows_dense batch_ne_raw, seesRows_dense batch_ne_raw, seesRows_dense batch_ne_raw⟩

theorem seesRows_qkNorm (layerIndex : ℕ) : ∀ op ∈ b.qkNormOps layerIndex, SeesRows op := by
  intro op hop
  rw [NnNodeBuilder.qkNormOps] at hop
  split at hop
  · apply seesRows_of_ne
    simp only [List.mem_cons, List.not_mem_nil, or_false] at hop
    rcases hop with h | h | h | h <;> rw [h] <;> simp
  · cases hop

theorem seesRows_rope (layerIndex : ℕ) : ∀ op ∈ b.ropeOps layerIndex, SeesRows op := by
  simp [NnNodeBuilder.ropeOps, SeesRows]

theorem seesRows_attention (layerIndex : ℕ) : ∀ op ∈ b.attentionOps layerIndex, SeesRows op := by
  simp only [NnNodeBuilder.attentionOps, List.forall_mem_cons, List.not_mem_nil, false_implies,
    implies_true, and_true]
  exact ⟨seesRows_of_ne (by simp), seesRows_of_ne (by simp),
    seesRows_dense batch_ne_raw, seesRows_of_ne (by simp)⟩

theorem seesRows_moe (layerIndex : ℕ) : ∀ op ∈ b.moeOps layerIndex, SeesRows op := by
  have hcast : ∀ op ∈ (if b.n.Quantized then
      [⟨.cast, "block_cast_d2", layerIndex, pointerBatchConfig (.buffer .moeD),
        pointerBatchConfig (.buffer .qMoeD), size0, .empty⟩] else [] : List LlmGraph.NnOpConfig),
      SeesRows op := by
    intro op hop
    split at hop
    · rw [List.mem_singleton.mp hop]
      exact seesRows_of_ne (by simp)
    · cases hop
  simp only [NnNodeBuilder.moeOps, List.forall_mem_append, List.forall_mem_cons, List.not_mem_nil,
    false_implies, implies_true, and_true]
  exact ⟨⟨⟨seesRows_of_ne (by simp), seesRows_dense batch_ne_raw,
    seesRows_of_ne (by simp), seesRows_of_ne (by simp), seesRows_batch,
    seesRows_batch, seesRows_of_ne (by simp), seesRows_of_ne (by simp)⟩,
    hcast⟩, seesRows_batch, seesRows_of_ne (by simp), seesRows_of_ne (by simp)⟩

theorem seesRows_denseOps (layerIndex : ℕ) : ∀ op ∈ b.denseOps layerIndex, SeesRows op := by
  have hcast : ∀ op ∈ (if b.n.Quantized then
      [⟨.cast, "block_cast_d2", layerIndex, pointerBatchConfig (.buffer .d),
        pointerBatchConfig (.buffer .qD), size0, .empty⟩] else [] : List LlmGraph.NnOpConfig),
      SeesRows op := by
    intro op hop
    split at hop
    · rw [List.mem_singleton.mp hop]
      exact seesRows_of_ne (by simp)
    · cases hop
  simp only [NnNodeBuilder.denseOps, List.forall_mem_append, List.forall_mem_cons, List.not_mem_nil,
    false_implies, implies_true, and_true]
  exact ⟨⟨⟨seesRows_castY b _ _, seesRows_dense batch_ne_raw, seesRows_dense batch_ne_raw,
    seesRows_of_ne (by simp), seesRows_of_ne (by simp)⟩, hcast⟩,
    seesRows_dense batch_ne_raw⟩

theorem seesRows_final (fusedLmHeadArgmax : Bool) :
    ∀ op ∈ (b.finalSegment fusedLmHeadArgmax).ops, SeesRows op := by
  have hslice : NnPointerType.batchedSlice ≠ .raw := by simp
  have hlogits : ∀ op ∈ b.logitsOps fusedLmHeadArgmax, SeesRows op := by
    intro op hop
    unfold NnNodeBuilder.logitsOps at hop
    split at hop
    · apply seesRows_of_ne
      simp only [List.mem_cons, List.not_mem_nil, or_false] at hop
      rcases hop with h | h <;> rw [h] <;> simp
    · rw [List.mem_singleton.mp hop]
      exact seesRows_dense hslice
  simp only [NnNodeBuilder.finalSegment, List.forall_mem_append, List.forall_mem_cons,
    List.cons_append]
  exact ⟨seesRows_of_ne (by simp), ⟨seesRows_norm b _ _ _, seesRows_castY b _ _⟩,
    hlogits⟩

/-- All products of a node see rows. -/
theorem seesRows_segments (fusedLmHeadArgmax : Bool) :
    ∀ segment ∈ b.segments fusedLmHeadArgmax, ∀ op ∈ segment.ops, SeesRows op := by
  have hstart : ∀ op ∈ b.start.ops, SeesRows op := by
    intro op hop
    simp only [NnNodeBuilder.start] at hop
    split at hop
    · rw [List.mem_singleton.mp hop]
      exact seesRows_of_ne (by simp)
    · cases hop
  have hatt : ∀ layerIndex, ∀ op ∈ (b.att layerIndex).ops, SeesRows op := by
    intro layerIndex
    simp only [NnNodeBuilder.att, List.forall_mem_append, List.forall_mem_cons, List.cons_append]
    exact ⟨seesRows_blockEntry b layerIndex, ⟨⟨⟨⟨seesRows_norm b _ _ _, seesRows_castY b _ _⟩,
      seesRows_qkv b layerIndex⟩, seesRows_qkNorm b layerIndex⟩, seesRows_rope b layerIndex⟩,
      seesRows_attention b layerIndex⟩
  have hff : ∀ layerIndex, ∀ op ∈ (b.ff layerIndex).ops, SeesRows op := by
    intro layerIndex
    have hblock : ∀ op ∈ (if b.n.header.archType = .qwen3Moe then b.moeOps layerIndex
        else b.denseOps layerIndex), SeesRows op := by
      split
      · exact seesRows_moe b layerIndex
      · exact seesRows_denseOps b layerIndex
    simp only [NnNodeBuilder.ff, List.forall_mem_append, List.forall_mem_cons, List.cons_append,
      List.not_mem_nil, false_implies, implies_true, and_true]
    exact ⟨seesRows_of_ne (by simp), ⟨seesRows_norm b _ _ _, hblock⟩,
      seesRows_of_ne (by simp)⟩
  have hbridge : ∀ op ∈ NnNodeBuilder.bridge.ops, SeesRows op := by
    simp [NnNodeBuilder.bridge, SeesRows]
  intro segment hsegment
  simp only [NnNodeBuilder.segments, List.mem_append, List.mem_singleton,
    List.mem_flatMap] at hsegment
  rcases hsegment with ((hfirst | ⟨layerIndex, _, hlayer⟩) | hbetween) | hlast
  · rw [hfirst]
    exact hstart
  · simp only [List.mem_cons, List.not_mem_nil, or_false] at hlayer
    cases hlayer with
    | inl h => exact h ▸ hatt layerIndex
    | inr h => exact h ▸ hff layerIndex
  · split at hbetween
    · rw [List.mem_singleton.mp hbetween]
      exact hbridge
    · cases hbetween
  · split at hlast
    · rw [List.mem_singleton.mp hlast]
      exact seesRows_final b fusedLmHeadArgmax
    · cases hlast

end Graph

/-- The constructor gives every lane a tensor rank. -/
theorem tpSize_pos {nNodes ppSize spSize : NnUint} {topology : NnParallelTopology}
    (h : createPPxSPxTPTopology nNodes ppSize spSize = .ok topology) : 0 < topology.tpSize := by
  unfold createPPxSPxTPTopology at h
  split at h
  · cases h
  · rename_i hnodes
    split at h
    · cases h
    · split at h
      · cases h
      · split at h
        · cases h
        · split at h
          · cases h
          · rename_i hdvd
            injection h with h
            have hmod := congrArg UInt32.toNat (Decidable.not_not.mp hdvd)
            have hpos : ¬nNodes.toNat < 1 := hnodes
            rw [UInt32.toNat_mod] at hmod
            have hwhole : nNodes.toNat % (ppSize * spSize).toNat = 0 := hmod
            have hsplit := Nat.div_add_mod nNodes.toNat (ppSize * spSize).toNat
            rw [← h]
            dsimp only
            rw [UInt32.toNat_div]
            apply Nat.pos_of_ne_zero
            intro hzero
            rw [hzero, hwhole] at hsplit
            omega

/-- A node of the graph, and what it is built from. -/
theorem exists_builder {h : LlmHeader} {topology : NnParallelTopology} {nBatches : ℕ}
    {ppStageLayerCounts : Option (List ℕ)} {fusedLmHeadArgmax : Bool} {net : LlmNet}
    (hnet : buildLlmNet h topology nBatches ppStageLayerCounts fusedLmHeadArgmax = .ok net)
    {config : NnNodeConfig} (hconfig : config ∈ net.nodeConfigs) :
    ∃ layerOffsets nodeIndex b, BuiltFrom net.shape topology layerOffsets nodeIndex b ∧
      sliceMultiHeadAtt h.nHeads h.seqLen topology.tpSize nBatches =
        .ok net.shape.multiHeadAttSlice ∧
      config = ⟨b.nodePlacement, b.buffers nBatches, b.segments fusedLmHeadArgmax⟩ := by
  obtain ⟨layerOffsets, hshape, _, hlength, hnodes⟩ := buildLlmNet_ok hnet
  obtain ⟨nodeIndex, hlt, hget⟩ := List.mem_iff_getElem.mp hconfig
  obtain ⟨b, hb, hbuilt⟩ := hnodes nodeIndex (hlength ▸ hlt)
  refine ⟨layerOffsets, nodeIndex, b, hb, (buildShape_ok hshape).2.1, ?_⟩
  rw [List.getElem?_eq_getElem hlt, hget] at hbuilt
  injection hbuilt

/-- The ranks of a node are those of its tensor group. -/
theorem placement_ranks {topology : NnParallelTopology} {nodeIndex : ℕ}
    {placement : NnNodePlacement} (h : topology.getPlacement nodeIndex = .ok placement)
    (hpos : 0 < topology.tpSize) :
    placement.tpRank < placement.tpGroupEnd - placement.tpGroupStart := by
  rw [NnParallelTopology.getPlacement] at h
  split at h
  · cases h
  · injection h with h
    rw [← h]
    dsimp only
    rw [Nat.add_sub_cancel_left]
    exact Nat.mod_lt _ hpos

/-- Every size of a pipe or a buffer is made from extents. -/
theorem made_sourceSize {node : NnNode} (hbuffers : ∀ entry ∈ node.config.buffers, Made entry.2)
    {source : NnSource} {size : NnSize3D} (h : node.sourceSize source = some size) :
    Made size := by
  cases source with
  | pipe pipe =>
    injection h with h
    rw [← h]
    cases pipe <;> exact made_size2D _ _ _
  | buffer buffer =>
    rw [NnNode.sourceSize, Option.map_eq_some_iff] at h
    obtain ⟨entry, hentry, heq⟩ := h
    rw [← heq]
    exact hbuffers entry (List.mem_of_find?_eq_some hentry)

/-- A size made from extents with a format. -/
theorem Made.format {size : NnSize3D} (h : Made size) {floatType : NnFloatType}
    (hsize : size.floatType = some floatType) : ∃ z y x, size = size3D floatType z y x := by
  obtain ⟨floatType', z, y, x, heq⟩ := h
  rw [heq] at hsize
  injection hsize with hsize
  exact ⟨z, y, x, hsize ▸ heq⟩

/-- The products of the graph see rows of blocks. -/
theorem quantized_of_emitted {node : NnNode} {topology : NnParallelTopology}
    {ppStageLayerCounts : Option (List ℕ)} {fusedLmHeadArgmax : Bool} {net : LlmNet}
    (hnet : buildLlmNet node.header topology node.nBatches ppStageLayerCounts fusedLmHeadArgmax =
      .ok net) (hnode : node.config ∈ net.nodeConfigs) {op : LlmGraph.NnOpConfig}
    (hop : op ∈ node.config.ops) {m : MatmulOp} (hm : matmulOp node op = some m) :
    Quantized m := by
  obtain ⟨_, _, b, hb, hatt, hconfig⟩ := exists_builder hnet hnode
  have hkv := made_kvSizes hb.kvCache_eq
  have hbuffers : ∀ entry ∈ node.config.buffers, Made entry.2 := by
    rw [hconfig]
    exact made_buffers (hb.shape_eq ▸ made_attSize hatt) (made_cacheSize hb.rope_eq) hkv.1 hkv.2 _
  obtain ⟨segment, hsegment, hin⟩ := List.mem_flatMap.mp hop
  have hsees : SeesRows op := by
    rw [hconfig] at hsegment
    exact seesRows_segments b fusedLmHeadArgmax segment hsegment op hin
  rw [matmulOp] at hm
  split at hm
  · rename_i nExperts nActiveExperts buffer hcode hcodeConfig
    obtain ⟨hinput, houtput, hweight, hexperts⟩ := hsees hcode
    obtain ⟨inputSize, hinputSize, hm⟩ := Option.bind_eq_some_iff.mp hm
    obtain ⟨outputSize, houtputSize, hm⟩ := Option.bind_eq_some_iff.mp hm
    split at hm
    · rename_i hformats
      injection hm with hm
      rw [← hm]
      exact ⟨hinput, (made_sourceSize hbuffers hinputSize).format hformats.1, houtput,
        (made_sourceSize hbuffers houtputSize).format hformats.2.2, hweight.format hformats.2.1,
        hexperts _ _ _ hcodeConfig⟩
    · cases hm
  · cases hm

/-- Both devices compute the same quantised product exactly when it is not one of a part of a row on
several tensor ranks, words count the values of its buffers, and it is not one of several experts of
which none is active. -/
theorem matmuls_agree_iff {R : Type*} [CommRing R] [Nontrivial R] {nNodes ppSize spSize : NnUint}
    {topology : NnParallelTopology}
    (hcreate : createPPxSPxTPTopology nNodes ppSize spSize = .ok topology) {node : NnNode}
    {ppStageLayerCounts : Option (List ℕ)} {fusedLmHeadArgmax : Bool} {net : LlmNet}
    (hnet : buildLlmNet node.header topology node.nBatches ppStageLayerCounts fusedLmHeadArgmax =
      .ok net) (hnode : node.config ∈ net.nodeConfigs) {op : LlmGraph.NnOpConfig}
    (hop : op ∈ node.config.ops) {m : MatmulOp} (hm : matmulOp node op = some m)
    {dispatch : Dispatch} {input output : NnSize3D × List ℕ}
    (haccepted : Accepted node.nBatches
      (node.config.placement.tpGroupEnd - node.config.placement.tpGroupStart)
      node.config.placement.tpRank m dispatch input output) :
    MatmulsAgree node.nBatches m R dispatch input output ↔
      Agreeing (node.config.placement.tpGroupEnd - node.config.placement.tpGroupStart) m := by
  obtain ⟨_, _, b, hb, _, hconfig⟩ := exists_builder hnet hnode
  have hrank : node.config.placement.tpRank <
      node.config.placement.tpGroupEnd - node.config.placement.tpGroupStart := by
    rw [hconfig]
    exact placement_ranks hb.placement_eq (tpSize_pos hcreate)
  exact haccepted.agree_iff (quantized_of_emitted hnet hnode hop hm) hrank

/-- A model of one layer with blocks. -/
def blockLayer : LlmHeader :=
  ⟨.llama, 64, 1, 2, 32, 2, 0, 0, 4, 64, 0, 64, 64, 64, .llama, .q40, .q80⟩

/-- A node of it. -/
def logitsNode (config : NnNodeConfig) : NnNode := ⟨blockLayer, 1, config, 64⟩

/-- The product of the logits on a number of tensor ranks. -/
def logitsOp (tpSize : ℕ) : MatmulOp :=
  ⟨.batchedSlice, size2D .q80 1 64, .batch, size2D .f32 1 64, size2D .q40 (64 / tpSize) 64, 0, 0, 0⟩

/-- What the host computes for it. -/
def logitsDispatch (tpSize : ℕ) : Dispatch :=
  ⟨[⟨0, 2 / tpSize, 0, 64⟩], 1, 1, 0, 0, 8, 1, 2, 128 / tpSize, 64⟩

theorem exists_logits (topology : NnParallelTopology) (op : MatmulOp)
    (h : ((buildLlmNet blockLayer topology 1 none false).toOption.any fun net =>
      net.nodeConfigs.any fun config => config.ops.any fun o =>
        matmulOp (logitsNode config) o = some op ∧
          config.placement.tpGroupEnd - config.placement.tpGroupStart = topology.tpSize ∧
            config.placement.tpRank = 0) = true) :
    ∃ net config o, buildLlmNet blockLayer topology 1 none false = .ok net ∧
      config ∈ net.nodeConfigs ∧ o ∈ config.ops ∧
      matmulOp (logitsNode config) o = some op ∧
      config.placement.tpGroupEnd - config.placement.tpGroupStart = topology.tpSize ∧
      config.placement.tpRank = 0 := by
  cases hnet : buildLlmNet blockLayer topology 1 none false with
  | error text =>
    rw [hnet] at h
    cases h
  | ok net =>
    rw [hnet] at h
    have hany : (net.nodeConfigs.any fun config => config.ops.any fun o =>
        matmulOp (logitsNode config) o = some op ∧
          config.placement.tpGroupEnd - config.placement.tpGroupStart = topology.tpSize ∧
            config.placement.tpRank = 0) = true := h
    obtain ⟨config, hconfig, hops⟩ := List.any_eq_true.mp hany
    obtain ⟨o, ho, hsame⟩ := List.any_eq_true.mp hops
    exact ⟨net, config, o, Eq.refl _, hconfig, ho, of_decide_eq_true hsame⟩

theorem logits_accepted_one : Accepted 1 1 0 (logitsOp 1) (logitsDispatch 1)
    (size2D .q80 1 64, [0]) (size2D .f32 1 64, [0]) :=
  ⟨by decide +kernel, by decide +kernel, by decide, by decide, by decide⟩

theorem logits_accepted_two : Accepted 1 2 0 (logitsOp 2) (logitsDispatch 2)
    (size2D .q80 1 32, [0]) (size2D .f32 1 64, [0]) :=
  ⟨by decide +kernel, by decide +kernel, by decide, by decide, by decide⟩

theorem matmuls_agree_iff_logits : createPPxSPxTPTopology 1 1 1 = .ok ⟨1, 1, 1, 1⟩ ∧
    ∃ net config o, buildLlmNet blockLayer ⟨1, 1, 1, 1⟩ 1 none false = .ok net ∧
      config ∈ net.nodeConfigs ∧ o ∈ config.ops ∧
      matmulOp (logitsNode config) o = some (logitsOp 1) ∧
      MatmulsAgree 1 (logitsOp 1) ℚ (logitsDispatch 1) (size2D .q80 1 64, [0])
        (size2D .f32 1 64, [0]) := by
  have hcreate : createPPxSPxTPTopology 1 1 1 = .ok ⟨1, 1, 1, 1⟩ := by decide
  refine ⟨hcreate, ?_⟩
  obtain ⟨net, config, o, hnet, hconfig, ho, hop, hsize, hrank⟩ :=
    exists_logits ⟨1, 1, 1, 1⟩ (logitsOp 1) (by decide +kernel)
  refine ⟨net, config, o, hnet, hconfig, ho, hop, ?_⟩
  have haccepted : Accepted 1 (config.placement.tpGroupEnd - config.placement.tpGroupStart)
      config.placement.tpRank (logitsOp 1) (logitsDispatch 1) (size2D .q80 1 64, [0])
      (size2D .f32 1 64, [0]) := by
    rw [hsize, hrank]
    exact logits_accepted_one
  have hnet' : buildLlmNet (logitsNode config).header ⟨1, 1, 1, 1⟩ (logitsNode config).nBatches none
      false = .ok net := hnet
  have hnode : (logitsNode config).config ∈ net.nodeConfigs := hconfig
  have hone : config.placement.tpGroupEnd - config.placement.tpGroupStart = 1 := hsize
  apply (matmuls_agree_iff hcreate hnet' hnode ho hop haccepted).mpr
  exact ⟨fun _ => hone, by decide, by decide, by decide, fun _ => by decide⟩

/-- Blocks of ones. -/
def onesInput : ℕ → QuantBlocks.NnBlockQ80 ℚ := fun _ => ⟨1, fun _ => 1⟩

/-- Blocks of ones. -/
def onesWeight : ℕ → QuantBlocks.NnBlockQ40 ℚ := fun _ => ⟨1, fun _ => 153⟩

/-- On two tensor ranks the logits of the graphics device add up two blocks where the processor has
one, and the last rows are read past the end of the weight. -/
theorem not_matmuls_agree_logits : createPPxSPxTPTopology 2 1 1 = .ok ⟨2, 1, 1, 2⟩ ∧
    ∃ net config o, buildLlmNet blockLayer ⟨2, 1, 1, 2⟩ 1 none false = .ok net ∧
      config ∈ net.nodeConfigs ∧ o ∈ config.ops ∧
      matmulOp (logitsNode config) o = some (logitsOp 2) ∧
      Accepted 1 2 0 (logitsOp 2) (logitsDispatch 2) (size2D .q80 1 32, [0])
        (size2D .f32 1 64, [0]) ∧
      (logitsDispatch 2).groupValue (fun _ => 0) onesInput onesWeight ⟨0, 0, 0⟩ 0 = 64 ∧
      matmul_Q80_Q40_F32 onesInput onesWeight 32 0 = 32 ∧
      ¬MatmulsAgree 1 (logitsOp 2) ℚ (logitsDispatch 2) (size2D .q80 1 32, [0])
        (size2D .f32 1 64, [0]) := by
  have hcreate : createPPxSPxTPTopology 2 1 1 = .ok ⟨2, 1, 1, 2⟩ := by decide
  refine ⟨hcreate, ?_⟩
  obtain ⟨net, config, o, hnet, hconfig, ho, hop, _, _⟩ :=
    exists_logits ⟨2, 1, 1, 2⟩ (logitsOp 2) (by decide +kernel)
  have hblock : ∀ l l', blockProduct (onesWeight l) (onesInput l') = 32 := by
    intro l l'
    simp only [blockProduct, onesWeight, onesInput]
    decide +kernel
  refine ⟨net, config, o, hnet, hconfig, ho, hop, logits_accepted_two, ?_, ?_, ?_⟩
  · rw [Dispatch.groupValue_eq]
    simp only [shaderProduct_eq, hblock, Finset.sum_const, Finset.card_range]
    decide +kernel
  · simp only [matmul_Q80_Q40_F32, hblock, Finset.sum_const, Finset.card_range]
    decide +kernel
  · intro hagree
    have hquantized : Quantized (logitsOp 2) :=
      ⟨by decide, ⟨1, 1, 64, Eq.refl _⟩, Eq.refl _, ⟨1, 1, 64, Eq.refl _⟩,
        ⟨1, 32, 64, Eq.refl _⟩, fun _ => .inl (Eq.refl _)⟩
    have hagreeing := (logits_accepted_two.agree_iff hquantized (by decide)).mp hagree
    exact absurd (hagreeing.wholeRows (Eq.refl _)) (by decide)

end LayerSkip.VulkanMatmulGraph
