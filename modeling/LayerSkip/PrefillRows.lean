import LayerSkip.BatchRows
import LayerSkip.PrefillChunks
import LayerSkip.StageForward

/-!
# A prompt in chunks and token by token

On one node the operations of a forward compute every row from this row and the caches up to its
position, and every cache is written before it is read. So a chunk of a prompt leaves the caches and
the logits that its tokens leave one after the other, and both drivers leave the caches that a
prompt leaves token by token, whatever the options say about batches.
-/

namespace LayerSkip.PrefillRows

open NnTopology NnPipeline NnCore NnCpu LlmGraph Dataflow RegionFlow ForwardReads ForwardTriples
open ForwardFreshness StageExecutor StageSimulation StageHandOver StageForward CpuKernels BatchRows
open LoopInterchange
open DevicePlacement (NnNode)

section Operations

variable {node : NnNode} {layer : ℕ} {op : NnOpConfig}

/-- What an operation of a layer needs to be computed row by row. -/
structure RowShape (node : NnNode) (op : NnOpConfig) : Prop where
  /-- Only a shift stores by position. -/
  shift : (∃ indexPipe localSeqStart localSeqLen,
      op.config = .shift indexPipe localSeqStart localSeqLen) ↔ op.code = .shift
  /-- It stores at the positions. -/
  position : ∀ indexPipe localSeqStart localSeqLen,
    op.config = .shift indexPipe localSeqStart localSeqLen → indexPipe = .pos
  /-- An attention looks at the position, and its heads look at their key heads. -/
  attention : ∀ config, op.config = .multiheadAtt config →
    config.positionPipe = .pos ∧ op.output.type = .batchedSlice ∧ HeadsFit config
  /-- Products with chosen experts have several planes. -/
  matmul : ∀ nExperts nActiveExperts buffer, op.config = .matmul nExperts nActiveExperts buffer →
    nActiveExperts = 0 ∨ (inputSize node op).z ≠ 1

theorem RowShape.rowWise (h : RowShape node op) (hop : OpOf layer op) : RowWise node op := by
  have hcaches {source : NnSource} (hnot : ∀ layer', ¬IsCacheOf layer' source) : ¬IsCache source := by
    rw [isCache_iff]
    intro hcache
    obtain ⟨layer', hof⟩ := hcache
    exact hnot layer' hof
  constructor
  · exact ⟨hop.plain.1, hop.plain.2.1⟩
  · intro nThreads r hr
    exact hcaches (hop.rows node nThreads r hr)
  · exact hcaches hop.input
  · exact hop.positions node
  · intro source hsource
    rw [isCache_iff]
    exact ⟨layer, hop.caches source (List.mem_append_left _ hsource)⟩
  · intro source hsource
    cases hconfig : op.config with
    | shift indexPipe localSeqStart localSeqLen =>
      have hcode := h.shift.mp ⟨_, _, _, hconfig⟩
      simp only [cacheWrites, hconfig] at hsource
      simp only [cacheReads, hconfig]
      exact ⟨hsource, hcode⟩
    | _ => simp [cacheWrites, hconfig] at hsource
  · intro hcode
    obtain ⟨indexPipe, localSeqStart, localSeqLen, hconfig⟩ := h.shift.mpr hcode
    constructor
    · intro nThreads
      simp [opWrites, hcode]
    · rw [h.position _ _ _ hconfig] at hconfig
      exact ⟨localSeqStart, localSeqLen, hconfig⟩
  · intro config _ hconfig
    exact h.attention config hconfig
  · exact h.matmul

/-- Operations that know no position, and no experts. -/
theorem rowShape_of_plain (hshift : op.code ≠ .shift)
    (hconfig : ∀ indexPipe localSeqStart localSeqLen,
      op.config ≠ .shift indexPipe localSeqStart localSeqLen)
    (hatt : ∀ config, op.config ≠ .multiheadAtt config)
    (hmatmul : ∀ nExperts nActiveExperts buffer,
      op.config = .matmul nExperts nActiveExperts buffer → nActiveExperts = 0) : RowShape node op := by
  constructor
  · constructor
    · intro h
      obtain ⟨_, _, _, heq⟩ := h
      exact absurd heq (hconfig _ _ _)
    · exact fun heq => absurd heq hshift
  · exact fun _ _ _ heq => absurd heq (hconfig _ _ _)
  · exact fun _ heq => absurd heq (hatt _)
  · exact fun _ _ _ heq => .inl (hmatmul _ _ _ heq)

variable (node) (b : NnNodeBuilder)

theorem rowShape_mergeAdd (name : String) (index : ℕ) : RowShape node (mergeEntry name index) := by
  apply rowShape_of_plain <;> simp [mergeEntry]

theorem rowShape_norm (preName name : String) (index : ℕ) :
    ∀ op ∈ b.normOps preName name index, RowShape node op := by
  simp only [NnNodeBuilder.normOps, List.forall_mem_cons, List.not_mem_nil, false_implies,
    implies_true, and_true]
  and_intros
  all_goals apply rowShape_of_plain <;> simp

theorem rowShape_castY (name : String) (index : ℕ) :
    ∀ op ∈ b.castYOps name index, RowShape node op := by
  intro op hop
  rw [NnNodeBuilder.castYOps] at hop
  split at hop
  · rw [List.mem_singleton.mp hop]
    apply rowShape_of_plain <;> simp
  · exact absurd hop List.not_mem_nil

theorem rowShape_qkv (index : ℕ) : ∀ op ∈ b.qkvOps index, RowShape node op := by
  simp only [NnNodeBuilder.qkvOps, List.forall_mem_cons, List.not_mem_nil, false_implies,
    implies_true, and_true]
  and_intros
  all_goals apply rowShape_of_plain <;> simp +contextual

theorem rowShape_qkNorm (index : ℕ) : ∀ op ∈ b.qkNormOps index, RowShape node op := by
  by_cases h : b.n.HasQkNorm
  · simp only [NnNodeBuilder.qkNormOps, h, if_true, List.forall_mem_cons, List.not_mem_nil,
      false_implies, implies_true, and_true]
    and_intros
    all_goals apply rowShape_of_plain <;> simp
  · simp [NnNodeBuilder.qkNormOps, h]

theorem rowShape_rope (index : ℕ) : ∀ op ∈ b.ropeOps index, RowShape node op := by
  simp only [NnNodeBuilder.ropeOps, List.forall_mem_cons, List.not_mem_nil, false_implies,
    implies_true, and_true]
  and_intros
  · apply rowShape_of_plain <;> simp
  · apply rowShape_of_plain <;> simp
  · constructor <;> simp +contextual
  · constructor <;> simp +contextual

theorem rowShape_attention (hfits : ∀ index, HeadsFit (b.multiheadAttConfig index)) (index : ℕ) :
    ∀ op ∈ b.attentionOps index, RowShape node op := by
  simp only [NnNodeBuilder.attentionOps, List.forall_mem_cons, List.not_mem_nil, false_implies,
    implies_true, and_true]
  and_intros
  · constructor
    · simp
    · simp
    · intro config hconfig
      injection hconfig with hconfig
      rw [← hconfig]
      exact ⟨Eq.refl _, Eq.refl _, hfits index⟩
    · simp
  all_goals apply rowShape_of_plain <;> simp +contextual

theorem rowShape_dense (index : ℕ) : ∀ op ∈ b.denseOps index, RowShape node op := by
  have hcast := rowShape_castY node b "block_cast_y3" index
  simp only [NnNodeBuilder.denseOps, List.forall_mem_append, List.forall_mem_cons, List.not_mem_nil,
    false_implies, implies_true, and_true]
  and_intros
  · exact hcast
  all_goals first
    | apply rowShape_of_plain <;> simp +contextual
    | (split <;> simp only [List.forall_mem_singleton, List.not_mem_nil, false_implies, implies_true]
       apply rowShape_of_plain <;> simp)

end Operations

section Graph

variable (b : NnNodeBuilder) (nBatches : ℕ)

theorem planes_moeYq : ((builtNode b nBatches false).sourceSize (.buffer b.n.moeYqBuffer)).map
    NnSize3D.z = some (max b.n.header.nActiveExperts 1) := by
  by_cases hq : b.n.Quantized <;>
  simp [nodeOf, NnNode.sourceSize, NnNodeBuilder.buffers, LlmShape.moeYqBuffer, hq, size3D]

theorem planes_moeDq : ((builtNode b nBatches false).sourceSize (.buffer b.n.moeDqBuffer)).map
    NnSize3D.z = some (max b.n.header.nActiveExperts 1) := by
  by_cases hq : b.n.Quantized <;>
  simp [nodeOf, NnNode.sourceSize, NnNodeBuilder.buffers, LlmShape.moeDqBuffer, hq, size3D]

/-- A product with chosen experts is computed row by row when there are several. -/
theorem rowShape_experts {node : NnNode} {source : NnSource} {nActiveExperts : ℕ}
    (hplanes : (node.sourceSize source).map NnSize3D.z = some (max nActiveExperts 1))
    (hactive : nActiveExperts ≠ 1) (name : String) (index nExperts : ℕ) (output : NnPointerConfig)
    (weightSize : NnSize3D) (buffer : NnBuffer) :
    RowShape node ⟨.matmul, name, index, pointerBatchConfig source, output, weightSize,
      .matmul nExperts nActiveExperts buffer⟩ := by
  constructor
  · simp
  · simp
  · simp
  · intro nExperts' nActiveExperts' buffer' hconfig
    injection hconfig with _ hsame _
    rw [← hsame]
    by_cases hnone : nActiveExperts = 0
    · exact .inl hnone
    · right
      obtain ⟨size, hsize, hz⟩ := Option.map_eq_some_iff.mp hplanes
      have hinput : inputSize node ⟨.matmul, name, index, pointerBatchConfig source, output,
          weightSize, .matmul nExperts nActiveExperts buffer⟩ = size := by
        simp [inputSize, pointerSize, pointerBatchConfig, hsize]
      rw [hinput, hz]
      omega

theorem rowShape_moe (hactive : b.n.header.nActiveExperts ≠ 1) (index : ℕ) :
    ∀ op ∈ b.moeOps index, RowShape (builtNode b nBatches false) op := by
  simp only [NnNodeBuilder.moeOps, List.forall_mem_append, List.forall_mem_cons, List.not_mem_nil,
    false_implies, implies_true, and_true]
  and_intros
  all_goals first
    | exact rowShape_experts (planes_moeYq b nBatches) hactive _ _ _ _ _ _
    | exact rowShape_experts (planes_moeDq b nBatches) hactive _ _ _ _ _ _
    | apply rowShape_of_plain <;> simp +contextual
    | (split <;> simp only [List.forall_mem_singleton, List.not_mem_nil, false_implies, implies_true]
       apply rowShape_of_plain <;> simp)

/-- What the layers of a model need to be computed row by row. -/
structure RowModel : Prop where
  /-- Heads look at their key heads. -/
  heads : ∀ layer, HeadsFit (b.multiheadAttConfig layer)
  /-- Experts come in several. -/
  experts : b.n.header.archType = .qwen3Moe → b.n.header.nActiveExperts ≠ 1

variable {b}

theorem rowShape_layerRest (h : RowModel b) (layer : ℕ) :
    ∀ op ∈ layerRest b layer, RowShape (builtNode b nBatches false) op := by
  have hblock : ∀ op ∈ (if b.n.header.archType = .qwen3Moe then b.moeOps layer
      else b.denseOps layer), RowShape (builtNode b nBatches false) op := by
    split
    · rename_i hmoe
      exact rowShape_moe b nBatches (h.experts hmoe) layer
    · exact rowShape_dense _ b layer
  simp only [layerRest, attRest, NnNodeBuilder.ff, List.forall_mem_append, List.forall_mem_cons,
    List.cons_append, List.not_mem_nil, false_implies, implies_true, and_true]
  and_intros
  · exact rowShape_norm _ b _ _ _
  · exact rowShape_castY _ b _ _
  · exact rowShape_qkv _ b _
  · exact rowShape_qkNorm _ b _
  · exact rowShape_rope _ b _
  · exact rowShape_attention _ b h.heads _
  · exact rowShape_mergeAdd _ _ _
  · exact rowShape_norm _ b _ _ _
  · exact hblock
  · apply rowShape_of_plain <;> simp

theorem rowShape_body (h : RowModel b) (first last : ℕ) :
    ∀ op ∈ body b first last, RowShape (builtNode b nBatches false) op := by
  intro op hop
  cases List.mem_append.mp hop with
  | inl hfirst => exact rowShape_layerRest nBatches h first op hfirst
  | inr hlater =>
    obtain ⟨layer, _, hmem⟩ := List.mem_flatMap.mp hlater
    cases List.mem_cons.mp hmem with
    | inl hmerge =>
      rw [hmerge]
      exact rowShape_mergeAdd _ _ _
    | inr hrest => exact rowShape_layerRest nBatches h layer op hrest

theorem rowShape_finalSegment (node : NnNode) (b : NnNodeBuilder) :
    ∀ op ∈ (b.finalSegment false).ops, RowShape node op := by
  simp only [NnNodeBuilder.finalSegment, NnNodeBuilder.logitsOps, List.forall_mem_append,
    List.forall_mem_cons,
    List.cons_append, List.not_mem_nil, false_implies, implies_true, and_true, Bool.false_eq_true,
    if_false]
  and_intros
  · exact rowShape_mergeAdd node _ _
  · exact rowShape_norm node b _ _ _
  · exact rowShape_castY node b _ _
  · apply rowShape_of_plain <;> simp +contextual

theorem rowWise_embedding (node : NnNode) (n : LlmShape) : RowWise node (embedding n) := by
  constructor <;>
  simp [embedding, opReads, opWrites, configReads, pointerRegion, pointerBatchConfig, cacheReads,
    cacheWrites, whole, IsCache]

theorem rowWise_castEntry (node : NnNode) (layer : ℕ) : RowWise node (castEntry layer) := by
  constructor <;>
  simp [castEntry, opReads, opWrites, configReads, pointerRegion, pointerBatchConfig, cacheReads,
    cacheWrites, whole, IsCache]

/-- The operations of a forward of one node, by what they start with. -/
def nodeOps (b : NnNodeBuilder) : List NnOpConfig :=
  embedding b.n :: castEntry b.layerStart :: body b b.layerStart b.layerEnd ++
    (b.finalSegment false).ops

/-- One node with all layers. -/
structure Alone (b : NnNodeBuilder) : Prop where
  /-- It is the root. -/
  root : IsRoot b
  /-- There is one stage. -/
  stages : b.topology.ppSize = 1
  /-- It has layers. -/
  layers : b.layerStart < b.layerEnd

theorem Alone.ops_eq (h : Alone b) :
    (b.segments false).flatMap NnSegmentConfig.ops = nodeOps b := by
  obtain ⟨hstage, _⟩ := h.root
  have hfew : ¬b.nodePlacement.ppRank < b.topology.ppSize - 1 := by
    rw [hstage, h.stages]
    exact Nat.lt_irrefl 0
  have hlast : b.nodePlacement.ppRank = b.topology.ppSize - 1 := by
    rw [hstage, h.stages]
  rw [StageHandOver.ops_eq h.layers, start_ops_root h.root, if_neg hfew, if_pos hlast]
  exact Eq.refl _

theorem rowWise_nodeOps (h : RowModel b) (hlt : b.layerStart < b.layerEnd) :
    ∀ op ∈ nodeOps b, RowWise (builtNode b nBatches false) op := by
  intro op hop
  rw [nodeOps, List.cons_append, List.cons_append] at hop
  cases List.mem_cons.mp hop with
  | inl hembedding =>
    rw [hembedding]
    exact rowWise_embedding _ _
  | inr hrest =>
    cases List.mem_cons.mp hrest with
    | inl hentry =>
      rw [hentry]
      exact rowWise_castEntry _ _
    | inr hlater =>
      cases List.mem_append.mp hlater with
      | inl hbody =>
        obtain ⟨layer, _, hof⟩ := opsOf_body hlt op hbody
        exact (rowShape_body nBatches h _ _ op hbody).rowWise hof
      | inr hfinal =>
        exact (rowShape_finalSegment _ b op hfinal).rowWise (opOf_finalSegment b 0 op hfinal)

end Graph

section Caches

variable {ops more : List NnOpConfig} (b : NnNodeBuilder)

/-- An operation without caches. -/
def Uncached (op : NnOpConfig) : Prop := cacheReads op = [] ∧ cacheWrites op = []

theorem settled_append (hops : CachesSettled ops) (hmore : CachesSettled more)
    (hapart : ∀ op ∈ ops, ∀ op' ∈ more, ∀ source ∈ cacheWrites op', source ∉ cacheReads op) :
    CachesSettled (ops ++ more) :=
  List.pairwise_append.mpr ⟨hops, hmore, hapart⟩

theorem settled_uncached (hops : ∀ op ∈ ops, Uncached op) : CachesSettled ops := by
  apply List.pairwise_of_forall_mem_list
  intro op hop op' _ source _ hread
  rw [(hops op hop).1] at hread
  exact absurd hread List.not_mem_nil

theorem settled_uncached_append (hops : ∀ op ∈ ops, Uncached op) (hmore : CachesSettled more) :
    CachesSettled (ops ++ more) := by
  refine settled_append (settled_uncached hops) hmore ?_
  intro op hop op' _ source _ hread
  rw [(hops op hop).1] at hread
  exact absurd hread List.not_mem_nil

theorem settled_append_uncached (hops : CachesSettled ops) (hmore : ∀ op ∈ more, Uncached op) :
    CachesSettled (ops ++ more) := by
  refine settled_append hops (settled_uncached hmore) ?_
  intro op _ op' hop' source hwritten
  rw [(hmore op' hop').2] at hwritten
  exact absurd hwritten List.not_mem_nil

attribute [local simp] Uncached cacheReads cacheWrites

theorem uncached_norm (preName name : String) (index : ℕ) :
    ∀ op ∈ b.normOps preName name index, Uncached op := by
  simp [NnNodeBuilder.normOps]

theorem uncached_castY (name : String) (index : ℕ) : ∀ op ∈ b.castYOps name index, Uncached op := by
  by_cases h : b.n.Quantized <;> simp [NnNodeBuilder.castYOps, h]

theorem uncached_before (layer : ℕ) : ∀ op ∈ b.normOps "block_norm_pre_0" "block_norm_0" layer ++
    b.castYOps "block_cast_y" layer ++ b.qkvOps layer ++ b.qkNormOps layer, Uncached op := by
  have hqkv : ∀ op ∈ b.qkvOps layer, Uncached op := by
    simp [NnNodeBuilder.qkvOps]
  have hqkNorm : ∀ op ∈ b.qkNormOps layer, Uncached op := by
    by_cases h : b.n.HasQkNorm <;> simp [NnNodeBuilder.qkNormOps, h]
  simp only [List.forall_mem_append]
  exact ⟨⟨⟨uncached_norm b _ _ _, uncached_castY b _ _⟩, hqkv⟩, hqkNorm⟩

theorem uncached_ff (layer : ℕ) : ∀ op ∈ (b.ff layer).ops, Uncached op := by
  have hdense : ∀ op ∈ b.denseOps layer, Uncached op := by
    have hcast := uncached_castY b "block_cast_y3" layer
    by_cases h : b.n.Quantized <;>
    simpa [NnNodeBuilder.denseOps, h, or_imp, forall_and] using hcast
  have hmoe : ∀ op ∈ b.moeOps layer, Uncached op := by
    by_cases h : b.n.Quantized <;> simp [NnNodeBuilder.moeOps, h]
  have hblock : ∀ op ∈ (if b.n.header.archType = .qwen3Moe then b.moeOps layer
      else b.denseOps layer), Uncached op := by
    split
    · exact hmoe
    · exact hdense
  simp only [NnNodeBuilder.ff, List.forall_mem_append, List.forall_mem_cons, List.cons_append,
    List.not_mem_nil, false_implies, implies_true, and_true]
  and_intros
  · exact Eq.refl _
  · exact Eq.refl _
  · exact uncached_norm b _ _ _
  · exact hblock
  · exact Eq.refl _
  · exact Eq.refl _

theorem uncached_finalSegment : ∀ op ∈ (b.finalSegment false).ops, Uncached op := by
  simp only [NnNodeBuilder.finalSegment, NnNodeBuilder.logitsOps, List.forall_mem_append,
    List.forall_mem_cons,
    List.cons_append, List.not_mem_nil, false_implies, implies_true, and_true, Bool.false_eq_true,
    if_false]
  and_intros
  · exact Eq.refl _
  · exact Eq.refl _
  · exact uncached_norm b _ _ _
  · exact uncached_castY b _ _
  · exact Eq.refl _
  · exact Eq.refl _

/-- The rows of a layer go into its caches before its attention reads them. -/
theorem settled_rope (layer : ℕ) : CachesSettled (b.ropeOps layer ++ b.attentionOps layer) := by
  simp [CachesSettled, NnNodeBuilder.ropeOps, NnNodeBuilder.attentionOps,
    NnNodeBuilder.multiheadAttConfig, pointerRawConfig]

theorem settled_layerRest (layer : ℕ) : CachesSettled (layerRest b layer) := by
  rw [layerRest, attRest_eq]
  exact settled_append_uncached
    (settled_uncached_append (uncached_before b layer) (settled_rope b layer)) (uncached_ff b layer)

theorem isCacheOf_unique {layer layer' : ℕ} {source : NnSource} (h : IsCacheOf layer source)
    (h' : IsCacheOf layer' source) : layer = layer' := by
  rcases h with hk | hv
  · rw [hk] at h'
    simpa [IsCacheOf] using h'
  · rw [hv] at h'
    simpa [IsCacheOf] using h'

/-- Operations of different layers share no cache. -/
theorem settled_layers {layers layers' : Set ℕ} (hops : CachesSettled ops)
    (hmore : CachesSettled more) (hof : OpsOf layers ops) (hof' : OpsOf layers' more)
    (hdisjoint : ∀ layer ∈ layers, layer ∉ layers') : CachesSettled (ops ++ more) := by
  refine settled_append hops hmore ?_
  intro op hop op' hop' source hwritten hread
  obtain ⟨layer, hlayer, hown⟩ := hof op hop
  obtain ⟨layer', hlayer', hown'⟩ := hof' op' hop'
  have hsame := isCacheOf_unique (hown.caches source (List.mem_append_left _ hread))
    (hown'.caches source (List.mem_append_right _ hwritten))
  rw [hsame] at hlayer
  exact hdisjoint layer' hlayer hlayer'

theorem settled_laterLayers (first count : ℕ) : CachesSettled (laterLayers b first count) := by
  induction count generalizing first with
  | zero => exact List.Pairwise.nil
  | succ count ih =>
    have hmerge : ∀ op ∈ [mergeEntry "block_merge_add" first], Uncached op := by
      simp [mergeEntry]
    have hfirst : CachesSettled (mergeEntry "block_merge_add" first :: layerRest b first) :=
      settled_uncached_append hmerge (settled_layerRest b first)
    have hof : OpsOf {first} (mergeEntry "block_merge_add" first :: layerRest b first) := by
      intro op hop
      refine ⟨first, Set.mem_singleton first, ?_⟩
      cases List.mem_cons.mp hop with
      | inl hmerge =>
        rw [hmerge]
        exact opOf_mergeAdd first _ _
      | inr hrest => exact opsOf_layerRest first op hrest
    rw [laterLayers_succ]
    refine settled_layers hfirst (ih (first + 1)) hof (opsOf_laterLayers (first + 1) count) ?_
    intro layer hlayer hlater
    have hle : first + 1 ≤ layer := hlater.1
    rw [Set.mem_singleton_iff.mp hlayer] at hle
    exact absurd hle (Nat.not_succ_le_self first)

theorem settled_body (first last : ℕ) : CachesSettled (body b first last) := by
  have hof : OpsOf {first} (layerRest b first) := fun op hop =>
    ⟨first, Set.mem_singleton first, opsOf_layerRest first op hop⟩
  refine settled_layers (settled_layerRest b first) (settled_laterLayers b _ _) hof
    (opsOf_laterLayers _ _) ?_
  intro layer hlayer hlater
  have hle : first + 1 ≤ layer := hlater.1
  rw [Set.mem_singleton_iff.mp hlayer] at hle
  exact absurd hle (Nat.not_succ_le_self first)

theorem settled_nodeOps : CachesSettled (nodeOps b) := by
  have hentry : ∀ op ∈ [embedding b.n, castEntry b.layerStart], Uncached op := by
    simp [embedding, castEntry]
  have hsplit : nodeOps b = [embedding b.n, castEntry b.layerStart] ++
      (body b b.layerStart b.layerEnd ++ (b.finalSegment false).ops) := Eq.refl _
  rw [hsplit]
  exact settled_uncached_append hentry
    (settled_append_uncached (settled_body b _ _) (uncached_finalSegment b))

end Caches

section Feeding

variable {R : Type} [Field R] [LinearOrder R] [IsStrictOrderedRing R] [FloorRing R]

/-- A node whose operations run on the processor. -/
def cpuNode (cpu : Cpu R) (node : NnNode) (nThreads : ℕ) : StageNode R where
  node := node
  nThreads := nThreads
  nNodes := 1
  kernels := cpuKernels cpu node
  ofUint word := (word.toNat : R)

/-- The memory when the positions and the tokens of the rows are set. -/
def piped (rows : List (ℕ × ℤ)) (m : Memory R) : Memory R :=
  writePipe .tok 1 (rows.map fun row => (row.2 : R))
    (writePipe .pos 1 (rows.map fun row => (row.1 : R)) m)

/-- A forward of some rows, each with its position and its token. -/
def feed (s : StageNode R) (rows : List (ℕ × ℤ)) (m : Memory R) : Memory R :=
  s.forward rows.length (piped rows m)

/-- Forwards of chunks. -/
def feedAll (s : StageNode R) (chunks : List (List (ℕ × ℤ))) (m : Memory R) : Memory R :=
  chunks.foldl (fun m rows => feed s rows m) m

/-- The rows of logits of all forwards, one after the other. -/
def fedLogits (s : StageNode R) : List (List (ℕ × ℤ)) → Memory R → List R
  | [], _ => []
  | rows :: chunks, m =>
    readPipe .lg s.node.header.vocabSize (s.node.header.vocabSize * rows.length) (feed s rows m) ++
      fedLogits s chunks (feed s rows m)

/-- One forward a row. -/
def oneByOne (rows : List (ℕ × ℤ)) : List (List (ℕ × ℤ)) := rows.map fun row => [row]

variable (s : StageNode R) {rows : List (ℕ × ℤ)}

section

omit [LinearOrder R] [IsStrictOrderedRing R] [FloorRing R]

theorem feedAll_append (chunks more : List (List (ℕ × ℤ))) (m : Memory R) :
    feedAll s (chunks ++ more) m = feedAll s more (feedAll s chunks m) := List.foldl_append

theorem fedLogits_append (chunks more : List (List (ℕ × ℤ))) (m : Memory R) :
    fedLogits s (chunks ++ more) m =
      fedLogits s chunks m ++ fedLogits s more (feedAll s chunks m) := by
  induction chunks generalizing m with
  | nil => exact Eq.refl _
  | cons rows chunks ih =>
    rw [List.cons_append, fedLogits, fedLogits, ih, List.append_assoc]
    exact Eq.refl _

theorem piped_cache (rows : List (ℕ × ℤ)) (m : Memory R) {c : Cell} (hc : IsCache c.source) :
    piped rows m c = m c := by
  have hne (pipe : NnPipe) : c.source ≠ .pipe pipe := by
    intro heq
    rw [heq] at hc
    exact hc
  rw [piped, writePipe_of_ne (hne _), writePipe_of_ne (hne _)]

theorem piped_pos (m : Memory R) {y : ℕ} (hy : y < rows.length) :
    piped rows m ⟨.pipe .pos, 0, y, 0⟩ = (rows[y].1 : R) := by
  rw [piped, writePipe_of_ne (by simp)]
  simp [writePipe, hy]

theorem piped_tok (m : Memory R) {y : ℕ} (hy : y < rows.length) :
    piped rows m ⟨.pipe .tok, 0, y, 0⟩ = (rows[y].2 : R) := by
  simp [piped, writePipe, hy]

end

/-- The position of a row. -/
def rowPosition (rows : List (ℕ × ℤ)) (y : ℕ) : ℕ := (rows.getD y (0, 0)).1

theorem piped_positions (rows : List (ℕ × ℤ)) (m : Memory R) :
    HasPositions (rowPosition rows) rows.length (piped rows m) := by
  intro y hy
  rw [piped_pos m hy, Nat.floor_natCast, rowPosition, List.getD_eq_getElem?_getD,
    List.getElem?_eq_getElem hy, Option.getD_some]

theorem rowPosition_grows (hrows : (rows.map Prod.fst).Pairwise (· < ·)) (y y' : ℕ) (hy : y < y')
    (hy' : y' < rows.length) : rowPosition rows y < rowPosition rows y' := by
  have hlt : y < rows.length := hy.trans hy'
  have hgrows := List.pairwise_iff_getElem.mp hrows y y' (by simpa using hlt) (by simpa using hy') hy
  simpa [rowPosition, List.getD_eq_getElem?_getD, hlt, hy'] using hgrows

end Feeding

section Chunks

variable {R : Type} [Field R] [LinearOrder R] [IsStrictOrderedRing R] [FloorRing R] {cpu : Cpu R}
  {b : NnNodeBuilder} {nBatches nThreads : ℕ} {rows : List (ℕ × ℤ)}

/-- The triple of a forward of one node. -/
theorem triple_nodeOps (node : NnNode) (c : RootBroadcast.Cluster) (hs : Sized node b) :
    Triple [whole (.pipe .tok), whole (.pipe .pos)] (opUses node c (nodeOps b))
      [whole (.pipe .lg)] := by
  have hembedding : Triple [whole (.pipe .tok), whole (.pipe .pos)]
      (opUses node c [embedding b.n]) [whole (.pipe .x)] := by
    rw [triple_iff]
    simp [opUses, stepUse, embedding, opReads, opWrites, configReads, pointerRegion,
      pointerBatchConfig, Checks, RegionFlow.after, whole]
  have hentry : Triple [whole (.pipe .x)] (opUses node c [castEntry b.layerStart])
      [whole (.buffer .x)] := by
    rw [triple_iff]
    simp [opUses, stepUse, castEntry, opReads, opWrites, configReads, pointerRegion,
      pointerBatchConfig, Checks, RegionFlow.after, whole]
  have hstart := hembedding.seq hentry (by simp)
  have hbody := hstart.seq (triple_body node c b hs b.layerStart b.layerEnd) (by simp)
  have hlogits := hbody.seq (triple_logitsRows node c b) (by simp [handOver])
  simp only [← opUses_append] at hlogits
  exact hlogits.weaken (fun _ h => h) (by simp)

omit [IsStrictOrderedRing R] in
theorem feed_eq (h : Alone b) (rows : List (ℕ × ℤ)) (m : Memory R) :
    feed (cpuNode cpu (builtNode b nBatches false) nThreads) rows m =
      runOps (builtNode b nBatches false) nThreads (cpuKernels cpu (builtNode b nBatches false))
        rows.length (nodeOps b) (piped rows m) := by
  rw [feed, StageNode.forward, forward_eq, ← h.ops_eq]
  exact Eq.refl _

omit [IsStrictOrderedRing R] in
/-- A forward of one row depends on its position, its token and the caches. -/
theorem feed_single (h : Alone b) (hmodel : RowModel b) (hs : Sized (builtNode b nBatches false) b)
    (hthreads : 0 < nThreads) {m m' : Memory R}
    (hpos : m ⟨.pipe .pos, 0, 0, 0⟩ = m' ⟨.pipe .pos, 0, 0, 0⟩)
    (htok : m ⟨.pipe .tok, 0, 0, 0⟩ = m' ⟨.pipe .tok, 0, 0, 0⟩)
    (hcaches : ∀ c : Cell, IsCache c.source → m c = m' c) :
    (∀ c : Cell, IsCache c.source →
      runOps (builtNode b nBatches false) nThreads (cpuKernels cpu (builtNode b nBatches false)) 1
          (nodeOps b) m c =
        runOps (builtNode b nBatches false) nThreads (cpuKernels cpu (builtNode b nBatches false)) 1
          (nodeOps b) m' c) ∧
      ∀ x < b.n.header.vocabSize,
        runOps (builtNode b nBatches false) nThreads (cpuKernels cpu (builtNode b nBatches false)) 1
            (nodeOps b) m ⟨.pipe .lg, 0, 0, x⟩ =
          runOps (builtNode b nBatches false) nThreads (cpuKernels cpu (builtNode b nBatches false))
            1 (nodeOps b) m' ⟨.pipe .lg, 0, 0, x⟩ := by
  have htriple := triple_nodeOps (builtNode b nBatches false) (solo nThreads 1 hthreads Nat.one_pos) hs
  have hreads : ∀ op ∈ nodeOps b, ∀ c : Cell, c.source ∈ cacheReads op →
      c ∈ {c : Cell | IsCache c.source} := fun op hop _ hc =>
    (rowWise_nodeOps nBatches hmodel h.layers op hop).reads _ hc
  have hagree : Set.EqOn m m' (cellsOf (cells (builtNode b nBatches false) 1)
      [whole (.pipe .tok), whole (.pipe .pos)] ∪ {c : Cell | IsCache c.source}) := by
    have hcell {c : Cell} {pipe : NnPipe} (hsource : c.source = .pipe pipe)
        (hone : ((builtNode b nBatches false).pipeSize pipe).z = 1 ∧
          ((builtNode b nBatches false).pipeSize pipe).x = 1)
        (hsize : ∃ size ∈ (builtNode b nBatches false).sourceSize c.source,
          c.z < size.z ∧ c.x < size.x) (hy : c.y < 1) : c = ⟨.pipe pipe, 0, 0, 0⟩ := by
      obtain ⟨size, hsome, hz, hx⟩ := hsize
      rw [hsource] at hsome
      cases hsome
      rw [hone.1, Nat.lt_one_iff] at hz
      rw [hone.2, Nat.lt_one_iff] at hx
      calc c = ⟨c.source, c.z, c.y, c.x⟩ := Eq.refl _
        _ = ⟨.pipe pipe, 0, 0, 0⟩ := by rw [hsource, hz, hx, Nat.lt_one_iff.mp hy]
    intro c hc
    cases hc with
    | inl hrow =>
      obtain ⟨r, hr, hsource, hsize, hy, _⟩ := hrow
      simp only [List.mem_cons, List.not_mem_nil, or_false] at hr
      cases hr with
      | inl hr =>
        rw [hr] at hsource
        rw [hcell hsource ⟨Eq.refl _, Eq.refl _⟩ hsize hy]
        exact htok
      | inr hr =>
        rw [hr] at hsource
        rw [hcell hsource ⟨Eq.refl _, Eq.refl _⟩ hsize hy]
        exact hpos
    | inr hcache => exact hcaches c hcache
  have hrun := eqOn_runOps (cpuKernels cpu (builtNode b nBatches false)) _ htriple hreads hagree
  constructor
  · intro c hc
    exact hrun (.inr hc)
  · intro x hx
    apply hrun
    exact .inl ⟨whole (.pipe .lg), List.mem_append_right _ (List.mem_singleton_self _), Eq.refl _,
      ⟨_, Eq.refl _, Nat.one_pos, hx⟩, Nat.one_pos, trivial, trivial⟩

omit [Field R] [LinearOrder R] [IsStrictOrderedRing R] [FloorRing R] in
/-- Logits by row. -/
theorem readPipe_rows (pipe : NnPipe) (width rows : ℕ) (m : Memory R) :
    readPipe pipe width (width * rows) m =
      (List.range rows).flatMap fun y => (List.range width).map fun x => m ⟨.pipe pipe, 0, y, x⟩ := by
  rw [readPipe, Nat.mul_comm, ← EqualPieces.flatMap_range_map]
  apply List.flatMap_congr
  intro y _
  apply List.map_congr_left
  intro x hx
  have hlt := List.mem_range.mp hx
  have hwidth : 0 < width := Nat.zero_lt_of_lt hlt
  rw [pipeCell, Nat.mul_comm y width, Nat.mul_add_div hwidth, Nat.div_eq_of_lt hlt, Nat.add_zero,
    Nat.mul_add_mod, Nat.mod_eq_of_lt hlt]

/-- The rows of a chunk so far have done what their forwards do one after the other. -/
structure SoFar (s : StageNode R) (rows : List (ℕ × ℤ)) (m' start : Memory R) (count : ℕ)
    (m : Memory R) : Prop where
  /-- The caches. -/
  caches : ∀ c : Cell, IsCache c.source → m c = feedAll s (oneByOne (rows.take count)) m' c
  /-- Later rows. -/
  later : ∀ c : Cell, ¬IsCache c.source → count ≤ c.y → m c = start c
  /-- The logits. -/
  logits : ((List.range count).flatMap fun y => (List.range s.node.header.vocabSize).map fun x =>
    m ⟨.pipe .lg, 0, y, x⟩) = fedLogits s (oneByOne (rows.take count)) m'

omit [IsStrictOrderedRing R] in
theorem SoFar.step (h : Alone b) (hmodel : RowModel b) (hs : Sized (builtNode b nBatches false) b)
    (hthreads : 0 < nThreads) {m m' n : Memory R} {count : ℕ} (hcount : count < rows.length)
    (hsofar : SoFar (cpuNode cpu (builtNode b nBatches false) nThreads) rows m' (piped rows n)
      count m) :
    SoFar (cpuNode cpu (builtNode b nBatches false) nThreads) rows m' (piped rows n) (count + 1)
      (onRow (rowTask cpu (builtNode b nBatches false) nThreads) (nodeOps b) count m) := by
  have hlater (pipe : NnPipe) : atRow count m ⟨.pipe pipe, 0, 0, 0⟩ =
      piped rows n ⟨.pipe pipe, 0, count, 0⟩ := by
    have hrow : ¬IsCache (.pipe pipe) := id
    rw [atRow_row count m hrow, Nat.zero_add]
    exact hsofar.later _ hrow (le_refl _)
  have hone : 0 < [rows[count]].length := Nat.one_pos
  have hpos : atRow count m ⟨.pipe .pos, 0, 0, 0⟩ = piped [rows[count]]
      (feedAll (cpuNode cpu (builtNode b nBatches false) nThreads) (oneByOne (rows.take count)) m')
      ⟨.pipe .pos, 0, 0, 0⟩ := by
    rw [hlater, piped_pos n hcount, piped_pos _ hone]
    exact Eq.refl _
  have htok : atRow count m ⟨.pipe .tok, 0, 0, 0⟩ = piped [rows[count]]
      (feedAll (cpuNode cpu (builtNode b nBatches false) nThreads) (oneByOne (rows.take count)) m')
      ⟨.pipe .tok, 0, 0, 0⟩ := by
    rw [hlater, piped_tok n hcount, piped_tok _ hone]
    exact Eq.refl _
  have hsame : ∀ c : Cell, IsCache c.source → atRow count m c = piped [rows[count]]
      (feedAll (cpuNode cpu (builtNode b nBatches false) nThreads) (oneByOne (rows.take count)) m')
      c := by
    intro c hc
    rw [atRow_cache count m hc, piped_cache _ _ hc]
    exact hsofar.caches c hc
  obtain ⟨hcaches, hlogits⟩ := @feed_single R _ _ _ cpu b nBatches nThreads h hmodel hs hthreads
    _ _ hpos htok hsame
  have hops := rowWise_nodeOps nBatches hmodel h.layers
  have hrow := @atRow_onRow R _ _ _ cpu _ nThreads _ hops count m
  have hfeed := @feed_eq R _ _ _ cpu b nBatches nThreads h [rows[count]]
    (feedAll (cpuNode cpu (builtNode b nBatches false) nThreads) (oneByOne (rows.take count)) m')
  have htake : oneByOne (rows.take (count + 1)) = oneByOne (rows.take count) ++ [[rows[count]]] := by
    rw [oneByOne, List.take_succ_eq_append_getElem hcount, List.map_append]
    exact Eq.refl _
  constructor
  · intro c hc
    have hcell := hcaches c hc
    rw [← hrow, atRow_cache count _ hc] at hcell
    rw [htake, feedAll_append, hcell]
    exact (congrFun hfeed c).symm
  · intro c hc hle
    rw [onRow_other (nodeOps b) m hc (by omega)]
    exact hsofar.later c hc (by omega)
  · have hlast : fedLogits (cpuNode cpu (builtNode b nBatches false) nThreads) [[rows[count]]]
        (feedAll (cpuNode cpu (builtNode b nBatches false) nThreads)
          (oneByOne (rows.take count)) m') =
        (List.range b.n.header.vocabSize).map fun x =>
          onRow (rowTask cpu (builtNode b nBatches false) nThreads) (nodeOps b) count m
            ⟨.pipe .lg, 0, count, x⟩ := by
      rw [fedLogits, fedLogits, List.append_nil, readPipe_rows, hfeed, List.length_singleton,
        List.range_one, List.flatMap_singleton]
      apply List.map_congr_left
      intro x hx
      rw [← hlogits x (List.mem_range.mp hx), ← hrow, atRow_row count _ (c := ⟨.pipe .lg, 0, 0, x⟩) id]
      simp only [Nat.zero_add]
    rw [htake, fedLogits_append, hlast, List.range_succ, List.flatMap_append,
      List.flatMap_singleton, ← hsofar.logits]
    congr 1
    apply List.flatMap_congr
    intro y hy
    apply List.map_congr_left
    intro x _
    exact onRow_other (nodeOps b) m (c := ⟨.pipe .lg, 0, y, x⟩) id (by
      have hlt := List.mem_range.mp hy
      exact Nat.ne_of_lt hlt)

/-- A chunk does what its rows do one after the other. -/
theorem feed_rows (h : Alone b) (hmodel : RowModel b) (hs : Sized (builtNode b nBatches false) b)
    (hthreads : 0 < nThreads) (hrows : (rows.map Prod.fst).Pairwise (· < ·)) {m m' : Memory R}
    (hcaches : ∀ c : Cell, IsCache c.source → m c = m' c) :
    SoFar (cpuNode cpu (builtNode b nBatches false) nThreads) rows m' (piped rows m) rows.length
      (feed (cpuNode cpu (builtNode b nBatches false) nThreads) rows m) := by
  have hprefix : ∀ count ≤ rows.length,
      SoFar (cpuNode cpu (builtNode b nBatches false) nThreads) rows m' (piped rows m) count
        (byRow (rowTask cpu (builtNode b nBatches false) nThreads) (List.range count) (nodeOps b)
          (piped rows m)) := by
    intro count
    induction count with
    | zero =>
      intro _
      constructor
      · intro c hc
        exact (piped_cache rows m hc).trans (hcaches c hc)
      · exact fun _ _ _ => Eq.refl _
      · exact Eq.refl _
    | succ count ih =>
      intro hcount
      have hnext := (ih (Nat.le_of_succ_le hcount)).step h hmodel hs hthreads hcount
      rw [byRow, List.range_succ, List.foldl_append]
      exact hnext
  have hbatch := @runOps_eq_byRow R _ _ _ cpu _ nThreads _ _ _ _
    (rowWise_nodeOps nBatches hmodel h.layers) (settled_nodeOps b) (rowPosition_grows hrows)
    _ (piped_positions rows m)
  rw [feed_eq h, hbatch]
  exact hprefix rows.length (le_refl _)

end Chunks

end LayerSkip.PrefillRows
