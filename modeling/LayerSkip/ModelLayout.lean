import LayerSkip.ModelFileHeader
import LayerSkip.WeightOwnership
import Mathlib.Data.List.Forall2

/-!
# The layout of the tensors of a model file

The order of tensors is stated once: their names in a checkpoint, their format and extents, and the
operations they are for. The converter's plan and the loader's walk are both compared with it. They
differ in one size: the converter takes the feed-forward block of a checkpoint without experts as it
is, the loader goes by the architecture.
-/

namespace LayerSkip.ModelLayout

open NnTopology NnPipeline NnCore LlmGraph KeyValueHeader ModelFile WeightLoader

/-- A tensor of the layout. -/
structure Entry where
  /-- Names in a checkpoint, the first one that is there counts. -/
  names : List String
  /-- Format in the file. -/
  floatType : NnFloatType
  /-- Transformation, if any. -/
  transform : Option Transform
  /-- Extents, for a size of the feed-forward block. -/
  shape : ℕ → List ℕ
  /-- Name of the operation. -/
  opName : String
  /-- Index of the operation. -/
  opIndex : ℕ
  /-- Expert. -/
  expertIndex : ℕ

/-- Number of values, for a size of the feed-forward block. -/
def Entry.numel (e : Entry) (hidden : ℕ) : ℕ := (e.shape hidden).prod

/-- The entry of the plan. -/
def Entry.item (e : Entry) : PlanItem := ⟨e.floatType, e.transform, e.names⟩

section Layout

variable (c : Config)

/-- Weights of one feed-forward block with the names of its gate and of the ways down and up. -/
def blockEntries (layer expert : ℕ) (gate down up : String) : List Entry :=
  [⟨[gate], c.weightsFloatType, none, fun hidden => [hidden, c.dim], "block_matmul_w1", layer,
      expert⟩,
    ⟨[down], c.weightsFloatType, none, fun hidden => [c.dim, hidden], "block_matmul_w2", layer,
      expert⟩,
    ⟨[up], c.weightsFloatType, none, fun hidden => [hidden, c.dim], "block_matmul_w3", layer,
      expert⟩]

/-- Weights of the attention of a layer. -/
def attentionEntries (layer : ℕ) : List Entry :=
  [⟨[s!"model.layers.{layer}.self_attn.q_proj.weight"], c.weightsFloatType, some .q,
      fun _ => [c.headSize * c.nHeads, c.dim], "block_matmul_q", layer, 0⟩,
    ⟨[s!"model.layers.{layer}.self_attn.k_proj.weight"], c.weightsFloatType, some .k,
      fun _ => [c.headSize * c.nKvHeads, c.dim], "block_matmul_k", layer, 0⟩,
    ⟨[s!"model.layers.{layer}.self_attn.v_proj.weight"], c.weightsFloatType, none,
      fun _ => [c.headSize * c.nKvHeads, c.dim], "block_matmul_v", layer, 0⟩,
    ⟨[s!"model.layers.{layer}.self_attn.o_proj.weight"], c.weightsFloatType, none,
      fun _ => [c.dim, c.headSize * c.nHeads], "block_matmul_wo", layer, 0⟩]

/-- Weights of the feed-forward blocks of a layer. -/
def mlpEntries (layer : ℕ) : List Entry :=
  if 0 < c.nExperts then
    ⟨[s!"model.layers.{layer}.mlp.gate.weight"], .f32, none, fun _ => [c.nExperts, c.dim],
      "block_moe_gate", layer, 0⟩ ::
      (List.range c.nExperts).flatMap fun expert => blockEntries c layer expert
        s!"model.layers.{layer}.mlp.experts.{expert}.gate_proj.weight"
        s!"model.layers.{layer}.mlp.experts.{expert}.down_proj.weight"
        s!"model.layers.{layer}.mlp.experts.{expert}.up_proj.weight"
  else
    blockEntries c layer 0 s!"model.layers.{layer}.mlp.gate_proj.weight"
      s!"model.layers.{layer}.mlp.down_proj.weight" s!"model.layers.{layer}.mlp.up_proj.weight"

/-- Norms of a layer. -/
def normEntries (layer : ℕ) : List Entry :=
  (if c.archType = .qwen3 ∨ c.archType = .qwen3Moe then
    [⟨[s!"model.layers.{layer}.self_attn.q_norm.weight"], .f32, none, fun _ => [c.headSize],
        "block_norm_q", layer, 0⟩,
      ⟨[s!"model.layers.{layer}.self_attn.k_norm.weight"], .f32, none, fun _ => [c.headSize],
        "block_norm_k", layer, 0⟩]
  else []) ++
  [⟨[s!"model.layers.{layer}.input_layernorm.weight"], .f32, none, fun _ => [c.dim],
      "block_norm_0", layer, 0⟩,
    ⟨[s!"model.layers.{layer}.post_attention_layernorm.weight"], .f32, none, fun _ => [c.dim],
      "block_norm_1", layer, 0⟩]

/-- Tensors of a layer. -/
def layerEntries (layer : ℕ) : List Entry :=
  attentionEntries c layer ++ mlpEntries c layer ++ normEntries c layer

/-- Tensors before the last one. -/
def bodyLayout : List Entry :=
  [⟨["model.embed_tokens.weight"], .f32, none, fun _ => [c.vocabSize, c.dim], "embedding", 0, 0⟩] ++
    (List.range c.nLayers).flatMap (layerEntries c) ++
    [⟨["model.norm.weight"], .f32, none, fun _ => [c.dim], "final_norm", 0, 0⟩]

/-- The tensor of the logits. -/
def logitsEntry : Entry :=
  ⟨["lm_head.weight", "model.embed_tokens.weight"], c.weightsFloatType, none,
    fun _ => [c.vocabSize, c.dim], "final_matmul_logits", 0, 0⟩

/-- All tensors. -/
def layout : List Entry := bodyLayout c ++ [logitsEntry c]

/-- The size of a feed-forward block that the loader takes from the architecture. -/
def ffSize : ℕ := if c.archType = .qwen3Moe then c.moeHiddenDim.getD 0 else c.hiddenDim

/-- The size of a feed-forward block in the checkpoint: that of an expert, or of the only one. -/
def mlpSize : ℕ := if 0 < c.nExperts then ffSize c else c.hiddenDim

end Layout

section Plan

variable {c : Config}

theorem planMlp_eq (layer : ℕ) :
    (if 0 < c.nExperts then planExperts c.weightsFloatType layer c.nExperts
      else
        [⟨c.weightsFloatType, none, [s!"model.layers.{layer}.mlp.gate_proj.weight"]⟩,
          ⟨c.weightsFloatType, none, [s!"model.layers.{layer}.mlp.down_proj.weight"]⟩,
          ⟨c.weightsFloatType, none, [s!"model.layers.{layer}.mlp.up_proj.weight"]⟩]) =
      (mlpEntries c layer).map Entry.item := by
  rw [mlpEntries]
  by_cases hexperts : 0 < c.nExperts
  · rw [if_pos hexperts, if_pos hexperts, List.map_cons, List.map_flatMap]
    exact Eq.refl _
  · rw [if_neg hexperts, if_neg hexperts]
    exact Eq.refl _

/-- The plan of a layer. -/
theorem planLayer_eq (layer : ℕ) : planLayer c layer = (layerEntries c layer).map Entry.item := by
  rw [planLayer, planMlp_eq, layerEntries, List.map_append, List.map_append, List.append_assoc,
    List.append_assoc, List.append_assoc]
  congr 2
  rw [normEntries, List.map_append]
  by_cases harch : c.archType = .qwen3 ∨ c.archType = .qwen3Moe
  · rw [if_pos harch, if_pos harch]
    exact Eq.refl _
  · rw [if_neg harch, if_neg harch]
    exact Eq.refl _

/-- The converter writes tensors in the order of the layout. -/
theorem planBody_eq : planBody c = (bodyLayout c).map Entry.item := by
  have hlayers : (List.range c.nLayers).flatMap (planLayer c) =
      ((List.range c.nLayers).flatMap (layerEntries c)).map Entry.item := by
    rw [List.map_flatMap]
    apply List.flatMap_congr
    intro layer _
    exact planLayer_eq layer
  rw [planBody, bodyLayout, hlayers, List.map_append, List.map_append]
  exact Eq.refl _

end Plan

section Walk

/-- What the loader does with a tensor of the layout when it takes a size for the feed-forward
block: the operation, the format, and the bytes that it goes on by. -/
structure Loads (hidden : ℕ) (e : Entry) (load : WeightLoad) : Prop where
  /-- The name of the operation. -/
  opName : load.opName = e.opName
  /-- Its index. -/
  opIndex : load.opIndex = e.opIndex
  /-- The expert. -/
  expertIndex : load.expertIndex = e.expertIndex
  /-- The format. -/
  floatType : load.source.size.floatType = some e.floatType
  /-- The bytes of as many values as a word counts. -/
  nBytes : load.source.size.nBytes = getBytes e.floatType (e.numel hidden % 2 ^ 32)
  /-- They are whole blocks. -/
  whole : WholeBlocks e.floatType (e.numel hidden % 2 ^ 32)

theorem wholeBlocks_f32 (v : ℕ) : WholeBlocks .f32 v := Nat.mod_one v

variable {c : Config} {n : LlmShape} {tpSize maxSeqLen headerSize fileSize : ℕ}
  {syncType : NnFloatType}

/-- A size with the values of an entry. -/
theorem loads_of_size {hidden : ℕ} {e : Entry} {source : WeightSource} {y x : ℕ}
    (hsize : source.size = size2D e.floatType y x)
    (hnumel : y * x % 2 ^ 32 = e.numel hidden % 2 ^ 32)
    (hwhole : WholeBlocks e.floatType (y * x % 2 ^ 32)) :
    Loads hidden e ⟨e.opName, e.opIndex, e.expertIndex, source⟩ := by
  constructor
  · exact Eq.refl _
  · exact Eq.refl _
  · exact Eq.refl _
  · rw [hsize]
    exact Eq.refl _
  · rw [hsize, size2D, size3D, Nat.one_mul, hnumel]
  · rw [← hnumel]
    exact hwhole

/-- A weight that is cut by rows. -/
theorem loads_row {hidden y x : ℕ} {e : Entry} {slice : NnRowMatmulSlice}
    (hslice : sliceRowMatmul e.floatType tpSize y x = .ok slice) (rank : Option ℕ)
    (hnumel : y * x % 2 ^ 32 = e.numel hidden % 2 ^ 32) :
    Loads hidden e ⟨e.opName, e.opIndex, e.expertIndex, .slices (.row slice) rank⟩ := by
  obtain ⟨_, hwhole, _, hslice⟩ := sliceRowMatmul_ok hslice
  have hsize : (WeightSource.slices (.row slice) rank).size = size2D e.floatType y x := by
    rw [hslice]
    exact Eq.refl _
  exact loads_of_size hsize hnumel hwhole

/-- A weight that is cut by columns. -/
theorem loads_column {hidden y x : ℕ} {e : Entry} {slice : NnColMatmulSlice}
    (hslice : sliceColMatmul e.floatType tpSize y x = .ok slice) (rank : Option ℕ)
    (hnumel : y * x % 2 ^ 32 = e.numel hidden % 2 ^ 32) :
    Loads hidden e ⟨e.opName, e.opIndex, e.expertIndex, .slices (.column slice) rank⟩ := by
  obtain ⟨_, hwhole, _, hslice⟩ := sliceColMatmul_ok hslice
  have hsize : (WeightSource.slices (.column slice) rank).size = size2D e.floatType y x := by
    rw [hslice]
    exact Eq.refl _
  exact loads_of_size hsize hnumel hwhole

/-- A weight that all nodes have whole. -/
theorem loads_all {hidden y x : ℕ} {e : Entry} (hfloat : e.floatType = .f32)
    (hnumel : y * x % 2 ^ 32 = e.numel hidden % 2 ^ 32) :
    Loads hidden e ⟨e.opName, e.opIndex, e.expertIndex, .all (size2D .f32 y x)⟩ := by
  have hsize : (WeightSource.all (size2D .f32 y x)).size = size2D e.floatType y x := by
    rw [hfloat]
    exact Eq.refl _
  exact loads_of_size hsize hnumel (hfloat ▸ wholeBlocks_f32 _)

theorem forall₂_flatMap_range {α β : Type} {r : α → β → Prop} {f : ℕ → List α} {g : ℕ → List β}
    (h : ∀ i, List.Forall₂ r (f i) (g i)) (count : ℕ) :
    List.Forall₂ r ((List.range count).flatMap f) ((List.range count).flatMap g) := by
  induction count with
  | zero => exact .nil
  | succ count ih =>
    rw [List.range_succ, List.flatMap_append, List.flatMap_append, List.flatMap_singleton,
      List.flatMap_singleton]
    exact List.rel_append ih (h count)

/-- The header that was read for a configuration. -/
def HeaderOf (c : Config) (n : LlmShape) : Prop :=
  ∃ maxSeqLen syncType headerSize fileSize,
    n.header = (expectedHeader c maxSeqLen syncType headerSize fileSize).header

theorem HeaderOf.ffDim_eq (h : HeaderOf c n) : ffDim n.header = ffSize c := by
  obtain ⟨maxSeqLen, syncType, headerSize, fileSize, hheader⟩ := h
  rw [hheader]
  exact Eq.refl _

/-- The weights of a feed-forward block. -/
theorem forall₂_block (hs : ShapeOf n tpSize) (hh : HeaderOf c n) (layer expert : ℕ)
    (gate down up : String) :
    List.Forall₂ (Loads (ffSize c)) (blockEntries c layer expert gate down up)
      [⟨"block_matmul_w1", layer, expert, .slices (.row n.w1Slice) none⟩,
        ⟨"block_matmul_w2", layer, expert, .slices (.column n.w2Slice) none⟩,
        ⟨"block_matmul_w3", layer, expert, .slices (.row n.w3Slice) none⟩] := by
  have hff := hh.ffDim_eq
  obtain ⟨maxSeqLen, syncType, headerSize, fileSize, hheader⟩ := hh
  have hw1 := hs.w1
  have hw2 := hs.w2
  have hw3 := hs.w3
  rw [hff, hheader] at hw1 hw2 hw3
  refine .cons (loads_row hw1 none ?_) (.cons (loads_column hw2 none ?_)
    (.cons (loads_row hw3 none ?_) .nil))
  · simp [Entry.numel, expectedHeader, Nat.mul_comm]
  · simp [Entry.numel, expectedHeader, Nat.mul_comm]
  · simp [Entry.numel, expectedHeader, Nat.mul_comm]

/-- The weights of the attention. -/
theorem forall₂_attention (hs : ShapeOf n tpSize) (hh : HeaderOf c n) (layer : ℕ) :
    List.Forall₂ (Loads (ffSize c)) (attentionEntries c layer)
      [⟨"block_matmul_q", layer, 0, .slices (.row n.qSlice) none⟩,
        ⟨"block_matmul_k", layer, 0, .slices (.row n.kSlice) none⟩,
        ⟨"block_matmul_v", layer, 0, .slices (.row n.vSlice) none⟩,
        ⟨"block_matmul_wo", layer, 0, .slices (.column n.woSlice) none⟩] := by
  obtain ⟨maxSeqLen, syncType, headerSize, fileSize, hheader⟩ := hh
  have hq := hs.q
  have hk := hs.k
  have hv := hs.v
  have hwo := hs.wo
  rw [hheader] at hq hk hv hwo
  have hrow (heads : ℕ) : c.dim * (c.headSize * heads % 2 ^ 32) % 2 ^ 32 =
      [c.headSize * heads, c.dim].prod % 2 ^ 32 := by
    rw [Nat.mul_mod_mod, List.prod_cons, List.prod_singleton, Nat.mul_comm]
  have hcolumn : c.headSize * c.nHeads % 2 ^ 32 * c.dim % 2 ^ 32 =
      [c.dim, c.headSize * c.nHeads].prod % 2 ^ 32 := by
    rw [Nat.mod_mul_mod, List.prod_cons, List.prod_singleton, Nat.mul_comm]
  exact .cons (loads_row hq none (hrow _)) (.cons (loads_row hk none (hrow _))
    (.cons (loads_row hv none (hrow _)) (.cons (loads_column hwo none hcolumn) .nil)))

/-- The weights of the feed-forward blocks. -/
theorem forall₂_mlp (hs : ShapeOf n tpSize) (hh : HeaderOf c n) (layer : ℕ) :
    List.Forall₂ (Loads (ffSize c)) (mlpEntries c layer)
      (if 0 < n.header.nExperts then
        ⟨"block_moe_gate", layer, 0, .all n.moeGateSize⟩ ::
          (List.range n.header.nExperts).flatMap fun expertIndex =>
            [⟨"block_matmul_w1", layer, expertIndex, .slices (.row n.w1Slice) none⟩,
              ⟨"block_matmul_w2", layer, expertIndex, .slices (.column n.w2Slice) none⟩,
              ⟨"block_matmul_w3", layer, expertIndex, .slices (.row n.w3Slice) none⟩]
      else
        [⟨"block_matmul_w1", layer, 0, .slices (.row n.w1Slice) none⟩,
          ⟨"block_matmul_w2", layer, 0, .slices (.column n.w2Slice) none⟩,
          ⟨"block_matmul_w3", layer, 0, .slices (.row n.w3Slice) none⟩]) := by
  have hexperts : n.header.nExperts = c.nExperts := by
    obtain ⟨maxSeqLen, syncType, headerSize, fileSize, hheader⟩ := hh
    rw [hheader]
    exact Eq.refl _
  have hdim : n.header.dim = c.dim := by
    obtain ⟨maxSeqLen, syncType, headerSize, fileSize, hheader⟩ := hh
    rw [hheader]
    exact Eq.refl _
  rw [mlpEntries, LlmShape.moeGateSize, hexperts, hdim]
  by_cases hsome : 0 < c.nExperts
  · rw [if_pos hsome, if_pos hsome]
    have hgate : c.dim * c.nExperts % 2 ^ 32 = [c.nExperts, c.dim].prod % 2 ^ 32 := by
      rw [List.prod_cons, List.prod_singleton, Nat.mul_comm]
    exact .cons (loads_all (Eq.refl _) hgate)
      (forall₂_flatMap_range (fun expert => forall₂_block hs hh layer expert _ _ _) c.nExperts)
  · rw [if_neg hsome, if_neg hsome]
    exact forall₂_block hs hh layer 0 _ _ _

/-- The norms of a layer. -/
theorem forall₂_norms (hh : HeaderOf c n) (layer : ℕ) :
    List.Forall₂ (Loads (ffSize c)) (normEntries c layer)
      ((if n.HasQkNorm then
        [⟨"block_norm_q", layer, 0, .all n.qkRmsNormSize⟩,
          ⟨"block_norm_k", layer, 0, .all n.qkRmsNormSize⟩]
      else []) ++
      [⟨"block_norm_0", layer, 0, .all n.rmsNormSize⟩,
        ⟨"block_norm_1", layer, 0, .all n.rmsNormSize⟩]) := by
  obtain ⟨maxSeqLen, syncType, headerSize, fileSize, hheader⟩ := hh
  have hrow (x : ℕ) : 1 * x % 2 ^ 32 = [x].prod % 2 ^ 32 := by
    rw [Nat.one_mul, List.prod_singleton]
  have hnorms : n.HasQkNorm ↔ c.archType = .qwen3 ∨ c.archType = .qwen3Moe := by
    rw [LlmShape.HasQkNorm, hheader]
    exact Iff.rfl
  rw [normEntries, LlmShape.qkRmsNormSize, LlmShape.rmsNormSize, hheader]
  apply List.rel_append
  · by_cases harch : c.archType = .qwen3 ∨ c.archType = .qwen3Moe
    · rw [if_pos harch, if_pos (hnorms.mpr harch)]
      exact .cons (loads_all (Eq.refl _) (hrow _)) (.cons (loads_all (Eq.refl _) (hrow _)) .nil)
    · rw [if_neg harch, if_neg fun h => harch (hnorms.mp h)]
      exact .nil
  · exact .cons (loads_all (Eq.refl _) (hrow _)) (.cons (loads_all (Eq.refl _) (hrow _)) .nil)

/-- The loader walks through the layout, whatever the nodes are. -/
theorem forall₂_netLoads (hs : ShapeOf n tpSize) (hh : HeaderOf c n) (nNodes tpGroupEnd : ℕ) :
    List.Forall₂ (Loads (ffSize c)) (layout c) (netLoads n nNodes tpGroupEnd) := by
  have hlayers : ∀ layer, List.Forall₂ (Loads (ffSize c)) (layerEntries c layer)
      (layerLoads n layer) := by
    intro layer
    rw [layerEntries, layerLoads, List.append_assoc (_ ++ _)]
    have hweights := List.rel_append (forall₂_attention hs hh layer) (forall₂_mlp hs hh layer)
    exact List.rel_append hweights (forall₂_norms hh layer)
  have hcount : n.header.nLayers = c.nLayers := by
    obtain ⟨maxSeqLen, syncType, headerSize, fileSize, hheader⟩ := hh
    rw [hheader]
    exact Eq.refl _
  have hrest := forall₂_flatMap_range hlayers c.nLayers
  obtain ⟨maxSeqLen, syncType, headerSize, fileSize, hheader⟩ := hh
  have hwcls := hs.wcls
  rw [layout, bodyLayout, netLoads, hcount, List.append_assoc (_ ++ _)]
  rw [hheader] at hwcls
  apply List.rel_append
  · apply List.rel_append
    · rw [LlmShape.tokenEmbeddingSize, hheader]
      refine .cons (loads_of_size (Eq.refl _) ?_ (wholeBlocks_f32 _)) .nil
      rw [Entry.numel, List.prod_cons, List.prod_singleton]
      exact Eq.refl _
    · exact hrest
  · rw [LlmShape.rmsNormSize, hheader]
    refine .cons (loads_all (Eq.refl _) ?_) (.cons (loads_column hwcls _ ?_) .nil)
    · rw [Entry.numel, Nat.one_mul, List.prod_singleton]
      exact Eq.refl _
    · have hlogits : c.dim * c.vocabSize % 2 ^ 32 = [c.vocabSize, c.dim].prod % 2 ^ 32 := by
        rw [List.prod_cons, List.prod_singleton, Nat.mul_comm]
      exact hlogits

end Walk

section Sizes

variable {c : Config}

theorem numel_of_mem_blockEntries {layer expert : ℕ} {gate down up : String} {e : Entry}
    (he : e ∈ blockEntries c layer expert gate down up) (hidden : ℕ) :
    e.numel hidden = hidden * c.dim := by
  simp only [blockEntries, List.mem_cons, List.not_mem_nil, or_false] at he
  rcases he with he | he | he
  · simp [he, Entry.numel]
  · simp [he, Entry.numel, Nat.mul_comm]
  · simp [he, Entry.numel]

/-- An entry of a layer is a weight of a feed-forward block, or has the same size for each. -/
theorem numel_of_mem_layerEntries {layer : ℕ} {e : Entry} (he : e ∈ layerEntries c layer) :
    (∀ a b, e.numel a = e.numel b) ∨ ∀ hidden, e.numel hidden = hidden * c.dim := by
  rw [layerEntries, List.mem_append, List.mem_append] at he
  rcases he with (hattention | hmlp) | hnorm
  · left
    intro a b
    simp only [attentionEntries, List.mem_cons, List.not_mem_nil, or_false] at hattention
    rcases hattention with he | he | he | he <;> simp [he, Entry.numel]
  · rw [mlpEntries] at hmlp
    by_cases hexperts : 0 < c.nExperts
    · rw [if_pos hexperts, List.mem_cons, List.mem_flatMap] at hmlp
      rcases hmlp with he | ⟨expert, _, hblock⟩
      · left
        intro a b
        simp [he, Entry.numel]
      · exact .inr (numel_of_mem_blockEntries hblock)
    · rw [if_neg hexperts] at hmlp
      exact .inr (numel_of_mem_blockEntries hmlp)
  · left
    intro a b
    rw [normEntries, List.mem_append] at hnorm
    rcases hnorm with hqk | hlast
    · by_cases harch : c.archType = .qwen3 ∨ c.archType = .qwen3Moe
      · rw [if_pos harch] at hqk
        simp only [List.mem_cons, List.not_mem_nil, or_false] at hqk
        rcases hqk with he | he <;> simp [he, Entry.numel]
      · rw [if_neg harch] at hqk
        cases hqk
    · simp only [List.mem_cons, List.not_mem_nil, or_false] at hlast
      rcases hlast with he | he <;> simp [he, Entry.numel]

theorem exists_mem_blockEntries (layer expert : ℕ) (gate down up : String) :
    ∃ e ∈ blockEntries c layer expert gate down up, ∀ hidden, e.numel hidden = hidden * c.dim := by
  have hmem : (⟨[gate], c.weightsFloatType, none, fun hidden => [hidden, c.dim], "block_matmul_w1",
      layer, expert⟩ : Entry) ∈ blockEntries c layer expert gate down up := List.mem_cons_self
  exact ⟨_, hmem, numel_of_mem_blockEntries hmem⟩

/-- A layer has a feed-forward block. -/
theorem exists_mem_layerEntries (layer : ℕ) :
    ∃ e ∈ layerEntries c layer, ∀ hidden, e.numel hidden = hidden * c.dim := by
  have hmlp : ∃ e ∈ mlpEntries c layer, ∀ hidden, e.numel hidden = hidden * c.dim := by
    rw [mlpEntries]
    by_cases hexperts : 0 < c.nExperts
    · rw [if_pos hexperts]
      obtain ⟨e, he, hnumel⟩ := exists_mem_blockEntries (c := c) layer 0
        s!"model.layers.{layer}.mlp.experts.{0}.gate_proj.weight"
        s!"model.layers.{layer}.mlp.experts.{0}.down_proj.weight"
        s!"model.layers.{layer}.mlp.experts.{0}.up_proj.weight"
      refine ⟨e, List.mem_cons_of_mem _ (List.mem_flatMap.mpr ⟨0, ?_, he⟩), hnumel⟩
      exact List.mem_range.mpr hexperts
    · rw [if_neg hexperts]
      exact exists_mem_blockEntries layer 0 _ _ _
  obtain ⟨e, he, hnumel⟩ := hmlp
  exact ⟨e, List.mem_append_left _ (List.mem_append_right _ he), hnumel⟩

/-- The loader's size of each tensor is that of the checkpoint exactly when words count the values
of each tensor and the feed-forward blocks have the size of the architecture. -/
theorem numel_agree_iff :
    (∀ e ∈ layout c, e.numel (ffSize c) % 2 ^ 32 = e.numel (mlpSize c)) ↔
      (∀ e ∈ layout c, e.numel (mlpSize c) < 2 ^ 32) ∧
        (0 < c.nLayers → ffSize c * c.dim % 2 ^ 32 = mlpSize c * c.dim) := by
  constructor
  · intro hagree
    constructor
    · intro e he
      rw [← hagree e he]
      exact Nat.mod_lt _ (by norm_num)
    · intro hlayers
      obtain ⟨e, he, hnumel⟩ := exists_mem_layerEntries (c := c) 0
      have hmem : e ∈ layout c := by
        rw [layout, bodyLayout]
        exact List.mem_append_left _ (List.mem_append_left _ (List.mem_append_right _
          (List.mem_flatMap.mpr ⟨0, List.mem_range.mpr hlayers, he⟩)))
      have hthis := hagree e hmem
      rwa [hnumel, hnumel] at hthis
  · intro hboth e he
    obtain ⟨hvalues, hmlp⟩ := hboth
    have hlt := hvalues e he
    rw [layout, bodyLayout, List.mem_append, List.mem_append, List.mem_append] at he
    rcases he with ((hfirst | hlayer) | hnorm) | hlogits
    · rw [List.mem_singleton.mp hfirst] at hlt ⊢
      exact Nat.mod_eq_of_lt hlt
    · obtain ⟨layer, hrange, he⟩ := List.mem_flatMap.mp hlayer
      have hlayers : 0 < c.nLayers := Nat.lt_of_le_of_lt (Nat.zero_le _) (List.mem_range.mp hrange)
      cases numel_of_mem_layerEntries he with
      | inl hsame =>
        rw [hsame (ffSize c) (mlpSize c)]
        exact Nat.mod_eq_of_lt hlt
      | inr hblock =>
        rw [hblock, hblock]
        exact hmlp hlayers
    · rw [List.mem_singleton.mp hnorm] at hlt ⊢
      exact Nat.mod_eq_of_lt hlt
    · rw [List.mem_singleton.mp hlogits] at hlt ⊢
      exact Nat.mod_eq_of_lt hlt

end Sizes

end LayerSkip.ModelLayout
