import LayerSkip.ForwardFreshness
import LayerSkip.StageSimulation

/-!
# What a stage hands over

The layers of a model in one graph and in stages. A stage starts with a cast of `X` where the one
graph merges the rows of the layer before, and ends with that merge and a cast into `X`. Both leave
the same residual rows and the same caches.
-/

namespace LayerSkip.StageHandOver

open NnTopology NnPipeline NnCore NnCpu LlmGraph Dataflow RegionFlow RootBroadcast ForwardReads
open ForwardTriples StageExecutor StageSimulation
open DevicePlacement (NnNode)

/-- Two nodes of the same model, with the same part of every weight. -/
structure SameParts (b b' : NnNodeBuilder) : Prop where
  /-- Sizes of the whole graph. -/
  shape : b.n = b'.n
  /-- Caches. -/
  kvCache : b.kvCacheSlice = b'.kvCacheSlice
  /-- Rotary embedding. -/
  rope : b.ropeSlice = b'.ropeSlice
  /-- Sequence ranks. -/
  spSize : b.topology.spSize = b'.topology.spSize
  /-- Tensor ranks. -/
  tpSize : b.topology.tpSize = b'.topology.tpSize
  /-- Members of the tensor group. -/
  group : b.nodePlacement.tpGroupEnd - b.nodePlacement.tpGroupStart =
    b'.nodePlacement.tpGroupEnd - b'.nodePlacement.tpGroupStart
  /-- Tensor rank. -/
  rank : b.nodePlacement.tpRank = b'.nodePlacement.tpRank

/-- The operation that brings the rows of the layer before into a layer. -/
def mergeEntry (name : String) (layer : ℕ) : NnOpConfig :=
  ⟨.mergeAdd, name, layer, pointerBatchConfig (.pipe .zq), pointerBatchConfig (.buffer .x), size0,
    .empty⟩

/-- The operation that brings `X` into the first layer of a stage. -/
def castEntry (layer : ℕ) : NnOpConfig :=
  ⟨.cast, "block_cast_x", layer, pointerBatchConfig (.pipe .x), pointerBatchConfig (.buffer .x),
    size0, .empty⟩

/-- The operation that puts the residual rows into `X`. -/
def castExit : NnOpConfig :=
  ⟨.cast, "stage_bridge_cast_x", 0, pointerBatchConfig (.buffer .x), pointerBatchConfig (.pipe .x),
    size0, .empty⟩

/-- A layer after its rows are in. -/
def layerRest (b : NnNodeBuilder) (layer : ℕ) : List NnOpConfig := attRest b layer ++ (b.ff layer).ops

/-- Layers that start with the rows of the layer before. -/
def laterLayers (b : NnNodeBuilder) (first count : ℕ) : List NnOpConfig :=
  (List.range' first count).flatMap fun layer =>
    mergeEntry "block_merge_add" layer :: layerRest b layer

/-- Layers after the rows of the first one are in. -/
def body (b : NnNodeBuilder) (first last : ℕ) : List NnOpConfig :=
  layerRest b first ++ laterLayers b (first + 1) (last - (first + 1))

section Ops

variable {b b' : NnNodeBuilder}

/-- An attention, and its caches apart. -/
theorem attRest_eq (b : NnNodeBuilder) (layer : ℕ) : attRest b layer =
    b.normOps "block_norm_pre_0" "block_norm_0" layer ++ b.castYOps "block_cast_y" layer ++
      b.qkvOps layer ++ b.qkNormOps layer ++ (b.ropeOps layer ++ b.attentionOps layer) := by
  rw [attRest, List.append_assoc _ (b.ropeOps layer)]

/-- A later layer, and those after it. -/
theorem laterLayers_succ (b : NnNodeBuilder) (first count : ℕ) : laterLayers b first (count + 1) =
    [mergeEntry "block_merge_add" first] ++ layerRest b first ++
      laterLayers b (first + 1) count := by
  rw [laterLayers, List.range'_succ, List.flatMap_cons, ← laterLayers, List.singleton_append]

theorem layerRest_congr (h : SameParts b b') (layer : ℕ) : layerRest b layer = layerRest b' layer := by
  have hshape := h.shape
  have hmoe : b.moeOps layer = b'.moeOps layer := by
    rw [NnNodeBuilder.moeOps, hshape]
    exact Eq.refl _
  simp only [layerRest, attRest, NnNodeBuilder.ff, NnNodeBuilder.normOps, NnNodeBuilder.castYOps,
    NnNodeBuilder.qkvOps, NnNodeBuilder.qkNormOps, NnNodeBuilder.ropeOps,
    NnNodeBuilder.attentionOps, NnNodeBuilder.multiheadAttConfig, NnNodeBuilder.denseOps, hmoe,
    hshape, h.rope, h.kvCache, h.spSize]

theorem body_congr (h : SameParts b b') (first last : ℕ) : body b first last = body b' first last := by
  have hrest : layerRest b = layerRest b' := funext (layerRest_congr h)
  rw [body, body, laterLayers, laterLayers, hrest]

theorem finalSegment_congr (h : SameParts b b') : b.finalSegment false = b'.finalSegment false := by
  simp only [NnNodeBuilder.finalSegment, NnNodeBuilder.logitsOps, NnNodeBuilder.normOps,
    NnNodeBuilder.castYOps, h.shape]

/-- Layers up to a later one, and from there on. -/
theorem body_split {first mid last : ℕ} (hfirst : first < mid) (hlast : mid < last) :
    body b first last = body b first mid ++ mergeEntry "block_merge_add" mid :: body b mid last := by
  have hcount : last - (first + 1) = mid - (first + 1) + (last - (mid + 1) + 1) := by
    omega
  have hmid : first + 1 + 1 * (mid - (first + 1)) = mid := by
    omega
  rw [body, body, body, laterLayers, hcount, ← List.range'_append, hmid, List.flatMap_append,
    List.range'_succ, List.flatMap_cons, ← laterLayers, ← laterLayers, List.append_assoc,
    List.cons_append]

theorem opsOf_layerRest (layer : ℕ) : ∀ op ∈ layerRest b layer, OpOf layer op := by
  rw [layerRest, List.forall_mem_append]
  exact ⟨opOf_attRest b layer, opOf_ff b layer layer⟩

theorem opsOf_laterLayers (first count : ℕ) :
    OpsOf {layer | first ≤ layer ∧ layer < first + count} (laterLayers b first count) := by
  intro op hop
  obtain ⟨layer, hlayer, hmem⟩ := List.mem_flatMap.mp hop
  rw [List.mem_range'_1] at hlayer
  refine ⟨layer, hlayer, ?_⟩
  cases List.mem_cons.mp hmem with
  | inl hmerge =>
    rw [hmerge]
    exact opOf_mergeAdd layer _ _
  | inr hrest => exact opsOf_layerRest layer op hrest

theorem opsOf_body {first last : ℕ} (h : first < last) :
    OpsOf {layer | first ≤ layer ∧ layer < last} (body b first last) := by
  intro op hop
  cases List.mem_append.mp hop with
  | inl hfirst => exact ⟨first, ⟨le_refl _, h⟩, opsOf_layerRest first op hfirst⟩
  | inr hlater =>
    obtain ⟨layer, hlayer, hof⟩ := opsOf_laterLayers _ _ op hlater
    have hrange : first + 1 ≤ layer ∧ layer < first + 1 + (last - (first + 1)) := hlayer
    exact ⟨layer, ⟨by omega, by omega⟩, hof⟩

/-- Operations of a node that has layers. -/
theorem ops_eq (hlt : b.layerStart < b.layerEnd) :
    (b.segments false).flatMap NnSegmentConfig.ops = b.start.ops ++
      (castEntry b.layerStart :: body b b.layerStart b.layerEnd ++
        ((if b.nodePlacement.ppRank < b.topology.ppSize - 1 then NnNodeBuilder.bridge.ops else []) ++
          if b.nodePlacement.ppRank = b.topology.ppSize - 1 then (b.finalSegment false).ops
          else [])) := by
  have hlayer (layer : ℕ) : [b.att layer, b.ff layer].flatMap NnSegmentConfig.ops =
      b.blockEntry layer :: layerRest b layer := by
    rw [List.flatMap_cons, List.flatMap_singleton, att_ops, layerRest, List.cons_append]
  have hcount : b.layerEnd - b.layerStart = b.layerEnd - (b.layerStart + 1) + 1 := by
    omega
  have hlater : (List.range' (b.layerStart + 1) (b.layerEnd - (b.layerStart + 1))).flatMap
      (fun layer => b.blockEntry layer :: layerRest b layer) =
      laterLayers b (b.layerStart + 1) (b.layerEnd - (b.layerStart + 1)) := by
    apply List.flatMap_congr
    intro layer hlayer
    have hne : layer ≠ b.layerStart := by
      rw [List.mem_range'_1] at hlayer
      omega
    rw [NnNodeBuilder.blockEntry, if_neg hne]
    exact Eq.refl _
  have hfirst : b.blockEntry b.layerStart = castEntry b.layerStart := if_pos (Eq.refl _)
  have htail (p : Prop) [Decidable p] (segment : NnSegmentConfig) :
      (if p then [segment] else []).flatMap NnSegmentConfig.ops = if p then segment.ops else [] := by
    split
    · exact List.flatMap_singleton _ _
    · exact Eq.refl _
  rw [NnNodeBuilder.segments, List.flatMap_append, List.flatMap_append, List.flatMap_append,
    List.flatMap_singleton, List.flatMap_assoc, htail, htail]
  simp only [hlayer]
  rw [NnNodeBuilder.layers, hcount, List.range'_succ, List.flatMap_cons, hlater, hfirst, body,
    List.append_assoc, List.append_assoc, List.cons_append, List.cons_append, List.append_assoc]

end Ops

section Rows

variable {b b' : NnNodeBuilder}

/-- Buffers that are no caches. -/
def rowBuffers (b : NnNodeBuilder) (nBatches : ℕ) : List (NnBuffer × NnSize3D) :=
  ({ b with layerStart := 0, layerEnd := 0 } : NnNodeBuilder).buffers nBatches

theorem buffers_eq (b : NnNodeBuilder) (nBatches : ℕ) :
    b.buffers nBatches = rowBuffers b nBatches ++ b.layers.flatMap fun layer =>
      [(.k layer, b.kvCacheSlice.keySize), (.v layer, b.kvCacheSlice.valueSize)] := by
  have hnone : ({ b with layerStart := 0, layerEnd := 0 } : NnNodeBuilder).layers = [] := Eq.refl _
  rw [rowBuffers, NnNodeBuilder.buffers, NnNodeBuilder.buffers, hnone, List.flatMap_nil,
    List.append_nil]

theorem rowBuffers_congr (h : SameParts b b') (nBatches : ℕ) :
    rowBuffers b nBatches = rowBuffers b' nBatches := by
  simp only [rowBuffers, NnNodeBuilder.buffers, NnNodeBuilder.layers, h.shape, h.rope, h.tpSize,
    h.kvCache]

theorem find_rowBuffers (b : NnNodeBuilder) (nBatches : ℕ) {buffer : NnBuffer}
    (hrow : ∀ layer, ¬IsCacheOf layer (.buffer buffer)) :
    ((b.buffers nBatches).find? fun entry => entry.1 = buffer) =
      (rowBuffers b nBatches).find? fun entry => entry.1 = buffer := by
  have hnone : ((b.layers.flatMap fun layer =>
      ([(.k layer, b.kvCacheSlice.keySize), (.v layer, b.kvCacheSlice.valueSize)] :
        List (NnBuffer × NnSize3D))).find? fun entry => entry.1 = buffer) = none := by
    rw [List.find?_eq_none]
    intro entry hentry hsame
    obtain ⟨layer, _, hmem⟩ := List.mem_flatMap.mp hentry
    have heq : entry.1 = buffer := by
      simpa using hsame
    simp only [List.mem_cons, List.not_mem_nil, or_false] at hmem
    apply hrow layer
    rw [← heq]
    cases hmem with
    | inl hk =>
      rw [hk]
      exact .inl (Eq.refl _)
    | inr hv =>
      rw [hv]
      exact .inr (Eq.refl _)
  rw [buffers_eq, List.find?_append, hnone, Option.or_none]

/-- Nodes of one model have rows of the same sizes. -/
theorem sameRows (nBatches : ℕ) (h : SameParts b b') :
    SameRows (builtNode b nBatches false) (builtNode b' nBatches false) := by
  constructor
  · intro source hrow
    cases source with
    | pipe pipe =>
      cases pipe <;> simp only [nodeOf, NnNode.sourceSize, NnNode.pipeSize, h.shape]
    | buffer buffer =>
      have hfind := congrArg (Option.map Prod.snd) (find_rowBuffers b nBatches hrow)
      have hfind' := congrArg (Option.map Prod.snd) (find_rowBuffers b' nBatches hrow)
      rw [rowBuffers_congr h] at hfind
      exact hfind.trans hfind'.symm
  · exact h.group
  · exact h.rank

end Rows

section Triples

variable (node : NnNode) (c : Cluster) (b : NnNodeBuilder)

theorem triple_layerRest (hs : Sized node b) (layer : ℕ) :
    Triple [whole (.pipe .pos), whole (.buffer .x)] (opUses node c (layerRest b layer)) handOver := by
  rw [layerRest, opUses_append]
  exact (triple_attRest node c b layer hs.heads).append (triple_ffOps node c b layer hs.planes)

theorem triple_laterLayers (hs : Sized node b) (first count : ℕ) :
    Triple (whole (.pipe .pos) :: handOver) (opUses node c (laterLayers b first count)) handOver := by
  induction count generalizing first with
  | zero => exact (Triple.nil _).weaken (fun _ h => h) (List.subset_cons_self _ _)
  | succ count ih =>
    have hmerge := (triple_mergeAdd node c "block_merge_add" first).weaken
      (List.subset_cons_self (whole (.pipe .pos)) _) fun _ h => h
    have hlayer := (hmerge.seq (triple_layerRest node c b hs first) (by simp)).keep
    rw [laterLayers_succ, opUses_append, opUses_append]
    exact hlayer.append ((ih (first + 1)).weaken (by simp) fun _ h => h)

theorem triple_body (hs : Sized node b) (first last : ℕ) :
    Triple [whole (.pipe .pos), whole (.buffer .x)] (opUses node c (body b first last)) handOver := by
  have hfirst := (triple_layerRest node c b hs first).keep
  have hlater := triple_laterLayers node c b hs (first + 1) (last - (first + 1))
  rw [body, opUses_append]
  exact hfirst.append (hlater.weaken (by simp [handOver]) fun _ h => h)

/-- The final segment leaves the logits. -/
theorem triple_logitsRows : Triple handOver (opUses node c (b.finalSegment false).ops)
    [whole (.pipe .lg)] := by
  have hnorm := (triple_mergeAdd node c "final_merge_add" 0).seq
    (triple_norm node c b "final_norm_pre" "final_norm" 0) (by simp)
  have hcast := hnorm.seq (triple_castY node c b "final_cast_y" 0) (by simp)
  have hmatmul : Triple [whole (.buffer b.n.yqBuffer)] (opUses node c
      [⟨.matmul, "final_matmul_logits", 0, pointerBatchedSliceConfig (.buffer b.n.yqBuffer),
        pointerBatchConfig (.pipe .lg),
        size2D b.n.header.weightType b.n.wclsSlice.n0 b.n.wclsSlice.d, .matmul 0 0 .x⟩])
      [whole (.pipe .lg)] := by
    rw [triple_iff]
    simp [opUses, stepUse, opReads, opWrites, configReads, pointerRegion, pointerBatchConfig,
      pointerBatchedSliceConfig, Checks, RegionFlow.after, whole]
  have hlogits := hcast.seq hmatmul (by simp)
  simp only [← opUses_append] at hlogits
  exact hlogits.weaken (fun _ h => h) (by simp)

end Triples

section Agreement

variable {V : Type} {b b' : NnNodeBuilder} {nBatches nThreads nThreads' batchSize first last : ℕ}
  {kernels : Kernels V} {m m' : Memory V}

/-- Caches of some layers. -/
def ownCaches (first last : ℕ) : Set Cell :=
  {c | ∃ layer, first ≤ layer ∧ layer < last ∧ IsCacheOf layer c.source}

/-- Memories agree when the rows of the first layer are in. -/
def AgreeBefore (b : NnNodeBuilder) (nBatches batchSize first last : ℕ) (m m' : Memory V) : Prop :=
  Set.EqOn m m' (cellsOf (cells (builtNode b nBatches false) batchSize)
    [whole (.pipe .pos), whole (.buffer .x)] ∪ ownCaches first last)

/-- Memories agree on what the last layer leaves. -/
def AgreeAfter (b : NnNodeBuilder) (nBatches batchSize first last : ℕ) (m m' : Memory V) : Prop :=
  Set.EqOn m m' (cellsOf (cells (builtNode b nBatches false) batchSize)
    (whole (.pipe .pos) :: handOver) ∪ ownCaches first last)

/-- Layers do the same in the one graph and in a stage. -/
theorem agree_body (h : SameParts b b') (hs : Sized (builtNode b nBatches false) b)
    (hthreads : 0 < nThreads) (hbatch : 0 < batchSize) (hlt : first < last)
    (hagree : AgreeBefore b nBatches batchSize first last m m') :
    AgreeAfter b nBatches batchSize first last
      (runOps (builtNode b nBatches false) nThreads kernels batchSize (body b first last) m)
      (runOps (builtNode b' nBatches false) nThreads' kernels batchSize (body b' first last) m') := by
  have hops := opsOf_body (b := b) hlt
  have hsame := runOps_congr nThreads nThreads' batchSize kernels
    (sameRows nBatches h) hops m'
  rw [← body_congr h, ← hsame]
  have htriple := triple_body (builtNode b nBatches false)
    (solo nThreads batchSize hthreads hbatch) b hs first last
  have hcaches : ∀ op ∈ body b first last, ∀ c : Cell, c.source ∈ cacheReads op →
      c ∈ ownCaches first last := by
    intro op hop c hc
    obtain ⟨layer, hlayer, hof⟩ := hops op hop
    exact ⟨layer, hlayer.1, hlayer.2, hof.caches _ (List.mem_append_left _ hc)⟩
  have hrun := eqOn_runOps kernels (ownCaches first last) htriple hcaches hagree
  apply hrun.mono
  apply Set.union_subset_union_left
  rw [cellsOf_append]
  intro c hc
  obtain ⟨r, hr, hmem⟩ := hc
  cases List.mem_cons.mp hr with
  | inl hpos => exact .inl ⟨r, hpos ▸ List.mem_cons_self, hmem⟩
  | inr hhand => exact .inr ⟨r, hhand, hmem⟩

/-- The merge of the last rows does the same, under any name. -/
theorem agree_merge (h : SameParts b b') (hthreads : 0 < nThreads) (hbatch : 0 < batchSize)
    (hagree : AgreeAfter b nBatches batchSize first last m m') (name name' : String)
    (layer layer' : ℕ) :
    Set.EqOn
      (runOps (builtNode b nBatches false) nThreads kernels batchSize [mergeEntry name layer] m)
      (runOps (builtNode b' nBatches false) nThreads' kernels batchSize [mergeEntry name' layer'] m')
      (cellsOf (cells (builtNode b nBatches false) batchSize)
        [whole (.pipe .pos), whole (.buffer .x)]) := by
  have hops : OpsOf {0} [mergeEntry name' layer'] := by
    intro op hop
    rw [List.mem_singleton.mp hop]
    exact ⟨0, Set.mem_singleton 0, opOf_mergeAdd 0 _ _⟩
  have hsame := runOps_congr nThreads nThreads' batchSize kernels
    (sameRows nBatches h) hops m'
  have hname : runOps (builtNode b nBatches false) nThreads kernels batchSize
      [mergeEntry name' layer'] m' =
        runOps (builtNode b nBatches false) nThreads kernels batchSize [mergeEntry name layer] m' :=
    apply_of_loadedOp _ nThreads kernels batchSize (Eq.refl _) m'
  rw [← hsame, hname]
  have htriple := triple_mergeAdd (builtNode b nBatches false)
    (solo nThreads batchSize hthreads hbatch) name layer
  have hwider := htriple.weaken (List.subset_cons_self (whole (.pipe .pos)) handOver) fun _ h => h
  have hrun := eqOn_runOps kernels ∅ hwider
    (fun op hop c hc => by
      rw [List.mem_singleton.mp hop] at hc
      exact absurd hc List.not_mem_nil)
    (hagree.mono (Set.union_subset_union_right _ (Set.empty_subset _)))
  apply hrun.mono
  intro c hc
  obtain ⟨r, hr, hmem⟩ := hc
  refine .inl ⟨r, ?_, hmem⟩
  simp only [List.mem_cons, List.not_mem_nil, or_false] at hr
  cases hr with
  | inl hpos => exact List.mem_append_left _ (hpos ▸ List.mem_cons_self)
  | inr hx => exact List.mem_append_right _ (hx ▸ List.mem_cons_self)

/-- The final segment leaves the same logits. -/
theorem agree_logits (h : SameParts b b') (hthreads : 0 < nThreads) (hbatch : 0 < batchSize)
    (hagree : AgreeAfter b nBatches batchSize first last m m') :
    readPipe .lg b.n.header.vocabSize (b.n.header.vocabSize * batchSize)
      (runOps (builtNode b nBatches false) nThreads kernels batchSize (b.finalSegment false).ops m) =
    readPipe .lg b.n.header.vocabSize (b.n.header.vocabSize * batchSize)
      (runOps (builtNode b' nBatches false) nThreads' kernels batchSize (b'.finalSegment false).ops
        m') := by
  have hops : OpsOf {0} (b.finalSegment false).ops := by
    intro op hop
    exact ⟨0, Set.mem_singleton 0, opOf_finalSegment b 0 op hop⟩
  have hsame := runOps_congr nThreads nThreads' batchSize kernels
    (sameRows nBatches h) hops m'
  have hsegment := finalSegment_congr h
  rw [← hsegment, ← hsame]
  have htriple := triple_logitsRows (builtNode b nBatches false)
    (solo nThreads batchSize hthreads hbatch) b
  have hwider := htriple.weaken (List.subset_cons_self (whole (.pipe .pos)) handOver) fun _ h => h
  have hrun := eqOn_runOps kernels (ownCaches 0 0) hwider
    (fun op hop c hc => by
      have hcache (layer : ℕ) := (opOf_finalSegment b layer op hop).caches _
        (List.mem_append_left _ hc)
      have hzero := hcache 0
      have hone := hcache 1
      simp only [IsCacheOf] at hzero hone
      rcases hzero with hk | hv
      · rw [hk] at hone
        simp at hone
      · rw [hv] at hone
        simp at hone)
    (hagree.mono (Set.union_subset_union_right _ (by
      intro c hc
      obtain ⟨layer, _, hlt, _⟩ := hc
      exact absurd hlt (Nat.not_lt_zero layer))))
  apply readPipe_congr
  intro c hsource hz hy hx
  apply hrun
  refine .inl ⟨whole (.pipe .lg), List.mem_append_right _ (List.mem_singleton_self _), hsource, ?_,
    hy, trivial, trivial⟩
  rw [hsource]
  exact ⟨_, Eq.refl _, hz ▸ Nat.one_pos, hx⟩

end Agreement

section Transport

variable {V : Type} (kernels : Kernels V) (nThreads batchSize : ℕ)

/-- A cast between rows of one format and one width copies them. -/
theorem cast_apply {node : NnNode} {source target : NnSource} {size : NnSize3D}
    (hsource : node.sourceSize source = some size) (htarget : node.sourceSize target = some size)
    (name : String) (layer : ℕ) (m : Memory V) {z y x : ℕ}
    (hmem : (⟨target, z, y, x⟩ : Cell) ∈ cells node batchSize (whole target)) :
    runOps node nThreads kernels batchSize [⟨.cast, name, layer, pointerBatchConfig source,
      pointerBatchConfig target, size0, .empty⟩] m ⟨target, z, y, x⟩ = m ⟨source, z, y, x⟩ := by
  have hread : (⟨source, z, y, x⟩ : Cell) ∈ cells node batchSize (whole source) := by
    obtain ⟨_, hsize, hrow, _⟩ := hmem
    rw [htarget] at hsize
    exact ⟨Eq.refl _, hsource ▸ hsize, hrow, trivial, trivial⟩
  have hreads : (⟨source, z, y, x⟩ : Cell) ∈ (opAccess node nThreads batchSize
      ⟨.cast, name, layer, pointerBatchConfig source, pointerBatchConfig target, size0,
        .empty⟩).reads :=
    .inl ⟨whole source, by simp [opReads, configReads, pointerRegion, pointerBatchConfig], hread⟩
  have hwrites : (⟨target, z, y, x⟩ : Cell) ∈ (opAccess node nThreads batchSize
      ⟨.cast, name, layer, pointerBatchConfig source, pointerBatchConfig target, size0,
        .empty⟩).writes :=
    .inl ⟨whole target, by simp [opWrites, pointerRegion, pointerBatchConfig], hmem⟩
  have htype : sourceType node source = sourceType node target := by
    rw [sourceType, sourceType, hsource, htarget]
  rw [runOps, List.map_singleton, run_cons, run_nil, opAction_apply, if_pos hwrites, opValue,
    if_pos ⟨Eq.refl _, htype⟩]
  change (view node nThreads batchSize _ m ⟨source, z, y, 0 + (x - 0)⟩).getD _ = _
  rw [Nat.zero_add, Nat.sub_zero, view, if_pos hreads, Option.getD_some]

/-- Rows that go from one `X` to another stay as they are. -/
theorem writePipe_readPipe {width rows : ℕ} (m m' : Memory V) {y x : ℕ} (hy : y < rows)
    (hx : x < width) :
    writePipe .x width (readPipe .x width (width * rows) m) m' ⟨.pipe .x, 0, y, x⟩ =
      m ⟨.pipe .x, 0, y, x⟩ := by
  have hlt : y * width + x < width * rows := by
    calc y * width + x < y * width + width := Nat.add_lt_add_left hx _
      _ = (y + 1) * width := (Nat.succ_mul _ _).symm
      _ ≤ rows * width := Nat.mul_le_mul_right width hy
      _ = width * rows := Nat.mul_comm _ _
  have hwidth : 0 < width := Nat.zero_lt_of_lt hx
  have hrow : (y * width + x) / width = y := by
    rw [Nat.mul_comm, Nat.mul_add_div hwidth, Nat.div_eq_of_lt hx, Nat.add_zero]
  have hcolumn : (y * width + x) % width = x := by
    rw [Nat.mul_comm, Nat.mul_add_mod, Nat.mod_eq_of_lt hx]
  simp [writePipe, readPipe, hx, hlt, pipeCell, hrow, hcolumn]

variable {b b' : NnNodeBuilder} {nBatches : ℕ}

theorem size_pipeX (b : NnNodeBuilder) (nBatches : ℕ) :
    (builtNode b nBatches false).sourceSize (.pipe .x) =
      some (size2D .f32 nBatches b.n.header.dim) := Eq.refl _

/-- A value of the residual rows or of `X`. -/
theorem row_mem {source : NnSource} {y x : ℕ} (hsize : (builtNode b nBatches false).sourceSize source =
    some (size2D .f32 nBatches b.n.header.dim)) (hy : y < batchSize) (hx : x < b.n.header.dim) :
    (⟨source, 0, y, x⟩ : Cell) ∈ cells (builtNode b nBatches false) batchSize (whole source) :=
  ⟨Eq.refl _, ⟨_, hsize, Nat.one_pos, hx⟩, hy, trivial, trivial⟩

/-- The bridge leaves in `X` what the merge left in the residual rows. -/
theorem bridge_apply (m : Memory V) {y x : ℕ} (hy : y < batchSize) (hx : x < b.n.header.dim) :
    runOps (builtNode b nBatches false) nThreads kernels batchSize NnNodeBuilder.bridge.ops m
      ⟨.pipe .x, 0, y, x⟩ =
    runOps (builtNode b nBatches false) nThreads kernels batchSize
      [mergeEntry "stage_bridge_merge_add" 0] m ⟨.buffer .x, 0, y, x⟩ := by
  have hops : NnNodeBuilder.bridge.ops = [mergeEntry "stage_bridge_merge_add" 0] ++ [castExit] :=
    Eq.refl _
  rw [hops, runOps_append]
  exact cast_apply kernels nThreads batchSize size_x (size_pipeX b nBatches) _ _ _
    (row_mem batchSize (size_pipeX b nBatches) hy hx)

/-- A cast into the residual rows leaves everything else. -/
theorem castEntry_kept (b : NnNodeBuilder) (nBatches layer : ℕ) {c : Cell}
    (hc : c.source ≠ .buffer .x) (m : Memory V) :
    runOps (builtNode b nBatches false) nThreads kernels batchSize [castEntry layer] m c = m c := by
  refine runOps_of_source _ _ _ _ ?_ hc m
  intro op hop
  rw [List.mem_singleton.mp hop]
  simp [castEntry, opWrites, pointerRegion, pointerBatchConfig, cacheWrites, whole]

/-- The first layer of a stage starts with the rows of the stage before. -/
theorem agree_entry (h : SameParts b b') {first last layer : ℕ} {m m' : Memory V}
    (hpos : ∀ c : Cell, c.source = .pipe .pos → c.z = 0 → c.y < batchSize → c.x < 1 → m c = m' c)
    (hrows : ∀ y < batchSize, ∀ x < b.n.header.dim,
      m ⟨.buffer .x, 0, y, x⟩ = m' ⟨.pipe .x, 0, y, x⟩)
    (hcaches : Set.EqOn m m' (ownCaches first last)) :
    AgreeBefore b nBatches batchSize first last m
      (runOps (builtNode b' nBatches false) nThreads kernels batchSize [castEntry layer] m') := by
  have hkept {c : Cell} (hc : c.source ≠ .buffer .x) :=
    castEntry_kept kernels nThreads batchSize b' nBatches layer hc m'
  intro c hc
  cases hc with
  | inl hrow =>
    obtain ⟨r, hr, hsource, hsize, hy, _⟩ := hrow
    simp only [List.mem_cons, List.not_mem_nil, or_false] at hr
    cases hr with
    | inl hp =>
      rw [hp] at hsource
      have hsource' : c.source = .pipe .pos := hsource
      obtain ⟨size, hsome, hz, hx⟩ := hsize
      rw [hsource'] at hsome
      rw [hkept (by rw [hsource']; simp)]
      cases hsome
      exact hpos c hsource' (Nat.lt_one_iff.mp hz) hy hx
    | inr hp =>
      rw [hp] at hsource
      have hsource' : c.source = .buffer .x := hsource
      obtain ⟨size, hsome, hz, hx⟩ := hsize
      rw [hsource', size_x] at hsome
      cases hsome
      have hzero : c.z = 0 := Nat.lt_one_iff.mp hz
      have hcell : c = ⟨.buffer .x, 0, c.y, c.x⟩ := by
        rw [← hsource', ← hzero]
      have hdim : c.x < b'.n.header.dim := by
        rw [← h.shape]
        exact hx
      rw [hcell, hrows c.y hy c.x hx]
      exact (cast_apply kernels nThreads batchSize (size_pipeX b' nBatches) size_x _ _ _
        (row_mem batchSize size_x hy hdim)).symm
  | inr hcache =>
    have hsame := hcaches hcache
    obtain ⟨layer', _, _, hof⟩ := hcache
    have hne : c.source ≠ .buffer .x := by
      intro heq
      simp [IsCacheOf, heq] at hof
    rw [hkept hne]
    exact hsame

end Transport

end LayerSkip.StageHandOver
