import LayerSkip.StageHandOver

/-!
# The forward of a stage next to the forward of one node

The layers of a model go to stages in order. The rows that a stage starts with are those that the
one node has at this layer, when the stage before hands over what its bridge leaves, and after the
forwards every stage has the caches that the one node has for its layers.
-/

namespace LayerSkip.StageForward

open NnTopology NnPipeline NnCore NnCpu LlmGraph Dataflow RegionFlow ForwardReads ForwardTriples
open ForwardFreshness StageExecutor StageSimulation StageHandOver
open DevicePlacement (NnNode)

section Start

variable {V : Type} {kernels : Kernels V} {nThreads nThreads' batchSize nBatches : ℕ}
  {b b' : NnNodeBuilder} {m m' : Memory V}

/-- The operation that embeds the tokens. -/
def embedding (n : LlmShape) : NnOpConfig :=
  ⟨.embedding, "embedding", 0, pointerBatchConfig (.pipe .tok), pointerBatchConfig (.pipe .x),
    n.tokenEmbeddingSize, .empty⟩

theorem start_ops_root (h : IsRoot b) : b.start.ops = [embedding b.n] := if_pos h

theorem start_ops_worker (h : b.nodePlacement.globalRank ≠ 0) : b.start.ops = [] :=
  if_neg fun hroot => h hroot.2

/-- The start segment leaves everything but `X`. -/
theorem start_kept (node : NnNode) {c : Cell} (hc : c.source ≠ .pipe .x) :
    runOps node nThreads kernels batchSize b.start.ops m c = m c := by
  refine runOps_of_source _ _ _ _ ?_ hc m
  intro op hop
  by_cases h : IsRoot b
  · rw [start_ops_root h] at hop
    rw [List.mem_singleton.mp hop]
    simp [embedding, opWrites, pointerRegion, pointerBatchConfig, cacheWrites, whole]
  · have hnone : b.start.ops = [] := if_neg h
    rw [hnone] at hop
    exact absurd hop List.not_mem_nil

/-- The tokens of the batch are all that an embedding reads. -/
theorem embedding_reads (node : NnNode) (n : LlmShape) (c : Cell) :
    c ∈ (opAccess node nThreads batchSize (embedding n)).reads ↔
      c ∈ cells node batchSize (whole (.pipe .tok)) := by
  simp [opAccess, embedding, opReads, configReads, cacheReads, pointerRegion, pointerBatchConfig,
    cellsOf]

/-- Roots embed the same tokens into the same rows. -/
theorem start_agrees (h : SameParts b b') (hroot : IsRoot b) (hroot' : IsRoot b')
    (htok : ∀ c : Cell, c.source = .pipe .tok → c.z = 0 → c.y < batchSize → c.x < 1 → m c = m' c)
    {y x : ℕ} (hy : y < batchSize) (hx : x < b.n.header.dim) :
    runOps (builtNode b nBatches false) nThreads kernels batchSize b.start.ops m
        ⟨.pipe .x, 0, y, x⟩ =
      runOps (builtNode b' nBatches false) nThreads' kernels batchSize b'.start.ops m'
        ⟨.pipe .x, 0, y, x⟩ := by
  have hdim : x < b'.n.header.dim := by
    rw [← h.shape]
    exact hx
  have hread : view (builtNode b nBatches false) nThreads batchSize (embedding b.n) m =
      view (builtNode b' nBatches false) nThreads' batchSize (embedding b.n) m' := by
    funext c
    have htokens : c ∈ cells (builtNode b nBatches false) batchSize (whole (.pipe .tok)) ↔
        c ∈ cells (builtNode b' nBatches false) batchSize (whole (.pipe .tok)) := by
      rw [cells_congr batchSize (sameRows nBatches h)
        (fun layer hcache => by simp [IsCacheOf, whole] at hcache)]
    by_cases hc : c ∈ cells (builtNode b nBatches false) batchSize (whole (.pipe .tok))
    · rw [view, view, if_pos ((embedding_reads _ _ _).mpr hc),
        if_pos ((embedding_reads _ _ _).mpr (htokens.mp hc))]
      obtain ⟨hsource, hsize, hrow, _⟩ := hc
      have hsource' : c.source = .pipe .tok := hsource
      obtain ⟨size, hsome, hz, hcolumn⟩ := hsize
      rw [hsource'] at hsome
      cases hsome
      rw [htok c hsource' (Nat.lt_one_iff.mp hz) hrow hcolumn]
    · rw [view, view, if_neg fun hin => hc ((embedding_reads _ _ _).mp hin),
        if_neg fun hin => hc (htokens.mpr ((embedding_reads _ _ _).mp hin))]
  have hwrites (node : NnNode) (threads : ℕ) (c : Cell)
      (hc : c ∈ cells node batchSize (whole (.pipe .x))) :
      c ∈ (opAccess node threads batchSize (embedding b.n)).writes :=
    .inl ⟨whole (.pipe .x), by simp [embedding, opWrites, pointerRegion, pointerBatchConfig], hc⟩
  have hcast : ¬((embedding b.n).code = .cast ∧
      sourceType (builtNode b nBatches false) (embedding b.n).input.source =
        sourceType (builtNode b nBatches false) (embedding b.n).output.source) := by
    intro hc
    cases hc.1
  have hcast' : ¬((embedding b.n).code = .cast ∧
      sourceType (builtNode b' nBatches false) (embedding b.n).input.source =
        sourceType (builtNode b' nBatches false) (embedding b.n).output.source) := by
    intro hc
    cases hc.1
  rw [start_ops_root hroot, start_ops_root hroot', ← h.shape, runOps, runOps, List.map_singleton,
    List.map_singleton, run_cons, run_cons, run_nil, run_nil, opAction_apply, opAction_apply,
    if_pos (hwrites _ _ _ (row_mem batchSize (size_pipeX b nBatches) hy hx)),
    if_pos (hwrites _ _ _ (row_mem batchSize (size_pipeX b' nBatches) hy hdim)), opValue, opValue,
    if_neg hcast, if_neg hcast', hread]

end Start

/-- The layers of one node and of the stages of a pipeline. -/
structure Split (b : NnNodeBuilder) (stages : ℕ → NnNodeBuilder) (offsets : ℕ → ℕ) (ppSize : ℕ) :
    Prop where
  /-- There is a stage. -/
  pos : 0 < ppSize
  /-- The first layer. -/
  first : offsets 0 = 0
  /-- Every stage has a layer. -/
  grows : ∀ i < ppSize, offsets i < offsets (i + 1)
  /-- The one node is a root. -/
  root : IsRoot b
  /-- It is the only stage. -/
  alone : b.topology.ppSize = 1
  /-- It has all layers. -/
  start : b.layerStart = 0
  /-- It has all layers. -/
  finish : b.layerEnd = offsets ppSize
  /-- Same model. -/
  parts : ∀ i < ppSize, SameParts b (stages i)
  /-- Layers of a stage. -/
  stageStart : ∀ i < ppSize, (stages i).layerStart = offsets i
  /-- Layers of a stage. -/
  stageEnd : ∀ i < ppSize, (stages i).layerEnd = offsets (i + 1)
  /-- Rank of a stage. -/
  rank : ∀ i < ppSize, (stages i).nodePlacement.ppRank = i ∧ (stages i).nodePlacement.globalRank = i
  /-- Number of stages. -/
  size : ∀ i < ppSize, (stages i).topology.ppSize = ppSize

section Forward

variable {V : Type} (kernels : Kernels V) (b : NnNodeBuilder) (stages : ℕ → NnNodeBuilder)
  (offsets : ℕ → ℕ) (nBatches nThreads : ℕ) (threads : ℕ → ℕ) (batchSize : ℕ) {ppSize : ℕ}

/-- Memory of the one node when the rows of the first layer of a stage are in. -/
def entered (m : Memory V) : ℕ → Memory V
  | 0 => runOps (builtNode b nBatches false) nThreads kernels batchSize [castEntry 0]
      (runOps (builtNode b nBatches false) nThreads kernels batchSize b.start.ops m)
  | i + 1 => runOps (builtNode b nBatches false) nThreads kernels batchSize
      [mergeEntry "block_merge_add" (offsets (i + 1))]
      (runOps (builtNode b nBatches false) nThreads kernels batchSize
        (body b (offsets i) (offsets (i + 1))) (entered m i))

/-- Memory of the one node after the layers of a stage. -/
def layersDone (m : Memory V) (i : ℕ) : Memory V :=
  runOps (builtNode b nBatches false) nThreads kernels batchSize
    (body b (offsets i) (offsets (i + 1)))
    (entered kernels b offsets nBatches nThreads batchSize m i)

/-- Memory of a stage when the rows of its first layer are in. -/
def stageEntered (m : Memory V) (i : ℕ) : Memory V :=
  runOps (builtNode (stages i) nBatches false) (threads i) kernels batchSize [castEntry (offsets i)]
    (runOps (builtNode (stages i) nBatches false) (threads i) kernels batchSize (stages i).start.ops m)

/-- Memory of a stage after its layers. -/
def stageDone (m : Memory V) (i : ℕ) : Memory V :=
  runOps (builtNode (stages i) nBatches false) (threads i) kernels batchSize
    (body (stages i) (offsets i) (offsets (i + 1)))
    (stageEntered kernels stages offsets nBatches threads batchSize m i)

variable {kernels b stages offsets nBatches nThreads threads batchSize}

theorem Split.mono (h : Split b stages offsets ppSize) {i j : ℕ} (hij : i < j) (hj : j ≤ ppSize) :
    offsets i < offsets j := by
  induction j with
  | zero => exact absurd hij (Nat.not_lt_zero i)
  | succ j ih =>
    have hstep := h.grows j hj
    by_cases heq : i = j
    · rw [heq]
      exact hstep
    · exact (ih (by omega) (by omega)).trans hstep

theorem opsOf_merge (name : String) (index layer : ℕ) : OpsOf {layer} [mergeEntry name index] := by
  intro op hop
  rw [List.mem_singleton.mp hop]
  exact ⟨layer, Set.mem_singleton layer, opOf_mergeAdd layer _ _⟩

/-- Positions and caches of later layers are as they were. -/
theorem entered_kept (h : Split b stages offsets ppSize) (m : Memory V) {i : ℕ} (hi : i < ppSize)
    {c : Cell} (hc : Kept {layer | layer < offsets i} c) :
    entered kernels b offsets nBatches nThreads batchSize m i c = m c := by
  induction i with
  | zero =>
    have hplace : c.source ≠ .buffer .x ∧ c.source ≠ .pipe .x := by
      cases hc with
      | inl hpos =>
        rw [hpos]
        simp
      | inr hcache =>
        obtain ⟨layer, _, hof⟩ := hcache
        cases hof with
        | inl hk =>
          rw [hk]
          simp
        | inr hv =>
          rw [hv]
          simp
    rw [entered, castEntry_kept kernels nThreads batchSize b nBatches 0 hplace.1,
      start_kept _ hplace.2]
  | succ i ih =>
    have hlt := h.grows i (by omega)
    have hbefore : Kept {layer | layer < offsets i} c := by
      cases hc with
      | inl hpos => exact .inl hpos
      | inr hcache =>
        obtain ⟨layer, hlayer, hof⟩ := hcache
        exact .inr ⟨layer, fun hin => hlayer (hin.trans hlt), hof⟩
    have hbody : Kept {layer | offsets i ≤ layer ∧ layer < offsets (i + 1)} c := by
      cases hc with
      | inl hpos => exact .inl hpos
      | inr hcache =>
        obtain ⟨layer, hlayer, hof⟩ := hcache
        exact .inr ⟨layer, fun hin => hlayer hin.2, hof⟩
    have hmerge : Kept {offsets i} c := by
      cases hc with
      | inl hpos => exact .inl hpos
      | inr hcache =>
        obtain ⟨layer, hlayer, hof⟩ := hcache
        refine .inr ⟨layer, fun hin => hlayer ?_, hof⟩
        rw [Set.mem_singleton_iff.mp hin]
        exact hlt
    rw [entered, runOps_of_kept _ _ _ _ (opsOf_merge _ _ (offsets i)) hmerge,
      runOps_of_kept _ _ _ _ (opsOf_body hlt) hbody, ih (by omega) hbefore]

/-- The layers from a stage on. -/
theorem body_entered (h : Split b stages offsets ppSize) (m : Memory V) {i : ℕ} (hi : i < ppSize) :
    runOps (builtNode b nBatches false) nThreads kernels batchSize (body b 0 (offsets ppSize))
        (entered kernels b offsets nBatches nThreads batchSize m 0) =
      runOps (builtNode b nBatches false) nThreads kernels batchSize
        (body b (offsets i) (offsets ppSize))
        (entered kernels b offsets nBatches nThreads batchSize m i) := by
  induction i with
  | zero => rw [h.first]
  | succ i ih =>
    have hsplit := body_split (b := b) (h.grows i (by omega)) (h.mono hi (le_refl _))
    rw [ih (by omega), hsplit, runOps_append, ← List.singleton_append, runOps_append]
    exact Eq.refl _

/-- All operations of a stage. -/
theorem stage_forward (h : Split b stages offsets ppSize) (m : Memory V) {i : ℕ} (hi : i < ppSize) :
    runOps (builtNode (stages i) nBatches false) (threads i) kernels batchSize
        (((stages i).segments false).flatMap NnSegmentConfig.ops) m =
      runOps (builtNode (stages i) nBatches false) (threads i) kernels batchSize
        (if i + 1 < ppSize then NnNodeBuilder.bridge.ops else ((stages i).finalSegment false).ops)
        (stageDone kernels stages offsets nBatches threads batchSize m i) := by
  have hlayers : (stages i).layerStart < (stages i).layerEnd := by
    rw [h.stageStart i hi, h.stageEnd i hi]
    exact h.grows i hi
  have htail : ((if (stages i).nodePlacement.ppRank < (stages i).topology.ppSize - 1 then
      NnNodeBuilder.bridge.ops else []) ++
        if (stages i).nodePlacement.ppRank = (stages i).topology.ppSize - 1 then
          ((stages i).finalSegment false).ops else []) =
      if i + 1 < ppSize then NnNodeBuilder.bridge.ops else ((stages i).finalSegment false).ops := by
    rw [(h.rank i hi).1, h.size i hi]
    by_cases hnext : i + 1 < ppSize
    · rw [if_pos (by omega), if_neg (by omega), if_pos hnext, List.append_nil]
    · rw [if_neg (by omega), if_pos (by omega), if_neg hnext, List.nil_append]
  rw [ops_eq hlayers, htail, h.stageStart i hi, h.stageEnd i hi, runOps_append, List.cons_append,
    ← List.singleton_append, runOps_append, runOps_append]
  exact Eq.refl _

/-- All operations of the one node. -/
theorem node_forward (h : Split b stages offsets ppSize) (m : Memory V) :
    runOps (builtNode b nBatches false) nThreads kernels batchSize
        ((b.segments false).flatMap NnSegmentConfig.ops) m =
      runOps (builtNode b nBatches false) nThreads kernels batchSize (b.finalSegment false).ops
        (layersDone kernels b offsets nBatches nThreads batchSize m (ppSize - 1)) := by
  have hpos := h.pos
  have hlayers : b.layerStart < b.layerEnd := by
    have hall := h.mono hpos (le_refl _)
    rw [h.first] at hall
    rw [h.start, h.finish]
    exact hall
  have hlast : ppSize - 1 + 1 = ppSize := Nat.sub_add_cancel hpos
  have htail : ((if b.nodePlacement.ppRank < b.topology.ppSize - 1 then
      NnNodeBuilder.bridge.ops else []) ++
        if b.nodePlacement.ppRank = b.topology.ppSize - 1 then (b.finalSegment false).ops else []) =
      (b.finalSegment false).ops := by
    rw [h.root.1, h.alone]
    exact Eq.refl _
  rw [ops_eq hlayers, htail, h.start, h.finish, runOps_append, List.cons_append,
    ← List.singleton_append, runOps_append, runOps_append]
  have hbody : runOps (builtNode b nBatches false) nThreads kernels batchSize
      (body b 0 (offsets ppSize)) (entered kernels b offsets nBatches nThreads batchSize m 0) =
        runOps (builtNode b nBatches false) nThreads kernels batchSize
          (body b (offsets (ppSize - 1)) (offsets ppSize))
          (entered kernels b offsets nBatches nThreads batchSize m (ppSize - 1)) :=
    body_entered h m (by omega)
  rw [layersDone, hlast, ← hbody]
  exact Eq.refl _

/-- What the stages of a pipeline start a forward with, next to the one node. -/
structure Fed (kernels : Kernels V) (b : NnNodeBuilder) (stages : ℕ → NnNodeBuilder)
    (offsets : ℕ → ℕ) (ppSize nBatches : ℕ) (threads : ℕ → ℕ) (batchSize : ℕ) (m : Memory V)
    (input : ℕ → Memory V) : Prop where
  /-- The root has the tokens. -/
  tokens : ∀ c : Cell, c.source = .pipe .tok → c.z = 0 → c.y < batchSize → c.x < 1 →
    m c = input 0 c
  /-- Every stage has the positions. -/
  positions : ∀ i < ppSize, ∀ c : Cell, c.source = .pipe .pos → c.z = 0 → c.y < batchSize →
    c.x < 1 → m c = input i c
  /-- A stage has the caches of its layers. -/
  caches : ∀ i < ppSize, Set.EqOn m (input i) (ownCaches (offsets i) (offsets (i + 1)))
  /-- A stage has the rows that the stage before leaves. -/
  rows : ∀ i, i + 1 < ppSize → ∀ y < batchSize, ∀ x < b.n.header.dim,
    input (i + 1) ⟨.pipe .x, 0, y, x⟩ =
      runOps (builtNode (stages i) nBatches false) (threads i) kernels batchSize
        (((stages i).segments false).flatMap NnSegmentConfig.ops) (input i) ⟨.pipe .x, 0, y, x⟩

section Agree

variable {m : Memory V} {input : ℕ → Memory V}
  (h : Split b stages offsets ppSize) (hs : Sized (builtNode b nBatches false) b)
  (hnThreads : 0 < nThreads) (hbatch : 0 < batchSize)
  (hfed : Fed kernels b stages offsets ppSize nBatches threads batchSize m input)

include h hfed

/-- Caches of the layers of a stage. -/
theorem entered_caches {i : ℕ} (hi : i < ppSize) :
    Set.EqOn (entered kernels b offsets nBatches nThreads batchSize m i) (input i)
      (ownCaches (offsets i) (offsets (i + 1))) := by
  intro c hc
  have hsame := hfed.caches i hi hc
  obtain ⟨layer, hle, _, hof⟩ := hc
  rw [entered_kept h m hi (.inr ⟨layer, fun hlt => absurd hlt (Nat.not_lt.mpr hle), hof⟩), hsame]

/-- The root has the rows of the one node when its first layer starts. -/
theorem agree_first : AgreeBefore b nBatches batchSize (offsets 0) (offsets 1)
    (entered kernels b offsets nBatches nThreads batchSize m 0)
    (stageEntered kernels stages offsets nBatches threads batchSize (input 0) 0) := by
  have hpos := h.pos
  have hroot : IsRoot (stages 0) := h.rank 0 hpos
  have hparts := h.parts 0 hpos
  apply agree_entry kernels (threads 0) batchSize hparts
  · intro c hsource hz hy hx
    rw [entered_kept h m hpos (.inl hsource), start_kept _ (by rw [hsource]; simp)]
    exact hfed.positions 0 hpos c hsource hz hy hx
  · intro y hy x hx
    have hstart : runOps (builtNode b nBatches false) nThreads kernels batchSize b.start.ops m
        ⟨.pipe .x, 0, y, x⟩ =
          runOps (builtNode (stages 0) nBatches false) (threads 0) kernels batchSize
            (stages 0).start.ops (input 0) ⟨.pipe .x, 0, y, x⟩ :=
      start_agrees hparts h.root hroot hfed.tokens hy hx
    rw [entered, ← hstart]
    exact cast_apply kernels nThreads batchSize (size_pipeX b nBatches) size_x _ _ _
      (row_mem batchSize size_x hy hx)
  · intro c hc
    have hsame : entered kernels b offsets nBatches nThreads batchSize m 0 c = input 0 c :=
      entered_caches h hfed hpos hc
    obtain ⟨layer, _, _, hof⟩ := hc
    have hne : c.source ≠ .pipe .x := by
      intro heq
      simp [IsCacheOf, heq] at hof
    rw [hsame, start_kept _ hne]

include hs hnThreads hbatch

/-- A stage has the rows of the one node when its first layer starts. -/
theorem agree_next {i : ℕ} (hi : i + 1 < ppSize)
    (hagree : AgreeBefore b nBatches batchSize (offsets i) (offsets (i + 1))
      (entered kernels b offsets nBatches nThreads batchSize m i)
      (stageEntered kernels stages offsets nBatches threads batchSize (input i) i)) :
    AgreeBefore b nBatches batchSize (offsets (i + 1)) (offsets (i + 2))
      (entered kernels b offsets nBatches nThreads batchSize m (i + 1))
      (stageEntered kernels stages offsets nBatches threads batchSize (input (i + 1)) (i + 1)) := by
  have hlt : i < ppSize := Nat.lt_of_succ_lt hi
  have hparts := h.parts i hlt
  have hdone : AgreeAfter b nBatches batchSize (offsets i) (offsets (i + 1))
      (layersDone kernels b offsets nBatches nThreads batchSize m i)
      (stageDone kernels stages offsets nBatches threads batchSize (input i) i) :=
    agree_body hparts hs hnThreads hbatch (h.grows i hlt) hagree
  have hmerge : Set.EqOn (entered kernels b offsets nBatches nThreads batchSize m (i + 1))
      (runOps (builtNode (stages i) nBatches false) (threads i) kernels batchSize
        [mergeEntry "stage_bridge_merge_add" 0]
        (stageDone kernels stages offsets nBatches threads batchSize (input i) i))
      (cellsOf (cells (builtNode b nBatches false) batchSize)
        [whole (.pipe .pos), whole (.buffer .x)]) :=
    agree_merge hparts hnThreads hbatch hdone "block_merge_add" "stage_bridge_merge_add" _ _
  have hnone : (stages (i + 1)).start.ops = [] := by
    apply start_ops_worker
    rw [(h.rank (i + 1) hi).2]
    exact Nat.succ_ne_zero i
  rw [stageEntered, hnone]
  apply agree_entry kernels (threads (i + 1)) batchSize (h.parts (i + 1) hi)
  · intro c hsource hz hy hx
    rw [entered_kept h m hi (.inl hsource)]
    exact hfed.positions (i + 1) hi c hsource hz hy hx
  · intro y hy x hx
    have hbridge := hfed.rows i hi y hy x hx
    have hdim : x < (stages i).n.header.dim := by
      rw [← hparts.shape]
      exact hx
    rw [stage_forward h (input i) hlt, if_pos hi, bridge_apply kernels (threads i) batchSize _ hy hdim]
      at hbridge
    change _ = input (i + 1) ⟨.pipe .x, 0, y, x⟩
    rw [hbridge]
    exact hmerge ⟨whole (.buffer .x), by simp, row_mem batchSize size_x hy hx⟩
  · exact entered_caches h hfed hi

/-- A stage has the rows of the one node when its layers are done. -/
theorem agree_done {i : ℕ} (hi : i < ppSize) :
    AgreeAfter b nBatches batchSize (offsets i) (offsets (i + 1))
      (layersDone kernels b offsets nBatches nThreads batchSize m i)
      (stageDone kernels stages offsets nBatches threads batchSize (input i) i) := by
  have hentered : AgreeBefore b nBatches batchSize (offsets i) (offsets (i + 1))
      (entered kernels b offsets nBatches nThreads batchSize m i)
      (stageEntered kernels stages offsets nBatches threads batchSize (input i) i) := by
    induction i with
    | zero => exact agree_first h hfed
    | succ i ih => exact agree_next h hs hnThreads hbatch hfed hi (ih (by omega))
  exact agree_body (h.parts i hi) hs hnThreads hbatch (h.grows i hi) hentered

/-- The last stage has the logits of the one node. -/
theorem same_logits :
    readPipe .lg b.n.header.vocabSize (b.n.header.vocabSize * batchSize)
      (runOps (builtNode b nBatches false) nThreads kernels batchSize
        ((b.segments false).flatMap NnSegmentConfig.ops) m) =
    readPipe .lg b.n.header.vocabSize (b.n.header.vocabSize * batchSize)
      (runOps (builtNode (stages (ppSize - 1)) nBatches false) (threads (ppSize - 1)) kernels batchSize
        (((stages (ppSize - 1)).segments false).flatMap NnSegmentConfig.ops)
        (input (ppSize - 1))) := by
  have hpos := h.pos
  have hlast : ppSize - 1 < ppSize := by
    omega
  rw [node_forward h, stage_forward h _ hlast, if_neg (by omega)]
  exact agree_logits (h.parts _ hlast) hnThreads hbatch (agree_done h hs hnThreads hbatch hfed hlast)

/-- A stage has the caches of the one node after a forward. -/
theorem same_caches {i : ℕ} (hi : i < ppSize) :
    Set.EqOn
      (runOps (builtNode b nBatches false) nThreads kernels batchSize
        ((b.segments false).flatMap NnSegmentConfig.ops) m)
      (runOps (builtNode (stages i) nBatches false) (threads i) kernels batchSize
        (((stages i).segments false).flatMap NnSegmentConfig.ops) (input i))
      (ownCaches (offsets i) (offsets (i + 1))) := by
  intro c hc
  have hdone := agree_done h hs hnThreads hbatch hfed hi (.inr hc)
  obtain ⟨layer, hle, hlt, hof⟩ := hc
  have hkept (layers : Set ℕ) (hout : layer ∉ layers) : Kept layers c := .inr ⟨layer, hout, hof⟩
  have hlater {j : ℕ} (hij : i ≤ j) (hj : j < ppSize) :
      layersDone kernels b offsets nBatches nThreads batchSize m j c =
        layersDone kernels b offsets nBatches nThreads batchSize m i c := by
    induction j with
    | zero => rw [Nat.le_zero.mp hij]
    | succ j ih =>
      by_cases heq : i = j + 1
      · rw [heq]
      · have hmono := h.mono (show i < j + 1 by omega) (Nat.le_of_lt hj)
        have hnext : offsets (i + 1) ≤ offsets (j + 1) := by
          by_cases hsame : i = j
          · rw [hsame]
          · exact Nat.le_of_lt (h.mono (by omega) (Nat.le_of_lt hj))
        have hbody := hkept {layer | offsets (j + 1) ≤ layer ∧ layer < offsets (j + 1 + 1)}
          (fun hin => absurd hin.1 (by omega))
        have hmerge := hkept {offsets (j + 1)} (fun hin => by
          have hlayer := Set.mem_singleton_iff.mp hin
          omega)
        rw [layersDone, runOps_of_kept _ _ _ _ (opsOf_body (h.grows (j + 1) hj)) hbody, entered,
          runOps_of_kept _ _ _ _ (opsOf_merge _ _ (offsets (j + 1))) hmerge]
        exact ih (by omega) (by omega)
  have hpos := h.pos
  have hfinal (b : NnNodeBuilder) : OpsOf {offsets (i + 1)} (b.finalSegment false).ops :=
    fun op hop => ⟨_, Set.mem_singleton _, opOf_finalSegment b _ op hop⟩
  have hbridge : OpsOf {offsets (i + 1)} NnNodeBuilder.bridge.ops :=
    fun op hop => ⟨_, Set.mem_singleton _, opOf_bridge _ op hop⟩
  have hother := hkept {offsets (i + 1)} (fun hin => by
    have hlayer := Set.mem_singleton_iff.mp hin
    omega)
  have hstage : runOps (builtNode (stages i) nBatches false) (threads i) kernels batchSize
      (((stages i).segments false).flatMap NnSegmentConfig.ops) (input i) c =
        stageDone kernels stages offsets nBatches threads batchSize (input i) i c := by
    rw [stage_forward h _ hi]
    split
    · exact runOps_of_kept _ _ _ _ hbridge hother _
    · exact runOps_of_kept _ _ _ _ (hfinal _) hother _
  rw [hstage, ← hdone, node_forward h, runOps_of_kept _ _ _ _ (hfinal b) hother]
  exact hlater (by omega) (by omega)

end Agree

end Forward

end LayerSkip.StageForward
