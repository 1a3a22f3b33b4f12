import LayerSkip.ForwardTriples
import LayerSkip.LaneLinks

/-!
# A forward reads nothing stale

What a forward reads was written in it, exactly when every stage has a layer and every node of the
first stage gets `X`. The root embeds the tokens; another node of the first stage gets the rows by
the sync with the root, which the graph has for a single stage only and which the synchronizer
leaves out for tensor groups of one node.
-/

namespace LayerSkip.ForwardFreshness

open NnTopology NnPipeline NnCore NnCpu LlmGraph RegionFlow RootBroadcast ForwardReads
open ForwardTriples LaneLinks
open DevicePlacement (NnNode)

section Start

variable (node : NnNode) (c : Cluster) (b : NnNodeBuilder)

/-- A node receives the rows of the root when it takes part in the sync and its index does not
arrive as that of the root. -/
theorem receives_iff (nodeIndex : ℕ) :
    Receives c nodeIndex ↔ c.skips nodeIndex = false ∧ nodeIndex % 256 ≠ 0 := by
  have hsilent (h : ∀ t b, ∀ ios, c.rowCall nodeIndex t b ≠ some (.readMany ios)) (b : ℕ) :
      c.rowReads nodeIndex b = [] := by
    rw [Cluster.rowReads, List.flatMap_eq_nil_iff]
    intro t _
    split
    · rename_i ios hcall
      exact absurd hcall (h t b ios)
    · exact Eq.refl _
  cases hskips : c.skips nodeIndex with
  | true =>
    have hnone : ∀ t b, ∀ ios, c.rowCall nodeIndex t b ≠ some (.readMany ios) := by
      intro t b ios hcall
      rw [Cluster.rowCall, hskips] at hcall
      cases hcall
    constructor
    · intro h
      exact absurd (hsilent hnone 0) (h 0 c.batchSize_pos)
    · intro h
      cases h.1
  | false =>
    by_cases hwrap : nodeIndex % 256 = 0
    · have hwrites : ∀ t b, ∀ ios, c.rowCall nodeIndex t b ≠ some (.readMany ios) := by
        intro t b ios hcall
        rw [rowCall_wrapped hskips hwrap] at hcall
        split at hcall <;> cases hcall
      constructor
      · intro h
        exact absurd (hsilent hwrites 0) (h 0 c.batchSize_pos)
      · intro h
        exact absurd hwrap h.2
    · have hbyte : UInt8.ofNat nodeIndex ≠ 0 := fun h => hwrap ((ofNat_eq_zero_iff nodeIndex).mp h)
      have hfirst (b : ℕ) : c.rowCall nodeIndex 0 b = some (.readMany [c.rowEntry b 0]) := by
        rw [Cluster.rowCall, syncWithRoot, hskips, if_neg (by decide), if_neg hbyte,
          if_neg (not_not_intro (Eq.refl 0))]
        exact Eq.refl _
      constructor
      · intro _
        exact ⟨Eq.refl _, hwrap⟩
      · intro _ b _ hnil
        rw [Cluster.rowReads, List.flatMap_eq_nil_iff] at hnil
        have hthread := hnil 0 (List.mem_range.mpr (c.nThreads_pos nodeIndex))
        rw [hfirst] at hthread
        cases hthread

theorem not_receives_root : ¬Receives c 0 := by
  intro h
  exact ((receives_iff c 0).mp h).2 (Eq.refl _)

/-- The node is the root, which embeds the tokens. -/
def IsRoot : Prop := b.nodePlacement.ppRank = 0 ∧ b.nodePlacement.globalRank = 0

/-- The node gets the rows of the root by the sync of the start segment. -/
def GetsRows : Prop := b.nodePlacement.ppRank = 0 ∧ b.topology.ppSize = 1 ∧ 0 < c.nSockets ∧
  Receives c b.nodePlacement.globalRank

instance : Decidable (IsRoot b) := inferInstanceAs (Decidable (_ ∧ _))

/-- The step of the embedding. -/
def embeddingStep : NnExecutorStep :=
  .executeOp ⟨.embedding, "embedding", 0, pointerBatchConfig (.pipe .tok),
    pointerBatchConfig (.pipe .x), b.n.tokenEmbeddingSize, .empty⟩

/-- Steps of the start segment. -/
theorem segmentSteps_start : segmentSteps (c.nSockets + 1) b.start =
    (if IsRoot b then [embeddingStep b] else []) ++
      if b.nodePlacement.ppRank = 0 ∧ b.topology.ppSize = 1 ∧ 0 < c.nSockets then
        [.syncNodes [.withRoot .x]] else [] := by
  have hops : b.start.ops.map NnExecutorStep.executeOp =
      if IsRoot b then [embeddingStep b] else [] := by
    by_cases hroot : b.nodePlacement.ppRank = 0 ∧ b.nodePlacement.globalRank = 0
    · rw [NnNodeBuilder.start, if_pos hroot, if_pos (show IsRoot b from hroot)]
      exact Eq.refl _
    · rw [NnNodeBuilder.start, if_neg hroot, if_neg (show ¬IsRoot b from hroot)]
      exact Eq.refl _
  have hsyncs : b.start.syncs =
      if b.nodePlacement.ppRank = 0 ∧ b.topology.ppSize = 1 then [.withRoot .x] else [] := Eq.refl _
  rw [segmentSteps, hops, hsyncs]
  congr 1
  by_cases hsync : b.nodePlacement.ppRank = 0 ∧ b.topology.ppSize = 1
  · rw [if_pos hsync]
    by_cases hsockets : 0 < c.nSockets
    · rw [if_pos ⟨Nat.succ_lt_succ hsockets, Nat.one_pos⟩, if_pos ⟨hsync.1, hsync.2, hsockets⟩]
    · rw [if_neg fun h => hsockets (Nat.lt_of_succ_lt_succ h.1), if_neg fun h => hsockets h.2.2]
  · rw [if_neg hsync, if_neg fun h => Nat.lt_irrefl 0 h.2, if_neg fun h => hsync ⟨h.1, h.2.1⟩]

/-- The start segment reads the tokens, on the root only. -/
theorem triple_start (hnode : node.config.placement = b.nodePlacement) :
    Triple (given node) (segmentUses node c b.start) [] := by
  rw [segmentUses, segmentSteps_start, List.map_append]
  have hsync (us : List NnExecutorStep) (hus : us ⊆ [.syncNodes [.withRoot .x]]) :
      Triple (given node) (us.map (stepUse c node)) (given node) := by
    apply triple_of_reads_nil
    intro u hu
    obtain ⟨step, hstep, hstepUse⟩ := List.mem_map.mp hu
    rw [← hstepUse, List.mem_singleton.mp (hus hstep)]
    exact Eq.refl _
  have hembedding : Triple (given node)
      ((if IsRoot b then [embeddingStep b] else []).map (stepUse c node)) (given node) := by
    split
    · rename_i hroot
      have htok : whole (.pipe .tok) ∈ given node := by
        simp [given, hnode, hroot.2]
      have hstep : Triple [whole (.pipe .tok)] [stepUse c node (embeddingStep b)] [] := by
        rw [triple_iff]
        simp [embeddingStep, stepUse, opReads, opWrites, configReads, pointerRegion,
          pointerBatchConfig, Checks, after, whole]
      have hsubset : [whole (.pipe .tok)] ⊆ given node :=
        List.cons_subset.mpr ⟨htok, List.nil_subset _⟩
      have hkeep := (hstep.weaken hsubset fun _ h => h).keep
      rw [List.append_nil] at hkeep
      exact hkeep
    · exact Triple.nil (given node)
  refine (hembedding.append (hsync _ ?_)).weaken (fun _ h => h) (List.nil_subset _)
  split
  · exact fun _ h => h
  · exact List.nil_subset _

/-- `X` is known after the start segment on the root, on a node that gets the rows of the root and
on every node of a later stage. -/
theorem triple_start_x (hnode : node.config.placement = b.nodePlacement)
    (hx : IsRoot b ∨ GetsRows c b ∨ 0 < b.nodePlacement.ppRank) :
    Triple (given node) (segmentUses node c b.start) [whole (.pipe .x)] := by
  intro known hknown
  obtain ⟨hchecks, _⟩ := triple_start node c b hnode known hknown
  refine ⟨hchecks, ?_⟩
  intro r hr
  rw [List.mem_singleton.mp hr]
  have hwritten (u : Use Region) (hu : u ∈ segmentUses node c b.start)
      (hwrites : whole (.pipe .x) ∈ u.writes) :
      Covered (after known (segmentUses node c b.start)) (whole (.pipe .x)) := by
    obtain ⟨before, rest, heq⟩ := List.append_of_mem hu
    rw [heq, after_append]
    have hnow : Covered (u.writes ++ after known before) (whole (.pipe .x)) :=
      covered_of_mem (List.mem_append_left _ hwrites)
    exact hnow.after rest
  rcases hx with hroot | hgets | hlater
  · apply hwritten (stepUse c node (embeddingStep b))
    · rw [segmentUses, segmentSteps_start, if_pos hroot]
      simp
    · simp [embeddingStep, stepUse, opWrites, pointerRegion, pointerBatchConfig]
  · obtain ⟨hstage, hsize, hsockets, hreceives⟩ := hgets
    have hsync : b.nodePlacement.ppRank = 0 ∧ b.topology.ppSize = 1 ∧ 0 < c.nSockets :=
      ⟨hstage, hsize, hsockets⟩
    apply hwritten (stepUse c node (.syncNodes [.withRoot .x]))
    · rw [segmentUses, segmentSteps_start, if_pos hsync]
      simp
    · simp [stepUse, syncWrites, hnode, hreceives]
  · have hgiven : whole (.pipe .x) ∈ given node := by
      simp [given, hnode, hlater]
    exact (hknown _ hgiven).after _

/-- The start segment writes nothing but `X`, on nodes that get it. -/
theorem start_writes (hnode : node.config.placement = b.nodePlacement) {u : Use Region}
    (hu : u ∈ segmentUses node c b.start) {r : Region} (hr : r ∈ u.writes) :
    r.source = .pipe .x ∧ (IsRoot b ∨ GetsRows c b) := by
  rw [segmentUses, segmentSteps_start, List.map_append, List.mem_append] at hu
  rcases hu with hembedding | hsync
  · split at hembedding
    · rename_i hroot
      rw [List.map_singleton, List.mem_singleton] at hembedding
      rw [hembedding] at hr
      simp only [embeddingStep, stepUse, opWrites, pointerRegion, pointerBatchConfig,
        List.mem_singleton] at hr
      rw [hr]
      exact ⟨Eq.refl _, .inl hroot⟩
    · cases hembedding
  · split at hsync
    · rename_i hstage
      rw [List.map_singleton, List.mem_singleton] at hsync
      rw [hsync] at hr
      simp only [stepUse, syncWrites, List.flatMap_cons, List.flatMap_nil, List.append_nil,
        hnode] at hr
      split at hr
      · rename_i hreceives
        rw [List.mem_singleton.mp hr]
        exact ⟨Eq.refl _, .inr ⟨hstage.1, hstage.2.1, hstage.2.2, hreceives⟩⟩
      · cases hr
    · cases hsync

/-- The root has the embeddings after its start segment. -/
theorem startX_root {V : Type} {fusedLmHeadArgmax : Bool}
    (hplacement : node.config.placement = b.nodePlacement)
    (hsegments : node.config.segments = b.segments fusedLmHeadArgmax) (hroot : IsRoot b)
    (embedding root rows : ℕ → ℕ → V) {y : ℕ} (hy : y < c.batchSize) (x : ℕ) :
    startX c node embedding root rows y x = embedding y x := by
  have hsilent : ¬Receives c node.config.placement.globalRank := by
    rw [hplacement, hroot.2]
    exact not_receives_root c
  have hembedded : stepX c node embedding root rows (embeddingStep b) y x = embedding y x := by
    rw [embeddingStep, stepX, if_pos (Eq.refl _), if_pos hy]
  have hfirst : node.config.segments.take 1 = [b.start] := by
    rw [hsegments]
    exact Eq.refl _
  rw [startX, hfirst, List.flatMap_singleton, segmentSteps_start, if_pos hroot, List.foldl_append]
  split
  · rw [List.foldl_cons, List.foldl_nil, List.foldl_cons, List.foldl_nil, stepX,
      if_neg fun h => hsilent h.2, hembedded]
  · exact hembedded

/-- A node that gets the rows of the root has them after its start segment. -/
theorem startX_gets {V : Type} {fusedLmHeadArgmax : Bool}
    (hplacement : node.config.placement = b.nodePlacement)
    (hsegments : node.config.segments = b.segments fusedLmHeadArgmax) (hgets : GetsRows c b)
    (embedding root rows : ℕ → ℕ → V) {y : ℕ} (hy : y < c.batchSize) (x : ℕ) :
    startX c node embedding root rows y x = root y x := by
  obtain ⟨hstage, hsize, hsockets, hreceives⟩ := hgets
  have hsync : b.nodePlacement.ppRank = 0 ∧ b.topology.ppSize = 1 ∧ 0 < c.nSockets :=
    ⟨hstage, hsize, hsockets⟩
  have hother : ¬IsRoot b := by
    intro hroot
    rw [hroot.2] at hreceives
    exact not_receives_root c hreceives
  have hfirst : node.config.segments.take 1 = [b.start] := by
    rw [hsegments]
    exact Eq.refl _
  have hreceived : NnSyncConfig.withRoot .x ∈ [NnSyncConfig.withRoot .x] ∧
      Receives c node.config.placement.globalRank := by
    rw [hplacement]
    exact ⟨List.mem_singleton_self _, hreceives⟩
  rw [startX, hfirst, List.flatMap_singleton, segmentSteps_start, if_neg hother, if_pos hsync,
    List.nil_append, List.foldl_cons, List.foldl_nil, stepX, if_pos hreceived, if_pos hy]

end Start

section Defined

variable {nBatches : ℕ} {b : NnNodeBuilder} {fusedLmHeadArgmax : Bool} (c : Cluster)

/-- What a forward of a node reads was written in it. -/
def Defined (node : NnNode) : Prop :=
  Dataflow.DefinedBefore (cellsOf (cells node c.batchSize) (given node))
    ((forwardUses c node).map (access (cells node c.batchSize)))

/-- A node reads nothing stale when its stage has layers and it has `X`. -/
theorem defined_of_layers
    (hs : Sized (builtNode b nBatches fusedLmHeadArgmax) b) (hlt : b.layerStart < b.layerEnd)
    (hx : IsRoot b ∨ GetsRows c b ∨ 0 < b.nodePlacement.ppRank) :
    Defined c (builtNode b nBatches fusedLmHeadArgmax) := by
  have hpos : [whole (.pipe .pos), whole (.pipe .x)] ⊆
      given (builtNode b nBatches fusedLmHeadArgmax) ++ [whole (.pipe .x)] := by
    simp [given]
  have hstart := (triple_start_x (builtNode b nBatches fusedLmHeadArgmax) c b (Eq.refl _) hx).seq
    (triple_layers (builtNode b nBatches fusedLmHeadArgmax) c b hs hlt) hpos
  have hall := hstart.seq (triple_tail (builtNode b nBatches fusedLmHeadArgmax) c b
    fusedLmHeadArgmax) (by simp)
  rw [List.append_assoc, ← forwardUses_eq _ c b (Eq.refl _)] at hall
  exact definedBefore_of_checks (cells_mono _ _) (triple_iff.mp hall).1

/-- Rows without values need no write. -/
theorem defined_of_dim_zero (hdim : b.n.header.dim = 0)
    (hs : b.layerStart < b.layerEnd → Sized (builtNode b nBatches fusedLmHeadArgmax) b) :
    Defined c (builtNode b nBatches fusedLmHeadArgmax) := by
  have hempty (source : NnSource) (hsize :
      (builtNode b nBatches fusedLmHeadArgmax).sourceSize source =
        some (size2D .f32 nBatches b.n.header.dim)) (cell : Cell) :
      cell ∉ cells (builtNode b nBatches fusedLmHeadArgmax) c.batchSize (whole source) := by
    intro hcell
    obtain ⟨hsource, hin, _⟩ := hcell
    obtain ⟨size, hsome, _, hcolumn⟩ := hin
    rw [hsource] at hsome
    have hsame : size = size2D .f32 nBatches b.n.header.dim := by
      rw [whole, hsize] at hsome
      exact (Option.some.inj hsome).symm
    rw [hsame, hdim] at hcolumn
    exact absurd hcolumn (Nat.not_lt_zero _)
  have hnone : cellsOf (cells (builtNode b nBatches fusedLmHeadArgmax) c.batchSize)
      (given (builtNode b nBatches fusedLmHeadArgmax) ++ whole (.pipe .x) :: handOver) =
      cellsOf (cells (builtNode b nBatches fusedLmHeadArgmax) c.batchSize)
        (given (builtNode b nBatches fusedLmHeadArgmax)) := by
    rw [cellsOf_append, Set.union_eq_left]
    intro cell hcell
    obtain ⟨r, hr, hmem⟩ := hcell
    simp only [handOver, List.mem_cons, List.not_mem_nil, or_false] at hr
    rcases hr with hx | hx | hx
    · rw [hx] at hmem
      exact absurd hmem (hempty _ (Eq.refl _) cell)
    · rw [hx] at hmem
      exact absurd hmem (hempty _ size_x cell)
    · rw [hx] at hmem
      exact absurd hmem (hempty _ (Eq.refl _) cell)
  have hbody : Triple [whole (.pipe .pos), whole (.pipe .x), whole (.buffer .x), whole (.pipe .zq)]
      (b.layers.flatMap (layerUses (builtNode b nBatches fusedLmHeadArgmax) c b)) handOver := by
    by_cases hlt : b.layerStart < b.layerEnd
    · exact (triple_layers _ c b (hs hlt) hlt).weaken (by simp) fun _ h => h
    · have hcount : b.layerEnd - b.layerStart = 0 := Nat.sub_eq_zero_of_le (Nat.not_lt.mp hlt)
      rw [NnNodeBuilder.layers, hcount]
      exact (Triple.nil _).weaken (fun _ h => h) (by simp [handOver])
  have hstart := (triple_start (builtNode b nBatches fusedLmHeadArgmax) c b (Eq.refl _)).weaken
    (List.subset_append_left _ (whole (.pipe .x) :: handOver)) fun _ h => h
  have hlayers := hstart.seq hbody (by simp [given, handOver])
  have hall := hlayers.seq (triple_tail (builtNode b nBatches fusedLmHeadArgmax) c b
    fusedLmHeadArgmax) (by simp [handOver])
  rw [List.append_assoc, ← forwardUses_eq _ c b (Eq.refl _)] at hall
  have hdefined := definedBefore_of_checks
    (cells_mono (builtNode b nBatches fusedLmHeadArgmax) c.batchSize) (triple_iff.mp hall).1
  rw [hnone] at hdefined
  exact hdefined

/-- What is read is in a pipe or buffer that was given or written before. -/
theorem source_of_read {node : NnNode} {us vs : List (Use Region)} {u : Use Region} {r : Region}
    {cell : Cell} (hdefined : Defined c node) (heq : forwardUses c node = us ++ u :: vs)
    (hr : r ∈ u.reads) (hcell : cell ∈ cells node c.batchSize r) :
    (∃ w ∈ given node, cell.source = w.source) ∨
      ∃ v ∈ us, ∃ w ∈ v.writes, cell.source = w.source := by
  rw [Defined, heq, List.map_append, List.map_cons] at hdefined
  cases hdefined.reads_subset ⟨r, hr, hcell⟩ with
  | inl hgiven =>
    obtain ⟨w, hw, hmem⟩ := hgiven
    exact .inl ⟨w, hw, hmem.1⟩
  | inr hwritten =>
    obtain ⟨a, ha, hmem⟩ := hwritten
    obtain ⟨v, hv, hva⟩ := List.mem_map.mp ha
    rw [← hva] at hmem
    obtain ⟨w, hw, hcellw⟩ := hmem
    exact .inr ⟨v, hv, w, hw, hcellw.1⟩

/-- What is given is in pipes, and `X` is given in the later stages. -/
theorem source_of_given {node : NnNode} {w : Region} (hw : w ∈ given node) :
    ∃ pipe, w.source = .pipe pipe ∧ (pipe = .x → 0 < node.config.placement.ppRank) := by
  simp only [given, List.mem_append, List.mem_singleton] at hw
  rcases hw with (hw | hw) | hw
  · exact ⟨.pos, congrArg Region.source hw, fun hx => by cases hx⟩
  · split at hw
    · exact ⟨.tok, congrArg Region.source (List.mem_singleton.mp hw), fun hx => by cases hx⟩
    · cases hw
  · split at hw
    · rename_i hlater
      exact ⟨.x, congrArg Region.source (List.mem_singleton.mp hw), fun _ => hlater⟩
    · cases hw

/-- The first value of a row with values. -/
theorem first_mem {node : NnNode} {source : NnSource} {rows columns : ℕ}
    (hsize : node.sourceSize source = some (size2D .f32 rows columns)) (hcolumns : 0 < columns) :
    (⟨source, 0, 0, 0⟩ : Cell) ∈ cells node c.batchSize (whole source) :=
  ⟨Eq.refl _, ⟨_, hsize, Nat.one_pos, hcolumns⟩, c.batchSize_pos, trivial, trivial⟩

theorem segmentUses_cons (node : NnNode) {segment : NnSegmentConfig} {op : NnOpConfig}
    {ops : List NnOpConfig} (hops : segment.ops = op :: ops) :
    ∃ rest, segmentUses node c segment = stepUse c node (.executeOp op) :: rest := by
  obtain ⟨syncs, heq, _⟩ := segmentUses_eq node c segment
  rw [heq, hops]
  exact ⟨_, Eq.refl _⟩

/-- What follows the layers starts with a sum into the residual row. -/
theorem tailUses_cons (node : NnNode) (fused : Bool)
    (hpp : b.nodePlacement.ppRank < b.topology.ppSize) :
    ∃ u rest, tailUses node c b fused = u :: rest ∧ whole (.buffer .x) ∈ u.reads := by
  have hreads (name : String) : whole (.buffer .x) ∈ (stepUse c node (.executeOp
      ⟨.mergeAdd, name, 0, pointerBatchConfig (.pipe .zq), pointerBatchConfig (.buffer .x), size0,
        .empty⟩)).reads := by
    simp [stepUse, opReads, pointerRegion, pointerBatchConfig]
  by_cases hlast : b.nodePlacement.ppRank = b.topology.ppSize - 1
  · have hnot : ¬b.nodePlacement.ppRank < b.topology.ppSize - 1 := by
      omega
    obtain ⟨rest, hrest⟩ := segmentUses_cons c node
      (show (b.finalSegment fused).ops = _ :: _ from Eq.refl _)
    rw [tailUses, if_neg hnot, if_pos hlast, List.nil_append, hrest]
    exact ⟨_, rest, Eq.refl _, hreads _⟩
  · have hbefore : b.nodePlacement.ppRank < b.topology.ppSize - 1 := by
      omega
    obtain ⟨rest, hrest⟩ := segmentUses_cons c node
      (show NnNodeBuilder.bridge.ops = _ :: _ from Eq.refl _)
    rw [tailUses, if_pos hbefore, if_neg hlast, List.append_nil, hrest]
    exact ⟨_, rest, Eq.refl _, hreads _⟩

/-- A forward that reads nothing stale has layers. -/
theorem layers_of_defined (hdim : 0 < b.n.header.dim)
    (hpp : b.nodePlacement.ppRank < b.topology.ppSize)
    (hdefined : Defined c (builtNode b nBatches fusedLmHeadArgmax)) :
    b.layerStart < b.layerEnd := by
  by_contra hnot
  have hcount : b.layerEnd - b.layerStart = 0 := Nat.sub_eq_zero_of_le (Nat.not_lt.mp hnot)
  have heq := forwardUses_eq (builtNode b nBatches fusedLmHeadArgmax) c b (Eq.refl _)
  obtain ⟨u, rest, htail, hreads⟩ := tailUses_cons c
    (builtNode b nBatches fusedLmHeadArgmax) fusedLmHeadArgmax hpp
  rw [NnNodeBuilder.layers, hcount, htail] at heq
  rcases source_of_read c hdefined heq hreads (first_mem c size_x hdim) with hgiven | hwritten
  · obtain ⟨w, hw, hsource⟩ := hgiven
    obtain ⟨pipe, hpipe, _⟩ := source_of_given hw
    cases hsource.trans hpipe
  · obtain ⟨v, hv, w, hw, hsource⟩ := hwritten
    rw [(start_writes _ c b (Eq.refl _) hv hw).1] at hsource
    cases hsource

/-- A forward that reads nothing stale in a stage with layers has `X`. -/
theorem x_of_defined (hdim : 0 < b.n.header.dim) (hlt : b.layerStart < b.layerEnd)
    (hdefined : Defined c (builtNode b nBatches fusedLmHeadArgmax)) :
    IsRoot b ∨ GetsRows c b ∨ 0 < b.nodePlacement.ppRank := by
  have hcount : b.layerEnd - b.layerStart = b.layerEnd - b.layerStart - 1 + 1 := by
    omega
  have hentry : b.blockEntry b.layerStart = ⟨.cast, "block_cast_x", b.layerStart,
      pointerBatchConfig (.pipe .x), pointerBatchConfig (.buffer .x), size0, .empty⟩ :=
    if_pos (Eq.refl _)
  have heq := forwardUses_eq (builtNode b nBatches fusedLmHeadArgmax) c b (Eq.refl _)
  obtain ⟨rest, hrest⟩ := segmentUses_cons c (builtNode b nBatches fusedLmHeadArgmax)
    (show (b.att b.layerStart).ops = b.blockEntry b.layerStart :: _ from Eq.refl _)
  have hreads : whole (.pipe .x) ∈ (stepUse c (builtNode b nBatches fusedLmHeadArgmax)
      (.executeOp (b.blockEntry b.layerStart))).reads := by
    rw [hentry]
    simp [stepUse, opReads, pointerRegion, pointerBatchConfig]
  rw [NnNodeBuilder.layers, hcount, List.range'_succ, List.flatMap_cons, layerUses, hrest,
    List.cons_append, List.cons_append, List.cons_append] at heq
  rcases source_of_read c hdefined heq hreads (first_mem c (Eq.refl _) hdim) with hgiven | hwritten
  · obtain ⟨w, hw, hsource⟩ := hgiven
    obtain ⟨pipe, hpipe, hlater⟩ := source_of_given hw
    injection hsource.trans hpipe with hx
    exact .inr (.inr (hlater hx.symm))
  · obtain ⟨v, hv, w, hw, _⟩ := hwritten
    rcases (start_writes _ c b (Eq.refl _) hv hw).2 with hroot | hgets
    · exact .inl hroot
    · exact .inr (.inl hgets)

end Defined

section Stages

/-- Every stage gets a layer: there are as many layers as stages, or the given numbers of layers add
up without a wrap. -/
def StagesHaveLayers (nLayers ppSize : ℕ) : Option (List ℕ) → Prop
  | some (count :: counts) => (count :: counts).sum < 2 ^ 32
  | _ => ppSize ≤ nLayers

instance (nLayers ppSize : ℕ) (ppStageLayerCounts : Option (List ℕ)) :
    Decidable (StagesHaveLayers nLayers ppSize ppStageLayerCounts) := by
  cases ppStageLayerCounts with
  | none => exact inferInstanceAs (Decidable (ppSize ≤ nLayers))
  | some counts =>
    cases counts with
    | nil => exact inferInstanceAs (Decidable (ppSize ≤ nLayers))
    | cons count counts => exact inferInstanceAs (Decidable (_ < 2 ^ 32))

/-- Sums in words grow exactly when they do not wrap. -/
theorem scanl_grows_iff {counts : List ℕ} (hwords : ∀ count ∈ counts, count < 2 ^ 32)
    (hpos : ∀ count ∈ counts, count ≠ 0) {sum : ℕ} (hsum : sum < 2 ^ 32) :
    (∀ stage < counts.length,
      (counts.scanl (fun sum c => (sum + c) % 2 ^ 32) sum).getD stage 0 <
        (counts.scanl (fun sum c => (sum + c) % 2 ^ 32) sum).getD (stage + 1) 0) ↔
      sum + counts.sum < 2 ^ 32 := by
  induction counts generalizing sum with
  | nil => simpa using hsum
  | cons count counts ih =>
    have hfirst (a : ℕ) : (counts.scanl (fun sum c => (sum + c) % 2 ^ 32) a).getD 0 0 = a := by
      cases counts <;> simp
    have hword := hwords count List.mem_cons_self
    have hcount := hpos count List.mem_cons_self
    have hrest := ih (fun c hc => hwords c (List.mem_cons_of_mem _ hc))
      (fun c hc => hpos c (List.mem_cons_of_mem _ hc))
      (Nat.mod_lt (sum + count) (by decide : 0 < 2 ^ 32))
    rw [List.length_cons, Nat.forall_lt_succ_left, List.scanl_cons]
    simp only [List.getD_cons_succ, List.getD_cons_zero, hfirst, hrest, List.sum_cons]
    omega

/-- Stages have layers exactly when their first layers grow. -/
theorem stagesHaveLayers_iff {nLayers ppSize : ℕ} {ppStageLayerCounts : Option (List ℕ)}
    {layerOffsets : List ℕ} (hpp : 0 < ppSize)
    (hwords : ∀ counts ∈ ppStageLayerCounts, ∀ count ∈ counts, count < 2 ^ 32)
    (hoffsets : buildLayerStartOffsets nLayers ppSize ppStageLayerCounts = .ok layerOffsets) :
    (∀ stage < ppSize, layerOffsets.getD stage 0 < layerOffsets.getD (stage + 1) 0) ↔
      StagesHaveLayers nLayers ppSize ppStageLayerCounts := by
  have hequal (heq : (List.range ppSize).map (fun i => i * (nLayers / ppSize)) ++ [nLayers] =
      layerOffsets) :
      (∀ stage < ppSize, layerOffsets.getD stage 0 < layerOffsets.getD (stage + 1) 0) ↔
        ppSize ≤ nLayers := by
    have hstage {stage : ℕ} (h : stage < ppSize) :
        layerOffsets.getD stage 0 = stage * (nLayers / ppSize) := by
      rw [← heq, List.getD_eq_getElem?_getD, List.getElem?_append_left (by simpa using h)]
      simp [h]
    have hlast : layerOffsets.getD ppSize 0 = nLayers := by
      rw [← heq, List.getD_eq_getElem?_getD, List.getElem?_append_right (by simp)]
      simp
    constructor
    · intro h
      by_contra hfew
      have hzero : nLayers / ppSize = 0 := Nat.div_eq_of_lt (Nat.not_le.mp hfew)
      by_cases hone : ppSize = 1
      · have hgrows := h 0 hpp
        rw [hone] at hlast
        rw [hstage hpp, Nat.zero_add, hlast] at hgrows
        omega
      · have hgrows := h 0 hpp
        rw [hstage hpp, hstage (by omega), hzero] at hgrows
        omega
    · intro hle stage hlt
      have hper : 0 < nLayers / ppSize := Nat.div_pos hle hpp
      rw [hstage hlt]
      by_cases hnext : stage + 1 < ppSize
      · rw [hstage hnext]
        exact Nat.mul_lt_mul_of_pos_right (Nat.lt_succ_self stage) hper
      · have hend : stage + 1 = ppSize := by
          omega
        rw [hend, hlast]
        calc stage * (nLayers / ppSize)
            < ppSize * (nLayers / ppSize) := Nat.mul_lt_mul_of_pos_right hlt hper
          _ ≤ nLayers := Nat.mul_div_le nLayers ppSize
  cases ppStageLayerCounts with
  | none =>
    injection hoffsets with hoffsets
    exact hequal hoffsets
  | some counts =>
    cases counts with
    | nil =>
      injection hoffsets with hoffsets
      exact hequal hoffsets
    | cons count counts =>
      obtain ⟨u, hlength, hoffsets⟩ := bind_eq_ok hoffsets
      obtain ⟨v, hpos, hoffsets⟩ := bind_eq_ok hoffsets
      obtain ⟨w, _, hoffsets⟩ := bind_eq_ok hoffsets
      injection hoffsets with hoffsets
      have hgrows := scanl_grows_iff (hwords _ (Eq.refl _)) (require_eq_ok hpos)
        (by decide : 0 < 2 ^ 32)
      rw [require_eq_ok hlength, hoffsets, Nat.zero_add] at hgrows
      exact hgrows

end Stages

section Graph

variable {h : LlmHeader} {topology : NnParallelTopology} {nBatches : ℕ}
  {ppStageLayerCounts : Option (List ℕ)} {fusedLmHeadArgmax : Bool} {net : LlmNet}

/-- A node of a graph, with what it was built from. -/
structure BuiltNode (h : LlmHeader) (topology : NnParallelTopology) (nBatches : ℕ)
    (fusedLmHeadArgmax : Bool) (layerOffsets : List ℕ) (net : LlmNet) (nodeIndex : ℕ)
    (b : NnNodeBuilder) : Prop where
  /-- What it was built from. -/
  built : BuiltFrom net.shape topology layerOffsets nodeIndex b
  /-- Its configuration. -/
  config : net.nodeConfigs[nodeIndex]? =
    some ⟨b.nodePlacement, b.buffers nBatches, b.segments fusedLmHeadArgmax⟩
  /-- The header. -/
  header : b.n.header = h
  /-- Its index. -/
  globalRank : b.nodePlacement.globalRank = nodeIndex
  /-- Its stage. -/
  ppRank : b.nodePlacement.ppRank = nodeIndex / (topology.spSize * topology.tpSize)
  /-- The size of its tensor group. -/
  group : b.nodePlacement.tpGroupEnd - b.nodePlacement.tpGroupStart = topology.tpSize

theorem exists_builtNode {layerOffsets : List ℕ}
    (hshape : buildShape h topology.tpSize nBatches = .ok net.shape)
    (hnodes : ∀ nodeIndex < topology.nNodes, ∃ b,
      BuiltFrom net.shape topology layerOffsets nodeIndex b ∧
      net.nodeConfigs[nodeIndex]? =
        some ⟨b.nodePlacement, b.buffers nBatches, b.segments fusedLmHeadArgmax⟩)
    {nodeIndex : ℕ} (hlt : nodeIndex < topology.nNodes) :
    ∃ b, BuiltNode h topology nBatches fusedLmHeadArgmax layerOffsets net nodeIndex b := by
  obtain ⟨b, hbuilt, hconfig⟩ := hnodes nodeIndex hlt
  obtain ⟨_, hrank, hstage, hgroup⟩ := placement_ok hbuilt.placement_eq
  have hheader : b.n.header = h := by
    rw [hbuilt.shape_eq]
    exact (buildShape_ok hshape).1
  exact ⟨b, hbuilt, hconfig, hheader, hrank, hstage, hgroup⟩

theorem BuiltNode.node_eq {layerOffsets : List ℕ} {nodeIndex : ℕ} {b : NnNodeBuilder}
    (hb : BuiltNode h topology nBatches fusedLmHeadArgmax layerOffsets net nodeIndex b) :
    nodeOf h nBatches ⟨b.nodePlacement, b.buffers nBatches, b.segments fusedLmHeadArgmax⟩ =
      builtNode b nBatches fusedLmHeadArgmax := by
  rw [builtNode, hb.header]

/-- A node receives the rows of the root when its group has other members or its environment keeps
the sync, and its index does not arrive as that of the root. -/
theorem BuiltNode.receives_iff {layerOffsets : List ℕ} {nodeIndex : ℕ} {b : NnNodeBuilder}
    (hb : BuiltNode h topology nBatches fusedLmHeadArgmax layerOffsets net nodeIndex b)
    (launch : Launch) : Receives (launch.cluster net) nodeIndex ↔
      (1 < topology.tpSize ∨ launch.keepTp1Syncs nodeIndex = true) ∧ nodeIndex % 256 ≠ 0 := by
  have hdeclared : (if (launch.cluster net).tpGroupEnd nodeIndex >
      (launch.cluster net).tpGroupStart nodeIndex then (launch.cluster net).tpGroupEnd nodeIndex -
        (launch.cluster net).tpGroupStart nodeIndex else 0) = topology.tpSize := by
    have hgroup := hb.group
    simp only [Launch.cluster, hb.config, Option.map_some, Option.getD_some]
    split <;> omega
  have hskips : (launch.cluster net).skips nodeIndex = false ↔
      1 < topology.tpSize ∨ launch.keepTp1Syncs nodeIndex = true := by
    simp only [Cluster.skips, hdeclared]
    cases hkeep : launch.keepTp1Syncs nodeIndex with
    | true => simp [Launch.cluster, hkeep]
    | false => simp [Launch.cluster, hkeep]
  rw [ForwardFreshness.receives_iff, hskips]

end Graph

section Models

/-- A model with two layers. -/
def twoLayers : LlmHeader :=
  ⟨.llama, 4, 2, 2, 2, 2, 0, 0, 4, 4, 0, 4, 4, 8, .llama, .f32, .f32⟩

/-- One thread and one row, with an environment that sets nothing. -/
def plainLaunch : Launch where
  nThreads := fun _ => 1
  nThreads_pos := fun _ => Nat.one_pos
  keepTp1Syncs := fun _ => false
  batchSize := 1
  batchSize_pos := Nat.one_pos

/-- Whether an operation is the gate of experts. -/
def isGate (op : NnOpConfig) : Bool :=
  match op.config with
  | .moeGate _ _ _ => true
  | _ => false

/-- A model without experts has nothing to check. -/
theorem initialized_of_no_gate {node : NnNode} (h : node.config.ops.any isGate = false) :
    Initialized node := by
  intro op hop k normTopk indexesBuffer hconfig
  have hgate : isGate op = true := by
    rw [isGate, hconfig]
  have hany := List.any_eq_true.mpr ⟨op, hop, hgate⟩
  rw [h] at hany
  cases hany

/-- Graphs without experts that are built. -/
theorem build_noGate (header : LlmHeader) (topology : NnParallelTopology) (nBatches : ℕ)
    (ppStageLayerCounts : Option (List ℕ))
    (h : (buildLlmNet header topology nBatches ppStageLayerCounts false).toOption.map (fun net =>
      net.nodeConfigs.any fun config => config.ops.any isGate) = some false) :
    ∃ net, buildLlmNet header topology nBatches ppStageLayerCounts false = .ok net ∧
      ∀ config ∈ net.nodeConfigs, Initialized (nodeOf header nBatches config) := by
  cases hnet : buildLlmNet header topology nBatches ppStageLayerCounts false with
  | error e =>
    rw [hnet] at h
    cases h
  | ok net =>
    rw [hnet] at h
    injection h with h
    refine ⟨net, Eq.refl _, ?_⟩
    intro config hconfig
    apply initialized_of_no_gate
    cases hgate : config.ops.any isGate with
    | false => exact hgate
    | true =>
      have hany : (net.nodeConfigs.any fun config => config.ops.any isGate) = true :=
        List.any_eq_true.mpr ⟨config, hconfig, hgate⟩
      exact absurd (hany.symm.trans h) (by decide)

theorem noCounts_words : ∀ counts ∈ (none : Option (List ℕ)), ∀ count ∈ counts, count < 2 ^ 32 := by
  intro counts hcounts
  cases hcounts

end Models

end LayerSkip.ForwardFreshness
