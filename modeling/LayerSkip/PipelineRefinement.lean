import LayerSkip.PipelineSchedule
import LayerSkip.StageForward

/-!
# A pipeline computes what one node computes

The layers of a model go to the stages in order. When every stage has one, the rows that a stage
starts with are those that the one graph has at this layer, and the caches of a stage are the caches
of its layers in the one graph, after every call. So the root of a pipeline has the logits that a
root without workers has, in every run of both networks.
-/

namespace LayerSkip.PipelineRefinement

open NnTopology NnPipeline NnCore NnCpu LlmGraph Dataflow RegionFlow ForwardReads ForwardTriples
open ForwardFreshness StageExecutor StageSimulation StageHandOver StageForward StreamNetwork
open RandomDescent PipelineNetwork PipelineRounds PipelineSchedule

section Calls

variable {V : Type}
  {p q : Pipeline V} {b : NnNodeBuilder} {stages : ℕ → NnNodeBuilder} {offsets : ℕ → ℕ}
  {nBatches : ℕ} {kernels : Kernels V}

/-- A pipeline next to a root without workers, for the same model. -/
structure Linked (p q : Pipeline V) (b : NnNodeBuilder) (stages : ℕ → NnNodeBuilder)
    (offsets : ℕ → ℕ) (nBatches : ℕ) (kernels : Kernels V) : Prop where
  /-- There are no workers. -/
  alone : q.ppSize.toNat = 1
  /-- Layers of the stages. -/
  split : Split b stages offsets p.ppSize.toNat
  /-- Sizes of the rows. -/
  sized : Sized (builtNode b nBatches false) b
  /-- The one node. -/
  node : (q.nodes 0).node = builtNode b nBatches false ∧ (q.nodes 0).kernels = kernels ∧
    0 < (q.nodes 0).nThreads
  /-- The stages. -/
  stage : ∀ i < p.ppSize.toNat, (p.nodes i).node = builtNode (stages i) nBatches false ∧
    (p.nodes i).kernels = kernels
  /-- Words are the same floats. -/
  words : p.ofUint = q.ofUint

/-- The caches of every stage are those of the one node. -/
def SameCaches (p : Pipeline V) (offsets : ℕ → ℕ) (memories : ℕ → Memory V) (m : Memory V) : Prop :=
  ∀ i < p.ppSize.toNat, Set.EqOn m (memories i) (ownCaches (offsets i) (offsets (i + 1)))

/-- The memory of a stage before its forward. -/
def stageInput (p : Pipeline V) (call : Call) (memories : ℕ → Memory V) : ℕ → Memory V
  | 0 => (p.nodes 0).setTokens call.tokens ((p.nodes 0).setPositions call.positions (memories 0))
  | i + 1 => writePipe .x (p.nodes (i + 1)).node.header.dim
      (readPipe .x p.xPipeRow (p.xPipeRow * call.batchSize.toNat) (stageMemory p call memories i))
      ((p.nodes (i + 1)).setPositions call.positions (memories (i + 1)))

theorem stageMemory_eq (p : Pipeline V) (call : Call) (memories : ℕ → Memory V) (i : ℕ) :
    stageMemory p call memories i =
      (p.nodes i).forward call.batchSize.toNat (stageInput p call memories i) := by
  cases i with
  | zero => exact Eq.refl _
  | succ i => exact Eq.refl _

theorem length_positions {call : Call} {maxBatchSize : NnUint} {seqLen : ℕ}
    (h : call.Valid maxBatchSize seqLen) : call.positions.length = call.batchSize.toNat := by
  rw [toNat_batchSize h, Call.positions]
  cases hpositions : call.batchPositions with
  | none => simp
  | some positions =>
    exact (h.explicit positions (by rw [hpositions]; exact Eq.refl _)).1

/-- Every stage stores the words that the one node stores. -/
theorem writePipe_words {ofUint ofUint' : NnUint → V} (hwords : ofUint = ofUint')
    {words : List NnUint} {pipe : NnPipe} (m m' : Memory V) {c : Cell}
    (hsource : c.source = .pipe pipe) (hz : c.z = 0) (hy : c.y < words.length) (hx : c.x < 1) :
    writePipe pipe 1 (words.map ofUint) m c = writePipe pipe 1 (words.map ofUint') m' c := by
  rw [hwords]
  exact writePipe_congr m m' (by rw [List.length_map, Nat.one_mul]) hsource hz hy hx

theorem cache_ne_pipe {layer : ℕ} {source : NnSource} (h : IsCacheOf layer source) (pipe : NnPipe) :
    source ≠ .pipe pipe := by
  intro heq
  simp [IsCacheOf, heq] at h

/-- Setters leave the caches. -/
theorem stageInput_cache (p : Pipeline V) (call : Call) (memories : ℕ → Memory V) (i : ℕ) {c : Cell}
    {layer : ℕ} (hc : IsCacheOf layer c.source) : stageInput p call memories i c = memories i c := by
  cases i with
  | zero =>
    rw [stageInput, StageNode.setTokens, writePipe_of_ne (cache_ne_pipe hc _),
      StageNode.setPositions, writePipe_of_ne (cache_ne_pipe hc _)]
  | succ i =>
    rw [stageInput, writePipe_of_ne (cache_ne_pipe hc _), StageNode.setPositions,
      writePipe_of_ne (cache_ne_pipe hc _)]

theorem Linked.forward (h : Linked p q b stages offsets nBatches kernels) {i : ℕ}
    (hi : i < p.ppSize.toNat) (batchSize : ℕ) (m : Memory V) : (p.nodes i).forward batchSize m =
      runOps (builtNode (stages i) nBatches false) (p.nodes i).nThreads kernels batchSize
        (((stages i).segments false).flatMap NnSegmentConfig.ops) m := by
  obtain ⟨hnode, hkernels⟩ := h.stage i hi
  rw [StageNode.forward, forward_eq, hnode, hkernels]
  exact Eq.refl _

theorem Linked.forward_node (h : Linked p q b stages offsets nBatches kernels) (batchSize : ℕ)
    (m : Memory V) : (q.nodes 0).forward batchSize m =
      runOps (builtNode b nBatches false) (q.nodes 0).nThreads kernels batchSize
        ((b.segments false).flatMap NnSegmentConfig.ops) m := by
  obtain ⟨hnode, hkernels, _⟩ := h.node
  rw [StageNode.forward, forward_eq, hnode, hkernels]
  exact Eq.refl _

/-- Columns of the rows of a stage. -/
theorem Linked.dim (h : Linked p q b stages offsets nBatches kernels) {i : ℕ}
    (hi : i < p.ppSize.toNat) : (p.nodes i).node.header.dim = b.n.header.dim ∧
      p.xPipeRow = b.n.header.dim ∧ p.logitsPipeRow = b.n.header.vocabSize := by
  have hheader : (p.nodes i).node.header = b.n.header := by
    rw [(h.stage i hi).1, (h.split.parts i hi).shape]
    exact Eq.refl _
  have hrows := p.rows i hi
  rw [hheader] at hrows
  exact ⟨congrArg LlmHeader.dim hheader, hrows.1.symm, hrows.2.symm⟩

theorem Linked.vocabSize (h : Linked p q b stages offsets nBatches kernels) :
    q.logitsPipeRow = b.n.header.vocabSize := by
  have hrows := (q.rows 0 (by rw [h.alone]; exact Nat.one_pos)).2
  rw [h.node.1] at hrows
  exact hrows.symm

/-- The stages get in a call what the one node gets. -/
theorem Linked.fed (h : Linked p q b stages offsets nBatches kernels) {call : Call} {seqLen : ℕ}
    (hcall : call.Valid p.maxBatchSize seqLen) {memories memories' : ℕ → Memory V}
    (hcaches : SameCaches p offsets memories (memories' 0)) :
    Fed kernels b stages offsets p.ppSize.toNat nBatches (fun i => (p.nodes i).nThreads)
      call.batchSize.toNat (stageInput q call memories' 0) (stageInput p call memories) := by
  have hofUint {i : ℕ} (hi : i < p.ppSize.toNat) : (q.nodes 0).ofUint = (p.nodes i).ofUint := by
    rw [p.words i hi, h.words, q.words 0 (by rw [h.alone]; exact Nat.one_pos)]
  constructor
  · intro c hsource hz hy hx
    exact writePipe_words (hofUint h.split.pos) _ _ hsource hz (toNat_batchSize hcall ▸ hy) hx
  · intro i hi c hsource hz hy hx
    have hpositions (m m' : Memory V) : (q.nodes 0).setPositions call.positions m c =
        (p.nodes i).setPositions call.positions m' c :=
      writePipe_words (hofUint hi) m m' hsource hz ((length_positions hcall).symm ▸ hy) hx
    have hnode : stageInput q call memories' 0 c =
        (q.nodes 0).setPositions call.positions (memories' 0) c := by
      rw [stageInput, StageNode.setTokens, writePipe_of_ne (by rw [hsource]; simp)]
    rw [hnode]
    cases i with
    | zero =>
      rw [stageInput, StageNode.setTokens, writePipe_of_ne (by rw [hsource]; simp)]
      exact hpositions _ _
    | succ i =>
      rw [stageInput, writePipe_of_ne (by rw [hsource]; simp)]
      exact hpositions _ _
  · intro i hi c hc
    have hsame := hcaches i hi hc
    obtain ⟨layer, _, _, hof⟩ := hc
    rw [stageInput_cache q call memories' 0 hof, stageInput_cache p call memories i hof]
    exact hsame
  · intro i hi y hy x hx
    obtain ⟨hdim, hrow, _⟩ := h.dim hi
    rw [← h.forward (Nat.lt_of_succ_lt hi), ← stageMemory_eq, stageInput, hdim, hrow]
    exact writePipe_readPipe _ _ hy hx

/-- In a call the root of the pipeline gets the logits of the one node, and every stage is left with
its caches. -/
theorem Linked.call (h : Linked p q b stages offsets nBatches kernels) {call : Call} {seqLen : ℕ}
    (hcall : call.Valid p.maxBatchSize seqLen) {memories memories' : ℕ → Memory V}
    (hcaches : SameCaches p offsets memories (memories' 0)) :
    callLogits p call memories = callLogits q call memories' ∧
      SameCaches p offsets (callMemories p call memories) (callMemories q call memories' 0) := by
  have hfed := h.fed hcall hcaches
  have hbatch : 0 < call.batchSize.toNat := by
    rw [toNat_batchSize hcall]
    exact hcall.some
  have hfew : ¬(0 = 0 ∧ 1 < q.ppSize.toNat) := by
    rw [h.alone]
    exact fun hmany => absurd hmany.2 (Nat.lt_irrefl 1)
  have hnode : callMemories q call memories' 0 =
      runOps (builtNode b nBatches false) (q.nodes 0).nThreads kernels call.batchSize.toNat
        ((b.segments false).flatMap NnSegmentConfig.ops) (stageInput q call memories' 0) := by
    rw [callMemories, if_neg hfew, stageMemory_eq, h.forward_node]
  have hstage {i : ℕ} (hi : i < p.ppSize.toNat) : stageMemory p call memories i =
      runOps (builtNode (stages i) nBatches false) (p.nodes i).nThreads kernels
        call.batchSize.toNat (((stages i).segments false).flatMap NnSegmentConfig.ops)
        (stageInput p call memories i) := by
    rw [stageMemory_eq, h.forward hi]
  have hpos := h.split.pos
  have hlast : p.ppSize.toNat - 1 < p.ppSize.toNat := by
    omega
  have hvocab := (h.dim hpos).2.2
  have hlogits := same_logits h.split h.sized h.node.2.2 hbatch hfed
  rw [← hnode, ← hstage hlast, ← hvocab] at hlogits
  have hcallLogits : callLogits p call memories =
      readPipe .lg p.logitsPipeRow (p.logitsPipeRow * call.batchSize.toNat)
        (stageMemory p call memories (p.ppSize.toNat - 1)) := by
    rw [callLogits, callMemories]
    by_cases hmany : 1 < p.ppSize.toNat
    · rw [if_pos ⟨Eq.refl _, hmany⟩]
      exact readPipe_writePipe _ _ _ _ (length_readPipe _ _ _ _)
    · have hone : p.ppSize.toNat - 1 = 0 := by
        omega
      rw [if_neg fun hpair => hmany hpair.2, hone]
  constructor
  · rw [hcallLogits, ← hlogits, callLogits, h.vocabSize, hvocab]
  · intro i hi c hc
    have hsame := same_caches h.split h.sized h.node.2.2 hbatch hfed hi hc
    rw [← hnode, ← hstage hi] at hsame
    obtain ⟨layer, _, _, hof⟩ := hc
    rw [hsame, callMemories]
    split
    · rename_i hroot
      rw [hroot.1, writePipe_of_ne (cache_ne_pipe hof _)]
    · exact Eq.refl _

theorem length_runLogits (p : Pipeline V) (calls : List Call) (memories : ℕ → Memory V) :
    (runLogits p calls memories).length = calls.length := by
  induction calls generalizing memories with
  | nil => exact Eq.refl _
  | cons call calls ih => rw [runLogits, List.length_cons, List.length_cons, ih]

/-- The root of the pipeline has the logits of the one node after every call. -/
theorem Linked.run (h : Linked p q b stages offsets nBatches kernels) {calls : List Call}
    {seqLen : ℕ} (hcalls : ∀ call ∈ calls, call.Valid p.maxBatchSize seqLen)
    {memories memories' : ℕ → Memory V}
    (hcaches : SameCaches p offsets memories (memories' 0)) :
    runLogits p calls memories = runLogits q calls memories' := by
  induction calls generalizing memories memories' with
  | nil => exact Eq.refl _
  | cons call calls ih =>
    obtain ⟨hlogits, hnext⟩ := h.call (hcalls call List.mem_cons_self) hcaches
    rw [runLogits, runLogits, hlogits,
      ih (fun call hmem => hcalls call (List.mem_cons_of_mem _ hmem)) hnext]

end Calls

section Graph

variable {V : Type}
  {p q : Pipeline V} {h : LlmHeader} {nBatches : ℕ} {kernels : Kernels V}
  {ppStageLayerCounts : Option (List ℕ)} {net net' : LlmNet}

/-- A pipeline whose nodes are those of a graph. -/
structure Runs (p : Pipeline V) (h : LlmHeader) (nBatches : ℕ)
    (ppStageLayerCounts : Option (List ℕ)) (kernels : Kernels V) (net : LlmNet) : Prop where
  /-- The graph. -/
  built : buildLlmNet h p.topology nBatches ppStageLayerCounts false = .ok net
  /-- What every executor checks. -/
  initialized : ∀ config ∈ net.nodeConfigs, Initialized (nodeOf h nBatches config)
  /-- Every node has the functions of the operations, and a thread. -/
  nodes : ∀ i config, net.nodeConfigs[i]? = some config →
    (p.nodes i).node = nodeOf h nBatches config ∧ (p.nodes i).kernels = kernels ∧
      0 < (p.nodes i).nThreads

/-- The first stage starts with the first layer and the last one ends with the last. -/
theorem offsets_ends {nLayers ppSize : ℕ} (hpos : 0 < ppSize) {layerOffsets : List ℕ}
    (hoffsets : buildLayerStartOffsets nLayers ppSize ppStageLayerCounts = .ok layerOffsets) :
    layerOffsets.getD 0 0 = 0 ∧ layerOffsets.getD ppSize 0 = nLayers := by
  have hequal (heq : (List.range ppSize).map (fun i => i * (nLayers / ppSize)) ++ [nLayers] =
      layerOffsets) : layerOffsets.getD 0 0 = 0 ∧ layerOffsets.getD ppSize 0 = nLayers := by
    rw [← heq, List.getD_eq_getElem?_getD, List.getD_eq_getElem?_getD,
      List.getElem?_append_left (by simpa using hpos), List.getElem?_append_right (by simp)]
    simp [hpos]
  cases ppStageLayerCounts with
  | none =>
    injection hoffsets with hoffsets
    exact hequal hoffsets
  | some counts =>
    cases counts with
    | nil =>
      injection hoffsets with hoffsets
      exact hequal hoffsets
    | cons count counts =>
      obtain ⟨u, _, hoffsets⟩ := bind_eq_ok hoffsets
      obtain ⟨v, _, hoffsets⟩ := bind_eq_ok hoffsets
      obtain ⟨w, hsum, hoffsets⟩ := bind_eq_ok hoffsets
      injection hoffsets with hoffsets
      rw [← hoffsets]
      exact ⟨by simp, require_eq_ok hsum⟩

theorem getPlacement_topology {i : ℕ} {placement : NnNodePlacement}
    (h : p.topology.getPlacement i = .ok placement) :
    placement = StageNetwork.StageChain.placement i := by
  have hlt := (placement_ok h).1
  have hnot : ¬p.topology.nNodes ≤ i := Nat.not_le.mpr hlt
  simp only [NnParallelTopology.getPlacement, if_neg hnot] at h
  injection h with h
  rw [← h]
  simp [Pipeline.topology, StageNetwork.StageChain.placement, Nat.mod_one]

theorem exists_stage (hp : Runs p h nBatches ppStageLayerCounts kernels net) :
    ∃ layerOffsets, buildShape h 1 nBatches = .ok net.shape ∧
      buildLayerStartOffsets h.nLayers p.ppSize.toNat ppStageLayerCounts = .ok layerOffsets ∧
      ∀ i < p.ppSize.toNat, ∃ b, BuiltNode h p.topology nBatches false layerOffsets net i b ∧
        b.nodePlacement = StageNetwork.StageChain.placement i ∧
        (p.nodes i).node = builtNode b nBatches false ∧ (p.nodes i).kernels = kernels ∧
        0 < (p.nodes i).nThreads ∧ Initialized (builtNode b nBatches false) := by
  obtain ⟨layerOffsets, hshape, hoffsets, _, hnodes⟩ := buildLlmNet_ok hp.built
  refine ⟨layerOffsets, hshape, hoffsets, ?_⟩
  intro i hi
  obtain ⟨b, hb⟩ := exists_builtNode hshape hnodes hi
  obtain ⟨hnode, hkernels, hthreads⟩ := hp.nodes i _ hb.config
  have hinit := hp.initialized _ (List.mem_of_getElem? hb.config)
  rw [hb.node_eq] at hnode hinit
  exact ⟨b, hb, getPlacement_topology hb.built.placement_eq, hnode, hkernels, hthreads, hinit⟩

/-- Nodes of two graphs of one model have the same parts. -/
theorem sameParts {layerOffsets layerOffsets' : List ℕ} {i j : ℕ} {b b' : NnNodeBuilder}
    (hshape : buildShape h 1 nBatches = .ok net.shape)
    (hshape' : buildShape h 1 nBatches = .ok net'.shape)
    (hb : BuiltNode h p.topology nBatches false layerOffsets net i b)
    (hb' : BuiltNode h q.topology nBatches false layerOffsets' net' j b')
    (hplacement : b.nodePlacement = StageNetwork.StageChain.placement i)
    (hplacement' : b'.nodePlacement = StageNetwork.StageChain.placement j) : SameParts b b' := by
  have hsame : net.shape = net'.shape := by
    rw [hshape] at hshape'
    injection hshape'
  have hn : b.n = b'.n := by
    rw [hb.built.shape_eq, hb'.built.shape_eq, hsame]
  have hkv := hb.built.kvCache_eq
  have hkv' := hb'.built.kvCache_eq
  have hrope := hb.built.rope_eq
  have hrope' := hb'.built.rope_eq
  rw [hplacement, hsame] at hkv hrope
  rw [hplacement'] at hkv' hrope'
  constructor
  · exact hn
  · exact Except.ok.inj (hkv.symm.trans hkv')
  · exact Except.ok.inj (hrope.symm.trans hrope')
  · rw [hb.built.topology_eq, hb'.built.topology_eq]
    exact Eq.refl _
  · rw [hb.built.topology_eq, hb'.built.topology_eq]
    exact Eq.refl _
  · rw [hb.group, hb'.group]
    exact Eq.refl _
  · rw [hplacement, hplacement']
    exact Eq.refl _

/-- Caches that are alike on all nodes are those of the layers of a stage. -/
theorem sameCaches_of_all (offsets : ℕ → ℕ) {memories memories' : ℕ → Memory V}
    (hcaches : ∀ i < p.ppSize.toNat, ∀ layer, ∀ c : Cell, IsCacheOf layer c.source →
      memories' 0 c = memories i c) : SameCaches p offsets memories (memories' 0) := by
  intro i hi c hc
  obtain ⟨layer, _, _, hof⟩ := hc
  exact hcaches i hi layer c hof

section Runs

variable (hqDim : h.qDim = h.headDim * h.nHeads % 2 ^ 32)
  (hwords : ∀ counts ∈ ppStageLayerCounts, ∀ count ∈ counts, count < 2 ^ 32)
  (hp : Runs p h nBatches ppStageLayerCounts kernels net)
  (hq : Runs q h nBatches none kernels net') (halone : q.ppSize.toNat = 1)
  (hofUint : p.ofUint = q.ofUint)
  (hlayers : StagesHaveLayers h.nLayers p.ppSize.toNat ppStageLayerCounts)

include hqDim hwords hp hq halone hofUint hlayers

/-- A pipeline whose stages all have layers is next to a root without workers. -/
theorem linked : ∃ b stages offsets, Linked p q b stages offsets nBatches kernels := by
  obtain ⟨layerOffsets, hshape, hoffsets, hstages⟩ := exists_stage hp
  obtain ⟨layerOffsets', hshape', hoffsets', hnode⟩ := exists_stage hq
  have hone : 0 < q.ppSize.toNat := by
    rw [halone]
    exact Nat.one_pos
  obtain ⟨b, hb, hplacement, hbNode, hbKernels, hbThreads, hbInit⟩ := hnode 0 hone
  have hexists : ∀ i, ∃ s : NnNodeBuilder, i < p.ppSize.toNat →
      BuiltNode h p.topology nBatches false layerOffsets net i s ∧
        s.nodePlacement = StageNetwork.StageChain.placement i ∧
        (p.nodes i).node = builtNode s nBatches false ∧ (p.nodes i).kernels = kernels := by
    intro i
    by_cases hi : i < p.ppSize.toNat
    · obtain ⟨s, hs, hplace, hsNode, hsKernels, _⟩ := hstages i hi
      exact ⟨s, fun _ => ⟨hs, hplace, hsNode, hsKernels⟩⟩
    · exact ⟨b, fun hin => absurd hin hi⟩
  choose stages hstage using hexists
  obtain ⟨hfirst, hlast⟩ := offsets_ends p.ppSize_pos hoffsets
  obtain ⟨hfirst', hlast'⟩ := offsets_ends hone hoffsets'
  have hgrows := (stagesHaveLayers_iff p.ppSize_pos hwords hoffsets).mpr hlayers
  have hsplit : Split b stages (fun i => layerOffsets.getD i 0) p.ppSize.toNat := by
    constructor
    · exact p.ppSize_pos
    · exact hfirst
    · exact hgrows
    · rw [IsRoot, hplacement]
      exact ⟨Eq.refl _, Eq.refl _⟩
    · rw [hb.built.topology_eq]
      exact halone
    · rw [hb.built.layerStart_eq, hplacement]
      exact hfirst'
    · rw [hb.built.layerEnd_eq, hplacement, hlast, ← hlast', halone]
      exact Eq.refl _
    · intro i hi
      obtain ⟨hs, hplace, _⟩ := hstage i hi
      exact sameParts hshape' hshape hb hs hplacement hplace
    · intro i hi
      obtain ⟨hs, hplace, _⟩ := hstage i hi
      rw [hs.built.layerStart_eq, hplace]
      exact Eq.refl _
    · intro i hi
      obtain ⟨hs, hplace, _⟩ := hstage i hi
      rw [hs.built.layerEnd_eq, hplace]
      exact Eq.refl _
    · intro i hi
      rw [(hstage i hi).2.1]
      exact ⟨Eq.refl _, Eq.refl _⟩
    · intro i hi
      rw [(hstage i hi).1.built.topology_eq]
      exact Eq.refl _
  have hall : b.layerStart < b.layerEnd := by
    have hmono := hsplit.mono p.ppSize_pos (le_refl _)
    rw [hsplit.first] at hmono
    rw [hsplit.start, hsplit.finish]
    exact hmono
  have hsized := sized hb.built hshape' hqDim hbInit hall
  exact ⟨b, stages, _, halone, hsplit, hsized, ⟨hbNode, hbKernels, hbThreads⟩,
    fun i hi => ⟨(hstage i hi).2.2.1, (hstage i hi).2.2.2⟩, hofUint⟩

variable [Add V] [Sub V] [LE V] [DecidableLE V] [LT V] [DecidableLT V]
  {calls : List Call} (hcalls : ∀ call ∈ calls, call.Valid p.maxBatchSize h.seqLen)
  (hcalls' : ∀ call ∈ calls, call.Valid q.maxBatchSize h.seqLen)
  {memories memories' : ℕ → Memory V}
  (hcaches : ∀ i < p.ppSize.toNat, ∀ layer, ∀ c : Cell, IsCacheOf layer c.source →
    memories' 0 c = memories i c)
  (args args' : ℕ → Pipeline.WorkerArgs V) {cap : ℕ} (hcap : 0 < cap)

include hcalls hcalls' hcaches hcap

/-- Both networks end in all their runs, without failure, and with the same rows. -/
theorem outcomes : ∃ f g, Outcome (Step cap) (p.initial memories args calls) f ∧
    Outcome (Step cap) (q.initial memories' args' calls) g ∧
    (∀ text, (f.party 0).mem ≠ .failed text) ∧ (f.party 0).mem.held.length = calls.length ∧
    (f.party 0).mem.held = (g.party 0).mem.held := by
  obtain ⟨b, stages, offsets, hlinked⟩ := linked hqDim hwords hp hq halone hofUint hlayers
  obtain ⟨f, _, _, _, hf, hroot⟩ := outcome_initial hcap p memories args hcalls
  obtain ⟨g, _, _, _, hg, hroot'⟩ := outcome_initial hcap q memories' args' hcalls'
  refine ⟨f, g, hf, hg, ?_, ?_, ?_⟩
  · intro text hfailed
    rw [hroot] at hfailed
    cases hfailed
  · rw [hroot, Station.held, length_runLogits]
  · rw [hroot, hroot', Station.held, Station.held,
      hlinked.run hcalls (sameCaches_of_all offsets hcaches)]

/-- In every run of a pipeline whose stages all have layers, and in every run of a root without
workers, all calls are answered, and with the same logits, when the caches start alike. -/
theorem pipeline_eq_alone :
    ∃ f g, Outcome (Step cap) (p.initial memories args calls) f ∧
      Outcome (Step cap) (q.initial memories' args' calls) g ∧
      (f.party 0).mem.held.length = calls.length ∧
      (f.party 0).mem.held = (g.party 0).mem.held := by
  obtain ⟨f, g, hf, hg, _, hlength, hheld⟩ := outcomes hqDim hwords hp hq halone hofUint hlayers
    hcalls hcalls' hcaches args args' hcap
  exact ⟨f, g, hf, hg, hlength, hheld⟩

/-- In every state of every run of a pipeline whose stages all have layers, the rows that the root
has are those that a root without workers has after the same calls, and all runs end with the rows
of all calls. -/
theorem pipeline_refines_node :
    ∃ g, Outcome (Step cap) (q.initial memories' args' calls) g ∧
      (g.party 0).mem.held.length = calls.length ∧
      (∃ f, Outcome (Step cap) (p.initial memories args calls) f ∧
        (f.party 0).mem.held = (g.party 0).mem.held) ∧
      ∀ s, Relation.ReflTransGen (Step cap) (p.initial memories args calls) s →
        (s.party 0).mem.held <+: (g.party 0).mem.held := by
  obtain ⟨f, g, hf, hg, hnot, hlength, hheld⟩ := outcomes hqDim hwords hp hq halone hofUint hlayers
    hcalls hcalls' hcaches args args' hcap
  refine ⟨g, hg, hheld ▸ hlength, ⟨f, hf, hheld⟩, ?_⟩
  intro s hs
  rw [← hheld]
  exact held_prefix hf hnot hs

end Runs

end Graph

section Models

/-- Values that an operation could give: what it reads at the same place, with its kind. -/
def sumKernels : Kernels UInt32 := fun op _ view c =>
  (view ⟨op.input.source, c.z, c.y, c.x⟩).getD 0 + (view ⟨op.output.source, c.z, c.y, c.x⟩).getD 0 +
    op.index.toUInt32 + 1

section Stages

variable (h : LlmHeader) (ppStageLayerCounts : Option (List ℕ)) (ppSize : NnUint)
  (hpos : 0 < ppSize.toNat)

/-- A graph with one node a stage. -/
def stagesNet : Option LlmNet :=
  (buildLlmNet h ⟨ppSize.toNat, ppSize.toNat, 1, 1⟩ 1 ppStageLayerCounts false).toOption

/-- Its nodes, with one thread each. -/
def stagesNode (i : ℕ) : StageNode UInt32 where
  node := nodeOf h 1 (((stagesNet h ppStageLayerCounts ppSize).bind fun net =>
    net.nodeConfigs[i]?).getD ⟨StageNetwork.StageChain.placement i, [], []⟩)
  nThreads := 1
  nNodes := ppSize.toNat
  kernels := sumKernels
  ofUint := id

/-- A pipeline of it. -/
def stagesPipeline : Pipeline UInt32 where
  ppSize := ppSize
  ppSize_pos := hpos
  nodes := stagesNode h ppStageLayerCounts ppSize
  codec := WorkerRun.wordCodec
  exact := WorkerRun.wordCodec_f32
  maxBatchSize := 1
  xPipeRow := h.dim
  logitsPipeRow := h.vocabSize
  rows := fun _ _ => ⟨Eq.refl _, Eq.refl _⟩
  computeDeltaNormEncoded := fun _ _ => none
  ofUint := id
  words := fun _ _ => Eq.refl _
  options := ⟨0, 0, .f32, false, 0, 0, false, false, 0, 0, 0, 0⟩
  fullLogits := Eq.refl _
  noSkip := Eq.refl _
  plainType := Eq.refl _
  noDelta := Eq.refl _

theorem stagesPipeline_runs
    (hgate : (stagesNet h ppStageLayerCounts ppSize).map
      (fun net => net.nodeConfigs.any fun config => config.ops.any isGate) = some false) :
    ∃ net, Runs (stagesPipeline h ppStageLayerCounts ppSize hpos) h 1 ppStageLayerCounts sumKernels
      net := by
  obtain ⟨net, hnet, hinit⟩ := build_noGate h _ 1 ppStageLayerCounts hgate
  refine ⟨net, hnet, hinit, ?_⟩
  intro i config hconfig
  have hgraph : stagesNet h ppStageLayerCounts ppSize = some net := by
    rw [stagesNet, hnet]
    exact Eq.refl _
  refine ⟨?_, Eq.refl _, Nat.one_pos⟩
  simp only [stagesPipeline, stagesNode, hgraph, Option.bind_some, hconfig, Option.getD_some]

end Stages

/-- A pipeline of the model with two layers. -/
abbrev twoLayersPipeline (ppSize : NnUint) (hpos : 0 < ppSize.toNat) : Pipeline UInt32 :=
  stagesPipeline twoLayers none ppSize hpos

/-- A prompt of one token, and one more token. -/
def twoCalls : List Call := [⟨false, 0, none, [3]⟩, ⟨true, 1, none, [5]⟩]

theorem twoCalls_valid : ∀ call ∈ twoCalls, call.Valid 1 twoLayers.seqLen := by
  intro call hcall
  simp only [twoCalls, List.mem_cons, List.not_mem_nil, or_false] at hcall
  have hexplicit (positions : List NnUint) (h : positions ∈ (none : Option (List NnUint))) : False := by
    cases h
  cases hcall with
  | inl hfirst =>
    rw [hfirst]
    exact ⟨by decide, by decide, by decide, fun _ => by decide,
      fun positions h => (hexplicit positions h).elim⟩
  | inr hsecond =>
    rw [hsecond]
    exact ⟨by decide, by decide, by decide, fun _ => by decide,
      fun positions h => (hexplicit positions h).elim⟩

/-- A worker that has had no packet. -/
def noArgs (_ : ℕ) : Pipeline.WorkerArgs UInt32 :=
  ⟨⟨0, 0, 0, 0, 0, 0, 0, 0, 0, 0, 0, 0, 0, 0, 0, 0, [], []⟩, .f32, false, 0, 0⟩

/-- Memories of zeros. -/
def zeros (_ : ℕ) : Memory UInt32 := fun _ => 0

theorem zeros_caches : ∀ i < (twoLayersPipeline 2 (by decide)).ppSize.toNat, ∀ layer, ∀ c : Cell,
    IsCacheOf layer c.source → zeros 0 c = zeros i c := fun _ _ _ _ _ => Eq.refl _

/-- Two stages and one node. -/
theorem pipeline_eq_alone_two : ∃ f g,
    Outcome (Step 1) ((twoLayersPipeline 2 (by decide)).initial zeros noArgs twoCalls) f ∧
      Outcome (Step 1) ((twoLayersPipeline 1 (by decide)).initial zeros noArgs twoCalls) g ∧
      (f.party 0).mem.held.length = twoCalls.length ∧
      (f.party 0).mem.held = (g.party 0).mem.held := by
  obtain ⟨net, hruns⟩ := stagesPipeline_runs twoLayers none 2 (by decide) (by decide +kernel)
  obtain ⟨net', hruns'⟩ := stagesPipeline_runs twoLayers none 1 (by decide) (by decide +kernel)
  exact pipeline_eq_alone (by decide) noCounts_words hruns hruns' (Eq.refl _) (Eq.refl _) (by decide)
    twoCalls_valid twoCalls_valid zeros_caches noArgs noArgs Nat.one_pos

/-- Two stages and one node, in every state. -/
theorem pipeline_refines_node_two : ∃ g,
    Outcome (Step 1) ((twoLayersPipeline 1 (by decide)).initial zeros noArgs twoCalls) g ∧
      (g.party 0).mem.held.length = twoCalls.length ∧
      (∃ f, Outcome (Step 1) ((twoLayersPipeline 2 (by decide)).initial zeros noArgs twoCalls) f ∧
        (f.party 0).mem.held = (g.party 0).mem.held) ∧
      ∀ s, Relation.ReflTransGen (Step 1)
          ((twoLayersPipeline 2 (by decide)).initial zeros noArgs twoCalls) s →
        (s.party 0).mem.held <+: (g.party 0).mem.held := by
  obtain ⟨net, hruns⟩ := stagesPipeline_runs twoLayers none 2 (by decide) (by decide +kernel)
  obtain ⟨net', hruns'⟩ := stagesPipeline_runs twoLayers none 1 (by decide) (by decide +kernel)
  exact pipeline_refines_node (by decide) noCounts_words hruns hruns' (Eq.refl _) (Eq.refl _)
    (by decide) twoCalls_valid twoCalls_valid zeros_caches noArgs noArgs Nat.one_pos

/-- The model with one more layer. -/
def threeLayers : LlmHeader :=
  { twoLayers with nLayers := 3 }

/-- Numbers of layers that add up to three in words of 32 bits: the second stage has no layer. -/
def wrappingCounts : List ℕ := [3, 4294967295, 1]

/-- The graph is built, and the root gets other logits than a root without workers. -/
theorem pipeline_ne_node_wrapping : wrappingCounts.length ≤ threeLayers.nLayers ∧
    (∃ net, Runs (stagesPipeline threeLayers (some wrappingCounts) 3 (by decide)) threeLayers 1
      (some wrappingCounts) sumKernels net) ∧
    (∃ net, Runs (stagesPipeline threeLayers none 1 (by decide)) threeLayers 1 none sumKernels net) ∧
    (∀ call ∈ twoCalls, call.Valid 1 threeLayers.seqLen) ∧
    ∃ f g, Outcome (Step 1) ((stagesPipeline threeLayers (some wrappingCounts) 3
        (by decide)).initial zeros noArgs twoCalls) f ∧
      Outcome (Step 1) ((stagesPipeline threeLayers none 1 (by decide)).initial zeros noArgs
        twoCalls) g ∧
      (f.party 0).mem.held ≠ (g.party 0).mem.held := by
  have hvalid : ∀ call ∈ twoCalls, call.Valid 1 threeLayers.seqLen := twoCalls_valid
  obtain ⟨f, _, _, _, hf, hroot⟩ := outcome_initial Nat.one_pos
    (stagesPipeline threeLayers (some wrappingCounts) 3 (by decide)) zeros noArgs hvalid
  obtain ⟨g, _, _, _, hg, hroot'⟩ := outcome_initial Nat.one_pos
    (stagesPipeline threeLayers none 1 (by decide)) zeros noArgs hvalid
  refine ⟨by decide, stagesPipeline_runs _ _ _ _ (by decide +kernel),
    stagesPipeline_runs _ _ _ _ (by decide +kernel), hvalid, f, g, hf, hg, ?_⟩
  rw [hroot, hroot', Station.held, Station.held]
  decide +kernel

end Models

end LayerSkip.PipelineRefinement
