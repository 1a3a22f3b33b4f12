import LayerSkip.ForwardTriples
import LayerSkip.StageExecutor

/-!
# The operations of a stage

Stages of one model have the same sizes of rows, so an operation does the same on each of them. An
operation of a layer touches only the caches of that layer, and never writes the positions. Runs of
the same operations from memories that agree on what the operations start with agree on what they
leave.
-/

namespace LayerSkip.StageSimulation

open NnTopology NnPipeline NnCore NnCpu LlmGraph Dataflow RegionFlow RootBroadcast ForwardReads
open ForwardTriples StageExecutor
open DevicePlacement (NnNode)

/-- A cache of a layer. -/
def IsCacheOf (layer : ℕ) (source : NnSource) : Prop :=
  source = .buffer (.k layer) ∨ source = .buffer (.v layer)

/-- Two nodes whose rows have the same sizes and the same parts. -/
structure SameRows (node node' : NnNode) : Prop where
  /-- Sizes. -/
  size : ∀ source, (∀ layer, ¬IsCacheOf layer source) →
    node.sourceSize source = node'.sourceSize source
  /-- Members of the tensor group. -/
  group : node.config.placement.tpGroupEnd - node.config.placement.tpGroupStart =
    node'.config.placement.tpGroupEnd - node'.config.placement.tpGroupStart
  /-- Tensor rank. -/
  rank : node.config.placement.tpRank = node'.config.placement.tpRank

/-- An operation outside of layers, or of a layer, whose only caches are those of the layer. -/
structure OpOf (layer : ℕ) (op : NnOpConfig) : Prop where
  /-- Neither the number of threads nor a token shows. -/
  plain : op.code ≠ .matmulArgmax ∧ op.code ≠ .argmaxReduce ∧ op.code ≠ .embedding
  /-- Rows are not in caches. -/
  rows : ∀ node nThreads, ∀ r ∈ opReads node nThreads op ++ opWrites node nThreads op,
    ∀ layer', ¬IsCacheOf layer' r.source
  /-- Its input is not a cache. -/
  input : ∀ layer', ¬IsCacheOf layer' op.input.source
  /-- Its output is a cache for a shift only. -/
  output : op.code = .shift ∨ ∀ layer', ¬IsCacheOf layer' op.output.source
  /-- Positions stay. -/
  positions : ∀ node nThreads, ∀ r ∈ opWrites node nThreads op, r.source ≠ .pipe .pos
  /-- What is written over the residual row depends on it. -/
  residual : ∀ node nThreads, op.code ≠ .cast ∧ whole (.buffer .x) ∈ opReads node nThreads op ∨
    ∀ r ∈ opWrites node nThreads op, r.source ≠ .buffer .x
  /-- Caches are those of the layer. -/
  caches : ∀ source ∈ cacheReads op ++ cacheWrites op, IsCacheOf layer source

/-- Operations of some layers. -/
def OpsOf (layers : Set ℕ) (ops : List NnOpConfig) : Prop :=
  ∀ op ∈ ops, ∃ layer ∈ layers, OpOf layer op

section Groups

variable (b : NnNodeBuilder) (layer : ℕ)

attribute [local simp] opReads opWrites configReads pointerRegion pointerBatchConfig
  pointerBatchedSliceConfig pointerRawConfig whole IsCacheOf cacheReads cacheWrites

theorem opOf_mergeAdd (name : String) (index : ℕ) :
    OpOf layer ⟨.mergeAdd, name, index, pointerBatchConfig (.pipe .zq),
      pointerBatchConfig (.buffer .x), size0, .empty⟩ := by
  constructor <;> simp

theorem opOf_norm (preName name : String) (index : ℕ) :
    ∀ op ∈ b.normOps preName name index, OpOf layer op := by
  simp only [NnNodeBuilder.normOps, List.forall_mem_cons, List.not_mem_nil, false_implies,
    implies_true, and_true]
  and_intros
  all_goals constructor <;> simp

theorem opOf_castY (name : String) (index : ℕ) :
    ∀ op ∈ b.castYOps name index, OpOf layer op := by
  by_cases h : b.n.Quantized
  · simp only [NnNodeBuilder.castYOps, h, if_true, List.forall_mem_singleton]
    constructor <;> simp
  · simp [NnNodeBuilder.castYOps, h]

theorem opOf_qkv (index : ℕ) : ∀ op ∈ b.qkvOps index, OpOf layer op := by
  simp only [NnNodeBuilder.qkvOps, LlmShape.yqBuffer, List.forall_mem_cons, List.not_mem_nil,
    false_implies, implies_true, and_true]
  by_cases h : b.n.Quantized
  · and_intros
    all_goals constructor <;> simp [h]
  · and_intros
    all_goals constructor <;> simp [h]

theorem opOf_qkNorm (index : ℕ) : ∀ op ∈ b.qkNormOps index, OpOf layer op := by
  by_cases h : b.n.HasQkNorm
  · simp only [NnNodeBuilder.qkNormOps, h, if_true, List.forall_mem_cons, List.not_mem_nil,
      false_implies, implies_true, and_true]
    and_intros
    all_goals constructor <;> simp
  · simp [NnNodeBuilder.qkNormOps, h]

theorem opOf_rope : ∀ op ∈ b.ropeOps layer, OpOf layer op := by
  simp only [NnNodeBuilder.ropeOps, List.forall_mem_cons, List.not_mem_nil, false_implies,
    implies_true, and_true]
  and_intros
  all_goals constructor <;> simp

theorem opOf_attention : ∀ op ∈ b.attentionOps layer, OpOf layer op := by
  simp only [NnNodeBuilder.attentionOps, NnNodeBuilder.multiheadAttConfig, List.forall_mem_cons,
    List.not_mem_nil, false_implies, implies_true, and_true]
  and_intros
  all_goals constructor <;> simp

theorem opOf_moe (index : ℕ) : ∀ op ∈ b.moeOps index, OpOf layer op := by
  by_cases h : b.n.Quantized
  all_goals
    simp only [NnNodeBuilder.moeOps, LlmShape.moeYqBuffer, LlmShape.moeDqBuffer, h, if_true,
      if_false, List.forall_mem_append, List.forall_mem_cons, List.not_mem_nil, false_implies,
      implies_true, and_true]
    and_intros
  all_goals constructor <;> simp +contextual [or_imp, forall_and]

theorem opOf_dense (index : ℕ) : ∀ op ∈ b.denseOps index, OpOf layer op := by
  have hcast := opOf_castY b layer "block_cast_y3" index
  by_cases h : b.n.Quantized
  all_goals
    simp only [NnNodeBuilder.denseOps, LlmShape.yqBuffer, LlmShape.dqBuffer, h, if_true, if_false,
      List.forall_mem_append, List.forall_mem_cons, List.not_mem_nil, false_implies, implies_true,
      and_true]
    and_intros
  all_goals first | exact hcast | constructor <;> simp

theorem opOf_attRest : ∀ op ∈ attRest b layer, OpOf layer op := by
  simp only [attRest, List.forall_mem_append]
  and_intros
  · exact opOf_norm b layer _ _ _
  · exact opOf_castY b layer _ _
  · exact opOf_qkv b layer _
  · exact opOf_qkNorm b layer _
  · exact opOf_rope b layer
  · exact opOf_attention b layer

theorem opOf_ff (index : ℕ) : ∀ op ∈ (b.ff index).ops, OpOf layer op := by
  have hblock : ∀ op ∈ (if b.n.header.archType = .qwen3Moe then b.moeOps index
      else b.denseOps index), OpOf layer op := by
    split
    · exact opOf_moe b layer index
    · exact opOf_dense b layer index
  simp only [NnNodeBuilder.ff, List.forall_mem_append, List.forall_mem_cons, List.cons_append,
    List.not_mem_nil, false_implies, implies_true, and_true]
  and_intros
  · exact opOf_mergeAdd layer _ _
  · exact opOf_norm b layer _ _ _
  · exact hblock
  · constructor <;> simp

theorem opOf_finalSegment : ∀ op ∈ (b.finalSegment false).ops, OpOf layer op := by
  simp only [NnNodeBuilder.finalSegment, NnNodeBuilder.logitsOps, List.forall_mem_append,
    List.forall_mem_cons,
    List.cons_append, List.not_mem_nil, false_implies, implies_true, and_true, Bool.false_eq_true,
    if_false]
  and_intros
  · exact opOf_mergeAdd layer _ _
  · exact opOf_norm b layer _ _ _
  · exact opOf_castY b layer _ _
  · by_cases h : b.n.Quantized
    · constructor <;> simp [LlmShape.yqBuffer, h]
    · constructor <;> simp [LlmShape.yqBuffer, h]

theorem opOf_bridge : ∀ op ∈ NnNodeBuilder.bridge.ops, OpOf layer op := by
  simp only [NnNodeBuilder.bridge, List.forall_mem_cons, List.not_mem_nil, false_implies,
    implies_true, and_true]
  and_intros
  · exact opOf_mergeAdd layer _ _
  · constructor <;> simp

end Groups

section Same

variable {node node' : NnNode} (nThreads nThreads' batchSize : ℕ) {layer : ℕ}

theorem sliceWidth_congr (h : SameRows node node') {source : NnSource}
    (hs : ∀ layer, ¬IsCacheOf layer source) :
    sliceWidth node source = sliceWidth node' source := by
  rw [sliceWidth, sliceWidth, h.size source hs, h.group]

theorem sliceStart_congr (h : SameRows node node') {source : NnSource}
    (hs : ∀ layer, ¬IsCacheOf layer source) :
    sliceStart node source = sliceStart node' source := by
  rw [sliceStart, sliceStart, sliceWidth_congr h hs, h.rank]

theorem pointerRegion_congr (h : SameRows node node') {pointer : NnPointerConfig}
    (hs : ∀ layer, ¬IsCacheOf layer pointer.source) :
    pointerRegion node pointer = pointerRegion node' pointer := by
  rw [pointerRegion, pointerRegion, sliceStart_congr h hs, sliceWidth_congr h hs]

theorem cells_congr (h : SameRows node node') {r : Region}
    (hr : ∀ layer, ¬IsCacheOf layer r.source) :
    cells node batchSize r = cells node' batchSize r := by
  ext c
  have hsize (hc : c.source = r.source) : node.sourceSize c.source = node'.sourceSize c.source := by
    rw [hc]
    exact h.size _ hr
  constructor
  · intro hc
    exact ⟨hc.1, hsize hc.1 ▸ hc.2.1, hc.2.2⟩
  · intro hc
    exact ⟨hc.1, hsize hc.1 ▸ hc.2.1, hc.2.2⟩

theorem cellsOf_congr (h : SameRows node node') {rs : List Region}
    (hrs : ∀ r ∈ rs, ∀ layer, ¬IsCacheOf layer r.source) :
    cellsOf (cells node batchSize) rs = cellsOf (cells node' batchSize) rs := by
  ext c
  constructor
  · intro hc
    obtain ⟨r, hr, hmem⟩ := hc
    exact ⟨r, hr, cells_congr batchSize h (hrs r hr) ▸ hmem⟩
  · intro hc
    obtain ⟨r, hr, hmem⟩ := hc
    exact ⟨r, hr, cells_congr batchSize h (hrs r hr) ▸ hmem⟩

theorem opReads_congr (h : SameRows node node') {op : NnOpConfig} (hop : OpOf layer op) :
    opReads node nThreads op = opReads node' nThreads' op := by
  have hconfig : configReads node op = configReads node' op := by
    simp only [configReads, h.size _ hop.input]
  have hsum : (if op.code = .mergeAdd then [pointerRegion node op.output] else []) =
      if op.code = .mergeAdd then [pointerRegion node' op.output] else [] := by
    by_cases hmerge : op.code = .mergeAdd
    · have houtput : ∀ layer', ¬IsCacheOf layer' op.output.source := by
        cases hop.output with
        | inl hshift =>
          rw [hmerge] at hshift
          cases hshift
        | inr hrow => exact hrow
      rw [pointerRegion_congr h houtput]
    · rw [if_neg hmerge, if_neg hmerge]
  rw [opReads, opReads, hconfig, hsum, pointerRegion_congr h hop.input]
  congr 2
  split
  · exact Eq.refl _
  · rename_i hcode _
    exact absurd hcode hop.plain.2.1
  · exact Eq.refl _

theorem opWrites_congr (h : SameRows node node') {op : NnOpConfig} (hop : OpOf layer op) :
    opWrites node nThreads op = opWrites node' nThreads' op := by
  cases hop.output with
  | inl hshift => rw [opWrites, opWrites, hshift]
  | inr hrow =>
    rw [opWrites, opWrites, pointerRegion_congr h hrow, sliceStart_congr h hrow]
    split
    all_goals first
      | exact Eq.refl _
      | rename_i hcode; exact absurd hcode hop.plain.1

theorem opAccess_congr (h : SameRows node node') {op : NnOpConfig} (hop : OpOf layer op) :
    opAccess node nThreads batchSize op = opAccess node' nThreads' batchSize op := by
  have hreads := opReads_congr nThreads nThreads' h hop
  have hwrites := opWrites_congr nThreads nThreads' h hop
  have hrows := hop.rows node nThreads
  rw [opAccess, opAccess, ← hreads, ← hwrites,
    cellsOf_congr batchSize h fun r hr => hrows r (List.mem_append_left _ hr),
    cellsOf_congr batchSize h fun r hr => hrows r (List.mem_append_right _ hr)]

theorem sourceType_congr (h : SameRows node node') {source : NnSource}
    (hs : ∀ layer, ¬IsCacheOf layer source) : sourceType node source = sourceType node' source := by
  rw [sourceType, sourceType, h.size source hs]

theorem firstColumn_congr (h : SameRows node node') {pointer : NnPointerConfig}
    (hs : ∀ layer, ¬IsCacheOf layer pointer.source) :
    firstColumn node pointer = firstColumn node' pointer := by
  rw [firstColumn, firstColumn, sliceStart_congr h hs]

variable {V : Type} (kernels : Kernels V)

theorem opValue_congr (h : SameRows node node') {op : NnOpConfig} (hop : OpOf layer op)
    (view : Cell → Option V) (c : Cell) :
    opValue node kernels batchSize op view c = opValue node' kernels batchSize op view c := by
  by_cases hcast : op.code = .cast
  · have houtput : ∀ layer', ¬IsCacheOf layer' op.output.source := by
      cases hop.output with
      | inl hshift =>
        rw [hcast] at hshift
        cases hshift
      | inr hrow => exact hrow
    rw [opValue, opValue, sourceType_congr h hop.input, sourceType_congr h houtput,
      firstColumn_congr h hop.input, firstColumn_congr h houtput]
  · rw [opValue, opValue, if_neg fun hc => hcast hc.1, if_neg fun hc => hcast hc.1]

/-- An operation does the same on nodes with the same sizes. -/
theorem apply_congr (h : SameRows node node') {op : NnOpConfig} (hop : OpOf layer op)
    (m : Memory V) : (opAction node nThreads kernels batchSize op).apply m =
      (opAction node' nThreads' kernels batchSize op).apply m := by
  have haccess := opAccess_congr nThreads nThreads' batchSize h hop
  have hview : view node nThreads batchSize op m = view node' nThreads' batchSize op m := by
    funext c
    rw [view, view]
    simp only [haccess]
  funext c
  rw [opAction_apply, opAction_apply, hview, opValue_congr batchSize kernels h hop]
  simp only [haccess]

theorem runOps_congr (h : SameRows node node') {layers : Set ℕ} {ops : List NnOpConfig}
    (hops : OpsOf layers ops) (m : Memory V) :
    runOps node nThreads kernels batchSize ops m =
      runOps node' nThreads' kernels batchSize ops m := by
  induction ops generalizing m with
  | nil => exact Eq.refl _
  | cons op ops ih =>
    obtain ⟨layer, _, hop⟩ := hops op List.mem_cons_self
    have hfirst := apply_congr nThreads nThreads' batchSize kernels h hop m
    have hrest := ih (fun more hmore => hops more (List.mem_cons_of_mem op hmore))
      ((opAction node nThreads kernels batchSize op).apply m)
    rw [runOps, List.map_cons, run_cons, ← runOps, hrest, hfirst]
    exact Eq.refl _

end Same

section Loaded

variable {V : Type} (node : NnNode) (nThreads : ℕ) (kernels : Kernels V) (batchSize : ℕ)

theorem opAccess_loadedOp (op : NnOpConfig) :
    opAccess node nThreads batchSize (loadedOp op) = opAccess node nThreads batchSize op := by
  rw [loadedOp]
  split <;> exact Eq.refl _

theorem opValue_loadedOp (op : NnOpConfig) :
    opValue node kernels batchSize (loadedOp op) = opValue node kernels batchSize op := by
  have hidem : loadedOp (loadedOp op) = loadedOp op := by
    by_cases h : op.weightSize.nBytes = 0
    · simp [loadedOp, h]
    · simp [loadedOp, h]
  have hsame : (loadedOp op).code = op.code ∧ (loadedOp op).input = op.input ∧
      (loadedOp op).output = op.output := by
    rw [loadedOp]
    split <;> exact ⟨Eq.refl _, Eq.refl _, Eq.refl _⟩
  funext view c
  rw [opValue, opValue, hidem, hsame.1, hsame.2.1, hsame.2.2]

/-- Operations without weights differ in name and layer only. -/
theorem apply_of_loadedOp {op op' : NnOpConfig} (h : loadedOp op = loadedOp op') (m : Memory V) :
    (opAction node nThreads kernels batchSize op).apply m =
      (opAction node nThreads kernels batchSize op').apply m := by
  have haccess : opAccess node nThreads batchSize op = opAccess node nThreads batchSize op' := by
    rw [← opAccess_loadedOp, h, opAccess_loadedOp]
  have hvalue : opValue node kernels batchSize op = opValue node kernels batchSize op' := by
    rw [← opValue_loadedOp, h, opValue_loadedOp]
  have hview : view node nThreads batchSize op m = view node nThreads batchSize op' m := by
    funext c
    rw [view, view]
    simp only [haccess]
  funext c
  rw [opAction_apply, opAction_apply, hview, hvalue]
  simp only [haccess]

end Loaded

section Runs

variable {V : Type} (node : NnNode) (nThreads : ℕ) (kernels : Kernels V) (batchSize : ℕ)

/-- What operations of some layers leave: positions and the caches of other layers. -/
def Kept (layers : Set ℕ) (c : Cell) : Prop :=
  c.source = .pipe .pos ∨ ∃ layer, layer ∉ layers ∧ IsCacheOf layer c.source

theorem notMem_writes {layers : Set ℕ} {layer : ℕ} (hlayer : layer ∈ layers) {op : NnOpConfig}
    (hop : OpOf layer op) {c : Cell} (hc : Kept layers c) : c ∉ (opAccess node nThreads batchSize op).writes := by
  intro hmem
  cases hmem with
  | inl hrow =>
    obtain ⟨r, hr, hcell⟩ := hrow
    cases hc with
    | inl hpos => exact hop.positions node nThreads r hr (hcell.1.symm.trans hpos)
    | inr hcache =>
      obtain ⟨layer', _, hother⟩ := hcache
      rw [hcell.1] at hother
      exact hop.rows node nThreads r (List.mem_append_right _ hr) layer' hother
  | inr hown =>
    have hcache := hop.caches c.source (List.mem_append_right _ hown)
    cases hc with
    | inl hpos =>
      rw [hpos] at hcache
      cases hcache with
      | inl hk => cases hk
      | inr hv => cases hv
    | inr hother =>
      obtain ⟨layer', hnot, hother⟩ := hother
      have hsame : layer' = layer := by
        simp only [IsCacheOf] at hcache hother
        rcases hcache with hk | hv
        · rw [hk] at hother
          simpa [eq_comm] using hother
        · rw [hv] at hother
          simpa [eq_comm] using hother
      rw [hsame] at hnot
      exact hnot hlayer

/-- Operations of some layers leave positions and the caches of other layers. -/
theorem runOps_of_kept {layers : Set ℕ} {ops : List NnOpConfig} (hops : OpsOf layers ops)
    {c : Cell} (hc : Kept layers c) (m : Memory V) :
    runOps node nThreads kernels batchSize ops m c = m c := by
  rw [runOps]
  apply run_of_notMem
  intro hwritten
  obtain ⟨a, ha, hmem⟩ := hwritten
  rw [accesses, List.map_map, List.mem_map] at ha
  obtain ⟨op, hop, heq⟩ := ha
  obtain ⟨layer, hlayer, hof⟩ := hops op hop
  rw [← heq] at hmem
  exact notMem_writes node nThreads batchSize hlayer hof hc hmem

/-- Operations that write to one place leave the others. -/
theorem runOps_of_source {ops : List NnOpConfig} {source : NnSource}
    (hops : ∀ op ∈ ops, (∀ r ∈ opWrites node nThreads op, r.source = source) ∧ cacheWrites op = [])
    {c : Cell} (hc : c.source ≠ source) (m : Memory V) :
    runOps node nThreads kernels batchSize ops m c = m c := by
  rw [runOps]
  apply run_of_notMem
  intro hwritten
  obtain ⟨a, ha, hmem⟩ := hwritten
  rw [accesses, List.map_map, List.mem_map] at ha
  obtain ⟨op, hop, heq⟩ := ha
  obtain ⟨hrows, hnone⟩ := hops op hop
  rw [← heq] at hmem
  cases hmem with
  | inl hrow =>
    obtain ⟨r, hr, hcell⟩ := hrow
    exact hc (hcell.1.trans (hrows r hr))
  | inr hcache =>
    have hown : c.source ∈ cacheWrites op := hcache
    rw [hnone] at hown
    exact absurd hown List.not_mem_nil

/-- One node for itself. -/
def solo (hthreads : 0 < nThreads) (hbatch : 0 < batchSize) : Cluster where
  nSockets := 0
  nThreads := fun _ => nThreads
  nThreads_pos := fun _ => hthreads
  batchSize := batchSize
  batchSize_pos := hbatch
  batchBytes := 0
  tpGroupStart := fun _ => 0
  tpGroupEnd := fun _ => 0
  keepTp1Syncs := fun _ => false

variable {node nThreads batchSize}

/-- Runs from memories that agree on what the operations start with agree on what they leave. -/
theorem eqOn_runOps (caches : Set Cell) {hthreads : 0 < nThreads} {hbatch : 0 < batchSize}
    {ops : List NnOpConfig} {pre post : List Region} {m m' : Memory V}
    (h : Triple pre (opUses node (solo nThreads batchSize hthreads hbatch) ops) post)
    (hcaches : ∀ op ∈ ops, ∀ c : Cell, c.source ∈ cacheReads op → c ∈ caches)
    (hagree : Set.EqOn m m' (cellsOf (cells node batchSize) pre ∪ caches)) :
    Set.EqOn (runOps node nThreads kernels batchSize ops m)
      (runOps node nThreads kernels batchSize ops m')
      (cellsOf (cells node batchSize) (pre ++ post) ∪ caches) := by
  obtain ⟨hchecks, hpost⟩ := triple_iff.mp h
  have hdefined := definedBefore_of_checks (cells_mono node batchSize) hchecks
  have hknown := cellsOf_subset (cells_mono node batchSize) hpost
  rw [cellsOf_after] at hknown
  have hactions : accesses (ops.map (opAction node nThreads kernels batchSize)) =
      ops.map (opAccess node nThreads batchSize) := by
    rw [accesses, List.map_map]
    exact Eq.refl _
  have huses : (opUses node (solo nThreads batchSize hthreads hbatch) ops).map
      (access (cells node batchSize)) = ops.map fun op =>
        ⟨cellsOf (cells node batchSize) (opReads node nThreads op),
          cellsOf (cells node batchSize) (opWrites node nThreads op)⟩ := by
    rw [opUses, List.map_map]
    exact Eq.refl _
  rw [huses] at hdefined hknown
  have hwider : DefinedBefore (cellsOf (cells node batchSize) pre ∪ caches)
      (accesses (ops.map (opAction node nThreads kernels batchSize))) := by
    apply hdefined.widen
    rw [hactions, List.forall₂_map_left_iff, List.forall₂_map_right_iff, List.forall₂_same]
    intro op hop
    constructor
    · intro c hc
      cases hc with
      | inl hrow => exact .inl hrow
      | inr hcache => exact .inr (hcaches op hop c hcache)
    · exact fun c hc => .inl hc
  have hrun := eqOn_run hwider hagree
  apply hrun.mono
  rw [cellsOf_append]
  intro c hc
  have hwritten : written (ops.map fun op =>
      (⟨cellsOf (cells node batchSize) (opReads node nThreads op),
        cellsOf (cells node batchSize) (opWrites node nThreads op)⟩ : Access Cell)) ⊆
      written (accesses (ops.map (opAction node nThreads kernels batchSize))) := by
    rw [hactions]
    intro c hc
    obtain ⟨a, ha, hmem⟩ := hc
    obtain ⟨op, hop, heq⟩ := List.mem_map.mp ha
    rw [← heq] at hmem
    exact ⟨_, List.mem_map_of_mem hop, .inl hmem⟩
  rcases hc with (hpre | hnew) | hcache
  · exact .inl (.inl hpre)
  · cases hknown hnew with
    | inl hpre => exact .inl (.inl hpre)
    | inr hw => exact .inr (hwritten hw)
  · exact .inl (.inr hcache)

end Runs

end LayerSkip.StageSimulation
