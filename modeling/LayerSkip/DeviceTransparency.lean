import LayerSkip.DevicePlacement

/-!
# When the placement of segments is transparent

Pipes are copied around segments of the graphics device, buffers are not. The rows of `x` stay in a
buffer from the first segment of the first layer to the last segment, so all segments but the start have
to be on one device.
-/

namespace LayerSkip.DevicePlacement

open NnTopology NnPipeline NnCore NnCpu LlmGraph Dataflow

section Graph

/-- A part of a buffer. -/
def Region.InBuffer (r : Region) : Prop := ∃ buffer, r.source = .buffer buffer

@[simp] theorem rows_inBuffer (buffer : NnBuffer) : (Region.rows (.buffer buffer)).InBuffer :=
  ⟨buffer, Eq.refl _⟩

@[simp] theorem whole_inBuffer (buffer : NnBuffer) : (Region.whole (.buffer buffer)).InBuffer :=
  ⟨buffer, Eq.refl _⟩

/-- An operation of a layer or of the end: pipes are its input, positions, or written as results. -/
def BodyOp (op : NnOpConfig) : Prop :=
  (∀ r ∈ opReads op, r.InBuffer ∨ r = .rows (.pipe .pos) ∨
      ∃ pipe, op.input.source = .pipe pipe ∧ r = .rows (.pipe pipe)) ∧
    ∀ r ∈ opWrites op, r.InBuffer ∨ r = .rows (.pipe .zq) ∨ r = .rows (.pipe .lg)

/-- Such an operation that leaves the rows of `x`. -/
def InnerOp (op : NnOpConfig) : Prop :=
  BodyOp op ∧ ∀ r ∈ opWrites op, r.source ≠ .buffer .x

attribute [local simp] opReads opWrites configReads configWrites pointerRegion pointerBatchConfig
  Region.source

variable (b : NnNodeBuilder)

theorem moeYqBuffer_ne_x (n : LlmShape) : n.moeYqBuffer ≠ .x := by
  unfold LlmShape.moeYqBuffer
  split <;> decide

/-- All operations of a list leave the rows of `x`. -/
def InnerOps (ops : List NnOpConfig) : Prop := ∀ op ∈ ops, InnerOp op

theorem innerOps_append {first second : List NnOpConfig} (hfirst : InnerOps first)
    (hsecond : InnerOps second) : InnerOps (first ++ second) := by
  intro op hop
  cases List.mem_append.mp hop with
  | inl h => exact hfirst op h
  | inr h => exact hsecond op h

theorem innerOps_norm (preName name : String) (index : ℕ) :
    InnerOps (b.normOps preName name index) := by
  simp [InnerOps, NnNodeBuilder.normOps, InnerOp, BodyOp]

theorem innerOps_castY (name : String) (index : ℕ) : InnerOps (b.castYOps name index) := by
  unfold NnNodeBuilder.castYOps
  split
  · simp [InnerOps, InnerOp, BodyOp]
  · simp [InnerOps]

theorem innerOps_qkv (layerIndex : ℕ) : InnerOps (b.qkvOps layerIndex) := by
  simp [InnerOps, NnNodeBuilder.qkvOps, InnerOp, BodyOp]

theorem innerOps_qkNorm (layerIndex : ℕ) : InnerOps (b.qkNormOps layerIndex) := by
  unfold NnNodeBuilder.qkNormOps
  split
  · simp [InnerOps, InnerOp, BodyOp]
  · simp [InnerOps]

theorem innerOps_rope (layerIndex : ℕ) : InnerOps (b.ropeOps layerIndex) := by
  simp [InnerOps, NnNodeBuilder.ropeOps, InnerOp, BodyOp, pointerRawConfig]

theorem innerOps_attention (layerIndex : ℕ) : InnerOps (b.attentionOps layerIndex) := by
  simp [InnerOps, NnNodeBuilder.attentionOps, NnNodeBuilder.multiheadAttConfig, InnerOp, BodyOp,
    pointerBatchedSliceConfig]

/-- The cast of a factor of the last product of a feed-forward block. -/
theorem innerOps_castD (layerIndex : ℕ) (source target : NnBuffer) (htarget : target ≠ .x) :
    InnerOps (if b.n.Quantized then
      [⟨.cast, "block_cast_d2", layerIndex, pointerBatchConfig (.buffer source),
        pointerBatchConfig (.buffer target), size0, .empty⟩] else []) := by
  split
  · simp [InnerOps, InnerOp, BodyOp, htarget]
  · simp [InnerOps]

theorem innerOps_moe (layerIndex : ℕ) : InnerOps (b.moeOps layerIndex) := by
  have hne := moeYqBuffer_ne_x b.n
  have hcast := innerOps_castD b layerIndex .moeD .qMoeD (by decide)
  apply innerOps_append
  · apply innerOps_append _ hcast
    simp [InnerOps, InnerOp, BodyOp, hne]
  · simp [InnerOps, InnerOp, BodyOp]

theorem innerOps_dense (layerIndex : ℕ) : InnerOps (b.denseOps layerIndex) := by
  have hcast := innerOps_castD b layerIndex .d .qD (by decide)
  apply innerOps_append
  · apply innerOps_append _ hcast
    apply innerOps_append (innerOps_castY b "block_cast_y3" layerIndex)
    simp [InnerOps, InnerOp, BodyOp]
  · simp [InnerOps, InnerOp, BodyOp]

/-- A segment that starts by bringing rows into `x`, from the pipe `X` or by adding to them. -/
structure XSegment (source : Region) (segment : NnSegmentConfig) : Prop where
  /-- The first operation and the others. -/
  split : ∃ op ops, segment.ops = op :: ops ∧ BodyOp op ∧ source ∈ opReads op ∧
    opWrites op = [.rows (.buffer .x)] ∧ InnerOps ops

/-- Every operation of such a segment is a body operation. -/
theorem xSegment_body {source : Region} {segment : NnSegmentConfig} (h : XSegment source segment) :
    ∀ op ∈ segment.ops, BodyOp op := by
  obtain ⟨first, ops, heq, hfirst, _, _, hops⟩ := h.split
  intro op hop
  rw [heq] at hop
  cases List.mem_cons.mp hop with
  | inl h => exact h ▸ hfirst
  | inr h => exact (hops op h).1

/-- A segment that adds to the rows of `x`. -/
abbrev AddsX (segment : NnSegmentConfig) : Prop := XSegment (.rows (.buffer .x)) segment

/-- A segment that sets the rows of `x`. -/
abbrev SetsX (segment : NnSegmentConfig) : Prop := XSegment (.rows (.pipe .x)) segment

/-- Sums of the pipe `ZQ` into `x`. -/
theorem xSegment_mergeAdd {segment : NnSegmentConfig} {name : String} {index : ℕ}
    {ops : List NnOpConfig} (hops : InnerOps ops)
    (h : segment.ops = ⟨.mergeAdd, name, index, pointerBatchConfig (.pipe .zq),
      pointerBatchConfig (.buffer .x), size0, .empty⟩ :: ops) : AddsX segment := by
  refine ⟨_, ops, h, ?_, ?_, ?_, hops⟩
  · simp [BodyOp]
  · simp
  · simp

/-- The operations of an attention after its first. -/
theorem innerOps_att (layerIndex : ℕ) :
    InnerOps (b.normOps "block_norm_pre_0" "block_norm_0" layerIndex ++
      b.castYOps "block_cast_y" layerIndex ++ b.qkvOps layerIndex ++ b.qkNormOps layerIndex ++
      b.ropeOps layerIndex ++ b.attentionOps layerIndex) := by
  apply innerOps_append _ (innerOps_attention b layerIndex)
  apply innerOps_append _ (innerOps_rope b layerIndex)
  apply innerOps_append _ (innerOps_qkNorm b layerIndex)
  apply innerOps_append _ (innerOps_qkv b layerIndex)
  exact innerOps_append (innerOps_norm b _ _ layerIndex) (innerOps_castY b _ layerIndex)

/-- The attention of the first layer takes the rows of `x` from the pipe. -/
theorem setsX_att : SetsX (b.att b.layerStart) := by
  refine ⟨_, _, Eq.refl _, ?_, ?_, ?_, innerOps_att b b.layerStart⟩
  · simp [NnNodeBuilder.blockEntry, BodyOp]
  · simp [NnNodeBuilder.blockEntry]
  · simp [NnNodeBuilder.blockEntry]

/-- The attention of any other layer adds to them. -/
theorem addsX_att {layerIndex : ℕ} (h : layerIndex ≠ b.layerStart) : AddsX (b.att layerIndex) := by
  apply xSegment_mergeAdd (innerOps_att b layerIndex)
  rw [NnNodeBuilder.att, NnNodeBuilder.blockEntry, if_neg h]
  exact Eq.refl _

/-- So does every feed-forward block. -/
theorem addsX_ff (layerIndex : ℕ) : AddsX (b.ff layerIndex) := by
  have hblock : InnerOps (if b.n.header.archType = .qwen3Moe then b.moeOps layerIndex
      else b.denseOps layerIndex) := by
    split
    · exact innerOps_moe b layerIndex
    · exact innerOps_dense b layerIndex
  have hcast : InnerOps [⟨.cast, "block_cast_d3", layerIndex, pointerBatchConfig (.buffer .y),
      pointerBatchConfig (.pipe .zq), size0, .empty⟩] := by
    simp [InnerOps, InnerOp, BodyOp]
  exact xSegment_mergeAdd
    (innerOps_append (innerOps_append (innerOps_norm b _ _ layerIndex) hblock) hcast) (Eq.refl _)

/-- And so does the end. -/
theorem addsX_finalSegment (fusedLmHeadArgmax : Bool) : AddsX (b.finalSegment fusedLmHeadArgmax) := by
  have hlogits : InnerOps (b.logitsOps fusedLmHeadArgmax) := by
    unfold NnNodeBuilder.logitsOps
    split <;>
      simp [InnerOps, InnerOp, BodyOp, pointerBatchedSliceConfig]
  exact xSegment_mergeAdd
    (innerOps_append (innerOps_append (innerOps_norm b _ _ 0) (innerOps_castY b _ 0)) hlogits)
    (Eq.refl _)

/-- What the segments of a single node do with pipes and with `x`. -/
structure NodeShape (node : NnNode) (start : NnSegmentConfig) (body : List NnSegmentConfig) : Prop where
  /-- All segments. -/
  segments_eq : node.config.segments = start :: body
  /-- The start makes the rows of the pipe `X` from the tokens. -/
  start_eq : ∃ op, start.ops = [op] ∧ opReads op = [.rows (.pipe .tok)] ∧
    opWrites op = [.rows (.pipe .x)] ∧ op.input.source = .pipe .tok ∧ op.output.source = .pipe .x
  /-- Every other segment starts with `x`. -/
  body_x : ∀ segment ∈ body, SetsX segment ∨ AddsX segment
  /-- With layers the first of them sets it and all others add to it. -/
  body_order : body.length ≤ 1 ∨
    ∃ first rest, body = first :: rest ∧ SetsX first ∧ ∀ segment ∈ rest, AddsX segment
  /-- Size of the buffer. -/
  x_size : node.sourceSize (.buffer .x) = some (size2D .f32 node.nBatches node.header.dim)

/-- The segments of the layers of a node. -/
theorem layers_order : b.layers.flatMap (fun layerIndex => [b.att layerIndex, b.ff layerIndex]) = [] ∨
    ∃ rest, b.layers.flatMap (fun layerIndex => [b.att layerIndex, b.ff layerIndex]) =
      b.att b.layerStart :: rest ∧ ∀ segment ∈ rest, AddsX segment := by
  unfold NnNodeBuilder.layers
  cases hcount : b.layerEnd - b.layerStart with
  | zero => exact Or.inl (Eq.refl _)
  | succ count =>
    apply Or.inr
    rw [List.range'_succ, List.flatMap_cons]
    refine ⟨_, Eq.refl _, ?_⟩
    intro segment hsegment
    cases List.mem_cons.mp hsegment with
    | inl heq => exact heq ▸ addsX_ff b b.layerStart
    | inr hrest =>
      obtain ⟨layerIndex, hlayer, hmem⟩ := List.mem_flatMap.mp hrest
      have hlater := List.mem_range'_1.mp hlayer
      simp only [List.mem_cons, List.not_mem_nil, or_false] at hmem
      cases hmem with
      | inl heq => exact heq ▸ addsX_att b (by omega)
      | inr heq => exact heq ▸ addsX_ff b layerIndex

/-- The shape of a node that is built alone. -/
theorem nodeShape {node : NnNode} {ppStageLayerCounts : Option (List ℕ)} {fusedLmHeadArgmax : Bool}
    {net : LlmNet} (hnet : buildLlmNet node.header ⟨1, 1, 1, 1⟩ node.nBatches ppStageLayerCounts
      fusedLmHeadArgmax = .ok net) (hnode : net.nodeConfigs = [node.config]) :
    ∃ start body, NodeShape node start body := by
  obtain ⟨layerOffsets, hshape, _, _, hconfigs⟩ := buildLlmNet_ok hnet
  have hheader := (buildShape_ok hshape).1
  obtain ⟨b, hb, hconfig⟩ := hconfigs 0 (by decide)
  rw [hnode] at hconfig
  injection hconfig with hconfig
  have hplacement : b.nodePlacement = ⟨0, 0, 0, 0, 0, 1, 0, 1⟩ := by
    have h := hb.placement_eq
    injection h with h
    exact h.symm
  have htopology : b.topology = ⟨1, 1, 1, 1⟩ := hb.topology_eq
  have hsegments : node.config.segments =
      b.start :: (b.layers.flatMap (fun layerIndex => [b.att layerIndex, b.ff layerIndex]) ++
        [b.finalSegment fusedLmHeadArgmax]) := by
    rw [hconfig]
    simp [NnNodeBuilder.segments, hplacement, htopology]
  refine ⟨b.start, _, hsegments, ?_, ?_, ?_, ?_⟩
  · simp [NnNodeBuilder.start, hplacement]
  · intro segment hsegment
    cases List.mem_append.mp hsegment with
    | inl hlayer =>
      cases layers_order b with
      | inl hnone =>
        rw [hnone] at hlayer
        cases hlayer
      | inr hsome =>
        obtain ⟨rest, heq, hrest⟩ := hsome
        rw [heq] at hlayer
        cases List.mem_cons.mp hlayer with
        | inl hfirst => exact Or.inl (hfirst ▸ setsX_att b)
        | inr hin => exact Or.inr (hrest segment hin)
    | inr hlast =>
      rw [List.mem_singleton.mp hlast]
      exact Or.inr (addsX_finalSegment b fusedLmHeadArgmax)
  · cases layers_order b with
    | inl hnone =>
      rw [hnone]
      exact Or.inl (Nat.le_refl 1)
    | inr hsome =>
      obtain ⟨rest, heq, hrest⟩ := hsome
      rw [heq]
      refine Or.inr ⟨_, rest ++ [b.finalSegment fusedLmHeadArgmax], Eq.refl _, setsX_att b, ?_⟩
      intro segment hsegment
      cases List.mem_append.mp hsegment with
      | inl hin => exact hrest segment hin
      | inr hlast =>
        rw [List.mem_singleton.mp hlast]
        exact addsX_finalSegment b fusedLmHeadArgmax
  · rw [NnNode.sourceSize, hconfig]
    simp [NnNodeBuilder.buffers, hb.shape_eq, hheader]

end Graph

namespace NnNode

variable {node : NnNode} {kernels : node.Kernels} {batchSize : ℕ}

section Copies

theorem copyPipes_pipe (source target : Memory) (pipes : List NnPipe) (pipe : NnPipe) (k : ℕ) :
    node.copyPipes batchSize pipes source target (.pipe pipe, k) =
      if pipe ∈ pipes ∧ k < node.sliceSize batchSize pipe then source (.pipe pipe, k)
      else target (.pipe pipe, k) := by
  unfold copyPipes
  induction pipes generalizing target with
  | nil => simp
  | cons p pipes ih =>
    rw [List.foldl_cons, ih]
    by_cases hmem : pipe ∈ pipes ∧ k < node.sliceSize batchSize pipe
    · rw [if_pos hmem, if_pos ⟨List.mem_cons_of_mem p hmem.1, hmem.2⟩]
    · rw [if_neg hmem]
      by_cases hp : p = pipe ∧ k < node.sliceSize batchSize pipe
      · have ⟨heq, hlt⟩ := hp
        rw [if_pos ⟨heq ▸ List.mem_cons_self, hlt⟩, copyPipe, heq, if_pos ⟨Eq.refl _, hlt⟩]
      · have hnone : ¬(pipe ∈ p :: pipes ∧ k < node.sliceSize batchSize pipe) := by
          intro h
          cases List.mem_cons.mp h.1 with
          | inl heq => exact hp ⟨heq.symm, h.2⟩
          | inr hin => exact hmem ⟨hin, h.2⟩
        have hother : ¬((NnSource.pipe pipe, k).1 = NnSource.pipe p ∧
            (NnSource.pipe pipe, k).2 < node.sliceSize batchSize p) := by
          intro h
          injection h.1 with heq
          exact hp ⟨heq.symm, heq ▸ h.2⟩
        rw [if_neg hnone, copyPipe, if_neg hother]

/-- Copies of pipes leave buffers. -/
theorem copyPipes_buffer (source target : Memory) (pipes : List NnPipe) (buffer : NnBuffer) (k : ℕ) :
    node.copyPipes batchSize pipes source target (.buffer buffer, k) = target (.buffer buffer, k) := by
  unfold copyPipes
  induction pipes generalizing target with
  | nil => exact Eq.refl _
  | cons p pipes ih =>
    rw [List.foldl_cons, ih]
    simp [copyPipe]

/-- The copied part of a pipe has the rows of the batch. -/
theorem lt_sliceSize {pipe : NnPipe} {k : ℕ} (hpos : 0 < node.nBatches)
    (hbatch : batchSize ≤ node.nBatches)
    (h : node.InRegion batchSize (.pipe pipe, k) (.rows (.pipe pipe))) :
    k < node.sliceSize batchSize pipe := by
  have hle : batchSize * rowBytes (node.pipeSize pipe) ≤ node.sliceSize batchSize pipe :=
    le_calcSliceSize node.nonCoherentAtomSize hpos hbatch
  have hsize : (node.pipeSize pipe).z = 1 ∧ (node.pipeSize pipe).y = node.nBatches := by
    cases pipe <;> exact ⟨Eq.refl _, Eq.refl _⟩
  have hrow := h.2
  simp only [rowOf, sourceSize, hsize.1, hsize.2, one_mul] at hrow
  split at hrow
  · rename_i hlt
    have hrowLt : k / rowBytes (node.pipeSize pipe) % node.nBatches < batchSize := by simpa using hrow
    have hdiv : k / rowBytes (node.pipeSize pipe) < node.nBatches :=
      Nat.div_lt_of_lt_mul (by rw [Nat.mul_comm]; exact hlt)
    rw [Nat.mod_eq_of_lt hdiv] at hrowLt
    have hzero : 0 < rowBytes (node.pipeSize pipe) := by
      by_contra hnot
      have heq : rowBytes (node.pipeSize pipe) = 0 := by omega
      rw [heq, Nat.mul_zero] at hlt
      omega
    have hk : k < batchSize * rowBytes (node.pipeSize pipe) :=
      (Nat.div_lt_iff_lt_mul hzero).mp hrowLt
    omega
  · simp at hrow

end Copies

section Operations

/-- A byte is in the pipe or buffer of its part. -/
theorem source_of_inRegion {l : Location} {r : Region} (h : node.InRegion batchSize l r) :
    r.source = l.1 := by
  cases r with
  | rows source => exact h.1.symm
  | whole source => exact h.symm

/-- Operations leave a byte that none of them writes. -/
theorem runOps_of_notMem {ops : List NnOpConfig} {m : Memory} {l : Location}
    (h : ∀ op ∈ ops, l ∉ node.bytes batchSize (opWrites op)) :
    node.runOps kernels batchSize ops m l = m l := by
  apply run_of_notMem
  intro hl
  obtain ⟨a, ha, hw⟩ := hl
  rw [accesses, List.map_map, List.mem_map] at ha
  obtain ⟨op, hop, ha⟩ := ha
  rw [← ha] at hw
  exact h op hop hw

/-- Operations leave a pipe or buffer that none of them writes. -/
theorem runOps_of_source_ne {ops : List NnOpConfig} {m : Memory} {l : Location}
    (h : ∀ op ∈ ops, ∀ r ∈ opWrites op, r.source ≠ l.1) :
    node.runOps kernels batchSize ops m l = m l := by
  apply runOps_of_notMem
  intro op hop hl
  obtain ⟨r, hr, hin⟩ := hl
  exact h op hop r hr (source_of_inRegion hin)

variable (kernels) in
/-- Operations on two memories that agree where they read and write. -/
theorem runOps_agree {agreed : Set Location} {ops : List NnOpConfig} {m m' : Memory}
    (hops : ∀ op ∈ ops, node.bytes batchSize (opReads op ++ opWrites op) ⊆ agreed)
    (h : Set.EqOn m m' agreed) :
    node.observations kernels batchSize ops m = node.observations kernels batchSize ops m' ∧
      Set.EqOn (node.runOps kernels batchSize ops m) (node.runOps kernels batchSize ops m')
        agreed := by
  induction ops generalizing m m' with
  | nil => exact ⟨Eq.refl _, h⟩
  | cons op ops ih =>
    have hop := hops op List.mem_cons_self
    have hstep : Set.EqOn ((node.action kernels batchSize op).apply m)
        ((node.action kernels batchSize op).apply m') agreed :=
      ((node.action kernels batchSize op).eqOn_apply hop h).mono Set.subset_union_left
    have ⟨hobs, hrun⟩ := ih (fun o ho => hops o (List.mem_cons_of_mem op ho)) hstep
    have hobserve : node.observe batchSize op m = node.observe batchSize op m' := by
      unfold observe
      congr 1
      funext l
      split
      · rename_i hl
        obtain ⟨r, hr, hin⟩ := hl
        rw [h (hop ⟨r, List.mem_append_left _ hr, hin⟩)]
      · exact Eq.refl _
    constructor
    · rw [observations, observations, hobserve, hobs]
    · exact hrun

end Operations

section SameDevice

variable {start body : NnDeviceKind} {s : NnDevices} {m : Memory} {segmentIndex : ℕ}
  {segment : NnSegmentConfig}

/-- Two devices, with the start on one and all other segments on one, hold what a single memory holds:
the host its pipes, the device of the other segments its buffers, the graphics device the pipes that it
fills. -/
structure Agrees (start body : NnDeviceKind) (s : NnDevices) (m : Memory) : Prop where
  /-- Pipes of the host. -/
  pipes : ∀ pipe k, s.host (.pipe pipe, k) = m (.pipe pipe, k)
  /-- Buffers. -/
  buffers : ∀ buffer k, s.memory body (.buffer buffer, k) = m (.buffer buffer, k)
  /-- The pipe that the start fills. -/
  made : start = .gpu → ∀ k, s.gpu (.pipe .x, k) = m (.pipe .x, k)
  /-- The pipes that the other segments fill. -/
  results : body = .gpu → ∀ pipe, pipe = .zq ∨ pipe = .lg → ∀ k,
    s.gpu (.pipe pipe, k) = m (.pipe pipe, k)

variable (node batchSize) in
/-- The graphics device has the positions. -/
def Positioned (body : NnDeviceKind) (s : NnDevices) (m : Memory) : Prop :=
  body = .gpu → ∀ k, node.InRegion batchSize (.pipe .pos, k) (.rows (.pipe .pos)) →
    s.gpu (.pipe .pos, k) = m (.pipe .pos, k)

/-- The part of a pointer is in what it points to. -/
theorem pointerRegion_source (pointer : NnPointerConfig) :
    (pointerRegion pointer).source = pointer.source := by
  unfold pointerRegion
  split <;> exact Eq.refl _

/-- The output of a body operation, if it is a pipe. -/
theorem output_pipe {op : NnOpConfig} (hop : BodyOp op) {pipe : NnPipe}
    (h : op.output.source = .pipe pipe) : pipe = .zq ∨ pipe = .lg := by
  have hsource := (pointerRegion_source op.output).trans h
  cases hop.2 (pointerRegion op.output) List.mem_cons_self with
  | inl hbuffer =>
    obtain ⟨buffer, hbuffer⟩ := hbuffer
    rw [hbuffer] at hsource
    cases hsource
  | inr hrows =>
    cases hrows with
    | inl hzq =>
      rw [hzq] at hsource
      injection hsource with hpipe
      exact Or.inl hpipe.symm
    | inr hlg =>
      rw [hlg] at hsource
      injection hsource with hpipe
      exact Or.inr hpipe.symm

/-- What an operation writes in a pipe is in its output. -/
theorem output_of_written {op : NnOpConfig} {pipe : NnPipe} {k : ℕ}
    (h : (NnSource.pipe pipe, k) ∈ node.bytes batchSize (opWrites op)) :
    op.output.source = .pipe pipe := by
  obtain ⟨r, hr, hin⟩ := h
  have hsource := source_of_inRegion hin
  cases List.mem_cons.mp hr with
  | inl heq =>
    rw [heq, pointerRegion_source] at hsource
    exact hsource
  | inr hconfig =>
    unfold configWrites at hconfig
    split at hconfig
    · rw [List.mem_singleton.mp hconfig] at hsource
      cases hsource
    · rw [List.mem_singleton.mp hconfig] at hsource
      cases hsource
    · cases hconfig

/-- A pipe that a body operation writes is its output, and only the rows of the batch are written. -/
theorem written_pipe {op : NnOpConfig} (hop : BodyOp op) {pipe : NnPipe} {k : ℕ}
    (h : (NnSource.pipe pipe, k) ∈ node.bytes batchSize (opWrites op)) :
    (pipe = .zq ∨ pipe = .lg) ∧
      node.InRegion batchSize (.pipe pipe, k) (.rows (.pipe pipe)) := by
  refine ⟨output_pipe hop (output_of_written h), ?_⟩
  obtain ⟨r, hr, hin⟩ := h
  have hsource := source_of_inRegion hin
  cases hop.2 r hr with
  | inl hbuffer =>
    obtain ⟨buffer, hbuffer⟩ := hbuffer
    rw [hbuffer] at hsource
    cases hsource
  | inr hrows =>
    cases hrows with
    | inl hzq =>
      rw [hzq] at hsource hin
      have heq : NnSource.pipe .zq = .pipe pipe := hsource
      rw [heq] at hin
      exact hin
    | inr hlg =>
      rw [hlg] at hsource hin
      have heq : NnSource.pipe .lg = .pipe pipe := hsource
      rw [heq] at hin
      exact hin

/-- The bytes that a copied pipe has on the graphics device are those of the host or its own. -/
theorem loaded_pipe {pipe : NnPipe} (h : ∀ k, s.host (.pipe pipe, k) = m (.pipe pipe, k))
    (hgpu : ∀ k, s.gpu (.pipe pipe, k) = m (.pipe pipe, k)) (k : ℕ) :
    node.loaded batchSize .gpu segmentIndex segment s (.pipe pipe, k) = m (.pipe pipe, k) := by
  rw [loaded, copyPipes_pipe]
  split
  · exact h k
  · exact hgpu k

/-- The rows of a copied pipe are those of the host. -/
theorem loaded_rows {pipe : NnPipe} {k : ℕ} (hpos : 0 < node.nBatches)
    (hbatch : batchSize ≤ node.nBatches) (hmem : pipe ∈ loadedPipes segmentIndex segment)
    (h : node.InRegion batchSize (.pipe pipe, k) (.rows (.pipe pipe))) :
    node.loaded batchSize .gpu segmentIndex segment s (.pipe pipe, k) = s.host (.pipe pipe, k) := by
  rw [loaded, copyPipes_pipe, if_pos ⟨hmem, lt_sliceSize hpos hbatch h⟩]

/-- Copies back to the host give it the pipes of a single memory, when the graphics device has the
results and only rows of copied pipes were written. -/
theorem copied_back {ops : List NnOpConfig} {g m' : Memory} (hpos : 0 < node.nBatches)
    (hbatch : batchSize ≤ node.nBatches) (hhost : ∀ pipe k, s.host (.pipe pipe, k) = m (.pipe pipe, k))
    (hm' : m' = node.runOps kernels batchSize ops m)
    (hout : ∀ pipe ∈ pipesOf (ops.map NnOpConfig.output), ∀ k,
      g (.pipe pipe, k) = m' (.pipe pipe, k))
    (hrows : ∀ op ∈ ops, ∀ pipe k, (NnSource.pipe pipe, k) ∈ node.bytes batchSize (opWrites op) →
      node.InRegion batchSize (.pipe pipe, k) (.rows (.pipe pipe))) (pipe : NnPipe) (k : ℕ) :
    node.copyPipes batchSize (pipesOf (ops.map NnOpConfig.output)) g s.host (.pipe pipe, k) =
      m' (.pipe pipe, k) := by
  rw [copyPipes_pipe]
  split
  · rename_i hcopied
    exact hout pipe hcopied.1 k
  · rename_i hnot
    rw [hhost, hm']
    apply Eq.symm
    apply runOps_of_notMem
    intro op hop hwritten
    apply hnot
    constructor
    · exact mem_pipesOf.mpr ⟨op.output, List.mem_map_of_mem hop, output_of_written hwritten⟩
    · exact lt_sliceSize hpos hbatch (hrows op hop pipe k hwritten)

/-- The positions that a segment of the graphics device reads. -/
theorem positions_loaded (hpos : 0 < node.nBatches) (hbatch : batchSize ≤ node.nBatches)
    (h : Agrees start .gpu s m)
    (hpositions : segmentIndex = 1 ∨ Positioned node batchSize .gpu s m) {k : ℕ}
    (hin : node.InRegion batchSize (.pipe .pos, k) (.rows (.pipe .pos))) :
    node.loaded batchSize .gpu segmentIndex segment s (.pipe .pos, k) = m (.pipe .pos, k) := by
  cases hpositions with
  | inl hone =>
    have hmem : NnPipe.pos ∈ loadedPipes segmentIndex segment := by
      apply List.mem_append_left
      rw [if_pos (Or.inr hone)]
      exact List.mem_singleton_self _
    exact (loaded_rows hpos hbatch hmem hin).trans (h.pipes .pos k)
  | inr hpositioned =>
    have hgpu := hpositioned (Eq.refl _) k hin
    rw [loaded, copyPipes_pipe]
    split
    · exact h.pipes .pos k
    · exact hgpu

/-- What a segment of the graphics device reads and writes there is as in a single memory. -/
theorem body_loaded (hpos : 0 < node.nBatches) (hbatch : batchSize ≤ node.nBatches)
    (hsegment : ∀ op ∈ segment.ops, BodyOp op) (h : Agrees start .gpu s m)
    (hpositions : segmentIndex = 1 ∨ Positioned node batchSize .gpu s m) :
    ∀ op ∈ segment.ops, node.bytes batchSize (opReads op ++ opWrites op) ⊆
      {l | node.loaded batchSize .gpu segmentIndex segment s l = m l} := by
  have hbuffer : ∀ buffer k,
      node.loaded batchSize .gpu segmentIndex segment s (.buffer buffer, k) =
        m (.buffer buffer, k) := by
    intro buffer k
    rw [loaded, copyPipes_buffer]
    exact h.buffers buffer k
  have hresult : ∀ pipe, pipe = .zq ∨ pipe = .lg → ∀ k,
      node.loaded batchSize .gpu segmentIndex segment s (.pipe pipe, k) = m (.pipe pipe, k) :=
    fun pipe hp k => loaded_pipe (h.pipes pipe) (h.results (Eq.refl _) pipe hp) k
  intro op hop l hl
  obtain ⟨r, hr, hin⟩ := hl
  have hsource := source_of_inRegion hin
  obtain ⟨source, k⟩ := l
  cases source with
  | buffer buffer => exact hbuffer buffer k
  | pipe pipe =>
    cases List.mem_append.mp hr with
    | inr hwrite =>
      have ⟨hp, _⟩ := written_pipe (hsegment op hop) ⟨r, hwrite, hin⟩
      exact hresult pipe hp k
    | inl hread =>
      cases (hsegment op hop).1 r hread with
      | inl hr =>
        obtain ⟨buffer, hr⟩ := hr
        rw [hr] at hsource
        cases hsource
      | inr hr =>
        cases hr with
        | inl hpos' =>
          rw [hpos'] at hin hsource
          injection hsource with hpipe
          rw [← hpipe] at hin ⊢
          exact positions_loaded hpos hbatch h hpositions hin
        | inr hinput =>
          obtain ⟨p, hp, hr⟩ := hinput
          rw [hr] at hin hsource
          injection hsource with hpipe
          rw [← hpipe] at hin ⊢
          have hmem : p ∈ loadedPipes segmentIndex segment := by
            apply List.mem_append_right
            exact mem_pipesOf.mpr ⟨op.input, List.mem_map_of_mem hop, hp⟩
          exact (loaded_rows hpos hbatch hmem hin).trans (h.pipes p k)

/-- Body operations write the rows of two pipes only. -/
theorem body_unwritten {ops : List NnOpConfig} (hops : ∀ op ∈ ops, BodyOp op) {pipe : NnPipe}
    (hzq : pipe ≠ .zq) (hlg : pipe ≠ .lg) (m : Memory) (k : ℕ) :
    node.runOps kernels batchSize ops m (.pipe pipe, k) = m (.pipe pipe, k) := by
  apply runOps_of_notMem
  intro op hop hwritten
  cases (written_pipe (hops op hop) hwritten).1 with
  | inl h => exact hzq h
  | inr h => exact hlg h

variable (kernels) in
/-- A segment after the start, on the device of all of them. -/
theorem body_step (hpos : 0 < node.nBatches) (hbatch : batchSize ≤ node.nBatches)
    (hsegment : ∀ op ∈ segment.ops, BodyOp op) (h : Agrees start body s m)
    (hpositions : segmentIndex = 1 ∨ Positioned node batchSize body s m) :
    node.observations kernels batchSize segment.ops
        (node.loaded batchSize body segmentIndex segment s) =
        node.observations kernels batchSize segment.ops m ∧
      Agrees start body (node.forwardSegment kernels batchSize body segmentIndex segment s)
        (node.runOps kernels batchSize segment.ops m) ∧
      Positioned node batchSize body
        (node.forwardSegment kernels batchSize body segmentIndex segment s)
        (node.runOps kernels batchSize segment.ops m) := by
  cases body with
  | cpu =>
    have hhost : s.host = m := by
      funext l
      obtain ⟨source, k⟩ := l
      cases source with
      | pipe pipe => exact h.pipes pipe k
      | buffer buffer => exact h.buffers buffer k
    rw [loaded, forwardSegment, loaded, hhost]
    refine ⟨Eq.refl _, ⟨fun _ _ => Eq.refl _, fun _ _ => Eq.refl _, ?_, nofun⟩, nofun⟩
    intro hstart k
    rw [body_unwritten hsegment (by decide) (by decide)]
    exact h.made hstart k
  | gpu =>
    have hagreed := body_loaded hpos hbatch hsegment h hpositions
    have ⟨hobs, hrun⟩ := runOps_agree kernels hagreed fun l hl => hl
    have hresult : ∀ pipe, pipe = .zq ∨ pipe = .lg → ∀ k,
        node.runOps kernels batchSize segment.ops
            (node.loaded batchSize .gpu segmentIndex segment s) (.pipe pipe, k) =
          node.runOps kernels batchSize segment.ops m (.pipe pipe, k) :=
      fun pipe hp k => hrun (loaded_pipe (h.pipes pipe) (h.results (Eq.refl _) pipe hp) k)
    refine ⟨hobs, ⟨?_, ?_, ?_, ?_⟩, ?_⟩
    · apply copied_back hpos hbatch h.pipes (Eq.refl _)
      · intro pipe hpipe k
        obtain ⟨pointer, hpointer, hsource⟩ := mem_pipesOf.mp hpipe
        obtain ⟨op, hop, heq⟩ := List.mem_map.mp hpointer
        rw [← heq] at hsource
        exact hresult pipe (output_pipe (hsegment op hop) hsource) k
      · intro op hop pipe k hwritten
        exact (written_pipe (hsegment op hop) hwritten).2
    · intro buffer k
      apply hrun
      rw [Set.mem_ofPred_eq, loaded, copyPipes_buffer]
      exact h.buffers buffer k
    · intro hstart k
      have hloaded : node.loaded batchSize .gpu segmentIndex segment s (.pipe .x, k) =
          m (.pipe .x, k) := loaded_pipe (h.pipes .x) (h.made hstart) k
      exact hrun hloaded
    · intro _ pipe hp k
      exact hresult pipe hp k
    · intro _ k hin
      have hloaded : node.loaded batchSize .gpu segmentIndex segment s (.pipe .pos, k) =
          m (.pipe .pos, k) := positions_loaded hpos hbatch h hpositions hin
      exact hrun hloaded

/-- The operation of the start. -/
def StartOp (op : NnOpConfig) : Prop :=
  opReads op = [.rows (.pipe .tok)] ∧ opWrites op = [.rows (.pipe .x)] ∧
    op.input.source = .pipe .tok ∧ op.output.source = .pipe .x

/-- The start writes the rows of one pipe only. -/
theorem written_start {op : NnOpConfig} (hop : StartOp op) {l : Location}
    (h : l ∈ node.bytes batchSize (opWrites op)) :
    l.1 = .pipe .x ∧ node.InRegion batchSize l (.rows (.pipe .x)) := by
  obtain ⟨r, hr, hin⟩ := h
  rw [hop.2.1] at hr
  rw [List.mem_singleton.mp hr] at hin
  exact ⟨hin.1, hin⟩

/-- The start leaves everything else. -/
theorem start_unwritten {op : NnOpConfig} (hop : StartOp op) {l : Location} (hl : l.1 ≠ .pipe .x)
    (m : Memory) : node.runOps kernels batchSize [op] m l = m l := by
  apply runOps_of_notMem
  intro o ho hwritten
  rw [List.mem_singleton.mp ho] at hwritten
  exact hl (written_start hop hwritten).1

/-- The pipes of results are not the one that the start fills. -/
theorem result_ne_x {pipe : NnPipe} (h : pipe = .zq ∨ pipe = .lg) :
    NnSource.pipe pipe ≠ .pipe .x := by
  cases h with
  | inl hzq =>
    rw [hzq]
    exact nofun
  | inr hlg =>
    rw [hlg]
    exact nofun

/-- Nor is a buffer. -/
theorem buffer_ne_x (buffer : NnBuffer) (k : ℕ) : (NnSource.buffer buffer, k).1 ≠ .pipe .x := nofun

/-- What the start reads and writes is in two pipes. -/
theorem start_bytes {op : NnOpConfig} (hop : StartOp op) {agreed : Set Location}
    (htok : ∀ k, node.InRegion batchSize (.pipe .tok, k) (.rows (.pipe .tok)) →
      (NnSource.pipe .tok, k) ∈ agreed)
    (hx : ∀ k, (NnSource.pipe .x, k) ∈ agreed) :
    ∀ o ∈ [op], node.bytes batchSize (opReads o ++ opWrites o) ⊆ agreed := by
  intro o ho l hl
  rw [List.mem_singleton.mp ho, hop.1, hop.2.1] at hl
  obtain ⟨r, hr, hin⟩ := hl
  obtain ⟨source, k⟩ := l
  cases List.mem_cons.mp hr with
  | inl hread =>
    rw [hread] at hin
    have hsource : source = .pipe .tok := hin.1
    rw [hsource] at hin ⊢
    exact htok k hin
  | inr hwrite =>
    rw [List.mem_singleton.mp hwrite] at hin
    have hsource : source = .pipe .x := hin.1
    rw [hsource]
    exact hx k

variable (kernels) in
/-- The start, on its device. -/
theorem start_step (hpos : 0 < node.nBatches) (hbatch : batchSize ≤ node.nBatches) {op : NnOpConfig}
    (hop : StartOp op) (hsegment : segment.ops = [op]) (h : Agrees start body s m) :
    node.observations kernels batchSize segment.ops
        (node.loaded batchSize start 0 segment s) =
        node.observations kernels batchSize segment.ops m ∧
      Agrees start body (node.forwardSegment kernels batchSize start 0 segment s)
        (node.runOps kernels batchSize segment.ops m) := by
  cases start with
  | cpu =>
    rw [forwardSegment, hsegment, loaded]
    have hagreed : ∀ o ∈ [op], node.bytes batchSize (opReads o ++ opWrites o) ⊆
        {l | s.host l = m l} := start_bytes hop (fun k _ => h.pipes .tok k) (h.pipes .x)
    have ⟨hobs, hrun⟩ := runOps_agree kernels hagreed fun l hl => hl
    refine ⟨hobs, ⟨?_, ?_, nofun, ?_⟩⟩
    · intro pipe k
      exact hrun (h.pipes pipe k)
    · intro buffer k
      cases body with
      | cpu => exact hrun (h.buffers buffer k)
      | gpu =>
        rw [start_unwritten hop (buffer_ne_x buffer k)]
        exact h.buffers buffer k
    · intro hbody pipe hp k
      rw [start_unwritten hop (result_ne_x hp)]
      exact h.results hbody pipe hp k
  | gpu =>
    have htok : ∀ k, node.InRegion batchSize (.pipe .tok, k) (.rows (.pipe .tok)) →
        node.loaded batchSize .gpu 0 segment s (.pipe .tok, k) = m (.pipe .tok, k) := by
      intro k hin
      have hmem : NnPipe.tok ∈ loadedPipes 0 segment := by
        apply List.mem_append_right
        rw [hsegment]
        exact mem_pipesOf.mpr ⟨op.input, List.mem_singleton_self _, hop.2.2.1⟩
      exact (loaded_rows hpos hbatch hmem hin).trans (h.pipes .tok k)
    have hx : ∀ k, node.loaded batchSize .gpu 0 segment s (.pipe .x, k) = m (.pipe .x, k) :=
      loaded_pipe (h.pipes .x) (h.made (Eq.refl _))
    have hagreed : ∀ o ∈ [op], node.bytes batchSize (opReads o ++ opWrites o) ⊆
        {l | node.loaded batchSize .gpu 0 segment s l = m l} := start_bytes hop htok hx
    have ⟨hobs, hrun⟩ := runOps_agree kernels hagreed fun l hl => hl
    rw [forwardSegment, hsegment]
    refine ⟨hobs, ⟨?_, ?_, ?_, ?_⟩⟩
    · apply copied_back hpos hbatch h.pipes (Eq.refl _)
      · intro pipe hpipe k
        obtain ⟨pointer, hpointer, hsource⟩ := mem_pipesOf.mp hpipe
        rw [List.map_singleton, List.mem_singleton] at hpointer
        rw [hpointer, hop.2.2.2] at hsource
        injection hsource with hsource
        rw [← hsource]
        exact hrun (hx k)
      · intro o ho pipe k hwritten
        rw [List.mem_singleton.mp ho] at hwritten
        have ⟨heq, hin⟩ := written_start hop hwritten
        have hpipe : NnSource.pipe pipe = .pipe .x := heq
        rw [hpipe] at hin ⊢
        exact hin
    · intro buffer k
      rw [start_unwritten hop (buffer_ne_x buffer k), ← h.buffers buffer k]
      cases body with
      | cpu => exact copyPipes_buffer _ _ _ buffer k
      | gpu =>
        exact (start_unwritten hop (buffer_ne_x buffer k) _).trans
          (copyPipes_buffer _ _ _ buffer k)
    · intro _ k
      exact hrun (hx k)
    · intro hbody pipe hp k
      have hne := result_ne_x hp
      rw [start_unwritten hop hne m]
      exact (start_unwritten hop hne _).trans
        (loaded_pipe (h.pipes pipe) (h.results hbody pipe hp) k)

theorem setInputs_host (f : NnForward) (t : NnDevices) (l : Location) :
    (node.setInputs f t).host l =
      if l ∈ node.bytes f.batchSize [.rows (.pipe .pos), .rows (.pipe .tok)] then f.inputs l
      else t.host l := Eq.refl _

/-- The host writes positions and tokens only. -/
theorem setInputs_other (f : NnForward) (t : NnDevices) (source : NnSource) (k : ℕ)
    (hpos : source ≠ .pipe .pos) (htok : source ≠ .pipe .tok) :
    (node.setInputs f t).host (source, k) = t.host (source, k) := by
  apply if_neg
  intro hl
  obtain ⟨r, hr, hin⟩ := hl
  have hsource := source_of_inRegion hin
  cases List.mem_cons.mp hr with
  | inl heq =>
    rw [heq] at hsource
    exact hpos hsource.symm
  | inr heq =>
    rw [List.mem_singleton.mp heq] at hsource
    exact htok hsource.symm

variable (node) in
/-- The host writes positions and tokens on two devices as in a single memory. -/
theorem agrees_setInputs (f : NnForward) {t : NnDevices} (h : Agrees start body s t.host) :
    Agrees start body (node.setInputs f s) (node.setInputs f t).host := by
  constructor
  · intro pipe k
    rw [setInputs_host, setInputs_host, h.pipes pipe k]
  · intro buffer k
    rw [setInputs_other f t (.buffer buffer) k nofun nofun, ← h.buffers buffer k]
    cases body with
    | cpu => exact setInputs_other f s (.buffer buffer) k nofun nofun
    | gpu => exact Eq.refl _
  · intro hstart k
    rw [setInputs_other f t (.pipe .x) k nofun nofun]
    exact h.made hstart k
  · intro hbody pipe hp k
    cases hp with
    | inl heq =>
      rw [heq, setInputs_other f t (.pipe .zq) k nofun nofun]
      exact h.results hbody .zq (Or.inl (Eq.refl _)) k
    | inr heq =>
      rw [heq, setInputs_other f t (.pipe .lg) k nofun nofun]
      exact h.results hbody .lg (Or.inr (Eq.refl _)) k

variable (kernels) in
/-- The segments after the start, on one device. -/
theorem body_run (hpos : 0 < node.nBatches) (hbatch : batchSize ≤ node.nBatches)
    {deviceOf : ℕ → NnDeviceKind} {segments : List NnSegmentConfig} {t : NnDevices} {i : ℕ}
    (hdevice : ∀ j, i ≤ j → j < i + segments.length → deviceOf j = body)
    (hsegments : ∀ segment ∈ segments, ∀ op ∈ segment.ops, BodyOp op)
    (h : Agrees start body s t.host)
    (hpositions : i = 1 ∨ Positioned node batchSize body s t.host) :
    node.segmentsObservations kernels batchSize deviceOf i segments s =
        node.segmentsObservations kernels batchSize (fun _ => .cpu) i segments t ∧
      Agrees start body (node.runSegments kernels batchSize deviceOf i segments s)
        (node.runSegments kernels batchSize (fun _ => .cpu) i segments t).host := by
  induction segments generalizing s t i with
  | nil => exact ⟨Eq.refl _, h⟩
  | cons segment segments ih =>
    rw [List.length_cons] at hdevice
    have hi : deviceOf i = body := hdevice i (Nat.le_refl i) (by omega)
    have ⟨hobs, hnext, hpositioned⟩ :=
      body_step kernels hpos hbatch (hsegments segment List.mem_cons_self) h hpositions
    have hrest := ih (i := i + 1) (t := node.forwardSegment kernels batchSize .cpu i segment t)
      (fun j hij hj => hdevice j (by omega) (by omega))
      (fun other hmem => hsegments other (List.mem_cons_of_mem segment hmem)) hnext
      (Or.inr hpositioned)
    simp only [segmentsObservations, runSegments, hi]
    constructor
    · rw [hobs, hrest.1]
      exact Eq.refl _
    · exact hrest.2

variable (kernels) in
/-- A forward on two devices. -/
theorem forward_agrees (hpos : 0 < node.nBatches) {first : NnSegmentConfig}
    {rest : List NnSegmentConfig} (hshape : NodeShape node first rest)
    {deviceOf : ℕ → NnDeviceKind} {f : NnForward} (hbatch : f.batchSize ≤ node.nBatches)
    (hstart : deviceOf 0 = start) (hbody : ∀ j, 1 ≤ j → j < 1 + rest.length → deviceOf j = body)
    {t : NnDevices} (h : Agrees start body s t.host) :
    node.output kernels deviceOf f s = node.output kernels (fun _ => .cpu) f t ∧
      Agrees start body (node.forward kernels deviceOf f s)
        (node.forward kernels (fun _ => .cpu) f t).host := by
  obtain ⟨op, hops, hreads, hwrites, hinput, houtput⟩ := hshape.start_eq
  have hsegments : ∀ segment ∈ rest, ∀ op ∈ segment.ops, BodyOp op := by
    intro segment hmem
    cases hshape.body_x segment hmem with
    | inl hsets => exact xSegment_body hsets
    | inr hadds => exact xSegment_body hadds
  have hinputs := agrees_setInputs node f h
  have ⟨hobs, hfirst⟩ := start_step kernels hpos hbatch
    ⟨hreads, hwrites, hinput, houtput⟩ hops hinputs
  have ⟨hrest, hend⟩ := body_run kernels
    (t := node.forwardSegment kernels f.batchSize .cpu 0 first (node.setInputs f t)) hpos hbatch
    hbody hsegments hfirst (Or.inl (Eq.refl _))
  have hforward : Agrees start body (node.forward kernels deviceOf f s)
      (node.forward kernels (fun _ => .cpu) f t).host := by
    rw [forward, forward, hshape.segments_eq, runSegments, runSegments, hstart]
    exact hend
  refine ⟨?_, hforward⟩
  rw [output, output, hshape.segments_eq, segmentsObservations, segmentsObservations, hstart, hobs,
    hrest]
  congr 1
  funext l
  split
  · rename_i hl
    obtain ⟨r, hr, hin⟩ := hl
    have hsource := source_of_inRegion hin
    rw [List.mem_singleton.mp hr] at hsource
    obtain ⟨source, k⟩ := l
    have hlg : source = .pipe .lg := hsource.symm
    rw [hlg, hforward.pipes .lg k]
  · exact Eq.refl _

end SameDevice

section OtherDevice

variable {s : NnDevices}

/-- The first byte of the rows of `x`. -/
def xByte : Location := (.buffer .x, 0)

open Classical in
/-- Kernels that pass on whether anything that an operation reads is not 0. -/
noncomputable def taint (node : NnNode) : node.Kernels := fun op batchSize values _ =>
  if ∃ l : (node.access batchSize op).reads, l.1 ∈ node.bytes batchSize (opReads op) ∧ values l ≠ 0
  then 1 else 0

theorem taint_apply {op : NnOpConfig} {m : Memory} {l l' : Location}
    (hwrite : l ∈ node.bytes batchSize (opWrites op)) (hread : l' ∈ node.bytes batchSize (opReads op))
    (hne : m l' ≠ 0) : (node.action node.taint batchSize op).apply m l = 1 := by
  rw [Action.apply_of_mem _ m hwrite]
  apply if_pos
  obtain ⟨r, hr, hin⟩ := hread
  exact ⟨⟨l', r, List.mem_append_left _ hr, hin⟩, ⟨r, hr, hin⟩, hne⟩

/-- The first byte of a pipe or buffer is in its first row. -/
theorem inRegion_zero {source : NnSource} {d : ℕ} (hpos : 0 < node.nBatches) (hd : 0 < d)
    (hbatch : 0 < batchSize) (hsize : node.sourceSize source = some (size2D .f32 node.nBatches d)) :
    node.InRegion batchSize (source, 0) (.rows source) := by
  have hbytes : 0 < node.nBatches * (4 * d) := Nat.mul_pos hpos (by omega)
  have hrow : node.rowOf (source, 0) = some 0 := by
    unfold rowOf
    simp only [hsize, size2D, size3D, rowBytes, getBytes, one_mul]
    rw [if_pos hbytes, Nat.zero_div, Nat.zero_mod]
  refine ⟨Eq.refl _, ?_⟩
  rw [hrow]
  simpa using hbatch

/-- The buffers of a device are what its operations start on. -/
theorem loaded_buffer (device : NnDeviceKind) (i : ℕ) (segment : NnSegmentConfig) (s : NnDevices)
    (buffer : NnBuffer) (k : ℕ) :
    node.loaded batchSize device i segment s (.buffer buffer, k) =
      s.memory device (.buffer buffer, k) := by
  cases device with
  | cpu => exact Eq.refl _
  | gpu => exact copyPipes_buffer _ _ _ buffer k

/-- A segment leaves the buffers of the other device. -/
theorem forwardSegment_other {device other : NnDeviceKind} (h : other ≠ device) (i : ℕ)
    (segment : NnSegmentConfig) (s : NnDevices) (buffer : NnBuffer) (k : ℕ) :
    (node.forwardSegment kernels batchSize device i segment s).memory other (.buffer buffer, k) =
      s.memory other (.buffer buffer, k) := by
  cases device with
  | cpu =>
    cases other with
    | cpu => exact absurd (Eq.refl _) h
    | gpu => exact Eq.refl _
  | gpu =>
    cases other with
    | cpu => exact copyPipes_buffer _ _ _ buffer k
    | gpu => exact absurd (Eq.refl _) h

theorem observations_length (ops : List NnOpConfig) (m : Memory) :
    (node.observations kernels batchSize ops m).length = ops.length := by
  induction ops generalizing m with
  | nil => exact Eq.refl _
  | cons op ops ih => rw [observations, List.length_cons, List.length_cons, ih]

/-- A segment that brings something other than 0 into `x` leaves 1 in it. -/
theorem runOps_x {source : Region} {segment : NnSegmentConfig} {m : Memory} {l : Location}
    (h : XSegment source segment) (hx : node.InRegion batchSize xByte (.rows (.buffer .x)))
    (hl : node.InRegion batchSize l source) (hne : m l ≠ 0) :
    node.runOps node.taint batchSize segment.ops m xByte = 1 := by
  obtain ⟨op, ops, heq, _, hread, hwrite, hops⟩ := h.split
  rw [heq]
  have hrest : node.runOps node.taint batchSize ops
      ((node.action node.taint batchSize op).apply m) xByte =
        (node.action node.taint batchSize op).apply m xByte :=
    runOps_of_source_ne fun o ho r hr => (hops o ho).2 r hr
  have hfirst : (node.action node.taint batchSize op).apply m xByte = 1 := by
    apply taint_apply _ ⟨source, hread, hl⟩ hne
    rw [hwrite]
    exact ⟨_, List.mem_singleton_self _, hx⟩
  exact hrest.trans hfirst

/-- Segments that add to `x` are all on the device that has it, if they read it as in a single
memory. -/
theorem body_devices {deviceOf : ℕ → NnDeviceKind} {device : NnDeviceKind}
    {segments : List NnSegmentConfig} {t : NnDevices} {i : ℕ}
    (hx : node.InRegion batchSize xByte (.rows (.buffer .x)))
    (hsegments : ∀ segment ∈ segments, AddsX segment) (ht : t.host xByte = 1)
    (hs : ∀ other, other ≠ device → s.memory other xByte = 0)
    (hobs : node.segmentsObservations node.taint batchSize deviceOf i segments s =
      node.segmentsObservations node.taint batchSize (fun _ => .cpu) i segments t) :
    ∀ j, i ≤ j → j < i + segments.length → deviceOf j = device := by
  induction segments generalizing s t i with
  | nil =>
    intro j hij hj
    rw [List.length_nil] at hj
    omega
  | cons segment segments ih =>
    have hadds := hsegments segment List.mem_cons_self
    rw [segmentsObservations, segmentsObservations] at hobs
    have hlength : (node.observations node.taint batchSize segment.ops
        (node.loaded batchSize (deviceOf i) i segment s)).length =
        (node.observations node.taint batchSize segment.ops
          (node.loaded batchSize .cpu i segment t)).length := by
      rw [observations_length, observations_length]
    have ⟨hhere, hrest⟩ := List.append_inj hobs hlength
    have hdevice : deviceOf i = device := by
      by_contra hne
      obtain ⟨op, ops, heq, _, hread, _, _⟩ := hadds.split
      rw [heq, observations, observations] at hhere
      injection hhere with hhere _
      have hvalues := congrFun (congrArg Observation.values hhere) xByte
      have hmem : xByte ∈ node.bytes batchSize (opReads op) := ⟨_, hread, hx⟩
      simp only [observe, if_pos hmem] at hvalues
      injection hvalues with hvalues
      have hzero : node.loaded batchSize (deviceOf i) i segment s xByte = 0 :=
        (loaded_buffer (deviceOf i) i segment s .x 0).trans (hs (deviceOf i) hne)
      have hone : node.loaded batchSize .cpu i segment t xByte = 1 := ht
      rw [hzero, hone] at hvalues
      cases hvalues
    have hnext : (node.forwardSegment node.taint batchSize .cpu i segment t).host xByte = 1 := by
      have hne : t.host xByte ≠ 0 := by
        rw [ht]
        decide
      exact runOps_x hadds hx hx hne
    have hother : ∀ other, other ≠ device →
        (node.forwardSegment node.taint batchSize (deviceOf i) i segment s).memory other xByte = 0 := by
      intro other hne
      rw [← hs other hne]
      exact forwardSegment_other (hdevice ▸ hne) i segment s .x 0
    have hlater := ih (fun o ho => hsegments o (List.mem_cons_of_mem segment ho)) hnext hother hrest
    intro j hij hj
    rw [List.length_cons] at hj
    cases Nat.eq_or_lt_of_le hij with
    | inl heq => exact heq ▸ hdevice
    | inr hlt => exact hlater j hlt (by omega)

/-- The start leaves the buffers of both devices. -/
theorem forwardStart_buffer {op : NnOpConfig} (hop : StartOp op) {segment : NnSegmentConfig}
    (hsegment : segment.ops = [op]) (start device : NnDeviceKind) (s : NnDevices) (buffer : NnBuffer)
    (k : ℕ) :
    (node.forwardSegment kernels batchSize start 0 segment s).memory device (.buffer buffer, k) =
      s.memory device (.buffer buffer, k) := by
  by_cases heq : device = start
  · have hkept : ∀ m : Memory, node.runOps kernels batchSize segment.ops m (.buffer buffer, k) =
        m (.buffer buffer, k) := by
      intro m
      rw [hsegment]
      exact start_unwritten hop (buffer_ne_x buffer k) m
    rw [heq]
    cases start with
    | cpu => exact hkept s.host
    | gpu => exact (hkept _).trans (copyPipes_buffer _ _ _ buffer k)
  · exact forwardSegment_other heq 0 segment s buffer k

/-- A forward of one row with a token that is not 0. -/
def oneToken : NnForward := ⟨1, fun l => if l = (.pipe .tok, 0) then 1 else 0⟩

/-- Segments that read what they would in a single memory are on one device. -/
theorem sameDevice_of_transparent {first : NnSegmentConfig} {rest : List NnSegmentConfig}
    (hshape : NodeShape node first rest) (hpos : 0 < node.nBatches) (hdim : 0 < node.header.dim)
    {deviceOf : ℕ → NnDeviceKind}
    (hout : node.outputs node.taint deviceOf [oneToken] ⟨fun _ => 0, fun _ => 0⟩ =
      node.outputs node.taint (fun _ => .cpu) [oneToken] ⟨fun _ => 0, fun _ => 0⟩) :
    ∀ j, 1 ≤ j → j < 1 + rest.length → deviceOf j = deviceOf 1 := by
  obtain ⟨op, hops, hreads, hwrites, hinput, houtput⟩ := hshape.start_eq
  have hstart : StartOp op := ⟨hreads, hwrites, hinput, houtput⟩
  cases hshape.body_order with
  | inl hshort =>
    intro j hj hlt
    have heq : j = 1 := by omega
    rw [heq]
  | inr hlong =>
    obtain ⟨second, others, hrest, hsets, hadds⟩ := hlong
    have hx : node.InRegion 1 xByte (.rows (.buffer .x)) :=
      inRegion_zero hpos hdim Nat.one_pos hshape.x_size
    have hpipe : node.InRegion 1 (.pipe .x, 0) (.rows (.pipe .x)) :=
      inRegion_zero hpos hdim Nat.one_pos (Eq.refl _)
    have htok : node.InRegion 1 (.pipe .tok, 0) (.rows (.pipe .tok)) :=
      inRegion_zero hpos Nat.one_pos Nat.one_pos (Eq.refl _)
    -- What the operations of the forward read is the same, segment by segment.
    injection hout with hout _
    have hobs := congrArg NnOutput.observations hout
    rw [output, output, hshape.segments_eq, segmentsObservations, segmentsObservations] at hobs
    have ⟨_, hobs⟩ := List.append_inj hobs (by rw [observations_length, observations_length])
    rw [hrest, segmentsObservations, segmentsObservations] at hobs
    have ⟨_, hobs⟩ := List.append_inj hobs (by rw [observations_length, observations_length])
    -- In the single memory the token reaches `x`.
    have hone : (node.forwardSegment node.taint 1 .cpu 0 first
        (node.setInputs oneToken ⟨fun _ => 0, fun _ => 0⟩)).host (.pipe .x, 0) = 1 := by
      have hmem : (NnSource.pipe .tok, 0) ∈
          node.bytes oneToken.batchSize [.rows (.pipe .pos), .rows (.pipe .tok)] :=
        ⟨_, List.mem_cons_of_mem _ (List.mem_singleton_self _), htok⟩
      have htoken : (node.setInputs oneToken ⟨fun _ => 0, fun _ => 0⟩).host (.pipe .tok, 0) = 1 := by
        rw [setInputs_host, if_pos hmem]
        simp [oneToken]
      have hwritten : (NnSource.pipe .x, 0) ∈ node.bytes 1 (opWrites op) := by
        rw [hwrites]
        exact ⟨_, List.mem_singleton_self _, hpipe⟩
      have hread : (NnSource.pipe .tok, 0) ∈ node.bytes 1 (opReads op) := by
        rw [hreads]
        exact ⟨_, List.mem_singleton_self _, htok⟩
      have hne : (node.setInputs oneToken ⟨fun _ => 0, fun _ => 0⟩).host (.pipe .tok, 0) ≠ 0 := by
        rw [htoken]
        decide
      rw [forwardSegment, hops]
      exact taint_apply hwritten hread hne
    have htwo : (node.forwardSegment node.taint 1 .cpu 1 second
        (node.forwardSegment node.taint 1 .cpu 0 first
          (node.setInputs oneToken ⟨fun _ => 0, fun _ => 0⟩))).host xByte = 1 := by
      apply runOps_x hsets hx hpipe
      rw [loaded, hone]
      decide
    -- Only one device has it after the second segment.
    have hzero : ∀ other, other ≠ deviceOf 1 →
        (node.forwardSegment node.taint 1 (deviceOf 1) 1 second
          (node.forwardSegment node.taint 1 (deviceOf 0) 0 first
            (node.setInputs oneToken ⟨fun _ => 0, fun _ => 0⟩))).memory other xByte = 0 := by
      intro other hne
      refine (forwardSegment_other hne 1 second _ .x 0).trans ?_
      refine (forwardStart_buffer hstart hops (deviceOf 0) other _ .x 0).trans ?_
      cases other with
      | cpu => exact setInputs_other oneToken _ (.buffer .x) 0 nofun nofun
      | gpu => exact Eq.refl _
    have hlater := body_devices hx hadds htwo hzero hobs
    intro j hj hlt
    rw [hrest, List.length_cons] at hlt
    cases Nat.eq_or_lt_of_le hj with
    | inl heq => rw [← heq]
    | inr hgt => exact hlater j hgt (by omega)

end OtherDevice

/-- Forwards on two devices with all segments after the start on one of them. -/
theorem outputs_agree {first : NnSegmentConfig} {rest : List NnSegmentConfig}
    (hshape : NodeShape node first rest) {deviceOf : ℕ → NnDeviceKind}
    (hbody : ∀ j, 1 ≤ j → j < 1 + rest.length → deviceOf j = deviceOf 1)
    {forwards : List NnForward}
    (hforwards : ∀ f ∈ forwards, 0 < f.batchSize ∧ f.batchSize ≤ node.nBatches) {s t : NnDevices}
    (h : Agrees (deviceOf 0) (deviceOf 1) s t.host) :
    node.outputs kernels deviceOf forwards s = node.outputs kernels (fun _ => .cpu) forwards t := by
  induction forwards generalizing s t with
  | nil => exact Eq.refl _
  | cons f forwards ih =>
    have ⟨hlower, hupper⟩ := hforwards f List.mem_cons_self
    have hpos : 0 < node.nBatches := by omega
    have ⟨houtput, hnext⟩ :=
      forward_agrees kernels hpos hshape hupper (Eq.refl (deviceOf 0)) hbody h
    rw [outputs, outputs, houtput]
    exact congrArg _ (ih (fun g hg => hforwards g (List.mem_cons_of_mem f hg)) hnext)

end NnNode

/-- The placement of the segments of a single node is transparent exactly when all segments after the
start are on one device. -/
theorem transparent_iff {node : NnNode} {ppStageLayerCounts : Option (List ℕ)}
    {fusedLmHeadArgmax : Bool} {net : LlmNet} {args : AppCliArgs}
    (hnet : buildLlmNet node.header ⟨1, 1, 1, 1⟩ node.nBatches ppStageLayerCounts
      fusedLmHeadArgmax = .ok net) (hnode : net.nodeConfigs = [node.config])
    (hargs : node.Accepted args) :
    node.Transparent args ↔ ∀ i, 1 ≤ i → i < node.config.segments.length →
      NnNode.deviceOf args i = NnNode.deviceOf args 1 := by
  obtain ⟨first, rest, hshape⟩ := nodeShape hnet hnode
  have hlength : node.config.segments.length = 1 + rest.length := by
    rw [hshape.segments_eq, List.length_cons, Nat.add_comm]
  rw [hlength]
  constructor
  · intro h
    by_cases hgpu : 0 ≤ args.gpuIndex
    · have hx := hargs.created hgpu .x
      have hbytes : 0 < node.nBatches * (4 * node.header.dim) := hx
      have hpos : 0 < node.nBatches := Nat.pos_of_mul_pos_right hbytes
      have hdim : 0 < 4 * node.header.dim := Nat.pos_of_mul_pos_left hbytes
      apply NnNode.sameDevice_of_transparent hshape hpos (by omega)
      apply h
      intro f hf
      rw [List.mem_singleton.mp hf]
      exact ⟨Nat.one_pos, hpos⟩
    · have hcpu : ∀ i, NnNode.deviceOf args i = .cpu := by
        intro i
        have hnone : resolveDevices args = [⟨.cpu, -1, -1⟩] := by
          rw [resolveDevices, if_neg hgpu, if_pos (Or.inl (by omega)), List.nil_append]
        simp [NnNode.deviceOf, locateDevice, hnone, NnExecutorDevice.Takes]
      intro i _ _
      rw [hcpu, hcpu]
  · intro hbody kernels memory forwards hforwards
    apply NnNode.outputs_agree hshape hbody hforwards
    refine ⟨fun _ _ => Eq.refl _, ?_, fun _ _ => Eq.refl _, fun _ _ _ _ => Eq.refl _⟩
    intro buffer k
    cases NnNode.deviceOf args 1 with
    | cpu => exact Eq.refl _
    | gpu => exact Eq.refl _

/-- A model of one layer. -/
def oneLayer : LlmHeader :=
  ⟨.llama, 4, 1, 2, 2, 2, 0, 0, 4, 4, 0, 4, 4, 8, .llama, .f32, .f32⟩

/-- Its node is built and has four segments. -/
theorem oneLayer_built : ∃ net config, buildLlmNet oneLayer ⟨1, 1, 1, 1⟩ 1 none false = .ok net ∧
    net.nodeConfigs = [config] ∧ config.segments.length = 4 := by
  have hlengths : ((buildLlmNet oneLayer ⟨1, 1, 1, 1⟩ 1 none false).toOption.map fun net =>
      net.nodeConfigs.map fun config => config.segments.length) = some [4] := by decide +kernel
  cases hnet : buildLlmNet oneLayer ⟨1, 1, 1, 1⟩ 1 none false with
  | error text =>
    rw [hnet] at hlengths
    cases hlengths
  | ok net =>
    rw [hnet] at hlengths
    injection hlengths with hlengths
    obtain ⟨config, rest, hnodes, hlength, hrest⟩ := List.map_eq_cons_iff.mp hlengths
    rw [List.map_eq_nil_iff] at hrest
    rw [hrest] at hnodes
    exact ⟨net, config, Eq.refl _, hnodes, hlength⟩

/-- Every range of segments of the graphics device is accepted for that node. -/
theorem oneLayer_accepted (config : NnNodeConfig) {segmentFrom segmentTo : ℤ}
    (hargs : 0 ≤ segmentFrom ∧ 0 ≤ segmentTo) :
    NnNode.Accepted ⟨oneLayer, 1, config, 64⟩ ⟨0, segmentFrom, segmentTo⟩ := by
  constructor
  · intro i _
    have hmem : (⟨.cpu, -1, -1⟩ : NnExecutorDevice) ∈ resolveDevices ⟨0, segmentFrom, segmentTo⟩ := by
      simp [resolveDevices, hargs]
    rw [locateDevice, Option.isSome_map, List.find?_isSome]
    exact ⟨_, hmem, by simp [NnExecutorDevice.Takes]⟩
  · intro _ pipe
    cases pipe <;>
      simp [NnNode.pipeBytes, NnNode.pipeSize, rowBytes, size2D, size3D, getBytes, oneLayer]

theorem transparent_iff_oneLayer : ∃ net config,
    buildLlmNet oneLayer ⟨1, 1, 1, 1⟩ 1 none false = .ok net ∧ net.nodeConfigs = [config] ∧
      NnNode.Accepted ⟨oneLayer, 1, config, 64⟩ ⟨0, 1, 3⟩ ∧
      NnNode.Transparent ⟨oneLayer, 1, config, 64⟩ ⟨0, 1, 3⟩ := by
  obtain ⟨net, config, hnet, hnode, hlength⟩ := oneLayer_built
  have hargs : NnNode.Accepted ⟨oneLayer, 1, config, 64⟩ ⟨0, 1, 3⟩ :=
    oneLayer_accepted config (by decide)
  have hiff : NnNode.Transparent ⟨oneLayer, 1, config, 64⟩ ⟨0, 1, 3⟩ ↔
      ∀ i, 1 ≤ i → i < config.segments.length →
        NnNode.deviceOf ⟨0, 1, 3⟩ i = NnNode.deviceOf ⟨0, 1, 3⟩ 1 := transparent_iff hnet hnode hargs
  refine ⟨net, config, hnet, hnode, hargs, hiff.mpr ?_⟩
  rw [hlength]
  decide

/-- With only the third segment on the graphics device it reads rows of `x` that it never got. -/
theorem not_transparent_split : ∃ net config,
    buildLlmNet oneLayer ⟨1, 1, 1, 1⟩ 1 none false = .ok net ∧ net.nodeConfigs = [config] ∧
      NnNode.Accepted ⟨oneLayer, 1, config, 64⟩ ⟨0, 2, 2⟩ ∧
      ¬NnNode.Transparent ⟨oneLayer, 1, config, 64⟩ ⟨0, 2, 2⟩ := by
  obtain ⟨net, config, hnet, hnode, hlength⟩ := oneLayer_built
  refine ⟨net, config, hnet, hnode, oneLayer_accepted config (by decide), ?_⟩
  intro h
  have hshape : ∃ first rest, NodeShape ⟨oneLayer, 1, config, 64⟩ first rest := nodeShape hnet hnode
  obtain ⟨first, rest, hshape⟩ := hshape
  have hcount : 1 + rest.length = 4 := by
    rw [← hlength, hshape.segments_eq, List.length_cons, Nat.add_comm]
  have hforwards : ∀ f ∈ [NnNode.oneToken], 0 < f.batchSize ∧ f.batchSize ≤ 1 := by
    intro f hf
    rw [List.mem_singleton.mp hf]
    exact ⟨Nat.one_pos, Nat.le_refl 1⟩
  have hdim : 0 < oneLayer.dim := by decide
  have hsame := NnNode.sameDevice_of_transparent hshape Nat.one_pos hdim (h _ _ _ hforwards) 2 (by decide) (by omega)
  revert hsame
  decide

end LayerSkip.DevicePlacement
