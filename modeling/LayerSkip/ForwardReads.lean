import LayerSkip.DevicePlacement
import LayerSkip.RegionFlow
import LayerSkip.RootBroadcast

/-!
# What a forward reads and writes

The executor of a node runs the operations of every segment and then its syncs. An operation reads
and writes parts of pipes and buffers: planes and columns of the rows of the batch. A sync writes
rows when the synchronizer performs it for the group of the node. The caches of keys and values, the
cache of the rotary embedding and the weights are left out.
-/

namespace LayerSkip.ForwardReads

open NnTopology NnPipeline NnCore NnCpu LlmGraph RegionFlow RootBroadcast
open DevicePlacement (NnNode)

/-- Part of a dimension. -/
inductive Extent
  | all
  | range (first last : ℕ)
  deriving DecidableEq, Repr

namespace Extent

/-- An index is in the part. -/
def Contains : Extent → ℕ → Prop
  | .all, _ => True
  | .range first last, i => first ≤ i ∧ i < last

instance : Preorder Extent where
  le e f :=
    match e, f with
    | _, .all => True
    | .all, .range _ _ => False
    | .range first last, .range first' last' => first' ≤ first ∧ last ≤ last'
  le_refl e := by
    cases e with
    | all => trivial
    | range first last => exact ⟨le_refl first, le_refl last⟩
  le_trans e f g hef hfg := by
    cases g with
    | all => cases e <;> trivial
    | range first'' last'' =>
      cases f with
      | all => exact False.elim hfg
      | range first' last' =>
        cases e with
        | all => exact False.elim hef
        | range first last => exact ⟨hfg.1.trans hef.1, hef.2.trans hfg.2⟩

@[simp] theorem le_all (e : Extent) : e ≤ all := by
  cases e <;> trivial

@[simp] theorem range_le_range (first last first' last' : ℕ) :
    range first last ≤ range first' last' ↔ first' ≤ first ∧ last ≤ last' := Iff.rfl

theorem Contains.mono {e f : Extent} {i : ℕ} (h : e.Contains i) (hle : e ≤ f) : f.Contains i := by
  cases f with
  | all => trivial
  | range first' last' =>
    cases e with
    | all => exact False.elim hle
    | range first last => exact ⟨hle.1.trans h.1, Nat.lt_of_lt_of_le h.2 hle.2⟩

end Extent

/-- Planes and columns of a pipe or a buffer, in the rows of the batch. -/
structure Region where
  /-- The pipe or buffer. -/
  source : NnSource
  /-- Planes. -/
  planes : Extent
  /-- Columns. -/
  columns : Extent
  deriving DecidableEq, Repr

instance : Preorder Region where
  le r w := r.source = w.source ∧ r.planes ≤ w.planes ∧ r.columns ≤ w.columns
  le_refl r := ⟨Eq.refl _, le_refl _, le_refl _⟩
  le_trans r w v hrw hwv :=
    ⟨hrw.1.trans hwv.1, hrw.2.1.trans hwv.2.1, hrw.2.2.trans hwv.2.2⟩

@[simp] theorem region_le (source source' : NnSource) (planes planes' columns columns' : Extent) :
    (⟨source, planes, columns⟩ : Region) ≤ ⟨source', planes', columns'⟩ ↔
      source = source' ∧ planes ≤ planes' ∧ columns ≤ columns' := Iff.rfl

/-- All of the rows. -/
def whole (source : NnSource) : Region := ⟨source, .all, .all⟩

/-- A value of a pipe or a buffer. -/
structure Cell where
  /-- The pipe or buffer. -/
  source : NnSource
  /-- Plane. -/
  z : ℕ
  /-- Row. -/
  y : ℕ
  /-- Column. -/
  x : ℕ

section Node

variable (node : NnNode)

/-- The values of a region in the rows of the batch. -/
def cells (batchSize : ℕ) (r : Region) : Set Cell :=
  {c | c.source = r.source ∧ (∃ size ∈ node.sourceSize c.source, c.z < size.z ∧ c.x < size.x) ∧
    c.y < batchSize ∧ r.planes.Contains c.z ∧ r.columns.Contains c.x}

theorem cells_mono (batchSize : ℕ) (r w : Region) (hle : r ≤ w) :
    cells node batchSize r ⊆ cells node batchSize w := by
  intro c hc
  obtain ⟨hsource, hsize, hrow, hplane, hcolumn⟩ := hc
  exact ⟨hsource.trans hle.1, hsize, hrow, hplane.mono hle.2.1, hcolumn.mono hle.2.2⟩

/-- Columns of a row in the part of the tensor rank. -/
def sliceWidth (source : NnSource) : ℕ :=
  ((node.sourceSize source).map NnSize3D.x).getD 0 /
    (node.config.placement.tpGroupEnd - node.config.placement.tpGroupStart)

/-- First column of the part of the tensor rank. -/
def sliceStart (source : NnSource) : ℕ := sliceWidth node source * node.config.placement.tpRank

/-- The region of a pointer. -/
def pointerRegion (pointer : NnPointerConfig) : Region :=
  match pointer.type with
  | .batchedSlice => ⟨pointer.source, .all,
      .range (sliceStart node pointer.source)
        (sliceStart node pointer.source + sliceWidth node pointer.source)⟩
  | _ => whole pointer.source

/-- What an operation reads besides its input. -/
def configReads (op : NnOpConfig) : List Region :=
  match op.config with
  | .rmsNorm invRmsBuffer nColumns => [⟨.buffer invRmsBuffer, .all, .range 0 nColumns⟩]
  | .matmul _ nActiveExperts activeExpertIndexesBuffer =>
    if nActiveExperts = 0 then []
    else [⟨.buffer activeExpertIndexesBuffer, .all, .range 0 nActiveExperts⟩]
  | .rope _ _ positionPipe _ _ => [whole (.pipe positionPipe)]
  | .multiheadAtt config => [whole (.pipe config.positionPipe), whole (.buffer config.queryBuffer)]
  | .mul multiplierBuffer => [whole (.buffer multiplierBuffer)]
  | .scale scaleBuffer =>
    [⟨.buffer scaleBuffer, .range 0 (((node.sourceSize op.input.source).map NnSize3D.z).getD 0),
      .all⟩]
  | .shift indexPipe _ _ => [whole (.pipe indexPipe)]
  | _ => []

/-- What an operation reads. An attention takes its queries from a buffer of its own, a sum adds to
its output, and the last step of a maximum reads one pair for every thread. -/
def opReads (nThreads : ℕ) (op : NnOpConfig) : List Region :=
  (match op.code, op.config with
    | .multiheadAtt, _ => []
    | .argmaxReduce, .argmaxReduce maxThreads =>
      [⟨op.input.source, .all, .range 0 (min nThreads (max 1 maxThreads) * 2)⟩]
    | _, _ => [pointerRegion node op.input]) ++
  configReads node op ++ if op.code = .mergeAdd then [pointerRegion node op.output] else []

/-- What an operation writes. An attention writes the heads of its rank; rows that go into a cache
are left out. -/
def opWrites (nThreads : ℕ) (op : NnOpConfig) : List Region :=
  match op.code, op.config with
  | .invRms, .invRms nColumns => [⟨op.output.source, .all, .range 0 nColumns⟩]
  | .multiheadAtt, .multiheadAtt config =>
    [⟨op.output.source, .all, .range (sliceStart node op.output.source)
      (sliceStart node op.output.source + config.nHeads0 * config.headDim)⟩]
  | .moeGate, .moeGate k _ indexesBuffer =>
    [⟨op.output.source, .range 0 k, .all⟩, ⟨.buffer indexesBuffer, .all, .range 0 k⟩]
  | .matmulArgmax, _ => [⟨op.output.source, .all, .range 0 (nThreads * 2)⟩]
  | .argmaxReduce, _ => [⟨op.output.source, .all, .range 0 1⟩]
  | .shift, _ => []
  | _, _ => [pointerRegion node op.output]

end Node

/-- Steps of an executor. -/
inductive NnExecutorStep
  | executeOp (op : NnOpConfig)
  | syncNodes (syncs : List NnSyncConfig)

/-- Steps of a segment. One node does not synchronize. -/
def segmentSteps (nNodes : ℕ) (segment : NnSegmentConfig) : List NnExecutorStep :=
  segment.ops.map .executeOp ++
    if 1 < nNodes ∧ 0 < segment.syncs.length then [.syncNodes segment.syncs] else []

/-- Steps of a forward. -/
def forwardSteps (nNodes : ℕ) (config : NnNodeConfig) : List NnExecutorStep :=
  config.segments.flatMap (segmentSteps nNodes)

/-- How the nodes are started. -/
structure Launch where
  /-- Threads of every node. -/
  nThreads : ℕ → ℕ
  /-- Every node runs at least one thread. -/
  nThreads_pos : ∀ node, 0 < nThreads node
  /-- Whether the environment of the node sets `DLLAMA_KEEP_TP1_SYNCS` to 1. -/
  keepTp1Syncs : ℕ → Bool
  /-- Rows of the forward. -/
  batchSize : ℕ
  /-- A forward has at least one row. -/
  batchSize_pos : 0 < batchSize

/-- What the synchronizers know. -/
def Launch.cluster (launch : Launch) (net : LlmNet) : Cluster where
  nSockets := net.nodeConfigs.length - 1
  nThreads := launch.nThreads
  nThreads_pos := launch.nThreads_pos
  batchSize := launch.batchSize
  batchSize_pos := launch.batchSize_pos
  batchBytes := getBytes .f32 net.shape.header.dim
  tpGroupStart := fun nodeIndex =>
    (net.nodeConfigs[nodeIndex]?.map fun config => config.placement.tpGroupStart).getD 0
  tpGroupEnd := fun nodeIndex =>
    (net.nodeConfigs[nodeIndex]?.map fun config => config.placement.tpGroupEnd).getD 0
  keepTp1Syncs := launch.keepTp1Syncs

section Steps

variable (c : Cluster) (node : NnNode)

/-- A node receives the rows of the root. -/
def Receives (nodeIndex : ℕ) : Prop := ∀ b < c.batchSize, c.rowReads nodeIndex b ≠ []

instance (nodeIndex : ℕ) : Decidable (Receives c nodeIndex) :=
  inferInstanceAs (Decidable (∀ b < c.batchSize, _))

/-- What a sync writes on a node. -/
def syncWrites (nodeIndex : ℕ) : NnSyncConfig → List Region
  | .withRoot pipe => if Receives c nodeIndex then [whole (.pipe pipe)] else []
  | .nodeSlices pipe => if c.skips nodeIndex then [] else [whole (.pipe pipe)]
  | .spKv _ _ _ _ _ _ => []

/-- What a step reads and writes on a node. -/
def stepUse : NnExecutorStep → Use Region
  | .executeOp op =>
    ⟨opReads node (c.nThreads node.config.placement.globalRank) op,
      opWrites node (c.nThreads node.config.placement.globalRank) op⟩
  | .syncNodes syncs => ⟨[], syncs.flatMap (syncWrites c node.config.placement.globalRank)⟩

/-- What the steps of a forward read and write. -/
def forwardUses : List (Use Region) :=
  (forwardSteps (c.nSockets + 1) node.config).map (stepUse c node)

/-- Rows that are written before the steps: positions, on the root tokens, and in a later stage the
activation that was received. -/
def given : List Region :=
  [whole (.pipe .pos)] ++
    (if node.config.placement.globalRank = 0 then [whole (.pipe .tok)] else []) ++
    if 0 < node.config.placement.ppRank then [whole (.pipe .x)] else []

/-- Rows of `X` after a step of the start segment. -/
def stepX {V : Type} (embedding root rows : ℕ → ℕ → V) : NnExecutorStep → ℕ → ℕ → V
  | .executeOp op =>
    if op.code = .embedding then fun y x => if y < c.batchSize then embedding y x else rows y x
    else rows
  | .syncNodes syncs =>
    if .withRoot .x ∈ syncs ∧ Receives c node.config.placement.globalRank then
      fun y x => if y < c.batchSize then root y x else rows y x
    else rows

/-- Rows of `X` after the start segment. -/
def startX {V : Type} (embedding root rows : ℕ → ℕ → V) : ℕ → ℕ → V :=
  ((node.config.segments.take 1).flatMap (segmentSteps (c.nSockets + 1))).foldl
    (stepX c node embedding root) rows

end Steps

/-- A node as its configuration says. -/
def nodeOf (h : LlmHeader) (nBatches : ℕ) (config : NnNodeConfig) : NnNode :=
  ⟨h, nBatches, config, 0⟩

/-- The check that stops the process when a gate does not choose one expert for each plane. -/
def Initialized (node : NnNode) : Prop :=
  ∀ op ∈ node.config.ops, ∀ k normTopk indexesBuffer,
    op.config = .moeGate k normTopk indexesBuffer →
      (node.sourceSize op.output.source).map NnSize3D.z = some k

/-- In a forward of a node nothing is read that was not written before in the same forward. On the
first stage `X` has the embeddings of the tokens after the start segment, whatever was there. -/
structure Fresh (launch : Launch) (net : LlmNet) (node : NnNode) : Prop where
  /-- Every value that is read was written before. -/
  defined : Dataflow.DefinedBefore (cellsOf (cells node launch.batchSize) (given node))
    ((forwardUses (launch.cluster net) node).map (access (cells node launch.batchSize)))
  /-- Embeddings of the tokens. -/
  embedded : node.config.placement.ppRank = 0 → ∀ (V : Type) (root : NnNode)
    (table : ℕ → ℕ → V) (tokens : ℕ → ℕ) (stale : ℕ → ℕ → ℕ → V),
    net.nodeConfigs[0]? = some root.config →
    ∀ y < launch.batchSize, ∀ x < net.shape.header.dim,
      startX (launch.cluster net) node (fun y => table (tokens y))
        (startX (launch.cluster net) root (fun y => table (tokens y)) (stale 0) (stale 0))
        (stale node.config.placement.globalRank) y x = table (tokens y) x

end LayerSkip.ForwardReads
