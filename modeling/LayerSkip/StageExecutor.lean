import LayerSkip.ForwardReads
import LayerSkip.WorkerLlmInference

/-!
# The executor of a stage

A node has a memory of the values in its pipes, buffers and caches. An operation is evaluated by a
function that sees what the operation reads, with the caches of its layer, and gives what it writes.
A cast within one format copies. The same functions serve every graph; a function knows the name and
the layer of an operation only when that has a weight. Rows are counted without wrap.
-/

namespace LayerSkip.StageExecutor

open NnTopology NnPipeline NnCore NnCpu LlmGraph Dataflow RegionFlow ForwardReads WorkerLlmInference
open DevicePlacement (NnNode)

/-- Values of pipes, buffers and caches. -/
abbrev Memory (V : Type) : Type := Cell → V

/-- The functions of the operations: new values of the cells of a memory, from the operation, the
rows of the batch and the values that the operation reads. -/
abbrev Kernels (V : Type) : Type := NnOpConfig → ℕ → (Cell → Option V) → Cell → V

/-- An operation as its function knows it. Name and layer only say which weight was loaded. -/
def loadedOp (op : NnOpConfig) : NnOpConfig :=
  if op.weightSize.nBytes = 0 then { op with name := "", index := 0 } else op

/-- Caches that an operation reads. -/
def cacheReads (op : NnOpConfig) : List NnSource :=
  match op.config with
  | .multiheadAtt config => [.buffer config.keyCacheBuffer, .buffer config.valueCacheBuffer]
  | .shift _ _ _ => [op.output.source]
  | _ => []

/-- Caches that an operation writes. -/
def cacheWrites (op : NnOpConfig) : List NnSource :=
  match op.config with
  | .shift _ _ _ => [op.output.source]
  | _ => []

instance (e : Extent) (i : ℕ) : Decidable (e.Contains i) := by
  cases e with
  | all => exact inferInstanceAs (Decidable True)
  | range first last => exact inferInstanceAs (Decidable (_ ∧ _))

/-- The cells of a pipe. -/
def pipeCell (pipe : NnPipe) (width i : ℕ) : Cell := ⟨.pipe pipe, 0, i / width, i % width⟩

section Pipes

variable {V : Type}

/-- The first values of a pipe. -/
def readPipe (pipe : NnPipe) (width n : ℕ) (m : Memory V) : List V :=
  (List.range n).map fun i => m (pipeCell pipe width i)

/-- Store values at the front of a pipe. -/
def writePipe (pipe : NnPipe) (width : ℕ) (values : List V) (m : Memory V) : Memory V := fun c =>
  if c.source = .pipe pipe ∧ c.z = 0 ∧ c.x < width then
    (values[c.y * width + c.x]?).getD (m c)
  else m c

theorem length_readPipe (pipe : NnPipe) (width n : ℕ) (m : Memory V) :
    (readPipe pipe width n m).length = n := by
  rw [readPipe, List.length_map, List.length_range]

theorem writePipe_of_ne {pipe : NnPipe} {width : ℕ} {values : List V} {m : Memory V} {c : Cell}
    (h : c.source ≠ .pipe pipe) : writePipe pipe width values m c = m c :=
  if_neg fun hc => h hc.1

/-- What was stored is read. -/
theorem readPipe_writePipe (pipe : NnPipe) (width rows : ℕ) {values : List V} (m : Memory V)
    (h : values.length = width * rows) :
    readPipe pipe width (width * rows) (writePipe pipe width values m) = values := by
  apply List.ext_getElem
  · rw [length_readPipe, h]
  · intro i hi hvalue
    rw [length_readPipe] at hi
    have hwidth : 0 < width := Nat.pos_of_mul_pos_right (Nat.zero_lt_of_lt hi)
    have hsplit : i / width * width + i % width = i := by
      rw [Nat.mul_comm]
      exact Nat.div_add_mod i width
    have hmod : i % width < width := Nat.mod_lt i hwidth
    simp only [readPipe, List.getElem_map, List.getElem_range, writePipe, pipeCell, hmod, hsplit,
      and_self, if_true, List.getElem?_eq_getElem hvalue, Option.getD_some]

/-- Values are read from the rows of the batch. -/
theorem readPipe_congr {pipe : NnPipe} {width rows : ℕ} {m m' : Memory V}
    (h : ∀ c : Cell, c.source = .pipe pipe → c.z = 0 → c.y < rows → c.x < width → m c = m' c) :
    readPipe pipe width (width * rows) m = readPipe pipe width (width * rows) m' := by
  apply List.map_congr_left
  intro i hi
  have hlt := List.mem_range.mp hi
  have hwidth : 0 < width := Nat.pos_of_mul_pos_right (Nat.zero_lt_of_lt hlt)
  exact h _ (Eq.refl _) (Eq.refl _) (Nat.div_lt_of_lt_mul hlt) (Nat.mod_lt i hwidth)

/-- Values that were stored do not depend on what was there. -/
theorem writePipe_congr {pipe : NnPipe} {width rows : ℕ} {values : List V} (m m' : Memory V)
    (h : values.length = width * rows) {c : Cell} (hsource : c.source = .pipe pipe) (hz : c.z = 0)
    (hy : c.y < rows) (hx : c.x < width) :
    writePipe pipe width values m c = writePipe pipe width values m' c := by
  have hlt : c.y * width + c.x < values.length := by
    rw [h]
    calc c.y * width + c.x < c.y * width + width := Nat.add_lt_add_left hx _
      _ = (c.y + 1) * width := (Nat.succ_mul _ _).symm
      _ ≤ rows * width := Nat.mul_le_mul_right width hy
      _ = width * rows := Nat.mul_comm _ _
  simp only [writePipe, hsource, hz, hx, and_self, if_true, List.getElem?_eq_getElem hlt,
    Option.getD_some]

end Pipes

section Node

variable {V : Type} (node : NnNode) (nThreads : ℕ) (kernels : Kernels V) (batchSize : ℕ)

instance (r : Region) (c : Cell) : Decidable (c ∈ cells node batchSize r) :=
  inferInstanceAs (Decidable (_ ∧ (∃ size ∈ node.sourceSize c.source, _) ∧ _ ∧ _ ∧ _))

instance (rs : List Region) (c : Cell) : Decidable (c ∈ cellsOf (cells node batchSize) rs) :=
  inferInstanceAs (Decidable (∃ r ∈ rs, c ∈ cells node batchSize r))

/-- The cells an operation reads and writes: rows of the batch, and caches. -/
def opAccess (op : NnOpConfig) : Access Cell where
  reads := {c | c ∈ cellsOf (cells node batchSize) (opReads node nThreads op) ∨
    c.source ∈ cacheReads op}
  writes := {c | c ∈ cellsOf (cells node batchSize) (opWrites node nThreads op) ∨
    c.source ∈ cacheWrites op}

instance (op : NnOpConfig) (c : Cell) : Decidable (c ∈ (opAccess node nThreads batchSize op).reads) :=
  inferInstanceAs (Decidable (_ ∨ _))

instance (op : NnOpConfig) (c : Cell) :
    Decidable (c ∈ (opAccess node nThreads batchSize op).writes) :=
  inferInstanceAs (Decidable (_ ∨ _))

/-- Number format of a pipe or a buffer. -/
def sourceType (source : NnSource) : Option NnFloatType :=
  (node.sourceSize source).bind NnSize3D.floatType

/-- First column of a pointer. -/
def firstColumn (pointer : NnPointerConfig) : ℕ :=
  match pointer.type with
  | .batchedSlice => sliceStart node pointer.source
  | _ => 0

/-- The value that goes into a cell. A cast within one format copies. -/
def opValue (op : NnOpConfig) (view : Cell → Option V) (c : Cell) : V :=
  if op.code = .cast ∧ sourceType node op.input.source = sourceType node op.output.source then
    (view ⟨op.input.source, c.z, c.y,
      firstColumn node op.input + (c.x - firstColumn node op.output)⟩).getD
        (kernels (loadedOp op) batchSize view c)
  else kernels (loadedOp op) batchSize view c

/-- An operation as a step. -/
def opAction (op : NnOpConfig) : Action Cell V where
  toAccess := opAccess node nThreads batchSize op
  kernel := fun values => opValue node kernels batchSize op fun c =>
    if h : c ∈ (opAccess node nThreads batchSize op).reads then some (values ⟨c, h⟩) else none
  decWrites := fun c => inferInstanceAs (Decidable (c ∈ (opAccess node nThreads batchSize op).writes))

/-- What an operation sees of a memory. -/
def view (op : NnOpConfig) (m : Memory V) (c : Cell) : Option V :=
  if c ∈ (opAccess node nThreads batchSize op).reads then some (m c) else none

theorem opAction_apply (op : NnOpConfig) (m : Memory V) (c : Cell) :
    (opAction node nThreads kernels batchSize op).apply m c =
      if c ∈ (opAccess node nThreads batchSize op).writes then
        opValue node kernels batchSize op (view node nThreads batchSize op m) c
      else m c := by
  have hview : (fun c => if h : c ∈ (opAccess node nThreads batchSize op).reads then
      some (m c) else none) = view node nThreads batchSize op m := by
    funext c
    rw [view]
    split <;> simp_all
  by_cases hc : c ∈ (opAccess node nThreads batchSize op).writes
  · rw [if_pos hc, Action.apply_of_mem _ _ hc, ← hview]
    exact Eq.refl _
  · rw [if_neg hc]
    exact Action.apply_of_notMem _ _ hc

/-- Operations one after the other. -/
def runOps (ops : List NnOpConfig) (m : Memory V) : Memory V :=
  run m (ops.map (opAction node nThreads kernels batchSize))

theorem runOps_append (ops more : List NnOpConfig) (m : Memory V) :
    runOps node nThreads kernels batchSize (ops ++ more) m =
      runOps node nThreads kernels batchSize more (runOps node nThreads kernels batchSize ops m) := by
  rw [runOps, List.map_append, run_append]
  exact Eq.refl _

/-- A step of the executor. The tensor group of a stage is one node, which has nothing to
exchange. -/
def executeStep (m : Memory V) : NnExecutorStep → Memory V
  | .executeOp op => (opAction node nThreads kernels batchSize op).apply m
  | .syncNodes _ => m

/-- `NnExecutor::forward`. -/
def forward (nNodes : ℕ) (m : Memory V) : Memory V :=
  (forwardSteps nNodes node.config).foldl (executeStep node nThreads kernels batchSize) m

/-- A forward runs the operations of all segments. -/
theorem forward_eq (nNodes : ℕ) (m : Memory V) :
    forward node nThreads kernels batchSize nNodes m =
      runOps node nThreads kernels batchSize node.config.ops m := by
  have hsegment (segment : NnSegmentConfig) (m : Memory V) :
      (segmentSteps nNodes segment).foldl (executeStep node nThreads kernels batchSize) m =
        runOps node nThreads kernels batchSize segment.ops m := by
    rw [segmentSteps, List.foldl_append, List.foldl_map]
    have hops : segment.ops.foldl
        (fun m op => executeStep node nThreads kernels batchSize m (.executeOp op)) m =
          runOps node nThreads kernels batchSize segment.ops m := by
      rw [runOps, run, List.foldl_map]
      exact Eq.refl _
    rw [hops]
    split
    · exact Eq.refl _
    · exact Eq.refl _
  rw [forward, forwardSteps, NnNodeConfig.ops]
  generalize node.config.segments = segments
  induction segments generalizing m with
  | nil => exact Eq.refl _
  | cons segment segments ih =>
    rw [List.flatMap_cons, List.foldl_append, hsegment, ih, List.flatMap_cons, runOps_append]

end Node

section Engine

variable {V : Type}

/-- A node of a graph with the functions of its operations. -/
structure StageNode (V : Type) where
  /-- The node. -/
  node : NnNode
  /-- Its threads. -/
  nThreads : ℕ
  /-- Nodes of the graph. -/
  nNodes : ℕ
  /-- Functions of the operations. -/
  kernels : Kernels V
  /-- A word as a number. -/
  ofUint : NnUint → V

/-- Store positions. -/
def StageNode.setPositions (s : StageNode V) (positions : List NnUint) (m : Memory V) : Memory V :=
  writePipe .pos 1 (positions.map s.ofUint) m

/-- Store tokens. -/
def StageNode.setTokens (s : StageNode V) (tokens : List NnUint) (m : Memory V) : Memory V :=
  writePipe .tok 1 (tokens.map s.ofUint) m

/-- Run all segments. -/
def StageNode.forward (s : StageNode V) (batchSize : ℕ) (m : Memory V) : Memory V :=
  StageExecutor.forward s.node s.nThreads s.kernels batchSize s.nNodes m

/-- What a worker needs of its executor. The phase of a forward changes no operation. -/
def StageNode.engine (s : StageNode V) : Engine V (Memory V) where
  xPipe m n := readPipe .x s.node.header.dim n m
  writeXPipe m values := writePipe .x s.node.header.dim values m
  setPositions m positions := s.setPositions positions m
  forward _ batchSize m := s.forward batchSize.toNat m
  logitsPipe m n := readPipe .lg s.node.header.vocabSize n m
  xPipe_length m n := length_readPipe _ _ n m
  logitsPipe_length m n := length_readPipe _ _ n m

end Engine

end LayerSkip.StageExecutor
