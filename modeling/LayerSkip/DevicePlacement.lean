import LayerSkip.Dataflow
import LayerSkip.LlmGraph

/-!
# Segments on two devices

The segments of a node run on the processor or on the graphics device. Pipes are memory of the host;
the graphics device has pipes of its own and copies rows between the two around every segment. Each
device has all buffers of the node. Sizes are counted in bytes without wrap, and both devices start
with the same contents.
-/

namespace LayerSkip.DevicePlacement

open NnPipeline NnCore NnCpu LlmGraph Dataflow

/-- Two devices. -/
inductive NnDeviceKind
  | cpu
  | gpu
  deriving DecidableEq, Repr

/-- What the command line says of devices. -/
structure AppCliArgs where
  /-- Graphics device, negative for none. -/
  gpuIndex : ℤ
  /-- First segment it takes. -/
  gpuSegmentFrom : ℤ
  /-- Last segment it takes. -/
  gpuSegmentTo : ℤ
  deriving DecidableEq, Repr

/-- A device and its range of segments. -/
structure NnExecutorDevice where
  /-- The device. -/
  device : NnDeviceKind
  /-- First segment. -/
  segmentFrom : ℤ
  /-- Last segment. -/
  segmentTo : ℤ
  deriving DecidableEq, Repr

/-- Devices in the order in which segments ask them. -/
def resolveDevices (args : AppCliArgs) : List NnExecutorDevice :=
  (if 0 ≤ args.gpuIndex then [⟨.gpu, args.gpuSegmentFrom, args.gpuSegmentTo⟩] else []) ++
    if args.gpuIndex < 0 ∨ (0 ≤ args.gpuSegmentFrom ∧ 0 ≤ args.gpuSegmentTo) then [⟨.cpu, -1, -1⟩]
    else []

/-- A signed number compared with an unsigned one is a word. -/
def toWord (value : ℤ) : ℤ := value % 2 ^ 32

/-- A device takes a segment. -/
def NnExecutorDevice.Takes (d : NnExecutorDevice) (segmentIndex : ℕ) : Prop :=
  (d.segmentFrom = -1 ∧ d.segmentTo = -1) ∨
    (toWord d.segmentFrom ≤ segmentIndex ∧ (segmentIndex : ℤ) ≤ toWord d.segmentTo)

instance (d : NnExecutorDevice) (segmentIndex : ℕ) : Decidable (d.Takes segmentIndex) :=
  inferInstanceAs (Decidable (_ ∨ _))

/-- The first device that takes a segment. -/
def locateDevice (devices : List NnExecutorDevice) (segmentIndex : ℕ) : Option NnDeviceKind :=
  (devices.find? fun d => d.Takes segmentIndex).map NnExecutorDevice.device

/-- Bytes of a row of a size. -/
def rowBytes (size : NnSize3D) : ℕ :=
  match size.floatType with
  | some floatType => getBytes floatType size.x
  | none => 0

/-- A node, with what its devices know of it. -/
structure NnNode where
  /-- The header of the model. -/
  header : LlmHeader
  /-- Rows of a batch at most. -/
  nBatches : ℕ
  /-- Buffers and segments. -/
  config : NnNodeConfig
  /-- Bytes in which the graphics device flushes memory. -/
  nonCoherentAtomSize : ℕ

/-- A byte of a pipe or a buffer. -/
abbrev Location := NnSource × ℕ

/-- Contents of pipes and buffers. -/
abbrev Memory := Location → UInt8

/-- A part of a pipe or a buffer. -/
inductive Region
  /-- The rows of the batch, on one node the whole of each. -/
  | rows (source : NnSource)
  /-- All of it. -/
  | whole (source : NnSource)
  deriving DecidableEq, Repr

/-- The pipe or buffer of a part. -/
def Region.source : Region → NnSource
  | .rows source => source
  | .whole source => source

/-- The part a pointer is to. -/
def pointerRegion (pointer : NnPointerConfig) : Region :=
  match pointer.type with
  | .raw => .whole pointer.source
  | .batch => .rows pointer.source
  | .batchedSlice => .rows pointer.source

/-- What an operation reads besides its input. -/
def configReads : NnOpCodeConfig → List Region
  | .rmsNorm invRmsBuffer _ => [.rows (.buffer invRmsBuffer)]
  | .matmul _ nActiveExperts activeExpertIndexesBuffer =>
    if nActiveExperts = 0 then [] else [.rows (.buffer activeExpertIndexesBuffer)]
  | .rope _ _ positionPipe ropeCacheBuffer _ =>
    [.rows (.pipe positionPipe), .whole (.buffer ropeCacheBuffer)]
  | .multiheadAtt config =>
    [.rows (.pipe config.positionPipe), .rows (.buffer config.queryBuffer),
      .whole (.buffer config.keyCacheBuffer), .whole (.buffer config.valueCacheBuffer)]
  | .mul multiplierBuffer => [.rows (.buffer multiplierBuffer)]
  | .scale scaleBuffer => [.rows (.buffer scaleBuffer)]
  | .shift indexPipe _ _ => [.rows (.pipe indexPipe)]
  | _ => []

/-- What an operation writes besides its output. -/
def configWrites : NnOpCodeConfig → List Region
  | .multiheadAtt config => [.rows (.buffer config.attBuffer)]
  | .moeGate _ _ indexesBuffer => [.rows (.buffer indexesBuffer)]
  | _ => []

/-- What an operation reads. An attention takes its queries from a buffer of its own, and a sum adds to
its output. -/
def opReads (op : NnOpConfig) : List Region :=
  (if op.code = .multiheadAtt then [] else [pointerRegion op.input]) ++ configReads op.config ++
    if op.code = .mergeAdd then [pointerRegion op.output] else []

/-- What an operation writes, in full or in part. -/
def opWrites (op : NnOpConfig) : List Region := pointerRegion op.output :: configWrites op.config

/-- The pipes among pointers. -/
def pipesOf (pointers : List NnPointerConfig) : List NnPipe :=
  pointers.filterMap fun pointer =>
    match pointer.source with
    | .pipe pipe => some pipe
    | .buffer _ => none

theorem mem_pipesOf {pointers : List NnPointerConfig} {pipe : NnPipe} :
    pipe ∈ pipesOf pointers ↔ ∃ pointer ∈ pointers, pointer.source = .pipe pipe := by
  rw [pipesOf, List.mem_filterMap]
  constructor
  · intro h
    obtain ⟨pointer, hmem, hpipe⟩ := h
    refine ⟨pointer, hmem, ?_⟩
    cases hs : pointer.source with
    | pipe p =>
      rw [hs] at hpipe
      injection hpipe with hpipe
      rw [hpipe]
    | buffer buffer =>
      rw [hs] at hpipe
      cases hpipe
  · intro h
    obtain ⟨pointer, hmem, hpipe⟩ := h
    refine ⟨pointer, hmem, ?_⟩
    rw [hpipe]

/-- Bytes of the rows that are copied between host and graphics device. -/
def calcSliceSize (nonCoherentAtomSize bufferSize nominator denominator : ℕ) : ℕ :=
  let size := bufferSize / denominator * nominator
  if nonCoherentAtomSize ≠ 0 then
    min (size + (nonCoherentAtomSize - size % nonCoherentAtomSize)) bufferSize
  else size

/-- Rounding takes no byte away. -/
theorem le_calcSliceSize {rowSize nBatches batchSize : ℕ} (nonCoherentAtomSize : ℕ)
    (hpos : 0 < nBatches) (hbatch : batchSize ≤ nBatches) :
    batchSize * rowSize ≤
      calcSliceSize nonCoherentAtomSize (nBatches * rowSize) batchSize nBatches := by
  have hrows : nBatches * rowSize / nBatches = rowSize := Nat.mul_div_cancel_left rowSize hpos
  have hle : batchSize * rowSize ≤ nBatches * rowSize := Nat.mul_le_mul_right rowSize hbatch
  have hcomm : rowSize * batchSize = batchSize * rowSize := Nat.mul_comm rowSize batchSize
  unfold calcSliceSize
  simp only [hrows, hcomm]
  split
  · apply le_min _ hle
    omega
  · exact le_rfl

/-- The memory of the host with the buffers of the processor, and that of the graphics device. -/
structure NnDevices where
  /-- Pipes of the host and buffers of the processor. -/
  host : Memory
  /-- Pipes and buffers of the graphics device. -/
  gpu : Memory

/-- The memory a device works on. -/
def NnDevices.memory (s : NnDevices) : NnDeviceKind → Memory
  | .cpu => s.host
  | .gpu => s.gpu

/-- The rows of a forward, written by the host. -/
structure NnForward where
  /-- Rows. -/
  batchSize : ℕ
  /-- Positions and tokens. -/
  inputs : Memory

/-- What an operation read. -/
structure Observation where
  /-- The operation. -/
  op : NnOpConfig
  /-- Values of what it reads. -/
  values : Location → Option UInt8

/-- What a forward did. -/
structure NnOutput where
  /-- What every operation read, in order. -/
  observations : List Observation
  /-- The rows of the logits, on the host. -/
  logits : Location → Option UInt8

namespace NnNode

variable (node : NnNode)

/-- Sizes of the pipes. -/
def pipeSize : NnPipe → NnSize3D
  | .pos => size2D .f32 node.nBatches 1
  | .tok => size2D .f32 node.nBatches 1
  | .x => size2D .f32 node.nBatches node.header.dim
  | .lg => size2D .f32 node.nBatches node.header.vocabSize
  | .zq => size2D .f32 node.nBatches node.header.dim

/-- The size of a pipe or a buffer. -/
def sourceSize : NnSource → Option NnSize3D
  | .pipe pipe => some (node.pipeSize pipe)
  | .buffer buffer => (node.config.buffers.find? fun entry => entry.1 = buffer).map Prod.snd

/-- The row of a byte. -/
def rowOf (l : Location) : Option ℕ :=
  match node.sourceSize l.1 with
  | none => none
  | some size =>
    if l.2 < size.z * size.y * rowBytes size then some (l.2 / rowBytes size % size.y) else none

/-- A byte is in a part. -/
def InRegion (batchSize : ℕ) (l : Location) : Region → Prop
  | .rows source => l.1 = source ∧ (node.rowOf l).any fun row => row < batchSize
  | .whole source => l.1 = source

instance (batchSize : ℕ) (l : Location) (r : Region) : Decidable (node.InRegion batchSize l r) := by
  cases r with
  | rows source => exact inferInstanceAs (Decidable (_ ∧ _))
  | whole source => exact inferInstanceAs (Decidable (_ = _))

/-- The bytes of parts. -/
def bytes (batchSize : ℕ) (regions : List Region) : Set Location :=
  {l | ∃ r ∈ regions, node.InRegion batchSize l r}

instance (batchSize : ℕ) (regions : List Region) (l : Location) :
    Decidable (l ∈ node.bytes batchSize regions) :=
  inferInstanceAs (Decidable (∃ r ∈ regions, node.InRegion batchSize l r))

/-- What an operation has access to. What it writes it may leave in part as it was. -/
def access (batchSize : ℕ) (op : NnOpConfig) : Access Location where
  reads := node.bytes batchSize (opReads op ++ opWrites op)
  writes := node.bytes batchSize (opWrites op)

/-- Kernels with their weights, the same on both devices. -/
abbrev Kernels : Type :=
  ∀ (op : NnOpConfig) (batchSize : ℕ), ((node.access batchSize op).reads → UInt8) → Location → UInt8

/-- An operation as a step. -/
def action (kernels : node.Kernels) (batchSize : ℕ) (op : NnOpConfig) : Action Location UInt8 where
  toAccess := node.access batchSize op
  kernel := kernels op batchSize
  decWrites := fun l => inferInstanceAs (Decidable (l ∈ node.bytes batchSize (opWrites op)))

/-- Operations one after the other. -/
def runOps (kernels : node.Kernels) (batchSize : ℕ) (ops : List NnOpConfig) (m : Memory) : Memory :=
  run m (ops.map (node.action kernels batchSize))

/-- What an operation reads in a memory. -/
def observe (batchSize : ℕ) (op : NnOpConfig) (m : Memory) : Observation :=
  ⟨op, fun l => if l ∈ node.bytes batchSize (opReads op) then some (m l) else none⟩

/-- What operations read. -/
def observations (kernels : node.Kernels) (batchSize : ℕ) :
    List NnOpConfig → Memory → List Observation
  | [], _ => []
  | op :: ops, m =>
    node.observe batchSize op m ::
      observations kernels batchSize ops ((node.action kernels batchSize op).apply m)

/-- Bytes of a pipe. -/
def pipeBytes (pipe : NnPipe) : ℕ := node.nBatches * rowBytes (node.pipeSize pipe)

/-- Bytes of a pipe that are copied. -/
def sliceSize (batchSize : ℕ) (pipe : NnPipe) : ℕ :=
  calcSliceSize node.nonCoherentAtomSize (node.pipeBytes pipe) batchSize node.nBatches

/-- Copy the rows of a pipe. -/
def copyPipe (batchSize : ℕ) (source : Memory) (target : Memory) (pipe : NnPipe) : Memory := fun l =>
  if l.1 = .pipe pipe ∧ l.2 < node.sliceSize batchSize pipe then source l else target l

/-- Copy the rows of pipes. -/
def copyPipes (batchSize : ℕ) (pipes : List NnPipe) (source target : Memory) : Memory :=
  pipes.foldl (node.copyPipe batchSize source) target

/-- Pipes that are copied to the graphics device before a segment. -/
def loadedPipes (segmentIndex : ℕ) (segment : NnSegmentConfig) : List NnPipe :=
  (if segmentIndex = 0 ∨ segmentIndex = 1 then [.pos] else []) ++
    pipesOf (segment.ops.map NnOpConfig.input)

/-- The memory the operations of a segment start on. -/
def loaded (batchSize : ℕ) (device : NnDeviceKind) (segmentIndex : ℕ) (segment : NnSegmentConfig)
    (s : NnDevices) : Memory :=
  match device with
  | .cpu => s.host
  | .gpu => node.copyPipes batchSize (loadedPipes segmentIndex segment) s.host s.gpu

/-- A segment on its device. -/
def forwardSegment (kernels : node.Kernels) (batchSize : ℕ) (device : NnDeviceKind)
    (segmentIndex : ℕ) (segment : NnSegmentConfig) (s : NnDevices) : NnDevices :=
  let m := node.runOps kernels batchSize segment.ops
    (node.loaded batchSize device segmentIndex segment s)
  match device with
  | .cpu => ⟨m, s.gpu⟩
  | .gpu =>
    ⟨node.copyPipes batchSize (pipesOf (segment.ops.map NnOpConfig.output)) m s.host, m⟩

/-- Segments in order. -/
def runSegments (kernels : node.Kernels) (batchSize : ℕ) (deviceOf : ℕ → NnDeviceKind) :
    ℕ → List NnSegmentConfig → NnDevices → NnDevices
  | _, [], s => s
  | i, segment :: segments, s =>
    runSegments kernels batchSize deviceOf (i + 1) segments
      (node.forwardSegment kernels batchSize (deviceOf i) i segment s)

/-- What the operations of segments read. -/
def segmentsObservations (kernels : node.Kernels) (batchSize : ℕ) (deviceOf : ℕ → NnDeviceKind) :
    ℕ → List NnSegmentConfig → NnDevices → List Observation
  | _, [], _ => []
  | i, segment :: segments, s =>
    node.observations kernels batchSize segment.ops
        (node.loaded batchSize (deviceOf i) i segment s) ++
      segmentsObservations kernels batchSize deviceOf (i + 1) segments
        (node.forwardSegment kernels batchSize (deviceOf i) i segment s)

/-- The host writes positions and tokens. -/
def setInputs (f : NnForward) (s : NnDevices) : NnDevices where
  host := fun l =>
    if l ∈ node.bytes f.batchSize [.rows (.pipe .pos), .rows (.pipe .tok)] then f.inputs l
    else s.host l
  gpu := s.gpu

/-- A forward. -/
def forward (kernels : node.Kernels) (deviceOf : ℕ → NnDeviceKind) (f : NnForward) (s : NnDevices) :
    NnDevices :=
  node.runSegments kernels f.batchSize deviceOf 0 node.config.segments (node.setInputs f s)

/-- What a forward does. -/
def output (kernels : node.Kernels) (deviceOf : ℕ → NnDeviceKind) (f : NnForward) (s : NnDevices) :
    NnOutput where
  observations :=
    node.segmentsObservations kernels f.batchSize deviceOf 0 node.config.segments
      (node.setInputs f s)
  logits := fun l =>
    if l ∈ node.bytes f.batchSize [.rows (.pipe .lg)] then
      some ((node.forward kernels deviceOf f s).host l)
    else none

/-- What forwards do. -/
def outputs (kernels : node.Kernels) (deviceOf : ℕ → NnDeviceKind) :
    List NnForward → NnDevices → List NnOutput
  | [], _ => []
  | f :: forwards, s =>
    node.output kernels deviceOf f s ::
      outputs kernels deviceOf forwards (node.forward kernels deviceOf f s)

/-- The device of a segment. -/
def deviceOf (args : AppCliArgs) (segmentIndex : ℕ) : NnDeviceKind :=
  (locateDevice (resolveDevices args) segmentIndex).getD .cpu

/-- The arguments are accepted: every segment has a device, and the graphics device, which has no empty
memory, could make its pipes. -/
structure Accepted (args : AppCliArgs) : Prop where
  /-- Every segment has a device. -/
  located : ∀ i < node.config.segments.length, (locateDevice (resolveDevices args) i).isSome
  /-- Pipes of the graphics device. -/
  created : 0 ≤ args.gpuIndex → ∀ pipe, 0 < node.pipeBytes pipe

/-- Every operation reads, and every forward computes, what it would with all segments on the
processor, whatever the kernels, the contents at the start and the forwards. -/
def Transparent (args : AppCliArgs) : Prop :=
  ∀ (kernels : node.Kernels) (memory : Memory) (forwards : List NnForward),
    (∀ f ∈ forwards, 0 < f.batchSize ∧ f.batchSize ≤ node.nBatches) →
      node.outputs kernels (deviceOf args) forwards ⟨memory, memory⟩ =
        node.outputs kernels (fun _ => .cpu) forwards ⟨memory, memory⟩

end NnNode

end LayerSkip.DevicePlacement
