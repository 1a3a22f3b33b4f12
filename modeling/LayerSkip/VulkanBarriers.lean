import LayerSkip.FlushPlan
import LayerSkip.VulkanFootprints

/-!
# Memory barriers of a segment

The device plans once for a segment which buffers have to be made visible before which operation,
and records barriers for them together with the work groups whenever the size of the batch changes.
A plain read of a modified buffer is waited for, a read by an operation that also modifies the buffer
is not. A barrier on a buffer of one plane covers the bytes of as many rows as the batch has, and a
cache is not laid out by the rows of a batch.
-/

namespace LayerSkip.VulkanBarriers

open NnTopology NnPipeline NnCore NnCpu MoeKernels VulkanDevice VulkanFootprints FlushPlan

section Planner

/-- A list has a buffer. -/
def containsBuffer (buffers : List NnVulkanBuffer) (buffer : NnVulkanBuffer) : Bool :=
  buffers.any fun b => decide (b = buffer)

/-- Before an operation other than the first one: a plain read of a modified buffer. -/
def flush (opIndex : ℕ) (modifiedBuffers : List NnVulkanBuffer)
    (accesses : List NnOpBufferAccess) : Bool :=
  decide (opIndex > 0) && accesses.any fun access =>
    decide (access.type = .readonly) && containsBuffer modifiedBuffers access.buffer

/-- The modified buffers with those of an operation. -/
def addModified (modifiedBuffers : List NnVulkanBuffer) (accesses : List NnOpBufferAccess) :
    List NnVulkanBuffer :=
  accesses.foldl (fun modifiedBuffers access =>
    if access.type = .readWrite ∧ containsBuffer modifiedBuffers access.buffer = false then
      modifiedBuffers ++ [access.buffer]
    else modifiedBuffers) modifiedBuffers

/-- The buffers to make visible before the operations from an index on. -/
def resolveBuffersToSyncFrom (opIndex : ℕ) (modifiedBuffers : List NnVulkanBuffer) :
    List (List NnOpBufferAccess) → List (List NnVulkanBuffer)
  | [] => []
  | accesses :: rest =>
    if flush opIndex modifiedBuffers accesses then
      modifiedBuffers :: resolveBuffersToSyncFrom (opIndex + 1) (addModified [] accesses) rest
    else
      [] :: resolveBuffersToSyncFrom (opIndex + 1) (addModified modifiedBuffers accesses) rest

/-- The buffers to make visible before each operation. -/
def resolveBuffersToSync (accesses : List (List NnOpBufferAccess)) :
    List (List NnVulkanBuffer) :=
  resolveBuffersToSyncFrom 0 [] accesses

/-- The plain reads and the modifications among the accesses of an operation. -/
def plannedAccesses (accesses : List NnOpBufferAccess) : Accesses NnVulkanBuffer where
  reads := (accesses.filter fun access => access.type = .readonly).map (·.buffer)
  modifies := (accesses.filter fun access => access.type = .readWrite).map (·.buffer)

theorem containsBuffer_iff {buffers : List NnVulkanBuffer} {buffer : NnVulkanBuffer} :
    containsBuffer buffers buffer = true ↔ buffer ∈ buffers := by
  simp [containsBuffer]

theorem mem_reads {accesses : List NnOpBufferAccess} {buffer : NnVulkanBuffer} :
    buffer ∈ (plannedAccesses accesses).reads ↔ ⟨.readonly, buffer⟩ ∈ accesses := by
  simp only [plannedAccesses, List.mem_map, List.mem_filter, decide_eq_true_eq]
  constructor
  · intro h
    obtain ⟨access, ⟨hmem, htype⟩, hbuffer⟩ := h
    rw [← htype, ← hbuffer]
    exact hmem
  · intro h
    exact ⟨_, ⟨h, Eq.refl _⟩, Eq.refl _⟩

theorem mem_modifies {accesses : List NnOpBufferAccess} {buffer : NnVulkanBuffer} :
    buffer ∈ (plannedAccesses accesses).modifies ↔ ⟨.readWrite, buffer⟩ ∈ accesses := by
  simp only [plannedAccesses, List.mem_map, List.mem_filter, decide_eq_true_eq]
  constructor
  · intro h
    obtain ⟨access, ⟨hmem, htype⟩, hbuffer⟩ := h
    rw [← htype, ← hbuffer]
    exact hmem
  · intro h
    exact ⟨_, ⟨h, Eq.refl _⟩, Eq.refl _⟩

/-- A flush of the device is a flush of the plan. The first operation has nothing to flush. -/
theorem flush_iff {opIndex : ℕ} {modifiedBuffers : List NnVulkanBuffer}
    {accesses : List NnOpBufferAccess} (hfirst : opIndex = 0 → modifiedBuffers = []) :
    flush opIndex modifiedBuffers accesses = true ↔
      Meets modifiedBuffers (plannedAccesses accesses) := by
  simp only [flush, Bool.and_eq_true, decide_eq_true_eq, List.any_eq_true, containsBuffer_iff]
  constructor
  · intro h
    obtain ⟨_, access, hmem, htype, hmodified⟩ := h
    refine ⟨access.buffer, mem_reads.mpr ?_, hmodified⟩
    rw [← htype]
    exact hmem
  · intro h
    obtain ⟨buffer, hread, hmodified⟩ := h
    refine ⟨?_, ⟨.readonly, buffer⟩, mem_reads.mp hread, Eq.refl _, hmodified⟩
    by_cases hzero : opIndex = 0
    · rw [hfirst hzero] at hmodified
      cases hmodified
    · exact Nat.pos_of_ne_zero hzero

theorem addModified_eq (modifiedBuffers : List NnVulkanBuffer)
    (accesses : List NnOpBufferAccess) :
    addModified modifiedBuffers accesses = (plannedAccesses accesses).modifies.foldl
      (fun modified b => if b ∈ modified then modified else modified ++ [b]) modifiedBuffers := by
  induction accesses generalizing modifiedBuffers with
  | nil => exact Eq.refl _
  | cons access accesses ih =>
    have hrest := fun modified => ih modified
    simp only [addModified, plannedAccesses] at hrest ⊢
    rw [List.foldl_cons, hrest]
    by_cases htype : access.type = .readWrite
    · by_cases hmem : access.buffer ∈ modifiedBuffers
      · have hcontains := containsBuffer_iff.mpr hmem
        simp [htype, hmem, hcontains]
      · have hcontains : containsBuffer modifiedBuffers access.buffer = false :=
          Bool.eq_false_iff.mpr fun h => hmem (containsBuffer_iff.mp h)
        simp [htype, hmem, hcontains]
    · simp [htype]

theorem resolveBuffersToSyncFrom_eq {opIndex : ℕ} {modifiedBuffers : List NnVulkanBuffer}
    (accesses : List (List NnOpBufferAccess)) (hfirst : opIndex = 0 → modifiedBuffers = []) :
    resolveBuffersToSyncFrom opIndex modifiedBuffers accesses =
      plan modifiedBuffers (accesses.map plannedAccesses) := by
  induction accesses generalizing opIndex modifiedBuffers with
  | nil => exact Eq.refl _
  | cons access accesses ih =>
    have hlater : opIndex + 1 = 0 → ∀ modified : List NnVulkanBuffer, modified = [] := by omega
    rw [resolveBuffersToSyncFrom, List.map_cons, plan, flushed, advance, ← addModified_eq]
    by_cases hflush : flush opIndex modifiedBuffers access = true
    · have hmeets := (flush_iff hfirst).mp hflush
      rw [if_pos hflush, if_pos hmeets, if_pos hmeets, ih fun h => hlater h _]
    · have hmeets := fun h => hflush ((flush_iff hfirst).mpr h)
      rw [if_neg hflush, if_neg hmeets, if_neg hmeets, ih fun h => hlater h _]

/-- The device plans flushes before reads. -/
theorem resolveBuffersToSync_eq (accesses : List (List NnOpBufferAccess)) :
    resolveBuffersToSync accesses = plan [] (accesses.map plannedAccesses) :=
  resolveBuffersToSyncFrom_eq accesses fun _ => Eq.refl _

/-- Nothing is made visible between two operations that add to one buffer. -/
example : resolveBuffersToSync [[⟨.readonly, .pipe 0⟩, ⟨.readWrite, .buffer 0⟩],
    [⟨.readonly, .pipe 1⟩, ⟨.readWrite, .buffer 0⟩]] = [[], []] := by
  decide

end Planner

section Segment

/-- A segment of the device. -/
structure NnVulkanDeviceSegment where
  /-- What the device knows of the node. -/
  data : NnVulkanDeviceData
  /-- Operations. -/
  ops : List NnVulkanSegmentOp
  /-- Buffers to make visible before each operation. -/
  buffersToSync : List (List NnVulkanBuffer)
  deriving DecidableEq, Repr

/-- Formats of an operation. -/
def opQuantType (inputSize weightSize outputSize : NnSize3D) : Except String NnOpQuantType :=
  match inputSize.floatType, outputSize.floatType with
  | some input, some output =>
    match getOpQuantType input weightSize.floatType output with
    | some quantType => .ok quantType
    | none => .error "Unsupported op quant"
  | _, _ => .error "Unsupported op quant"

/-- What the device prepares for an operation. -/
def createOp (data : NnVulkanDeviceData) (opIndex : ℕ) (opConfig : NnOpConfig) :
    Except String NnVulkanSegmentOp := do
  let inputSize ← resolveBufferSize data opConfig.input
  let outputSize ← resolveBufferSize data opConfig.output
  let infos ← buildBatchInfo data.nBatches data.tpSize data.tpRank opConfig.input.type inputSize
    opConfig.output.type outputSize
  let opQuant ← opQuantType inputSize opConfig.weightSize outputSize
  let shader ← getShaderFileName opConfig.code opQuant
  let accesses ← buildShaderLayout data opIndex opConfig
  let constants ←
    resolveShaderConstants opConfig.code opConfig.weightSize data.nBatches inputSize outputSize
  return ⟨opConfig, shader, infos, constants, accesses⟩

/-- The segment of a list of operations. -/
def createSegment (data : NnVulkanDeviceData) (opConfigs : List NnOpConfig) :
    Except String NnVulkanDeviceSegment := do
  let ops ← opConfigs.zipIdx.mapM fun entry => createOp data entry.2 entry.1
  return ⟨data, ops, resolveBuffersToSync (ops.map (·.accesses))⟩

/-- The size of a pipe or of a buffer of the node. -/
def dataSize (data : NnVulkanDeviceData) : NnVulkanBuffer → Option NnSize3D
  | .pipe pipeIndex => data.pipes[pipeIndex]?
  | .buffer bufferIndex => data.buffers[bufferIndex]?
  | _ => none

/-- A barrier on bytes of a buffer. -/
structure NnBufferMemoryBarrier where
  /-- Buffer. -/
  buffer : NnVulkanBuffer
  /-- First byte. -/
  offset : ℕ
  /-- Number of bytes. -/
  size : ℕ
  deriving DecidableEq, Repr

/-- The commands of an operation: barriers, then work groups. -/
structure NnOpCommands where
  /-- Barriers. -/
  memoryBarriers : List NnBufferMemoryBarrier
  /-- Work groups. -/
  groupCounts : NnGroupCounts
  deriving DecidableEq, Repr

namespace NnVulkanDeviceSegment

variable (segment : NnVulkanDeviceSegment)

/-- Bytes of a buffer. -/
def bufferSize (buffer : NnVulkanBuffer) : ℕ :=
  match dataSize segment.data buffer with
  | some size => size.nBytes
  | none =>
    match buffer with
    | .batchInfo opIndex => segment.ops[opIndex]?.elim 0 fun op => 16 * op.infos.length
    | .weight opIndex => segment.ops[opIndex]?.elim 0 fun op => op.opConfig.weightSize.nBytes
    | .config opIndex => segment.ops[opIndex]?.elim 0 fun op => configSize op.opConfig.code
    | _ => 0

/-- A part of the buffer stands for a part of the batch. -/
def isSliceable (buffer : NnVulkanBuffer) : Bool :=
  match dataSize segment.data buffer with
  | some size => decide (size.z = 1)
  | none => false

/-- Bytes of a part of the batch. -/
def calcSliceSize (buffer : NnVulkanBuffer) (nominator denominator : ℕ) : Except String ℕ :=
  if segment.isSliceable buffer then do
    require (segment.bufferSize buffer % denominator = 0) "bufferSize % denominator == 0"
    return DevicePlacement.calcSliceSize segment.data.nonCoherentAtomSize
      (segment.bufferSize buffer) nominator denominator
  else return segment.bufferSize buffer

/-- The barrier on a buffer. -/
def memoryBarrier (batchSize : ℕ) (buffer : NnVulkanBuffer) :
    Except String NnBufferMemoryBarrier := do
  let size ← segment.calcSliceSize buffer batchSize segment.data.nBatches
  return ⟨buffer, 0, size⟩

/-- The work groups of an operation. -/
def groupCounts (batchSize : ℕ) (opConfig : NnOpConfig) : Except String NnGroupCounts := do
  let inputSize ← resolveBufferSize segment.data opConfig.input
  let outputSize ← resolveBufferSize segment.data opConfig.output
  let groupCountX ←
    resolveShaderNumberOfWorkGroupsX opConfig.code opConfig.weightSize inputSize outputSize
  return ⟨groupCountX, batchSize,
    resolveShaderNumberOfWorkGroupsZ opConfig.code inputSize outputSize⟩

/-- The commands of an operation. -/
def recordOp (batchSize : ℕ) (op : NnVulkanSegmentOp) (buffersToSync : List NnVulkanBuffer) :
    Except String NnOpCommands := do
  let memoryBarriers ← buffersToSync.mapM (segment.memoryBarrier batchSize)
  let groupCounts ← segment.groupCounts batchSize op.opConfig
  return ⟨memoryBarriers, groupCounts⟩

/-- The commands of all operations. -/
def recordCommands (batchSize : ℕ) : Except String (List NnOpCommands) :=
  (segment.ops.zip segment.buffersToSync).mapM fun entry =>
    segment.recordOp batchSize entry.1 entry.2

/-- The commands that are recorded, and the size of the batch that they are recorded for. -/
structure State where
  /-- Size of the batch. -/
  lastBatchSize : ℕ
  /-- Commands. -/
  commandBuffer : List NnOpCommands
  deriving DecidableEq, Repr

/-- Nothing is recorded. -/
def init : State := ⟨0, []⟩

/-- A batch: commands are recorded when its size is another one, and submitted. -/
def forward (s : State) (batchSize : ℕ) : Except String State := do
  require (batchSize ≤ segment.data.nBatches) "batchSize <= nBatches"
  if s.lastBatchSize ≠ batchSize then
    let commands ← segment.recordCommands batchSize
    return ⟨batchSize, commands⟩
  else return s

/-- A byte of a buffer is in one of the regions. -/
def Touched (regions : List NnRegion) (buffer : NnVulkanBuffer) (byte : ℕ) : Prop :=
  ∃ region ∈ regions, region.buffer = buffer ∧ region.Has byte

instance (regions : List NnRegion) (buffer : NnVulkanBuffer) (byte : ℕ) :
    Decidable (Touched regions buffer byte) :=
  inferInstanceAs (Decidable (∃ region ∈ regions, _))

/-- Before an operation a barrier that covers a region is recorded. -/
def Covered (commands : List NnOpCommands) (k : ℕ) (region : NnRegion) : Prop :=
  ∃ command barrier, commands[k]? = some command ∧ barrier ∈ command.memoryBarriers ∧
    barrier.buffer = region.buffer ∧ barrier.offset ≤ region.first ∧
      region.first + region.size ≤ barrier.offset + barrier.size

/-- All regions that an operation writes and a later one reads are covered by a barrier in between.
The index of a row is what the operation reads from its pipe, a place in a cache or a position. -/
def Synced (commands : List NnOpCommands) (index : ℕ → ℕ → ℕ) : Prop :=
  ∀ i j writer reader writing reading, i < j →
    segment.ops[i]? = some writer → segment.ops[j]? = some reader →
    commands[i]? = some writing → commands[j]? = some reading →
    ∀ region : NnRegion, 0 < region.size →
      region.first + region.size ≤ segment.bufferSize region.buffer →
      (∀ byte, region.Has byte →
        Touched (writer.footprint writing.groupCounts (index i)).writes region.buffer byte) →
      (∀ byte, region.Has byte →
        Touched (reader.footprint reading.groupCounts (index j)).reads region.buffer byte) →
      ∃ k, i < k ∧ k ≤ j ∧ Covered commands k region

/-- A byte belongs to the rows of a batch, where a buffer of one plane has as many rows as there are
rows of a batch. Rows are rounded up to what is made visible together. -/
def InRows (batchSize : ℕ) (buffer : NnVulkanBuffer) (byte : ℕ) : Prop :=
  ∀ size, dataSize segment.data buffer = some size → size.z = 1 →
    if segment.data.nonCoherentAtomSize = 0 then
      byte < size.nBytes / segment.data.nBatches * batchSize
    else byte / segment.data.nonCoherentAtomSize ≤
      size.nBytes / segment.data.nBatches * batchSize / segment.data.nonCoherentAtomSize

/-- The plain reads and the modifications of the operations. -/
def accesses : List (Accesses NnVulkanBuffer) :=
  segment.ops.map fun op => plannedAccesses op.accesses

/-- Each byte that an operation writes and a later one reads belongs to the rows of the batch, and
the later operation only reads the buffer, or some operation up to it makes a flush. -/
def Safe (batchSize : ℕ) (index : ℕ → ℕ → ℕ) : Prop :=
  ∀ i j writer reader writing reading, i < j →
    segment.ops[i]? = some writer → segment.ops[j]? = some reader →
    segment.groupCounts batchSize writer.opConfig = .ok writing →
    segment.groupCounts batchSize reader.opConfig = .ok reading →
    ∀ buffer byte, byte < segment.bufferSize buffer →
      Touched (writer.footprint writing (index i)).writes buffer byte →
      Touched (reader.footprint reading (index j)).reads buffer byte →
      (⟨.readonly, buffer⟩ ∈ reader.accesses ∨ FlushBetween segment.accesses i j) ∧
        segment.InRows batchSize buffer byte

/-- The segment is as it was created. -/
structure Created : Prop where
  /-- Accesses are those of the layout. -/
  layout : ∀ i op, segment.ops[i]? = some op →
    buildShaderLayout segment.data i op.opConfig = .ok op.accesses
  /-- Buffers to make visible are those of the plan. -/
  planned : segment.buffersToSync = plan [] segment.accesses

theorem created {data : NnVulkanDeviceData} {opConfigs : List NnOpConfig}
    {segment : NnVulkanDeviceSegment} (h : createSegment data opConfigs = .ok segment) :
    segment.Created := by
  obtain ⟨ops, hops, h⟩ := bind_eq_ok h
  injection h with h
  rw [← h]
  constructor
  · intro i op hop
    obtain ⟨hlength, heach⟩ := mapM_eq_ok hops
    obtain ⟨hi, _⟩ := List.getElem?_eq_some_iff.mp hop
    have hentry := List.getElem?_eq_getElem (hlength ▸ hi : i < opConfigs.zipIdx.length)
    obtain ⟨op', hop', hcreate⟩ := heach i _ hentry
    have heq : op' = op := Option.some.inj (hop'.symm.trans hop)
    rw [heq, List.getElem_zipIdx, Nat.zero_add] at hcreate
    obtain ⟨_, _, hcreate⟩ := bind_eq_ok hcreate
    obtain ⟨_, _, hcreate⟩ := bind_eq_ok hcreate
    obtain ⟨_, _, hcreate⟩ := bind_eq_ok hcreate
    obtain ⟨_, _, hcreate⟩ := bind_eq_ok hcreate
    obtain ⟨_, _, hcreate⟩ := bind_eq_ok hcreate
    obtain ⟨accesses, haccesses, hcreate⟩ := bind_eq_ok hcreate
    obtain ⟨_, _, hcreate⟩ := bind_eq_ok hcreate
    injection hcreate with hcreate
    rw [← hcreate]
    exact haccesses
  · rw [resolveBuffersToSync_eq, List.map_map]
    exact Eq.refl _

/-- A rounded size, where the byte is in the buffer. -/
theorem lt_roundUp_iff {atom part byte bufferSize : ℕ} (hatom : 0 < atom)
    (hbyte : byte < bufferSize) :
    byte < min (part + (atom - part % atom)) bufferSize ↔ byte / atom ≤ part / atom := by
  have hround : part + (atom - part % atom) = (part / atom + 1) * atom := by
    have hdiv := Nat.div_add_mod part atom
    have hmod := Nat.mod_lt part hatom
    rw [Nat.add_one_mul, Nat.mul_comm]
    omega
  rw [lt_min_iff, hround, ← Nat.div_lt_iff_lt_mul hatom, Nat.lt_succ_iff]
  constructor
  · intro h
    exact h.1
  · intro h
    exact ⟨h, hbyte⟩

/-- The commands of an operation are its work groups and a barrier for each buffer of the plan. -/
theorem recordOp_spec {batchSize : ℕ} {op : NnVulkanSegmentOp} {planned : List NnVulkanBuffer}
    {command : NnOpCommands} (h : segment.recordOp batchSize op planned = .ok command) :
    segment.groupCounts batchSize op.opConfig = .ok command.groupCounts ∧
      ∀ barrier, barrier ∈ command.memoryBarriers ↔
        barrier.buffer ∈ planned ∧
          segment.memoryBarrier batchSize barrier.buffer = .ok barrier := by
  obtain ⟨barriers, hbarriers, h⟩ := bind_eq_ok h
  obtain ⟨counts, hcounts, h⟩ := bind_eq_ok h
  injection h with h
  rw [← h]
  refine ⟨hcounts, ?_⟩
  obtain ⟨hlength, heach⟩ := mapM_eq_ok hbarriers
  have hbuffer : ∀ buffer barrier, segment.memoryBarrier batchSize buffer = .ok barrier →
      barrier.buffer = buffer := by
    intro buffer barrier hmade
    obtain ⟨_, _, hmade⟩ := bind_eq_ok hmade
    injection hmade with hmade
    rw [← hmade]
  intro barrier
  constructor
  · intro hmem
    obtain ⟨i, hi, hget⟩ := List.getElem_of_mem hmem
    have hplanned := List.getElem?_eq_getElem (hlength ▸ hi : i < planned.length)
    obtain ⟨barrier', hget', hmade⟩ := heach i _ hplanned
    have heq : barrier' = barrier := by
      rw [List.getElem?_eq_getElem hi, hget] at hget'
      exact (Option.some.inj hget').symm
    rw [heq] at hmade
    have hplace := hbuffer _ _ hmade
    rw [hplace]
    exact ⟨List.getElem_mem _, hmade⟩
  · intro hmade
    obtain ⟨i, hi, hget⟩ := List.getElem_of_mem hmade.1
    obtain ⟨barrier', hget', hmade'⟩ := heach i _ (List.getElem?_eq_getElem hi)
    rw [hget, hmade.2] at hmade'
    injection hmade' with heq
    rw [heq]
    exact List.mem_of_getElem? hget'

/-- The barrier on a buffer of the plan. -/
theorem memoryBarrier_of_planned {batchSize : ℕ} {op : NnVulkanSegmentOp}
    {planned : List NnVulkanBuffer} {command : NnOpCommands}
    (h : segment.recordOp batchSize op planned = .ok command) {buffer : NnVulkanBuffer}
    (hbuffer : buffer ∈ planned) :
    ∃ barrier, segment.memoryBarrier batchSize buffer = .ok barrier := by
  obtain ⟨barriers, hbarriers, _⟩ := bind_eq_ok h
  obtain ⟨i, hi, hget⟩ := List.getElem_of_mem hbuffer
  obtain ⟨barrier, _, hmade⟩ :=
    (mapM_eq_ok hbarriers).2 i _ (List.getElem?_eq_getElem hi)
  rw [hget] at hmade
  exact ⟨barrier, hmade⟩

/-- Rounding takes whole rows of the batch and what is made visible with the last of them. -/
theorem lt_calcSliceSize_iff {buffer : NnVulkanBuffer} {batchSize size byte : ℕ}
    (h : segment.calcSliceSize buffer batchSize segment.data.nBatches = .ok size)
    (hbyte : byte < segment.bufferSize buffer) :
    byte < size ↔ segment.InRows batchSize buffer byte := by
  unfold calcSliceSize at h
  by_cases hsliceable : segment.isSliceable buffer = true
  · rw [if_pos hsliceable] at h
    obtain ⟨_, _, h⟩ := bind_eq_ok h
    injection h with h
    unfold isSliceable at hsliceable
    cases hdata : dataSize segment.data buffer with
    | none =>
      rw [hdata] at hsliceable
      cases hsliceable
    | some extent =>
      rw [hdata] at hsliceable
      have hplanes : extent.z = 1 := of_decide_eq_true hsliceable
      have hbytes : segment.bufferSize buffer = extent.nBytes := by
        unfold bufferSize
        rw [hdata]
      have hrows : segment.InRows batchSize buffer byte ↔
          if segment.data.nonCoherentAtomSize = 0 then
            byte < extent.nBytes / segment.data.nBatches * batchSize
          else byte / segment.data.nonCoherentAtomSize ≤
            extent.nBytes / segment.data.nBatches * batchSize /
              segment.data.nonCoherentAtomSize := by
        constructor
        · intro hin
          exact hin extent hdata hplanes
        · intro hin other hother _
          rw [Option.some.inj (hother.symm.trans hdata)]
          exact hin
      rw [hrows, ← h, DevicePlacement.calcSliceSize, hbytes]
      rw [hbytes] at hbyte
      by_cases hatom : segment.data.nonCoherentAtomSize = 0
      · simp [hatom]
      · rw [if_pos hatom, if_neg hatom]
        exact lt_roundUp_iff (Nat.pos_of_ne_zero hatom) hbyte
  · rw [if_neg hsliceable] at h
    injection h with h
    rw [← h]
    constructor
    · intro _ extent hdata hplanes
      exact absurd (by rw [isSliceable, hdata]; exact decide_eq_true hplanes) hsliceable
    · intro _
      exact hbyte

/-- A barrier before an operation covers a region if its buffer is planned and its last byte belongs
to the rows of the batch. -/
theorem covered_iff {batchSize k : ℕ} {op : NnVulkanSegmentOp} {planned : List NnVulkanBuffer}
    {commands : List NnOpCommands} {command : NnOpCommands} (hcommand : commands[k]? = some command)
    (h : segment.recordOp batchSize op planned = .ok command) {region : NnRegion}
    (hpos : 0 < region.size)
    (hsize : region.first + region.size ≤ segment.bufferSize region.buffer) :
    Covered commands k region ↔ region.buffer ∈ planned ∧
      segment.InRows batchSize region.buffer (region.first + region.size - 1) := by
  obtain ⟨_, hbarriers⟩ := segment.recordOp_spec h
  have hlast : region.first + region.size - 1 < segment.bufferSize region.buffer := by omega
  constructor
  · intro hcovered
    obtain ⟨command', barrier, hcommand', hmem, hbuffer, hfirst, hcovers⟩ := hcovered
    have heq : command' = command := Option.some.inj (hcommand'.symm.trans hcommand)
    rw [heq] at hmem
    obtain ⟨hplanned, hmade⟩ := (hbarriers barrier).mp hmem
    rw [hbuffer] at hplanned hmade
    obtain ⟨size, hslice, hmade⟩ := bind_eq_ok hmade
    injection hmade with hmade
    rw [← hmade] at hcovers
    simp only [Nat.zero_add] at hcovers
    exact ⟨hplanned, (segment.lt_calcSliceSize_iff hslice hlast).mp (by omega)⟩
  · intro hin
    obtain ⟨hplanned, hrows⟩ := hin
    obtain ⟨barrier, hmade⟩ := segment.memoryBarrier_of_planned h hplanned
    have hmade' := hmade
    obtain ⟨size, hslice, hmade'⟩ := bind_eq_ok hmade'
    injection hmade' with heq
    have hcovers := (segment.lt_calcSliceSize_iff hslice hlast).mpr hrows
    have hbuffer : barrier.buffer = region.buffer := by rw [← heq]
    refine ⟨command, barrier, hcommand, (hbarriers barrier).mpr ?_, hbuffer, ?_, ?_⟩
    · rw [hbuffer]
      exact ⟨hplanned, hmade⟩
    · rw [← heq]
      exact Nat.zero_le _
    · rw [← heq]
      simp only
      omega

theorem recordCommands_spec {batchSize : ℕ} {commands : List NnOpCommands}
    (hcreated : segment.Created) (h : segment.recordCommands batchSize = .ok commands) {k : ℕ}
    {op : NnVulkanSegmentOp} (hop : segment.ops[k]? = some op) :
    ∃ planned command, (plan [] segment.accesses)[k]? = some planned ∧
      commands[k]? = some command ∧ segment.recordOp batchSize op planned = .ok command := by
  have haccesses : segment.accesses[k]? = some (plannedAccesses op.accesses) := by
    rw [accesses, List.getElem?_map, hop]
    exact Eq.refl _
  have hplanned := plan_getElem? [] segment.accesses k
  rw [haccesses] at hplanned
  have hentry : (segment.ops.zip segment.buffersToSync)[k]? = some (op, _) :=
    List.getElem?_zip_eq_some.mpr ⟨hop, (congrArg (·[k]?) hcreated.planned).trans hplanned⟩
  obtain ⟨command, hcommand, hrecord⟩ := (mapM_eq_ok h).2 k _ hentry
  exact ⟨_, command, hplanned, hcommand, hrecord⟩

/-- What an operation writes it is planned to modify. -/
theorem modifies_of_touched (hcreated : segment.Created) {i : ℕ} {writer : NnVulkanSegmentOp}
    (hwriter : segment.ops[i]? = some writer) {counts : NnGroupCounts} {index : ℕ → ℕ}
    {buffer : NnVulkanBuffer} {byte : ℕ}
    (h : Touched (writer.footprint counts index).writes buffer byte) :
    Modifies segment.accesses i buffer := by
  obtain ⟨region, hmem, hbuffer, _⟩ := h
  refine ⟨plannedAccesses writer.accesses, ?_, ?_⟩
  · rw [accesses, List.getElem?_map, hwriter]
    exact Eq.refl _
  · rw [mem_modifies, ← hbuffer]
    exact writer.readWrite_of_mem_writes (hcreated.layout i writer hwriter) hmem

/-- Up to an operation a flush comes after another one, if a buffer that the latter writes is
plainly read, or if there is a flush anyway. -/
theorem flushBetween_of_safe (hcreated : segment.Created) {i j : ℕ}
    {writer reader : NnVulkanSegmentOp} (hij : i < j) (hwriter : segment.ops[i]? = some writer)
    (hreader : segment.ops[j]? = some reader) {counts : NnGroupCounts} {index : ℕ → ℕ}
    {buffer : NnVulkanBuffer} {byte : ℕ}
    (hwrite : Touched (writer.footprint counts index).writes buffer byte)
    (h : ⟨.readonly, buffer⟩ ∈ reader.accesses ∨ FlushBetween segment.accesses i j) :
    FlushBetween segment.accesses i j := by
  cases h with
  | inl hread =>
    apply flushBetween_of_reads hij (segment.modifies_of_touched hcreated hwriter hwrite)
    refine ⟨plannedAccesses reader.accesses, ?_, mem_reads.mpr hread⟩
    rw [accesses, List.getElem?_map, hreader]
    exact Eq.refl _
  | inr hflush => exact hflush

/-- Between two operations a region that the first one writes is covered exactly when there is a
flush and its last byte belongs to the rows of the batch. -/
theorem covered_between_iff {batchSize : ℕ} {commands : List NnOpCommands}
    (hcreated : segment.Created) (h : segment.recordCommands batchSize = .ok commands) {i j : ℕ}
    {writer reader : NnVulkanSegmentOp} (hwriter : segment.ops[i]? = some writer)
    (hreader : segment.ops[j]? = some reader) {counts : NnGroupCounts} {index : ℕ → ℕ} {byte : ℕ}
    (region : NnRegion) (hpos : 0 < region.size)
    (hsize : region.first + region.size ≤ segment.bufferSize region.buffer)
    (hwrite : Touched (writer.footprint counts index).writes region.buffer byte) :
    (∃ k, i < k ∧ k ≤ j ∧ Covered commands k region) ↔
      FlushBetween segment.accesses i j ∧
        segment.InRows batchSize region.buffer (region.first + region.size - 1) := by
  have hmod := segment.modifies_of_touched hcreated hwriter hwrite
  obtain ⟨hj, _⟩ := List.getElem?_eq_some_iff.mp hreader
  have hops : ∀ k ≤ j, ∃ op, segment.ops[k]? = some op := by
    intro k hk
    exact ⟨_, List.getElem?_eq_getElem (Nat.lt_of_le_of_lt hk hj)⟩
  have hlength : j < segment.accesses.length := by
    rw [accesses, List.length_map]
    exact hj
  have hbetween := planned_between_iff hlength hmod
  constructor
  · intro hcovered
    obtain ⟨k, hik, hkj, hk⟩ := hcovered
    obtain ⟨op, hop⟩ := hops k hkj
    obtain ⟨planned, command, hplanned, hcommand, hrecord⟩ :=
      segment.recordCommands_spec hcreated h hop
    obtain ⟨hmem, hrows⟩ := (segment.covered_iff hcommand hrecord hpos hsize).mp hk
    exact ⟨hbetween.mp ⟨k, planned, hik, hkj, hplanned, hmem⟩, hrows⟩
  · intro hflush
    obtain ⟨k, planned, hik, hkj, hplanned, hmem⟩ := hbetween.mpr hflush.1
    obtain ⟨op, hop⟩ := hops k hkj
    obtain ⟨planned', command, hplanned', hcommand, hrecord⟩ :=
      segment.recordCommands_spec hcreated h hop
    have heq : planned' = planned := Option.some.inj (hplanned'.symm.trans hplanned)
    rw [heq] at hrecord
    exact ⟨k, hik, hkj,
      (segment.covered_iff hcommand hrecord hpos hsize).mpr ⟨hmem, hflush.2⟩⟩

/-- Commands that are recorded for a batch keep its operations apart exactly on the condition. -/
theorem synced_iff_of_recorded {batchSize : ℕ} {commands : List NnOpCommands}
    (hcreated : segment.Created) (h : segment.recordCommands batchSize = .ok commands)
    (index : ℕ → ℕ → ℕ) : segment.Synced commands index ↔ segment.Safe batchSize index := by
  have hcounts : ∀ (k : ℕ) (op : NnVulkanSegmentOp) (command : NnOpCommands),
      segment.ops[k]? = some op → commands[k]? = some command →
      segment.groupCounts batchSize op.opConfig = .ok command.groupCounts := by
    intro k op command hop hcommand
    obtain ⟨planned, command', _, hcommand', hrecord⟩ :=
      segment.recordCommands_spec hcreated h hop
    have heq : command' = command := Option.some.inj (hcommand'.symm.trans hcommand)
    rw [← heq]
    exact (segment.recordOp_spec hrecord).1
  constructor
  · intro hsynced i j writer reader writing reading hij hwriter hreader hwriting hreading buffer
      byte hbyte hwrite hread
    obtain ⟨_, wcommand, _, hwcommand, _⟩ := segment.recordCommands_spec hcreated h hwriter
    obtain ⟨_, rcommand, _, hrcommand, _⟩ := segment.recordCommands_spec hcreated h hreader
    have hwcounts := hcounts i writer wcommand hwriter hwcommand
    have hrcounts := hcounts j reader rcommand hreader hrcommand
    rw [hwriting] at hwcounts
    rw [hreading] at hrcounts
    injection hwcounts with hwcounts
    injection hrcounts with hrcounts
    have honly : ∀ b, NnRegion.Has ⟨buffer, byte, 1⟩ b → b = byte := by
      intro b hb
      exact Nat.le_antisymm (Nat.le_of_lt_succ hb.2) hb.1
    rw [hwcounts] at hwrite
    rw [hrcounts] at hread
    have hcovered := hsynced i j writer reader wcommand rcommand hij hwriter hreader hwcommand
      hrcommand ⟨buffer, byte, 1⟩ Nat.one_pos hbyte
      (fun b hb => by rw [honly b hb]; exact hwrite) (fun b hb => by rw [honly b hb]; exact hread)
    obtain ⟨hflush, hrows⟩ := (segment.covered_between_iff hcreated h hwriter hreader
      ⟨buffer, byte, 1⟩ Nat.one_pos hbyte hwrite).mp hcovered
    exact ⟨.inr hflush, hrows⟩
  · intro hsafe i j writer reader writing reading hij hwriter hreader hwriting hreading region hpos
      hsize hwrite hread
    have hlast : region.Has (region.first + region.size - 1) := by
      constructor <;> omega
    have hwrite' := hwrite _ hlast
    obtain ⟨hflush, hrows⟩ := hsafe i j writer reader writing.groupCounts reading.groupCounts hij
      hwriter hreader (hcounts i writer writing hwriter hwriting)
      (hcounts j reader reading hreader hreading) region.buffer _ (by omega) hwrite' (hread _ hlast)
    have hbetween := segment.flushBetween_of_safe hcreated hij hwriter hreader hwrite' hflush
    exact (segment.covered_between_iff hcreated h hwriter hreader region hpos hsize hwrite').mpr
      ⟨hbetween, hrows⟩

/-- Nothing is recorded yet, or the commands are those of the last batch. -/
def Recorded (s : State) : Prop :=
  s = init ∨ segment.recordCommands s.lastBatchSize = .ok s.commandBuffer

/-- A batch leaves its commands. -/
theorem recorded_forward {s s' : State} {batchSize : ℕ} (hs : segment.Recorded s)
    (h : segment.forward s batchSize = .ok s') :
    segment.Recorded s' ∧ s'.lastBatchSize = batchSize := by
  obtain ⟨_, _, h⟩ := bind_eq_ok h
  by_cases hother : s.lastBatchSize ≠ batchSize
  · rw [if_pos hother] at h
    obtain ⟨commands, hcommands, h⟩ := bind_eq_ok h
    injection h with h
    rw [← h]
    exact ⟨.inr hcommands, Eq.refl _⟩
  · rw [if_neg hother] at h
    injection h with h
    rw [← h]
    exact ⟨hs, not_not.mp hother⟩

/-- Batch after batch. -/
theorem recorded_run {batchSizes : List ℕ} {s s' : State} (hs : segment.Recorded s)
    (h : batchSizes.foldlM segment.forward s = .ok s') : segment.Recorded s' := by
  induction batchSizes generalizing s with
  | nil =>
    injection h with h
    exact h ▸ hs
  | cons batchSize batchSizes ih =>
    obtain ⟨next, hnext, h⟩ := bind_eq_ok h
    exact ih (segment.recorded_forward hs hnext).1 h

theorem workGroups_empty {counts : NnGroupCounts} (h : counts.y = 0) : counts.workGroups = [] := by
  simp [NnGroupCounts.workGroups, h]

/-- No rows, nothing written. -/
theorem safe_zero (index : ℕ → ℕ → ℕ) : segment.Safe 0 index := by
  intro i j writer reader writing reading _ _ _ hwriting _ buffer byte _ hwrite _
  obtain ⟨_, _, hwriting⟩ := bind_eq_ok hwriting
  obtain ⟨_, _, hwriting⟩ := bind_eq_ok hwriting
  obtain ⟨_, _, hwriting⟩ := bind_eq_ok hwriting
  injection hwriting with hwriting
  obtain ⟨region, hmem, _⟩ := hwrite
  have hempty : writing.workGroups = [] := workGroups_empty (by rw [← hwriting])
  simp only [NnVulkanSegmentOp.footprint, hempty, List.flatMap_nil] at hmem
  cases hmem

end NnVulkanDeviceSegment

open NnVulkanDeviceSegment in
/-- After any batches, the barriers that a batch runs with keep its operations apart exactly on the
condition. -/
theorem synced_iff {data : NnVulkanDeviceData} {opConfigs : List NnOpConfig}
    {segment : NnVulkanDeviceSegment} (hcreate : createSegment data opConfigs = .ok segment)
    {batchSizes : List ℕ} {s s' : State} {batchSize : ℕ}
    (hrun : batchSizes.foldlM segment.forward init = .ok s)
    (h : segment.forward s batchSize = .ok s') (index : ℕ → ℕ → ℕ) :
    segment.Synced s'.commandBuffer index ↔ segment.Safe batchSize index := by
  have hrecorded := segment.recorded_run (.inl (Eq.refl _)) hrun
  obtain ⟨hnow, hsize⟩ := segment.recorded_forward hrecorded h
  cases hnow with
  | inl hinit =>
    have hzero : batchSize = 0 := by
      rw [← hsize, hinit]
      exact Eq.refl _
    rw [hzero, hinit]
    constructor
    · intro _
      exact segment.safe_zero index
    · intro _ i j writer reader writing reading _ _ _ hwriting
      simp [init] at hwriting
  | inr hcommands =>
    rw [hsize] at hcommands
    exact segment.synced_iff_of_recorded (created hcreate) hcommands index

end Segment

section Instance

open NnVulkanDeviceSegment

/-- A node with one layer: a head of four values, a context of 64 rows, batches of up to four. -/
def cacheData : NnVulkanDeviceData where
  nBatches := 4
  tpSize := 1
  tpRank := 0
  pipes := [size2D .f32 4 1]
  buffers := [size2D .f32 4 4, size2D .f32 4 4, size2D .f32 64 4, size2D .f32 64 4,
    size2D .f32 4 4, size2D .f32 4 4, size2D .f32 4 64]
  nonCoherentAtomSize := 64

/-- Keys and values go to their caches, then attention reads the caches. -/
def cacheOps : List NnOpConfig :=
  [⟨.shift 0, ⟨.buffer, 0, .batch⟩, ⟨.buffer, 2, .raw⟩, size0⟩,
    ⟨.shift 0, ⟨.buffer, 1, .batch⟩, ⟨.buffer, 3, .raw⟩, size0⟩,
    ⟨.multiheadAtt ⟨1, 1, 1, 4, 64, 4, 4, 0, 4, 2, 3, 6⟩, ⟨.buffer, 5, .batchedSlice⟩,
      ⟨.buffer, 5, .batchedSlice⟩, size0⟩]

/-- The segment of these operations. -/
def cacheSegment : NnVulkanDeviceSegment :=
  match createSegment cacheData cacheOps with
  | .ok segment => segment
  | .error _ => ⟨cacheData, [], []⟩

/-- Its commands for a batch of one row. -/
def cacheState : State :=
  match cacheSegment.forward init 1 with
  | .ok s => s
  | .error _ => init

theorem cacheSegment_created : createSegment cacheData cacheOps = .ok cacheSegment := rfl

theorem cacheState_forward : cacheSegment.forward init 1 = .ok cacheState := rfl

/-- The row of position 32 in the key cache is written and read. -/
theorem cache_row :
    (∃ writer writing, cacheSegment.ops[0]? = some writer ∧
      cacheState.commandBuffer[0]? = some writing ∧
        ⟨.buffer 2, 512, 4⟩ ∈ (writer.footprint writing.groupCounts fun _ => 32).writes) ∧
      ∃ reader reading, cacheSegment.ops[2]? = some reader ∧
        cacheState.commandBuffer[2]? = some reading ∧
          ⟨.buffer 2, 512, 4⟩ ∈ (reader.footprint reading.groupCounts fun _ => 32).reads := by
  refine ⟨⟨_, _, rfl, rfl, ?_⟩, ⟨_, _, rfl, rfl, ?_⟩⟩
  · decide +kernel
  · decide +kernel

/-- No barrier on the key cache covers it. -/
theorem cache_barriers : ∀ command ∈ cacheState.commandBuffer,
    ∀ barrier ∈ command.memoryBarriers, barrier.offset + barrier.size < 516 := by
  decide +kernel

/-- In a batch of one row at position 32 attention reads a row of the cache that no barrier
covers. -/
theorem not_synced_cache :
    ¬ ∀ (data : NnVulkanDeviceData) (opConfigs : List NnOpConfig)
      (segment : NnVulkanDeviceSegment), createSegment data opConfigs = .ok segment →
      ∀ (batchSizes : List ℕ) (s s' : State) (batchSize : ℕ),
        batchSizes.foldlM segment.forward init = .ok s →
        segment.forward s batchSize = .ok s' →
          ∀ index, segment.Synced s'.commandBuffer index := by
  intro h
  have hsynced := h cacheData cacheOps cacheSegment cacheSegment_created [] init cacheState 1
    (Eq.refl _) cacheState_forward fun _ _ => 32
  obtain ⟨hwrites, reader, reading, hreader, hreading, hread⟩ := cache_row
  obtain ⟨writer, writing, hwriter, hwriting, hwrite⟩ := hwrites
  obtain ⟨k, _, _, command, barrier, hcommand, hmem, _, _, hcovers⟩ :=
    hsynced 0 2 writer reader writing reading (by decide) hwriter hreader hwriting hreading
      ⟨.buffer 2, 512, 4⟩ (by decide) (by decide +kernel)
      (fun _ hbyte => ⟨_, hwrite, Eq.refl _, hbyte⟩) fun _ hbyte => ⟨_, hread, Eq.refl _, hbyte⟩
  have hshort := cache_barriers command (List.mem_of_getElem? hcommand) barrier hmem
  have hcovers : 512 + 4 ≤ barrier.offset + barrier.size := hcovers
  omega

/-- The segment of the caches at position 0. -/
theorem synced_iff_cache :
    cacheSegment.Synced cacheState.commandBuffer (fun _ _ => 0) ↔
      cacheSegment.Safe 1 fun _ _ => 0 := by
  have hrun : ([] : List ℕ).foldlM cacheSegment.forward init = .ok init := Eq.refl _
  exact synced_iff cacheSegment_created hrun cacheState_forward _

end Instance

end LayerSkip.VulkanBarriers
