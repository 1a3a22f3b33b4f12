import LayerSkip.ByteSession
import LayerSkip.LittleEndian
import LayerSkip.NnNetwork
import LayerSkip.NnPipeline
import Mathlib.Data.List.TakeWhile

/-!
# Sending the configuration to the workers

The root writes the configuration of the network and that of a node to each worker, field by
field; the worker reads the same fields. Both begin and end with an acknowledgement. Numbers
and small records cross the socket as they lie in memory, lowest byte first.
-/

namespace LayerSkip.ConfigProtocol

open NnTopology NnNetwork NnPipeline LittleEndian ByteSession

/-- Bytes. -/
abbrev NnByte := UInt8

/-- Unsigned 64-bit words. -/
abbrev NnSize := UInt64

/-- An enumeration: its enumerators are numbered in order from zero. -/
class Enumeration (ε : Type) where
  /-- Enumerators in order. -/
  values : List ε
  /-- There is no other one. -/
  mem_values : ∀ e, e ∈ values
  /-- The numbers are words. -/
  length_le : values.length ≤ 2 ^ 32

/-- Number of an enumerator. -/
def Enumeration.number {ε : Type} [DecidableEq ε] [Enumeration ε] (e : ε) : ℕ :=
  (values : List ε).idxOf e

/-- Enumerator of a number. -/
def Enumeration.ofNumber {ε : Type} [Enumeration ε] (n : ℕ) : Option ε := (values : List ε)[n]?

/-- Kinds of operations. -/
inductive NnOpCode
  | mergeAdd
  | mergeSum
  | embedding
  | invRms
  | rmsNorm
  | matmul
  | rope
  | multiheadAtt
  | gelu
  | silu
  | mul
  | scale
  | cast
  | repeatZ
  | shift
  | softmax
  | matmulArgmax
  | argmaxReduce
  | moeGate
  deriving DecidableEq, Repr

/-- What a pointer points into. -/
inductive NnPointerSource
  | pipe
  | buffer
  deriving DecidableEq, Repr

/-- What part of it. -/
inductive NnPointerType
  | raw
  | batch
  | batchedSlice
  deriving DecidableEq, Repr

/-- Kinds of syncs. -/
inductive NnSyncType
  | withRoot
  | nodeSlices
  | nodeSlicesExceptRoot
  | spKv
  deriving DecidableEq, Repr

instance : Enumeration NnOpCode where
  values := [.mergeAdd, .mergeSum, .embedding, .invRms, .rmsNorm, .matmul, .rope, .multiheadAtt,
    .gelu, .silu, .mul, .scale, .cast, .repeatZ, .shift, .softmax, .matmulArgmax, .argmaxReduce,
    .moeGate]
  mem_values e := by cases e <;> decide
  length_le := by decide

instance : Enumeration NnPointerSource where
  values := [.pipe, .buffer]
  mem_values e := by cases e <;> decide
  length_le := by decide

instance : Enumeration NnPointerType where
  values := [.raw, .batch, .batchedSlice]
  mem_values e := by cases e <;> decide
  length_le := by decide

instance : Enumeration NnSyncType where
  values := [.withRoot, .nodeSlices, .nodeSlicesExceptRoot, .spKv]
  mem_values e := by cases e <;> decide
  length_le := by decide

/-- A C string whose size with the terminator is a word. -/
structure CString where
  /-- Characters before the terminator. -/
  chars : List NnByte
  /-- The first zero ends the string. -/
  noNul : ∀ c ∈ chars, c ≠ 0
  /-- The size is a word. -/
  fits : chars.length + 1 < 2 ^ 32
  deriving DecidableEq

theorem ne_zero_of_mem_takeWhile {buffer : List NnByte} :
    ∀ c ∈ buffer.takeWhile (· ≠ 0), c ≠ 0 := by
  intro c hc
  have hne := List.mem_takeWhile_imp hc
  simpa using hne

/-- String in a buffer. -/
def CString.ofBuffer (buffer : List NnByte) : Option CString :=
  if h : 0 ∈ buffer ∧ (buffer.takeWhile (· ≠ 0)).length + 1 < 2 ^ 32 then
    some ⟨buffer.takeWhile (· ≠ 0), ne_zero_of_mem_takeWhile, h.2⟩
  else none

/-- Sizes of a tensor. -/
structure NnSize3D where
  /-- Number format, none for an unknown one. -/
  floatType : Option NnFloatType
  /-- Planes. -/
  z : NnUint
  /-- Rows. -/
  y : NnUint
  /-- Columns. -/
  x : NnUint
  /-- Number of values. -/
  length : NnSize
  /-- Number of bytes. -/
  nBytes : NnSize
  /-- Bytes of a plane. -/
  nBytesXY : NnSize
  deriving DecidableEq, Repr

/-- A pipe. -/
structure NnPipeConfig where
  /-- Name. -/
  name : CString
  /-- Size. -/
  size : NnSize3D
  deriving DecidableEq

/-- A buffer. -/
structure NnBufferConfig where
  /-- Name. -/
  name : CString
  /-- Size. -/
  size : NnSize3D
  deriving DecidableEq

/-- A pointer. -/
structure NnPointerConfig where
  /-- Pipe or buffer. -/
  source : NnPointerSource
  /-- Index of it. -/
  pointerIndex : NnUint
  /-- Part of it. -/
  type : NnPointerType
  deriving DecidableEq, Repr

/-- An operation with the bytes of its configuration. -/
structure NnOpConfig where
  /-- Kind. -/
  code : NnOpCode
  /-- Name. -/
  name : CString
  /-- Layer. -/
  index : NnUint
  /-- Input. -/
  input : NnPointerConfig
  /-- Output. -/
  output : NnPointerConfig
  /-- Size of the weight. -/
  weightSize : NnSize3D
  /-- Bytes of the configuration. -/
  configSize : NnUint
  /-- Configuration. -/
  config : List.Vector NnByte configSize.toNat
  deriving DecidableEq

/-- A sync before the segments. -/
structure NnPreSyncConfig where
  /-- Pipe. -/
  pipeIndex : NnUint
  deriving DecidableEq, Repr

/-- A sync. -/
structure NnSyncConfig where
  /-- Pipe. -/
  pipeIndex : NnUint
  /-- Kind. -/
  syncType : NnSyncType
  /-- Buffer of the keys. -/
  spKvKBufferIndex : NnUint
  /-- Buffer of the values. -/
  spKvVBufferIndex : NnUint
  /-- First row of the rank. -/
  spKvLocalSeqStart : NnUint
  /-- Rows of the rank. -/
  spKvLocalSeqLen : NnUint
  /-- Values of a row. -/
  spKvDim0 : NnUint
  /-- Pipe of the positions. -/
  spKvPositionPipeIdx : NnUint
  deriving DecidableEq, Repr

/-- A segment. -/
structure NnSegmentConfig where
  /-- Number of operations. -/
  nOps : NnUint
  /-- Operations. -/
  ops : List.Vector NnOpConfig nOps.toNat
  /-- Number of syncs. -/
  nSyncs : NnUint
  /-- Syncs. -/
  syncs : List.Vector NnSyncConfig nSyncs.toNat
  deriving DecidableEq

/-- The network. -/
structure NnNetConfig where
  /-- Rows of a batch. -/
  nBatches : NnUint
  /-- Number of nodes. -/
  nNodes : NnUint
  /-- Number of pipes. -/
  nPipes : NnUint
  /-- Pipes. -/
  pipes : List.Vector NnPipeConfig nPipes.toNat
  /-- Number of syncs before the segments. -/
  nPreSyncs : NnUint
  /-- Syncs before the segments. -/
  preSyncs : List.Vector NnPreSyncConfig nPreSyncs.toNat
  deriving DecidableEq

/-- A node. -/
structure NnNodeConfig where
  /-- Index of the node. -/
  nodeIndex : NnUint
  /-- Pipeline stage. -/
  ppRank : NnUint
  /-- Tensor rank. -/
  tpRank : NnUint
  /-- First node of the tensor group. -/
  tpGroupStart : NnUint
  /-- One past its last node. -/
  tpGroupEnd : NnUint
  /-- Sequence rank. -/
  spRank : NnUint
  /-- First node of the stage. -/
  spGroupStart : NnUint
  /-- One past its last node. -/
  spGroupEnd : NnUint
  /-- Pipe of the positions. -/
  positionPipeIndex : NnUint
  /-- Pipe of the tokens. -/
  tokenPipeIndex : NnUint
  /-- Pipe of the activations. -/
  xPipeIndex : NnUint
  /-- Pipe of the logits. -/
  logitsPipeIndex : NnUint
  /-- Number of buffers. -/
  nBuffers : NnUint
  /-- Buffers. -/
  buffers : List.Vector NnBufferConfig nBuffers.toNat
  /-- Number of segments. -/
  nSegments : NnUint
  /-- Segments. -/
  segments : List.Vector NnSegmentConfig nSegments.toNat
  deriving DecidableEq

/-! ### What is written in one piece -/

theorem Enumeration.number_lt {ε : Type} [DecidableEq ε] [Enumeration ε] (e : ε) :
    number e < 256 ^ 4 := by
  have hlt := List.idxOf_lt_length_of_mem (mem_values e)
  have hle := length_le (ε := ε)
  unfold number
  omega

theorem Enumeration.ofNumber_number {ε : Type} [DecidableEq ε] [Enumeration ε] (e : ε) :
    ofNumber (number e) = some e := List.getElem?_idxOf (mem_values e)

/-- A word. -/
def uint : Codec NnByte NnUint where
  size := 4
  encode w := bytes 4 w.toNat
  decode bs := some (UInt32.ofNat (value bs))
  encode_length _ := bytes_length _ _
  decode_encode w := by
    rw [value_bytes w.toNat_lt, UInt32.ofNat_toNat]

/-- An enumerator. -/
def enumerator (ε : Type) [DecidableEq ε] [Enumeration ε] : Codec NnByte ε where
  size := 4
  encode e := bytes 4 (Enumeration.number e)
  decode bs := Enumeration.ofNumber (value bs)
  encode_length _ := bytes_length _ _
  decode_encode e := by
    rw [value_bytes (Enumeration.number_lt e), Enumeration.ofNumber_number]

/-- Number of a float type; the unknown one is minus one. -/
def floatTypeNumber : Option NnFloatType → ℕ
  | none => 2 ^ 32 - 1
  | some .f32 => 0
  | some .f16 => 1
  | some .q40 => 2
  | some .q80 => 3

/-- Float type of a number. -/
def floatTypeOfNumber (n : ℕ) : Option (Option NnFloatType) :=
  if n = 2 ^ 32 - 1 then some none else (NnFloatType.ofUint (UInt32.ofNat n)).map some

/-- Sizes of a tensor as they lie in memory. -/
def size3D : Codec NnByte NnSize3D where
  size := 40
  encode s := record [(4, floatTypeNumber s.floatType), (4, s.z.toNat), (4, s.y.toNat),
    (4, s.x.toNat), (8, s.length.toNat), (8, s.nBytes.toNat), (8, s.nBytesXY.toNat)]
  decode bs :=
    match split [4, 4, 4, 4, 8, 8, 8] bs with
    | [floatType, z, y, x, length, nBytes, nBytesXY] =>
      (floatTypeOfNumber floatType).map fun t => ⟨t, .ofNat z, .ofNat y, .ofNat x, .ofNat length,
        .ofNat nBytes, .ofNat nBytesXY⟩
    | _ => none
  encode_length _ := record_length _
  decode_encode s := by
    have hfits : ∀ f ∈ [(4, floatTypeNumber s.floatType), (4, s.z.toNat), (4, s.y.toNat),
        (4, s.x.toNat), (8, s.length.toNat), (8, s.nBytes.toNat), (8, s.nBytesXY.toNat)],
        f.2 < 256 ^ f.1 := by
      have hfloat : floatTypeNumber s.floatType < 2 ^ 32 := by
        cases s.floatType with
        | none => decide
        | some t => cases t <;> decide
      have hz := s.z.toNat_lt
      have hy := s.y.toNat_lt
      have hx := s.x.toNat_lt
      have hlength := s.length.toNat_lt
      have hbytes := s.nBytes.toNat_lt
      have hplane := s.nBytesXY.toNat_lt
      simp only [List.forall_mem_cons, List.not_mem_nil, false_imp_iff, implies_true, and_true]
      omega
    have hfloat : floatTypeOfNumber (floatTypeNumber s.floatType) = some s.floatType := by
      cases s.floatType with
      | none => decide
      | some t => cases t <;> decide
    have hsplit := split_record hfits
    simp only [List.map_cons, List.map_nil] at hsplit
    rw [hsplit]
    dsimp only
    rw [hfloat]
    simp only [Option.map_some, UInt32.ofNat_toNat, UInt64.ofNat_toNat]

/-- A pointer as it lies in memory. -/
def pointerConfig : Codec NnByte NnPointerConfig where
  size := 12
  encode p := record [(4, Enumeration.number p.source), (4, p.pointerIndex.toNat),
    (4, Enumeration.number p.type)]
  decode bs :=
    match split [4, 4, 4] bs with
    | [source, pointerIndex, type] => do
      let source ← Enumeration.ofNumber source
      let type ← Enumeration.ofNumber type
      return ⟨source, .ofNat pointerIndex, type⟩
    | _ => none
  encode_length _ := record_length _
  decode_encode p := by
    have hfits : ∀ f ∈ [(4, Enumeration.number p.source), (4, p.pointerIndex.toNat),
        (4, Enumeration.number p.type)], f.2 < 256 ^ f.1 := by
      have hsource := Enumeration.number_lt p.source
      have hindex := p.pointerIndex.toNat_lt
      have htype := Enumeration.number_lt p.type
      simp only [List.forall_mem_cons, List.not_mem_nil, false_imp_iff, implies_true, and_true]
      omega
    have hsplit := split_record hfits
    simp only [List.map_cons, List.map_nil] at hsplit
    rw [hsplit]
    dsimp only
    rw [Enumeration.ofNumber_number, Enumeration.ofNumber_number, UInt32.ofNat_toNat]
    exact Eq.refl _

theorem CString.ofBuffer_chars (s : CString) : ofBuffer (s.chars ++ [0]) = some s := by
  have htake : (s.chars ++ [0]).takeWhile (· ≠ 0) = s.chars := by
    rw [List.takeWhile_append_of_pos fun c hc => decide_eq_true (s.noNul c hc)]
    exact List.append_nil s.chars
  have hnul : (0 : NnByte) ∈ s.chars ++ [0] := List.mem_append_right _ List.mem_cons_self
  unfold ofBuffer
  rw [dif_pos ⟨hnul, by rw [htake]; exact s.fits⟩]
  congr 1
  cases s
  simp only [CString.mk.injEq]
  exact htake

/-! ### The two programs -/

/-- A process of a node. -/
abbrev Node (ρ : Type) := Proc ℕ NnByte ρ

/-- Acknowledgement. -/
def ack : NnUint := 23571114

/-- Write an acknowledgement. -/
def writeAck (peer : ℕ) : Node Unit := writeValue uint peer ack

/-- Read one. -/
def readAck (peer : ℕ) : Node Unit := do
  let packet ← readValue uint peer
  if packet ≠ ack then .stop "Invalid ack packet" else return ()

/-- Write the size of a string and its characters. -/
def writeString (peer : ℕ) (str : CString) : Node Unit := do
  let bytes : NnUint := .ofNat (str.chars.length + 1)
  writeValue uint peer bytes
  writeBytes peer ((str.chars ++ [0]).take bytes.toNat)

/-- Read a string. -/
def readString (peer : ℕ) : Node CString := do
  let bytes ← readValue uint peer
  let str ← readBytes peer bytes.toNat
  ofDecoded (CString.ofBuffer str.toList)

/-- Configuration of the network, from the root. -/
def writeNet (peer : ℕ) (config : NnNetConfig) : Node Unit := do
  writeAck peer
  writeValue uint peer config.nBatches
  writeValue uint peer config.nNodes
  writeValue uint peer config.nPipes
  forEach config.pipes.toList fun pipeConfig => do
    writeValue size3D peer pipeConfig.size
    writeString peer pipeConfig.name
  writeValue uint peer config.nPreSyncs
  forEach config.preSyncs.toList fun preSyncConfig =>
    writeValue uint peer preSyncConfig.pipeIndex
  readAck peer

/-- Sync of a segment. -/
def writeSync (peer : ℕ) (syncConfig : NnSyncConfig) : Node Unit := do
  writeValue uint peer syncConfig.pipeIndex
  writeValue (enumerator NnSyncType) peer syncConfig.syncType
  writeValue uint peer syncConfig.spKvKBufferIndex
  writeValue uint peer syncConfig.spKvVBufferIndex
  writeValue uint peer syncConfig.spKvLocalSeqStart
  writeValue uint peer syncConfig.spKvLocalSeqLen
  writeValue uint peer syncConfig.spKvDim0
  writeValue uint peer syncConfig.spKvPositionPipeIdx

/-- Operation of a segment. -/
def writeOp (peer : ℕ) (opConfig : NnOpConfig) : Node Unit := do
  writeValue (enumerator NnOpCode) peer opConfig.code
  writeValue uint peer opConfig.index
  writeValue size3D peer opConfig.weightSize
  writeValue uint peer opConfig.configSize
  writeString peer opConfig.name
  writeValue pointerConfig peer opConfig.input
  writeValue pointerConfig peer opConfig.output
  if 0 < opConfig.configSize then writeBytes peer opConfig.config.toList else .done ()

/-- Configuration of a node, from the root. -/
def writeNode (peer : ℕ) (config : NnNodeConfig) : Node Unit := do
  writeAck peer
  writeValue uint peer config.nodeIndex
  writeValue uint peer config.ppRank
  writeValue uint peer config.tpRank
  writeValue uint peer config.tpGroupStart
  writeValue uint peer config.tpGroupEnd
  writeValue uint peer config.spRank
  writeValue uint peer config.spGroupStart
  writeValue uint peer config.spGroupEnd
  writeValue uint peer config.positionPipeIndex
  writeValue uint peer config.tokenPipeIndex
  writeValue uint peer config.xPipeIndex
  writeValue uint peer config.logitsPipeIndex
  writeValue uint peer config.nBuffers
  writeValue uint peer config.nSegments
  forEach config.buffers.toList fun bufferConfig => do
    writeValue size3D peer bufferConfig.size
    writeString peer bufferConfig.name
  forEach config.segments.toList fun segmentConfig => do
    writeValue uint peer segmentConfig.nSyncs
    writeValue uint peer segmentConfig.nOps
    forEach segmentConfig.syncs.toList (writeSync peer)
    forEach segmentConfig.ops.toList (writeOp peer)
  readAck peer

/-- The root writes both configurations of a worker to the socket of that worker. -/
def writeToWorker (netConfig : NnNetConfig) (nodeConfigs : ℕ → NnNodeConfig) (nodeIndex : ℕ) :
    Node Unit := do
  let socketIndex := nodeIndex - 1
  writeNet (connectedPeer 0 socketIndex) netConfig
  writeNode (connectedPeer 0 socketIndex) (nodeConfigs nodeIndex)

/-- The root serves one worker after the other. -/
def writeToWorkers (netConfig : NnNetConfig) (nodeConfigs : ℕ → NnNodeConfig) : Node Unit :=
  forEach (List.range' 1 (netConfig.nNodes.toNat - 1)) (writeToWorker netConfig nodeConfigs)

/-- Slot of the socket to the root. -/
def rootSocketIndex : ℕ := 0

/-- Configuration of the network, on a worker. -/
def readNet (peer : ℕ) : Node NnNetConfig := do
  readAck peer
  let nBatches ← readValue uint peer
  let nNodes ← readValue uint peer
  let nPipes ← readValue uint peer
  let readPipe : Node NnPipeConfig := do
    let size ← readValue size3D peer
    let name ← readString peer
    return { name, size }
  let pipes ← repeatRead readPipe nPipes.toNat
  let nPreSyncs ← readValue uint peer
  let readPreSync : Node NnPreSyncConfig := do
    let pipeIndex ← readValue uint peer
    return { pipeIndex }
  let preSyncs ← repeatRead readPreSync nPreSyncs.toNat
  writeAck peer
  return { nBatches, nNodes, nPipes, pipes, nPreSyncs, preSyncs }

/-- Sync of a segment. -/
def readSync (peer : ℕ) : Node NnSyncConfig := do
  let pipeIndex ← readValue uint peer
  let syncType ← readValue (enumerator NnSyncType) peer
  let spKvKBufferIndex ← readValue uint peer
  let spKvVBufferIndex ← readValue uint peer
  let spKvLocalSeqStart ← readValue uint peer
  let spKvLocalSeqLen ← readValue uint peer
  let spKvDim0 ← readValue uint peer
  let spKvPositionPipeIdx ← readValue uint peer
  return { pipeIndex, syncType, spKvKBufferIndex, spKvVBufferIndex, spKvLocalSeqStart,
           spKvLocalSeqLen, spKvDim0, spKvPositionPipeIdx }

/-- The only configuration without bytes. -/
def noConfig {configSize : NnUint} (h : ¬0 < configSize) : List.Vector NnByte configSize.toNat :=
  ⟨[], (Nat.eq_zero_of_not_pos fun hpos => h (UInt32.lt_iff_toNat_lt.mpr hpos)).symm⟩

/-- Bytes of a configuration. Without any there is no read. -/
def readConfig (peer : ℕ) (configSize : NnUint) : Node (List.Vector NnByte configSize.toNat) :=
  if h : 0 < configSize then readBytes peer configSize.toNat else .done (noConfig h)

/-- Operation of a segment. -/
def readOp (peer : ℕ) : Node NnOpConfig := do
  let code ← readValue (enumerator NnOpCode) peer
  let index ← readValue uint peer
  let weightSize ← readValue size3D peer
  let configSize ← readValue uint peer
  let name ← readString peer
  let input ← readValue pointerConfig peer
  let output ← readValue pointerConfig peer
  let config ← readConfig peer configSize
  return { code, name, index, input, output, weightSize, configSize, config }

/-- Configuration of a node, on a worker. -/
def readNode (peer : ℕ) : Node NnNodeConfig := do
  readAck peer
  let nodeIndex ← readValue uint peer
  let ppRank ← readValue uint peer
  let tpRank ← readValue uint peer
  let tpGroupStart ← readValue uint peer
  let tpGroupEnd ← readValue uint peer
  let spRank ← readValue uint peer
  let spGroupStart ← readValue uint peer
  let spGroupEnd ← readValue uint peer
  let positionPipeIndex ← readValue uint peer
  let tokenPipeIndex ← readValue uint peer
  let xPipeIndex ← readValue uint peer
  let logitsPipeIndex ← readValue uint peer
  let nBuffers ← readValue uint peer
  let nSegments ← readValue uint peer
  let readBuffer : Node NnBufferConfig := do
    let size ← readValue size3D peer
    let name ← readString peer
    return { name, size }
  let buffers ← repeatRead readBuffer nBuffers.toNat
  let readSegment : Node NnSegmentConfig := do
    let nSyncs ← readValue uint peer
    let nOps ← readValue uint peer
    let syncs ← repeatRead (readSync peer) nSyncs.toNat
    let ops ← repeatRead (readOp peer) nOps.toNat
    return { nOps, ops, nSyncs, syncs }
  let segments ← repeatRead readSegment nSegments.toNat
  writeAck peer
  return { nodeIndex, ppRank, tpRank, tpGroupStart, tpGroupEnd, spRank, spGroupStart, spGroupEnd,
           positionPipeIndex, tokenPipeIndex, xPipeIndex, logitsPipeIndex, nBuffers, buffers,
           nSegments, segments }

/-- A worker reads both configurations. -/
def readFromRoot (myNodeIndex : ℕ) : Node (NnNetConfig × NnNodeConfig) := do
  let netConfig ← readNet (connectedPeer myNodeIndex rootSocketIndex)
  let nodeConfig ← readNode (connectedPeer myNodeIndex rootSocketIndex)
  return (netConfig, nodeConfig)

end LayerSkip.ConfigProtocol
