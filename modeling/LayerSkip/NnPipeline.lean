import LayerSkip.NnTopology
import LayerSkip.NnNetwork

/-!
# Activation transfer between pipeline stages

A frame is a header and a payload on the socket of one peer. Payloads may be
quantised and may hold the difference to the last activation of that socket;
both ends remember that activation as the base of the next difference.
-/

namespace LayerSkip.NnPipeline

open NnTopology NnNetwork

/-- Number formats. -/
inductive NnFloatType
  | f32
  | f16
  | q40
  | q80
  deriving DecidableEq, Repr

/-- The format a control word names; larger words name none. -/
def NnFloatType.ofUint (w : NnUint) : Option NnFloatType :=
  if w = 0 then some .f32
  else if w = 1 then some .f16
  else if w = 2 then some .q40
  else if w = 3 then some .q80
  else none

/-- Values in one quantised block. -/
def q80BlockSize : ℕ := 32

/-- Bytes of `n` values. -/
def getBytes (dtype : NnFloatType) (n : ℕ) : ℕ :=
  match dtype with
  | .f32 => 4 * n
  | .f16 => 2 * n
  | .q40 => n / q80BlockSize * 18
  | .q80 => n / q80BlockSize * 34

/-- Values in so many bytes, as far as these are whole values or blocks. -/
def decodedElems (dtype : NnFloatType) (wireBytes : ℕ) : Option ℕ :=
  match dtype with
  | .f32 => some (wireBytes / 4)
  | .f16 => if wireBytes % 2 = 0 then some (wireBytes / 2) else none
  | .q40 => if wireBytes % 18 = 0 then some (wireBytes / 18 * q80BlockSize) else none
  | .q80 => if wireBytes % 34 = 0 then some (wireBytes / 34 * q80BlockSize) else none

/-- Quantised transport falls back to half floats when blocks do not fit. -/
def selectWireDtype (requested : NnFloatType) (nElems : ℕ) : NnFloatType :=
  if (requested = .q40 ∨ requested = .q80) ∧ nElems % q80BlockSize ≠ 0 then .f16 else requested

/-- Number encodings of the program, with the lengths they produce. The
arithmetic inside them is left open. -/
structure FloatCodec (F : Type) where
  /-- Bytes of values in a format. -/
  encode : NnFloatType → List F → List UInt8
  /-- Values of bytes in a format. -/
  decode : NnFloatType → List UInt8 → List F
  /-- Encoding fills the bytes of its values. -/
  encode_length : ∀ dtype xs, (encode dtype xs).length = getBytes dtype xs.length
  /-- Decoding gives the values that fit the bytes. -/
  decode_length : ∀ dtype bytes n, decodedElems dtype bytes.length = some n →
    (decode dtype bytes).length = n

/-- Header of a frame. -/
structure NnPipelineActivationHeader where
  /-- Sequence position of the activation. -/
  seqPosition : NnUint
  /-- Row in the batch. -/
  batchIndex : NnUint
  /-- Tensor rank the slice belongs to. -/
  sliceId : ℕ
  /-- Format of the payload. -/
  dtype : NnFloatType
  /-- Bytes of the payload. -/
  payloadBytes : ℕ
  /-- Reserved, the same as the payload bytes. -/
  totalPayloadBytes : ℕ
  /-- Bytes of one chunk of the stream, 0 for none. -/
  streamChunkBytes : ℕ
  /-- Flag bits. -/
  flags : NnUint
  /-- Checksum of the payload. -/
  checksum : NnUint
  deriving DecidableEq, Repr

/-- The payload is sent in chunks. -/
def pipelineFlagChunked : NnUint := 1

/-- The payload is a difference. -/
def pipelineFlagDelta : NnUint := 2

/-- Marker and activation of a skipped stage. -/
def pipelineFlagStageSkipBypass : NnUint := 4

/-- Flag bits of a frame; the caller may add its own. -/
def headerFlags (chunked delta : Bool) (extraFlags : NnUint) : NnUint :=
  (if chunked then pipelineFlagChunked else 0) ||| (if delta then pipelineFlagDelta else 0) |||
    extraFlags

/-- Only a difference carries the difference flag. -/
theorem headerFlags_delta (chunked delta : Bool) {extraFlags : NnUint}
    (he : extraFlags = 0 ∨ extraFlags = pipelineFlagStageSkipBypass) :
    headerFlags chunked delta extraFlags &&& pipelineFlagDelta ≠ 0 ↔ delta = true := by
  rcases he with rfl | rfl <;> cases chunked <;> cases delta <;> decide

/-- Only the caller's flags carry the bypass flag. -/
theorem headerFlags_bypass (chunked delta : Bool) {extraFlags : NnUint}
    (he : extraFlags = 0 ∨ extraFlags = pipelineFlagStageSkipBypass) :
    headerFlags chunked delta extraFlags &&& pipelineFlagStageSkipBypass ≠ 0 ↔
      extraFlags = pipelineFlagStageSkipBypass := by
  rcases he with rfl | rfl <;> cases chunked <;> cases delta <;> decide

/-- A header and as many payload bytes as it says. -/
structure Frame where
  /-- The header. -/
  header : NnPipelineActivationHeader
  /-- The payload. -/
  payload : List UInt8
  /-- The reader takes its length from the header. -/
  payload_length : payload.length = header.payloadBytes
  deriving DecidableEq

/-- The 32-bit word at a byte offset, low byte first. -/
def wordAt (data : List UInt8) (offset : ℕ) : NnUint :=
  ((List.range 4).map fun i => (data.getD (offset + i) 0).toUInt32 <<< (8 * i).toUInt32).foldl
    (· ||| ·) 0

/-- Checksum of a payload. Each round of the loop overwrites the last. -/
def calculateChecksum (data : List UInt8) (dtype : NnFloatType) : NnUint :=
  if dtype = .f32 ∧ 16 ≤ data.length then
    (List.range 4).foldl (fun _ i => wordAt data (4 * i) ^^^ (i + 1).toUInt32) 0
  else wordAt (data.take 4) 0

variable {F : Type} [Sub F]

/-- One end of the pipeline links of a node. -/
structure NnPipelineCommunicator (F : Type) where
  /-- Ranks of all nodes. -/
  topology : NnParallelTopology
  /-- This node. -/
  myNodeIndex : ℕ
  /-- Its pipeline stage. -/
  myPpRank : ℕ
  /-- Its sequence group. -/
  mySpRank : ℕ
  /-- Its tensor rank. -/
  myTpRank : ℕ
  /-- Whether differences may be sent. -/
  deltaEnabled : Bool
  /-- Smallest activation in bytes to send as a difference. -/
  deltaMinBytes : ℕ
  /-- Bytes of one chunk of a stream, 0 for none. -/
  chunkBytes : ℕ
  /-- Last activation sent on each socket. -/
  prevSendBySocket : ℕ → List F
  /-- Last activation received on each socket. -/
  prevRecvBySocket : ℕ → List F

namespace NnPipelineCommunicator

/-- A communicator that has not sent or received. -/
def create (topology : NnParallelTopology) (placement : NnNodePlacement) (deltaEnabled : Bool)
    (deltaMinBytes chunkBytes : ℕ) : NnPipelineCommunicator F :=
  ⟨topology, placement.globalRank, placement.ppRank, placement.spRank, placement.tpRank,
    deltaEnabled, deltaMinBytes, chunkBytes, fun _ => [], fun _ => []⟩

variable (codec : FloatCodec F) (c : NnPipelineCommunicator F)

/-- Whether a later stage exists. -/
def shouldSendActivations : Bool := c.myPpRank < c.topology.ppSize - 1

/-- Whether an earlier stage exists. -/
def shouldRecvActivations : Bool := 0 < c.myPpRank

/-- Stage that activations go to. -/
def getTargetPpRank : Except String ℕ :=
  if c.shouldSendActivations then .ok (c.myPpRank + 1)
  else .error "Cannot get target PP rank: already in last stage"

/-- Stage that activations come from. -/
def getSourcePpRank : Except String ℕ :=
  if c.shouldRecvActivations then .ok (c.myPpRank - 1)
  else .error "Cannot get source PP rank: already in first stage"

/-- Options a control packet sets. -/
def setTransportOptions (deltaEnabled : Bool) (deltaMinBytes chunkBytes : ℕ) :
    NnPipelineCommunicator F :=
  { c with deltaEnabled, deltaMinBytes, chunkBytes }

/-- Socket towards the node of a stage on the same lane. -/
def getPipelineSocketIndex (targetPpRank : ℕ) : Except String ℕ :=
  match c.topology.getGlobalRank targetPpRank c.mySpRank c.myTpRank with
  | .error (.runtimeError text) => .error text
  | .error .divisionByZero => .error "division by zero"
  | .ok targetGlobalRank =>
    if targetGlobalRank = c.myNodeIndex then
      .error "Pipeline socket target cannot be current node"
    else if c.myNodeIndex = 0 then
      if targetGlobalRank = 0 then .error "Invalid root pipeline socket target"
      else .ok (targetGlobalRank - 1)
    else if targetGlobalRank = 0 then .ok 0
    else if targetGlobalRank < c.myNodeIndex then .ok targetGlobalRank
    else .ok (targetGlobalRank - 1)

omit [Sub F] in
/-- The socket towards another node is the one that the collectives use. -/
theorem getPipelineSocketIndex_eq {c : NnPipelineCommunicator F} {targetPpRank rank : ℕ}
    (h : c.topology.getGlobalRank targetPpRank c.mySpRank c.myTpRank = .ok rank)
    (hne : rank ≠ c.myNodeIndex) :
    c.getPipelineSocketIndex targetPpRank = .ok (getSocketIndexForNode c.myNodeIndex rank) := by
  unfold getPipelineSocketIndex getSocketIndexForNode
  rw [h]
  dsimp only
  rw [if_neg hne]
  split
  · rename_i hroot
    rw [if_neg (by omega)]
  · split
    · rfl
    · split
      · rfl
      · rfl

/-- The frame of an activation on a socket: a difference when that is enabled
and the last activation there had the same length. -/
def makeFrame (socket : ℕ) (seqPosition batchIndex : NnUint) (sliceId : ℕ) (data : List F)
    (dtype : NnFloatType) (extraFlags : NnUint) : Frame :=
  let bytes := 4 * data.length
  let wireDtype := selectWireDtype dtype data.length
  let canDelta := c.deltaEnabled && c.deltaMinBytes ≤ bytes
  let prev := c.prevSendBySocket socket
  let useDelta : Bool := bytes ≠ 0 ∧ canDelta ∧ prev.length = data.length
  let wirePayload :=
    if bytes = 0 then []
    else if useDelta then codec.encode wireDtype (List.zipWith (· - ·) data prev)
    else codec.encode wireDtype data
  let writeChunkBytes :=
    if 0 < c.chunkBytes ∧ c.chunkBytes < wirePayload.length then c.chunkBytes else 0
  let flags := headerFlags (0 < writeChunkBytes) useDelta extraFlags
  ⟨⟨seqPosition, batchIndex, sliceId, wireDtype, wirePayload.length, wirePayload.length,
    writeChunkBytes, flags, calculateChecksum wirePayload wireDtype⟩, wirePayload, rfl⟩

/-- Remember the activation sent; a marker without payload leaves the base. -/
def noteSent (socket : ℕ) (data : List F) : NnPipelineCommunicator F :=
  if data.length = 0 then c
  else { c with prevSendBySocket := Function.update c.prevSendBySocket socket data }

/-- Send an activation: the socket and frame that go out and the new state. -/
def sendActivation (targetPpRank : ℕ) (seqPosition batchIndex : NnUint) (sliceId : ℕ)
    (data : List F) (dtype : NnFloatType) (extraFlags : NnUint) :
    Except String (ℕ × Frame × NnPipelineCommunicator F) :=
  if c.topology.ppSize ≤ targetPpRank then
    .error "Invalid target PP rank for pipeline communication"
  else do
    let socket ← c.getPipelineSocketIndex targetPpRank
    return (socket, c.makeFrame codec socket seqPosition batchIndex sliceId data dtype extraFlags,
      c.noteSent socket data)

/-- Socket an activation is read from. -/
def recvSocket (sourcePpRank : ℕ) : Except String ℕ :=
  if c.topology.ppSize ≤ sourcePpRank then
    .error "Invalid source PP rank for pipeline communication"
  else c.getPipelineSocketIndex sourcePpRank

/-- What `decodeToF32` leaves for a destination of so many floats. -/
def decodeToF32 (wire : List UInt8) (dtype : NnFloatType) (dstElems : ℕ) : Option (List F) :=
  match decodedElems dtype wire.length with
  | none => none
  | some n =>
    if dtype = .f32 then
      if 4 * dstElems < wire.length then none else some (codec.decode dtype wire)
    else if dstElems < n then none
    else some (codec.decode dtype wire)

/-- Take in a frame read from a socket: the values to store at the front of the
buffer and the new state, or nothing when the call returns false. -/
def acceptFrame [Add F] (socket : ℕ) (frame : Frame) (bufferElems : ℕ) :
    Option (List F × NnPipelineCommunicator F) :=
  if frame.header.totalPayloadBytes ≠ 0 ∧
      frame.header.totalPayloadBytes ≠ frame.header.payloadBytes then none
  else if frame.header.payloadBytes = 0 then some ([], c)
  else
    match decodeToF32 codec frame.payload frame.header.dtype bufferElems with
    | none => none
    | some values =>
      if frame.header.flags &&& pipelineFlagDelta ≠ 0 then
        let prev := c.prevRecvBySocket socket
        if prev.length ≠ values.length then none
        else
          let dst := List.zipWith (· + ·) prev values
          some (dst, { c with prevRecvBySocket := Function.update c.prevRecvBySocket socket dst })
      else
        some (values,
          { c with prevRecvBySocket := Function.update c.prevRecvBySocket socket values })

omit [Sub F] in
/-- Formats on the wire always hold whole blocks. -/
theorem decodedElems_encode (dtype : NnFloatType) (xs : List F) :
    decodedElems (selectWireDtype dtype xs.length)
      (codec.encode (selectWireDtype dtype xs.length) xs).length = some xs.length := by
  rw [codec.encode_length]
  have hwhole : (selectWireDtype dtype xs.length = .q40 ∨ selectWireDtype dtype xs.length = .q80) →
      xs.length % q80BlockSize = 0 := by
    intro h
    by_contra hne
    unfold selectWireDtype at h
    split_ifs at h with hc
    · simp at h
    · exact hc ⟨h, hne⟩
  generalize selectWireDtype dtype xs.length = t at hwhole
  cases t with
  | f32 => simp [decodedElems, getBytes]
  | f16 => simp [decodedElems, getBytes]
  | q40 =>
    have hb := Nat.div_mul_cancel (Nat.dvd_of_mod_eq_zero (hwhole (.inl rfl)))
    simp [decodedElems, getBytes, hb]
  | q80 =>
    have hb := Nat.div_mul_cancel (Nat.dvd_of_mod_eq_zero (hwhole (.inr rfl)))
    simp [decodedElems, getBytes, hb]

/-- Values on the wire: the activation or its difference to the base. -/
def wireValues (socket : ℕ) (data : List F) : List F :=
  if c.deltaEnabled ∧ c.deltaMinBytes ≤ 4 * data.length ∧
      (c.prevSendBySocket socket).length = data.length then
    List.zipWith (· - ·) data (c.prevSendBySocket socket)
  else data

theorem wireValues_length (socket : ℕ) (data : List F) :
    (c.wireValues socket data).length = data.length := by
  unfold wireValues
  split
  · rename_i h
    rw [List.length_zipWith, h.2.2, Nat.min_self]
  · rfl

/-- The payload of a nonempty activation encodes its wire values. -/
theorem makeFrame_payload (socket : ℕ) (seqPosition batchIndex : NnUint) (sliceId : ℕ)
    {data : List F} (hd : data.length ≠ 0) (dtype : NnFloatType) (extraFlags : NnUint) :
    (c.makeFrame codec socket seqPosition batchIndex sliceId data dtype extraFlags).payload =
      codec.encode (selectWireDtype dtype data.length) (c.wireValues socket data) := by
  have hbytes : ¬4 * data.length = 0 := by omega
  simp only [makeFrame, wireValues, hbytes, if_false, ne_eq, not_false_eq_true, true_and,
    Bool.and_eq_true, decide_eq_true_eq, and_assoc]
  split <;> rfl

/-- The delta flag is set exactly when the wire values are a difference. -/
theorem makeFrame_delta (socket : ℕ) (seqPosition batchIndex : NnUint) (sliceId : ℕ)
    {data : List F} (hd : data.length ≠ 0) (dtype : NnFloatType) {extraFlags : NnUint}
    (he : extraFlags = 0 ∨ extraFlags = pipelineFlagStageSkipBypass) :
    ((c.makeFrame codec socket seqPosition batchIndex sliceId data dtype extraFlags).header.flags &&&
      pipelineFlagDelta ≠ 0) ↔
      (c.deltaEnabled ∧ c.deltaMinBytes ≤ 4 * data.length ∧
        (c.prevSendBySocket socket).length = data.length) := by
  have hbytes : ¬4 * data.length = 0 := by omega
  refine (headerFlags_delta _ _ he).trans ?_
  simp only [hbytes, ne_eq, not_false_eq_true, true_and, Bool.and_eq_true, decide_eq_true_eq,
    and_assoc]

/-- The new base of the receiving side. -/
def noteReceived (socket : ℕ) (values : List F) : NnPipelineCommunicator F :=
  { c with prevRecvBySocket := Function.update c.prevRecvBySocket socket values }

/-- An activation is sent as a difference. -/
def UsesDelta (socket : ℕ) (data : List F) : Prop :=
  c.deltaEnabled = true ∧ c.deltaMinBytes ≤ 4 * data.length ∧
    (c.prevSendBySocket socket).length = data.length

instance (socket : ℕ) (data : List F) : Decidable (c.UsesDelta socket data) :=
  inferInstanceAs (Decidable (_ ∧ _ ∧ _))

/-- What the other end decodes from the payload of an activation. -/
def decodedWire (socket : ℕ) (data : List F) (dtype : NnFloatType) : List F :=
  codec.decode (selectWireDtype dtype data.length)
    (codec.encode (selectWireDtype dtype data.length) (c.wireValues socket data))

theorem decodedWire_length (socket : ℕ) (data : List F) (dtype : NnFloatType) :
    (c.decodedWire codec socket data dtype).length = data.length := by
  have hwlen := c.wireValues_length socket data
  have helems := decodedElems_encode codec dtype (c.wireValues socket data)
  rw [hwlen] at helems
  exact codec.decode_length _ _ _ helems

/-- What an end with this base stores of an activation. -/
def reconstructed [Add F] (socket : ℕ) (base data : List F) (dtype : NnFloatType) : List F :=
  if c.UsesDelta socket data then
    List.zipWith (· + ·) base (c.decodedWire codec socket data dtype)
  else c.decodedWire codec socket data dtype

theorem reconstructed_length [Add F] {socket : ℕ} {base data : List F}
    (hbase : base.length = (c.prevSendBySocket socket).length) (dtype : NnFloatType) :
    (c.reconstructed codec socket base data dtype).length = data.length := by
  have hlen := c.decodedWire_length codec socket data dtype
  unfold reconstructed
  split
  · rename_i hdelta
    rw [List.length_zipWith, hbase, hdelta.2.2, hlen, Nat.min_self]
  · exact hlen

section Accepting

variable [Add F] (c' : NnPipelineCommunicator F) {socket socket' : ℕ}
  (hbase : (c'.prevRecvBySocket socket').length = (c.prevSendBySocket socket).length)
  (seqPosition batchIndex : NnUint) (sliceId : ℕ) {data : List F} (hd : data.length ≠ 0)
  {bufferElems : ℕ} (hfit : data.length ≤ bufferElems) (dtype : NnFloatType)
  {extraFlags : NnUint} (he : extraFlags = 0 ∨ extraFlags = pipelineFlagStageSkipBypass)

include hbase hd hfit he

/-- A frame is accepted by an end whose base has the length of the sender's, and
what it stores is known. -/
theorem acceptFrame_makeFrame_eq :
    c'.acceptFrame codec socket'
      (c.makeFrame codec socket seqPosition batchIndex sliceId data dtype extraFlags) bufferElems =
        some (c.reconstructed codec socket (c'.prevRecvBySocket socket') data dtype,
          c'.noteReceived socket'
            (c.reconstructed codec socket (c'.prevRecvBySocket socket') data dtype)) := by
  set frame := c.makeFrame codec socket seqPosition batchIndex sliceId data dtype extraFlags
    with hframe
  have hpayload := c.makeFrame_payload codec socket seqPosition batchIndex sliceId hd dtype extraFlags
  have hdelta := c.makeFrame_delta codec socket seqPosition batchIndex sliceId hd dtype he
  rw [← hframe] at hpayload hdelta
  have hwlen := c.wireValues_length socket data
  have htype : frame.header.dtype = selectWireDtype dtype data.length := rfl
  have helems : decodedElems frame.header.dtype frame.payload.length = some data.length := by
    rw [hpayload, htype, ← hwlen]
    exact decodedElems_encode codec dtype (c.wireValues socket data)
  have htotal : ¬(frame.header.totalPayloadBytes ≠ 0 ∧
      frame.header.totalPayloadBytes ≠ frame.header.payloadBytes) := fun h => h.2 rfl
  have hbytes : ¬frame.header.payloadBytes = 0 := by
    intro hz
    rw [frame.payload_length, hz] at helems
    cases hdt : frame.header.dtype <;> simp [decodedElems, hdt] at helems <;> omega
  have hgot : codec.decode frame.header.dtype frame.payload = c.decodedWire codec socket data dtype := by
    rw [hpayload, htype]
    rfl
  have hlen := c.decodedWire_length codec socket data dtype
  have hdecode : decodeToF32 codec frame.payload frame.header.dtype bufferElems =
      some (c.decodedWire codec socket data dtype) := by
    unfold decodeToF32
    rw [helems]
    by_cases hf : frame.header.dtype = .f32
    · have hwire : frame.payload.length = 4 * data.length := by
        have hs : selectWireDtype dtype data.length = .f32 := htype ▸ hf
        rw [hpayload, codec.encode_length, hwlen, hs]
        rfl
      have hroom : ¬4 * bufferElems < frame.payload.length := by omega
      dsimp only
      rw [if_pos hf, if_neg hroom, hgot]
    · have hroom : ¬bufferElems < data.length := by omega
      dsimp only
      rw [if_neg hf, if_neg hroom, hgot]
  unfold acceptFrame
  rw [if_neg htotal, if_neg hbytes, hdecode]
  dsimp only
  by_cases hflag : frame.header.flags &&& pipelineFlagDelta ≠ 0
  · have huses : c.UsesDelta socket data := hdelta.mp hflag
    have hsame : ¬(c'.prevRecvBySocket socket').length ≠
        (c.decodedWire codec socket data dtype).length := by
      rw [hbase, huses.2.2, hlen]
      exact fun h => h rfl
    have hvalue : c.reconstructed codec socket (c'.prevRecvBySocket socket') data dtype =
        List.zipWith (· + ·) (c'.prevRecvBySocket socket')
          (c.decodedWire codec socket data dtype) := if_pos huses
    rw [if_pos hflag, if_neg hsame, hvalue]
    rfl
  · have huses : ¬c.UsesDelta socket data := fun h => hflag (hdelta.mpr h)
    have hvalue : c.reconstructed codec socket (c'.prevRecvBySocket socket') data dtype =
        c.decodedWire codec socket data dtype := if_neg huses
    rw [if_neg hflag, hvalue]
    rfl

/-- A frame is accepted by an end whose base has the length of the sender's,
and the bases have one length again afterwards. -/
theorem acceptFrame_makeFrame :
    ∃ values, values.length = data.length ∧
      c'.acceptFrame codec socket'
        (c.makeFrame codec socket seqPosition batchIndex sliceId data dtype extraFlags)
        bufferElems = some (values, c'.noteReceived socket' values) :=
  ⟨_, c.reconstructed_length codec hbase dtype,
    c.acceptFrame_makeFrame_eq codec c' hbase seqPosition batchIndex sliceId hd hfit dtype he⟩

end Accepting

end NnPipelineCommunicator

end LayerSkip.NnPipeline
