import LayerSkip.NnPipeline

/-!
# The bases of differences stay in step along a link

A frame that may be a difference is accepted only when the receiver's last
activation has the right length. Along a link every frame on its way is
accepted in its turn, whatever the number formats and differences are.
-/

namespace LayerSkip.PipelineLink

open NnTopology NnNetwork NnPipeline

variable {F : Type}

/-- Values in a frame. -/
def elems (frame : Frame) : ℕ :=
  (decodedElems frame.header.dtype frame.payload.length).getD 0

/-- Length of the base after a frame. A frame without payload leaves it. -/
def baseAfter (frame : Frame) (base : ℕ) : ℕ :=
  if frame.header.payloadBytes = 0 then base else elems frame

/-- The receiver has room for the values of a frame. -/
def FitsBuffer (frame : Frame) (bufferElems : ℕ) : Prop :=
  frame.header.payloadBytes = 0 ∨ elems frame ≤ bufferElems

/-- Two communicators of one node. -/
structure SameNode (c c' : NnPipelineCommunicator F) : Prop where
  topology : c'.topology = c.topology
  nodeIndex : c'.myNodeIndex = c.myNodeIndex
  ppRank : c'.myPpRank = c.myPpRank
  spRank : c'.mySpRank = c.mySpRank
  tpRank : c'.myTpRank = c.myTpRank

theorem SameNode.refl (c : NnPipelineCommunicator F) : SameNode c c := ⟨rfl, rfl, rfl, rfl, rfl⟩

theorem SameNode.trans {c c' c'' : NnPipelineCommunicator F} (h : SameNode c c')
    (h' : SameNode c' c'') : SameNode c c'' :=
  ⟨h'.topology.trans h.topology, h'.nodeIndex.trans h.nodeIndex, h'.ppRank.trans h.ppRank,
    h'.spRank.trans h.spRank, h'.tpRank.trans h.tpRank⟩

/-- Receiving a frame changes the base of its socket only. -/
structure Receives (c : NnPipelineCommunicator F) (socket : ℕ) (frame : Frame)
    (c' : NnPipelineCommunicator F) : Prop where
  node : SameNode c c'
  sent : c'.prevSendBySocket = c.prevSendBySocket
  base : (c'.prevRecvBySocket socket).length = baseAfter frame (c.prevRecvBySocket socket).length
  others : ∀ s, s ≠ socket → c'.prevRecvBySocket s = c.prevRecvBySocket s

/-- Every end whose base has this length takes the frame in. -/
def Accepted [Add F] (codec : FloatCodec F) (frame : Frame) (base : ℕ) : Prop :=
  ∀ (c : NnPipelineCommunicator F) (socket bufferElems : ℕ),
    (c.prevRecvBySocket socket).length = base → FitsBuffer frame bufferElems →
      ∃ values c', c.acceptFrame codec socket frame bufferElems = some (values, c') ∧
        Receives c socket frame c'

/-- Every frame on its way is accepted in its turn. The two bases are those of
the receiver and of the sender. -/
def InStep [Add F] (codec : FloatCodec F) : ℕ → List Frame → ℕ → Prop
  | base, [], base' => base = base'
  | base, frame :: frames, base' =>
    Accepted codec frame base ∧ InStep codec (baseAfter frame base) frames base'

theorem InStep.append [Add F] {codec : FloatCodec F} {base base' : ℕ} {frames : List Frame}
    (h : InStep codec base frames base') {frame : Frame} (ha : Accepted codec frame base') :
    InStep codec base (frames ++ [frame]) (baseAfter frame base') := by
  induction frames generalizing base with
  | nil =>
    have hb : base = base' := h
    rw [hb]
    exact ⟨ha, rfl⟩
  | cons first frames ih => exact ⟨h.1, ih h.2⟩

/-- Sending a frame changes the base of its socket only, and the frame is
accepted by the other end when nothing else is on its way. -/
structure Sends [Add F]
    (codec : FloatCodec F) (c : NnPipelineCommunicator F) (socket : ℕ) (frame : Frame)
    (c' : NnPipelineCommunicator F) : Prop where
  node : SameNode c c'
  received : c'.prevRecvBySocket = c.prevRecvBySocket
  accepted : Accepted codec frame (c.prevSendBySocket socket).length
  base : (c'.prevSendBySocket socket).length = baseAfter frame (c.prevSendBySocket socket).length
  others : ∀ s, s ≠ socket → c'.prevSendBySocket s = c.prevSendBySocket s

variable (codec : FloatCodec F) (c : NnPipelineCommunicator F)

/-- A frame of an activation holds as many values. -/
theorem elems_makeFrame [Sub F] (socket : ℕ) (seqPosition batchIndex : NnUint) (sliceId : ℕ)
    {data : List F} (hd : data.length ≠ 0) (dtype : NnFloatType) (extraFlags : NnUint) :
    elems (c.makeFrame codec socket seqPosition batchIndex sliceId data dtype extraFlags) =
      data.length := by
  have hlen := c.wireValues_length socket data
  have helems := NnPipelineCommunicator.decodedElems_encode codec dtype (c.wireValues socket data)
  unfold elems
  rw [c.makeFrame_payload codec socket seqPosition batchIndex sliceId hd]
  rw [hlen] at helems
  change (decodedElems (selectWireDtype dtype data.length) _).getD 0 = data.length
  rw [helems]
  rfl

/-- Only an activation without values has no payload. -/
theorem payloadBytes_makeFrame [Sub F] (socket : ℕ) (seqPosition batchIndex : NnUint) (sliceId : ℕ)
    (data : List F) (dtype : NnFloatType) (extraFlags : NnUint) :
    (c.makeFrame codec socket seqPosition batchIndex sliceId data dtype
      extraFlags).header.payloadBytes = 0 ↔ data.length = 0 := by
  set frame := c.makeFrame codec socket seqPosition batchIndex sliceId data dtype extraFlags
    with hframe
  constructor
  · intro hz
    by_contra hd
    have helems := elems_makeFrame codec c socket seqPosition batchIndex sliceId hd dtype extraFlags
    rw [← hframe, elems, frame.payload_length, hz] at helems
    apply hd
    rw [← helems]
    cases frame.header.dtype <;> rfl
  · intro hd
    rw [hframe]
    simp [NnPipelineCommunicator.makeFrame, hd]

/-- Sending keeps the link in step. -/
theorem sends_makeFrame [Add F] [Sub F] (socket : ℕ) (seqPosition batchIndex : NnUint) (sliceId : ℕ)
    (data : List F) (dtype : NnFloatType) {extraFlags : NnUint}
    (he : extraFlags = 0 ∨ extraFlags = pipelineFlagStageSkipBypass) :
    Sends codec c socket
      (c.makeFrame codec socket seqPosition batchIndex sliceId data dtype extraFlags)
      (c.noteSent socket data) := by
  set frame := c.makeFrame codec socket seqPosition batchIndex sliceId data dtype extraFlags
    with hframe
  have hzero := payloadBytes_makeFrame codec c socket seqPosition batchIndex sliceId data dtype
    extraFlags
  rw [← hframe] at hzero
  by_cases hd : data.length = 0
  · have hnote : c.noteSent socket data = c := if_pos hd
    have hpayload := hzero.mpr hd
    rw [hnote]
    refine ⟨SameNode.refl c, rfl, ?_, (if_pos hpayload).symm, fun _ _ => rfl⟩
    intro c' socket' bufferElems hbase hfit
    have htotal : ¬(frame.header.totalPayloadBytes ≠ 0 ∧
        frame.header.totalPayloadBytes ≠ frame.header.payloadBytes) := fun h => h.2 rfl
    refine ⟨[], c', ?_, SameNode.refl c', rfl, (if_pos hpayload).symm, fun _ _ => rfl⟩
    unfold NnPipelineCommunicator.acceptFrame
    rw [if_neg htotal, if_pos hpayload]
  · have hpayload : ¬frame.header.payloadBytes = 0 := fun h => hd (hzero.mp h)
    have helems := elems_makeFrame codec c socket seqPosition batchIndex sliceId hd dtype extraFlags
    rw [← hframe] at helems
    have hafter (base : ℕ) : baseAfter frame base = data.length := by
      rw [baseAfter, if_neg hpayload, helems]
    have hnote : c.noteSent socket data =
        { c with prevSendBySocket := Function.update c.prevSendBySocket socket data } := if_neg hd
    refine ⟨?_, ?_, ?_, ?_, ?_⟩
    · rw [hnote]
      exact ⟨rfl, rfl, rfl, rfl, rfl⟩
    · rw [hnote]
    · intro c' socket' bufferElems hbase hfit
      have hroom : data.length ≤ bufferElems := by
        rcases hfit with hz | hle
        · exact absurd hz hpayload
        · exact helems ▸ hle
      obtain ⟨values, hlen, hacc⟩ := c.acceptFrame_makeFrame codec c' hbase seqPosition batchIndex
        sliceId hd hroom dtype he
      refine ⟨values, _, hacc, ⟨rfl, rfl, rfl, rfl, rfl⟩, rfl, ?_, fun s hs => ?_⟩
      · rw [hafter]
        dsimp only [NnPipelineCommunicator.noteReceived]
        rw [Function.update_self, hlen]
      · exact Function.update_of_ne hs _ _
    · rw [hnote, hafter]
      dsimp only
      rw [Function.update_self]
    · intro s hs
      rw [hnote]
      exact Function.update_of_ne hs _ _

end LayerSkip.PipelineLink
