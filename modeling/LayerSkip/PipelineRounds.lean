import LayerSkip.PipelineLink
import LayerSkip.PipelineNetwork

/-!
# One call of a pipeline, node by node

A frame that is no difference brings its floats to any end of a link. With stage skip off a worker
that takes its control packet and an activation runs its segments once on what it received, and
sends `X`, or on the last stage all logits.
-/

namespace LayerSkip.PipelineRounds

open NnTopology NnNetwork NnPipeline PipelineLink WorkerLlmInference WorkerState StageExecutor
open PipelineNetwork
open StageNetwork (Message)

variable {V : Type}

/-- A frame brings these floats to any end that has room for them. -/
def Delivers [Add V] (codec : FloatCodec V) (frame : Frame) (values : List V) : Prop :=
  ∀ (c : NnPipelineCommunicator V) (socket room : ℕ), values.length ≤ room →
    ∃ c', c.acceptFrame codec socket frame room = some (values, c') ∧ SameNode c c' ∧
      c'.deltaEnabled = c.deltaEnabled

/-- Frames that are no differences bring what was sent. -/
theorem delivers_makeFrame [Add V] [Sub V] {codec : FloatCodec V} {c : NnPipelineCommunicator V}
    (hdelta : c.deltaEnabled = false) (hexact : ∀ xs, codec.decode .f32 (codec.encode .f32 xs) = xs)
    (socket : ℕ) (position : NnUint) (data : List V) :
    Delivers codec (c.makeFrame codec socket position 0 0 data .f32 0) data := by
  intro c' socket' room hroom
  have htotal : ¬((c.makeFrame codec socket position 0 0 data .f32 0).header.totalPayloadBytes ≠ 0 ∧
      (c.makeFrame codec socket position 0 0 data .f32 0).header.totalPayloadBytes ≠
        (c.makeFrame codec socket position 0 0 data .f32 0).header.payloadBytes) :=
    fun h => h.2 (Eq.refl _)
  have hzero := payloadBytes_makeFrame codec c socket position 0 0 data .f32 0
  by_cases hd : data.length = 0
  · have hnil : data = [] := List.length_eq_zero_iff.mp hd
    refine ⟨c', ?_, SameNode.refl c', Eq.refl _⟩
    rw [NnPipelineCommunicator.acceptFrame, if_neg htotal, if_pos (hzero.mpr hd), hnil]
  · have hvalues : c.wireValues socket data = data := by
      rw [NnPipelineCommunicator.wireValues, hdelta]
      simp
    have hselect : selectWireDtype .f32 data.length = .f32 := by
      simp [selectWireDtype]
    have hpayload := c.makeFrame_payload codec socket position 0 0 hd .f32 0
    rw [hvalues, hselect] at hpayload
    have htype : (c.makeFrame codec socket position 0 0 data .f32 0).header.dtype = .f32 := hselect
    have hflag : ¬(c.makeFrame codec socket position 0 0 data .f32 0).header.flags &&&
        pipelineFlagDelta ≠ 0 := by
      intro h
      have hsent := (c.makeFrame_delta codec socket position 0 0 hd .f32 (.inl (Eq.refl _))).mp h
      rw [hdelta] at hsent
      cases hsent.1
    have hbytes : (codec.encode .f32 data).length = 4 * data.length := codec.encode_length .f32 data
    have hfits : ¬4 * room < (codec.encode .f32 data).length := by
      omega
    have hdecode : NnPipelineCommunicator.decodeToF32 codec
        (c.makeFrame codec socket position 0 0 data .f32 0).payload
        (c.makeFrame codec socket position 0 0 data .f32 0).header.dtype room = some data := by
      rw [NnPipelineCommunicator.decodeToF32, hpayload, htype, decodedElems]
      simp only [if_true, if_neg hfits, hexact]
    refine ⟨c'.noteReceived socket' data, ?_, ⟨Eq.refl _, Eq.refl _, Eq.refl _, Eq.refl _, Eq.refl _⟩,
      Eq.refl _⟩
    rw [NnPipelineCommunicator.acceptFrame, if_neg htotal, if_neg fun h => hd (hzero.mp h), hdecode]
    simp only [if_neg hflag]
    exact Eq.refl _

section Workers

variable {p : Pipeline V} {i : ℕ}

/-- An end of the links of a stage. -/
structure Lane (p : Pipeline V) (i : ℕ) (c : NnPipelineCommunicator V) : Prop where
  /-- Ranks of all nodes. -/
  topology : c.topology = p.topology
  /-- This node. -/
  nodeIndex : c.myNodeIndex = i
  /-- Its stage. -/
  ppRank : c.myPpRank = i
  /-- Its sequence group. -/
  spRank : c.mySpRank = 0
  /-- Its tensor rank. -/
  tpRank : c.myTpRank = 0

theorem Lane.of_sameNode {c c' : NnPipelineCommunicator V} (h : Lane p i c) (hs : SameNode c c') :
    Lane p i c' :=
  ⟨hs.topology.trans h.topology, hs.nodeIndex.trans h.nodeIndex, hs.ppRank.trans h.ppRank,
    hs.spRank.trans h.spRank, hs.tpRank.trans h.tpRank⟩

/-- The socket to another stage is the one that leads there. -/
theorem Lane.socket {c : NnPipelineCommunicator V} (h : Lane p i c) {j : ℕ}
    (hj : j < p.ppSize.toNat) (hne : j ≠ i) :
    c.getPipelineSocketIndex j = .ok (getSocketIndexForNode i j) := by
  have hrank : c.topology.getGlobalRank j c.mySpRank c.myTpRank = .ok j := by
    rw [h.topology, h.spRank, h.tpRank]
    exact NnParallelTopology.getGlobalRank_chain hj
  have hsocket := NnPipelineCommunicator.getPipelineSocketIndex_eq hrank (h.nodeIndex ▸ hne)
  rw [hsocket, h.nodeIndex]

theorem Lane.recvSocket {c : NnPipelineCommunicator V} (h : Lane p i c) {j : ℕ}
    (hj : j < p.ppSize.toNat) (hne : j ≠ i) :
    c.recvSocket j = .ok (getSocketIndexForNode i j) := by
  have hlt : ¬c.topology.ppSize ≤ j := by
    rw [h.topology]
    exact Nat.not_le.mpr hj
  rw [NnPipelineCommunicator.recvSocket, if_neg hlt, h.socket hj hne]

/-- A send to another stage brings what is sent. -/
theorem Lane.sendActivation [Add V] [Sub V] {c : NnPipelineCommunicator V} (h : Lane p i c)
    (hdelta : c.deltaEnabled = false) {j : ℕ} (hj : j < p.ppSize.toNat) (hne : j ≠ i)
    (position : NnUint) (data : List V) :
    ∃ frame c', c.sendActivation p.codec j position 0 0 data .f32 0 =
        .ok (getSocketIndexForNode i j, frame, c') ∧
      Delivers p.codec frame data ∧ frame.header.seqPosition = position ∧ Lane p i c' ∧
      c'.deltaEnabled = false := by
  have hlt : ¬c.topology.ppSize ≤ j := by
    rw [h.topology]
    exact Nat.not_le.mpr hj
  have hnote : SameNode c (c.noteSent (getSocketIndexForNode i j) data) ∧
      (c.noteSent (getSocketIndexForNode i j) data).deltaEnabled = false := by
    rw [NnPipelineCommunicator.noteSent]
    split
    · exact ⟨SameNode.refl c, hdelta⟩
    · exact ⟨⟨Eq.refl _, Eq.refl _, Eq.refl _, Eq.refl _, Eq.refl _⟩, hdelta⟩
  refine ⟨_, _, ?_, delivers_makeFrame hdelta p.exact (getSocketIndexForNode i j) position data,
    Eq.refl _, h.of_sameNode hnote.1, hnote.2⟩
  rw [NnPipelineCommunicator.sendActivation, if_neg hlt, h.socket hj hne]
  exact Eq.refl _

/-- A worker between two rounds. -/
structure Waiting (p : Pipeline V) (i : ℕ) (m : Memory V) (s : WorkerState V (Memory V)) : Prop where
  /-- It has not been stopped. -/
  running : s.isFinished = false
  /-- Its memory. -/
  memory : s.engine = m
  /-- Its links. -/
  links : ∃ c, s.pipeline = some c ∧ Lane p i c

/-- A worker that has its control packet. -/
structure Ready (p : Pipeline V) (i : ℕ) (call : Call) (m : Memory V)
    (s : WorkerState V (Memory V)) : Prop where
  /-- It has not been stopped. -/
  running : s.isFinished = false
  /-- Its memory. -/
  memory : s.engine = m
  /-- The packet. -/
  packet : s.controlPacket = p.options.controlPacket (call.toForwardCall (p.nodes 0))
  /-- Rows of the batch. -/
  batch : s.batchSize = call.batchSize
  /-- Activations go on as floats. -/
  type : s.pipelineActivationType = .f32
  /-- The forward is not left out. -/
  full : s.skipForwardThisToken = false
  /-- Its links, without differences. -/
  links : ∃ c, s.pipeline = some c ∧ Lane p i c ∧ c.deltaEnabled = false

theorem toNat_batchSize {call : Call} {maxBatchSize : NnUint} {seqLen : ℕ}
    (h : call.Valid maxBatchSize seqLen) : call.batchSize.toNat = call.tokens.length := by
  have hle : call.tokens.length ≤ 64 := h.packet
  rw [Call.batchSize, UInt32.toNat_ofNat']
  exact Nat.mod_eq_of_lt (by omega)

/-- A worker accepts the packets of the root. -/
theorem tryReadControlPacket_ok {call : Call} {seqLen : ℕ}
    (hcall : call.Valid p.maxBatchSize seqLen) {m : Memory V} {s : WorkerState V (Memory V)}
    (h : Waiting p i m s) :
    ∃ s', s.tryReadControlPacket (p.worker i)
        (p.options.controlPacket (call.toForwardCall (p.nodes 0))) = .ok s' ∧
      Ready p i call ((p.nodes i).setPositions call.positions m) s'.beginForward ∧
      s'.isFinished = false := by
  obtain ⟨c, hc, hlane⟩ := h.links
  have hsize := toNat_batchSize hcall
  set packet := p.options.controlPacket (call.toForwardCall (p.nodes 0)) with hpacket
  have hbatch : packet.batchSize = call.batchSize := Eq.refl _
  have hnonzero : ¬packet.batchSize = 0 := by
    intro hz
    have hzero := congrArg UInt32.toNat hz
    rw [hbatch, hsize] at hzero
    exact absurd hzero (Nat.ne_of_gt hcall.some)
  have hmax : ¬(p.worker i).maxBatchSize < packet.batchSize := by
    rw [hbatch, UInt32.lt_iff_toNat_lt, hsize]
    exact Nat.not_lt.mpr hcall.fits
  have hcontrol : ¬maxControlBatchPos < packet.batchSize := by
    rw [hbatch, UInt32.lt_iff_toNat_lt, hsize]
    exact Nat.not_lt.mpr hcall.packet
  have hwork : activeWork (p.worker i) packet = (packet.position, packet.batchSize) := by
    have hone : ¬(1 < (i + 1 - i) / (i + 1 - i) ∧ (0 : ℕ) < maxSpGroups ∧
        0 < (packet.spGroups.getD 0 (0, 0)).2) := by
      intro hmany
      rw [Nat.add_sub_cancel_left] at hmany
      exact absurd hmany.1 (by decide)
    exact if_neg hone
  have htype : NnFloatType.ofUint packet.activationType = some .f32 := by
    have hword : packet.activationType = 0 := by
      simp [hpacket, StageNetwork.RootOptions.controlPacket, p.plainType,
        StageNetwork.NnFloatType.toUint]
    rw [hword]
    exact Eq.refl _
  have henter : ∃ q : WorkerState V (Memory V),
      ({ s with controlPacket := packet } : WorkerState V (Memory V)).enterPhase packet.phase = q ∧
        q.isFinished = false ∧ q.engine = m ∧ q.controlPacket = packet ∧ q.pipeline = some c := by
    refine ⟨_, Eq.refl _, ?_⟩
    rcases enterPhase_cases (s := { s with controlPacket := packet }) packet.phase with
      hkeep | hreset
    · rw [hkeep.2]
      exact ⟨h.running, h.memory, Eq.refl _, hc⟩
    · rw [hreset]
      exact ⟨h.running, h.memory, Eq.refl _, hc⟩
  obtain ⟨q, hq, hrunning, hmemory, hheld, hpipe⟩ := henter
  have hlinks : ∃ c', q.pipeline.map (packetTransport packet) = some c' ∧ Lane p i c' ∧
      c'.deltaEnabled = false := by
    refine ⟨packetTransport packet c, by rw [hpipe]; exact Eq.refl _,
      ⟨hlane.topology, hlane.nodeIndex, hlane.ppRank, hlane.spRank, hlane.tpRank⟩, ?_⟩
    simp [packetTransport, NnPipelineCommunicator.setTransportOptions, hpacket,
      StageNetwork.RootOptions.controlPacket, p.noDelta]
  rw [tryReadControlPacket]
  simp only [if_neg hnonzero, if_neg hmax, hwork, if_neg hcontrol, hq, htype]
  cases hpositions : call.batchPositions with
  | some positions =>
    have hmode : packet.positionMode = 1 := by
      simp [hpacket, StageNetwork.RootOptions.controlPacket, Call.toForwardCall, hpositions]
    have hgiven : packet.batchPositions.take packet.batchSize.toNat = call.positions := by
      have hexplicit := hcall.explicit positions (by rw [hpositions]; exact Eq.refl _)
      have htaken : packet.batchPositions = positions := by
        simp [hpacket, StageNetwork.RootOptions.controlPacket, Call.toForwardCall, hpositions]
      have hall : call.positions = positions := by
        rw [Call.positions, hpositions]
      rw [htaken, hall, hbatch, hsize, ← hexplicit.1, List.take_length]
    rw [if_pos hmode, hgiven]
    exact ⟨_, Eq.refl _, ⟨hrunning, by rw [← hmemory]; exact Eq.refl _, hheld, hbatch, Eq.refl _,
      Eq.refl _, hlinks⟩, hrunning⟩
  | none =>
    have hmode : ¬packet.positionMode = 1 := by
      simp [hpacket, StageNetwork.RootOptions.controlPacket, Call.toForwardCall, hpositions]
    have hgiven : ((List.range packet.batchSize.toNat).map fun i =>
        packet.position + i.toUInt32) = call.positions := by
      rw [Call.positions, hpositions, hbatch, hsize]
      exact Eq.refl _
    rw [if_neg hmode, hgiven]
    exact ⟨_, Eq.refl _, ⟨hrunning, by rw [← hmemory]; exact Eq.refl _, hheld, hbatch, Eq.refl _,
      Eq.refl _, hlinks⟩, hrunning⟩

/-- A worker that takes its control packet is ready for the activation. -/
theorem takeControl_ok {call : Call} {seqLen : ℕ} (hcall : call.Valid p.maxBatchSize seqLen)
    {m : Memory V} {s : WorkerState V (Memory V)} (h : Waiting p i m s)
    (outgoing : List (ℕ × Message V)) {got : ℕ → List (Message V)}
    (hgot : got 0 = [.control (p.options.controlPacket (call.toForwardCall (p.nodes 0)))]) :
    ∃ s', p.takeControl i (.worker s outgoing) got = .worker s' [] ∧
      Ready p i call ((p.nodes i).setPositions call.positions m) s' := by
  obtain ⟨s', hs, hready, hrunning⟩ := tryReadControlPacket_ok hcall h
  refine ⟨s'.beginForward, ?_, hready⟩
  simp only [Pipeline.takeControl, hgot, hs, hrunning, Bool.false_eq_true, if_false]

/-- Decisions change neither the memory nor what is sent. -/
theorem Ready.evaluate [LE V] [DecidableLE V]
    {call : Call} {m : Memory V} {s : WorkerState V (Memory V)}
    (h : Ready p i call m s) : Ready p i call m (s.evaluateStageSkipDecision (p.worker i)) := by
  rcases evaluateStageSkipDecision_cases (w := p.worker i) (s := s) with
    heq | ⟨_, _, _, heq⟩ | ⟨_, heq⟩ | ⟨_, _, heq⟩
  all_goals
    rw [heq]
    exact ⟨h.running, h.memory, h.packet, h.batch, h.type, h.full, h.links⟩

theorem Ready.stageSkipExecute {call : Call} {m : Memory V} {s : WorkerState V (Memory V)}
    (h : Ready p i call m s) : s.stageSkipExecute = false := by
  rw [WorkerState.stageSkipExecute, h.packet]
  simp [StageNetwork.RootOptions.controlPacket, p.noSkip]

/-- A worker sends floats to another stage. -/
theorem Ready.send [Add V] [Sub V] {call : Call} {m : Memory V} {s : WorkerState V (Memory V)}
    (h : Ready p i call m s) {j : ℕ} (hj : j < p.ppSize.toNat) (hne : j ≠ i) (data : List V) :
    ∃ s' frame, s.send (p.worker i) j data .f32 0 =
        .ok (s', (getSocketIndexForNode i j, frame)) ∧ Waiting p i m s' ∧
      Delivers p.codec frame data ∧ frame.header.seqPosition = call.position := by
  obtain ⟨c, hc, hlane, hdelta⟩ := h.links
  obtain ⟨frame, c', hsend, hdelivers, hposition, hlane', _⟩ :=
    hlane.sendActivation hdelta hj hne call.position data
  refine ⟨{ s with pipeline := some c' }, frame, ?_, ⟨h.running, h.memory, c', Eq.refl _, hlane'⟩,
    hdelivers, hposition⟩
  have hsame : c.sendActivation (p.worker i).codec j s.controlPacket.position 0
      (p.worker i).nodeConfig.tpRank data .f32 0 =
        .ok (getSocketIndexForNode i j, frame, c') := by
    rw [h.packet]
    exact hsend
  rw [WorkerState.send, hc]
  simp only [hsame]
  exact Eq.refl _

/-- Where a stage sends what it computed. -/
def nextStage (p : Pipeline V) (i : ℕ) : ℕ := if i + 1 < p.ppSize.toNat then i + 1 else 0

/-- What a stage sends. -/
def stagePayload (p : Pipeline V) (i : ℕ) (call : Call) (m : Memory V) : List V :=
  if i + 1 < p.ppSize.toNat then readPipe .x p.xPipeRow (p.xPipeRow * call.batchSize.toNat) m
  else readPipe .lg p.logitsPipeRow (p.logitsPipeRow * call.batchSize.toNat) m

/-- A worker sends `X` to the next stage, or all logits to the root. -/
theorem Ready.afterForward [Add V] [Sub V] [LE V] [DecidableLE V] [LT V] [DecidableLT V]
    (hi : 0 < i) (hlt : i < p.ppSize.toNat) {call : Call} {m : Memory V}
    {s : WorkerState V (Memory V)} (h : Ready p i call m s) :
    ∃ s' frame, s.afterForward (p.worker i) =
        .ok (s', [(getSocketIndexForNode i (nextStage p i), frame)]) ∧ Waiting p i m s' ∧
      Delivers p.codec frame (stagePayload p i call m) ∧
      frame.header.seqPosition = call.position := by
  have hready := h.evaluate
  have hskip := hready.stageSkipExecute
  have hpipe : (s.evaluateStageSkipDecision (p.worker i)).pipeline = s.pipeline :=
    evaluateStageSkipDecision_pipeline
  obtain ⟨c, hc, hlane, _⟩ := h.links
  have hsizes := p.rows i hlt
  set q := s.evaluateStageSkipDecision (p.worker i) with hq
  have hdef : s.afterForward (p.worker i) =
      if c.shouldSendActivations then do
        let (s, frame) ← q.send (p.worker i) (c.myPpRank + 1)
          ((p.worker i).engine.xPipe q.engine ((p.worker i).xPipeRow * q.batchSize.toNat))
          q.pipelineActivationType 0
        return (s, [frame])
      else if 0 < (p.worker i).nodeConfig.ppRank ∧ (p.worker i).nodeConfig.spRank = 0 ∧
          (p.worker i).nodeConfig.tpRank = 0 then do
        let (s, frame) ← q.send (p.worker i) 0 (q.logitsPayload (p.worker i)) .f32 0
        return (s, [frame])
      else .ok (q, []) := by
    rw [WorkerState.afterForward, hc]
    simp only [← hq, hskip, Bool.false_and, Bool.false_eq_true, if_false]
  have hshould : c.shouldSendActivations = decide (i + 1 < p.ppSize.toNat) := by
    rw [NnPipelineCommunicator.shouldSendActivations, hlane.ppRank, hlane.topology]
    have hsize : p.topology.ppSize = p.ppSize.toNat := Eq.refl _
    rw [hsize]
    by_cases hnext : i + 1 < p.ppSize.toNat
    · rw [decide_eq_true hnext]
      exact decide_eq_true (by omega)
    · rw [decide_eq_false hnext]
      exact decide_eq_false (by omega)
  rw [hdef]
  by_cases hnext : i + 1 < p.ppSize.toNat
  · have hrow : (p.worker i).engine.xPipe q.engine ((p.worker i).xPipeRow * q.batchSize.toNat) =
        readPipe .x p.xPipeRow (p.xPipeRow * call.batchSize.toNat) m := by
      rw [hready.memory, hready.batch]
      change readPipe .x (p.nodes i).node.header.dim _ m = _
      rw [hsizes.1]
      exact Eq.refl _
    have hpayload : stagePayload p i call m =
        readPipe .x p.xPipeRow (p.xPipeRow * call.batchSize.toNat) m := if_pos hnext
    have hnode : nextStage p i = i + 1 := if_pos hnext
    obtain ⟨s', frame, hsend, hwaiting, hdelivers, hposition⟩ := hready.send hnext
      (Nat.succ_ne_self i) (readPipe .x p.xPipeRow (p.xPipeRow * call.batchSize.toNat) m)
    refine ⟨s', frame, ?_, hwaiting, hpayload ▸ hdelivers, hposition⟩
    rw [hshould, decide_eq_true hnext, if_pos (Eq.refl _), hlane.ppRank, hrow, hready.type, hsend,
      hnode]
    exact Eq.refl _
  · have hlast : 0 < (p.worker i).nodeConfig.ppRank ∧ (p.worker i).nodeConfig.spRank = 0 ∧
        (p.worker i).nodeConfig.tpRank = 0 := ⟨hi, Eq.refl _, Eq.refl _⟩
    have hmode : q.controlPacket.tokenOnlyMode = 0 := by
      rw [hready.packet]
      exact p.fullLogits
    have hlogits : q.logitsPayload (p.worker i) =
        readPipe .lg p.logitsPipeRow (p.logitsPipeRow * call.batchSize.toNat) m := by
      rw [WorkerState.logitsPayload, hmode, hready.memory, hready.batch]
      change readPipe .lg (p.nodes i).node.header.vocabSize _ m = _
      rw [hsizes.2]
      exact Eq.refl _
    have hpayload : stagePayload p i call m =
        readPipe .lg p.logitsPipeRow (p.logitsPipeRow * call.batchSize.toNat) m := if_neg hnext
    have hnode : nextStage p i = 0 := if_neg hnext
    obtain ⟨s', frame, hsend, hwaiting, hdelivers, hposition⟩ := hready.send p.ppSize_pos
      (Nat.ne_of_lt hi) (readPipe .lg p.logitsPipeRow (p.logitsPipeRow * call.batchSize.toNat) m)
    refine ⟨s', frame, ?_, hwaiting, hpayload ▸ hdelivers, hposition⟩
    rw [hshould, decide_eq_false hnext, if_neg Bool.false_ne_true, if_pos hlast, hlogits, hsend,
      hnode]
    exact Eq.refl _

/-- The stage that a worker receives from is the one before it. -/
theorem Ready.recvFrom (hi : 0 < i) {call : Call} {m : Memory V} {s : WorkerState V (Memory V)}
    (h : Ready p i call m s) : s.recvFrom (p.worker i) = .source (i - 1) := by
  obtain ⟨c, hc, hlane, _⟩ := h.links
  have hrecv : c.shouldRecvActivations = true := by
    rw [NnPipelineCommunicator.shouldRecvActivations, hlane.ppRank]
    exact decide_eq_true hi
  rw [WorkerState.recvFrom, hc]
  simp only [hrecv, h.stageSkipExecute, Bool.not_true, Bool.false_and, Bool.false_eq_true, if_false,
    hlane.ppRank]

theorem Ready.activationSource (hi : 0 < i) (hlt : i < p.ppSize.toNat) {call : Call} {m : Memory V}
    {s : WorkerState V (Memory V)} (h : Ready p i call m s) (outgoing : List (ℕ × Message V)) :
    p.activationSource i (.worker s outgoing) = some (i - 1) := by
  obtain ⟨c, hc, hlane, _⟩ := h.links
  have hsocket := hlane.recvSocket (show i - 1 < p.ppSize.toNat by omega) (show i - 1 ≠ i by omega)
  simp only [Pipeline.activationSource, h.recvFrom hi, hc, hsocket]
  rw [connectedPeer_getSocketIndexForNode (by omega)]

/-- A worker that has the frame of its packet goes on with it. -/
theorem Ready.afterRecv {call : Call} {m : Memory V} {s : WorkerState V (Memory V)}
    (h : Ready p i call m s) {header : NnPipelineActivationHeader}
    (hposition : header.seqPosition = call.position) :
    ∃ s', s.afterRecv (p.worker i) header = .ok s' ∧ Ready p i call m s' := by
  have hsame : ¬header.seqPosition ≠ s.controlPacket.position := by
    rw [h.packet]
    exact not_not_intro hposition
  rw [WorkerState.afterRecv]
  simp only [h.stageSkipExecute, Bool.false_and, Bool.false_eq_true, if_false, if_neg hsame]
  split
  · exact ⟨_, Eq.refl _, h.running, h.memory, h.packet, h.batch, h.type, h.full, h.links⟩
  · exact ⟨s, Eq.refl _, h⟩

/-- A worker that takes an activation runs its segments on it and sends what they leave. -/
theorem takeActivation_ok [Add V] [Sub V] [LE V] [DecidableLE V] [LT V] [DecidableLT V]
    (hi : 0 < i) (hlt : i < p.ppSize.toNat) {call : Call} {m : Memory V}
    {s : WorkerState V (Memory V)} (h : Ready p i call m s) (outgoing : List (ℕ × Message V))
    {got : ℕ → List (Message V)} {frame : Frame} {values : List V}
    (hgot : got (i - 1) = [.activation frame]) (hdelivers : Delivers p.codec frame values)
    (hposition : frame.header.seqPosition = call.position)
    (hfits : values.length = p.xPipeRow * call.batchSize.toNat) :
    ∃ s' frame', p.takeActivation i (.worker s outgoing) got =
        .worker s' [(nextStage p i, .activation frame')] ∧
      Waiting p i ((p.nodes i).forward call.batchSize.toNat
        (writePipe .x (p.nodes i).node.header.dim values m)) s' ∧
      Delivers p.codec frame' (stagePayload p i call ((p.nodes i).forward call.batchSize.toNat
        (writePipe .x (p.nodes i).node.header.dim values m))) ∧
      frame'.header.seqPosition = call.position := by
  obtain ⟨c, hc, hlane, hdelta⟩ := h.links
  have hsocket := hlane.recvSocket (show i - 1 < p.ppSize.toNat by omega) (show i - 1 ≠ i by omega)
  have hpeer : connectedPeer i (getSocketIndexForNode i (i - 1)) = i - 1 :=
    connectedPeer_getSocketIndexForNode (by omega)
  obtain ⟨c', haccept, hnode, hsame⟩ := hdelivers c (getSocketIndexForNode i (i - 1))
    ((p.worker i).xPipeRow * s.batchSize.toNat) (by rw [h.batch, hfits]; exact le_refl _)
  have hrecv : s.recvActivation (p.worker i) (getSocketIndexForNode i (i - 1)) frame =
      some { s with
        engine := writePipe .x (p.nodes i).node.header.dim values s.engine
        pipeline := some c' } := by
    have haccept' : c.acceptFrame (p.worker i).codec (getSocketIndexForNode i (i - 1)) frame
        ((p.worker i).xPipeRow * s.batchSize.toNat) = some (values, c') := haccept
    rw [WorkerState.recvActivation, hc]
    simp only [haccept', Option.map_some]
    exact Eq.refl _
  have hready : Ready p i call (writePipe .x (p.nodes i).node.header.dim values m)
      ({ s with
        engine := writePipe .x (p.nodes i).node.header.dim values s.engine
        pipeline := some c' } : WorkerState V (Memory V)) :=
    ⟨h.running, by rw [h.memory], h.packet, h.batch, h.type, h.full, c', Eq.refl _,
      hlane.of_sameNode hnode, hsame.trans hdelta⟩
  obtain ⟨s₁, hafter, hready₁⟩ := hready.afterRecv hposition
  have hforward : s₁.forward (p.worker i) = { s₁ with
      engine := (p.nodes i).forward s₁.batchSize.toNat s₁.engine } := by
    rw [WorkerState.forward, hready₁.full]
    exact Eq.refl _
  have hready₂ : Ready p i call ((p.nodes i).forward call.batchSize.toNat
      (writePipe .x (p.nodes i).node.header.dim values m)) (s₁.forward (p.worker i)) := by
    rw [hforward]
    exact ⟨hready₁.running, by rw [hready₁.batch, hready₁.memory], hready₁.packet, hready₁.batch,
      hready₁.type, hready₁.full, hready₁.links⟩
  obtain ⟨s', frame', hsend, hwaiting, hdelivers', hposition'⟩ := hready₂.afterForward hi hlt
  refine ⟨s', frame', ?_, hwaiting, hdelivers', hposition'⟩
  have hnext : nextStage p i ≠ i := by
    rw [nextStage]
    split <;> omega
  simp only [Pipeline.takeActivation, h.recvFrom hi, hc, hsocket, hpeer, hgot, hrecv, hafter, hsend,
    List.map_singleton, connectedPeer_getSocketIndexForNode hnext]

end Workers

end LayerSkip.PipelineRounds
