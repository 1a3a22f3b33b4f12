import LayerSkip.NnPipeline

/-!
# Inference loop of a worker

A worker takes a control packet, receives the activation of the stage before
it, runs its executor and sends on what it computed. With stage skip one stage
decides from the change of its activation whether the next stage is left out.
The numbers are left open; what is sent, received and counted is as in the code.
-/

namespace LayerSkip.WorkerLlmInference

open NnTopology NnNetwork NnPipeline

/-- Rows of explicit positions in a control packet. -/
def maxControlBatchPos : NnUint := 64

/-- Sequence groups a control packet can address. -/
def maxSpGroups : ℕ := 8

/-- What the root tells every worker before a forward. -/
structure LlmControlPacket (F : Type) where
  /-- First position of the batch. -/
  position : NnUint
  /-- Rows of the batch, 0 for stop. -/
  batchSize : NnUint
  /-- 0 for prefill, 1 for decode. -/
  phase : NnUint
  /-- 0 for consecutive positions, 1 for explicit ones. -/
  positionMode : NnUint
  /-- 0 for full logits, 1 for a token, 2 for the best logits. -/
  tokenOnlyMode : NnUint
  /-- Number of best logits. -/
  topKCount : NnUint
  /-- Format of activations between stages. -/
  activationType : NnUint
  /-- Whether activations may be sent as differences. -/
  pipelineDelta : NnUint
  /-- Smallest activation to send as a difference. -/
  pipelineDeltaMinBytes : NnUint
  /-- Bytes of a chunk of a stream, 0 for none. -/
  pipelineChunkBytes : NnUint
  /-- Whether decisions are taken without acting on them. -/
  stageSkipShadow : NnUint
  /-- Whether decisions are acted on. -/
  stageSkipEnabled : NnUint
  /-- Stage to leave out. -/
  stageSkipTarget : NnUint
  /-- Largest change of the activation that allows a skip. -/
  stageSkipTheta : F
  /-- Skips allowed in a row. -/
  stageSkipMaxConsecutive : NnUint
  /-- Rejections in a row before a full pass is forced. -/
  stageSkipMaxRejectStreak : NnUint
  /-- Explicit positions. -/
  batchPositions : List NnUint
  /-- Position and batch size of every sequence group with its own work. -/
  spGroups : List (NnUint × NnUint)

/-- What a worker needs of its executor. Pipes hold rows of floats. -/
structure Engine (F E : Type) where
  /-- The first floats of the X pipe. -/
  xPipe : E → ℕ → List F
  /-- Store floats at the front of the X pipe. -/
  writeXPipe : E → List F → E
  /-- Fill the position pipe. -/
  setPositions : E → List NnUint → E
  /-- Run all segments, for a phase and a batch size. -/
  forward : Bool → NnUint → E → E
  /-- The first floats of the logits pipe. -/
  logitsPipe : E → ℕ → List F
  /-- Reading gives as many floats as asked for. -/
  xPipe_length : ∀ e n, (xPipe e n).length = n
  /-- Reading gives as many floats as asked for. -/
  logitsPipe_length : ∀ e n, (logitsPipe e n).length = n

/-- What does not change while a worker runs. -/
structure WorkerConfig (F E : Type) where
  /-- Number formats on the wire. -/
  codec : FloatCodec F
  /-- The executor. -/
  engine : Engine F E
  /-- Ranks of this node. -/
  nodeConfig : NnNodePlacement
  /-- Rows of the pipes. -/
  maxBatchSize : NnUint
  /-- Floats of a row of the X pipe. -/
  xPipeRow : ℕ
  /-- Floats of a row of the logits pipe. -/
  logitsPipeRow : ℕ
  /-- Whether the last operation already leaves a token in the logits pipe. -/
  fusedLmHeadArgmax : Bool
  /-- Relative change from the second row to the first. -/
  computeDeltaNormEncoded : List F → List F → Option F
  /-- A word as a float. -/
  ofUint : NnUint → F

/-- What a worker remembers from one packet to the next. An absent value
stands for a cleared flag of the same name. -/
structure WorkerState (F E : Type) where
  /-- Whether the stop packet has come. -/
  isFinished : Bool
  /-- State of the executor and its pipes. -/
  engine : E
  /-- Rows of the current batch. -/
  batchSize : NnUint
  /-- Links to the other stages, absent with one stage. -/
  pipeline : Option (NnPipelineCommunicator F)
  /-- The current packet. -/
  controlPacket : LlmControlPacket F
  /-- Whether the current packet is a decode packet. -/
  decodePhase : Bool
  /-- Format of activations between stages. -/
  pipelineActivationType : NnFloatType
  /-- Activation of the last single decode token. -/
  prevXPipeRow : Option (List F)
  /-- Whether the forward of this token is left out. -/
  skipForwardThisToken : Bool
  /-- Decision on this token. -/
  lastSkipDecision : Option Bool
  /-- Change of the activation at this token. -/
  lastDeltaNorm : Option F
  /-- Skips decided in a row. -/
  skipConsecutiveAccepts : NnUint
  /-- Rejections in a row. -/
  skipRejectStreak : NnUint
  /-- Full passes forced so far. -/
  skipForcedFullByRejectStreak : NnUint

section Sampling

variable {F : Type} [LE F] [DecidableLE F] [LT F] [DecidableLT F]

/-- Index of the largest logit, the first of equal ones. -/
def sampleArgmaxToken (logits : List F) : NnUint :=
  match logits with
  | [] => 0
  | v :: vs =>
    ((vs.zipIdx 1).foldl (fun best x => if best.2 < x.1 then (x.2.toUInt32, x.1) else best)
      ((0 : NnUint), v)).1

/-- Move a pair up from the end while its value is larger. -/
def insertTop (x : NnUint × F) (top : List (NnUint × F)) : List (NnUint × F) :=
  let low := top.reverse.takeWhile fun y => y.2 < x.2
  let high := top.reverse.dropWhile fun y => y.2 < x.2
  high.reverse ++ x :: low.reverse

/-- One round of the selection of the `k` largest logits. -/
def topKRound (k : ℕ) (top : List (NnUint × F)) (x : NnUint × F) : List (NnUint × F) :=
  if top.length < k then insertTop x top
  else
    match top.getLast? with
    | none => top
    | some last => if x.2 ≤ last.2 then top else insertTop x top.dropLast

/-- The `k` largest logits with their indices, largest first. -/
def packTopKLogits (ofUint : NnUint → F) (logits : List F) (k : ℕ) : List F :=
  let top := (logits.zipIdx.map fun x => (x.2.toUInt32, x.1)).foldl
    (topKRound (min k logits.length)) []
  top.flatMap fun x => [ofUint x.1, x.2]

end Sampling

variable {F E : Type}

namespace WorkerState

variable (w : WorkerConfig F E) (s : WorkerState F E)

/-- A worker that has not yet seen a packet. -/
def create (pipeline : Option (NnPipelineCommunicator F)) (packet : LlmControlPacket F)
    (pipelineActivationType : NnFloatType) (engine : E) : WorkerState F E :=
  ⟨false, engine, 0, pipeline, packet, false, pipelineActivationType, none, false, none, none,
    0, 0, 0⟩

/-- Forget the decisions of a phase that has ended. -/
def resetSkipState : WorkerState F E :=
  { s with
    prevXPipeRow := none
    skipConsecutiveAccepts := 0
    skipRejectStreak := 0
    skipForcedFullByRejectStreak := 0 }

/-- Position and batch size for this node: those of its sequence group when
the packet gives it work of its own. -/
def activeWork (p : LlmControlPacket F) : NnUint × NnUint :=
  let n := w.nodeConfig
  let actualSpSize := (n.spGroupEnd - n.spGroupStart) / (n.tpGroupEnd - n.tpGroupStart)
  let group := p.spGroups.getD n.spRank (0, 0)
  if 1 < actualSpSize ∧ n.spRank < maxSpGroups ∧ 0 < group.2 then group
  else (p.position, p.batchSize)

/-- Enter the phase of the packet. -/
def enterPhase (phase : NnUint) : WorkerState F E :=
  let prevDecodePhase := s.decodePhase
  let s := { s with decodePhase := phase = 1 }
  let s := if !prevDecodePhase && s.decodePhase then s.resetSkipState else s
  if prevDecodePhase && !s.decodePhase then s.resetSkipState else s

/-- The transport options of a packet. -/
def packetTransport (p : LlmControlPacket F) (c : NnPipelineCommunicator F) :
    NnPipelineCommunicator F :=
  c.setTransportOptions (p.pipelineDelta = 1) p.pipelineDeltaMinBytes.toNat
    p.pipelineChunkBytes.toNat

/-- Handle a control packet that has arrived. -/
def tryReadControlPacket (p : LlmControlPacket F) : Except String (WorkerState F E) :=
  let s := { s with controlPacket := p }
  if p.batchSize = 0 then .ok { s with isFinished := true }
  else if w.maxBatchSize < p.batchSize then
    .error s!"Invalid control packet: batchSize={p.batchSize} exceeds maxBatchSize={w.maxBatchSize} (possible root/worker binary mismatch)"
  else
    let (activePos, activeBatchSize) := activeWork w p
    if activeBatchSize = 0 then .error "Invalid control packet: activeBatchSize is zero"
    else if w.maxBatchSize < activeBatchSize then
      .error s!"Invalid control packet: activeBatchSize={activeBatchSize} exceeds maxBatchSize={w.maxBatchSize}"
    else
      let s := s.enterPhase p.phase
      let s := match NnFloatType.ofUint p.activationType with
        | some t => { s with pipelineActivationType := t }
        | none => s
      let s := { s with pipeline := s.pipeline.map (packetTransport p) }
      if p.positionMode = 1 then
        if maxControlBatchPos < activeBatchSize then
          .error "Invalid control packet: activeBatchSize exceeds MAX_CONTROL_BATCH_POS"
        else
          .ok { s with
            engine := w.engine.setPositions s.engine (p.batchPositions.take activeBatchSize.toNat)
            batchSize := activeBatchSize }
      else
        .ok { s with
          engine := w.engine.setPositions s.engine
            ((List.range activeBatchSize.toNat).map fun i => activePos + i.toUInt32)
          batchSize := activeBatchSize }

/-- Decisions are acted on. -/
def stageSkipExecute : Bool := s.controlPacket.stageSkipEnabled = 1

/-- Decisions are taken. -/
def stageSkipTrackingEnabled : Bool :=
  s.controlPacket.stageSkipShadow = 1 || s.controlPacket.stageSkipEnabled = 1

/-- The packet is one decode token. -/
def decodeSingle : Bool := s.decodePhase && s.batchSize = 1

/-- The stage that decides: the one before the target. -/
def isStageSkipDecisionStage : Bool :=
  s.controlPacket.stageSkipTarget ≠ 0 &&
    w.nodeConfig.ppRank + 1 = s.controlPacket.stageSkipTarget.toNat

/-- The stage that may be left out. -/
def isStageSkipTargetStage : Bool := w.nodeConfig.ppRank = s.controlPacket.stageSkipTarget.toNat

/-- The stage after the target. -/
def isStageSkipPostTargetStage : Bool :=
  w.nodeConfig.ppRank = (s.controlPacket.stageSkipTarget + 1).toNat

/-- Take the decision on this token and count it. -/
def evaluateStageSkipDecision [LE F] [DecidableLE F] : WorkerState F E :=
  let s := { s with lastSkipDecision := none }
  if !s.stageSkipTrackingEnabled || !s.isStageSkipDecisionStage w then s
  else if !s.decodeSingle then s
  else
    match s.lastDeltaNorm with
    | none => s
    | some deltaNorm =>
      let p := s.controlPacket
      let accept := decide (deltaNorm ≤ p.stageSkipTheta)
      let accept := if accept && p.stageSkipMaxConsecutive ≤ s.skipConsecutiveAccepts then false
        else accept
      let forceFullByRejectStreak : Bool := p.stageSkipMaxRejectStreak ≤ s.skipRejectStreak
      let accept := if forceFullByRejectStreak then false else accept
      let s := { s with lastSkipDecision := some accept }
      if accept then
        { s with skipConsecutiveAccepts := s.skipConsecutiveAccepts + 1, skipRejectStreak := 0 }
      else if forceFullByRejectStreak then
        { s with
          skipConsecutiveAccepts := 0
          skipRejectStreak := 0
          skipForcedFullByRejectStreak := s.skipForcedFullByRejectStreak + 1 }
      else { s with skipConsecutiveAccepts := 0, skipRejectStreak := s.skipRejectStreak + 1 }

/-- Where the activation of this packet comes from. -/
inductive RecvFrom
  /-- The first stage receives none. -/
  | nothing
  /-- One stage. -/
  | source (ppRank : ℕ)
  /-- Whichever of two stages has sent one. -/
  | poll (bypassSource normalSource : ℕ)

/-- The stage or stages to receive from. -/
def recvFrom : RecvFrom :=
  match s.pipeline with
  | none => .nothing
  | some c =>
    if !c.shouldRecvActivations then .nothing
    else if s.stageSkipExecute && s.decodeSingle && s.isStageSkipPostTargetStage w then
      .poll (s.controlPacket.stageSkipTarget - 1).toNat s.controlPacket.stageSkipTarget.toNat
    else .source (c.myPpRank - 1)

/-- Start of `beforeForward`. -/
def beginForward : WorkerState F E := { s with skipForwardThisToken := false, lastDeltaNorm := none }

/-- Take in a frame from a socket, or nothing when the call returns false. -/
def recvActivation [Add F] (socket : ℕ) (frame : Frame) : Option (WorkerState F E) :=
  match s.pipeline with
  | none => none
  | some c =>
    (c.acceptFrame w.codec socket frame (w.xPipeRow * s.batchSize.toNat)).map fun r =>
      { s with engine := w.engine.writeXPipe s.engine r.1, pipeline := some r.2 }

/-- Rest of `beforeForward`, after an activation with this header has come:
look for the marker, check the position and follow the change of the activation. -/
def afterRecv (header : NnPipelineActivationHeader) : Except String (WorkerState F E) :=
  if s.stageSkipExecute && s.decodeSingle && s.isStageSkipTargetStage w &&
      header.flags &&& pipelineFlagStageSkipBypass ≠ 0 && header.payloadBytes = 0 then
    .ok { s with skipForwardThisToken := true }
  else if header.seqPosition ≠ s.controlPacket.position then
    .error "Pipeline activation position mismatch"
  else if s.stageSkipTrackingEnabled && s.decodeSingle then
    let row := w.engine.xPipe s.engine w.xPipeRow
    .ok { s with
      lastDeltaNorm := s.prevXPipeRow.bind fun prev => w.computeDeltaNormEncoded row prev
      prevXPipeRow := some row }
  else .ok s

/-- Run the executor unless this token skips it. -/
def forward : WorkerState F E :=
  if s.skipForwardThisToken then s
  else { s with engine := w.engine.forward s.decodePhase s.batchSize s.engine }

/-- What the last stage sends to the root: all logits, a token or the best ones. -/
def logitsPayload [LE F] [DecidableLE F] [LT F] [DecidableLT F] : List F :=
  let p := s.controlPacket
  let logits := w.engine.logitsPipe s.engine w.logitsPipeRow
  if p.tokenOnlyMode = 1 && s.decodeSingle then
    if w.fusedLmHeadArgmax then logits.take 1 else [w.ofUint (sampleArgmaxToken logits)]
  else if p.tokenOnlyMode = 2 && s.decodeSingle then
    packTopKLogits w.ofUint logits (min p.topKCount.toNat w.logitsPipeRow)
  else w.engine.logitsPipe s.engine (w.logitsPipeRow * s.batchSize.toNat)

/-- Send one activation of the current position. -/
def send [Sub F] (targetPpRank : ℕ) (data : List F) (dtype : NnFloatType) (extraFlags : NnUint) :
    Except String (WorkerState F E × (ℕ × Frame)) :=
  match s.pipeline with
  | none => .error "no pipeline"
  | some c => do
    let (socket, frame, c) ← c.sendActivation w.codec targetPpRank s.controlPacket.position 0
      w.nodeConfig.tpRank data dtype extraFlags
    return ({ s with pipeline := some c }, (socket, frame))

/-- Decide, then send on what this packet produced, with the frames that go out. -/
def afterForward [Sub F] [LE F] [DecidableLE F] [LT F] [DecidableLT F] :
    Except String (WorkerState F E × List (ℕ × Frame)) :=
  match s.pipeline with
  | none => .ok (s, [])
  | some c =>
    let s := s.evaluateStageSkipDecision w
    let target := s.controlPacket.stageSkipTarget
    let row := w.engine.xPipe s.engine (w.xPipeRow * s.batchSize.toNat)
    if s.stageSkipExecute && s.decodeSingle && s.isStageSkipTargetStage w &&
        s.skipForwardThisToken then .ok (s, [])
    else if c.shouldSendActivations then
      if s.stageSkipExecute && s.decodeSingle && s.isStageSkipDecisionStage w &&
          s.lastSkipDecision = some true then do
        let (s, marker) ← s.send w target.toNat [] .f32 pipelineFlagStageSkipBypass
        let (s, bypass) ← s.send w (target + 1).toNat row s.pipelineActivationType
          pipelineFlagStageSkipBypass
        return (s, [marker, bypass])
      else do
        let (s, frame) ← s.send w (c.myPpRank + 1) row s.pipelineActivationType 0
        return (s, [frame])
    else if 0 < w.nodeConfig.ppRank ∧ w.nodeConfig.spRank = 0 ∧ w.nodeConfig.tpRank = 0 then do
      let (s, frame) ← s.send w 0 (s.logitsPayload w) .f32 0
      return (s, [frame])
    else .ok (s, [])

variable {w s}

/-- What a decision can do: nothing, a skip, a forced full pass or a rejection. -/
theorem evaluateStageSkipDecision_cases [LE F] [DecidableLE F] :
    s.evaluateStageSkipDecision w = { s with lastSkipDecision := none } ∨
    (s.decodeSingle = true ∧ s.lastDeltaNorm ≠ none ∧
      s.skipConsecutiveAccepts < s.controlPacket.stageSkipMaxConsecutive ∧
      s.evaluateStageSkipDecision w = { s with
        lastSkipDecision := some true
        skipConsecutiveAccepts := s.skipConsecutiveAccepts + 1
        skipRejectStreak := 0 }) ∨
    (s.decodeSingle = true ∧ s.evaluateStageSkipDecision w = { s with
      lastSkipDecision := some false
      skipConsecutiveAccepts := 0
      skipRejectStreak := 0
      skipForcedFullByRejectStreak := s.skipForcedFullByRejectStreak + 1 }) ∨
    (s.decodeSingle = true ∧ s.skipRejectStreak < s.controlPacket.stageSkipMaxRejectStreak ∧
      s.evaluateStageSkipDecision w = { s with
        lastSkipDecision := some false
        skipConsecutiveAccepts := 0
        skipRejectStreak := s.skipRejectStreak + 1 }) := by
  have hdef : s.evaluateStageSkipDecision w =
      if (!s.stageSkipTrackingEnabled || !s.isStageSkipDecisionStage w) = true then
        { s with lastSkipDecision := none }
      else if (!s.decodeSingle) = true then { s with lastSkipDecision := none }
      else _ := rfl
  by_cases htrack : (!s.stageSkipTrackingEnabled || !s.isStageSkipDecisionStage w) = true
  · left
    rw [hdef, if_pos htrack]
  by_cases hsingle : (!s.decodeSingle) = true
  · left
    rw [hdef, if_neg htrack, if_pos hsingle]
  rw [if_neg htrack, if_neg hsingle] at hdef
  have hone : s.decodeSingle = true := by simpa using hsingle
  cases hnorm : s.lastDeltaNorm with
  | none =>
    left
    rw [hdef, hnorm]
  | some deltaNorm =>
    right
    rw [hdef, hnorm]
    by_cases hrej : s.controlPacket.stageSkipMaxRejectStreak ≤ s.skipRejectStreak
    · right
      left
      refine ⟨hone, ?_⟩
      simp [hrej]
    · have hlt : s.skipRejectStreak < s.controlPacket.stageSkipMaxRejectStreak := by
        simpa using hrej
      by_cases hmax : s.controlPacket.stageSkipMaxConsecutive ≤ s.skipConsecutiveAccepts
      · right
        right
        refine ⟨hone, hlt, ?_⟩
        simp [hrej, hmax]
      · have hroom : s.skipConsecutiveAccepts < s.controlPacket.stageSkipMaxConsecutive := by
          simpa using hmax
        by_cases hle : deltaNorm ≤ s.controlPacket.stageSkipTheta
        · left
          refine ⟨hone, by simp, hroom, ?_⟩
          simp [hrej, hmax, hle]
        · right
          right
          refine ⟨hone, hlt, ?_⟩
          simp [hrej, hle]

theorem evaluateStageSkipDecision_pipeline [LE F] [DecidableLE F] :
    (s.evaluateStageSkipDecision w).pipeline = s.pipeline := by
  rcases evaluateStageSkipDecision_cases (w := w) (s := s) with
    h | ⟨-, -, -, h⟩ | ⟨-, h⟩ | ⟨-, -, h⟩ <;>
    rw [h]

/-- Entering the same phase keeps the counters, entering another resets them. -/
theorem enterPhase_cases (phase : NnUint) :
    (s.decodePhase = decide (phase = 1) ∧ s.enterPhase phase = s) ∨
      s.enterPhase phase = { s.resetSkipState with decodePhase := phase = 1 } := by
  unfold enterPhase
  by_cases hp : phase = 1
  · cases hd : s.decodePhase with
    | true =>
      left
      simp only [hp, decide_true, Bool.not_true, Bool.false_and, Bool.and_false,
        Bool.false_eq_true, if_false, true_and]
      rw [← hd]
    | false =>
      right
      simp [hp]
      rfl
  · cases hd : s.decodePhase with
    | false =>
      left
      simp only [hp, decide_false, Bool.not_false, Bool.and_false, Bool.false_and,
        Bool.false_eq_true, if_false, true_and]
      rw [← hd]
    | true =>
      right
      simp [hp]
      rfl

/-- A control packet stops the worker, or enters its phase and sets up the batch. -/
theorem tryReadControlPacket_cases {p : LlmControlPacket F} {s' : WorkerState F E}
    (h : s.tryReadControlPacket w p = .ok s') :
    (p.batchSize = 0 ∧ s' = { s with controlPacket := p, isFinished := true }) ∨
      ∃ engine batchSize pipelineActivationType, s' =
        { ({ s with controlPacket := p } : WorkerState F E).enterPhase p.phase with
          engine, batchSize, pipelineActivationType,
          pipeline := s.pipeline.map (packetTransport p) } := by
  unfold tryReadControlPacket at h
  by_cases hz : p.batchSize = 0
  · left
    simp only [hz, if_true, Except.ok.injEq] at h
    exact ⟨hz, h.symm⟩
  · right
    simp only [hz, if_false] at h
    refine ⟨s'.engine, s'.batchSize, s'.pipelineActivationType, ?_⟩
    have hpipe : (({ s with controlPacket := p } : WorkerState F E).enterPhase p.phase).pipeline =
        s.pipeline := by
      rcases enterPhase_cases (s := { s with controlPacket := p }) p.phase with ⟨-, he⟩ | he <;>
        rw [he]
      rfl
    generalize ({ s with controlPacket := p } : WorkerState F E).enterPhase p.phase = q at h hpipe ⊢
    split_ifs at h
    all_goals
      injection h with h
      rw [← h, ← hpipe]
      cases NnFloatType.ofUint p.activationType <;> rfl

/-- A received activation changes the pipes and the links only. -/
theorem recvActivation_cases [Add F] {socket : ℕ} {frame : Frame} {s' : WorkerState F E}
    (h : s.recvActivation w socket frame = some s') :
    ∃ c r, s.pipeline = some c ∧
      c.acceptFrame w.codec socket frame (w.xPipeRow * s.batchSize.toNat) = some r ∧
      s' = { s with engine := w.engine.writeXPipe s.engine r.1, pipeline := some r.2 } := by
  unfold recvActivation at h
  cases hc : s.pipeline with
  | none => simp [hc] at h
  | some c =>
    simp only [hc, Option.map_eq_some_iff] at h
    obtain ⟨r, hr, hs⟩ := h
    exact ⟨c, r, rfl, hr, hs.symm⟩

/-- After a receive the token is marked for the skip, or its change is followed,
or nothing is remembered. -/
theorem afterRecv_cases {header : NnPipelineActivationHeader} {s' : WorkerState F E}
    (h : s.afterRecv w header = .ok s') :
    s' = { s with skipForwardThisToken := true } ∨
    (s.decodeSingle = true ∧ s' = { s with
      lastDeltaNorm := s.prevXPipeRow.bind fun prev =>
        w.computeDeltaNormEncoded (w.engine.xPipe s.engine w.xPipeRow) prev
      prevXPipeRow := some (w.engine.xPipe s.engine w.xPipeRow) }) ∨
    s' = s := by
  unfold afterRecv at h
  split_ifs at h with hmark hpos htrack
  · left
    injection h with h
    exact h.symm
  · right
    left
    injection h with h
    rw [Bool.and_eq_true] at htrack
    exact ⟨htrack.2, h.symm⟩
  · right
    right
    injection h with h
    exact h.symm

/-- Sending changes the links only. -/
theorem send_cases [Sub F]
    {targetPpRank : ℕ} {data : List F} {dtype : NnFloatType} {extraFlags : NnUint}
    {r : WorkerState F E × (ℕ × Frame)} (h : s.send w targetPpRank data dtype extraFlags = .ok r) :
    ∃ c, r.1 = { s with pipeline := some c } := by
  unfold send at h
  cases hc : s.pipeline with
  | none => simp [hc] at h
  | some c =>
    simp only [hc] at h
    cases hsend : c.sendActivation w.codec targetPpRank s.controlPacket.position 0
        w.nodeConfig.tpRank data dtype extraFlags with
    | error text => rw [hsend] at h; cases h
    | ok x =>
      rw [hsend] at h
      cases h
      exact ⟨_, rfl⟩

theorem forward_cases : ∃ engine, s.forward w = { s with engine } := by
  unfold forward
  split
  · exact ⟨s.engine, rfl⟩
  · exact ⟨_, rfl⟩

/-- After the forward the decision is taken; sending changes the links only. -/
theorem afterForward_cases [Sub F] [LE F] [DecidableLE F] [LT F] [DecidableLT F]
    {r : WorkerState F E × List (ℕ × Frame)}
    (h : s.afterForward w = .ok r) :
    (s.pipeline = none ∧ r.1 = s) ∨
      ∃ c, r.1 = { s.evaluateStageSkipDecision w with pipeline := some c } := by
  unfold afterForward at h
  cases hc : s.pipeline with
  | none =>
    left
    simp only [hc, Except.ok.injEq] at h
    exact ⟨rfl, by rw [← h]⟩
  | some c =>
    right
    simp only [hc] at h
    have hkeep : s.evaluateStageSkipDecision w =
        { s.evaluateStageSkipDecision w with pipeline := some c } := by
      rw [← hc, ← evaluateStageSkipDecision_pipeline (w := w)]
    split_ifs at h with hskip hsend hdecide hlast
    · cases h
      exact ⟨c, hkeep⟩
    · obtain ⟨marker, hm, h⟩ := bind_eq_ok h
      obtain ⟨bypass, hb, h⟩ := bind_eq_ok h
      obtain ⟨cm, hcm⟩ := send_cases hm
      obtain ⟨cb, hcb⟩ := send_cases hb
      cases h
      exact ⟨cb, by rw [hcb, hcm]⟩
    · obtain ⟨frame, hf, h⟩ := bind_eq_ok h
      obtain ⟨cf, hcf⟩ := send_cases hf
      cases h
      exact ⟨cf, hcf⟩
    · obtain ⟨frame, hf, h⟩ := bind_eq_ok h
      obtain ⟨cf, hcf⟩ := send_cases hf
      cases h
      exact ⟨cf, hcf⟩
    · cases h
      exact ⟨c, hkeep⟩

end WorkerState

end LayerSkip.WorkerLlmInference
