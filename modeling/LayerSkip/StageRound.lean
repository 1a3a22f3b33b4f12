import LayerSkip.StageNetwork
import LayerSkip.PipelineLink

/-!
# One round of a stage

Which frames a stage sends for a control packet depends on the packet and on
the decision of the stage before the target alone. Taking the frame meant for
it, a worker ends its round without an exception.
-/

namespace LayerSkip.StageRound

open NnTopology NnNetwork NnPipeline WorkerLlmInference WorkerState RoundFlow StageNetwork
  PipelineLink

variable {F E : Type}

/-- Decisions on this packet are acted on. -/
def acts (p : LlmControlPacket F) : Bool :=
  p.stageSkipEnabled = 1 && (p.phase = 1 && p.batchSize = 1)

/-- The frames among messages. -/
def frames (ms : List (Message F)) : List Frame :=
  ms.filterMap fun m => match m with
    | .control _ => none
    | .activation frame => some frame

theorem frames_append (ms ms' : List (Message F)) : frames (ms ++ ms') = frames ms ++ frames ms' :=
  List.filterMap_append

/-- The control packet that opens a round of the root. -/
def controls (i : ℕ) (p : LlmControlPacket F) : List (Message F) :=
  if i = 0 then [.control p] else []

theorem frames_controls (i : ℕ) (p : LlmControlPacket F) : frames (controls i p) = [] := by
  unfold controls
  split <;> rfl

theorem controls_length (i : ℕ) (p : LlmControlPacket F) :
    (controls i p).length = if i = 0 then 1 else 0 := by
  unfold controls
  split <;> rfl

/-- A communicator of a stage of the chain. -/
structure ChainEnd (c : StageChain F E) (i : ℕ) (pl : NnPipelineCommunicator F) : Prop where
  topology : pl.topology = c.topology
  nodeIndex : pl.myNodeIndex = i
  ppRank : pl.myPpRank = i
  spRank : pl.mySpRank = 0
  tpRank : pl.myTpRank = 0

variable {c : StageChain F E} {i : ℕ} {pl : NnPipelineCommunicator F}

theorem ChainEnd.of_sameNode (h : ChainEnd c i pl) {pl' : NnPipelineCommunicator F}
    (hs : SameNode pl pl') : ChainEnd c i pl' :=
  ⟨hs.topology.trans h.topology, hs.nodeIndex.trans h.nodeIndex, hs.ppRank.trans h.ppRank,
    hs.spRank.trans h.spRank, hs.tpRank.trans h.tpRank⟩

/-- The socket to another stage is the one that leads there. -/
theorem ChainEnd.socket (h : ChainEnd c i pl) {j : ℕ} (hj : j < c.ppSize.toNat) (hne : j ≠ i) :
    pl.getPipelineSocketIndex j = .ok (getSocketIndexForNode i j) := by
  have hrank : pl.topology.getGlobalRank j pl.mySpRank pl.myTpRank = .ok j := by
    rw [h.topology, h.spRank, h.tpRank]
    exact NnParallelTopology.getGlobalRank_chain hj
  have hsocket := NnPipelineCommunicator.getPipelineSocketIndex_eq hrank (h.nodeIndex ▸ hne)
  rw [hsocket, h.nodeIndex]

theorem ChainEnd.recvSocket (h : ChainEnd c i pl) {j : ℕ} (hj : j < c.ppSize.toNat) (hne : j ≠ i) :
    pl.recvSocket j = .ok (getSocketIndexForNode i j) := by
  have hlt : ¬pl.topology.ppSize ≤ j := by
    rw [h.topology]
    exact Nat.not_le.mpr hj
  unfold NnPipelineCommunicator.recvSocket
  rw [if_neg hlt, h.socket hj hne]

/-- What a frame of a send says. -/
structure Carries (position : NnUint) (n : ℕ) (bypass : Bool) (frame : Frame) : Prop where
  position : frame.header.seqPosition = position
  empty : frame.header.payloadBytes = 0 ↔ n = 0
  fits : ∀ room, n ≤ room → FitsBuffer frame room
  flag : frame.header.flags &&& pipelineFlagStageSkipBypass ≠ 0 ↔ bypass = true

/-- A send to another stage succeeds and keeps the link in step. -/
theorem ChainEnd.sendActivation [Add F] [Sub F]
    (h : ChainEnd c i pl) {j : ℕ} (hj : j < c.ppSize.toNat)
    (hne : j ≠ i) (codec : FloatCodec F) (position : NnUint) (data : List F) (dtype : NnFloatType)
    (bypass : Bool) :
    ∃ frame pl', pl.sendActivation codec j position 0 0 data dtype
        (if bypass then pipelineFlagStageSkipBypass else 0) =
          .ok (getSocketIndexForNode i j, frame, pl') ∧
      Sends codec pl (getSocketIndexForNode i j) frame pl' ∧
      Carries position data.length bypass frame := by
  have hlt : ¬pl.topology.ppSize ≤ j := by
    rw [h.topology]
    exact Nat.not_le.mpr hj
  have hflags : (if bypass then pipelineFlagStageSkipBypass else 0) = 0 ∨
      (if bypass then pipelineFlagStageSkipBypass else 0) = pipelineFlagStageSkipBypass := by
    cases bypass
    · exact .inl rfl
    · exact .inr rfl
  refine ⟨_, _, ?_, sends_makeFrame codec pl (getSocketIndexForNode i j) position 0 0 data dtype hflags, ?_⟩
  · unfold NnPipelineCommunicator.sendActivation
    rw [if_neg hlt, h.socket hj hne]
    rfl
  · have hempty := payloadBytes_makeFrame codec pl (getSocketIndexForNode i j) position 0 0 data dtype
      (if bypass then pipelineFlagStageSkipBypass else 0)
    refine ⟨rfl, hempty, fun room hroom => ?_, ?_⟩
    · by_cases hd : data.length = 0
      · exact .inl (hempty.mpr hd)
      · right
        rw [elems_makeFrame codec pl _ position 0 0 hd]
        exact hroom
    · refine (headerFlags_bypass _ _ hflags).trans ?_
      cases bypass
      · exact ⟨fun hf => absurd hf (by decide), nofun⟩
      · exact ⟨fun _ => rfl, fun _ => rfl⟩

/-- What goes out in a round, by link: nothing, or one frame that keeps the
link in step. -/
structure Emits [Add F] (codec : FloatCodec F) (i : ℕ) (pl pl' : NnPipelineCommunicator F)
    (sent : List (ℕ × Message F)) : Prop where
  node : SameNode pl pl'
  received : pl'.prevRecvBySocket = pl.prevRecvBySocket
  each : ∀ j, j ≠ i →
    (frames (toParty j sent) = [] ∧ pl'.prevSendBySocket (getSocketIndexForNode i j) =
      pl.prevSendBySocket (getSocketIndexForNode i j)) ∨
    ∃ frame, frames (toParty j sent) = [frame] ∧
      Accepted codec frame (pl.prevSendBySocket (getSocketIndexForNode i j)).length ∧
      (pl'.prevSendBySocket (getSocketIndexForNode i j)).length =
        baseAfter frame (pl.prevSendBySocket (getSocketIndexForNode i j)).length

/-- Different peers have different sockets. -/
theorem socket_inj {i j k : ℕ} (hj : j ≠ i) (hk : k ≠ i)
    (h : getSocketIndexForNode i j = getSocketIndexForNode i k) : j = k := by
  rw [← connectedPeer_getSocketIndexForNode hj, h, connectedPeer_getSocketIndexForNode hk]

theorem Emits.nil [Add F] (codec : FloatCodec F) (pl : NnPipelineCommunicator F) :
    Emits codec i pl pl [] := ⟨SameNode.refl pl, rfl, fun _ _ => .inl ⟨rfl, rfl⟩⟩

/-- One more frame, to a stage that has not got one yet. -/
theorem Emits.cons [Add F] {codec : FloatCodec F} {pl₁ pl₂ : NnPipelineCommunicator F} {j : ℕ}
    {frame : Frame} {sent : List (ℕ × Message F)} (hj : j ≠ i)
    (h : Sends codec pl (getSocketIndexForNode i j) frame pl₁) (hs : Emits codec i pl₁ pl₂ sent)
    (hnew : toParty j sent = []) : Emits codec i pl pl₂ ((j, .activation frame) :: sent) := by
  refine ⟨h.node.trans hs.node, hs.received.trans h.received, fun k hk => ?_⟩
  by_cases hkj : k = j
  · right
    rw [hkj]
    refine ⟨frame, by rw [toParty_cons_self, hnew]; rfl, h.accepted, ?_⟩
    rcases hs.each j hj with ⟨-, hsame⟩ | ⟨other, hone, -⟩
    · rw [hsame, h.base]
    · rw [hnew] at hone
      cases hone
  · have hsocket : getSocketIndexForNode i k ≠ getSocketIndexForNode i j :=
      fun he => hkj (socket_inj hk hj he)
    rw [toParty_cons_ne (Ne.symm hkj), ← h.others _ hsocket]
    exact hs.each k hk

/-- The stage whose frame another stage takes for a packet. -/
def sender (c : StageChain F E) (p : LlmControlPacket F) (accepted : Bool) (j : ℕ) : ℕ :=
  if (acts p && accepted && decide (j = c.options.stageSkipTarget.toNat + 1)) = true then
    c.options.stageSkipTarget.toNat - 1
  else j - 1

/-- A frame that a stage can take for a packet. -/
structure FrameFor (c : StageChain F E) (p : LlmControlPacket F) (accepted : Bool) (j : ℕ)
    (frame : Frame) : Prop where
  position : frame.header.seqPosition = p.position
  fits : FitsBuffer frame (c.xPipeRow * p.batchSize.toNat)
  /-- The target gets a marker exactly when it is skipped. -/
  marker : acts p = true → j = c.options.stageSkipTarget.toNat →
    ((frame.header.flags &&& pipelineFlagStageSkipBypass ≠ 0 ∧ frame.header.payloadBytes = 0) ↔
      accepted = true)

/-- What a stage sends for a packet, given the decision on it. -/
structure RoundOk (c : StageChain F E) (p : LlmControlPacket F) (accepted : Bool) (i : ℕ)
    (sent : List (ℕ × Message F)) : Prop where
  next : ∀ j, 0 < j → j < c.ppSize.toNat → i = sender c p accepted j →
    ∃ frame, toParty j sent = controls i p ++ [.activation frame] ∧ FrameFor c p accepted j frame
  others : ∀ j, 0 < j → j < c.ppSize.toNat → i ≠ sender c p accepted j →
    toParty j sent = controls i p
  logits : i + 1 = c.ppSize.toNat →
    ∃ frame, toParty 0 sent = [.activation frame] ∧ FitsBuffer frame (c.logitsElems p)
  noLogits : i + 1 ≠ c.ppSize.toNat → toParty 0 sent = []
  outside : ∀ j, c.ppSize.toNat ≤ j → toParty j sent = []

/-- A stage that sends one activation to the next. -/
theorem roundOk_next {p : LlmControlPacket F} {accepted : Bool} (hi : 0 < i)
    (hnext : i + 1 < c.ppSize.toNat) {frame : Frame} (hf : FrameFor c p accepted (i + 1) frame)
    (hdec : ¬(i + 1 = c.options.stageSkipTarget.toNat ∧ acts p = true ∧ accepted = true))
    (htarget : ¬(i = c.options.stageSkipTarget.toNat ∧ acts p = true ∧ accepted = true)) :
    RoundOk c p accepted i [(i + 1, .activation frame)] := by
  have hctrl : controls i p = [] := if_neg (by omega)
  have hsender (j : ℕ) (hj : 0 < j) : i = sender c p accepted j ↔ j = i + 1 := by
    unfold sender
    split
    · rename_i hskip
      simp only [Bool.and_eq_true, decide_eq_true_eq] at hskip
      have htne : ¬i = c.options.stageSkipTarget.toNat := fun he => htarget ⟨he, hskip.1⟩
      have hdne : ¬i + 1 = c.options.stageSkipTarget.toNat := fun he => hdec ⟨he, hskip.1⟩
      have hpos := c.target_pos
      omega
    · omega
  refine ⟨fun j hj _ hs => ?_, fun j hj _ hs => ?_, fun hlast => absurd hlast (by omega),
    fun _ => toParty_cons_ne (by omega) _ _, fun j hj => toParty_cons_ne (by omega) _ _⟩
  · have hji := (hsender j hj).mp hs
    refine ⟨frame, ?_, hji ▸ hf⟩
    rw [hji, hctrl, toParty_cons_self, toParty_nil, List.nil_append]
  · have hji : i + 1 ≠ j := fun he => hs ((hsender j hj).mpr he.symm)
    rw [hctrl, toParty_cons_ne hji, toParty_nil]

/-- The stage before the target when it has accepted: a marker for the target
and its activation for the stage after. -/
theorem roundOk_bypass {p : LlmControlPacket F} (hi : 0 < i)
    (hdec : i + 1 = c.options.stageSkipTarget.toNat) (hacts : acts p = true) {marker frame : Frame}
    (hm : FrameFor c p true (i + 1) marker) (hf : FrameFor c p true (i + 2) frame) :
    RoundOk c p true i [(i + 1, .activation marker), (i + 2, .activation frame)] := by
  have hctrl : controls i p = [] := if_neg (by omega)
  have hlt := c.target_lt
  have hsender (j : ℕ) (hj : 0 < j) : i = sender c p true j ↔ j = i + 1 ∨ j = i + 2 := by
    unfold sender
    rw [hacts]
    simp only [Bool.true_and, decide_eq_true_eq]
    split <;> omega
  refine ⟨fun j hj _ hs => ?_, fun j hj _ hs => ?_, fun hlast => absurd hlast (by omega),
    fun _ => ?_, fun j hj => ?_⟩
  · rcases (hsender j hj).mp hs with hj1 | hj2
    · have hne : i + 2 ≠ i + 1 := by omega
      refine ⟨marker, ?_, hj1 ▸ hm⟩
      rw [hj1, hctrl, toParty_cons_self, toParty_cons_ne hne, toParty_nil, List.nil_append]
    · have hne : i + 1 ≠ i + 2 := by omega
      refine ⟨frame, ?_, hj2 ▸ hf⟩
      rw [hj2, hctrl, toParty_cons_ne hne, toParty_cons_self, toParty_nil, List.nil_append]
  · have hnone : ¬(j = i + 1 ∨ j = i + 2) := fun he => hs ((hsender j hj).mpr he)
    rw [hctrl, toParty_cons_ne (by omega), toParty_cons_ne (by omega), toParty_nil]
  · rw [toParty_cons_ne (by omega), toParty_cons_ne (by omega), toParty_nil]
  · rw [toParty_cons_ne (by omega), toParty_cons_ne (by omega), toParty_nil]

/-- The target when it is skipped sends nothing. -/
theorem roundOk_skip {p : LlmControlPacket F} (htarget : i = c.options.stageSkipTarget.toNat)
    (hacts : acts p = true) : RoundOk c p true i ([] : List (ℕ × Message F)) := by
  have hpos := c.target_pos
  have hlt := c.target_lt
  have hctrl : controls i p = [] := if_neg (by omega)
  have hsender (j : ℕ) (hj : 0 < j) : i ≠ sender c p true j := by
    unfold sender
    rw [hacts]
    simp only [Bool.true_and, decide_eq_true_eq]
    split <;> omega
  refine ⟨fun j hj _ hs => absurd hs (hsender j hj), fun j _ _ _ => hctrl.symm,
    fun hlast => absurd hlast (by omega), fun _ => rfl, fun _ _ => rfl⟩

/-- The last stage sends the logits to the root. -/
theorem roundOk_logits {p : LlmControlPacket F} {accepted : Bool} (hi : 0 < i)
    (hlast : i + 1 = c.ppSize.toNat) {frame : Frame}
    (hf : FitsBuffer frame (c.logitsElems p)) :
    RoundOk c p accepted i [(0, .activation frame)] := by
  have hctrl : controls i p = [] := if_neg (by omega)
  have hlt := c.target_lt
  have hpos := c.target_pos
  refine ⟨fun j hj hjp hs => ?_, fun j hj _ _ => ?_, fun _ => ⟨frame, ?_, hf⟩,
    fun hne => absurd hlast hne, fun j hj => toParty_cons_ne (by omega) _ _⟩
  · unfold sender at hs
    split at hs <;> omega
  · rw [hctrl, toParty_cons_ne (by omega), toParty_nil]
  · rw [toParty_cons_self, toParty_nil]

/-- The packets of the root. -/
structure PacketOk (c : StageChain F E) (p : LlmControlPacket F) : Prop where
  target : p.stageSkipTarget = c.options.stageSkipTarget
  mode : p.tokenOnlyMode = c.options.decodeLogitsMode
  batch_pos : 0 < p.batchSize
  batch_le : p.batchSize ≤ c.maxBatchSize
  batch_max : p.batchSize ≤ maxControlBatchPos
  /-- Skips are acted on in single decode tokens when they are enabled. -/
  acts : acts p = (c.options.stageSkipEnabled && (p.phase = 1 && p.batchSize = 1))

theorem packetOk_controlPacket {call : ForwardCall E} (h : c.Valid call) :
    PacketOk c (c.options.controlPacket call) := by
  refine ⟨rfl, rfl, h.1, h.2.1, h.2.2, ?_⟩
  unfold acts RootOptions.controlPacket
  dsimp only
  cases c.options.stageSkipEnabled <;> simp

/-- A worker that has taken this packet. -/
structure Ready (p : LlmControlPacket F) (st : WorkerState F E) : Prop where
  running : st.isFinished = false
  packet : st.controlPacket = p
  batch : st.batchSize = p.batchSize
  phase : st.decodePhase = decide (p.phase = 1)

variable {p : LlmControlPacket F} {st : WorkerState F E}

theorem Ready.decodeSingle (h : Ready p st) :
    st.decodeSingle = (decide (p.phase = 1) && decide (p.batchSize = 1)) := by
  unfold WorkerState.decodeSingle
  rw [h.phase, h.batch]

/-- Skips are acted on in the state exactly when they are for the packet. -/
theorem Ready.executeSingle (h : Ready p st) : (st.stageSkipExecute && st.decodeSingle) = acts p := by
  unfold acts stageSkipExecute
  rw [h.decodeSingle, h.packet]

theorem isStageSkipTargetStage_worker (h : Ready p st) (hp : PacketOk c p) :
    st.isStageSkipTargetStage (c.worker i) = decide (i = c.options.stageSkipTarget.toNat) := by
  unfold isStageSkipTargetStage
  rw [h.packet, hp.target]
  rfl

theorem isStageSkipDecisionStage_worker (h : Ready p st) (hp : PacketOk c p) :
    st.isStageSkipDecisionStage (c.worker i) =
      decide (i + 1 = c.options.stageSkipTarget.toNat) := by
  have hpos := c.target_pos
  have hne : c.options.stageSkipTarget ≠ 0 := by
    intro hz
    rw [hz] at hpos
    exact absurd hpos (by decide)
  unfold isStageSkipDecisionStage
  rw [h.packet, hp.target]
  simp [hne]
  rfl

/-- The target and the stage after it are words. -/
theorem target_add_one (c : StageChain F E) :
    (c.options.stageSkipTarget + 1).toNat = c.options.stageSkipTarget.toNat + 1 := by
  have hlt := c.target_lt
  have hword := c.ppSize.toNat_lt
  rw [UInt32.toNat_add]
  simp only [UInt32.toNat_one]
  omega

theorem target_sub_one (c : StageChain F E) :
    (c.options.stageSkipTarget - 1).toNat = c.options.stageSkipTarget.toNat - 1 := by
  have hpos := c.target_pos
  have hone : (1 : NnUint) ≤ c.options.stageSkipTarget := hpos
  rw [UInt32.toNat_sub_of_le _ _ hone]
  rfl

theorem isStageSkipPostTargetStage_worker (h : Ready p st) (hp : PacketOk c p) :
    st.isStageSkipPostTargetStage (c.worker i) =
      decide (i = c.options.stageSkipTarget.toNat + 1) := by
  unfold isStageSkipPostTargetStage
  rw [h.packet, hp.target, target_add_one]
  rfl

/-- Deciding changes the decision and its counters only. -/
theorem Ready.evaluate [LE F] [DecidableLE F] (h : Ready p st) (w : WorkerConfig F E) :
    Ready p (st.evaluateStageSkipDecision w) ∧
      (st.evaluateStageSkipDecision w).skipForwardThisToken = st.skipForwardThisToken ∧
      ((st.evaluateStageSkipDecision w).lastSkipDecision = some true → st.decodeSingle = true) := by
  rcases evaluateStageSkipDecision_cases (w := w) (s := st) with
    he | ⟨hone, -, -, he⟩ | ⟨hone, he⟩ | ⟨hone, -, he⟩
  · rw [he]
    exact ⟨⟨h.running, h.packet, h.batch, h.phase⟩, rfl, nofun⟩
  all_goals
    rw [he]
    exact ⟨⟨h.running, h.packet, h.batch, h.phase⟩, rfl, fun _ => hone⟩

theorem insertTop_length [LT F] [DecidableLT F] (x : NnUint × F) (top : List (NnUint × F)) :
    (insertTop x top).length = top.length + 1 := by
  have hsplit := congrArg List.length
    (List.takeWhile_append_dropWhile (p := fun y : NnUint × F => decide (y.2 < x.2)) (l := top.reverse))
  rw [List.length_append, List.length_reverse] at hsplit
  unfold insertTop
  rw [List.length_append, List.length_cons, List.length_reverse, List.length_reverse]
  omega

theorem topKRound_length [LE F] [DecidableLE F] [LT F] [DecidableLT F]
    {k : ℕ} {top : List (NnUint × F)} (h : top.length ≤ k) (x : NnUint × F) :
    (topKRound k top x).length ≤ k := by
  unfold topKRound
  split
  · rw [insertTop_length]
    omega
  · cases hlast : top.getLast? with
    | none => exact h
    | some last =>
      have hpos : top ≠ [] := by
        intro hnil
        rw [hnil] at hlast
        cases hlast
      have hlen := List.length_pos_of_ne_nil hpos
      dsimp only
      split
      · exact h
      · rw [insertTop_length, List.length_dropLast]
        omega

/-- A selection of `k` logits takes two floats each. -/
theorem packTopKLogits_length [LE F] [DecidableLE F] [LT F] [DecidableLT F]
    (ofUint : NnUint → F) (logits : List F) (k : ℕ) :
    (packTopKLogits ofUint logits k).length ≤ 2 * k := by
  have hfold (xs : List (NnUint × F)) (n : ℕ) (top : List (NnUint × F)) (h : top.length ≤ n) :
      (xs.foldl (topKRound n) top).length ≤ n := by
    induction xs generalizing top with
    | nil => exact h
    | cons x xs ih => exact ih _ (topKRound_length h x)
  have htop := hfold (logits.zipIdx.map fun x => (x.2.toUInt32, x.1)) (min k logits.length) []
    (Nat.zero_le _)
  have hmin : min k logits.length ≤ k := Nat.min_le_left _ _
  unfold packTopKLogits
  dsimp only
  rw [List.length_flatMap]
  simp only [List.length_cons, List.length_nil, List.map_const', List.sum_replicate_nat]
  omega

/-- What the last stage sends fits the buffer of the root. -/
theorem logitsPayload_length [LE F] [DecidableLE F] [LT F] [DecidableLT F]
    (h : Ready p st) (hp : PacketOk c p) :
    (st.logitsPayload (c.worker i)).length ≤ c.logitsElems p := by
  have hdec : st.decodeSingle = true ↔ (p.phase = 1 ∧ p.batchSize = 1) := by
    rw [h.decodeSingle]
    simp
  unfold logitsPayload StageChain.logitsElems
  dsimp only
  rw [h.packet, h.batch]
  simp only [Bool.and_eq_true, decide_eq_true_eq, hdec, hp.mode]
  by_cases hone : c.options.decodeLogitsMode = 1 ∧ p.phase = 1 ∧ p.batchSize = 1
  · rw [if_pos hone, if_pos hone]
    split
    · rw [List.length_take]
      exact Nat.min_le_left _ _
    · exact Nat.le_refl _
  · rw [if_neg hone, if_neg hone]
    by_cases htop : c.options.decodeLogitsMode = 2 ∧ p.phase = 1 ∧ p.batchSize = 1
    · rw [if_pos htop, if_pos htop]
      have hlen := packTopKLogits_length (c.worker i).ofUint
        ((c.worker i).engine.logitsPipe st.engine (c.worker i).logitsPipeRow)
        (min p.topKCount.toNat (c.worker i).logitsPipeRow)
      have hmin : min p.topKCount.toNat (c.worker i).logitsPipeRow ≤ p.topKCount.toNat :=
        Nat.min_le_left _ _
      omega
    · rw [if_neg htop, if_neg htop]
      exact Nat.le_of_eq ((c.worker i).engine.logitsPipe_length _ _)

/-- A send of a worker succeeds. -/
theorem Ready.send [Add F] [Sub F]
    (h : Ready p st) (hpl : st.pipeline = some pl) (hend : ChainEnd c i pl) {j : ℕ}
    (hj : j < c.ppSize.toNat) (hne : j ≠ i) (data : List F) (dtype : NnFloatType) (bypass : Bool) :
    ∃ frame pl', st.send (c.worker i) j data dtype
        (if bypass then pipelineFlagStageSkipBypass else 0) =
          .ok ({ st with pipeline := some pl' }, (getSocketIndexForNode i j, frame)) ∧
      Sends c.codec pl (getSocketIndexForNode i j) frame pl' ∧
      Carries p.position data.length bypass frame := by
  obtain ⟨frame, pl', hsend, hs, hc⟩ :=
    hend.sendActivation hj hne c.codec p.position data dtype bypass
  refine ⟨frame, pl', ?_, hs, hc⟩
  have hsend' : pl.sendActivation (c.worker i).codec j st.controlPacket.position 0
      (c.worker i).nodeConfig.tpRank data dtype (if bypass then pipelineFlagStageSkipBypass else 0) =
        .ok (getSocketIndexForNode i j, frame, pl') := by
    rw [h.packet]
    exact hsend
  unfold WorkerState.send
  rw [hpl]
  dsimp only
  rw [hsend']
  rfl

/-- What a worker sends once it has forwarded, or has been skipped. -/
theorem Ready.afterForward [Add F] [Sub F] [LE F] [DecidableLE F] [LT F] [DecidableLT F]
    (hi : 0 < i) (hlt : i < c.ppSize.toNat) (h : Ready p st)
    (hp : PacketOk c p) (hpl : st.pipeline = some pl) (hend : ChainEnd c i pl) {accepted : Bool}
    (hskip : st.skipForwardThisToken =
      (decide (i = c.options.stageSkipTarget.toNat) && acts p && accepted)) :
    ∃ st' fs pl', st.afterForward (c.worker i) = .ok (st', fs) ∧ st'.isFinished = false ∧
      st'.pipeline = some pl' ∧
      (st'.lastSkipDecision = some true → st.decodeSingle = true) ∧
      Emits c.codec i pl pl' (fs.map fun f => (connectedPeer i f.1, Message.activation f.2)) ∧
      ∀ a, (i = c.options.stageSkipTarget.toNat → a = accepted) →
        (i + 1 = c.options.stageSkipTarget.toNat → acts p = true →
          a = decide (st'.lastSkipDecision = some true)) →
        RoundOk c p a i (fs.map fun f => (connectedPeer i f.1, Message.activation f.2)) := by
  obtain ⟨hq, hqskip, hqone⟩ := h.evaluate (c.worker i)
  have hqpl : (st.evaluateStageSkipDecision (c.worker i)).pipeline = some pl :=
    evaluateStageSkipDecision_pipeline.trans hpl
  unfold WorkerState.afterForward
  rw [hpl]
  dsimp only
  generalize st.evaluateStageSkipDecision (c.worker i) = q at hq hqskip hqone hqpl ⊢
  have htlt := c.target_lt
  have htpos := c.target_pos
  have hrow : ((c.worker i).engine.xPipe q.engine ((c.worker i).xPipeRow * q.batchSize.toNat)).length =
      c.xPipeRow * p.batchSize.toNat := by
    rw [(c.worker i).engine.xPipe_length, hq.batch]
    rfl
  generalize hdata : (c.worker i).engine.xPipe q.engine
    ((c.worker i).xPipeRow * q.batchSize.toNat) = data at hrow ⊢
  rw [hq.executeSingle, isStageSkipTargetStage_worker hq hp, isStageSkipDecisionStage_worker hq hp, hqskip,
    hskip, hq.packet, hp.target, target_add_one]
  have hsendAct : pl.shouldSendActivations = decide (i + 1 < c.ppSize.toNat) := by
    unfold NnPipelineCommunicator.shouldSendActivations
    rw [hend.ppRank, hend.topology]
    exact decide_eq_decide.mpr (by simp only [StageChain.topology]; omega)
  rw [hsendAct]
  by_cases hsk : (acts p && decide (i = c.options.stageSkipTarget.toNat) &&
      (decide (i = c.options.stageSkipTarget.toNat) && acts p && accepted)) = true
  · rw [if_pos hsk]
    simp only [Bool.and_eq_true, decide_eq_true_eq] at hsk
    refine ⟨q, [], pl, rfl, hq.running, hqpl, hqone, Emits.nil c.codec pl, fun a ha _ => ?_⟩
    rw [ha hsk.1.2, hsk.2.2]
    exact roundOk_skip hsk.1.2 hsk.1.1
  · rw [if_neg hsk]
    have hnoskip : ¬(i = c.options.stageSkipTarget.toNat ∧ acts p = true ∧ accepted = true) := by
      intro hall
      apply hsk
      simp [hall.1, hall.2.1, hall.2.2]
    by_cases hnext : i + 1 < c.ppSize.toNat
    · rw [if_pos (by simpa using hnext)]
      by_cases hby : (acts p && decide (i + 1 = c.options.stageSkipTarget.toNat) &&
          decide (q.lastSkipDecision = some true)) = true
      · rw [if_pos hby]
        simp only [Bool.and_eq_true, decide_eq_true_eq] at hby
        obtain ⟨⟨hacts, hdec⟩, hacc⟩ := hby
        obtain ⟨marker, pl₁, hsend₁, hs₁, hc₁⟩ := hq.send hqpl hend hnext (Nat.succ_ne_self i)
          ([] : List F) .f32 true
        have hnext₂ : i + 2 < c.ppSize.toNat := by omega
        have hne₂ : i + 2 ≠ i := by omega
        have hq₁ : Ready p ({ q with pipeline := some pl₁ } : WorkerState F E) :=
          ⟨hq.running, hq.packet, hq.batch, hq.phase⟩
        obtain ⟨frame, pl₂, hsend₂, hs₂, hc₂⟩ := hq₁.send rfl (hend.of_sameNode hs₁.node) hnext₂ hne₂
          data q.pipelineActivationType true
        have htwo : c.options.stageSkipTarget.toNat + 1 = i + 2 := by omega
        rw [htwo, ← hdec]
        rw [if_pos rfl] at hsend₁ hsend₂
        rw [hsend₁]
        dsimp only [bind, Except.bind]
        rw [hsend₂]
        have hpeers : ([(getSocketIndexForNode i (i + 1), marker),
            (getSocketIndexForNode i (i + 2), frame)].map fun f =>
              (connectedPeer i f.1, (Message.activation f.2 : Message F))) =
            [(i + 1, .activation marker), (i + 2, .activation frame)] := by
          simp only [List.map_cons, List.map_nil]
          rw [connectedPeer_getSocketIndexForNode (Nat.succ_ne_self i),
            connectedPeer_getSocketIndexForNode hne₂]
        refine ⟨_, _, pl₂, rfl, hq.running, rfl, fun _ => hqone hacc, ?_, fun a _ ha => ?_⟩
        · rw [hpeers]
          have hlast := Emits.cons hne₂ hs₂ (Emits.nil c.codec pl₂) rfl
          exact Emits.cons (Nat.succ_ne_self i) hs₁ hlast (toParty_cons_ne (by omega) _ _)
        · rw [hpeers, ha rfl hacts]
          have hdecided : decide (q.lastSkipDecision = some true) = true := by simpa using hacc
          change RoundOk c p (decide (q.lastSkipDecision = some true)) i _
          rw [hdecided]
          refine roundOk_bypass hi hdec hacts ⟨hc₁.position, hc₁.fits _ (Nat.zero_le _), fun _ _ => ?_⟩
            ⟨hc₂.position, hc₂.fits _ (Nat.le_of_eq hrow), fun _ he => absurd he (by omega)⟩
          exact ⟨fun _ => rfl, fun _ => ⟨hc₁.flag.mpr rfl, hc₁.empty.mpr rfl⟩⟩
      · rw [if_neg hby]
        obtain ⟨frame, pl₁, hsend, hs, hc⟩ := hq.send hqpl hend hnext (Nat.succ_ne_self i)
          data q.pipelineActivationType false
        rw [if_neg Bool.false_ne_true] at hsend
        rw [hend.ppRank, hsend]
        have hpeers : ([(getSocketIndexForNode i (i + 1), frame)].map fun f =>
            (connectedPeer i f.1, (Message.activation f.2 : Message F))) =
              [(i + 1, .activation frame)] := by
          rw [List.map_singleton, connectedPeer_getSocketIndexForNode (Nat.succ_ne_self i)]
        refine ⟨_, _, pl₁, rfl, hq.running, rfl, hqone, ?_, fun a ha hd => ?_⟩
        · rw [hpeers]
          exact Emits.cons (Nat.succ_ne_self i) hs (Emits.nil c.codec pl₁) rfl
        · rw [hpeers]
          have hnodec : ¬(i + 1 = c.options.stageSkipTarget.toNat ∧ acts p = true ∧ a = true) := by
            intro hall
            have hacc := hd hall.1 hall.2.1
            rw [hall.2.2] at hacc
            apply hby
            rw [hall.2.1, decide_eq_true hall.1]
            exact hacc.symm
          refine roundOk_next hi hnext ⟨hc.position, hc.fits _ (Nat.le_of_eq hrow), fun hacts he => ?_⟩
            hnodec fun hall => hnoskip ⟨hall.1, hall.2.1, ha hall.1 ▸ hall.2.2⟩
          constructor
          · intro hm
            have hno := hc.flag.mp hm.1
            cases hno
          · intro hat
            exact absurd ⟨he, hacts, hat⟩ hnodec
    · rw [if_neg (by simpa using hnext)]
      have hlast : i + 1 = c.ppSize.toNat := by omega
      have hnode : 0 < (c.worker i).nodeConfig.ppRank ∧ (c.worker i).nodeConfig.spRank = 0 ∧
          (c.worker i).nodeConfig.tpRank = 0 := ⟨hi, rfl, rfl⟩
      rw [if_pos hnode]
      have hzero : 0 < c.ppSize.toNat := by omega
      obtain ⟨frame, pl₁, hsend, hs, hc⟩ := hq.send hqpl hend hzero (Nat.ne_of_lt hi)
        (q.logitsPayload (c.worker i)) .f32 false
      rw [if_neg Bool.false_ne_true] at hsend
      rw [hsend]
      have hpeers : ([(getSocketIndexForNode i 0, frame)].map fun f =>
          (connectedPeer i f.1, (Message.activation f.2 : Message F))) = [(0, .activation frame)] := by
        rw [List.map_singleton, connectedPeer_getSocketIndexForNode (Nat.ne_of_lt hi)]
      refine ⟨_, _, pl₁, rfl, hq.running, rfl, hqone, ?_, fun a _ _ => ?_⟩
      · rw [hpeers]
        exact Emits.cons (Nat.ne_of_lt hi) hs (Emits.nil c.codec pl₁) rfl
      · rw [hpeers]
        exact roundOk_logits hi hlast (hc.fits _ (logitsPayload_length hq hp))

/-- A stage of one node has no work of its own. -/
theorem activeWork_worker (p : LlmControlPacket F) :
    activeWork (c.worker i) p = (p.position, p.batchSize) := by
  have hone : ¬(1 < (i + 1 - i) / (i + 1 - i) ∧ (0 : ℕ) < maxSpGroups ∧
      0 < (p.spGroups.getD 0 (0, 0)).2) := by
    intro h
    have hsub : i + 1 - i = 1 := by omega
    rw [hsub] at h
    exact absurd h.1 (by decide)
  exact if_neg hone

/-- A worker accepts the packets of the root. -/
theorem tryReadControlPacket_ok (st : WorkerState F E) (i : ℕ) (hp : PacketOk c p) :
    ∃ s, st.tryReadControlPacket (c.worker i) p = .ok s ∧ s.controlPacket = p ∧
      s.batchSize = p.batchSize ∧ s.decodePhase = decide (p.phase = 1) ∧
      s.isFinished = st.isFinished ∧ s.pipeline = st.pipeline.map (packetTransport p) := by
  have hz : ¬p.batchSize = 0 := by
    intro he
    have hpos := hp.batch_pos
    rw [he] at hpos
    exact absurd hpos (by decide)
  have hmax : ¬(c.worker i).maxBatchSize < p.batchSize := Nat.not_lt.mpr hp.batch_le
  have hcontrol : ¬maxControlBatchPos < p.batchSize := Nat.not_lt.mpr hp.batch_max
  have henter : (({ st with controlPacket := p } : WorkerState F E).enterPhase p.phase).controlPacket =
        p ∧
      (({ st with controlPacket := p } : WorkerState F E).enterPhase p.phase).decodePhase =
        decide (p.phase = 1) ∧
      (({ st with controlPacket := p } : WorkerState F E).enterPhase p.phase).isFinished =
        st.isFinished ∧
      (({ st with controlPacket := p } : WorkerState F E).enterPhase p.phase).pipeline =
        st.pipeline := by
    rcases enterPhase_cases (s := { st with controlPacket := p }) p.phase with ⟨hd, he⟩ | he
    · rw [he]
      exact ⟨rfl, hd, rfl, rfl⟩
    · rw [he]
      exact ⟨rfl, rfl, rfl, rfl⟩
  unfold tryReadControlPacket
  dsimp only
  rw [if_neg hz, if_neg hmax, activeWork_worker]
  dsimp only
  rw [if_neg hz, if_neg hmax, if_neg hcontrol]
  generalize ({ st with controlPacket := p } : WorkerState F E).enterPhase p.phase = q at henter ⊢
  obtain ⟨hpacket, hphase, hfin, hpipe⟩ := henter
  cases NnFloatType.ofUint p.activationType <;> split <;>
    exact ⟨_, rfl, hpacket, rfl, hphase, hfin, congrArg (Option.map (packetTransport p)) hpipe⟩

/-- Taking a packet of the root makes a worker ready for its activation. -/
theorem takeControl_ok {n : StageNode F E} (hrun : n.state.isFinished = false)
    (hpl : n.state.pipeline = some pl) (hp : PacketOk c p) :
    ∃ st pl', c.takeControl i n (.control p) = { n with state := st, phase := .ready } ∧
      Ready p st ∧ st.skipForwardThisToken = false ∧ st.pipeline = some pl' ∧ SameNode pl pl' ∧
      pl'.prevSendBySocket = pl.prevSendBySocket ∧ pl'.prevRecvBySocket = pl.prevRecvBySocket := by
  obtain ⟨s, hs, hpacket, hbatch, hphase, hfin, hpipe⟩ :=
    tryReadControlPacket_ok n.state i hp
  have hnofin : s.isFinished = false := hfin.trans hrun
  refine ⟨s.beginForward, packetTransport p pl, ?_, ⟨hnofin, hpacket, hbatch, hphase⟩, rfl, ?_,
    ⟨rfl, rfl, rfl, rfl, rfl⟩, rfl, rfl⟩
  · unfold StageChain.takeControl
    dsimp only
    rw [hs]
    dsimp only
    rw [hnofin]
    exact if_neg Bool.false_ne_true
  · change s.pipeline = _
    rw [hpipe, hpl]
    rfl

/-- After its activation has come a worker goes on, and is skipped exactly when
it is the target and the skip was decided. -/
theorem Ready.afterRecv (h : Ready p st) (hnoskip : st.skipForwardThisToken = false)
    (hp : PacketOk c p) {accepted : Bool} {frame : Frame} (hf : FrameFor c p accepted i frame) :
    ∃ s, st.afterRecv (c.worker i) frame.header = .ok s ∧ Ready p s ∧ s.pipeline = st.pipeline ∧
      s.skipForwardThisToken =
        (decide (i = c.options.stageSkipTarget.toNat) && acts p && accepted) := by
  unfold WorkerState.afterRecv
  rw [h.executeSingle, isStageSkipTargetStage_worker h hp]
  by_cases hmark : (acts p && decide (i = c.options.stageSkipTarget.toNat) &&
      decide (frame.header.flags &&& pipelineFlagStageSkipBypass ≠ 0) &&
        decide (frame.header.payloadBytes = 0)) = true
  · rw [if_pos hmark]
    simp only [Bool.and_eq_true, decide_eq_true_eq] at hmark
    obtain ⟨⟨⟨hacts, htarget⟩, hflag⟩, hempty⟩ := hmark
    refine ⟨_, rfl, ⟨h.running, h.packet, h.batch, h.phase⟩, rfl, ?_⟩
    rw [hacts, (hf.marker hacts htarget).mp ⟨hflag, hempty⟩, decide_eq_true htarget]
    rfl
  · rw [if_neg hmark]
    have hpos : ¬frame.header.seqPosition ≠ st.controlPacket.position := by
      rw [h.packet]
      exact not_not_intro hf.position
    have hskip : (decide (i = c.options.stageSkipTarget.toNat) && acts p && accepted) = false := by
      by_contra hall
      simp only [Bool.not_eq_false, Bool.and_eq_true, decide_eq_true_eq] at hall
      obtain ⟨⟨htarget, hacts⟩, hacc⟩ := hall
      have hm := (hf.marker hacts htarget).mpr hacc
      apply hmark
      rw [hacts, decide_eq_true htarget, decide_eq_true hm.1, decide_eq_true hm.2]
      rfl
    rw [if_neg hpos, hskip]
    split
    · exact ⟨_, rfl, ⟨h.running, h.packet, h.batch, h.phase⟩, rfl, hnoskip⟩
    · exact ⟨_, rfl, h, rfl, hnoskip⟩

/-- A worker that takes the frame meant for it ends its round. -/
theorem takeActivation_ok [Add F] [Sub F] [LE F] [DecidableLE F] [LT F] [DecidableLT F]
    {n : StageNode F E} (hi : 0 < i) (hlt : i < c.ppSize.toNat)
    (h : Ready p n.state) (hnoskip : n.state.skipForwardThisToken = false) (hp : PacketOk c p)
    (hpl : n.state.pipeline = some pl) (hend : ChainEnd c i pl) {accepted : Bool} {frame : Frame}
    (hf : FrameFor c p accepted i frame) (source : ℕ) {socket : ℕ} (polled : Bool)
    (hacc : Accepted c.codec frame (pl.prevRecvBySocket socket).length) :
    ∃ st pl₁ pl' sent,
      c.takeActivation i n source socket polled (.activation frame) =
        (⟨st, .idle, n.log ++ [⟨source, frame,
            !(decide (i = c.options.stageSkipTarget.toNat) && acts p && accepted),
            decide (st.lastSkipDecision = some true), sent⟩],
          n.reads ++ [(source, frame)]⟩, sent) ∧
      st.isFinished = false ∧ st.pipeline = some pl' ∧
      (st.lastSkipDecision = some true → p.phase = 1 ∧ p.batchSize = 1) ∧
      Receives pl socket frame pl₁ ∧ Emits c.codec i pl₁ pl' sent ∧
      ∀ a, (i = c.options.stageSkipTarget.toNat → a = accepted) →
        (i + 1 = c.options.stageSkipTarget.toNat → acts p = true →
          a = decide (st.lastSkipDecision = some true)) → RoundOk c p a i sent := by
  obtain ⟨values, pl₁, haccept, hreceives⟩ :=
    hacc pl socket (c.xPipeRow * p.batchSize.toNat) rfl hf.fits
  have hrecv : n.state.recvActivation (c.worker i) socket frame = some { n.state with
      engine := (c.worker i).engine.writeXPipe n.state.engine values, pipeline := some pl₁ } := by
    unfold recvActivation
    rw [hpl]
    dsimp only
    have haccept' : pl.acceptFrame (c.worker i).codec socket frame
        ((c.worker i).xPipeRow * n.state.batchSize.toNat) = some (values, pl₁) := by
      rw [h.batch]
      exact haccept
    rw [haccept']
    rfl
  have hready : Ready p ({ n.state with
      engine := (c.worker i).engine.writeXPipe n.state.engine values, pipeline := some pl₁ } :
        WorkerState F E) := ⟨h.running, h.packet, h.batch, h.phase⟩
  obtain ⟨s, hafter, hs, hspl, hskip⟩ := hready.afterRecv hnoskip hp hf
  obtain ⟨engine, hforward⟩ := forward_cases (w := c.worker i) (s := s)
  have hfready : Ready p (s.forward (c.worker i)) := by
    rw [hforward]
    exact ⟨hs.running, hs.packet, hs.batch, hs.phase⟩
  have hfpl : (s.forward (c.worker i)).pipeline = some pl₁ := by
    rw [hforward]
    exact hspl
  have hfskip : (s.forward (c.worker i)).skipForwardThisToken =
      (decide (i = c.options.stageSkipTarget.toNat) && acts p && accepted) := by
    rw [hforward]
    exact hskip
  obtain ⟨st, fs, pl', hsend, hrun, hpl', hone, hemits, hround⟩ :=
    hfready.afterForward hi hlt hp hfpl (hend.of_sameNode hreceives.node) hfskip
  refine ⟨st, pl₁, pl', _, ?_, hrun, hpl', fun hdec => ?_, hreceives, hemits, hround⟩
  · unfold StageChain.takeActivation
    dsimp only
    rw [hrecv]
    dsimp only
    rw [hafter]
    dsimp only
    rw [hsend]
    dsimp only
    rw [hskip]
  · have hsingle := hone hdec
    rw [hfready.decodeSingle] at hsingle
    simpa using hsingle

/-- Sending one message to many gives each as many as it is named. -/
theorem toParty_map_const (j : ℕ) (order : List ℕ) (m : Message F) :
    toParty j (order.map fun i => (i, m)) = List.replicate (order.count j) m := by
  induction order with
  | nil => rfl
  | cons i order ih =>
    rw [List.map_cons]
    by_cases hij : i = j
    · rw [hij, toParty_cons_self, ih, List.count_cons_self, List.replicate_succ]
    · rw [toParty_cons_ne hij, ih, List.count_cons_of_ne hij]

theorem count_workers {order : List ℕ} (h : order.Perm c.workers) (j : ℕ) :
    order.count j = if 0 < j ∧ j < c.ppSize.toNat then 1 else 0 := by
  have hnodup : c.workers.Nodup := List.nodup_range'
  have hmem : j ∈ c.workers ↔ 0 < j ∧ j < c.ppSize.toNat := by
    rw [StageChain.workers, List.mem_range'_1]
    have hlt := c.target_lt
    omega
  rw [h.count_eq, hnodup.count]
  simp only [hmem]

/-- The root opens a round with a control packet for every worker and its
activation for the next stage. -/
theorem roundOk_root {p : LlmControlPacket F} {accepted : Bool}
    (hacc : c.options.stageSkipTarget.toNat = 1 → accepted = false) {order : List ℕ}
    (horder : order.Perm c.workers) {frame : Frame} (hf : FrameFor c p accepted 1 frame) :
    RoundOk c p accepted 0
      ((order.map fun i => (i, Message.control p)) ++ [(1, .activation frame)]) := by
  have hpos := c.target_pos
  have hlt := c.target_lt
  have hsender (j : ℕ) (hj : 0 < j) : 0 = sender c p accepted j ↔ j = 1 := by
    unfold sender
    split
    · rename_i hskip
      simp only [Bool.and_eq_true, decide_eq_true_eq] at hskip
      have hne : c.options.stageSkipTarget.toNat ≠ 1 := by
        intro he
        have hno := hacc he
        rw [hskip.1.2] at hno
        cases hno
      omega
    · omega
  have hcontrol (j : ℕ) (hj : 0 < j) (hjp : j < c.ppSize.toNat) :
      toParty j (order.map fun i => (i, Message.control p)) = controls 0 p := by
    rw [toParty_map_const, count_workers horder, if_pos ⟨hj, hjp⟩]
    rfl
  have hnone (j : ℕ) (hj : j = 0 ∨ c.ppSize.toNat ≤ j) :
      toParty j ((order.map fun i => (i, Message.control p)) ++ [(1, .activation frame)]) = [] := by
    rw [toParty_append, toParty_map_const, count_workers horder, if_neg (by omega),
      toParty_cons_ne (by omega)]
    rfl
  refine ⟨fun j hj hjp hs => ⟨frame, ?_, (hsender j hj).mp hs ▸ hf⟩, fun j hj hjp hs => ?_,
    fun hlast => absurd hlast (by omega), fun _ => hnone 0 (.inl rfl), fun j hj => hnone j (.inr hj)⟩
  · rw [toParty_append, hcontrol j hj hjp, (hsender j hj).mp hs, toParty_cons_self, toParty_nil]
  · have hne : 1 ≠ j := fun he => hs ((hsender j hj).mpr he.symm)
    rw [toParty_append, hcontrol j hj hjp, toParty_cons_ne hne, toParty_nil, List.append_nil]

/-- The root starts a forward without an exception. -/
theorem forward_ok [Add F] [Sub F]
    {r : RootNode F E} (hend : ChainEnd c 0 r.pipeline) (call : ForwardCall E)
    {order : List ℕ} (horder : order.Perm c.workers) :
    ∃ r' sent, c.forward r call order = .ok (r', sent) ∧ r'.phase = .ready ∧
      r'.calls = r.calls ++ [⟨c.options.controlPacket call, sent⟩] ∧ r'.results = r.results ∧
      Emits c.codec 0 r.pipeline r'.pipeline sent ∧
      ∀ a, (c.options.stageSkipTarget.toNat = 1 → a = false) →
        RoundOk c (c.options.controlPacket call) a 0 sent := by
  have hlt := c.target_lt
  have hpos := c.target_pos
  have hone : 1 < c.ppSize.toNat := by omega
  have hsend : r.pipeline.shouldSendActivations = true := by
    unfold NnPipelineCommunicator.shouldSendActivations
    rw [hend.ppRank, hend.topology]
    exact decide_eq_true (by simp only [StageChain.topology]; omega)
  have htarget : r.pipeline.getTargetPpRank = .ok 1 := by
    unfold NnPipelineCommunicator.getTargetPpRank
    rw [hsend, hend.ppRank]
    rfl
  generalize hengine : (c.engine 0).forward call.decodePhase call.batchSize (call.fill r.engine) =
    engine
  generalize hp : c.options.controlPacket call = p
  generalize hdata : (c.engine 0).xPipe engine (c.xPipeRow * p.batchSize.toNat) = data
  have hrow : data.length = c.xPipeRow * p.batchSize.toNat := by
    rw [← hdata]
    exact (c.engine 0).xPipe_length _ _
  obtain ⟨frame, pl', hact, hs, hc⟩ := hend.sendActivation hone Nat.one_ne_zero c.codec p.position
    data c.options.pipelineActivationType false
  rw [if_neg Bool.false_ne_true] at hact
  have hpeer : connectedPeer 0 (getSocketIndexForNode 0 1) = 1 :=
    connectedPeer_getSocketIndexForNode Nat.one_ne_zero
  have hforward : c.forward r call order =
      .ok ({ r with
        engine, pipeline := pl', phase := .ready
        calls := r.calls ++
          [⟨p, (order.map fun i => (i, Message.control p)) ++ [(1, .activation frame)]⟩] },
        (order.map fun i => (i, Message.control p)) ++ [(1, .activation frame)]) := by
    unfold StageChain.forward
    dsimp only
    rw [if_pos hsend, htarget, hengine, hp, hdata]
    dsimp only [bind, Except.bind]
    rw [hact]
    dsimp only
    rw [hpeer]
    rfl
  refine ⟨_, _, hforward, rfl, rfl, rfl, ?_, fun a ha => ?_⟩
  · have hframes (j : ℕ) : frames (toParty j
        ((order.map fun i => (i, Message.control p)) ++ [(1, Message.activation frame)])) =
          frames (toParty j [(1, (Message.activation frame : Message F))]) := by
      have hnone : frames (List.replicate (order.count j) (Message.control p)) = [] := by
        induction order.count j with
        | zero => rfl
        | succ n ih => exact ih
      rw [toParty_append, toParty_map_const, frames_append, hnone, List.nil_append]
    have hsingle := Emits.cons Nat.one_ne_zero hs (Emits.nil c.codec pl') (toParty_nil 1)
    refine ⟨hsingle.node, hsingle.received, fun j hj => ?_⟩
    rw [hframes]
    exact hsingle.each j hj
  · refine roundOk_root ha horder ⟨hc.position, hc.fits _ (Nat.le_of_eq hrow), fun _ he => ?_⟩
    rw [ha he.symm]
    constructor
    · intro hm
      have hno := hc.flag.mp hm.1
      cases hno
    · intro hno
      cases hno

/-- The root takes the logits of its last forward. -/
theorem takeLogits_ok [Add F] {r : RootNode F E} {socket : ℕ} {frame : Frame} {call : RootCall F}
    (hcall : r.calls.getLast? = some call) (hfits : FitsBuffer frame (c.logitsElems call.packet))
    (hacc : Accepted c.codec frame (r.pipeline.prevRecvBySocket socket).length) :
    ∃ logits pl', c.takeLogits r socket (.activation frame) =
        { r with pipeline := pl', logits, phase := .idle, results := r.results ++ [frame] } ∧
      Receives r.pipeline socket frame pl' := by
  obtain ⟨logits, pl', haccept, hreceives⟩ := hacc r.pipeline socket _ rfl hfits
  refine ⟨logits, pl', ?_, hreceives⟩
  unfold StageChain.takeLogits
  rw [hcall]
  dsimp only
  rw [haccept]

end LayerSkip.StageRound
