import LayerSkip.PipelineLink
import LayerSkip.WorkerRun

/-!
# Two ends of one pipeline link over any history

One node sends activations on a link and another receives them, in any order of
sends and receives that the link allows. The transport options of either end may
change at any time. Every frame is accepted, and after each frame both ends hold
a base of the same length.
-/

namespace LayerSkip.DeltaLink

open NnTopology NnNetwork NnPipeline PipelineLink WorkerRun

section Histories

variable {F : Type} [Add F] [Sub F]

/-- Two communicators joined by a link that has not been used. -/
structure Ends (F : Type) where
  /-- The sending node. -/
  sender : NnPipelineCommunicator F
  /-- The receiving node. -/
  receiver : NnPipelineCommunicator F
  /-- Stage of the receiving node. -/
  target : ℕ
  /-- Stage of the sending node. -/
  source : ℕ
  /-- Socket of the link at the sending node. -/
  sendSocket : ℕ
  /-- Socket of the link at the receiving node. -/
  recvSocket : ℕ
  /-- The target is a stage. -/
  target_lt : target < sender.topology.ppSize
  /-- Where the sending node writes. -/
  send_ok : sender.getPipelineSocketIndex target = .ok sendSocket
  /-- The source is a stage. -/
  source_lt : source < receiver.topology.ppSize
  /-- Where the receiving node reads. -/
  recv_ok : receiver.getPipelineSocketIndex source = .ok recvSocket
  /-- Nothing has been sent. -/
  send_fresh : sender.prevSendBySocket sendSocket = []
  /-- Nothing has been received. -/
  recv_fresh : receiver.prevRecvBySocket recvSocket = []

/-- A frame on its way, with the activation it was made from. -/
structure Sent (F : Type) where
  /-- The activation. -/
  data : List F
  /-- The frame. -/
  frame : Frame

/-- The two ends, what is between them and a record of what went over the link. -/
structure Link (F : Type) where
  /-- The sending node. -/
  sender : NnPipelineCommunicator F
  /-- The receiving node. -/
  receiver : NnPipelineCommunicator F
  /-- Frames on their way. -/
  queue : List (Sent F)
  /-- Every activation sent. -/
  sent : List (Sent F)
  /-- What was stored of every activation received. -/
  received : List (List F)
  /-- Length of the sender's base after each frame sent. -/
  sendBases : List ℕ
  /-- Length of the receiver's base after each frame received. -/
  recvBases : List ℕ
  /-- A frame was rejected. -/
  rejected : Bool

/-- What can happen at a link. -/
inductive Event (F : Type)
  /-- An activation or, without values, a marker is sent. -/
  | send (seqPosition batchIndex : NnUint) (sliceId : ℕ) (data : List F) (dtype : NnFloatType)
      (bypass : Bool)
  /-- The next frame is received into a buffer of so many floats. -/
  | recv (bufferElems : ℕ)
  /-- The sender's options change. -/
  | senderOptions (deltaEnabled : Bool) (deltaMinBytes chunkBytes : ℕ)
  /-- The receiver's options change. -/
  | receiverOptions (deltaEnabled : Bool) (deltaMinBytes chunkBytes : ℕ)

/-- The caller's flags of a frame. -/
def extraFlags (bypass : Bool) : NnUint := if bypass then pipelineFlagStageSkipBypass else 0

theorem extraFlags_cases (bypass : Bool) :
    extraFlags bypass = 0 ∨ extraFlags bypass = pipelineFlagStageSkipBypass := by
  cases bypass with
  | false => exact .inl rfl
  | true => exact .inr rfl

namespace Link

/-- A link before its first frame. -/
def start (e : Ends F) : Link F := ⟨e.sender, e.receiver, [], [], [], [], [], false⟩

variable (codec : FloatCodec F) (e : Ends F)

/-- One event. A receive waits for a frame, and its buffer has room for the
activation. -/
def step (s : Link F) : Event F → Option (Link F)
  | .send seqPosition batchIndex sliceId data dtype bypass =>
    match s.sender.sendActivation codec e.target seqPosition batchIndex sliceId data dtype
        (extraFlags bypass) with
    | .error _ => none
    | .ok (socket, frame, sender) =>
      some { s with
        sender
        queue := s.queue ++ [⟨data, frame⟩]
        sent := s.sent ++ [⟨data, frame⟩]
        sendBases := s.sendBases ++ [(sender.prevSendBySocket socket).length] }
  | .recv bufferElems =>
    match s.queue, s.receiver.recvSocket e.source with
    | x :: queue, .ok socket =>
      if x.data.length ≤ bufferElems then
        match s.receiver.acceptFrame codec socket x.frame bufferElems with
        | none => some { s with queue, rejected := true }
        | some (values, receiver) =>
          some { s with
            receiver
            queue
            received := s.received ++ [values]
            recvBases := s.recvBases ++ [(receiver.prevRecvBySocket socket).length] }
      else none
    | _, _ => none
  | .senderOptions deltaEnabled deltaMinBytes chunkBytes =>
    some { s with
      sender := s.sender.setTransportOptions deltaEnabled deltaMinBytes chunkBytes }
  | .receiverOptions deltaEnabled deltaMinBytes chunkBytes =>
    some { s with
      receiver := s.receiver.setTransportOptions deltaEnabled deltaMinBytes chunkBytes }

/-- A history of events. -/
def steps (s : Link F) : List (Event F) → Option (Link F)
  | [] => some s
  | event :: events => (s.step codec e event).bind fun s => s.steps events

end Link

variable {codec : FloatCodec F} {e : Ends F} {s s' : Link F}

omit [Add F] [Sub F] in
/-- Another state of a node has the sockets of that node. -/
theorem getPipelineSocketIndex_of_sameNode {c c' : NnPipelineCommunicator F} (h : SameNode c c')
    (targetPpRank : ℕ) :
    c'.getPipelineSocketIndex targetPpRank = c.getPipelineSocketIndex targetPpRank := by
  unfold NnPipelineCommunicator.getPipelineSocketIndex
  rw [h.topology, h.nodeIndex, h.spRank, h.tpRank]

omit [Add F] in
theorem sendActivation_of_sameNode (h : SameNode e.sender s.sender)
    (seqPosition batchIndex : NnUint) (sliceId : ℕ) (data : List F) (dtype : NnFloatType)
    (flags : NnUint) :
    s.sender.sendActivation codec e.target seqPosition batchIndex sliceId data dtype flags =
      .ok (e.sendSocket,
        s.sender.makeFrame codec e.sendSocket seqPosition batchIndex sliceId data dtype flags,
        s.sender.noteSent e.sendSocket data) := by
  have hlt : ¬s.sender.topology.ppSize ≤ e.target := by
    rw [h.topology]
    exact Nat.not_le.mpr e.target_lt
  unfold NnPipelineCommunicator.sendActivation
  rw [if_neg hlt, getPipelineSocketIndex_of_sameNode h, e.send_ok]
  rfl

omit [Add F] [Sub F] in
theorem recvSocket_of_sameNode (h : SameNode e.receiver s.receiver) :
    s.receiver.recvSocket e.source = .ok e.recvSocket := by
  have hlt : ¬s.receiver.topology.ppSize ≤ e.source := by
    rw [h.topology]
    exact Nat.not_le.mpr e.source_lt
  unfold NnPipelineCommunicator.recvSocket
  rw [if_neg hlt, getPipelineSocketIndex_of_sameNode h, e.recv_ok]

omit [Add F] [Sub F] in
/-- Options do not change the node. -/
theorem sameNode_setTransportOptions (c : NnPipelineCommunicator F) (deltaEnabled : Bool)
    (deltaMinBytes chunkBytes : ℕ) :
    SameNode c (c.setTransportOptions deltaEnabled deltaMinBytes chunkBytes) :=
  ⟨rfl, rfl, rfl, rfl, rfl⟩

/-- The frames on their way, each accepted in its turn, and the lengths of the
base after each. -/
def Carries (codec : FloatCodec F) : ℕ → List (Sent F) → List ℕ → ℕ → Prop
  | base, [], [], base' => base = base'
  | base, x :: queue, next :: bases, base' =>
    Accepted codec x.frame base ∧ FitsBuffer x.frame x.data.length ∧
      next = baseAfter x.frame base ∧ Carries codec next queue bases base'
  | _, _, _, _ => False

omit [Sub F] in
theorem Carries.append {base base' : ℕ} {queue : List (Sent F)} {bases : List ℕ}
    (h : Carries codec base queue bases base') {x : Sent F} (haccepted : Accepted codec x.frame base')
    (hfits : FitsBuffer x.frame x.data.length) :
    Carries codec base (queue ++ [x]) (bases ++ [baseAfter x.frame base'])
      (baseAfter x.frame base') := by
  induction queue generalizing base bases with
  | nil =>
    cases bases with
    | nil =>
      have hbase : base = base' := h
      rw [hbase]
      exact ⟨haccepted, hfits, rfl, rfl⟩
    | cons next bases => exact h.elim
  | cons y queue ih =>
    cases bases with
    | nil => exact h.elim
    | cons next bases => exact ⟨h.1, h.2.1, h.2.2.1, ih h.2.2.2⟩

/-- What holds of a link at any time. -/
structure InStepInv (codec : FloatCodec F) (e : Ends F) (s : Link F) : Prop where
  accepted : s.rejected = false
  sender : SameNode e.sender s.sender
  receiver : SameNode e.receiver s.receiver
  bases : ∃ onWay, s.sendBases = s.recvBases ++ onWay ∧
    Carries codec (s.receiver.prevRecvBySocket e.recvSocket).length s.queue onWay
      (s.sender.prevSendBySocket e.sendSocket).length

omit [Sub F] in
theorem inStepInv_start : InStepInv codec e (Link.start e) := by
  refine ⟨rfl, SameNode.refl _, SameNode.refl _, [], rfl, ?_⟩
  change (e.receiver.prevRecvBySocket e.recvSocket).length =
    (e.sender.prevSendBySocket e.sendSocket).length
  rw [e.send_fresh, e.recv_fresh]

omit [Add F] in
/-- A frame fits a buffer as long as its activation. -/
theorem fitsBuffer_makeFrame (codec : FloatCodec F) (c : NnPipelineCommunicator F) (socket : ℕ)
    (seqPosition batchIndex : NnUint) (sliceId : ℕ) (data : List F) (dtype : NnFloatType)
    (flags : NnUint) :
    FitsBuffer (c.makeFrame codec socket seqPosition batchIndex sliceId data dtype flags)
      data.length := by
  by_cases hd : data.length = 0
  · exact .inl ((payloadBytes_makeFrame codec c socket seqPosition batchIndex sliceId data dtype
      flags).mpr hd)
  · exact .inr (Nat.le_of_eq (elems_makeFrame codec c socket seqPosition batchIndex sliceId hd dtype
      flags))

theorem InStepInv.send (h : InStepInv codec e s) {seqPosition batchIndex : NnUint} {sliceId : ℕ}
    {data : List F} {dtype : NnFloatType} {bypass : Bool}
    (hs : s.step codec e (.send seqPosition batchIndex sliceId data dtype bypass) = some s') :
    InStepInv codec e s' := by
  have hsend := sends_makeFrame codec s.sender e.sendSocket seqPosition batchIndex sliceId data dtype
    (extraFlags_cases bypass)
  have hfits := fitsBuffer_makeFrame codec s.sender e.sendSocket seqPosition batchIndex
    sliceId data dtype (extraFlags bypass)
  rw [Link.step, sendActivation_of_sameNode h.sender] at hs
  injection hs with hs
  obtain ⟨onWay, hbases, hcarries⟩ := h.bases
  rw [← hs]
  refine ⟨h.accepted, h.sender.trans hsend.node, h.receiver,
    onWay ++ [((s.sender.noteSent e.sendSocket data).prevSendBySocket e.sendSocket).length], ?_, ?_⟩
  · dsimp only
    rw [hbases, List.append_assoc]
  · dsimp only
    rw [hsend.base]
    exact hcarries.append hsend.accepted hfits

theorem InStepInv.recv (h : InStepInv codec e s) {bufferElems : ℕ}
    (hs : s.step codec e (.recv bufferElems) = some s') : InStepInv codec e s' := by
  obtain ⟨onWay, hbases, hcarries⟩ := h.bases
  rw [Link.step, recvSocket_of_sameNode h.receiver] at hs
  cases hqueue : s.queue with
  | nil =>
    rw [hqueue] at hs
    cases hs
  | cons x queue =>
    rw [hqueue] at hs hcarries
    cases onWay with
    | nil => exact hcarries.elim
    | cons next onWay =>
      obtain ⟨haccepted, hfits, hnext, hrest⟩ := hcarries
      dsimp only at hs
      split at hs
      · rename_i hroom
        have hbuffer : FitsBuffer x.frame bufferElems := by
          rcases hfits with hzero | hle
          · exact .inl hzero
          · exact .inr (Nat.le_trans hle hroom)
        obtain ⟨values, receiver, haccept, hreceives⟩ :=
          haccepted s.receiver e.recvSocket bufferElems rfl hbuffer
        rw [haccept] at hs
        injection hs with hs
        rw [← hs]
        refine ⟨h.accepted, h.sender, h.receiver.trans hreceives.node, onWay, ?_, ?_⟩
        · dsimp only
          rw [hbases, hreceives.base, hnext, List.append_assoc]
          rfl
        · dsimp only
          rw [hreceives.base, ← hnext]
          exact hrest
      · cases hs

theorem InStepInv.step (h : InStepInv codec e s) {event : Event F}
    (hs : s.step codec e event = some s') : InStepInv codec e s' := by
  cases event with
  | send seqPosition batchIndex sliceId data dtype bypass => exact h.send hs
  | recv bufferElems => exact h.recv hs
  | senderOptions deltaEnabled deltaMinBytes chunkBytes =>
    injection hs with hs
    rw [← hs]
    exact ⟨h.accepted, h.sender.trans (sameNode_setTransportOptions _ _ _ _), h.receiver, h.bases⟩
  | receiverOptions deltaEnabled deltaMinBytes chunkBytes =>
    injection hs with hs
    rw [← hs]
    exact ⟨h.accepted, h.sender, h.receiver.trans (sameNode_setTransportOptions _ _ _ _), h.bases⟩

theorem InStepInv.steps (h : InStepInv codec e s) {events : List (Event F)}
    (hs : s.steps codec e events = some s') : InStepInv codec e s' := by
  induction events generalizing s with
  | nil =>
    injection hs with hs
    rw [← hs]
    exact h
  | cons event events ih =>
    obtain ⟨next, hnext, hrest⟩ := Option.bind_eq_some_iff.mp hs
    exact ih (h.step hnext) hrest

/-- Over any history of a link no frame is rejected, and after each frame that
has been received both ends hold a base of the same length. -/
theorem bases_in_step {events : List (Event F)} (h : (Link.start e).steps codec e events = some s) :
    s.rejected = false ∧ s.recvBases.length ≤ s.sendBases.length ∧
      ∀ t received : ℕ, s.recvBases[t]? = some received → s.sendBases[t]? = some received := by
  have hinv := inStepInv_start.steps h
  obtain ⟨onWay, hbases, -⟩ := hinv.bases
  refine ⟨hinv.accepted, ?_, fun t received ht => ?_⟩
  · rw [hbases, List.length_append]
    exact Nat.le_add_right _ _
  · rw [hbases, List.getElem?_append_left (List.getElem?_eq_some_iff.mp ht).1]
    exact ht

end Histories

/-- The link from the first to the second of two stages. -/
def wordEnds : Ends NnUint where
  sender := .create ⟨2, 2, 1, 1⟩ ⟨0, 0, 0, 0, 0, 1, 0, 1⟩ true 0 0
  receiver := .create ⟨2, 2, 1, 1⟩ ⟨1, 1, 0, 0, 1, 2, 1, 2⟩ false 0 0
  target := 1
  source := 0
  sendSocket := 0
  recvSocket := 0
  target_lt := by decide
  send_ok := by decide
  source_lt := by decide
  recv_ok := by decide
  send_fresh := rfl
  recv_fresh := rfl

/-- A full frame, a marker, a difference and a shorter frame after a change of
options at both ends. -/
def wordEvents : List (Event NnUint) :=
  [.send 0 0 0 [1, 2] .f32 false, .send 1 0 0 [] .f32 true, .recv 2,
    .send 1 0 0 [3, 4] .f32 true, .senderOptions false 0 0, .recv 2, .receiverOptions true 8 1,
    .send 2 0 0 [5] .q80 false, .recv 2, .recv 4]

theorem bases_in_step_words :
    ∃ s, (Link.start wordEnds).steps wordCodec wordEnds wordEvents = some s ∧
      s.rejected = false ∧ s.recvBases = [2, 2, 2, 1] ∧ s.sendBases[3]? = some 1 := by
  have hends : ((Link.start wordEnds).steps wordCodec wordEnds wordEvents).map
      (fun s => s.recvBases) = some [2, 2, 2, 1] := by
    decide
  obtain ⟨s, hs, hbases⟩ := Option.map_eq_some_iff.mp hends
  obtain ⟨hok, -, hsame⟩ := bases_in_step hs
  refine ⟨s, hs, hok, hbases, hsame 3 1 ?_⟩
  rw [hbases]
  rfl

end LayerSkip.DeltaLink
