import LayerSkip.WorkerRun
import LayerSkip.RoundFlow

/-!
# A chain of pipeline stages

The root and one worker for every later stage, joined by first-in first-out
links. The root starts a forward by writing a control packet to every worker
and its activation to the next stage, and waits for the logits. A worker takes
a control packet, takes an activation and writes what its round sends on. Every
write and every read is a step of its own, in any order among the nodes.
-/

namespace LayerSkip.StageNetwork

open NnTopology NnNetwork NnPipeline WorkerLlmInference WorkerState RoundFlow

/-- The control word of a number format. -/
def NnFloatType.toUint : NnFloatType → NnUint
  | .f32 => 0
  | .f16 => 1
  | .q40 => 2
  | .q80 => 3

/-- Arguments of the root that go into every control packet. -/
structure RootOptions (F : Type) where
  /-- 0 for full logits, 1 for a token, 2 for the best logits. -/
  decodeLogitsMode : NnUint
  /-- Number of best logits. -/
  topKCount : NnUint
  /-- Format of activations between stages. -/
  pipelineActivationType : NnFloatType
  /-- Whether activations may be sent as differences. -/
  pipelineDelta : Bool
  /-- Smallest activation to send as a difference. -/
  pipelineDeltaMinBytes : NnUint
  /-- Bytes of a chunk of a stream, 0 for none. -/
  pipelineChunkBytes : NnUint
  /-- Whether decisions are taken without acting on them. -/
  stageSkipShadow : Bool
  /-- Whether decisions are acted on. -/
  stageSkipEnabled : Bool
  /-- Stage to leave out. -/
  stageSkipTarget : NnUint
  /-- Largest change of the activation that allows a skip. -/
  stageSkipTheta : F
  /-- Skips allowed in a row. -/
  stageSkipMaxConsecutive : NnUint
  /-- Rejections in a row before a full pass is forced. -/
  stageSkipMaxRejectStreak : NnUint

/-- What the caller of the root sets before a forward. -/
structure ForwardCall (E : Type) where
  /-- First position of the batch. -/
  position : NnUint
  /-- Rows of the batch. -/
  batchSize : NnUint
  /-- Whether the forward is a decode one. -/
  decodePhase : Bool
  /-- Explicit positions, when these are set. -/
  batchPositions : Option (List NnUint)
  /-- Tokens and positions put into the root's pipes. -/
  fill : E → E

/-- A chain of stages: what all nodes agree on, and the executor of each. The
last two fields are what the program checks of a stage skip. -/
structure StageChain (F E : Type) where
  /-- Number of stages. -/
  ppSize : NnUint
  /-- Number formats on the wire. -/
  codec : FloatCodec F
  /-- The executors. -/
  engine : ℕ → Engine F E
  /-- Rows of the pipes. -/
  maxBatchSize : NnUint
  /-- Floats of a row of the X pipe. -/
  xPipeRow : ℕ
  /-- Floats of a row of the logits pipe. -/
  logitsPipeRow : ℕ
  /-- Whether the last operation already leaves a token in the logits pipe. -/
  fusedLmHeadArgmax : Bool
  /-- Relative change from the second row to the first. -/
  computeDeltaNormEncoded : List F → List F → Option F
  /-- A word as a float. -/
  ofUint : NnUint → F
  /-- Arguments of the root. -/
  options : RootOptions F
  /-- The first stage is no target. -/
  target_pos : 0 < options.stageSkipTarget.toNat
  /-- The last stage is no target. -/
  target_lt : options.stageSkipTarget.toNat + 1 < ppSize.toNat

/-- One message on a link. -/
inductive Message (F : Type)
  /-- A control packet. -/
  | control (p : LlmControlPacket F)
  /-- An activation or the logits. -/
  | activation (frame : Frame)

/-- Where a node stands. -/
inductive Phase
  /-- Waiting for a control packet; the root: for a call. -/
  | idle
  /-- Waiting for an activation; the root: for the logits. -/
  | ready
  /-- Stopped. -/
  | finished
  /-- Ended by an exception. -/
  | failed (text : String)
  deriving DecidableEq

/-- What a worker did for one control packet. -/
structure Entry (F : Type) where
  /-- Stage the activation came from. -/
  source : ℕ
  /-- The activation. -/
  frame : Frame
  /-- Whether the executor ran. -/
  forwarded : Bool
  /-- Whether the decision of this stage was to skip the next. -/
  accepted : Bool
  /-- What goes out, by node. -/
  sent : List (ℕ × Message F)

/-- A worker. -/
structure StageNode (F E : Type) where
  /-- Its inference loop. -/
  state : WorkerState F E
  /-- Where it stands. -/
  phase : Phase
  /-- What it did, packet by packet. -/
  log : List (Entry F)
  /-- Every frame it has read, with the stage it came from. -/
  reads : List (ℕ × Frame)

/-- One forward of the root. -/
structure RootCall (F : Type) where
  /-- The control packet. -/
  packet : LlmControlPacket F
  /-- What goes out, by node. -/
  sent : List (ℕ × Message F)

/-- The root. -/
structure RootNode (F E : Type) where
  /-- State of its executor. -/
  engine : E
  /-- Links to the other stages. -/
  pipeline : NnPipelineCommunicator F
  /-- Where it stands. -/
  phase : Phase
  /-- The logits last received. -/
  logits : List F
  /-- Its forwards. -/
  calls : List (RootCall F)
  /-- The frames with logits it has read. -/
  results : List Frame

/-- All nodes and links. -/
structure System (F E : Type) where
  /-- The root, node 0. -/
  root : RootNode F E
  /-- The workers, by node. -/
  workers : ℕ → StageNode F E
  /-- What a node still has to write. -/
  pending : ℕ → List (ℕ × Message F)
  /-- What is on the link from one node to another. -/
  links : ℕ → ℕ → List (Message F)

variable {F E : Type} [Add F] [Sub F] [LE F] [DecidableLE F] [LT F] [DecidableLT F]

/-- The control packet of a call. -/
def RootOptions.controlPacket (o : RootOptions F) (call : ForwardCall E) : LlmControlPacket F where
  position := call.position
  batchSize := call.batchSize
  phase := if call.decodePhase then 1 else 0
  positionMode := if call.batchPositions.isSome then 1 else 0
  tokenOnlyMode := o.decodeLogitsMode
  topKCount := o.topKCount
  activationType := NnFloatType.toUint o.pipelineActivationType
  pipelineDelta := if o.pipelineDelta then 1 else 0
  pipelineDeltaMinBytes := o.pipelineDeltaMinBytes
  pipelineChunkBytes := o.pipelineChunkBytes
  stageSkipShadow := if o.stageSkipShadow then 1 else 0
  stageSkipEnabled := if o.stageSkipEnabled then 1 else 0
  stageSkipTarget := o.stageSkipTarget
  stageSkipTheta := o.stageSkipTheta
  stageSkipMaxConsecutive := o.stageSkipMaxConsecutive
  stageSkipMaxRejectStreak := o.stageSkipMaxRejectStreak
  batchPositions := call.batchPositions.getD []
  spGroups := []

namespace StageChain

variable (c : StageChain F E)

/-- One node a stage. -/
def topology : NnParallelTopology := ⟨c.ppSize.toNat, c.ppSize.toNat, 1, 1⟩

/-- Ranks of a node of the chain. -/
def placement (i : ℕ) : NnNodePlacement := ⟨i, i, 0, 0, i, i + 1, i, i + 1⟩

/-- The worker of a stage. -/
def worker (i : ℕ) : WorkerConfig F E where
  codec := c.codec
  engine := c.engine i
  nodeConfig := placement i
  maxBatchSize := c.maxBatchSize
  xPipeRow := c.xPipeRow
  logitsPipeRow := c.logitsPipeRow
  fusedLmHeadArgmax := c.fusedLmHeadArgmax
  computeDeltaNormEncoded := c.computeDeltaNormEncoded
  ofUint := c.ofUint

/-- The nodes the root writes control packets to. -/
def workers : List ℕ := List.range' 1 (c.ppSize.toNat - 1)

/-- A call the root accepts. -/
def Valid (call : ForwardCall E) : Prop :=
  0 < call.batchSize ∧ call.batchSize ≤ c.maxBatchSize ∧ call.batchSize ≤ maxControlBatchPos

instance (call : ForwardCall E) : Decidable (c.Valid call) :=
  inferInstanceAs (Decidable (_ ∧ _ ∧ _))

/-- Floats the root makes room for when it waits for the logits. -/
def logitsElems (p : LlmControlPacket F) : ℕ :=
  if c.options.decodeLogitsMode = 1 ∧ p.phase = 1 ∧ p.batchSize = 1 then 1
  else if c.options.decodeLogitsMode = 2 ∧ p.phase = 1 ∧ p.batchSize = 1 then 2 * p.topKCount.toNat
  else c.logitsPipeRow * p.batchSize.toNat

/-- `RootLlmInference::forward` up to the wait for the logits. The workers get
their control packets in some order. -/
def forward (r : RootNode F E) (call : ForwardCall E) (order : List ℕ) :
    Except String (RootNode F E × List (ℕ × Message F)) := do
  let p := c.options.controlPacket call
  let engine := (c.engine 0).forward call.decodePhase call.batchSize (call.fill r.engine)
  let controls := order.map fun i => (i, Message.control p)
  if r.pipeline.shouldSendActivations then
    let target ← r.pipeline.getTargetPpRank
    let row := (c.engine 0).xPipe engine (c.xPipeRow * p.batchSize.toNat)
    let (socket, frame, pipeline) ← r.pipeline.sendActivation c.codec target p.position 0 0 row
      c.options.pipelineActivationType 0
    let sent := controls ++ [(connectedPeer 0 socket, .activation frame)]
    return ({ r with
      engine, pipeline, phase := .ready, calls := r.calls ++ [⟨p, sent⟩] }, sent)
  else
    return ({ r with engine, phase := .ready, calls := r.calls ++ [⟨p, controls⟩] }, controls)

/-- The rest of `RootLlmInference::forward`, with what comes from the last stage. -/
def takeLogits (r : RootNode F E) (socket : ℕ) (m : Message F) : RootNode F E :=
  match m, r.calls.getLast? with
  | .activation frame, some call =>
    match r.pipeline.acceptFrame c.codec socket frame (c.logitsElems call.packet) with
    | none => { r with phase := .failed "Failed to receive pipeline logits from last stage" }
    | some (logits, pipeline) =>
      { r with pipeline, logits, phase := .idle, results := r.results ++ [frame] }
  | _, _ => { r with phase := .failed "Failed to receive pipeline logits from last stage" }

/-- A worker takes a control packet. -/
def takeControl (i : ℕ) (n : StageNode F E) (m : Message F) : StageNode F E :=
  match m with
  | .activation _ => { n with phase := .failed "Invalid control packet" }
  | .control p =>
    match n.state.tryReadControlPacket (c.worker i) p with
    | .error text => { n with phase := .failed text }
    | .ok s =>
      if s.isFinished then { n with state := s, phase := .finished }
      else { n with state := s.beginForward, phase := .ready }

/-- A worker takes an activation and does the rest of its round: its new state
and what it has to write. A polled frame that is not accepted is gone. -/
def takeActivation (i : ℕ) (n : StageNode F E) (source socket : ℕ) (polled : Bool)
    (m : Message F) : StageNode F E × List (ℕ × Message F) :=
  match m with
  | .control _ => ({ n with phase := .failed "Failed to receive pipeline activation" }, [])
  | .activation frame =>
    let n := { n with reads := n.reads ++ [(source, frame)] }
    match n.state.recvActivation (c.worker i) socket frame with
    | none =>
      if polled then (n, [])
      else ({ n with phase := .failed "Failed to receive pipeline activation" }, [])
    | some s =>
      match s.afterRecv (c.worker i) frame.header with
      | .error text => ({ n with phase := .failed text }, [])
      | .ok s =>
        match (s.forward (c.worker i)).afterForward (c.worker i) with
        | .error text => ({ n with phase := .failed text }, [])
        | .ok (s', frames) =>
          let sent := frames.map fun f => (connectedPeer i f.1, Message.activation f.2)
          let entry := ⟨source, frame, !s.skipForwardThisToken, s'.lastSkipDecision = some true, sent⟩
          ({ n with state := s', phase := .idle, log := n.log ++ [entry] }, sent)

end StageChain

/-- The stages a receive may read from, and whether it polls. -/
def RecvFrom.sources : RecvFrom → List ℕ × Bool
  | .nothing => ([], false)
  | .source ppRank => ([ppRank], false)
  | .poll bypassSource normalSource => ([bypassSource, normalSource], true)

/-- What happens next. -/
inductive Label (E : Type)
  /-- The root starts a forward. -/
  | start (call : ForwardCall E) (order : List ℕ)
  /-- A node writes its next message. -/
  | write (i : ℕ)
  /-- A worker takes a control packet. -/
  | control (i : ℕ)
  /-- A worker takes an activation. -/
  | activation (i source : ℕ)
  /-- The root takes the logits. -/
  | logits

namespace System

variable (c : StageChain F E) (s : System F E)

/-- The root starts a forward. -/
def start (call : ForwardCall E) (order : List ℕ) : Option (System F E) :=
  if s.root.phase = .idle ∧ s.pending 0 = [] ∧ c.Valid call ∧ order.Perm c.workers then
    match c.forward s.root call order with
    | .error text => some { s with root := { s.root with phase := .failed text } }
    | .ok (root, sent) => some { s with root, pending := Function.update s.pending 0 sent }
  else none

/-- A node writes its next message. -/
def write (i : ℕ) : Option (System F E) :=
  match s.pending i with
  | [] => none
  | (j, m) :: rest =>
    some { s with
      links := setLink s.links i j (s.links i j ++ [m])
      pending := Function.update s.pending i rest }

/-- A worker takes a control packet. -/
def control (i : ℕ) : Option (System F E) :=
  if 0 < i ∧ i < c.ppSize.toNat ∧ (s.workers i).phase = .idle ∧ s.pending i = [] then
    match s.links 0 i with
    | [] => none
    | m :: rest =>
      some { s with
        links := setLink s.links 0 i rest
        workers := Function.update s.workers i (c.takeControl i (s.workers i) m) }
  else none

/-- A worker takes an activation. -/
def activation (i source : ℕ) : Option (System F E) :=
  let n := s.workers i
  let sources := RecvFrom.sources (n.state.recvFrom (c.worker i))
  if 0 < i ∧ i < c.ppSize.toNat ∧ n.phase = .ready ∧ s.pending i = [] ∧ source ∈ sources.1 then
    match n.state.pipeline with
    | none => none
    | some pipeline =>
      match pipeline.recvSocket source with
      | .error text =>
        some { s with workers := Function.update s.workers i { n with phase := .failed text } }
      | .ok socket =>
        match s.links (connectedPeer i socket) i with
        | [] => none
        | m :: rest =>
          let (n', sent) := c.takeActivation i n source socket sources.2 m
          some { s with
            links := setLink s.links (connectedPeer i socket) i rest
            workers := Function.update s.workers i n'
            pending := Function.update s.pending i sent }
  else none

/-- The root takes the logits. -/
def logits : Option (System F E) :=
  if s.root.phase = .ready ∧ s.pending 0 = [] then
    match s.root.pipeline.recvSocket (c.topology.ppSize - 1) with
    | .error text => some { s with root := { s.root with phase := .failed text } }
    | .ok socket =>
      match s.links (connectedPeer 0 socket) 0 with
      | [] => none
      | m :: rest =>
        some { s with
          links := setLink s.links (connectedPeer 0 socket) 0 rest
          root := c.takeLogits s.root socket m }
  else none

/-- One step. -/
def step : Label E → Option (System F E)
  | .start call order => s.start c call order
  | .write i => s.write i
  | .control i => s.control c i
  | .activation i source => s.activation c i source
  | .logits => s.logits c

/-- The steps of a schedule, as long as each can be taken. -/
def steps (s : System F E) : List (Label E) → Option (System F E)
  | [] => some s
  | label :: labels => (s.step c label).bind fun s => s.steps labels

/-- Arguments a node is started with. -/
structure NodeArgs (F E : Type) where
  /-- State of its executor. -/
  engine : E
  /-- What a worker holds as packet before the first one. -/
  packet : LlmControlPacket F
  /-- Format of activations until a packet sets it. -/
  pipelineActivationType : NnFloatType
  /-- Transport options until a packet sets them. -/
  pipelineDelta : Bool
  /-- Transport options until a packet sets them. -/
  pipelineDeltaMinBytes : ℕ
  /-- Transport options until a packet sets them. -/
  pipelineChunkBytes : ℕ

/-- The links of a node that has not sent or received. -/
def NodeArgs.pipeline (i : ℕ) (a : NodeArgs F E) : NnPipelineCommunicator F :=
  .create c.topology (StageChain.placement i) a.pipelineDelta a.pipelineDeltaMinBytes
    a.pipelineChunkBytes

/-- All nodes before the first forward. -/
def initial (args : ℕ → NodeArgs F E) : System F E where
  root := ⟨(args 0).engine, (args 0).pipeline c 0, .idle, [], [], []⟩
  workers i := ⟨.create (some ((args i).pipeline c i)) (args i).packet
    (args i).pipelineActivationType (args i).engine, .idle, [], []⟩
  pending _ := []
  links _ _ := []

/-- A system that some schedule leads to. -/
def Reachable (s : System F E) : Prop :=
  ∃ args labels, (initial c args).steps c labels = some s

end System

end LayerSkip.StageNetwork
