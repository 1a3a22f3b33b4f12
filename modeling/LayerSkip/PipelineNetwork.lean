import LayerSkip.RestingNetwork
import LayerSkip.StageExecutor
import LayerSkip.StageNetwork

/-!
# Stages as parties of a network

The root and the workers of a pipeline run their loops on one graph each, with stage skip off, full
logits and activations sent as floats. For every call the root fills its pipes, writes a control
packet to all workers, runs its segments, sends `X` to the next stage and takes the logits of the
last one. With one stage it keeps its own logits.
-/

namespace LayerSkip.PipelineNetwork

open NnTopology NnNetwork NnPipeline WorkerLlmInference StreamNetwork StageExecutor
open StageNetwork (Message RootOptions ForwardCall)
open RoundFlow (toParty)

/-- What the nodes of a pipeline are started with. -/
structure Pipeline (V : Type) where
  /-- Number of stages. -/
  ppSize : NnUint
  /-- There is a stage. -/
  ppSize_pos : 0 < ppSize.toNat
  /-- The graph of every stage. -/
  nodes : ℕ → StageNode V
  /-- Number formats on the wire. -/
  codec : FloatCodec V
  /-- Floats are sent as they are. -/
  exact : ∀ values, codec.decode .f32 (codec.encode .f32 values) = values
  /-- Rows of the pipes. -/
  maxBatchSize : NnUint
  /-- Floats of a row of `X`. -/
  xPipeRow : ℕ
  /-- Floats of a row of the logits. -/
  logitsPipeRow : ℕ
  /-- Stages of one model. -/
  rows : ∀ i < ppSize.toNat, (nodes i).node.header.dim = xPipeRow ∧
    (nodes i).node.header.vocabSize = logitsPipeRow
  /-- Relative change from the second row to the first. -/
  computeDeltaNormEncoded : List V → List V → Option V
  /-- A word as a float. -/
  ofUint : NnUint → V
  /-- Every node has words as the same floats. -/
  words : ∀ i < ppSize.toNat, (nodes i).ofUint = ofUint
  /-- Arguments of the root. -/
  options : RootOptions V
  /-- All logits are wanted. -/
  fullLogits : options.decodeLogitsMode = 0
  /-- Stage skip is off. -/
  noSkip : options.stageSkipEnabled = false
  /-- Activations are sent as floats. -/
  plainType : options.pipelineActivationType = .f32
  /-- Activations are not sent as differences. -/
  noDelta : options.pipelineDelta = false

/-- What the caller of the root sets before a forward. -/
structure Call where
  /-- Whether the forward is a decode one. -/
  decodePhase : Bool
  /-- First position of the batch. -/
  position : NnUint
  /-- Explicit positions, when these are set. -/
  batchPositions : Option (List NnUint)
  /-- Token of every row. -/
  tokens : List NnUint

namespace Call

variable (call : Call)

/-- Rows of the batch. -/
def batchSize : NnUint := call.tokens.length.toUInt32

/-- Position of every row. -/
def positions : List NnUint :=
  match call.batchPositions with
  | some positions => positions
  | none => (List.range call.tokens.length).map fun i => call.position + i.toUInt32

/-- What the setters of the root accept. -/
structure Valid (maxBatchSize : NnUint) (seqLen : ℕ) : Prop where
  /-- There is a row. -/
  some : 0 < call.tokens.length
  /-- The rows fit the pipes. -/
  fits : call.tokens.length ≤ maxBatchSize.toNat
  /-- The rows fit a control packet. -/
  packet : call.tokens.length ≤ maxControlBatchPos.toNat
  /-- Consecutive positions are below the length of the context. -/
  consecutive : call.batchPositions = none → call.position.toNat + call.tokens.length ≤ seqLen
  /-- Explicit positions, one a row, are below the length of the context. -/
  explicit : ∀ positions ∈ call.batchPositions, positions.length = call.tokens.length ∧
    positions.head? = Option.some call.position ∧ ∀ position ∈ positions, position.toNat < seqLen

/-- What the root is called with. -/
def toForwardCall {V : Type} (node : StageNode V) : ForwardCall (Memory V) where
  position := call.position
  batchSize := call.batchSize
  decodePhase := call.decodePhase
  batchPositions := call.batchPositions
  fill := fun m => node.setTokens call.tokens (node.setPositions call.positions m)

end Call

/-- A node between two transfers. -/
inductive Station (V : Type)
  /-- The root: its memory, its links, what it still has to send, and the rows of logits that it had
  after every call. -/
  | root (memory : Memory V) (pipeline : NnPipelineCommunicator V)
      (outgoing : List (ℕ × Message V)) (held : List (List V))
  /-- A worker, and what it still has to send. -/
  | worker (state : WorkerState V (Memory V)) (outgoing : List (ℕ × Message V))
  /-- Ended by an exception. -/
  | failed (text : String)

/-- What a node sends to another one. -/
def Station.data {V : Type} : Station V → ℕ → List (Message V)
  | .root _ _ outgoing _, q => toParty q outgoing
  | .worker _ outgoing, q => toParty q outgoing
  | .failed _, _ => []

/-- The rows of logits that a root has. -/
def Station.held {V : Type} : Station V → List (List V)
  | .root _ _ _ held => held
  | _ => []

/-- The root has its rows of logits and maybe more, or it has ended by an exception. -/
def KeepsRows {V : Type} (before after : Station V) : Prop :=
  (∃ text, after = .failed text) ∨
    (∀ text, before ≠ .failed text) ∧ before.held <+: after.held

theorem keepsRows_of_root {V : Type} {memory : Memory V} {pipeline : NnPipelineCommunicator V}
    {outgoing : List (ℕ × Message V)} {held : List (List V)} {after : Station V}
    (h : held <+: after.held) : KeepsRows (.root memory pipeline outgoing held) after := by
  refine .inr ⟨?_, h⟩
  intro text hfailed
  cases hfailed

theorem KeepsRows.refl {V : Type} (station : Station V) : KeepsRows station station := by
  by_cases h : ∃ text, station = .failed text
  · exact .inl h
  · exact .inr ⟨not_exists.mp h, List.prefix_refl _⟩

theorem KeepsRows.trans {V : Type} {a b c : Station V} (hab : KeepsRows a b)
    (hbc : KeepsRows b c) : KeepsRows a c := by
  cases hbc with
  | inl hfailed => exact .inl hfailed
  | inr hbc =>
    cases hab with
    | inl hfailed =>
      obtain ⟨text, hfailed⟩ := hfailed
      exact absurd hfailed (hbc.1 text)
    | inr hab => exact .inr ⟨hab.1, hab.2.trans hbc.2⟩

namespace Pipeline

variable {V : Type} [Add V] [Sub V] [LE V] [DecidableLE V] [LT V] [DecidableLT V] (p : Pipeline V)

/-- One node a stage. -/
def topology : NnParallelTopology := ⟨p.ppSize.toNat, p.ppSize.toNat, 1, 1⟩

/-- The inference loop of the worker of a stage. -/
def worker (i : ℕ) : WorkerConfig V (Memory V) where
  codec := p.codec
  engine := (p.nodes i).engine
  nodeConfig := StageNetwork.StageChain.placement i
  maxBatchSize := p.maxBatchSize
  xPipeRow := p.xPipeRow
  logitsPipeRow := p.logitsPipeRow
  fusedLmHeadArgmax := false
  computeDeltaNormEncoded := p.computeDeltaNormEncoded
  ofUint := p.ofUint

/-- The setters of the root, and the control packets of `RootLlmInference::forward`. -/
def beginCall (call : Call) : Station V → Station V
  | .root memory pipeline _ held =>
    let forwardCall := call.toForwardCall (p.nodes 0)
    .root (forwardCall.fill memory) pipeline ((List.range' 1 (p.ppSize.toNat - 1)).map fun i =>
      (i, .control (p.options.controlPacket forwardCall))) held
  | station => station

/-- The root runs its segments and has `X` for the next stage. -/
def runRoot (call : Call) : Station V → Station V
  | .root memory pipeline _ held =>
    let memory := (p.nodes 0).forward call.batchSize.toNat memory
    if pipeline.shouldSendActivations then
      let row := readPipe .x p.xPipeRow (p.xPipeRow * call.batchSize.toNat) memory
      match pipeline.getTargetPpRank.bind fun target =>
          pipeline.sendActivation p.codec target call.position 0 0 row
            p.options.pipelineActivationType 0 with
      | .error text => .failed text
      | .ok (socket, frame, pipeline) =>
        .root memory pipeline [(connectedPeer 0 socket, .activation frame)] held
    else .root memory pipeline [] held
  | station => station

/-- The node that the root takes the logits of. -/
def logitsSource : Station V → Option ℕ
  | .root _ pipeline _ _ =>
    if 1 < p.ppSize.toNat then
      match pipeline.recvSocket (p.ppSize.toNat - 1) with
      | .error _ => none
      | .ok socket => some (connectedPeer 0 socket)
    else none
  | _ => none

/-- The rest of `RootLlmInference::forward`. With several stages the logits of the last one are
stored in the root's pipe. -/
def takeLogits (call : Call) (station : Station V) (got : ℕ → List (Message V)) : Station V :=
  match station with
  | .root memory pipeline _ held =>
    let nLogits := p.logitsPipeRow * call.batchSize.toNat
    if 1 < p.ppSize.toNat then
      match pipeline.recvSocket (p.ppSize.toNat - 1) with
      | .error text => .failed text
      | .ok socket =>
        match got (connectedPeer 0 socket) with
        | [.activation frame] =>
          match pipeline.acceptFrame p.codec socket frame nLogits with
          | none => .failed "Failed to receive pipeline logits from last stage"
          | some (logits, pipeline) =>
            let memory := writePipe .lg p.logitsPipeRow logits memory
            .root memory pipeline [] (held ++ [readPipe .lg p.logitsPipeRow nLogits memory])
        | _ => .failed "Failed to receive pipeline logits from last stage"
    else .root memory pipeline [] (held ++ [readPipe .lg p.logitsPipeRow nLogits memory])
  | station => station

/-- A worker takes a control packet. -/
def takeControl (i : ℕ) (station : Station V) (got : ℕ → List (Message V)) : Station V :=
  match station with
  | .worker state _ =>
    match got 0 with
    | [.control packet] =>
      match state.tryReadControlPacket (p.worker i) packet with
      | .error text => .failed text
      | .ok state => if state.isFinished then .worker state [] else .worker state.beginForward []
    | _ => .failed "Invalid control packet"
  | station => station

/-- The node that a worker takes an activation of. -/
def activationSource (i : ℕ) : Station V → Option ℕ
  | .worker state _ =>
    match state.recvFrom (p.worker i), state.pipeline with
    | .source ppRank, some pipeline =>
      match pipeline.recvSocket ppRank with
      | .error _ => none
      | .ok socket => some (connectedPeer i socket)
    | _, _ => none
  | _ => none

/-- A worker takes an activation, runs its segments and has what goes on. Without stage skip it
polls no socket. -/
def takeActivation (i : ℕ) (station : Station V) (got : ℕ → List (Message V)) : Station V :=
  match station with
  | .worker state _ =>
    match state.recvFrom (p.worker i), state.pipeline with
    | .source ppRank, some pipeline =>
      match pipeline.recvSocket ppRank with
      | .error text => .failed text
      | .ok socket =>
        match got (connectedPeer i socket) with
        | [.activation frame] =>
          match state.recvActivation (p.worker i) socket frame with
          | none => .failed "Failed to receive pipeline activation"
          | some state =>
            match state.afterRecv (p.worker i) frame.header with
            | .error text => .failed text
            | .ok state =>
              match (state.forward (p.worker i)).afterForward (p.worker i) with
              | .error text => .failed text
              | .ok (state, frames) => .worker state (frames.map fun f =>
                  (connectedPeer i f.1, .activation f.2))
        | _ => .failed "Failed to receive pipeline activation"
    | _, _ => .failed "Stage-skip polling"
  | station => station

/-- One message of one node. -/
def one (source : Option ℕ) (q : ℕ) : ℕ := if source = some q then 1 else 0

/-- The root in a call. -/
def rootBlocks (call : Call) : List (Block ℕ (Station V) (Message V)) :=
  [.read (fun _ _ => 0) fun station _ => p.beginCall call station,
    .write Station.data,
    .read (fun _ _ => 0) fun station _ => p.runRoot call station,
    .write Station.data,
    .read (fun station => one (p.logitsSource station)) (p.takeLogits call)]

/-- One round of a worker's loop. -/
def workerBlocks (i : ℕ) : List (Block ℕ (Station V) (Message V)) :=
  [.read (fun _ => one (some 0)) (p.takeControl i),
    .read (fun station => one (p.activationSource i station)) (p.takeActivation i),
    .write Station.data]

/-- What a node does for some calls. -/
def program (calls : List Call) (i : ℕ) : List (Block ℕ (Station V) (Message V)) :=
  if i = 0 then calls.flatMap p.rootBlocks
  else if i < p.ppSize.toNat then calls.flatMap fun _ => p.workerBlocks i
  else []

/-- What a worker holds before the first packet. -/
structure WorkerArgs (V : Type) where
  /-- Its packet. -/
  packet : LlmControlPacket V
  /-- Format of activations. -/
  pipelineActivationType : NnFloatType
  /-- Transport options. -/
  pipelineDelta : Bool
  /-- Transport options. -/
  pipelineDeltaMinBytes : ℕ
  /-- Transport options. -/
  pipelineChunkBytes : ℕ

/-- The nodes before the first call. -/
def station (memories : ℕ → Memory V) (args : ℕ → WorkerArgs V) (i : ℕ) : Station V :=
  if i = 0 then
    .root (memories 0) (.create p.topology (StageNetwork.StageChain.placement 0)
      p.options.pipelineDelta p.options.pipelineDeltaMinBytes.toNat
      p.options.pipelineChunkBytes.toNat) [] []
  else
    .worker (.create (some (.create p.topology (StageNetwork.StageChain.placement i)
        (args i).pipelineDelta (args i).pipelineDeltaMinBytes (args i).pipelineChunkBytes))
      (args i).packet (args i).pipelineActivationType (memories i)) []

/-- The network before the first call. -/
def initial (memories : ℕ → Memory V) (args : ℕ → WorkerArgs V) (calls : List Call) :
    Net ℕ (Station V) (Message V) :=
  RestingNetwork.atRest (p.station memories args) (p.program calls)

end Pipeline

end LayerSkip.PipelineNetwork
