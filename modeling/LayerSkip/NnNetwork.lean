import LayerSkip.StreamNetwork
import LayerSkip.NodeMemory

/-!
# Sockets and all-reduce collectives

Nodes hold one socket per other node. The slot of a peer differs from node to
node. The two all-reduce collectives are the programs that each member of a
rank group runs on its sockets; `syncNodeSlices` chooses between them.
-/

namespace LayerSkip.NnNetwork

open StreamNetwork NodeMemory

/-- Slot of the socket that leads from a node to a peer. -/
def getSocketIndexForNode (myNodeIndex peerNode : ℕ) : ℕ :=
  if myNodeIndex = 0 then peerNode - 1
  else if peerNode = 0 then 0
  else if peerNode < myNodeIndex then peerNode
  else peerNode - 1

/-- Peer at the other end of a slot, as `NnNetwork::connect` and
`NnNetwork::serve` fill the slots: the root connects slot `i` to worker
`i + 1`; a worker keeps the root in slot 0 and the other workers in order. -/
def connectedPeer (myNodeIndex socketIndex : ℕ) : ℕ :=
  if myNodeIndex = 0 then socketIndex + 1
  else if socketIndex = 0 then 0
  else if socketIndex < myNodeIndex then socketIndex
  else socketIndex + 1

/-- The slot computed for a peer is the slot that peer was stored in. -/
theorem connectedPeer_getSocketIndexForNode {myNodeIndex peerNode : ℕ}
    (h : peerNode ≠ myNodeIndex) :
    connectedPeer myNodeIndex (getSocketIndexForNode myNodeIndex peerNode) = peerNode := by
  unfold connectedPeer getSocketIndexForNode
  split_ifs <;> omega

/-- Slots stay below the number of sockets. -/
theorem getSocketIndexForNode_lt {nNodes myNodeIndex peerNode : ℕ} (hm : myNodeIndex < nNodes)
    (hp : peerNode < nNodes) (h : peerNode ≠ myNodeIndex) :
    getSocketIndexForNode myNodeIndex peerNode < nNodes - 1 := by
  unfold getSocketIndexForNode
  split_ifs <;> omega

/-- How tensor-parallel partial results are combined. -/
inductive CollectiveType
  | auto
  | star
  | ring
  deriving DecidableEq, Repr

variable {α : Type*}

/-- Programs of a node whose memory is float cells. -/
abbrev Program (α : Type*) := List (Block ℕ (ℕ → α) α)

/-- One entry of a `writeMany` or `readMany` call: a socket slot and the
number of float cells to move through it. -/
structure NnSocketIo where
  /-- Slot of the socket. -/
  socketIndex : ℕ
  /-- Cells to transfer. -/
  size : ℕ

/-- Cells moved between the node and one peer by the entries of a call. -/
def ioSize (myNodeIndex : ℕ) (ios : List NnSocketIo) (peer : ℕ) : ℕ :=
  match ios.find? (fun io => connectedPeer myNodeIndex io.socketIndex == peer) with
  | some io => io.size
  | none => 0

/-- `writeMany` with the same data region in every entry. -/
def writeMany (myNodeIndex : ℕ) (ios : List NnSocketIo) (data : (ℕ → α) → List α) :
    Block ℕ (ℕ → α) α :=
  .write fun mem peer => (data mem).take (ioSize myNodeIndex ios peer)

/-- `readMany`, followed by the local work on what the sockets delivered. -/
def readMany (myNodeIndex : ℕ) (ios : List NnSocketIo)
    (use : (ℕ → α) → (NnSocketIo → List α) → ℕ → α) : Block ℕ (ℕ → α) α :=
  .read (fun _ peer => ioSize myNodeIndex ios peer)
    (fun mem got => use mem fun io => got (connectedPeer myNodeIndex io.socketIndex))

/-- Entries for a list of peers move their size to and from exactly these. -/
theorem ioSize_of_peers {myNodeIndex : ℕ} {peers : List ℕ} (h : myNodeIndex ∉ peers)
    (size peer : ℕ) :
    ioSize myNodeIndex (peers.map fun p => ⟨getSocketIndexForNode myNodeIndex p, size⟩) peer =
      if peer ∈ peers then size else 0 := by
  induction peers with
  | nil => simp [ioSize]
  | cons p peers ih =>
    have hp : p ≠ myNodeIndex := fun he => h (by rw [he]; exact List.mem_cons_self)
    have hrest := ih fun hm => h (List.mem_cons_of_mem _ hm)
    have hpeer := connectedPeer_getSocketIndexForNode hp
    unfold ioSize at hrest ⊢
    rw [List.map_cons, List.find?_cons, hpeer]
    by_cases he : p = peer
    · rw [beq_iff_eq.mpr he, if_pos (by rw [he]; exact List.mem_cons_self)]
    · rw [beq_eq_false_iff_ne.mpr he, hrest]
      simp only [List.mem_cons, Ne.symm he, false_or]

/-- Send a region to one peer. -/
def sendTo (peer : ℕ) (data : (ℕ → α) → List α) : Block ℕ (ℕ → α) α :=
  .write fun mem q => if q = peer then data mem else []

/-- Receive cells from one peer. -/
def recvFrom (peer size : ℕ) (store : (ℕ → α) → List α → ℕ → α) : Block ℕ (ℕ → α) α :=
  .read (fun _ q => if q = peer then size else 0) fun mem got => store mem (got peer)

theorem ioSize_single {myNodeIndex peer : ℕ} (h : peer ≠ myNodeIndex) (size q : ℕ) :
    ioSize myNodeIndex [⟨getSocketIndexForNode myNodeIndex peer, size⟩] q =
      if q = peer then size else 0 := by
  have hs := ioSize_of_peers (show myNodeIndex ∉ [peer] by simpa using Ne.symm h) size q
  simpa using hs

/-- A `writeMany` with one entry sends to the peer of that entry. -/
theorem writeMany_single {myNodeIndex peer : ℕ} (h : peer ≠ myNodeIndex) {size : ℕ}
    {data : (ℕ → α) → List α} (hd : ∀ mem, (data mem).length = size) :
    writeMany myNodeIndex [⟨getSocketIndexForNode myNodeIndex peer, size⟩] data =
      sendTo peer data := by
  unfold writeMany sendTo
  congr 1
  funext mem q
  rw [ioSize_single h]
  split
  · exact List.take_of_length_le (Nat.le_of_eq (hd mem))
  · exact List.take_zero

/-- A `readMany` with one entry receives from the peer of that entry. -/
theorem readMany_single {myNodeIndex peer : ℕ} (h : peer ≠ myNodeIndex) (size : ℕ)
    (store : (ℕ → α) → List α → ℕ → α) :
    (readMany myNodeIndex [⟨getSocketIndexForNode myNodeIndex peer, size⟩] fun mem got =>
        store mem (got ⟨getSocketIndexForNode myNodeIndex peer, size⟩)) =
      recvFrom peer size store := by
  unfold readMany recvFrom
  congr 1
  · funext _ q
    exact ioSize_single h size q
  · funext mem got
    dsimp only
    rw [connectedPeer_getSocketIndexForNode h]

section Collectives

variable [Add α]

/-- `reduceSum` applied to a region of memory. -/
def reduceInto (mem : ℕ → α) (at0 : ℕ) (input : List α) (nBytes : ℕ) : ℕ → α :=
  writeCells mem at0 (reduceSum (readCells mem at0 (nBytes / sizeofFloat)) input nBytes)

/-- Star all-reduce: the first member gathers all buffers, adds them to its own
one worker after the other and sends the sum back to every member. -/
def syncNodeSlicesStarAllReduce (onlyFromWorkerToRoot : Bool) (nodeIndex tpGroupStart tpGroupEnd
    buffer nBytes threadIndex : ℕ) : Program α :=
  let nNodes := tpGroupEnd - tpGroupStart
  let rootNode := tpGroupStart
  let nWorkers := nNodes - 1
  if threadIndex ≠ 0 ∨ nNodes ≤ 1 then []
  else if nodeIndex = rootNode then
    let workerIos := (List.range nWorkers).map fun w =>
      (⟨getSocketIndexForNode nodeIndex (tpGroupStart + 1 + w), nBytes / sizeofFloat⟩ : NnSocketIo)
    -- slot `w` of the gather buffer is what worker `w` sent
    let gather := readMany nodeIndex workerIos fun mem got =>
      workerIos.foldl (fun mem io => reduceInto mem buffer (got io) nBytes) mem
    let broadcast := writeMany nodeIndex workerIos fun mem =>
      readCells mem buffer (nBytes / sizeofFloat)
    if onlyFromWorkerToRoot then [gather] else [gather, broadcast]
  else
    let io : NnSocketIo := ⟨getSocketIndexForNode nodeIndex rootNode, nBytes / sizeofFloat⟩
    let send := writeMany nodeIndex [io] fun mem => readCells mem buffer (nBytes / sizeofFloat)
    let recv := readMany nodeIndex [io] fun mem got => writeCells mem buffer (got io)
    if onlyFromWorkerToRoot then [send] else [send, recv]

/-- Chunk sent at a step of either ring phase. Indices are computed in 32 bits
in the source, which nothing exceeds below 2³¹ nodes. -/
def sendChunkIndex (localNodeIndex nNodes step : ℕ) : ℕ :=
  (localNodeIndex + nNodes - step) % nNodes

/-- Chunk received at a step of either ring phase. -/
def recvChunkIndex (localNodeIndex nNodes step : ℕ) : ℕ :=
  (localNodeIndex + nNodes - step - 1) % nNodes

/-- The transfers of one ring step; even members send first. -/
def ringStep (nodeIndex tpGroupStart nNodes buffer sliceBytes step : ℕ)
    (store : (ℕ → α) → List α → ℕ → α) : Program α :=
  let localNodeIndex := nodeIndex - tpGroupStart
  let sendToNode := tpGroupStart + (localNodeIndex + 1) % nNodes
  let recvFromNode := tpGroupStart + (localNodeIndex + nNodes - 1) % nNodes
  let sendIo : NnSocketIo :=
    ⟨getSocketIndexForNode nodeIndex sendToNode, sliceBytes / sizeofFloat⟩
  let recvIo : NnSocketIo :=
    ⟨getSocketIndexForNode nodeIndex recvFromNode, sliceBytes / sizeofFloat⟩
  let send := writeMany nodeIndex [sendIo] fun mem =>
    readCells mem (buffer + sliceBytes * sendChunkIndex localNodeIndex nNodes step / sizeofFloat)
      (sliceBytes / sizeofFloat)
  let recv := readMany nodeIndex [recvIo] fun mem got => store mem (got recvIo)
  if localNodeIndex % 2 = 0 then [send, recv] else [recv, send]

/-- Ring all-reduce: `nNodes - 1` steps that each add a received chunk to the
local one, then `nNodes - 1` steps that pass chunks on. -/
def syncNodeSlicesRingAllReduce (onlyFromWorkerToRoot : Bool) (nodeIndex tpGroupStart tpGroupEnd
    buffer nBytes threadIndex : ℕ) : Program α :=
  let nNodes := tpGroupEnd - tpGroupStart
  let localNodeIndex := nodeIndex - tpGroupStart
  let sliceBytes := nBytes / nNodes
  let chunkAt := fun step =>
    buffer + sliceBytes * recvChunkIndex localNodeIndex nNodes step / sizeofFloat
  let reduceScatter := (List.range (nNodes - 1)).flatMap fun step =>
    ringStep nodeIndex tpGroupStart nNodes buffer sliceBytes step fun mem got =>
      if sliceBytes * recvChunkIndex localNodeIndex nNodes step + sliceBytes ≤ nBytes then
        reduceInto mem (chunkAt step) got sliceBytes
      else mem
  let allGather := (List.range (nNodes - 1)).flatMap fun step =>
    ringStep nodeIndex tpGroupStart nNodes buffer sliceBytes step fun mem got =>
      writeCells mem (chunkAt step) got
  if threadIndex ≠ 0 ∨ nNodes ≤ 1 then []
  else if onlyFromWorkerToRoot then reduceScatter
  else reduceScatter ++ allGather

/-- The collective that a request comes down to: `auto` and `ring` need at
least eight members and a length they divide. -/
def effectiveCollective (collectiveType : CollectiveType) (onlyFromWorkerToRoot : Bool)
    (nNodes nBytes : ℕ) : CollectiveType :=
  let ringTopologySupported := 8 ≤ nNodes ∧ nBytes % nNodes = 0
  let effective :=
    if collectiveType = .auto then
      if onlyFromWorkerToRoot = false ∧ ringTopologySupported then .ring else .star
    else collectiveType
  if effective = .ring ∧ (¬ringTopologySupported ∨ onlyFromWorkerToRoot = true) then .star
  else effective

/-- The program a node runs for one all-reduce of a buffer; a node outside the
group is an invalid argument. -/
def syncNodeSlices (onlyFromWorkerToRoot : Bool) (nodeIndex tpGroupStart tpGroupEnd buffer nBytes : ℕ)
    (collectiveType : CollectiveType) (threadIndex : ℕ) : Except String (Program α) :=
  if ¬(tpGroupStart ≤ nodeIndex ∧ nodeIndex < tpGroupEnd) then
    .error "node is outside its TP group"
  else
    let nNodes := tpGroupEnd - tpGroupStart
    if nNodes ≤ 1 ∨ nBytes = 0 then .ok []
    else if effectiveCollective collectiveType onlyFromWorkerToRoot nNodes nBytes = .ring then
      .ok (syncNodeSlicesRingAllReduce onlyFromWorkerToRoot nodeIndex tpGroupStart tpGroupEnd buffer
        nBytes threadIndex)
    else
      .ok (syncNodeSlicesStarAllReduce onlyFromWorkerToRoot nodeIndex tpGroupStart tpGroupEnd buffer
        nBytes threadIndex)

end Collectives

/-- The network at the start of a collective: members of the group hold their
program, all others hold none, nothing is in flight. -/
def groupNet (tpGroupStart tpGroupEnd : ℕ) (program : ℕ → Program α) (mem : ℕ → ℕ → α) :
    Net ℕ (ℕ → α) α where
  party node := ⟨mem node, .idle,
    if tpGroupStart ≤ node ∧ node < tpGroupEnd then program node else []⟩
  link _ := []

end LayerSkip.NnNetwork
