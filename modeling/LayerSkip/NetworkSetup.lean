import LayerSkip.NnPipeline
import LayerSkip.SocketSlots
import Mathlib.Data.List.Sort
import Mathlib.Tactic.IntervalCases

/-!
# Start-up of the network

The root connects to the workers in turn, sends each its index and the hosts of
the others, waits for its answer, and at last tells all that it is ready. A worker
then takes a connection from the queue of its listening socket for each lower
worker and connects to each higher one. A connection is in the queue as soon as
the other side has connected. Nothing in it names the node at the other side.
-/

namespace LayerSkip.NetworkSetup

open NnNetwork NnPipeline SocketSlots

/-- A connection, named by the node that has connected and the one that listens. -/
structure Connection where
  /-- The node that has connected. -/
  client : ℕ
  /-- The node that listens. -/
  server : ℕ
  deriving DecidableEq, Repr

/-- The connection has these two ends. -/
def Connection.Joins (c : Connection) (node peer : ℕ) : Prop :=
  c.client = node ∧ c.server = peer ∨ c.client = peer ∧ c.server = node

/-- What the root writes to a worker. -/
structure PeerConfig where
  /-- Number of nodes. -/
  nNodes : ℕ
  /-- Index of the worker. -/
  nodeIndex : ℕ
  /-- Hosts of the other workers. -/
  hosts : List ℕ
  deriving DecidableEq, Repr

/-- Where the root is in `NnNetwork::connect`. -/
inductive RootPc
  /-- Before the connection for slot `i`. -/
  | connecting (i : ℕ)
  /-- Before the answer of the worker of slot `i`. -/
  | waitingAck (i : ℕ)
  /-- Before the message for slot `i` that the root is ready. -/
  | broadcasting (i : ℕ)
  /-- After the call. -/
  | returned
  deriving DecidableEq, Repr

/-- Where a worker is in `NnNetwork::serve`. -/
inductive WorkerPc
  /-- Before the connection of the root. -/
  | accepting
  /-- Before what the root writes. -/
  | reading
  /-- Before the message that the root is ready. -/
  | waitingReady
  /-- Before the `i`th other worker. -/
  | peers (i : ℕ)
  /-- After the call. -/
  | returned
  deriving DecidableEq, Repr

/-- A worker and the queue of its listening socket. -/
structure Worker where
  /-- Where it is. -/
  pc : WorkerPc
  /-- What the root has written, once it is read. -/
  config : Option PeerConfig
  /-- Connections that have not been accepted. -/
  backlog : List Connection
  /-- Connection in each slot. -/
  sockets : ℕ → Option Connection
  /-- Nodes that have connected, in order. -/
  arrived : List ℕ

/-- All nodes and the messages on their connections. -/
structure NetState where
  /-- Where the root is. -/
  root : RootPc
  /-- The root's connection in each slot. -/
  rootSockets : ℕ → Option Connection
  /-- Workers by node index. -/
  workers : ℕ → Worker
  /-- What the root has written. -/
  config : Connection → Option PeerConfig
  /-- Connections with the answer of a worker. -/
  acked : Connection → Bool
  /-- Connections with the message that the root is ready. -/
  ready : Connection → Bool

/-- Nothing has happened, and all workers listen. -/
def NetState.start : NetState where
  root := .connecting 0
  rootSockets _ := none
  workers _ := ⟨.accepting, none, [], fun _ => none, []⟩
  config _ := none
  acked _ := false
  ready _ := false

namespace NetState

variable (s : NetState)

/-- Replace a worker. -/
def put (w : ℕ) (x : Worker) : NetState := { s with workers := Function.update s.workers w x }

/-- A connection enters the queue of the node that listens. -/
def arrive (c : Connection) : NetState :=
  let x := s.workers c.server
  s.put c.server { x with backlog := x.backlog ++ [c], arrived := x.arrived ++ [c.client] }

/-- Next step of the root. -/
def rootStep (n : ℕ) : Option NetState :=
  match s.root with
  | .connecting i =>
    if i < n then
      let c : Connection := ⟨0, i + 1⟩
      some { s.arrive c with
        root := .waitingAck i
        rootSockets := Function.update s.rootSockets i (some c)
        config := Function.update s.config c (some ⟨n + 1, i + 1, hosts (i + 1) (n + 1)⟩) }
    else some { s with root := .broadcasting 0 }
  | .waitingAck i =>
    if (s.rootSockets i).any s.acked then some { s with root := .connecting (i + 1) } else none
  | .broadcasting i =>
    if i < n then
      (s.rootSockets i).map fun c =>
        { s with root := .broadcasting (i + 1), ready := Function.update s.ready c true }
    else some { s with root := .returned }
  | .returned => none

/-- Next step of a worker for the `i`th other worker. -/
def peerStep (w : ℕ) (x : Worker) (config : PeerConfig) (i : ℕ) : Option NetState :=
  let other := otherWorkerIndex config.nodeIndex i
  let socketIndex := serveSocketIndex config.nodeIndex other
  if other < config.nodeIndex then
    match x.backlog with
    | [] => none
    | c :: backlog =>
      some (s.put w { x with
        pc := .peers (i + 1), backlog := backlog
        sockets := Function.update x.sockets socketIndex (some c) })
  else
    let c : Connection := ⟨w, config.hosts.getD i 0⟩
    some ((s.put w { x with
      pc := .peers (i + 1)
      sockets := Function.update x.sockets socketIndex (some c) }).arrive c)

/-- Next step of a worker. -/
def workerStep (w : ℕ) : Option NetState :=
  let x := s.workers w
  match x.pc with
  | .accepting =>
    match x.backlog with
    | [] => none
    | c :: backlog =>
      some (s.put w { x with
        pc := .reading, backlog := backlog, sockets := Function.update x.sockets 0 (some c) })
  | .reading =>
    match x.sockets 0 with
    | none => none
    | some c => (s.config c).map fun config =>
      { s.put w { x with pc := .waitingReady, config := some config } with
        acked := Function.update s.acked c true }
  | .waitingReady =>
    if (x.sockets 0).any s.ready then some (s.put w { x with pc := .peers 0 }) else none
  | .peers i =>
    match x.config with
    | none => none
    | some config =>
      if i < config.nNodes - 2 then s.peerStep w x config i
      else some (s.put w { x with pc := .returned })
  | .returned => none

/-- One step of a node, if it is not waiting. Node 0 is the root. -/
def step (n node : ℕ) : Option NetState :=
  if node = 0 then s.rootStep n else if node ≤ n then s.workerStep node else none

/-- Steps in any order of the nodes. -/
def steps (n : ℕ) : NetState → List ℕ → Option NetState
  | s, [] => some s
  | s, node :: nodes => (s.step n node).bind fun s => steps n s nodes

/-- The calls of all nodes have returned. -/
def Returned (n : ℕ) : Prop :=
  s.root = .returned ∧ ∀ w, 0 < w → w ≤ n → (s.workers w).pc = .returned

/-- The connection that a node stores in a slot. -/
def socket (node slot : ℕ) : Option Connection :=
  if node = 0 then s.rootSockets slot else (s.workers node).sockets slot

/-- A slot is the one of a peer: `getSocketIndexForNode` computes it, or
`getPipelineSocketIndex` does for a stage whose node on the lane is the peer. -/
def SlotOf (F : Type) (node peer slot : ℕ) : Prop :=
  slot = getSocketIndexForNode node peer ∨
    ∃ (c : NnPipelineCommunicator F) (targetPpRank : ℕ), c.myNodeIndex = node ∧
      c.topology.getGlobalRank targetPpRank c.mySpRank c.myTpRank = .ok peer ∧
      c.getPipelineSocketIndex targetPpRank = .ok slot

/-- Every node has stored the connection with each peer in the slots of this peer. -/
def SlotsRight (F : Type) (n : ℕ) : Prop :=
  ∀ node ≤ n, ∀ peer ≤ n, peer ≠ node → ∀ slot, SlotOf F node peer slot →
    ∃ c, s.socket node slot = some c ∧ c.Joins node peer

/-- At every worker the other nodes have connected in the order of their indices. -/
def ArrivedInOrder (n : ℕ) : Prop :=
  ∀ w, 0 < w → w ≤ n → (s.workers w).arrived.Pairwise (· < ·)

end NetState

section Workers

variable {n w : ℕ} {x : Worker}

/-- Connections that a worker has accepted. -/
def accepted (w : ℕ) : WorkerPc → ℕ
  | .accepting => 0
  | .reading => 1
  | .waitingReady => 1
  | .peers i => 1 + min i (w - 1)
  | .returned => w

/-- A worker has read what the root has written. -/
def WorkerPc.Configured : WorkerPc → Prop
  | .accepting => False
  | .reading => False
  | .waitingReady => True
  | .peers _ => True
  | .returned => True

/-- Worker `v` has connected to worker `w`. -/
def WorkerPc.ConnectedTo (v w : ℕ) : WorkerPc → Prop
  | .accepting => False
  | .reading => False
  | .waitingReady => False
  | .peers i => v < w ∧ w ≤ i + 1
  | .returned => v < w

/-- What holds of a worker at any time. -/
structure WorkerInv (n w : ℕ) (x : Worker) : Prop where
  /-- Connections in the queue end here. -/
  server : ∀ c ∈ x.backlog, c.server = w
  /-- Connections are accepted in the order in which they have come, one slot each. -/
  taken : ∃ done : List ℕ, x.arrived = done ++ x.backlog.map Connection.client ∧
    done.length = accepted w x.pc ∧
    ∀ j v : ℕ, done[j]? = some v → x.sockets j = some ⟨v, w⟩
  /-- The index and the hosts are those the root has for this worker. -/
  config : x.pc.Configured → x.config = some ⟨n + 1, w, hosts w (n + 1)⟩
  /-- The loop has one round for each other worker. -/
  round : ∀ i, x.pc = .peers i → i ≤ n - 1
  /-- Connections to higher workers are in their slots. -/
  made : ∀ v ≤ n, x.pc.ConnectedTo w v → x.sockets (v - 1) = some ⟨w, v⟩

theorem WorkerInv.start : WorkerInv n w ⟨.accepting, none, [], fun _ => none, []⟩ := by
  constructor
  · intro c hc
    cases hc
  · refine ⟨[], rfl, rfl, ?_⟩
    intro j v hj
    cases hj
  · intro h
    exact h.elim
  · intro i hi
    cases hi
  · intro v _ hv
    exact hv.elim

/-- A connection that comes in changes nothing that is stored. -/
theorem WorkerInv.arrive (h : WorkerInv n w x) {c : Connection} (hc : c.server = w) :
    WorkerInv n w { x with backlog := x.backlog ++ [c], arrived := x.arrived ++ [c.client] } := by
  have ⟨done, harrived, hlen, hslots⟩ := h.taken
  constructor
  · intro d hd
    cases List.mem_append.mp hd with
    | inl hold => exact h.server d hold
    | inr hnew =>
      rw [List.mem_singleton.mp hnew]
      exact hc
  · refine ⟨done, ?_, hlen, hslots⟩
    simp only [harrived, List.map_append, List.map_cons, List.map_nil, List.append_assoc]
  · exact h.config
  · exact h.round
  · exact h.made

/-- The head of the queue goes to the next slot. -/
theorem taken_accept {c : Connection} (backlog : List Connection) {done : List ℕ}
    {sockets : ℕ → Option Connection} (hserver : c.server = w)
    (hslots : ∀ j v : ℕ, done[j]? = some v → sockets j = some ⟨v, w⟩) :
    (done ++ (c :: backlog).map Connection.client =
        (done ++ [c.client]) ++ backlog.map Connection.client) ∧
      ∀ j v : ℕ, (done ++ [c.client])[j]? = some v →
        Function.update sockets done.length (some c) j = some ⟨v, w⟩ := by
  constructor
  · simp
  · intro j v hj
    by_cases hlast : j = done.length
    · rw [hlast] at hj ⊢
      rw [List.getElem?_append_right (Nat.le_refl _), Nat.sub_self] at hj
      injection hj with hv
      rw [Function.update_self, ← hv, ← hserver]
    · have hlt : j < done.length := by
        have hbound := (List.getElem?_eq_some_iff.mp hj).1
        rw [List.length_append, List.length_singleton] at hbound
        omega
      rw [List.getElem?_append_left hlt] at hj
      rw [Function.update_of_ne hlast]
      exact hslots j v hj

/-- The first connection goes to slot 0. -/
theorem WorkerInv.acceptFirst (h : WorkerInv n w x) (hpc : x.pc = .accepting) {c : Connection}
    {backlog : List Connection} (hbacklog : x.backlog = c :: backlog) :
    WorkerInv n w { x with
      pc := .reading, backlog := backlog, sockets := Function.update x.sockets 0 (some c) } := by
  have ⟨done, harrived, hlen, hslots⟩ := h.taken
  have hserver : c.server = w := h.server c (by rw [hbacklog]; exact List.mem_cons_self)
  have hzero : done.length = 0 := by rw [hlen, hpc]; rfl
  have htaken := taken_accept backlog hserver hslots
  rw [hzero] at htaken
  constructor
  · intro d hd
    exact h.server d (by rw [hbacklog]; exact List.mem_cons_of_mem c hd)
  · refine ⟨done ++ [c.client], ?_, ?_, htaken.2⟩
    · rw [harrived, hbacklog]
      exact htaken.1
    · rw [List.length_append, hzero]
      rfl
  · intro hconf
    exact hconf.elim
  · intro i hi
    cases hi
  · intro v _ hv
    exact hv.elim

/-- What the root has written is read. -/
theorem WorkerInv.read (h : WorkerInv n w x) (hpc : x.pc = .reading) :
    WorkerInv n w { x with
      pc := .waitingReady, config := some ⟨n + 1, w, hosts w (n + 1)⟩ } := by
  have ⟨done, harrived, hlen, hslots⟩ := h.taken
  rw [hpc] at hlen
  constructor
  · exact h.server
  · exact ⟨done, harrived, hlen, hslots⟩
  · intro _
    rfl
  · intro i hi
    cases hi
  · intro v _ hv
    exact hv.elim

/-- The loop over the other workers starts. -/
theorem WorkerInv.go (hw : 0 < w) (h : WorkerInv n w x) (hpc : x.pc = .waitingReady) :
    WorkerInv n w { x with pc := .peers 0 } := by
  have ⟨done, harrived, hlen, hslots⟩ := h.taken
  rw [hpc] at hlen
  constructor
  · exact h.server
  · exact ⟨done, harrived, by rw [hlen]; simp [accepted], hslots⟩
  · intro _
    exact h.config (by rw [hpc]; trivial)
  · intro i hi
    injection hi with hi
    omega
  · intro v _ hv
    have hbounds : w < v ∧ v ≤ 0 + 1 := hv
    omega

/-- The next lower worker's slot is given to the head of the queue. -/
theorem WorkerInv.acceptPeer (h : WorkerInv n w x) {i : ℕ} (hpc : x.pc = .peers i)
    (hi : i < n - 1) (hlower : otherWorkerIndex w i < w) {c : Connection}
    {backlog : List Connection} (hbacklog : x.backlog = c :: backlog) :
    WorkerInv n w { x with
      pc := .peers (i + 1), backlog := backlog
      sockets := Function.update x.sockets (serveSocketIndex w (otherWorkerIndex w i))
        (some c) } := by
  have ⟨done, harrived, hlen, hslots⟩ := h.taken
  have hserver : c.server = w := h.server c (by rw [hbacklog]; exact List.mem_cons_self)
  have hbelow : i < w - 1 := by
    unfold otherWorkerIndex at hlower
    split at hlower
    · assumption
    · omega
  have hother : otherWorkerIndex w i = i + 1 := if_pos hbelow
  have hslot : serveSocketIndex w (otherWorkerIndex w i) = i + 1 := by
    unfold serveSocketIndex
    rw [if_pos hlower, hother]
  have hdone : done.length = i + 1 := by
    rw [hlen, hpc]
    simp only [accepted]
    omega
  have htaken := taken_accept backlog hserver hslots
  rw [hdone] at htaken
  rw [hslot]
  constructor
  · intro d hd
    exact h.server d (by rw [hbacklog]; exact List.mem_cons_of_mem c hd)
  · refine ⟨done ++ [c.client], ?_, ?_, htaken.2⟩
    · rw [harrived, hbacklog]
      exact htaken.1
    · rw [List.length_append, List.length_singleton, hdone]
      simp only [accepted]
      omega
  · intro _
    exact h.config (by rw [hpc]; trivial)
  · intro j hj
    injection hj with hj
    omega
  · intro v _ hv
    have hbounds : w < v ∧ v ≤ i + 1 + 1 := hv
    omega

/-- The next higher worker's slot is given to a new connection. -/
theorem WorkerInv.connectPeer (hw : 0 < w) (hwn : w ≤ n) (h : WorkerInv n w x) {i : ℕ}
    (hpc : x.pc = .peers i) (hi : i < n - 1) (hupper : ¬otherWorkerIndex w i < w) :
    (hosts w (n + 1)).getD i 0 = i + 2 ∧ w ≤ i + 1 ∧
    WorkerInv n w { x with
      pc := .peers (i + 1)
      sockets := Function.update x.sockets (serveSocketIndex w (otherWorkerIndex w i))
        (some ⟨w, (hosts w (n + 1)).getD i 0⟩) } := by
  have ⟨done, harrived, hlen, hslots⟩ := h.taken
  have habove : ¬i < w - 1 := by
    intro hlt
    unfold otherWorkerIndex at hupper
    rw [if_pos hlt] at hupper
    omega
  have hother : otherWorkerIndex w i = i + 2 := if_neg habove
  have hslot : serveSocketIndex w (otherWorkerIndex w i) = i + 1 := by
    unfold serveSocketIndex
    rw [if_neg hupper, hother]
    rfl
  have hhost : (hosts w (n + 1)).getD i 0 = i + 2 := by
    rw [hosts_getD hw (by omega) (by omega), hother]
  have hdone : done.length = w := by
    rw [hlen, hpc]
    simp only [accepted]
    omega
  refine ⟨hhost, by omega, ?_⟩
  rw [hslot, hhost]
  constructor
  · exact h.server
  · refine ⟨done, harrived, ?_, ?_⟩
    · rw [hdone]
      simp only [accepted]
      omega
    · intro j v hj
      have hbound := (List.getElem?_eq_some_iff.mp hj).1
      have hother : j ≠ i + 1 := by omega
      exact (Function.update_of_ne hother _ _).trans (hslots j v hj)
  · intro _
    exact h.config (by rw [hpc]; trivial)
  · intro j hj
    injection hj with hj
    omega
  · intro v hvn hv
    have hbounds : w < v ∧ v ≤ i + 1 + 1 := hv
    by_cases hlast : v = i + 2
    · rw [hlast]
      exact Function.update_self _ _ _
    · have hother : v - 1 ≠ i + 1 := by omega
      refine (Function.update_of_ne hother _ _).trans (h.made v hvn ?_)
      rw [hpc]
      exact ⟨hbounds.1, by omega⟩

/-- The loop is over. -/
theorem WorkerInv.finish (hw : 0 < w) (hwn : w ≤ n) (h : WorkerInv n w x) {i : ℕ} (hpc : x.pc = .peers i)
    (hi : ¬i < n - 1) : WorkerInv n w { x with pc := .returned } := by
  have ⟨done, harrived, hlen, hslots⟩ := h.taken
  have hround := h.round i hpc
  constructor
  · exact h.server
  · refine ⟨done, harrived, ?_, hslots⟩
    rw [hlen, hpc]
    simp only [accepted]
    omega
  · intro _
    exact h.config (by rw [hpc]; trivial)
  · intro j hj
    cases hj
  · intro v hvn hv
    apply h.made v hvn
    rw [hpc]
    have hbounds : w < v := hv
    exact ⟨hbounds, by omega⟩

end Workers

section Runs

variable {n : ℕ} {s s' : NetState}

/-- The root has connected to worker `w`. -/
def RootPc.ConnectedTo (w : ℕ) : RootPc → Prop
  | .connecting i => w ≤ i
  | .waitingAck i => w ≤ i + 1
  | .broadcasting _ => True
  | .returned => True

/-- The root is at one of its workers. -/
def RootPc.InRange (n : ℕ) : RootPc → Prop
  | .connecting i => i ≤ n
  | .waitingAck i => i < n
  | .broadcasting _ => True
  | .returned => True

/-- A node has connected to worker `w`. -/
def NetState.ConnectedTo (s : NetState) (n v w : ℕ) : Prop :=
  if v = 0 then s.root.ConnectedTo w else v ≤ n ∧ (s.workers v).pc.ConnectedTo v w

/-- What holds of all nodes at any time. -/
structure NetInv (n : ℕ) (s : NetState) : Prop where
  /-- Every worker. -/
  workers : ∀ w, 0 < w → w ≤ n → WorkerInv n w (s.workers w)
  /-- The nodes that have connected to a worker are recorded there, each once. -/
  arrived : ∀ w, 0 < w → w ≤ n → (s.workers w).arrived.Nodup ∧
    ∀ v, v ∈ (s.workers w).arrived ↔ s.ConnectedTo n v w
  /-- The root writes to each worker its index. -/
  config : ∀ c config, s.config c = some config →
    config = ⟨n + 1, c.server, hosts c.server (n + 1)⟩
  /-- The root goes through the workers. -/
  root : s.root.InRange n
  /-- The root's connections are in their slots. -/
  rootSockets : ∀ i < n, s.root.ConnectedTo (i + 1) → s.rootSockets i = some ⟨0, i + 1⟩

theorem NetInv.start : NetInv n .start := by
  constructor
  · intro w _ _
    exact WorkerInv.start
  · intro w hw _
    constructor
    · exact List.nodup_nil
    · intro v
      constructor
      · intro hv
        cases hv
      · intro hv
        unfold NetState.ConnectedTo at hv
        split at hv
        · have hle : w ≤ 0 := hv
          omega
        · exact hv.2.elim
  · intro c config hc
    cases hc
  · exact Nat.zero_le n
  · intro i _ hi
    have hle : i + 1 ≤ 0 := hi
    omega

@[simp] theorem put_self (s : NetState) (w : ℕ) (x : Worker) : (s.put w x).workers w = x :=
  Function.update_self _ _ _

@[simp] theorem put_of_ne (s : NetState) {v w : ℕ} (h : v ≠ w) (x : Worker) :
    (s.put w x).workers v = s.workers v := Function.update_of_ne h _ _

@[simp] theorem arrive_pc (s : NetState) (c : Connection) (w : ℕ) :
    ((s.arrive c).workers w).pc = (s.workers w).pc := by
  unfold NetState.arrive
  by_cases h : w = c.server
  · rw [h, put_self]
  · rw [put_of_ne _ h]

/-- A step of one worker that connects to no one. -/
theorem NetInv.put (h : NetInv n s) {w : ℕ} {x : Worker} (hx : WorkerInv n w x)
    (harrived : x.arrived = (s.workers w).arrived)
    (hpc : ∀ v, 0 < v → v ≤ n → (x.pc.ConnectedTo w v ↔ (s.workers w).pc.ConnectedTo w v)) :
    NetInv n (s.put w x) := by
  constructor
  · intro w' hw' hwn'
    by_cases he : w' = w
    · rw [he, put_self]
      exact hx
    · rw [put_of_ne s he]
      exact h.workers w' hw' hwn'
  · intro w' hw' hwn'
    have hold := h.arrived w' hw' hwn'
    have hsame : ((s.put w x).workers w').arrived = (s.workers w').arrived := by
      by_cases he : w' = w
      · rw [he, put_self]
        exact harrived
      · rw [put_of_ne s he]
    rw [hsame]
    refine ⟨hold.1, ?_⟩
    intro v
    rw [hold.2 v]
    unfold NetState.ConnectedTo
    by_cases hv : v = 0
    · rw [if_pos hv, if_pos hv]
      rfl
    · rw [if_neg hv, if_neg hv]
      by_cases he : v = w
      · rw [he, put_self, hpc w' hw' hwn']
      · rw [put_of_ne s he]
  · exact h.config
  · exact h.root
  · exact h.rootSockets

/-- A new connection is recorded at its end. -/
theorem arrive_workers (connected : ℕ → ℕ → Prop) {v t : ℕ}
    (hinv : ∀ w, 0 < w → w ≤ n → WorkerInv n w (s.workers w))
    (harrived : ∀ w, 0 < w → w ≤ n → (s.workers w).arrived.Nodup ∧
      ∀ u, u ∈ (s.workers w).arrived ↔ connected u w)
    (hnew : ¬connected v t) :
    ∀ w, 0 < w → w ≤ n → WorkerInv n w ((s.arrive ⟨v, t⟩).workers w) ∧
      ((s.arrive ⟨v, t⟩).workers w).arrived.Nodup ∧
      ∀ u, u ∈ ((s.arrive ⟨v, t⟩).workers w).arrived ↔ connected u w ∨ u = v ∧ w = t := by
  intro w hw hwn
  have hold := harrived w hw hwn
  unfold NetState.arrive
  by_cases he : w = t
  · rw [he] at hold hw hwn ⊢
    rw [put_self]
    refine ⟨(hinv t hw hwn).arrive rfl, ?_, ?_⟩
    · apply List.nodup_append.mpr
      refine ⟨hold.1, List.nodup_singleton v, ?_⟩
      intro a ha b hb hab
      rw [List.mem_singleton.mp hb] at hab
      rw [hab] at ha
      exact hnew ((hold.2 v).mp ha)
    · intro u
      rw [List.mem_append, hold.2 u, List.mem_singleton]
      simp
  · rw [put_of_ne _ he]
    refine ⟨hinv w hw hwn, hold.1, ?_⟩
    intro u
    rw [hold.2 u]
    simp [he]

/-- A step of the root that connects to no one. -/
theorem NetInv.rootMove (h : NetInv n s) (pc : RootPc) (hrange : pc.InRange n)
    (hpc : ∀ w, 0 < w → w ≤ n → (pc.ConnectedTo w ↔ s.root.ConnectedTo w))
    (ready : Connection → Bool) : NetInv n { s with root := pc, ready := ready } := by
  constructor
  · exact h.workers
  · intro w hw hwn
    have hold := h.arrived w hw hwn
    refine ⟨hold.1, ?_⟩
    intro v
    rw [hold.2 v]
    unfold NetState.ConnectedTo
    by_cases hv : v = 0
    · rw [if_pos hv, if_pos hv]
      exact (hpc w hw hwn).symm
    · rw [if_neg hv, if_neg hv]
  · exact h.config
  · exact hrange
  · intro i hi hconn
    exact h.rootSockets i hi ((hpc (i + 1) (Nat.succ_pos i) hi).mp hconn)

theorem NetInv.rootStep (h : NetInv n s) (hs : s.rootStep n = some s') : NetInv n s' := by
  unfold NetState.rootStep at hs
  cases hpc : s.root with
  | connecting i =>
    rw [hpc] at hs
    simp only at hs
    split at hs
    · rename_i hi
      injection hs with hs
      have hnew : ¬s.ConnectedTo n 0 (i + 1) := by
        unfold NetState.ConnectedTo
        rw [if_pos rfl, hpc]
        exact Nat.not_succ_le_self i
      have hadded := arrive_workers (s.ConnectedTo n) h.workers h.arrived hnew
      rw [← hs]
      constructor
      · intro w hw hwn
        exact (hadded w hw hwn).1
      · intro w hw hwn
        refine ⟨(hadded w hw hwn).2.1, ?_⟩
        intro v
        refine ((hadded w hw hwn).2.2 v).trans ?_
        unfold NetState.ConnectedTo
        by_cases hv : v = 0
        · rw [if_pos hv, if_pos hv, hpc]
          simp only [RootPc.ConnectedTo]
          omega
        · rw [if_neg hv, if_neg hv, arrive_pc]
          simp [hv]
      · intro c config hc
        dsimp only at hc
        by_cases he : c = ⟨0, i + 1⟩
        · rw [he, Function.update_self] at hc
          injection hc with hc
          rw [← hc, he]
        · rw [Function.update_of_ne he] at hc
          exact h.config c config hc
      · exact hi
      · intro j hj hconn
        have hle : j + 1 ≤ i + 1 := hconn
        dsimp only
        by_cases he : j = i
        · rw [he, Function.update_self]
        · rw [Function.update_of_ne he]
          apply h.rootSockets j hj
          rw [hpc]
          have hlt : j + 1 ≤ i := by omega
          exact hlt
    · rename_i hi
      injection hs with hs
      have hrange := h.root
      rw [hpc] at hrange
      have hle : i ≤ n := hrange
      rw [← hs]
      refine h.rootMove (.broadcasting 0) trivial ?_ s.ready
      intro w _ hwn
      have hconn : s.root.ConnectedTo w := by
        rw [hpc]
        exact Nat.le_trans hwn (Nat.le_of_not_lt hi)
      exact ⟨fun _ => hconn, fun _ => trivial⟩
  | waitingAck i =>
    rw [hpc] at hs
    simp only at hs
    split at hs
    · injection hs with hs
      have hrange := h.root
      rw [hpc] at hrange
      rw [← hs]
      refine h.rootMove (.connecting (i + 1)) hrange ?_ s.ready
      intro w _ _
      rw [hpc]
      exact Iff.rfl
    · cases hs
  | broadcasting i =>
    have hsame (pc : RootPc) (hpc' : ∀ w, pc.ConnectedTo w) (w : ℕ) (_ : 0 < w) (_ : w ≤ n) :
        pc.ConnectedTo w ↔ s.root.ConnectedTo w := by
      rw [hpc]
      exact ⟨fun _ => trivial, fun _ => hpc' w⟩
    rw [hpc] at hs
    simp only at hs
    split at hs
    · have ⟨c, _, hs⟩ := Option.map_eq_some_iff.mp hs
      rw [← hs]
      exact h.rootMove (.broadcasting (i + 1)) trivial (hsame _ fun _ => trivial) _
    · injection hs with hs
      rw [← hs]
      exact h.rootMove .returned trivial (hsame _ fun _ => trivial) s.ready
  | returned =>
    rw [hpc] at hs
    cases hs

theorem NetInv.peerStep (h : NetInv n s) {w i : ℕ} (hw : 0 < w) (hwn : w ≤ n)
    (hpc : (s.workers w).pc = .peers i) (hi : i < n - 1)
    (hs : s.peerStep w (s.workers w) ⟨n + 1, w, hosts w (n + 1)⟩ i = some s') : NetInv n s' := by
  have hworker := h.workers w hw hwn
  unfold NetState.peerStep at hs
  simp only at hs
  split at hs
  · rename_i hlower
    split at hs
    · cases hs
    · rename_i c backlog hbacklog
      injection hs with hs
      rw [← hs]
      refine h.put (hworker.acceptPeer hpc hi hlower hbacklog) rfl ?_
      intro v _ _
      have hbelow : i < w - 1 := by
        unfold otherWorkerIndex at hlower
        split at hlower
        · assumption
        · omega
      rw [hpc]
      simp only [WorkerPc.ConnectedTo]
      omega
  · rename_i hupper
    have ⟨hhost, hle, hnext⟩ := hworker.connectPeer hw hwn hpc hi hupper
    injection hs with hs
    have hv : w ≠ 0 := by omega
    have hnew : ¬s.ConnectedTo n w (i + 2) := by
      unfold NetState.ConnectedTo
      rw [if_neg hv, hpc]
      simp only [WorkerPc.ConnectedTo]
      omega
    rw [← hs, hhost]
    rw [hhost] at hnext
    generalize hx : ({ s.workers w with
      pc := .peers (i + 1)
      sockets := Function.update (s.workers w).sockets (serveSocketIndex w (otherWorkerIndex w i))
        (some ⟨w, i + 2⟩) } : Worker) = x at hnext ⊢
    have hxpc : x.pc = .peers (i + 1) := by rw [← hx]
    have hxarrived : x.arrived = (s.workers w).arrived := by rw [← hx]
    have hworkers : ∀ u, 0 < u → u ≤ n → WorkerInv n u ((s.put w x).workers u) := by
      intro u hu hun
      by_cases he : u = w
      · rw [he, put_self]
        exact hnext
      · rw [put_of_ne s he]
        exact h.workers u hu hun
    have harrived : ∀ u, 0 < u → u ≤ n → ((s.put w x).workers u).arrived.Nodup ∧
        ∀ v, v ∈ ((s.put w x).workers u).arrived ↔ s.ConnectedTo n v u := by
      intro u hu hun
      have hold := h.arrived u hu hun
      by_cases he : u = w
      · rw [he] at hold ⊢
        rw [put_self, hxarrived]
        exact hold
      · rw [put_of_ne s he]
        exact hold
    have hadded := arrive_workers (s.ConnectedTo n) hworkers harrived hnew
    constructor
    · intro u hu hun
      exact (hadded u hu hun).1
    · intro u hu hun
      refine ⟨(hadded u hu hun).2.1, ?_⟩
      intro v
      refine ((hadded u hu hun).2.2 v).trans ?_
      unfold NetState.ConnectedTo
      by_cases hzero : v = 0
      · have hne : ¬(v = w ∧ u = i + 2) := by omega
        rw [if_pos hzero, if_pos hzero, or_iff_left hne]
        rfl
      · rw [if_neg hzero, if_neg hzero, arrive_pc]
        by_cases he : v = w
        · rw [he, put_self, hxpc, hpc]
          simp only [WorkerPc.ConnectedTo, true_and]
          omega
        · rw [put_of_ne s he]
          simp [he]
    · exact h.config
    · exact h.root
    · exact h.rootSockets

theorem NetInv.workerStep (h : NetInv n s) {w : ℕ} (hw : 0 < w) (hwn : w ≤ n)
    (hs : s.workerStep w = some s') : NetInv n s' := by
  have hworker := h.workers w hw hwn
  unfold NetState.workerStep at hs
  simp only at hs
  cases hpc : (s.workers w).pc with
  | accepting =>
    rw [hpc] at hs
    simp only at hs
    split at hs
    · cases hs
    · rename_i c backlog hbacklog
      injection hs with hs
      rw [← hs]
      refine h.put (hworker.acceptFirst hpc hbacklog) rfl ?_
      intro v _ _
      rw [hpc]
      exact Iff.rfl
  | reading =>
    rw [hpc] at hs
    simp only at hs
    split at hs
    · cases hs
    · rename_i c hc
      have ⟨config, hconfig, hs⟩ := Option.map_eq_some_iff.mp hs
      have ⟨done, _, hlen, hslots⟩ := hworker.taken
      have hpos : 0 < done.length := by
        rw [hlen, hpc]
        exact Nat.one_pos
      have hslot := hslots 0 _ (List.getElem?_eq_getElem hpos)
      rw [hc] at hslot
      injection hslot with hslot
      have hconfig' := h.config c config hconfig
      rw [hslot] at hconfig'
      have hread := hworker.read hpc
      rw [← hconfig'] at hread
      have hput := h.put hread rfl (by intro v _ _; rw [hpc]; exact Iff.rfl)
      rw [← hs]
      exact ⟨hput.workers, hput.arrived, hput.config, hput.root, hput.rootSockets⟩
  | waitingReady =>
    rw [hpc] at hs
    simp only at hs
    split at hs
    · injection hs with hs
      rw [← hs]
      refine h.put (hworker.go hw hpc) rfl ?_
      intro v _ _
      rw [hpc]
      constructor
      · intro hconn
        have hbounds : w < v ∧ v ≤ 0 + 1 := hconn
        omega
      · intro hconn
        exact hconn.elim
    · cases hs
  | peers i =>
    have hconfig := hworker.config (by rw [hpc]; trivial)
    rw [hpc] at hs
    simp only at hs
    split at hs
    · cases hs
    rename_i config hread
    rw [hconfig] at hread
    injection hread with hread
    rw [← hread] at hs
    simp only at hs
    split at hs
    · rename_i hi
      exact h.peerStep hw hwn hpc (by omega) hs
    · rename_i hi
      injection hs with hs
      rw [← hs]
      refine h.put (hworker.finish hw hwn hpc (by omega)) rfl ?_
      intro v _ hvn
      have hround := hworker.round i hpc
      rw [hpc]
      simp only [WorkerPc.ConnectedTo]
      omega
  | returned =>
    rw [hpc] at hs
    cases hs

theorem NetInv.step (h : NetInv n s) {node : ℕ} (hs : s.step n node = some s') : NetInv n s' := by
  unfold NetState.step at hs
  split at hs
  · exact h.rootStep hs
  · rename_i hnode
    split at hs
    · rename_i hle
      exact h.workerStep (Nat.pos_of_ne_zero hnode) hle hs
    · cases hs

theorem NetInv.steps (h : NetInv n s) {nodes : List ℕ} (hs : s.steps n nodes = some s') :
    NetInv n s' := by
  induction nodes generalizing s with
  | nil =>
    injection hs with hs
    rw [← hs]
    exact h
  | cons node nodes ih =>
    have ⟨next, hnext, hrest⟩ := Option.bind_eq_some_iff.mp hs
    exact ih (h.step hnext) hrest

/-- When all calls have returned, the nodes before a worker have connected to it, and
slot `j` holds the connection that came `j`th. -/
theorem NetInv.returned (h : NetInv n s) (hdone : s.Returned n) {w : ℕ} (hw : 0 < w)
    (hwn : w ≤ n) : (s.workers w).arrived.Perm (List.range w) ∧
      ∀ j v : ℕ, j < w → (s.workers w).arrived[j]? = some v →
        (s.workers w).sockets j = some ⟨v, w⟩ := by
  have harrived := h.arrived w hw hwn
  have ⟨done, hsplit, hlen, hslots⟩ := (h.workers w hw hwn).taken
  constructor
  · apply (List.perm_ext_iff_of_nodup harrived.1 List.nodup_range).mpr
    intro v
    rw [harrived.2 v, List.mem_range]
    unfold NetState.ConnectedTo
    by_cases hv : v = 0
    · rw [if_pos hv, hdone.1, hv]
      exact ⟨fun _ => hw, fun _ => trivial⟩
    · rw [if_neg hv]
      constructor
      · intro hconn
        have hpc := hconn.2
        rw [hdone.2 v (Nat.pos_of_ne_zero hv) hconn.1] at hpc
        exact hpc
      · intro hlt
        have hvn : v ≤ n := by omega
        rw [hdone.2 v (Nat.pos_of_ne_zero hv) hvn]
        exact ⟨hvn, hlt⟩
  · intro j v hj hv
    have hin : j < done.length := by
      rw [hlen, hdone.2 w hw hwn]
      exact hj
    rw [hsplit, List.getElem?_append_left hin] at hv
    exact hslots j v hv

/-- The slot of a node before this one is its index. -/
theorem getSocketIndexForNode_of_lt {node peer : ℕ} (h : peer < node) :
    getSocketIndexForNode node peer = peer := by
  unfold getSocketIndexForNode
  rw [if_neg (by omega)]
  split
  · rename_i hzero
    exact hzero.symm
  · rfl

theorem slotOf_iff (F : Type) {node peer slot : ℕ} (hne : peer ≠ node) :
    NetState.SlotOf F node peer slot ↔ slot = getSocketIndexForNode node peer := by
  constructor
  · intro h
    cases h with
    | inl hslot => exact hslot
    | inr hpipeline =>
      have ⟨c, targetPpRank, hnode, hrank, hslot⟩ := hpipeline
      have heq := NnPipelineCommunicator.getPipelineSocketIndex_eq hrank (by rw [hnode]; exact hne)
      rw [hslot] at heq
      injection heq with heq
      rw [heq, hnode]
  · intro h
    exact .inl h

end Runs

/-- Whatever the order of steps, once all calls have returned every node has stored
each peer in its slots exactly when at every worker the other nodes have connected
in the order of their indices. -/
theorem slotsRight_iff (F : Type) {n : ℕ} {nodes : List ℕ} {s : NetState}
    (hrun : NetState.start.steps n nodes = some s) (hdone : s.Returned n) :
    s.SlotsRight F n ↔ s.ArrivedInOrder n := by
  have hinv := NetInv.start.steps hrun
  constructor
  · intro h w hw hwn
    have ⟨hperm, hslots⟩ := hinv.returned hdone hw hwn
    have hlen : (s.workers w).arrived.length = w := by rw [hperm.length_eq, List.length_range]
    have hrange : (s.workers w).arrived = List.range w := by
      apply List.ext_getElem?
      intro j
      by_cases hj : j < w
      · have hget := List.getElem?_eq_getElem (l := (s.workers w).arrived) (i := j) (by omega)
        have hslot := hslots j _ hj hget
        have ⟨c, hc, hjoins⟩ := h w hwn j (by omega) (by omega) j
          (.inl (getSocketIndexForNode_of_lt hj).symm)
        unfold NetState.socket at hc
        rw [if_neg (by omega), hslot] at hc
        injection hc with hc
        rw [← hc] at hjoins
        rw [hget, List.getElem?_range hj]
        cases hjoins with
        | inl hback =>
          have hserver := hback.2
          dsimp only at hserver
          omega
        | inr hright =>
          have hclient := hright.1
          dsimp only at hclient
          rw [hclient]
      · rw [List.getElem?_eq_none (by omega),
          List.getElem?_eq_none (by rw [List.length_range]; omega)]
    rw [hrange]
    exact List.pairwise_lt_range
  · intro h node hnode peer hpeer hne slot hslot
    rw [(slotOf_iff F hne).mp hslot]
    unfold NetState.socket
    by_cases hroot : node = 0
    · rw [if_pos hroot, hroot]
      have hget := hinv.rootSockets (peer - 1) (by omega) (by rw [hdone.1]; trivial)
      have hback : peer - 1 + 1 = peer := by omega
      rw [hback] at hget
      exact ⟨_, hget, .inl ⟨rfl, rfl⟩⟩
    · have hw : 0 < node := Nat.pos_of_ne_zero hroot
      have ⟨hperm, hslots⟩ := hinv.returned hdone hw hnode
      rw [if_neg hroot]
      by_cases hlt : peer < node
      · have hrange : (s.workers node).arrived = List.range node :=
          List.Perm.eq_of_pairwise (fun a b _ _ hab hba => absurd hab (Nat.lt_asymm hba))
            (h node hw hnode) List.pairwise_lt_range hperm
        rw [getSocketIndexForNode_of_lt hlt]
        refine ⟨_, hslots peer peer hlt ?_, .inr ⟨rfl, rfl⟩⟩
        rw [hrange, List.getElem?_range hlt]
      · have hslot : getSocketIndexForNode node peer = peer - 1 := by
          unfold getSocketIndexForNode
          rw [if_neg hroot, if_neg (by omega), if_neg hlt]
        rw [hslot]
        refine ⟨_, (hinv.workers node hw hnode).made peer hpeer ?_, .inl ⟨rfl, rfl⟩⟩
        rw [hdone.2 node hw hnode]
        have hgt : node < peer := by omega
        exact hgt

/-- Two workers, and the root first at worker 2. -/
theorem slotsRight_iff_two_workers :
    ∃ s, NetState.start.steps 2
        [0, 1, 1, 0, 0, 2, 2, 0, 0, 0, 0, 0, 1, 2, 1, 2, 1, 2] = some s ∧
      s.Returned 2 ∧ (s.SlotsRight UInt32 2 ↔ s.ArrivedInOrder 2) ∧
      (s.workers 2).arrived = [0, 1] := by
  have hends : (NetState.start.steps 2
      [0, 1, 1, 0, 0, 2, 2, 0, 0, 0, 0, 0, 1, 2, 1, 2, 1, 2]).map
        (fun s => (s.root, (s.workers 1).pc, (s.workers 2).pc, (s.workers 2).arrived)) =
      some (.returned, .returned, .returned, [0, 1]) := by
    decide
  have ⟨s, hs, hfields⟩ := Option.map_eq_some_iff.mp hends
  have ⟨hroot, hrest⟩ := Prod.mk.inj hfields
  have ⟨hfirst, hrest⟩ := Prod.mk.inj hrest
  have ⟨hsecond, harrived⟩ := Prod.mk.inj hrest
  have hdone : s.Returned 2 := by
    constructor
    · exact hroot
    · intro w hw hwn
      interval_cases w
      · exact hfirst
      · exact hsecond
  exact ⟨s, hs, hdone, slotsRight_iff UInt32 hs hdone, harrived⟩

/-- Worker 2 is faster than worker 1 in connecting to worker 3. Worker 3 takes it for
worker 1. -/
theorem not_slotsRight_three_workers :
    ¬ ∀ (n : ℕ) (nodes : List ℕ) (s : NetState), 1 ≤ n →
      NetState.start.steps n nodes = some s → s.Returned n → s.SlotsRight UInt32 n := by
  intro h
  have hends : (NetState.start.steps 3
      [0, 1, 1, 0, 0, 2, 2, 0, 0, 3, 3, 0, 0, 0, 0, 0, 0,
        1, 2, 3, 1, 2, 2, 3, 1, 3, 1, 2, 3]).map
        (fun s => (s.root, (s.workers 1).pc, (s.workers 2).pc, (s.workers 3).pc, s.socket 3 1)) =
      some (.returned, .returned, .returned, .returned, some ⟨2, 3⟩) := by
    decide
  have ⟨s, hs, hfields⟩ := Option.map_eq_some_iff.mp hends
  have ⟨hroot, hrest⟩ := Prod.mk.inj hfields
  have ⟨hfirst, hrest⟩ := Prod.mk.inj hrest
  have ⟨hsecond, hrest⟩ := Prod.mk.inj hrest
  have ⟨hthird, hsocket⟩ := Prod.mk.inj hrest
  have hdone : s.Returned 3 := by
    constructor
    · exact hroot
    · intro w hw hwn
      interval_cases w
      · exact hfirst
      · exact hsecond
      · exact hthird
  have ⟨c, hc, hjoins⟩ := h 3 _ s (by omega) hs hdone 3 (by omega) 1 (by omega) (by omega) 1
    (.inl (by rw [getSocketIndexForNode_of_lt (by omega)]))
  rw [hsocket] at hc
  injection hc with hc
  rw [← hc] at hjoins
  exact absurd hjoins (by unfold Connection.Joins; decide)

end LayerSkip.NetworkSetup
