import LayerSkip.NnNetwork
import Mathlib.Data.Set.Function

/-!
# Slots of the sockets at start-up

The root connects to the workers in order and sends each the hosts of the others.
A worker keeps the root in slot 0 and goes through these hosts in order. Every
slot is the one that `getSocketIndexForNode` computes for its peer.
-/

namespace LayerSkip.SocketSlots

open NnNetwork

/-- Nodes whose hosts the root sends to a worker, in the order sent. -/
def hosts (nodeIndex nNodes : ℕ) : List ℕ :=
  (List.range (nNodes - 1)).filterMap fun j => if j + 1 = nodeIndex then none else some (j + 1)

/-- Node that a worker takes the `i`th host for. -/
def otherWorkerIndex (nodeIndex i : ℕ) : ℕ := if i < nodeIndex - 1 then i + 1 else i + 2

/-- Slot that a worker gives another worker. -/
def serveSocketIndex (nodeIndex otherWorker : ℕ) : ℕ :=
  if otherWorker < nodeIndex then otherWorker else otherWorker - 1

/-- Hosts and slots of a worker in the order of `NnNetwork::serve`. -/
def serveSlots (nodeIndex nNodes : ℕ) : List (ℕ × ℕ) :=
  (0, 0) :: (List.range (nNodes - 2)).map fun i =>
    ((hosts nodeIndex nNodes).getD i 0,
      serveSocketIndex nodeIndex (otherWorkerIndex nodeIndex i))

/-- Peers and slots of the root in the order of `NnNetwork::connect`. -/
def connectSlots (nNodes : ℕ) : List (ℕ × ℕ) := (List.range (nNodes - 1)).map fun i => (i + 1, i)

/-- Peers and slots of a node. -/
def nodeSlots (nodeIndex nNodes : ℕ) : List (ℕ × ℕ) :=
  if nodeIndex = 0 then connectSlots nNodes else serveSlots nodeIndex nNodes

/-- The worker takes each host for the node that it is. -/
theorem hosts_eq {nodeIndex nNodes : ℕ} (hpos : 0 < nodeIndex) (hlt : nodeIndex < nNodes) :
    hosts nodeIndex nNodes = (List.range (nNodes - 2)).map (otherWorkerIndex nodeIndex) := by
  have hall (m : ℕ) :
      ((List.range m).filterMap fun j => if j + 1 = nodeIndex then none else some (j + 1)) =
        (List.range (if m < nodeIndex then m else m - 1)).map (otherWorkerIndex nodeIndex) := by
    induction m with
    | zero => simp
    | succ m ih =>
      rw [List.range_succ, List.filterMap_append, ih]
      rcases Nat.lt_trichotomy (m + 1) nodeIndex with hbelow | hself | habove
      · have hlast : otherWorkerIndex nodeIndex m = m + 1 := if_pos (by omega)
        rw [if_pos (by omega), if_pos hbelow, List.range_succ, List.map_append]
        simp [hlast, Nat.ne_of_lt hbelow]
      · have hm : m = nodeIndex - 1 := by omega
        rw [if_pos (by omega), if_neg (by omega)]
        simp [hm, Nat.sub_add_cancel hpos]
      · have hpred : m = m - 1 + 1 := by omega
        have hlast : otherWorkerIndex nodeIndex (m - 1) = m + 1 := by
          unfold otherWorkerIndex
          rw [if_neg (by omega)]
          omega
        have hrange : List.range (m + 1 - 1) = List.range (m - 1) ++ [m - 1] := by
          rw [← List.range_succ]
          congr 1
        rw [if_neg (by omega), if_neg (by omega), hrange, List.map_append]
        simp [hlast, Nat.ne_of_gt habove]
  have hone := hall (nNodes - 1)
  rw [if_neg (by omega)] at hone
  exact hone

theorem hosts_getD {nodeIndex nNodes i : ℕ} (hpos : 0 < nodeIndex) (hlt : nodeIndex < nNodes)
    (hi : i < nNodes - 2) :
    (hosts nodeIndex nNodes).getD i 0 = otherWorkerIndex nodeIndex i := by
  rw [hosts_eq hpos hlt, List.getD_eq_getElem?_getD, List.getElem?_map, List.getElem?_range hi]
  rfl

/-- The `i`th host belongs to another worker. -/
theorem otherWorkerIndex_mem {nodeIndex nNodes i : ℕ} (hpos : 0 < nodeIndex)
    (hlt : nodeIndex < nNodes) (hi : i < nNodes - 2) :
    0 < otherWorkerIndex nodeIndex i ∧ otherWorkerIndex nodeIndex i < nNodes ∧
      otherWorkerIndex nodeIndex i ≠ nodeIndex := by
  unfold otherWorkerIndex
  split <;> omega

/-- The slots that `serve` fills are those computed for the peers. -/
theorem mem_serveSlots {nodeIndex nNodes : ℕ} (hpos : 0 < nodeIndex) (hlt : nodeIndex < nNodes)
    {peer slot : ℕ} :
    (peer, slot) ∈ serveSlots nodeIndex nNodes ↔
      peer < nNodes ∧ peer ≠ nodeIndex ∧ slot = getSocketIndexForNode nodeIndex peer := by
  unfold serveSlots
  rw [List.mem_cons, List.mem_map]
  constructor
  · intro h
    rcases h with hroot | ⟨i, hi, hpair⟩
    · injection hroot with hpeer hslot
      rw [hpeer, hslot]
      exact ⟨by omega, by omega, by simp [getSocketIndexForNode]⟩
    · injection hpair with hpeer hslot
      have hbound := List.mem_range.mp hi
      have hother := otherWorkerIndex_mem hpos hlt hbound
      rw [hosts_getD hpos hlt hbound] at hpeer
      rw [hpeer] at hother hslot
      have hsocket : getSocketIndexForNode nodeIndex peer = serveSocketIndex nodeIndex peer := by
        unfold getSocketIndexForNode serveSocketIndex
        rw [if_neg (by omega), if_neg (by omega)]
      exact ⟨hother.2.1, hother.2.2, hsocket ▸ hslot.symm⟩
  · intro h
    obtain ⟨hbound, hne, hslot⟩ := h
    by_cases hroot : peer = 0
    · left
      rw [hslot, hroot]
      simp [getSocketIndexForNode]
    · right
      have hback : otherWorkerIndex nodeIndex (if peer < nodeIndex then peer - 1 else peer - 2) =
          peer := by
        rcases Nat.lt_or_gt_of_ne hne with hbelow | habove
        · rw [if_pos hbelow, otherWorkerIndex, if_pos (by omega)]
          omega
        · have hnot : ¬peer < nodeIndex := by omega
          rw [if_neg hnot, otherWorkerIndex, if_neg (by omega)]
          omega
      have hrange : (if peer < nodeIndex then peer - 1 else peer - 2) < nNodes - 2 := by
        split <;> omega
      refine ⟨if peer < nodeIndex then peer - 1 else peer - 2, List.mem_range.mpr hrange, ?_⟩
      · have hworker : ¬nodeIndex = 0 := by omega
        rw [hosts_getD hpos hlt hrange, hback, hslot]
        unfold getSocketIndexForNode serveSocketIndex
        rw [if_neg hworker, if_neg hroot]

/-- The slots that `connect` fills are those computed for the peers. -/
theorem mem_connectSlots {nNodes peer slot : ℕ} :
    (peer, slot) ∈ connectSlots nNodes ↔
      peer < nNodes ∧ peer ≠ 0 ∧ slot = getSocketIndexForNode 0 peer := by
  unfold connectSlots getSocketIndexForNode
  rw [List.mem_map, if_pos rfl]
  constructor
  · intro h
    obtain ⟨i, hi, hpair⟩ := h
    injection hpair with hpeer hslot
    have hbound := List.mem_range.mp hi
    omega
  · intro h
    refine ⟨slot, List.mem_range.mpr (by omega), ?_⟩
    have hpeer : slot + 1 = peer := by omega
    rw [hpeer]

/-- Every node stores each peer in the slot computed for it. -/
theorem mem_nodeSlots {nodeIndex nNodes : ℕ} (hlt : nodeIndex < nNodes) {peer slot : ℕ} :
    (peer, slot) ∈ nodeSlots nodeIndex nNodes ↔
      peer < nNodes ∧ peer ≠ nodeIndex ∧ slot = getSocketIndexForNode nodeIndex peer := by
  unfold nodeSlots
  split
  · rename_i hroot
    rw [hroot]
    exact mem_connectSlots
  · rename_i hworker
    exact mem_serveSlots (Nat.pos_of_ne_zero hworker) hlt

/-- The peer of a slot is stored in that slot. -/
theorem getSocketIndexForNode_connectedPeer (nodeIndex slot : ℕ) :
    getSocketIndexForNode nodeIndex (connectedPeer nodeIndex slot) = slot := by
  unfold connectedPeer
  split
  · rename_i hroot
    rw [hroot]
    exact Nat.add_sub_cancel slot 1
  · rename_i hworker
    unfold getSocketIndexForNode
    rw [if_neg hworker]
    split
    · rename_i hzero
      rw [if_pos rfl, hzero]
    · rename_i hslot
      split
      · rfl
      · rw [if_neg (by omega), if_neg (by omega)]
        exact Nat.add_sub_cancel slot 1

/-- The slots of a node are the numbers below the number of its peers, each used
for one peer. -/
theorem bijOn_getSocketIndexForNode {nodeIndex nNodes : ℕ} (hlt : nodeIndex < nNodes) :
    Set.BijOn (getSocketIndexForNode nodeIndex) {peer | peer < nNodes ∧ peer ≠ nodeIndex}
      {slot | slot < nNodes - 1} := by
  refine ⟨?_, ?_, ?_⟩
  · intro peer hpeer
    exact getSocketIndexForNode_lt hlt hpeer.1 hpeer.2
  · intro peer hpeer peer' hpeer' hsame
    have hback := connectedPeer_getSocketIndexForNode hpeer.2
    rw [hsame, connectedPeer_getSocketIndexForNode hpeer'.2] at hback
    exact hback.symm
  · intro slot hslot
    have hbound : slot < nNodes - 1 := hslot
    refine ⟨connectedPeer nodeIndex slot, ⟨?_, ?_⟩,
      getSocketIndexForNode_connectedPeer nodeIndex slot⟩
    · unfold connectedPeer
      split_ifs <;> omega
    · unfold connectedPeer
      split_ifs <;> omega

end LayerSkip.SocketSlots
