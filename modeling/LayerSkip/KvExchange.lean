import LayerSkip.LaneLinks
import LayerSkip.NnCore
import LayerSkip.Rendezvous
import LayerSkip.SequenceParallel

/-!
# Exchange of key and value rows

Every rank of a sequence group holds all rows of the caches and has computed those of its
own range. The exchange sends them to the nodes with the same tensor rank and receives
theirs, up to the largest position of the batch. The rank with the lower number sends first.
-/

namespace LayerSkip.KvExchange

open NnTopology NnNetwork NnCore NodeMemory Rendezvous RandomDescent LaneLinks Relation

variable {α : Type*}

/-- The two caches of a layer on a node, in bytes. -/
structure KvBuffers (α : Type*) where
  /-- Keys. -/
  kBuf : ℕ → α
  /-- Values. -/
  vBuf : ℕ → α

/-- Two memories agree at an address of both caches. -/
def SameAt (a : ℕ) (m m' : KvBuffers α) : Prop := m.kBuf a = m'.kBuf a ∧ m.vBuf a = m'.vBuf a

theorem SameAt.trans {a : ℕ} {m m' m'' : KvBuffers α} (h : SameAt a m m') (h' : SameAt a m' m'') :
    SameAt a m m'' := ⟨h.1.trans h'.1, h.2.trans h'.2⟩

/-- Operations on the sockets of a node. -/
abbrev SocketOps (α : Type*) := List (Comm ℕ (KvBuffers α) α)

/-- Send a region of both caches. -/
def writeKv (peer start bytes : ℕ) : SocketOps α :=
  if 0 < bytes then
    [.send peer fun m => readCells m.kBuf start bytes,
      .send peer fun m => readCells m.vBuf start bytes]
  else []

/-- Receive a region of both caches. -/
def readKv (peer start bytes : ℕ) : SocketOps α :=
  if 0 < bytes then
    [.recv peer bytes fun m data => { m with kBuf := writeCells m.kBuf start data },
      .recv peer bytes fun m data => { m with vBuf := writeCells m.vBuf start data }]
  else []

/-- End of the rows of a range that the batch has reached. The next position is a word. -/
def activeEnd (positions : List ℕ) (stop : ℕ) : ℕ :=
  if (SequenceParallel.maxPos positions + 1) % 2 ^ 32 < stop then
    (SequenceParallel.maxPos positions + 1) % 2 ^ 32
  else stop

/-- Bytes of the rows of a range up to its active end. -/
def activeBytes (start active kvDim0Bytes : ℕ) : ℕ :=
  if start < active then (active - start) * kvDim0Bytes else 0

/-- `SYNC_SP_KV` on a node. -/
def kvAllGather (nodeConfig : NnNodePlacement) (syncConfig : NnKvCacheSlice)
    (positions : List ℕ) : SocketOps α :=
  let tpSize := nodeConfig.tpGroupEnd - nodeConfig.tpGroupStart
  let actualSpSize := (nodeConfig.spGroupEnd - nodeConfig.spGroupStart) / tpSize
  if actualSpSize ≤ 1 then []
  else
    let myNodeIndex := nodeConfig.globalRank
    let myTpRank := myNodeIndex - nodeConfig.tpGroupStart
    let mySpRank := (myNodeIndex - nodeConfig.spGroupStart) / tpSize
    let kvDim0Bytes := syncConfig.kvDim0 * sizeofFloat
    let myStart := syncConfig.localSeqStart
    let myActive := activeEnd positions (myStart + syncConfig.localSeqLen)
    let sendBytes := activeBytes myStart myActive kvDim0Bytes
    (List.range actualSpSize).flatMap fun spRankPeer =>
      if spRankPeer = mySpRank then []
      else
        let peerNode := nodeConfig.spGroupStart + spRankPeer * tpSize + myTpRank
        let peerSocket := getSocketIndexForNode myNodeIndex peerNode
        let peer := connectedPeer myNodeIndex peerSocket
        let peerStart := spRankPeer * syncConfig.localSeqLen
        let peerActive := activeEnd positions (peerStart + syncConfig.localSeqLen)
        let recvBytes := activeBytes peerStart peerActive kvDim0Bytes
        if mySpRank < spRankPeer then
          writeKv peer (myStart * kvDim0Bytes) sendBytes ++
            readKv peer (peerStart * kvDim0Bytes) recvBytes
        else
          readKv peer (peerStart * kvDim0Bytes) recvBytes ++
            writeKv peer (myStart * kvDim0Bytes) sendBytes

/-- What a node of the topology does when the nodes of a stage run the exchange. -/
def nodeOps (topology : NnParallelTopology) (ppRank kvDim seqLen : ℕ) (positions : List ℕ)
    (node : ℕ) : SocketOps α :=
  match topology.getPlacement node with
  | .error _ => []
  | .ok placement =>
    if placement.ppRank = ppRank then
      match sliceKvCache kvDim seqLen topology.tpSize topology.spSize placement.spRank with
      | .error _ => []
      | .ok slice => kvAllGather placement slice positions
    else []

/-- All nodes before the exchange of a stage. -/
def start (topology : NnParallelTopology) (ppRank kvDim seqLen : ℕ) (positions : List ℕ)
    (mem : ℕ → KvBuffers α) : Net ℕ (KvBuffers α) α := fun node =>
  ⟨mem node, nodeOps topology ppRank kvDim seqLen positions node⟩

/-! ### One pair of ranks -/

/-- Take a region of both caches over from another node. -/
def takeRegion (start bytes : ℕ) (source m : KvBuffers α) : KvBuffers α :=
  ⟨writeCells m.kBuf start (readCells source.kBuf start bytes),
    writeCells m.vBuf start (readCells source.vBuf start bytes)⟩

theorem writeCells_readCells_apply (before source : ℕ → α) (start bytes a : ℕ) :
    writeCells before start (readCells source start bytes) a =
      if start ≤ a ∧ a < start + bytes then source a else before a := by
  by_cases h : start ≤ a ∧ a < start + bytes
  · obtain ⟨i, hi⟩ := Nat.exists_eq_add_of_le h.1
    rw [if_pos h, hi, writeCells_inside before (readCells_getElem? source (by omega))]
  · rw [if_neg h, writeCells_outside]
    rw [readCells_length]
    omega

theorem takeRegion_zero (start : ℕ) (source m : KvBuffers α) : takeRegion start 0 source m = m := by
  have hsame (before cells : ℕ → α) :
      writeCells before start (readCells cells start 0) = before := by
    funext a
    rw [writeCells_readCells_apply, if_neg (by omega)]
  unfold takeRegion
  rw [hsame, hsame]

/-- Sent rows arrive. -/
theorem kv_transfer {n : Net ℕ (KvBuffers α) α} {p q start bytes : ℕ} (hne : p ≠ q)
    {mp mq : KvBuffers α} {rp rq : SocketOps α} (hp : n p = ⟨mp, writeKv q start bytes ++ rp⟩)
    (hq : n q = ⟨mq, readKv p start bytes ++ rq⟩) :
    ∃ n', ReflTransGen Step n n' ∧ n' p = ⟨mp, rp⟩ ∧ n' q = ⟨takeRegion start bytes mp mq, rq⟩ ∧
      ∀ other, other ≠ p → other ≠ q → n' other = n other := by
  by_cases hzero : 0 < bytes
  · unfold writeKv at hp
    unfold readKv at hq
    rw [if_pos hzero] at hp hq
    obtain ⟨n', hrun, hp', hq', hother⟩ := transfer hne hp hq (readCells_length _ _ _)
    obtain ⟨n'', hrun', hp'', hq'', hother'⟩ := transfer hne hp' hq' (readCells_length _ _ _)
    exact ⟨n'', hrun.trans hrun', hp'', hq'', fun other h h' =>
      (hother' other h h').trans (hother other h h')⟩
  · have hbytes : bytes = 0 := by omega
    unfold writeKv at hp
    unfold readKv at hq
    rw [if_neg hzero] at hp hq
    rw [hbytes, takeRegion_zero]
    exact ⟨n, .refl, hp, hq, fun _ _ _ => Eq.refl _⟩

/-! ### The ranks of a lane -/

section Lane

variable (localSeqLen kvDim0Bytes : ℕ) (positions : List ℕ)

/-- First byte of the rows of a rank. -/
def startByte (spRank : ℕ) : ℕ := spRank * localSeqLen * kvDim0Bytes

/-- Bytes that a rank sends. -/
def sentBytes (spRank : ℕ) : ℕ :=
  activeBytes (spRank * localSeqLen)
    (activeEnd positions (spRank * localSeqLen + localSeqLen)) kvDim0Bytes

/-- What a rank does with another one. -/
def talk (node : ℕ → ℕ) (spRank spRankPeer : ℕ) : SocketOps α :=
  if spRank < spRankPeer then
    writeKv (node spRankPeer) (startByte localSeqLen kvDim0Bytes spRank)
        (sentBytes localSeqLen kvDim0Bytes positions spRank) ++
      readKv (node spRankPeer) (startByte localSeqLen kvDim0Bytes spRankPeer)
        (sentBytes localSeqLen kvDim0Bytes positions spRankPeer)
  else
    readKv (node spRankPeer) (startByte localSeqLen kvDim0Bytes spRankPeer)
        (sentBytes localSeqLen kvDim0Bytes positions spRankPeer) ++
      writeKv (node spRankPeer) (startByte localSeqLen kvDim0Bytes spRank)
        (sentBytes localSeqLen kvDim0Bytes positions spRank)

/-- Memory of a rank once it has the rows of another one. -/
def put (held : ℕ → KvBuffers α) (_spRank spRankPeer : ℕ) : KvBuffers α → KvBuffers α :=
  takeRegion (startByte localSeqLen kvDim0Bytes spRankPeer)
    (sentBytes localSeqLen kvDim0Bytes positions spRankPeer) (held spRankPeer)

/-- A byte that a rank sends. -/
def Sent (spRank a : ℕ) : Prop :=
  startByte localSeqLen kvDim0Bytes spRank ≤ a ∧ a < startByte localSeqLen kvDim0Bytes spRank +
    sentBytes localSeqLen kvDim0Bytes positions spRank

/-- The rows that a rank sends are as it held them at the start. -/
def Own (held : ℕ → KvBuffers α) (spRank : ℕ) (m : KvBuffers α) : Prop :=
  ∀ a, Sent localSeqLen kvDim0Bytes positions spRank a → SameAt a m (held spRank)

variable {localSeqLen kvDim0Bytes positions}

/-- A rank sends at most the rows of its range. -/
theorem startByte_add_sentBytes_le (localSeqLen kvDim0Bytes : ℕ) (positions : List ℕ) (spRank : ℕ) :
    startByte localSeqLen kvDim0Bytes spRank + sentBytes localSeqLen kvDim0Bytes positions spRank ≤
      startByte localSeqLen kvDim0Bytes (spRank + 1) := by
  have hactive : activeEnd positions (spRank * localSeqLen + localSeqLen) ≤
      spRank * localSeqLen + localSeqLen := by
    unfold activeEnd
    split
    · exact Nat.le_of_lt ‹_›
    · exact Nat.le_refl _
  have hbytes : sentBytes localSeqLen kvDim0Bytes positions spRank ≤ localSeqLen * kvDim0Bytes := by
    unfold sentBytes activeBytes
    split
    · exact Nat.mul_le_mul_right kvDim0Bytes (by omega)
    · exact Nat.zero_le _
  unfold startByte
  rw [Nat.succ_mul, Nat.add_mul]
  omega

theorem startByte_mono (localSeqLen kvDim0Bytes : ℕ) {i j : ℕ} (h : i ≤ j) :
    startByte localSeqLen kvDim0Bytes i ≤ startByte localSeqLen kvDim0Bytes j :=
  Nat.mul_le_mul_right kvDim0Bytes (Nat.mul_le_mul_right localSeqLen h)

/-- Different ranks send different bytes. -/
theorem Sent.disjoint {i j a : ℕ} (hne : i ≠ j) (hi : Sent localSeqLen kvDim0Bytes positions i a) :
    ¬Sent localSeqLen kvDim0Bytes positions j a := by
  intro hj
  have hendI := startByte_add_sentBytes_le localSeqLen kvDim0Bytes positions i
  have hendJ := startByte_add_sentBytes_le localSeqLen kvDim0Bytes positions j
  unfold Sent at hi hj
  cases Nat.lt_or_gt_of_ne hne with
  | inl hlt =>
    have hmono := startByte_mono localSeqLen kvDim0Bytes
      (show i + 1 ≤ j by omega)
    omega
  | inr hgt =>
    have hmono := startByte_mono localSeqLen kvDim0Bytes
      (show j + 1 ≤ i by omega)
    omega

/-- A rank's bytes come from that rank. -/
theorem put_sent (held : ℕ → KvBuffers α) (r : ℕ) {q a : ℕ} (m : KvBuffers α)
    (h : Sent localSeqLen kvDim0Bytes positions q a) :
    SameAt a (put localSeqLen kvDim0Bytes positions held r q m) (held q) := by
  have hcell (before source : ℕ → α) := writeCells_readCells_apply before source
    (startByte localSeqLen kvDim0Bytes q) (sentBytes localSeqLen kvDim0Bytes positions q) a
  constructor
  · exact (hcell m.kBuf (held q).kBuf).trans (if_pos h)
  · exact (hcell m.vBuf (held q).vBuf).trans (if_pos h)

/-- The others are kept. -/
theorem put_kept (held : ℕ → KvBuffers α) (r : ℕ) {q a : ℕ} (m : KvBuffers α)
    (h : ¬Sent localSeqLen kvDim0Bytes positions q a) :
    SameAt a (put localSeqLen kvDim0Bytes positions held r q m) m := by
  have hcell (before source : ℕ → α) := writeCells_readCells_apply before source
    (startByte localSeqLen kvDim0Bytes q) (sentBytes localSeqLen kvDim0Bytes positions q) a
  constructor
  · exact (hcell m.kBuf (held q).kBuf).trans (if_neg h)
  · exact (hcell m.vBuf (held q).vBuf).trans (if_neg h)

/-- What a rank sends is what it held, whatever it has received. -/
theorem Own.takeRegion_eq {held : ℕ → KvBuffers α} {i : ℕ} {mi : KvBuffers α}
    (h : Own localSeqLen kvDim0Bytes positions held i mi) (r : ℕ) (m : KvBuffers α) :
    takeRegion (startByte localSeqLen kvDim0Bytes i) (sentBytes localSeqLen kvDim0Bytes positions i)
      mi m = put localSeqLen kvDim0Bytes positions held r i m := by
  have hk : readCells mi.kBuf (startByte localSeqLen kvDim0Bytes i)
      (sentBytes localSeqLen kvDim0Bytes positions i) =
      readCells (held i).kBuf (startByte localSeqLen kvDim0Bytes i)
        (sentBytes localSeqLen kvDim0Bytes positions i) :=
    readCells_congr fun b hb => (h _ ⟨by omega, by omega⟩).1
  have hv : readCells mi.vBuf (startByte localSeqLen kvDim0Bytes i)
      (sentBytes localSeqLen kvDim0Bytes positions i) =
      readCells (held i).vBuf (startByte localSeqLen kvDim0Bytes i)
        (sentBytes localSeqLen kvDim0Bytes positions i) :=
    readCells_congr fun b hb => (h _ ⟨by omega, by omega⟩).2
  unfold put takeRegion
  rw [hk, hv]

/-- Rows of another rank do not touch the own ones. -/
theorem Own.put {held : ℕ → KvBuffers α} {r q : ℕ} (hne : q ≠ r) {m : KvBuffers α}
    (h : Own localSeqLen kvDim0Bytes positions held r m) :
    Own localSeqLen kvDim0Bytes positions held r
      (KvExchange.put localSeqLen kvDim0Bytes positions held r q m) := by
  intro a ha
  exact (put_kept held r m (ha.disjoint (Ne.symm hne))).trans (h a ha)

/-- The ranks of a lane can talk to each other pair by pair. -/
theorem lane_talks (localSeqLen kvDim0Bytes : ℕ) (positions : List ℕ) {S : ℕ} {node : ℕ → ℕ} (hinj : ∀ i < S, ∀ j < S, node i = node j → i = j)
    (held : ℕ → KvBuffers α) :
    Talks S node (talk localSeqLen kvDim0Bytes positions node)
      (put localSeqLen kvDim0Bytes positions held)
      (Own localSeqLen kvDim0Bytes positions held) := by
  constructor
  · exact hinj
  · intro i j hij hj n mi mj ri rj hi hj' hni hnj
    have hne : node i ≠ node j := by
      intro heq
      have hsame := hinj i (by omega) j hj heq
      omega
    unfold talk at hni hnj
    rw [if_pos hij, List.append_assoc] at hni
    rw [if_neg (by omega), List.append_assoc] at hnj
    obtain ⟨n', hrun, hi', hj'', hother⟩ := kv_transfer hne hni hnj
    obtain ⟨n'', hrun', hj''', hi'', hother'⟩ := kv_transfer (Ne.symm hne) hj'' hi'
    have hkeep : Own localSeqLen kvDim0Bytes positions held j
        (put localSeqLen kvDim0Bytes positions held j i mj) := hj'.put (by omega)
    rw [hi.takeRegion_eq j mj] at hj''' hi''
    rw [hkeep.takeRegion_eq i mi] at hi''
    exact ⟨n'', hrun.trans hrun', hi'', hj''', fun other hother_i hother_j =>
      (hother' other hother_j hother_i).trans (hother other hother_i hother_j)⟩
  · intro r _ q _ hqr m hm
    exact hm.put hqr

/-- What a rank has received is what its owner held. -/
theorem received_sent {S : ℕ} (held : ℕ → KvBuffers α) (m : KvBuffers α) {r q a k : ℕ} (hk : k ≤ S)
    (hq : q < k) (hne : q ≠ r) (ha : Sent localSeqLen kvDim0Bytes positions q a) :
    SameAt a (received S (put localSeqLen kvDim0Bytes positions held) r k m) (held q) := by
  induction k with
  | zero => omega
  | succ k ih =>
    rw [received_step (by omega)]
    by_cases hkr : k = r
    · rw [if_pos hkr]
      exact ih (by omega) (by omega)
    · rw [if_neg hkr]
      by_cases hkq : q = k
      · rw [← hkq]
        exact put_sent held r _ ha
      · exact (put_kept held r _ (ha.disjoint hkq)).trans (ih (by omega) (by omega))

/-- A byte that no other rank sends is kept. -/
theorem received_kept {S : ℕ} (held : ℕ → KvBuffers α) (m : KvBuffers α) {r a k : ℕ} (hk : k ≤ S)
    (ha : ∀ q < k, q ≠ r → ¬Sent localSeqLen kvDim0Bytes positions q a) :
    SameAt a (received S (put localSeqLen kvDim0Bytes positions held) r k m) m := by
  induction k with
  | zero => exact ⟨Eq.refl _, Eq.refl _⟩
  | succ k ih =>
    have hrest := ih (by omega) fun q hq => ha q (by omega)
    rw [received_step (by omega)]
    by_cases hkr : k = r
    · rw [if_pos hkr]
      exact hrest
    · rw [if_neg hkr]
      exact (put_kept held r _ (ha k (by omega) hkr)).trans hrest

/-- A word that a float can be cast to is at most the largest float below the next one. -/
def maxPosition : ℕ := 2 ^ 32 - 2 ^ 8

theorem maxPos_le {bound : ℕ} (h : ∀ p ∈ positions, p ≤ bound) :
    SequenceParallel.maxPos positions ≤ bound := by
  have hfold (l : List ℕ) (m : ℕ) (hm : m ≤ bound) (hl : ∀ p ∈ l, p ≤ bound) :
      l.foldl (fun m p => if m < p then p else m) m ≤ bound := by
    induction l generalizing m with
    | nil => exact hm
    | cons p l ih =>
      rw [List.foldl_cons]
      refine ih _ ?_ fun p' hp' => hl p' (List.mem_cons_of_mem p hp')
      split
      · exact hl p List.mem_cons_self
      · exact hm
  exact hfold positions 0 (Nat.zero_le _) h

theorem activeEnd_eq (h : ∀ p ∈ positions, p ≤ maxPosition) (stop : ℕ) :
    activeEnd positions stop = min (SequenceParallel.maxPos positions + 1) stop := by
  have hmax := maxPos_le h
  have hword : (SequenceParallel.maxPos positions + 1) % 2 ^ 32 =
      SequenceParallel.maxPos positions + 1 := by
    apply Nat.mod_eq_of_lt
    unfold maxPosition at hmax
    omega
  unfold activeEnd
  rw [hword]
  split <;> omega

/-- Every byte of a row of the batch is sent by the rank of that row. -/
theorem sent_of_row (h : ∀ p ∈ positions, p ≤ maxPosition) {q row c : ℕ}
    (hstart : q * localSeqLen ≤ row) (hstop : row < q * localSeqLen + localSeqLen)
    (hmax : row ≤ SequenceParallel.maxPos positions) (hc : c < kvDim0Bytes) :
    Sent localSeqLen kvDim0Bytes positions q (row * kvDim0Bytes + c) := by
  have hrow : row + 1 ≤ activeEnd positions (q * localSeqLen + localSeqLen) := by
    rw [activeEnd_eq h]
    omega
  have hbytes : startByte localSeqLen kvDim0Bytes q + sentBytes localSeqLen kvDim0Bytes positions q =
      activeEnd positions (q * localSeqLen + localSeqLen) * kvDim0Bytes := by
    unfold startByte sentBytes activeBytes
    rw [if_pos (by omega), ← Nat.add_mul]
    congr 1
    omega
  have hlast := Nat.mul_le_mul_right kvDim0Bytes hrow
  rw [Nat.succ_mul] at hlast
  constructor
  · exact (Nat.mul_le_mul_right kvDim0Bytes hstart).trans (Nat.le_add_right _ _)
  · rw [hbytes]
    omega

/-- Only bytes of rows of the batch are sent. -/
theorem lt_of_sent (h : ∀ p ∈ positions, p ≤ maxPosition) {q a : ℕ}
    (ha : Sent localSeqLen kvDim0Bytes positions q a) :
    a < (SequenceParallel.maxPos positions + 1) * kvDim0Bytes ∧
      a < (q * localSeqLen + localSeqLen) * kvDim0Bytes := by
  obtain ⟨hstart, hstop⟩ := ha
  have hactive := activeEnd_eq h (q * localSeqLen + localSeqLen)
  unfold sentBytes activeBytes at hstop
  split at hstop
  · rename_i hlt
    have hend : a < activeEnd positions (q * localSeqLen + localSeqLen) * kvDim0Bytes := by
      unfold startByte at hstop
      rw [← Nat.add_mul] at hstop
      have hsum : q * localSeqLen + (activeEnd positions (q * localSeqLen + localSeqLen) -
          q * localSeqLen) = activeEnd positions (q * localSeqLen + localSeqLen) := by omega
      rw [hsum] at hstop
      exact hstop
    have hmax : activeEnd positions (q * localSeqLen + localSeqLen) ≤
        SequenceParallel.maxPos positions + 1 := by omega
    have hrange : activeEnd positions (q * localSeqLen + localSeqLen) ≤
        q * localSeqLen + localSeqLen := by omega
    constructor
    · exact hend.trans_le (Nat.mul_le_mul_right kvDim0Bytes hmax)
    · exact hend.trans_le (Nat.mul_le_mul_right kvDim0Bytes hrange)
  · omega

end Lane

/-! ### The nodes of a stage -/

section Stage

variable {topology : NnParallelTopology} {ppRank kvDim seqLen : ℕ} {positions : List ℕ}

/-- Node of a lane in the stage. -/
def laneNode (topology : NnParallelTopology) (ppRank tpRank spRank : ℕ) : ℕ :=
  ppRank * (topology.spSize * topology.tpSize) + spRank * topology.tpSize + tpRank

/-- The placement that the exchange reads. -/
theorem getPlacement_laneNode (hf : Factored topology) (hpp : ppRank < topology.ppSize)
    {spRank tpRank : ℕ} (hsp : spRank < topology.spSize) (htp : tpRank < topology.tpSize) :
    topology.getPlacement (laneNode topology ppRank tpRank spRank) =
      .ok ⟨laneNode topology ppRank tpRank spRank, ppRank, spRank, tpRank,
        ppRank * topology.spSize * topology.tpSize + spRank * topology.tpSize,
        ppRank * topology.spSize * topology.tpSize + spRank * topology.tpSize + topology.tpSize,
        ppRank * topology.spSize * topology.tpSize,
        ppRank * topology.spSize * topology.tpSize + topology.spSize * topology.tpSize⟩ := by
  obtain ⟨globalRank, placement, hrank, -, hplace, -, hppRank, hspRank, htpRank⟩ :=
    hf.getPlacement_getGlobalRank hpp hsp htp
  unfold NnParallelTopology.getGlobalRank at hrank
  rw [if_neg (by omega), if_neg (by omega), if_neg (by omega)] at hrank
  injection hrank with hnode
  have hsame : laneNode topology ppRank tpRank spRank = globalRank := hnode
  rw [hsame]
  unfold NnParallelTopology.getPlacement at hplace ⊢
  split at hplace
  · cases hplace
  · injection hplace with hplace
    rw [← hplace] at hppRank hspRank htpRank
    dsimp only at hppRank hspRank htpRank ⊢
    rw [if_neg ‹_›, hppRank, hspRank, htpRank]

theorem sliceKvCache_eq (hkv : kvDim % topology.tpSize = 0) (hsp : 2 ≤ topology.spSize)
    (hseq : seqLen % topology.spSize = 0) (spRank : ℕ) :
    sliceKvCache kvDim seqLen topology.tpSize topology.spSize spRank =
      .ok ⟨kvDim / topology.tpSize, seqLen / topology.spSize, spRank * (seqLen / topology.spSize),
        size2D .f32 seqLen (kvDim / topology.tpSize),
        size2D .f32 seqLen (kvDim / topology.tpSize)⟩ := by
  unfold sliceKvCache require
  rw [if_pos hkv, if_pos (by omega), if_pos hseq]
  exact Eq.refl _

/-- Every rank talks to all others of its lane. -/
theorem nodeOps_laneNode (hf : Factored topology) (hpp : ppRank < topology.ppSize)
    (hsize : 2 ≤ topology.spSize) (hkv : kvDim % topology.tpSize = 0)
    (hseq : seqLen % topology.spSize = 0) {spRank tpRank : ℕ} (hsp : spRank < topology.spSize)
    (htp : tpRank < topology.tpSize) :
    (nodeOps topology ppRank kvDim seqLen positions (laneNode topology ppRank tpRank spRank) :
      SocketOps α) =
      (List.range topology.spSize).flatMap fun q => if q = spRank then [] else
        talk (seqLen / topology.spSize) (kvDim / topology.tpSize * sizeofFloat) positions
          (laneNode topology ppRank tpRank) spRank q := by
  have htpSize : 0 < topology.tpSize := by omega
  have hgroup (start : ℕ) : start + topology.tpSize - start = topology.tpSize := by omega
  have hranks (start : ℕ) : (start + topology.spSize * topology.tpSize - start) /
      topology.tpSize = topology.spSize := by
    rw [Nat.add_sub_cancel_left]
    exact Nat.mul_div_cancel _ htpSize
  have hnode : laneNode topology ppRank tpRank spRank =
      ppRank * topology.spSize * topology.tpSize + spRank * topology.tpSize + tpRank := by
    unfold laneNode
    rw [Nat.mul_assoc]
  have htpRank : laneNode topology ppRank tpRank spRank -
      (ppRank * topology.spSize * topology.tpSize + spRank * topology.tpSize) = tpRank := by
    omega
  have hspRank : (laneNode topology ppRank tpRank spRank -
      ppRank * topology.spSize * topology.tpSize) / topology.tpSize = spRank := by
    have hrest : laneNode topology ppRank tpRank spRank -
        ppRank * topology.spSize * topology.tpSize = topology.tpSize * spRank + tpRank := by
      rw [Nat.mul_comm topology.tpSize]
      omega
    rw [hrest, Nat.mul_add_div htpSize, Nat.div_eq_of_lt htp, Nat.add_zero]
  have hpeer (q : ℕ) (hq : q ≠ spRank) :
      connectedPeer (laneNode topology ppRank tpRank spRank)
        (getSocketIndexForNode (laneNode topology ppRank tpRank spRank)
          (ppRank * topology.spSize * topology.tpSize + q * topology.tpSize + tpRank)) =
        laneNode topology ppRank tpRank q := by
    have hsame : laneNode topology ppRank tpRank q =
        ppRank * topology.spSize * topology.tpSize + q * topology.tpSize + tpRank := by
      unfold laneNode
      rw [Nat.mul_assoc]
    rw [← hsame]
    apply connectedPeer_getSocketIndexForNode
    intro heq
    have hmul : q * topology.tpSize = spRank * topology.tpSize := by omega
    exact hq (Nat.eq_of_mul_eq_mul_right htpSize hmul)
  unfold nodeOps
  rw [getPlacement_laneNode hf hpp hsp htp]
  dsimp only
  rw [if_pos (Eq.refl _), sliceKvCache_eq hkv hsize hseq]
  dsimp only
  unfold kvAllGather
  dsimp only
  rw [hgroup, hranks, if_neg (by omega), htpRank, hspRank]
  congr 1
  funext q
  by_cases hq : q = spRank
  · rw [if_pos hq, if_pos hq]
  · rw [if_neg hq, if_neg hq, hpeer q hq]
    exact Eq.refl _

theorem laneNode_inj {spRank spRank' tpRank tpRank' : ℕ} (htp : tpRank < topology.tpSize)
    (htp' : tpRank' < topology.tpSize)
    (h : laneNode topology ppRank tpRank spRank = laneNode topology ppRank tpRank' spRank') :
    spRank = spRank' ∧ tpRank = tpRank' := by
  have hsum : topology.tpSize * spRank + tpRank = topology.tpSize * spRank' + tpRank' := by
    unfold laneNode at h
    rw [Nat.mul_comm topology.tpSize, Nat.mul_comm topology.tpSize]
    omega
  have hdiv := congrArg (· / topology.tpSize) hsum
  have hmod := congrArg (· % topology.tpSize) hsum
  rw [Nat.mul_add_div (by omega), Nat.mul_add_div (by omega), Nat.div_eq_of_lt htp,
    Nat.div_eq_of_lt htp'] at hdiv
  rw [Nat.mul_add_mod, Nat.mul_add_mod, Nat.mod_eq_of_lt htp, Nat.mod_eq_of_lt htp'] at hmod
  exact ⟨hdiv, hmod⟩

/-- A node is of the stage if some ranks of the stage name it. -/
def InStage (topology : NnParallelTopology) (ppRank node : ℕ) : Prop :=
  ∃ spRank tpRank, topology.getGlobalRank ppRank spRank tpRank = .ok node

theorem getGlobalRank_eq_ok {spRank tpRank node : ℕ}
    (h : topology.getGlobalRank ppRank spRank tpRank = .ok node) :
    spRank < topology.spSize ∧ tpRank < topology.tpSize ∧
      node = laneNode topology ppRank tpRank spRank := by
  unfold NnParallelTopology.getGlobalRank at h
  split_ifs at h
  injection h with h
  exact ⟨by omega, by omega, h.symm⟩

theorem getGlobalRank_laneNode (hpp : ppRank < topology.ppSize) {spRank tpRank : ℕ}
    (hsp : spRank < topology.spSize) (htp : tpRank < topology.tpSize) :
    topology.getGlobalRank ppRank spRank tpRank = .ok (laneNode topology ppRank tpRank spRank) := by
  unfold NnParallelTopology.getGlobalRank
  rw [if_neg (by omega), if_neg (by omega), if_neg (by omega)]
  exact Eq.refl _

/-- Other nodes have nothing to do. -/
theorem nodeOps_of_not_inStage (hf : Factored topology) {node : ℕ}
    (h : ¬InStage topology ppRank node) :
    (nodeOps topology ppRank kvDim seqLen positions node : SocketOps α) = [] := by
  unfold nodeOps
  cases hplace : topology.getPlacement node with
  | error e => exact Eq.refl _
  | ok placement =>
    dsimp only
    apply if_neg
    intro hpp
    have hlt : node < topology.nNodes := by
      unfold NnParallelTopology.getPlacement at hplace
      split at hplace
      · cases hplace
      · omega
    obtain ⟨found, hfound, -, hrank⟩ := hf.getGlobalRank_getPlacement hlt
    rw [hplace] at hfound
    injection hfound with hfound
    rw [← hfound, hpp] at hrank
    exact h ⟨_, _, hrank⟩

/-- A node of the stage after the exchange of its lane. -/
def gatheredMem (topology : NnParallelTopology) (ppRank kvDim seqLen : ℕ) (positions : List ℕ)
    (mem : ℕ → KvBuffers α) (tpRank spRank : ℕ) : KvBuffers α :=
  received topology.spSize (put (seqLen / topology.spSize) (kvDim / topology.tpSize * sizeofFloat)
    positions fun owner => mem (laneNode topology ppRank tpRank owner)) spRank topology.spSize
    (mem (laneNode topology ppRank tpRank spRank))

/-- All lanes make their exchange, one after the other. -/
theorem lanes_run (hf : Factored topology) (hpp : ppRank < topology.ppSize)
    (hsize : 2 ≤ topology.spSize) (hkv : kvDim % topology.tpSize = 0)
    (hseq : seqLen % topology.spSize = 0) (positions : List ℕ) (mem : ℕ → KvBuffers α) {k : ℕ}
    (hk : k ≤ topology.tpSize) :
    ∃ n, ReflTransGen Step (start topology ppRank kvDim seqLen positions mem) n ∧
      (∀ tpRank < k, ∀ spRank < topology.spSize, n (laneNode topology ppRank tpRank spRank) =
        ⟨gatheredMem topology ppRank kvDim seqLen positions mem tpRank spRank, []⟩) ∧
      ∀ other, (∀ tpRank < k, ∀ spRank < topology.spSize,
        other ≠ laneNode topology ppRank tpRank spRank) →
        n other = start topology ppRank kvDim seqLen positions mem other := by
  induction k with
  | zero =>
    refine ⟨_, .refl, fun tpRank htp => ?_, fun _ _ => Eq.refl _⟩
    omega
  | succ k ih =>
    obtain ⟨n, hrun, hdone, hother⟩ := ih (by omega)
    have hinj : ∀ i < topology.spSize, ∀ j < topology.spSize,
        laneNode topology ppRank k i = laneNode topology ppRank k j → i = j := by
      intro i _ j _ heq
      exact (laneNode_inj (by omega) (by omega) heq).1
    have hnew (tpRank : ℕ) (htp : tpRank < k) (i j : ℕ) :
        laneNode topology ppRank k i ≠ laneNode topology ppRank tpRank j := by
      intro heq
      have hrank := (laneNode_inj (by omega) (by omega) heq).2
      omega
    have htalks := lane_talks (seqLen / topology.spSize) (kvDim / topology.tpSize * sizeofFloat)
      positions hinj fun owner => mem (laneNode topology ppRank k owner)
    have hown : ∀ r < topology.spSize, Own (seqLen / topology.spSize)
        (kvDim / topology.tpSize * sizeofFloat) positions
        (fun owner => mem (laneNode topology ppRank k owner)) r
        (mem (laneNode topology ppRank k r)) := by
      intro r _ a _
      exact ⟨Eq.refl _, Eq.refl _⟩
    have hstart : ∀ r < topology.spSize, n (laneNode topology ppRank k r) =
        ⟨mem (laneNode topology ppRank k r), (List.range topology.spSize).flatMap fun q =>
          if q = r then [] else talk (seqLen / topology.spSize)
            (kvDim / topology.tpSize * sizeofFloat) positions (laneNode topology ppRank k) r q⟩ := by
      intro r hr
      rw [hother _ fun tpRank htp j _ => hnew tpRank htp r j]
      unfold start
      rw [nodeOps_laneNode hf hpp hsize hkv hseq hr (by omega)]
    obtain ⟨n', hrun', hdone', hother'⟩ := htalks.all hown hstart
    refine ⟨n', hrun.trans hrun', ?_, ?_⟩
    · intro tpRank htp r hr
      by_cases hlast : tpRank = k
      · rw [hlast]
        exact hdone' r hr
      · rw [hother' _ fun j _ => Ne.symm (hnew tpRank (by omega) j r)]
        exact hdone tpRank (by omega) r hr
    · intro other hout
      rw [hother' other fun r hr => hout k (by omega) r hr]
      exact hother other fun tpRank htp => hout tpRank (by omega)

/-- Caches of a node after the exchange: the rows of the batch are those of their owners,
everything else is as before. -/
structure Gathered (topology : NnParallelTopology) (ppRank tpRank kvDim seqLen maxPos : ℕ)
    (mem : ℕ → KvBuffers α) (before after : KvBuffers α) : Prop where
  /-- Rows up to the largest position. -/
  rows : ∀ row < seqLen, row ≤ maxPos → ∃ owner slice ownerNode,
    sliceKvCache kvDim seqLen topology.tpSize topology.spSize owner = .ok slice ∧
    slice.localSeqStart ≤ row ∧ row < slice.localSeqStart + slice.localSeqLen ∧
    topology.getGlobalRank ppRank owner tpRank = .ok ownerNode ∧
    ∀ c < slice.kvDim0 * sizeofFloat,
      SameAt (row * (slice.kvDim0 * sizeofFloat) + c) after (mem ownerNode)
  /-- Later rows and other bytes. -/
  rest : ∀ a, min (maxPos + 1) seqLen * (kvDim / topology.tpSize * sizeofFloat) ≤ a →
    SameAt a after before

theorem gathered_gatheredMem (hpp : ppRank < topology.ppSize) (hsize : 2 ≤ topology.spSize)
    (hkv : kvDim % topology.tpSize = 0) (hseq : seqLen % topology.spSize = 0)
    (hpos : ∀ p ∈ positions, p ≤ maxPosition) (mem : ℕ → KvBuffers α) (spRank : ℕ) {tpRank : ℕ}
    (htp : tpRank < topology.tpSize) :
    Gathered topology ppRank tpRank kvDim seqLen (SequenceParallel.maxPos positions) mem
      (mem (laneNode topology ppRank tpRank spRank))
      (gatheredMem topology ppRank kvDim seqLen positions mem tpRank spRank) := by
  have hwhole : seqLen / topology.spSize * topology.spSize = seqLen :=
    Nat.div_mul_cancel (Nat.dvd_of_mod_eq_zero hseq)
  constructor
  · intro row hrow hmax
    have hlocal : 0 < seqLen / topology.spSize := by
      apply Nat.pos_of_ne_zero
      intro hzero
      rw [hzero, Nat.zero_mul] at hwhole
      omega
    have howner : row / (seqLen / topology.spSize) < topology.spSize := by
      apply Nat.div_lt_of_lt_mul
      rw [hwhole]
      exact hrow
    have hdivmod := Nat.div_add_mod row (seqLen / topology.spSize)
    have hmod := Nat.mod_lt row hlocal
    rw [Nat.mul_comm] at hdivmod
    have hstart : row / (seqLen / topology.spSize) * (seqLen / topology.spSize) ≤ row := by omega
    have hstop : row < row / (seqLen / topology.spSize) * (seqLen / topology.spSize) +
        seqLen / topology.spSize := by omega
    refine ⟨row / (seqLen / topology.spSize), _, _, sliceKvCache_eq hkv hsize hseq _, hstart, hstop,
      getGlobalRank_laneNode hpp howner htp, fun c hc => ?_⟩
    have hsent := sent_of_row hpos hstart hstop hmax hc
    by_cases hself : row / (seqLen / topology.spSize) = spRank
    · rw [hself] at hsent ⊢
      exact received_kept _ _ (Nat.le_refl _) fun q _ hq hother => hsent.disjoint (Ne.symm hq) hother
    · exact received_sent _ _ (Nat.le_refl _) howner hself hsent
  · intro a ha
    apply received_kept _ _ (Nat.le_refl _)
    intro q hq _ hsent
    obtain ⟨hlow, hrange⟩ := lt_of_sent hpos hsent
    have hend : q * (seqLen / topology.spSize) + seqLen / topology.spSize ≤ seqLen := by
      have hnext := Nat.mul_le_mul_right (seqLen / topology.spSize)
        (show q + 1 ≤ topology.spSize by omega)
      rw [Nat.succ_mul, Nat.mul_comm topology.spSize, hwhole] at hnext
      exact hnext
    have hlast := hrange.trans_le (Nat.mul_le_mul_right _ hend)
    cases Nat.le_total (SequenceParallel.maxPos positions + 1) seqLen with
    | inl hle =>
      rw [Nat.min_eq_left hle] at ha
      omega
    | inr hle =>
      rw [Nat.min_eq_right hle] at ha
      omega

/-- The nodes of a stage exchange their rows: no order of the sends and receives gets a node
stuck, and all end with the rows of the owners. -/
theorem kv_all_gather (hf : Factored topology) (hpp : ppRank < topology.ppSize)
    (hsize : 2 ≤ topology.spSize) (hkv : kvDim % topology.tpSize = 0)
    (hseq : seqLen % topology.spSize = 0) (hpos : ∀ p ∈ positions, p ≤ maxPosition)
    (mem : ℕ → KvBuffers α) :
    ∃ final, Outcome Step (start topology ppRank kvDim seqLen positions mem) final ∧ Done final ∧
      (∀ spRank tpRank node, topology.getGlobalRank ppRank spRank tpRank = .ok node →
        Gathered topology ppRank tpRank kvDim seqLen (SequenceParallel.maxPos positions) mem
          (mem node) (final node).mem) ∧
      ∀ node, ¬InStage topology ppRank node → (final node).mem = mem node := by
  obtain ⟨final, hrun, hmembers, hother⟩ := lanes_run hf hpp hsize hkv hseq positions mem
    (Nat.le_refl topology.tpSize)
  have houtside (node : ℕ) (hnode : ¬InStage topology ppRank node) : final node = ⟨mem node, []⟩ := by
    rw [hother node]
    · unfold start
      rw [nodeOps_of_not_inStage hf hnode]
    · intro tpRank htp spRank hsp heq
      rw [heq] at hnode
      exact hnode ⟨_, _, getGlobalRank_laneNode hpp hsp htp⟩
  have hdone : Done final := by
    intro node
    by_cases hnode : InStage topology ppRank node
    · obtain ⟨spRank, tpRank, hrank⟩ := hnode
      obtain ⟨hsp, htp, heq⟩ := getGlobalRank_eq_ok hrank
      rw [heq, hmembers tpRank htp spRank hsp]
    · rw [houtside node hnode]
  refine ⟨final, outcome_of_schedule hrun hdone, hdone, ?_, ?_⟩
  · intro spRank tpRank node hrank
    obtain ⟨hsp, htp, heq⟩ := getGlobalRank_eq_ok hrank
    rw [heq, hmembers tpRank htp spRank hsp]
    exact gathered_gatheredMem hpp hsize hkv hseq hpos mem spRank htp
  · intro node hnode
    rw [houtside node hnode]

end Stage

/-- Caches that hold the number of their node. -/
def numbered (node : ℕ) : KvBuffers ℕ := ⟨fun _ => node, fun _ => node⟩

/-- Two ranks of two nodes each; the batch has not reached the last row. -/
theorem kv_all_gather_four :
    ∃ final, Outcome Step (start ⟨4, 1, 2, 2⟩ 0 2 4 [0, 2] numbered) final ∧ Done final ∧
      Gathered ⟨4, 1, 2, 2⟩ 0 1 2 4 2 numbered (numbered 1) (final 1).mem := by
  have hf : Factored ⟨4, 1, 2, 2⟩ := ⟨by decide, by decide⟩
  have hpos : ∀ p ∈ [0, 2], p ≤ maxPosition := by decide
  have hpp : 0 < (⟨4, 1, 2, 2⟩ : NnParallelTopology).ppSize := by decide
  have hkv : 2 % (⟨4, 1, 2, 2⟩ : NnParallelTopology).tpSize = 0 := by decide
  have hseq : 4 % (⟨4, 1, 2, 2⟩ : NnParallelTopology).spSize = 0 := by decide
  obtain ⟨final, houtcome, hdone, hstage, -⟩ :=
    kv_all_gather hf hpp (by decide) hkv hseq hpos numbered
  exact ⟨final, houtcome, hdone, hstage 0 1 1 (Eq.refl _)⟩

end LayerSkip.KvExchange
