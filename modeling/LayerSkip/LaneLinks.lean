import LayerSkip.PipelineLink
import LayerSkip.WorkerRun
import LayerSkip.SocketSlots

/-!
# Links between the stages of a lane

A lane is one sequence group and one tensor rank through all stages. The node of
a stage finds the node of another stage by its ranks and the socket by the global
rank; at both ends this gives the same connection.
-/

namespace LayerSkip.LaneLinks

open NnTopology NnNetwork NnPipeline PipelineLink SocketSlots WorkerRun

/-- A topology whose nodes are the triples of ranks. -/
structure Factored (topology : NnParallelTopology) : Prop where
  /-- There is a node. -/
  pos : 0 < topology.nNodes
  /-- Number of nodes. -/
  nNodes_eq : topology.nNodes = topology.ppSize * (topology.spSize * topology.tpSize)

/-- The constructor gives such a topology when the product of the two sizes does
not wrap. -/
theorem factored_of_create {nNodes ppSize spSize : NnUint} {topology : NnParallelTopology}
    (h : createPPxSPxTPTopology nNodes ppSize spSize = .ok topology)
    (hwrap : ppSize.toNat * spSize.toNat < 2 ^ 32) : Factored topology := by
  unfold createPPxSPxTPTopology at h
  split at h
  · cases h
  · rename_i hnodes
    split at h
    · cases h
    · split at h
      · cases h
      · split at h
        · cases h
        · split at h
          · cases h
          · rename_i hdvd
            injection h with h
            have hproduct : (ppSize * spSize).toNat = ppSize.toNat * spSize.toNat := by
              rw [UInt32.toNat_mul, Nat.mod_eq_of_lt hwrap]
            have hmod : nNodes.toNat % (ppSize.toNat * spSize.toNat) = 0 := by
              have hzero := congrArg UInt32.toNat (Decidable.not_not.mp hdvd)
              rw [UInt32.toNat_mod, hproduct] at hzero
              exact hzero
            have hpos : 0 < nNodes.toNat := by
              have hlt : ¬nNodes.toNat < 1 := hnodes
              omega
            rw [← h]
            refine ⟨hpos, ?_⟩
            dsimp only
            rw [UInt32.toNat_div, hproduct, ← Nat.mul_assoc]
            exact (Nat.mul_div_cancel' (Nat.dvd_of_mod_eq_zero hmod)).symm

section Ranks

variable {topology : NnParallelTopology}

theorem Factored.ppSize_pos (h : Factored topology) : 0 < topology.ppSize := by
  have hpos := h.pos
  rw [h.nNodes_eq] at hpos
  exact Nat.pos_of_mul_pos_right hpos

theorem Factored.stage_pos (h : Factored topology) : 0 < topology.spSize * topology.tpSize := by
  have hpos := h.pos
  rw [h.nNodes_eq] at hpos
  exact Nat.pos_of_mul_pos_left hpos

/-- The ranks of a node lead back to it. -/
theorem Factored.getGlobalRank_getPlacement (h : Factored topology) {globalRank : ℕ}
    (hlt : globalRank < topology.nNodes) :
    ∃ placement, topology.getPlacement globalRank = .ok placement ∧
      placement.globalRank = globalRank ∧
      topology.getGlobalRank placement.ppRank placement.spRank placement.tpRank =
        .ok globalRank := by
  have hstage := h.stage_pos
  have htp : 0 < topology.tpSize := Nat.pos_of_mul_pos_left hstage
  have hpp : globalRank / (topology.spSize * topology.tpSize) < topology.ppSize := by
    rw [h.nNodes_eq] at hlt
    exact Nat.div_lt_of_lt_mul (Nat.mul_comm _ _ ▸ hlt)
  have hsp : globalRank % (topology.spSize * topology.tpSize) / topology.tpSize <
      topology.spSize :=
    Nat.div_lt_of_lt_mul (Nat.mul_comm topology.spSize _ ▸ Nat.mod_lt _ hstage)
  have htpRank := Nat.mod_lt (globalRank % (topology.spSize * topology.tpSize)) htp
  refine ⟨_, if_neg (Nat.not_le.mpr hlt), rfl, ?_⟩
  unfold NnParallelTopology.getGlobalRank
  rw [if_neg (Nat.not_le.mpr hpp), if_neg (Nat.not_le.mpr hsp), if_neg (Nat.not_le.mpr htpRank)]
  have hwhole := Nat.div_add_mod globalRank (topology.spSize * topology.tpSize)
  have hrest := Nat.div_add_mod (globalRank % (topology.spSize * topology.tpSize)) topology.tpSize
  rw [Nat.add_assoc, Nat.mul_comm (globalRank % _ / _), hrest, Nat.mul_comm, hwhole]

/-- Ranks inside the topology name a node, and that node has these ranks. -/
theorem Factored.getPlacement_getGlobalRank (h : Factored topology) {ppRank spRank tpRank : ℕ}
    (hpp : ppRank < topology.ppSize) (hsp : spRank < topology.spSize)
    (htp : tpRank < topology.tpSize) :
    ∃ globalRank placement, topology.getGlobalRank ppRank spRank tpRank = .ok globalRank ∧
      globalRank < topology.nNodes ∧ topology.getPlacement globalRank = .ok placement ∧
      placement.globalRank = globalRank ∧ placement.ppRank = ppRank ∧ placement.spRank = spRank ∧
      placement.tpRank = tpRank := by
  have hstage := h.stage_pos
  have htpPos : 0 < topology.tpSize := by omega
  have hinner : spRank * topology.tpSize + tpRank < topology.spSize * topology.tpSize := by
    have hnext := Nat.mul_le_mul_right topology.tpSize (Nat.succ_le_of_lt hsp)
    rw [Nat.succ_mul] at hnext
    omega
  have hbound : ppRank * (topology.spSize * topology.tpSize) +
      (spRank * topology.tpSize + tpRank) < topology.nNodes := by
    have hnext := Nat.mul_le_mul_right (topology.spSize * topology.tpSize) (Nat.succ_le_of_lt hpp)
    rw [Nat.succ_mul] at hnext
    rw [h.nNodes_eq]
    omega
  have hdiv : (ppRank * (topology.spSize * topology.tpSize) +
      (spRank * topology.tpSize + tpRank)) / (topology.spSize * topology.tpSize) = ppRank := by
    rw [Nat.mul_comm ppRank, Nat.mul_add_div hstage, Nat.div_eq_of_lt hinner, Nat.add_zero]
  have hmod : (ppRank * (topology.spSize * topology.tpSize) +
      (spRank * topology.tpSize + tpRank)) % (topology.spSize * topology.tpSize) =
        spRank * topology.tpSize + tpRank := by
    rw [Nat.mul_comm ppRank, Nat.mul_add_mod, Nat.mod_eq_of_lt hinner]
  have hdivInner : (spRank * topology.tpSize + tpRank) / topology.tpSize = spRank := by
    rw [Nat.mul_comm, Nat.mul_add_div htpPos, Nat.div_eq_of_lt htp, Nat.add_zero]
  have hmodInner : (spRank * topology.tpSize + tpRank) % topology.tpSize = tpRank := by
    rw [Nat.mul_comm, Nat.mul_add_mod, Nat.mod_eq_of_lt htp]
  refine ⟨ppRank * (topology.spSize * topology.tpSize) + (spRank * topology.tpSize + tpRank), _,
    ?_, hbound, if_neg (Nat.not_le.mpr hbound), rfl, hdiv, ?_, ?_⟩
  · unfold NnParallelTopology.getGlobalRank
    rw [if_neg (Nat.not_le.mpr hpp), if_neg (Nat.not_le.mpr hsp), if_neg (Nat.not_le.mpr htp),
      Nat.add_assoc]
  · dsimp only
    rw [hmod, hdivInner]
  · dsimp only
    rw [hmod, hmodInner]

end Ranks

section Links

variable {F : Type} {topology : NnParallelTopology}

/-- A communicator of the node of a stage on a lane, with any options and
whatever it has sent and received. -/
def OnLane (topology : NnParallelTopology) (ppRank spRank tpRank : ℕ)
    (c : NnPipelineCommunicator F) : Prop :=
  ∃ (placement : NnNodePlacement) (deltaEnabled : Bool) (deltaMinBytes chunkBytes : ℕ),
    topology.getGlobalRank ppRank spRank tpRank = .ok placement.globalRank ∧
    topology.getPlacement placement.globalRank = .ok placement ∧
    SameNode (.create topology placement deltaEnabled deltaMinBytes chunkBytes) c

variable {ppRank ppRank' spRank tpRank : ℕ} {c c' : NnPipelineCommunicator F}

/-- The index of a node on a lane is the rank of its place there. -/
theorem OnLane.getGlobalRank (h : OnLane topology ppRank spRank tpRank c) :
    topology.getGlobalRank ppRank spRank tpRank = .ok c.myNodeIndex := by
  obtain ⟨placement, deltaEnabled, deltaMinBytes, chunkBytes, hrank, -, hnode⟩ := h
  rw [hnode.nodeIndex]
  exact hrank

theorem OnLane.bounds (h : OnLane topology ppRank spRank tpRank c) :
    ppRank < topology.ppSize ∧ spRank < topology.spSize ∧ tpRank < topology.tpSize := by
  have hrank := h.getGlobalRank
  unfold NnParallelTopology.getGlobalRank at hrank
  split_ifs at hrank
  omega

/-- What the constructor stores of a node's ranks. -/
theorem OnLane.ranks (hf : Factored topology) (h : OnLane topology ppRank spRank tpRank c) :
    c.topology = topology ∧ c.myPpRank = ppRank ∧ c.mySpRank = spRank ∧ c.myTpRank = tpRank := by
  obtain ⟨hpp, hsp, htp⟩ := h.bounds
  obtain ⟨placement, deltaEnabled, deltaMinBytes, chunkBytes, hrank, hplace, hnode⟩ := h
  obtain ⟨rank, found, hrank', -, hplace', -, hpp', hsp', htp'⟩ :=
    hf.getPlacement_getGlobalRank hpp hsp htp
  rw [hrank] at hrank'
  injection hrank' with hsame
  rw [← hsame, hplace] at hplace'
  injection hplace' with hfound
  rw [← hfound] at hpp' hsp' htp'
  exact ⟨hnode.topology, hnode.ppRank.trans hpp', hnode.spRank.trans hsp',
    hnode.tpRank.trans htp'⟩

/-- Different stages of a lane are different nodes. -/
theorem OnLane.ne (hf : Factored topology) (h : OnLane topology ppRank spRank tpRank c)
    (h' : OnLane topology ppRank' spRank tpRank c') (hne : ppRank ≠ ppRank') :
    c.myNodeIndex ≠ c'.myNodeIndex := by
  intro hsame
  obtain ⟨hpp, hsp, htp⟩ := h.bounds
  obtain ⟨rank, placement, hrank, -, hplace, -, hrankPp, -⟩ :=
    hf.getPlacement_getGlobalRank hpp hsp htp
  obtain ⟨rank', placement', hrank', -, hplace', -, hrankPp', -⟩ :=
    hf.getPlacement_getGlobalRank h'.bounds.1 hsp htp
  rw [h.getGlobalRank] at hrank
  rw [h'.getGlobalRank, ← hsame] at hrank'
  injection hrank with hrank
  injection hrank' with hrank'
  rw [← hrank] at hplace
  rw [← hrank', hplace] at hplace'
  injection hplace' with hplace'
  rw [← hplace'] at hrankPp'
  exact hne (hrankPp.symm.trans hrankPp')

theorem OnLane.nodeIndex_lt (hf : Factored topology) (h : OnLane topology ppRank spRank tpRank c) :
    c.myNodeIndex < topology.nNodes := by
  obtain ⟨hpp, hsp, htp⟩ := h.bounds
  obtain ⟨rank, placement, hrank, hlt, -⟩ := hf.getPlacement_getGlobalRank hpp hsp htp
  rw [h.getGlobalRank] at hrank
  injection hrank with hrank
  rw [hrank]
  exact hlt

/-- The socket of a stage is the one of the node of that stage. -/
theorem OnLane.getPipelineSocketIndex (hf : Factored topology)
    (h : OnLane topology ppRank spRank tpRank c) (h' : OnLane topology ppRank' spRank tpRank c')
    (hne : ppRank ≠ ppRank') :
    c.getPipelineSocketIndex ppRank' =
      .ok (getSocketIndexForNode c.myNodeIndex c'.myNodeIndex) := by
  obtain ⟨htopology, -, hspRank, htpRank⟩ := h.ranks hf
  refine NnPipelineCommunicator.getPipelineSocketIndex_eq ?_ (Ne.symm (h.ne hf h' hne))
  rw [htopology, hspRank, htpRank]
  exact h'.getGlobalRank

variable [Sub F]

/-- What a node writes for a stage is what the node of that stage reads for the
writer's stage: the two slots are the ends of one connection. -/
def OneLink (codec : FloatCodec F) (nNodes : ℕ) (c : NnPipelineCommunicator F) (targetPpRank : ℕ)
    (c' : NnPipelineCommunicator F) (sourcePpRank : ℕ) : Prop :=
  ∃ slot slot',
    (∀ seqPosition batchIndex sliceId data dtype extraFlags, ∃ frame next,
      c.sendActivation codec targetPpRank seqPosition batchIndex sliceId data dtype extraFlags =
        .ok (slot, frame, next)) ∧
    c'.recvSocket sourcePpRank = .ok slot' ∧
    (c'.myNodeIndex, slot) ∈ nodeSlots c.myNodeIndex nNodes ∧
    (c.myNodeIndex, slot') ∈ nodeSlots c'.myNodeIndex nNodes

/-- Any two stages of a lane are joined by one connection. -/
theorem OnLane.oneLink (hf : Factored topology) (codec : FloatCodec F)
    (h : OnLane topology ppRank spRank tpRank c) (h' : OnLane topology ppRank' spRank tpRank c')
    (hne : ppRank ≠ ppRank') : OneLink codec topology.nNodes c ppRank' c' ppRank := by
  have hsend := h.getPipelineSocketIndex hf h' hne
  have hrecv := h'.getPipelineSocketIndex hf h (Ne.symm hne)
  have hlt := h.nodeIndex_lt hf
  have hlt' := h'.nodeIndex_lt hf
  have hnodes := h.ne hf h' hne
  have htarget : ¬c.topology.ppSize ≤ ppRank' := by
    rw [(h.ranks hf).1]
    exact Nat.not_le.mpr h'.bounds.1
  have hsource : ¬c'.topology.ppSize ≤ ppRank := by
    rw [(h'.ranks hf).1]
    exact Nat.not_le.mpr h.bounds.1
  refine ⟨_, _, fun seqPosition batchIndex sliceId data dtype extraFlags => ?_, ?_,
    (mem_nodeSlots hlt).mpr ⟨hlt', Ne.symm hnodes, rfl⟩,
    (mem_nodeSlots hlt').mpr ⟨hlt, hnodes, rfl⟩⟩
  · unfold NnPipelineCommunicator.sendActivation
    rw [if_neg htarget, hsend]
    exact ⟨_, _, rfl⟩
  · unfold NnPipelineCommunicator.recvSocket
    rw [if_neg hsource, hrecv]

/-- How ranks, slots and links fit together. -/
structure Consistent (codec : FloatCodec F) (topology : NnParallelTopology) : Prop where
  /-- The ranks of a node lead back to it. -/
  rank_of_placement : ∀ globalRank < topology.nNodes, ∃ placement,
    topology.getPlacement globalRank = .ok placement ∧ placement.globalRank = globalRank ∧
    topology.getGlobalRank placement.ppRank placement.spRank placement.tpRank = .ok globalRank
  /-- Ranks name a node that has them. -/
  placement_of_rank : ∀ ppRank < topology.ppSize, ∀ spRank < topology.spSize,
    ∀ tpRank < topology.tpSize, ∃ globalRank placement,
      topology.getGlobalRank ppRank spRank tpRank = .ok globalRank ∧
      globalRank < topology.nNodes ∧ topology.getPlacement globalRank = .ok placement ∧
      placement.globalRank = globalRank ∧ placement.ppRank = ppRank ∧
      placement.spRank = spRank ∧ placement.tpRank = tpRank
  /-- The peers of a node have all its slots, one each. -/
  slots_bijective : ∀ nodeIndex < topology.nNodes,
    Set.BijOn (getSocketIndexForNode nodeIndex)
      {peer | peer < topology.nNodes ∧ peer ≠ nodeIndex} {slot | slot < topology.nNodes - 1}
  /-- The slots filled at start-up are those computed for the peers. -/
  slots_filled : ∀ nodeIndex < topology.nNodes, ∀ peer slot,
    (peer, slot) ∈ nodeSlots nodeIndex topology.nNodes ↔
      peer < topology.nNodes ∧ peer ≠ nodeIndex ∧ slot = getSocketIndexForNode nodeIndex peer
  /-- The pipeline computes the same slots. -/
  pipeline_slots : ∀ (ppRank ppRank' spRank tpRank : ℕ) (c c' : NnPipelineCommunicator F),
    OnLane topology ppRank spRank tpRank c → OnLane topology ppRank' spRank tpRank c' →
    ppRank ≠ ppRank' → c.myNodeIndex ≠ c'.myNodeIndex ∧
      c.getPipelineSocketIndex ppRank' = .ok (getSocketIndexForNode c.myNodeIndex c'.myNodeIndex)
  /-- The link to the next stage. -/
  next_link : ∀ (ppRank spRank tpRank : ℕ) (c c' : NnPipelineCommunicator F),
    OnLane topology ppRank spRank tpRank c → OnLane topology (ppRank + 1) spRank tpRank c' →
    c.getTargetPpRank = .ok (ppRank + 1) ∧ c'.getSourcePpRank = .ok ppRank ∧
      OneLink codec topology.nNodes c (ppRank + 1) c' ppRank
  /-- The link around a stage that is left out. -/
  skip_link : ∀ (target spRank tpRank : ℕ) (c c' : NnPipelineCommunicator F), 0 < target →
    OnLane topology (target - 1) spRank tpRank c → OnLane topology (target + 1) spRank tpRank c' →
    OneLink codec topology.nNodes c (target + 1) c' (target - 1)

/-- In every topology that the constructor accepts without a wrap, ranks, slots
and links fit together. -/
theorem lane_links_consistent (codec : FloatCodec F) {nNodes ppSize spSize : NnUint}
    (h : createPPxSPxTPTopology nNodes ppSize spSize = .ok topology)
    (hwrap : ppSize.toNat * spSize.toNat < 2 ^ 32) : Consistent codec topology := by
  have hf := factored_of_create h hwrap
  refine ⟨fun _ => hf.getGlobalRank_getPlacement, fun _ hpp _ hsp _ htp =>
    hf.getPlacement_getGlobalRank hpp hsp htp, fun _ => bijOn_getSocketIndexForNode,
    fun _ hlt _ _ => mem_nodeSlots hlt, ?_, ?_, ?_⟩
  · intro ppRank ppRank' spRank tpRank c c' hc hc' hne
    exact ⟨hc.ne hf hc' hne, hc.getPipelineSocketIndex hf hc' hne⟩
  · intro ppRank spRank tpRank c c' hc hc'
    obtain ⟨htopology, hpp, -⟩ := hc.ranks hf
    obtain ⟨-, hpp', -⟩ := hc'.ranks hf
    have hlast := hc'.bounds.1
    refine ⟨?_, ?_, hc.oneLink hf codec hc' (by omega)⟩
    · have hsends : c.shouldSendActivations = true := by
        rw [NnPipelineCommunicator.shouldSendActivations, hpp, htopology]
        exact decide_eq_true (by omega)
      rw [NnPipelineCommunicator.getTargetPpRank, if_pos hsends, hpp]
    · have hrecvs : c'.shouldRecvActivations = true := by
        rw [NnPipelineCommunicator.shouldRecvActivations, hpp']
        exact decide_eq_true (by omega)
      rw [NnPipelineCommunicator.getSourcePpRank, if_pos hrecvs, hpp']
      rfl
  · intro target spRank tpRank c c' hpos hc hc'
    exact hc.oneLink hf codec hc' (by omega)

end Links

theorem lane_links_consistent_eight :
    createPPxSPxTPTopology 8 2 2 = .ok ⟨8, 2, 2, 2⟩ ∧ Consistent wordCodec ⟨8, 2, 2, 2⟩ := by
  have hcreate : createPPxSPxTPTopology 8 2 2 = .ok ⟨8, 2, 2, 2⟩ := by decide
  exact ⟨hcreate, lane_links_consistent wordCodec hcreate (by decide)⟩

end LayerSkip.LaneLinks
