import LayerSkip.LaneLinks

/-!
# The topology in words

The sizes and ranks of a topology are 32-bit words, and so are their products. A topology that the constructor
accepts is placed without a wrap exactly when the product of its first two sizes does not wrap.
-/

namespace LayerSkip.TopologyWords

open NnTopology LaneLinks

/-- A product that does not wrap. -/
theorem toNat_mul_of_lt {a b : NnUint} (h : a.toNat * b.toNat < 2 ^ 32) :
    (a * b).toNat = a.toNat * b.toNat := by
  rw [UInt32.toNat_mul, Nat.mod_eq_of_lt h]

/-- A sum that does not wrap. -/
theorem toNat_add_of_lt {a b : NnUint} (h : a.toNat + b.toNat < 2 ^ 32) :
    (a + b).toNat = a.toNat + b.toNat := by
  rw [UInt32.toNat_add, Nat.mod_eq_of_lt h]

/-- Ranks of one node, in words. -/
structure Placement where
  /-- Index of the node. -/
  globalRank : NnUint
  /-- Pipeline stage. -/
  ppRank : NnUint
  /-- Sequence group inside the stage. -/
  spRank : NnUint
  /-- Tensor rank inside the sequence group. -/
  tpRank : NnUint
  /-- First node of the tensor group. -/
  tpGroupStart : NnUint
  /-- One past the last node of the tensor group. -/
  tpGroupEnd : NnUint
  /-- First node of the stage. -/
  spGroupStart : NnUint
  /-- One past the last node of the stage. -/
  spGroupEnd : NnUint
  deriving DecidableEq, Repr

/-- The numbers of a placement. -/
def Placement.toNat (placement : Placement) : NnNodePlacement :=
  ⟨placement.globalRank.toNat, placement.ppRank.toNat, placement.spRank.toNat, placement.tpRank.toNat,
    placement.tpGroupStart.toNat, placement.tpGroupEnd.toNat, placement.spGroupStart.toNat,
    placement.spGroupEnd.toNat⟩

/-- The three dimensions, in words. -/
structure Topology where
  /-- Number of nodes. -/
  nNodes : NnUint
  /-- Pipeline stages. -/
  ppSize : NnUint
  /-- Sequence groups in a stage. -/
  spSize : NnUint
  /-- Tensor ranks in a sequence group. -/
  tpSize : NnUint
  deriving DecidableEq, Repr

namespace Topology

/-- The constructor. -/
def create (nNodes ppSize spSize : NnUint) : Except Fault Topology :=
  if nNodes < 1 then .error (.runtimeError "nNodes must be >= 1")
  else if ppSize < 1 then .error (.runtimeError "ppSize must be >= 1")
  else if spSize < 1 then .error (.runtimeError "spSize must be >= 1")
  else if ppSize * spSize = 0 then .error .divisionByZero
  else if nNodes % (ppSize * spSize) ≠ 0 then
    .error (.runtimeError "nNodes must be divisible by ppSize * spSize")
  else .ok ⟨nNodes, ppSize, spSize, nNodes / (ppSize * spSize)⟩

variable (topology : Topology)

/-- The numbers of a topology. -/
def toNat : NnParallelTopology :=
  ⟨topology.nNodes.toNat, topology.ppSize.toNat, topology.spSize.toNat, topology.tpSize.toNat⟩

/-- Ranks and groups of a node. -/
def getPlacement (globalRank : NnUint) : Except Fault Placement :=
  if topology.nNodes ≤ globalRank then .error (.runtimeError "global rank out of range")
  else if topology.spSize * topology.tpSize = 0 then .error .divisionByZero
  else if topology.tpSize = 0 then .error .divisionByZero
  else
    let ppRank := globalRank / (topology.spSize * topology.tpSize)
    let rem := globalRank % (topology.spSize * topology.tpSize)
    let spRank := rem / topology.tpSize
    let tpRank := rem % topology.tpSize
    let tpGroupStart := ppRank * topology.spSize * topology.tpSize + spRank * topology.tpSize
    let spGroupStart := ppRank * topology.spSize * topology.tpSize
    .ok ⟨globalRank, ppRank, spRank, tpRank, tpGroupStart, tpGroupStart + topology.tpSize,
      spGroupStart, spGroupStart + topology.spSize * topology.tpSize⟩

/-- Node with the given ranks. -/
def getGlobalRank (ppRank spRank tpRank : NnUint) : Except Fault NnUint :=
  if topology.ppSize ≤ ppRank then .error (.runtimeError "pp rank out of range")
  else if topology.spSize ≤ spRank then .error (.runtimeError "sp rank out of range")
  else if topology.tpSize ≤ tpRank then .error (.runtimeError "tp rank out of range")
  else .ok (ppRank * (topology.spSize * topology.tpSize) + spRank * topology.tpSize + tpRank)

/-- Number of lanes. -/
def getLaneCount : NnUint := topology.spSize * topology.tpSize

/-- Lane of a node. -/
def getLaneId (placement : Placement) : NnUint :=
  placement.spRank * topology.tpSize + placement.tpRank

/-- The constructor in words and in numbers. -/
theorem create_toNat (nNodes ppSize spSize : NnUint) :
    (create nNodes ppSize spSize).map toNat = createPPxSPxTPTopology nNodes ppSize spSize := by
  unfold create createPPxSPxTPTopology
  split
  · rfl
  · split
    · rfl
    · split
      · rfl
      · split
        · rfl
        · split
          · rfl
          · rfl

/-- All ranks are computed without a wrap: they are those of the numbers, which stay within the nodes. -/
structure Exact : Prop where
  /-- The placement of a node. -/
  placement : ∀ globalRank,
    (topology.getPlacement globalRank).map Placement.toNat = topology.toNat.getPlacement globalRank.toNat
  /-- The ends of its groups. -/
  ends : ∀ globalRank placement, topology.toNat.getPlacement globalRank = .ok placement →
    placement.tpGroupEnd ≤ topology.nNodes.toNat ∧ placement.spGroupEnd ≤ topology.nNodes.toNat
  /-- The node of three ranks. -/
  globalRank : ∀ ppRank spRank tpRank, (topology.getGlobalRank ppRank spRank tpRank).map UInt32.toNat =
    topology.toNat.getGlobalRank ppRank.toNat spRank.toNat tpRank.toNat
  /-- It is a node. -/
  nodes : ∀ ppRank spRank tpRank globalRank,
    topology.toNat.getGlobalRank ppRank spRank tpRank = .ok globalRank → globalRank < topology.nNodes.toNat
  /-- The number of lanes. -/
  laneCount : topology.getLaneCount.toNat = topology.toNat.spSize * topology.toNat.tpSize
  /-- The lane of a node. -/
  laneId : ∀ globalRank placement, topology.getPlacement globalRank = .ok placement →
    (topology.getLaneId placement).toNat =
      placement.spRank.toNat * topology.tpSize.toNat + placement.tpRank.toNat

end Topology

section Exact

variable {topology : Topology}

/-- The groups of a node end within the nodes. -/
theorem group_ends {ppSize spSize tpSize globalRank : ℕ} (h : globalRank < ppSize * (spSize * tpSize)) :
    globalRank / (spSize * tpSize) * spSize * tpSize + spSize * tpSize ≤ ppSize * (spSize * tpSize) ∧
    globalRank % (spSize * tpSize) / tpSize * tpSize + tpSize ≤ spSize * tpSize := by
  have hlane : 0 < spSize * tpSize := Nat.pos_of_mul_pos_left (Nat.zero_lt_of_lt h)
  have htp : 0 < tpSize := Nat.pos_of_mul_pos_left hlane
  have hpp : globalRank / (spSize * tpSize) < ppSize := Nat.div_lt_of_lt_mul (Nat.mul_comm _ _ ▸ h)
  have hsp : globalRank % (spSize * tpSize) / tpSize < spSize :=
    Nat.div_lt_of_lt_mul (Nat.mul_comm spSize _ ▸ Nat.mod_lt _ hlane)
  constructor
  · rw [Nat.mul_assoc, ← Nat.succ_mul]
    exact Nat.mul_le_mul_right _ hpp
  · rw [← Nat.succ_mul]
    exact Nat.mul_le_mul_right _ hsp

theorem lane_le (h : Factored topology.toNat) :
    topology.spSize.toNat * topology.tpSize.toNat ≤ topology.nNodes.toNat := by
  have hnodes : topology.nNodes.toNat =
    topology.ppSize.toNat * (topology.spSize.toNat * topology.tpSize.toNat) := h.nNodes_eq
  rw [hnodes]
  exact Nat.le_mul_of_pos_left _ h.ppSize_pos

/-- The product of the lanes does not wrap. -/
theorem lane_toNat (h : Factored topology.toNat) :
    (topology.spSize * topology.tpSize).toNat = topology.spSize.toNat * topology.tpSize.toNat :=
  toNat_mul_of_lt (Nat.lt_of_le_of_lt (lane_le h) topology.nNodes.toNat_lt)

theorem ne_zero_of_pos {word : NnUint} (h : 0 < word.toNat) : word ≠ 0 := by
  intro hzero
  rw [hzero] at h
  exact Nat.lt_irrefl 0 h

/-- The first node of a stage and the borders of a tensor group do not wrap. -/
theorem stageStart_toNat (h : Factored topology.toNat) {ppRank : NnUint}
    (hend : ppRank.toNat * topology.spSize.toNat * topology.tpSize.toNat ≤ topology.nNodes.toNat) :
    (ppRank * topology.spSize * topology.tpSize).toNat =
      ppRank.toNat * topology.spSize.toNat * topology.tpSize.toNat := by
  have hword := topology.nNodes.toNat_lt
  have htpPos : 0 < topology.tpSize.toNat := Nat.pos_of_mul_pos_left h.stage_pos
  have hinner : ppRank.toNat * topology.spSize.toNat < 2 ^ 32 :=
    Nat.lt_of_le_of_lt (Nat.le_trans (Nat.le_mul_of_pos_right _ htpPos) hend) hword
  have hproduct := toNat_mul_of_lt hinner
  rw [← hproduct] at hend ⊢
  exact toNat_mul_of_lt (Nat.lt_of_le_of_lt hend hword)

/-- The words of a placement are its numbers. -/
theorem getPlacement_toNat (h : Factored topology.toNat) (globalRank : NnUint) :
    (topology.getPlacement globalRank).map Placement.toNat =
      topology.toNat.getPlacement globalRank.toNat := by
  have hlane := lane_toNat h
  have hlanePos : 0 < topology.spSize.toNat * topology.tpSize.toNat := h.stage_pos
  have htpPos : 0 < topology.tpSize.toNat := Nat.pos_of_mul_pos_left hlanePos
  have hnodes : topology.nNodes.toNat =
    topology.ppSize.toNat * (topology.spSize.toNat * topology.tpSize.toNat) := h.nNodes_eq
  have hword := topology.nNodes.toNat_lt
  unfold Topology.getPlacement NnParallelTopology.getPlacement
  by_cases hrange : topology.nNodes ≤ globalRank
  · have hout : topology.toNat.nNodes ≤ globalRank.toNat := UInt32.le_iff_toNat_le.mp hrange
    rw [if_pos hrange, if_pos hout]
    rfl
  · have hlt : globalRank.toNat < topology.nNodes.toNat :=
      Nat.lt_of_not_le fun hle => hrange (UInt32.le_iff_toNat_le.mpr hle)
    have hin : ¬topology.toNat.nNodes ≤ globalRank.toNat := Nat.not_le.mpr hlt
    rw [hnodes] at hlt
    obtain ⟨hstageEnd, hgroupEnd⟩ := group_ends hlt
    rw [← hnodes] at hstageEnd
    have hppRank : (globalRank / (topology.spSize * topology.tpSize)).toNat =
        globalRank.toNat / (topology.spSize.toNat * topology.tpSize.toNat) := by
      rw [UInt32.toNat_div, hlane]
    have hrem : (globalRank % (topology.spSize * topology.tpSize)).toNat =
        globalRank.toNat % (topology.spSize.toNat * topology.tpSize.toNat) := by
      rw [UInt32.toNat_mod, hlane]
    rw [← hppRank] at hstageEnd
    rw [← hrem] at hgroupEnd
    have hstart := stageStart_toNat h (Nat.le_trans (Nat.le_add_right _ _) hstageEnd)
    rw [← hstart] at hstageEnd
    have hspRank : (globalRank % (topology.spSize * topology.tpSize) / topology.tpSize).toNat =
        (globalRank % (topology.spSize * topology.tpSize)).toNat / topology.tpSize.toNat :=
      UInt32.toNat_div _ _
    rw [← hspRank] at hgroupEnd
    have hgroup : (globalRank % (topology.spSize * topology.tpSize) / topology.tpSize * topology.tpSize).toNat =
        (globalRank % (topology.spSize * topology.tpSize) / topology.tpSize).toNat *
          topology.tpSize.toNat := toNat_mul_of_lt (by omega)
    rw [← hgroup] at hgroupEnd
    have hgroupStart := toNat_add_of_lt (a := globalRank / (topology.spSize * topology.tpSize) *
        topology.spSize * topology.tpSize)
      (b := globalRank % (topology.spSize * topology.tpSize) / topology.tpSize * topology.tpSize) (by omega)
    have hgroupStop := toNat_add_of_lt (a := globalRank / (topology.spSize * topology.tpSize) *
        topology.spSize * topology.tpSize +
          globalRank % (topology.spSize * topology.tpSize) / topology.tpSize * topology.tpSize)
      (b := topology.tpSize) (by omega)
    have hstageStop := toNat_add_of_lt (a := globalRank / (topology.spSize * topology.tpSize) *
        topology.spSize * topology.tpSize) (b := topology.spSize * topology.tpSize) (by omega)
    have hlaneNe : topology.spSize * topology.tpSize ≠ 0 := ne_zero_of_pos (hlane ▸ hlanePos)
    rw [if_neg hrange, if_neg hin, if_neg hlaneNe, if_neg (ne_zero_of_pos htpPos)]
    simp only [Except.map, Placement.toNat, Topology.toNat, hgroupStop, hstageStop, hgroupStart, hstart,
      hgroup, hspRank, hrem, hppRank, hlane, UInt32.toNat_mod]

/-- The groups of a placement end within the nodes. -/
theorem getPlacement_ends {numbers : NnParallelTopology} (h : Factored numbers) {globalRank : ℕ}
    {placement : NnNodePlacement} (hplacement : numbers.getPlacement globalRank = .ok placement) :
    placement.tpGroupEnd ≤ numbers.nNodes ∧ placement.spGroupEnd ≤ numbers.nNodes := by
  unfold NnParallelTopology.getPlacement at hplacement
  split at hplacement
  · cases hplacement
  · rename_i hrange
    cases hplacement
    have hlt := Nat.lt_of_not_le hrange
    rw [h.nNodes_eq] at hlt
    have hends := group_ends hlt
    rw [← h.nNodes_eq] at hends
    simp only
    omega

/-- The lane of a node does not wrap. -/
theorem laneId_toNat (h : Factored topology.toNat) {spRank tpRank : NnUint}
    (hsp : spRank.toNat < topology.spSize.toNat) (htp : tpRank.toNat < topology.tpSize.toNat) :
    (spRank * topology.tpSize + tpRank).toNat = spRank.toNat * topology.tpSize.toNat + tpRank.toNat ∧
      spRank.toNat * topology.tpSize.toNat + tpRank.toNat <
        topology.spSize.toNat * topology.tpSize.toNat := by
  have hword := topology.nNodes.toNat_lt
  have hle := lane_le h
  have hnext := Nat.mul_le_mul_right topology.tpSize.toNat (Nat.succ_le_of_lt hsp)
  rw [Nat.succ_mul] at hnext
  have hproduct : (spRank * topology.tpSize).toNat = spRank.toNat * topology.tpSize.toNat :=
    toNat_mul_of_lt (by omega)
  have hsum := toNat_add_of_lt (a := spRank * topology.tpSize) (b := tpRank) (by omega)
  constructor
  · rw [hsum, hproduct]
  · omega

/-- The node of three ranks does not wrap. -/
theorem getGlobalRank_toNat (h : Factored topology.toNat) (ppRank spRank tpRank : NnUint) :
    (topology.getGlobalRank ppRank spRank tpRank).map UInt32.toNat =
      topology.toNat.getGlobalRank ppRank.toNat spRank.toNat tpRank.toNat := by
  have hnodes : topology.nNodes.toNat =
    topology.ppSize.toNat * (topology.spSize.toNat * topology.tpSize.toNat) := h.nNodes_eq
  have hword := topology.nNodes.toNat_lt
  unfold Topology.getGlobalRank NnParallelTopology.getGlobalRank
  by_cases hpp : topology.ppSize ≤ ppRank
  · have hppNat : topology.toNat.ppSize ≤ ppRank.toNat := UInt32.le_iff_toNat_le.mp hpp
    rw [if_pos hpp, if_pos hppNat]
    rfl
  · have hppLt : ppRank.toNat < topology.ppSize.toNat :=
      Nat.lt_of_not_le fun hle => hpp (UInt32.le_iff_toNat_le.mpr hle)
    have hppNat : ¬topology.toNat.ppSize ≤ ppRank.toNat := Nat.not_le.mpr hppLt
    rw [if_neg hpp, if_neg hppNat]
    by_cases hsp : topology.spSize ≤ spRank
    · have hspNat : topology.toNat.spSize ≤ spRank.toNat := UInt32.le_iff_toNat_le.mp hsp
      rw [if_pos hsp, if_pos hspNat]
      rfl
    · have hspLt : spRank.toNat < topology.spSize.toNat :=
        Nat.lt_of_not_le fun hle => hsp (UInt32.le_iff_toNat_le.mpr hle)
      have hspNat : ¬topology.toNat.spSize ≤ spRank.toNat := Nat.not_le.mpr hspLt
      rw [if_neg hsp, if_neg hspNat]
      by_cases htp : topology.tpSize ≤ tpRank
      · have htpNat : topology.toNat.tpSize ≤ tpRank.toNat := UInt32.le_iff_toNat_le.mp htp
        rw [if_pos htp, if_pos htpNat]
        rfl
      · have htpLt : tpRank.toNat < topology.tpSize.toNat :=
          Nat.lt_of_not_le fun hle => htp (UInt32.le_iff_toNat_le.mpr hle)
        have htpNat : ¬topology.toNat.tpSize ≤ tpRank.toNat := Nat.not_le.mpr htpLt
        rw [if_neg htp, if_neg htpNat]
        obtain ⟨hlane, hlaneLt⟩ := laneId_toNat h hspLt htpLt
        have hstage := Nat.mul_le_mul_right (topology.spSize.toNat * topology.tpSize.toNat)
          (Nat.succ_le_of_lt hppLt)
        rw [Nat.succ_mul, ← hnodes] at hstage
        have hproduct : (ppRank * (topology.spSize * topology.tpSize)).toNat =
            ppRank.toNat * (topology.spSize.toNat * topology.tpSize.toNat) := by
          rw [← lane_toNat h] at hstage ⊢
          exact toNat_mul_of_lt (by omega)
        have hgroup : (spRank * topology.tpSize).toNat = spRank.toNat * topology.tpSize.toNat :=
          toNat_mul_of_lt (by omega)
        have hfirst := toNat_add_of_lt (a := ppRank * (topology.spSize * topology.tpSize))
          (b := spRank * topology.tpSize) (by omega)
        have hwhole := toNat_add_of_lt (a := ppRank * (topology.spSize * topology.tpSize) +
          spRank * topology.tpSize) (b := tpRank) (by omega)
        simp only [Except.map, Topology.toNat, hwhole, hfirst, hgroup, hproduct]

/-- All ranks of such a topology are exact. -/
theorem exact_of_factored (h : Factored topology.toNat) : topology.Exact where
  placement := getPlacement_toNat h
  ends globalRank placement hplacement := getPlacement_ends h hplacement
  globalRank := getGlobalRank_toNat h
  nodes ppRank spRank tpRank globalRank hrank := by
    unfold NnParallelTopology.getGlobalRank at hrank
    split at hrank
    · cases hrank
    · split at hrank
      · cases hrank
      · split at hrank
        · cases hrank
        · rename_i hpp hsp htp
          obtain ⟨node, _, hnode, hlt, _⟩ := h.getPlacement_getGlobalRank (Nat.lt_of_not_le hpp)
            (Nat.lt_of_not_le hsp) (Nat.lt_of_not_le htp)
          unfold NnParallelTopology.getGlobalRank at hnode
          rw [if_neg hpp, if_neg hsp, if_neg htp, hrank] at hnode
          cases hnode
          exact hlt
  laneCount := lane_toNat h
  laneId globalRank placement hplacement := by
    have hnumbers := getPlacement_toNat h globalRank
    rw [hplacement] at hnumbers
    have hlanePos : 0 < topology.spSize.toNat * topology.tpSize.toNat := h.stage_pos
    have hsp : placement.spRank.toNat < topology.spSize.toNat := by
      unfold NnParallelTopology.getPlacement at hnumbers
      split at hnumbers
      · cases hnumbers
      · have hrank : placement.spRank.toNat =
          globalRank.toNat % (topology.spSize.toNat * topology.tpSize.toNat) / topology.tpSize.toNat :=
          congrArg (fun result => (result.toOption.map NnNodePlacement.spRank).getD 0) hnumbers
        rw [hrank]
        exact Nat.div_lt_of_lt_mul (Nat.mul_comm topology.spSize.toNat _ ▸ Nat.mod_lt _ hlanePos)
    have htp : placement.tpRank.toNat < topology.tpSize.toNat := by
      unfold NnParallelTopology.getPlacement at hnumbers
      split at hnumbers
      · cases hnumbers
      · have hrank : placement.tpRank.toNat =
          globalRank.toNat % (topology.spSize.toNat * topology.tpSize.toNat) % topology.tpSize.toNat :=
          congrArg (fun result => (result.toOption.map NnNodePlacement.tpRank).getD 0) hnumbers
        rw [hrank]
        exact Nat.mod_lt _ (Nat.pos_of_mul_pos_left hlanePos)
    exact (laneId_toNat h hsp htp).1

end Exact

/-- The constructor throws, or gives a topology of all nodes whose ranks are exact. -/
def Sound (nNodes ppSize spSize : NnUint) : Prop :=
  match Topology.create nNodes ppSize spSize with
  | .error (.runtimeError _) => True
  | .error .divisionByZero => False
  | .ok topology =>
    topology.nNodes = nNodes ∧ topology.ppSize = ppSize ∧ topology.spSize = spSize ∧
      ppSize.toNat * spSize.toNat * topology.tpSize.toNat = nNodes.toNat ∧ 1 ≤ topology.tpSize.toNat ∧
      topology.Exact

/-- A size is missing, the product of the two sizes does not wrap, or what it wraps to is refused. -/
def Refused (nNodes ppSize spSize : NnUint) : Prop :=
  nNodes = 0 ∨ ppSize = 0 ∨ spSize = 0 ∨ ppSize.toNat * spSize.toNat < 2 ^ 32 ∨
    ppSize * spSize ≠ 0 ∧ nNodes % (ppSize * spSize) ≠ 0

theorem lt_one_iff {word : NnUint} : word < 1 ↔ word = 0 := by
  rw [UInt32.lt_iff_toNat_lt, ← UInt32.toNat_inj]
  exact Nat.lt_one_iff

/-- A product that wraps does not give the nodes back. -/
theorem lt_of_factors {nNodes ppSize spSize : NnUint} {tpSize : ℕ} (hpos : 1 ≤ tpSize)
    (h : ppSize.toNat * spSize.toNat * tpSize = nNodes.toNat) : ppSize.toNat * spSize.toNat < 2 ^ 32 := by
  have hle := Nat.le_mul_of_pos_right (ppSize.toNat * spSize.toNat) hpos
  rw [h] at hle
  exact Nat.lt_of_le_of_lt hle nNodes.toNat_lt

/-- The constructor is sound exactly where the product of the two sizes does not wrap or its remainder is
refused. -/
theorem sound_iff (nNodes ppSize spSize : NnUint) :
    Sound nNodes ppSize spSize ↔ Refused nNodes ppSize spSize := by
  unfold Sound Refused Topology.create
  by_cases hnodes : nNodes < 1
  · rw [if_pos hnodes]
    have hzero := lt_one_iff.mp hnodes
    simp only [hzero, true_or]
  · rw [if_neg hnodes]
    have hnodesNe : nNodes ≠ 0 := fun hzero => hnodes (lt_one_iff.mpr hzero)
    by_cases hpp : ppSize < 1
    · rw [if_pos hpp]
      have hzero := lt_one_iff.mp hpp
      simp only [hzero, true_or, or_true]
    · rw [if_neg hpp]
      have hppNe : ppSize ≠ 0 := fun hzero => hpp (lt_one_iff.mpr hzero)
      by_cases hsp : spSize < 1
      · rw [if_pos hsp]
        have hzero := lt_one_iff.mp hsp
        simp only [hzero, true_or, or_true]
      · rw [if_neg hsp]
        have hspNe : spSize ≠ 0 := fun hzero => hsp (lt_one_iff.mpr hzero)
        have hppPos : 0 < ppSize.toNat := Nat.pos_of_ne_zero fun hzero => hppNe (UInt32.toNat_inj.mp hzero)
        have hspPos : 0 < spSize.toNat := Nat.pos_of_ne_zero fun hzero => hspNe (UInt32.toNat_inj.mp hzero)
        simp only [hnodesNe, hppNe, hspNe, false_or]
        by_cases hproduct : ppSize * spSize = 0
        · rw [if_pos hproduct]
          simp only [hproduct, ne_eq, not_true_eq_false, false_and, or_false, false_iff]
          intro hwrap
          have hzero := toNat_mul_of_lt hwrap
          rw [hproduct] at hzero
          exact Nat.ne_of_lt (Nat.mul_pos hppPos hspPos) hzero
        · rw [if_neg hproduct]
          by_cases hrem : nNodes % (ppSize * spSize) ≠ 0
          · rw [if_pos hrem]
            exact iff_of_true trivial (Or.inr ⟨hproduct, hrem⟩)
          · rw [if_neg hrem]
            simp only
            constructor
            · intro hsound
              exact Or.inl (lt_of_factors hsound.2.2.2.2.1 hsound.2.2.2.1)
            · intro hrefused
              cases hrefused with
              | inr hremainder => exact absurd hremainder.2 hrem
              | inl hwrap =>
                have hcreate : createPPxSPxTPTopology nNodes ppSize spSize =
                    .ok (Topology.toNat ⟨nNodes, ppSize, spSize, nNodes / (ppSize * spSize)⟩) := by
                  rw [← Topology.create_toNat]
                  unfold Topology.create
                  rw [if_neg hnodes, if_neg hpp, if_neg hsp, if_neg hproduct, if_neg hrem]
                  rfl
                have hfactored := factored_of_create hcreate hwrap
                have hwhole : nNodes.toNat =
                  ppSize.toNat * (spSize.toNat * (nNodes / (ppSize * spSize)).toNat) := hfactored.nNodes_eq
                refine ⟨by trivial, by trivial, by trivial, ?_, ?_, exact_of_factored hfactored⟩
                · rw [hwhole, Nat.mul_assoc]
                · exact Nat.pos_of_mul_pos_left hfactored.stage_pos

/-- Two factors of 65536 are a division by zero, and 65537 stages of 65537 groups are accepted for 131073
nodes as one rank each. -/
theorem not_sound_wraps : ¬Sound 8 65536 65536 ∧ ¬Sound 131073 65537 65537 := by
  constructor
  · intro hsound
    exact hsound
  · intro hsound
    have hfactors := hsound.2.2.2.1
    revert hfactors
    decide

end LayerSkip.TopologyWords
