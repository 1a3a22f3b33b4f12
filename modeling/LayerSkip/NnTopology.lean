import Mathlib.Algebra.Group.Nat.Defs
import Mathlib.Data.Nat.Notation
import Mathlib.Tactic.Common

/-!
# Pipeline, sequence and tensor ranks

A topology splits the nodes into `ppSize` pipeline stages of `spSize` sequence
groups of `tpSize` tensor ranks. Ranks and group borders are computed from the
global rank and back. The constructor works on 32-bit words.
-/

namespace LayerSkip.NnTopology

/-- Unsigned 32-bit words. -/
abbrev NnUint := UInt32

/-- How a constructor can end badly. -/
inductive Fault
  /-- A runtime error with its text. -/
  | runtimeError (text : String)
  /-- A remainder by zero, which stops the process. -/
  | divisionByZero
  deriving DecidableEq, Repr

/-- A computation that may fail has succeeded in each of its parts. -/
theorem bind_eq_ok {ε α β : Type} {x : Except ε α} {f : α → Except ε β} {b : β}
    (h : x >>= f = .ok b) : ∃ a, x = .ok a ∧ f a = .ok b := by
  cases x with
  | error e => cases h
  | ok a => exact ⟨a, rfl, h⟩

/-- Ranks of one node and the borders of its two groups. -/
structure NnNodePlacement where
  /-- Index of the node. -/
  globalRank : ℕ
  /-- Pipeline stage. -/
  ppRank : ℕ
  /-- Sequence group inside the stage. -/
  spRank : ℕ
  /-- Tensor rank inside the sequence group. -/
  tpRank : ℕ
  /-- First node of the tensor group. -/
  tpGroupStart : ℕ
  /-- One past the last node of the tensor group. -/
  tpGroupEnd : ℕ
  /-- First node of the stage. -/
  spGroupStart : ℕ
  /-- One past the last node of the stage. -/
  spGroupEnd : ℕ
  deriving DecidableEq, Repr

/-- Sizes of the three dimensions. -/
structure NnParallelTopology where
  /-- Number of nodes. -/
  nNodes : ℕ
  /-- Pipeline stages. -/
  ppSize : ℕ
  /-- Sequence groups in a stage. -/
  spSize : ℕ
  /-- Tensor ranks in a sequence group. -/
  tpSize : ℕ
  deriving DecidableEq, Repr

/-- The constructor: the product of the two sizes is a 32-bit word. -/
def createPPxSPxTPTopology (nNodes ppSize spSize : NnUint) : Except Fault NnParallelTopology :=
  if nNodes < 1 then .error (.runtimeError "nNodes must be >= 1")
  else if ppSize < 1 then .error (.runtimeError "ppSize must be >= 1")
  else if spSize < 1 then .error (.runtimeError "spSize must be >= 1")
  else if ppSize * spSize = 0 then .error .divisionByZero
  else if nNodes % (ppSize * spSize) ≠ 0 then
    .error (.runtimeError "nNodes must be divisible by ppSize * spSize")
  else .ok ⟨nNodes.toNat, ppSize.toNat, spSize.toNat, (nNodes / (ppSize * spSize)).toNat⟩

namespace NnParallelTopology

variable (topology : NnParallelTopology)

/-- Ranks and groups of a node. -/
def getPlacement (globalRank : ℕ) : Except Fault NnNodePlacement :=
  if topology.nNodes ≤ globalRank then .error (.runtimeError "global rank out of range")
  else
    let ppRank := globalRank / (topology.spSize * topology.tpSize)
    let rem := globalRank % (topology.spSize * topology.tpSize)
    let spRank := rem / topology.tpSize
    let tpRank := rem % topology.tpSize
    let tpGroupStart := ppRank * topology.spSize * topology.tpSize + spRank * topology.tpSize
    let spGroupStart := ppRank * topology.spSize * topology.tpSize
    .ok ⟨globalRank, ppRank, spRank, tpRank, tpGroupStart, tpGroupStart + topology.tpSize,
      spGroupStart, spGroupStart + topology.spSize * topology.tpSize⟩

/-- Node with the given ranks. -/
def getGlobalRank (ppRank spRank tpRank : ℕ) : Except Fault ℕ :=
  if topology.ppSize ≤ ppRank then .error (.runtimeError "pp rank out of range")
  else if topology.spSize ≤ spRank then .error (.runtimeError "sp rank out of range")
  else if topology.tpSize ≤ tpRank then .error (.runtimeError "tp rank out of range")
  else .ok (ppRank * (topology.spSize * topology.tpSize) + spRank * topology.tpSize + tpRank)

/-- A chain of one node a stage has its stages as global ranks. -/
theorem getGlobalRank_chain {n ppRank : ℕ} (h : ppRank < n) :
    getGlobalRank ⟨n, n, 1, 1⟩ ppRank 0 0 = .ok ppRank := by
  have hlt : ¬n ≤ ppRank := by omega
  simp [getGlobalRank, hlt]

end NnParallelTopology

end LayerSkip.NnTopology
