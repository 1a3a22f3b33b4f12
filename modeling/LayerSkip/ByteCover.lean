import Mathlib.Algebra.BigOperators.Ring.Finset
import Mathlib.Algebra.Order.BigOperators.Group.Finset
import Mathlib.Algebra.Group.Action.Defs
import Mathlib.Order.Interval.Finset.Nat

/-!
# Bytes covered by pieces of one length

Pieces of one length follow each other, but the place where a piece starts is
only known up to a modulus. Every byte lies in exactly one piece just when the
pieces fill all bytes and no place has lost anything to the modulus.
-/

namespace LayerSkip.ByteCover

variable {count size modulus bytes : ℕ}

/-- Where a piece starts. -/
def pieceStart (size modulus piece : ℕ) : ℕ := piece * size % modulus

/-- A byte lies in a piece. -/
def InPiece (size modulus byte piece : ℕ) : Prop :=
  pieceStart size modulus piece ≤ byte ∧ byte < pieceStart size modulus piece + size

instance (size modulus byte : ℕ) : DecidablePred (InPiece size modulus byte) := fun _ =>
  inferInstanceAs (Decidable (_ ∧ _))

/-- Pieces that a byte lies in. -/
def piecesAt (count size modulus byte : ℕ) : List ℕ :=
  (List.range count).filter fun piece => InPiece size modulus byte piece

/-- Places below the modulus are kept. -/
theorem pieceStart_eq {piece : ℕ} (h : (count - 1) * size < modulus) (hpiece : piece < count) :
    pieceStart size modulus piece = piece * size := by
  have hle : piece * size ≤ (count - 1) * size := Nat.mul_le_mul_right size (by omega)
  exact Nat.mod_eq_of_lt (by omega)

/-- A list of indices has one element when exactly one index is taken. -/
theorem filter_range_eq {p : ℕ → Bool} {k : ℕ} (hk : k < count)
    (h : ∀ i < count, p i = true ↔ i = k) : (List.range count).filter p = [k] := by
  induction count with
  | zero => omega
  | succ count ih =>
    rw [List.range_succ, List.filter_append, List.filter_singleton]
    have hlast := h count (Nat.lt_succ_self count)
    rcases Nat.lt_succ_iff_lt_or_eq.mp hk with hbefore | heq
    · have hnot : p count = false := by
        cases hp : p count with
        | false => rfl
        | true => exact absurd (hlast.mp hp) (by omega)
      rw [hnot, ih hbefore fun i hi => h i (Nat.lt_succ_of_lt hi)]
      rfl
    · have hnone : (List.range count).filter p = [] := by
        rw [List.filter_eq_nil_iff]
        intro i hi hp
        have hlt := List.mem_range.mp hi
        have hik := (h i (Nat.lt_succ_of_lt hlt)).mp hp
        omega
      rw [hnone, hlast.mpr heq.symm, heq]
      rfl

/-- Pieces that fill the bytes cover every byte once. -/
theorem piecesAt_eq {byte : ℕ} (hfill : count * size = bytes) (hmod : (count - 1) * size < modulus)
    (hbyte : byte < bytes) : piecesAt count size modulus byte = [byte / size] := by
  have hsize : 0 < size := by
    rcases Nat.eq_zero_or_pos size with hzero | hpos
    · rw [hzero, Nat.mul_zero] at hfill
      omega
    · exact hpos
  have hpiece : byte / size < count :=
    Nat.div_lt_of_lt_mul (by rw [Nat.mul_comm, hfill]; exact hbyte)
  refine filter_range_eq hpiece ?_
  intro piece hlt
  rw [decide_eq_true_iff, InPiece, pieceStart_eq hmod hlt]
  constructor
  · intro h
    exact (Nat.div_eq_of_lt_le h.1 (by rw [Nat.succ_mul]; exact h.2)).symm
  · intro h
    have hdiv := Nat.div_add_mod byte size
    have hrest := Nat.mod_lt byte hsize
    rw [h, Nat.mul_comm]
    omega

/-- The pieces at a byte, counted. -/
theorem length_piecesAt (count byte : ℕ) : (piecesAt count size modulus byte).length =
    ∑ piece ∈ Finset.range count, if InPiece size modulus byte piece then 1 else 0 := by
  induction count with
  | zero => rfl
  | succ count ih =>
    unfold piecesAt at ih ⊢
    rw [List.range_succ, List.filter_append, List.length_append, ih, Finset.sum_range_succ,
      List.filter_singleton]
    by_cases h : InPiece size modulus byte count
    · rw [decide_eq_true h, if_pos h]
      rfl
    · rw [decide_eq_false h, if_neg h]
      rfl

/-- The bytes of a piece that ends inside, counted. -/
theorem sum_inPiece {piece : ℕ} (hend : pieceStart size modulus piece + size ≤ bytes) :
    (∑ byte ∈ Finset.range bytes, if InPiece size modulus byte piece then 1 else 0) = size := by
  have hfilter : (Finset.range bytes).filter (fun byte => InPiece size modulus byte piece) =
      Finset.Ico (pieceStart size modulus piece) (pieceStart size modulus piece + size) := by
    ext byte
    rw [Finset.mem_filter, Finset.mem_range, Finset.mem_Ico, InPiece]
    omega
  rw [← Finset.card_filter, hfilter, Nat.card_Ico]
  omega

/-- Pieces that cover every byte once fill the bytes, and none is misplaced. -/
theorem fills_of_piecesAt (hmodulus : 0 < modulus) (hbytes : 0 < bytes)
    (hend : ∀ piece < count, pieceStart size modulus piece + size ≤ bytes)
    (honce : ∀ byte < bytes, (piecesAt count size modulus byte).length = 1) :
    count * size = bytes ∧ (count - 1) * size < modulus := by
  have hsum : count * size = bytes := by
    calc count * size
        = ∑ piece ∈ Finset.range count, ∑ byte ∈ Finset.range bytes,
            if InPiece size modulus byte piece then 1 else 0 := by
          rw [Finset.sum_congr rfl fun piece hpiece =>
            sum_inPiece (hend piece (Finset.mem_range.mp hpiece)), Finset.sum_const,
            Finset.card_range, smul_eq_mul]
      _ = ∑ byte ∈ Finset.range bytes, (piecesAt count size modulus byte).length := by
          rw [Finset.sum_comm]
          exact Finset.sum_congr rfl fun byte _ => (length_piecesAt count byte).symm
      _ = bytes := by
          rw [Finset.sum_congr rfl fun byte hbyte => honce byte (Finset.mem_range.mp hbyte),
            Finset.sum_const, Finset.card_range, smul_eq_mul, Nat.mul_one]
  refine ⟨hsum, ?_⟩
  have hlast := honce (bytes - 1) (by omega)
  obtain ⟨piece, hpiece⟩ := List.length_eq_one_iff.mp hlast
  have hmem : piece ∈ piecesAt count size modulus (bytes - 1) := by
    rw [hpiece]
    exact List.mem_singleton_self piece
  have hin := List.mem_filter.mp hmem
  have hlt := List.mem_range.mp hin.1
  have hbetween := of_decide_eq_true hin.2
  -- the last byte is reached only from the last place, which the modulus has to keep
  have hle : piece * size ≤ (count - 1) * size := Nat.mul_le_mul_right size (by omega)
  have hstart : pieceStart size modulus piece ≤ piece * size := Nat.mod_le _ _
  have hsplit : count * size = (count - 1) * size + size := by
    rw [← Nat.succ_mul]
    congr 1
    omega
  have hkept : piece * size % modulus = (count - 1) * size := by
    unfold InPiece pieceStart at *
    omega
  have hmod := Nat.mod_lt (piece * size) hmodulus
  omega

end LayerSkip.ByteCover
