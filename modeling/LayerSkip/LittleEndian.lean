import Mathlib.Algebra.Group.Nat.Defs
import Mathlib.Data.List.Basic
import Mathlib.Data.Nat.Notation
import Mathlib.Tactic.Common
import Mathlib.Tactic.Ring

/-!
# Little-endian numbers

Numbers as lists of bytes of a given width, lowest byte first, and records of such
numbers at their offsets.
-/

namespace LayerSkip.LittleEndian

/-- The lowest bytes of a number. -/
def bytes : ℕ → ℕ → List UInt8
  | 0, _ => []
  | width + 1, n => UInt8.ofNat n :: bytes width (n / 256)

/-- The number that bytes stand for. -/
def value : List UInt8 → ℕ
  | [] => 0
  | b :: bs => b.toNat + 256 * value bs

@[simp] theorem bytes_length (width n : ℕ) : (bytes width n).length = width := by
  induction width generalizing n with
  | zero => exact Eq.refl _
  | succ width ih =>
    unfold bytes
    rw [List.length_cons, ih]

/-- Bytes keep what of a number fits into their width. -/
theorem value_bytes_mod (width n : ℕ) : value (bytes width n) = n % 256 ^ width := by
  induction width generalizing n with
  | zero => exact (Nat.mod_one n).symm
  | succ width ih =>
    unfold bytes value
    have hlow : (UInt8.ofNat n).toNat = n % 256 := UInt8.toNat_ofNat'
    rw [ih, hlow, Nat.pow_succ, Nat.mul_comm (256 ^ width), Nat.mod_mul]

theorem value_bytes {width n : ℕ} (h : n < 256 ^ width) : value (bytes width n) = n := by
  rw [value_bytes_mod, Nat.mod_eq_of_lt h]

theorem value_lt (bs : List UInt8) : value bs < 256 ^ bs.length := by
  induction bs with
  | nil => exact Nat.zero_lt_one
  | cons b bs ih =>
    have hlow := b.toNat_lt
    unfold value
    rw [List.length_cons, Nat.pow_succ]
    omega

/-- A record: numbers of given widths one after the other. -/
def record (fields : List (ℕ × ℕ)) : List UInt8 := fields.flatMap fun f => bytes f.1 f.2

/-- Numbers of a record whose fields have the given widths. -/
def split : List ℕ → List UInt8 → List ℕ
  | [], _ => []
  | width :: widths, bs => value (bs.take width) :: split widths (bs.drop width)

theorem record_length (fields : List (ℕ × ℕ)) :
    (record fields).length = (fields.map Prod.fst).sum := by
  induction fields with
  | nil => exact Eq.refl _
  | cons f fields ih =>
    unfold record at ih ⊢
    rw [List.flatMap_cons, List.length_append, bytes_length, ih, List.map_cons, List.sum_cons]

/-- A record is read back field by field. -/
theorem split_record {fields : List (ℕ × ℕ)} (h : ∀ f ∈ fields, f.2 < 256 ^ f.1) :
    split (fields.map Prod.fst) (record fields) = fields.map Prod.snd := by
  induction fields with
  | nil => exact Eq.refl _
  | cons f fields ih =>
    have hrest := ih fun f' hf' => h f' (List.mem_cons_of_mem f hf')
    have hfirst := value_bytes (h f List.mem_cons_self)
    unfold record at hrest ⊢
    rw [List.flatMap_cons, List.map_cons, List.map_cons]
    unfold split
    rw [List.take_left' (bytes_length _ _), List.drop_left' (bytes_length _ _), hfirst, hrest]

end LayerSkip.LittleEndian
