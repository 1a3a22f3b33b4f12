import LayerSkip.DataMoving
import LayerSkip.NnCore
import Mathlib.Data.List.Perm.Basic

/-!
# Cast without conversion

A cast between equal types copies bytes. The length of a row is the size of the whole buffer divided by its rows
in one plane, so that with several planes a row is copied with the rows behind it.
-/

namespace LayerSkip.CastRows

open NnPipeline NnCore DataMoving FusedArgmax

section Copies

/-- A part of a row that is copied. -/
structure Copy where
  /-- Where the row of the output begins. -/
  output : ℕ
  /-- Where the row of the input begins. -/
  input : ℕ
  /-- First byte of the part. -/
  start : ℕ
  /-- One past the last byte of the part. -/
  stop : ℕ

namespace Copy

/-- The bytes that are written. -/
def Covers (copy : Copy) (b : ℕ) : Prop := copy.output + copy.start ≤ b ∧ b < copy.output + copy.stop

instance (copy : Copy) (b : ℕ) : Decidable (copy.Covers b) := inferInstanceAs (Decidable (_ ∧ _))

/-- Copy the part. -/
def apply (input : ℕ → UInt8) (output : ℕ → UInt8) (copy : Copy) : ℕ → UInt8 :=
  fun b => if copy.Covers b then input (copy.input + (b - copy.output)) else output b

/-- Copy the parts in an order. -/
def applyAll (input : ℕ → UInt8) (output : ℕ → UInt8) (copies : List Copy) : ℕ → UInt8 :=
  copies.foldl (apply input) output

/-- What no part covers stays. -/
theorem applyAll_outside {input output : ℕ → UInt8} {copies : List Copy} {b : ℕ}
    (h : ∀ copy ∈ copies, ¬copy.Covers b) : applyAll input output copies b = output b := by
  induction copies generalizing output with
  | nil => rfl
  | cons first copies ih =>
    have hrest : applyAll input (apply input output first) copies b = apply input output first b :=
      ih fun copy hcopy => h copy (List.mem_cons_of_mem first hcopy)
    have hfirst : apply input output first b = output b := if_neg (h first List.mem_cons_self)
    rw [← hfirst]
    exact hrest

/-- What a part covers has the value on which all parts agree that cover it. -/
theorem applyAll_inside {input output : ℕ → UInt8} {copies : List Copy} {b : ℕ} {value : UInt8}
    (hcovers : ∃ copy ∈ copies, copy.Covers b)
    (hagree : ∀ copy ∈ copies, copy.Covers b → input (copy.input + (b - copy.output)) = value) :
    applyAll input output copies b = value := by
  induction copies generalizing output with
  | nil =>
    obtain ⟨copy, hcopy, _⟩ := hcovers
    cases hcopy
  | cons first copies ih =>
    by_cases hrest : ∃ copy ∈ copies, copy.Covers b
    · exact ih hrest fun copy hcopy => hagree copy (List.mem_cons_of_mem first hcopy)
    · have hfirst : first.Covers b := by
        obtain ⟨copy, hcopy, hcovered⟩ := hcovers
        cases List.mem_cons.mp hcopy with
        | inl heq => exact heq ▸ hcovered
        | inr hmem => exact absurd ⟨copy, hmem, hcovered⟩ hrest
      have hlast : applyAll input (apply input output first) copies b = apply input output first b :=
        applyAll_outside fun copy hcopy hcovered => hrest ⟨copy, hcopy, hcovered⟩
      have hvalue : apply input output first b = value :=
        (if_pos hfirst).trans (hagree first List.mem_cons_self hfirst)
      exact hlast.trans hvalue

end Copy

end Copies

section Cast

/-- Rows of a buffer at equal distances. -/
structure Rows where
  /-- From one row to the next. -/
  stride : ℕ
  /-- Where the first row begins. -/
  offset : ℕ

/-- Where a row begins. -/
def Rows.row (rows : Rows) (index : ℕ) : ℕ := index * rows.stride + rows.offset

/-- A cast from rows to rows of one shape and type. -/
structure CastShape where
  /-- Number format. -/
  floatType : NnFloatType
  /-- Planes. -/
  z : ℕ
  /-- Rows of a plane. -/
  y : ℕ
  /-- Values of a row. -/
  x : ℕ
  /-- Rows in use. -/
  batchSize : ℕ
  /-- There is a row. -/
  y_pos : 0 < y
  /-- The rows have pointers. -/
  rows_lt : z * y < uintRange
  /-- The number of values is a word. -/
  length_lt : z * y * x < uintRange
  /-- A row has whole blocks. -/
  whole : WholeBlocks floatType x
  /-- A plane has the rows in use. -/
  batchSize_le : batchSize ≤ y
  /-- Rows of the input. -/
  input : Rows
  /-- Rows of the output. -/
  output : Rows
  /-- They do not overlap. -/
  output_fits : output.offset + getBytes floatType x ≤ output.stride

namespace CastShape

variable (s : CastShape)

/-- Bytes of the output, as the shape counts them. -/
def nBytes : ℕ := (size3D s.floatType s.z s.y s.x).nBytes

/-- Bytes that are copied for a row. -/
def rowBytes : ℕ := s.nBytes / s.y % uintRange

/-- Bytes of a row. -/
def rowSize : ℕ := getBytes s.floatType s.x

/-- `copy_UNK`. -/
def copyUnk (output input size nThreads threadIndex : ℕ) : Copy :=
  let range := copyRange size nThreads threadIndex
  ⟨output, input, range.1, range.2⟩

/-- `castForward_ANY`. -/
def castForwardAny (nThreads threadIndex : ℕ) : List Copy :=
  (List.range s.z).flatMap fun z => (List.range s.batchSize).map fun y =>
    copyUnk (s.output.row (z * s.y + y)) (s.input.row (z * s.y + y)) s.rowBytes nThreads threadIndex

/-- What all threads copy. -/
def copies (nThreads : ℕ) : List Copy := (List.range nThreads).flatMap (s.castForwardAny nThreads)

/-- The place of a byte of a row in use. -/
def IsByte (b z y p : ℕ) : Prop :=
  z < s.z ∧ y < s.batchSize ∧ p < s.rowSize ∧ b = s.output.row (z * s.y + y) + p

/-- However the threads take turns, the rows in use are those of the input, and all other bytes stay. -/
structure CopiesBatch (nThreads : ℕ) : Prop where
  /-- Bytes of a row in use. -/
  inside : ∀ (input output : ℕ → UInt8) (order : List Copy), order.Perm (s.copies nThreads) →
    ∀ b z y p, s.IsByte b z y p →
      Copy.applyAll input output order b = input (s.input.row (z * s.y + y) + p)
  /-- Other bytes. -/
  outside : ∀ (input output : ℕ → UInt8) (order : List Copy), order.Perm (s.copies nThreads) →
    ∀ b, (¬∃ z y p, s.IsByte b z y p) → Copy.applyAll input output order b = output b

variable {s} {nThreads : ℕ}

theorem rowBytes_lt : s.rowBytes < uintRange := Nat.mod_lt _ (by decide)

/-- A part that is copied lies in a row in use. -/
theorem mem_copies {copy : Copy} {b : ℕ} (hpos : 0 < nThreads) (h : copy ∈ s.copies nThreads)
    (hcovers : copy.Covers b) :
    ∃ z < s.z, ∃ y < s.batchSize, ∃ p < s.rowBytes, b = copy.output + p ∧
      copy.output = s.output.row (z * s.y + y) ∧ copy.input = s.input.row (z * s.y + y) := by
  unfold copies castForwardAny at h
  obtain ⟨t, ht, hthread⟩ := List.mem_flatMap.mp h
  obtain ⟨z, hz, hplane⟩ := List.mem_flatMap.mp hthread
  obtain ⟨y, hy, heq⟩ := List.mem_map.mp hplane
  have htLt := List.mem_range.mp ht
  have hstop : shardStart s.rowBytes nThreads (t + 1) ≤ s.rowBytes := shardStart_le hpos htLt
  have hstart := hcovers.1
  have hend := hcovers.2
  rw [← heq] at hstart hend ⊢
  unfold copyUnk at hstart hend ⊢
  rw [copyRange_eq rowBytes_lt htLt] at hstart hend
  simp only at hstart hend ⊢
  refine ⟨z, List.mem_range.mp hz, y, List.mem_range.mp hy, b - s.output.row (z * s.y + y), ?_, ?_, Eq.refl _,
    Eq.refl _⟩
  · omega
  · omega

/-- Every byte that is copied for a row in use is in a part. -/
theorem exists_copy {z y p : ℕ} (hpos : 0 < nThreads) (hz : z < s.z) (hy : y < s.batchSize)
    (hp : p < s.rowBytes) :
    ∃ copy ∈ s.copies nThreads, copy.Covers (s.output.row (z * s.y + y) + p) := by
  obtain ⟨t, ht, hstart, hstop⟩ := exists_shard hpos hp
  refine ⟨copyUnk (s.output.row (z * s.y + y)) (s.input.row (z * s.y + y)) s.rowBytes nThreads t, ?_, ?_⟩
  · refine List.mem_flatMap.mpr ⟨t, List.mem_range.mpr ht, ?_⟩
    refine List.mem_flatMap.mpr ⟨z, List.mem_range.mpr hz, ?_⟩
    exact List.mem_map.mpr ⟨y, List.mem_range.mpr hy, Eq.refl _⟩
  · unfold copyUnk Copy.Covers
    rw [copyRange_eq rowBytes_lt ht]
    simp only
    omega

/-- Rows in use that share a byte are one row. -/
theorem row_unique {r r' p p' : ℕ} (hp : p < s.rowSize) (hp' : p' < s.rowSize)
    (h : s.output.row r + p = s.output.row r' + p') : r = r' ∧ p = p' := by
  have hfits : s.output.offset + s.rowSize ≤ s.output.stride := s.output_fits
  unfold Rows.row at h
  have hrow : r = r' := by
    cases Nat.lt_trichotomy r r' with
    | inl hlt =>
      have hnext := Nat.mul_le_mul_right s.output.stride (Nat.succ_le_of_lt hlt)
      rw [Nat.succ_mul] at hnext
      omega
    | inr hrest =>
      cases hrest with
      | inl heq => exact heq
      | inr hgt =>
        have hnext := Nat.mul_le_mul_right s.output.stride (Nat.succ_le_of_lt hgt)
        rw [Nat.succ_mul] at hnext
        omega
  rw [hrow] at h
  exact ⟨hrow, by omega⟩

/-- Where as many bytes are copied for a row as it has, the batch is copied. -/
theorem copiesBatch_of_rowBytes (hpos : 0 < nThreads) (h : s.rowBytes = s.rowSize) :
    s.CopiesBatch nThreads where
  inside input output order horder b z y p hbyte := by
    obtain ⟨hz, hy, hp, hb⟩ := hbyte
    refine Copy.applyAll_inside ?_ ?_
    · obtain ⟨copy, hcopy, hcovers⟩ := exists_copy hpos hz hy (h.symm ▸ hp)
      rw [← hb] at hcovers
      exact ⟨copy, horder.mem_iff.mpr hcopy, hcovers⟩
    · intro copy hcopy hcovers
      obtain ⟨z', hz', y', hy', p', hp', hb', houtput, hinput⟩ :=
        mem_copies hpos (horder.mem_iff.mp hcopy) hcovers
      have hsame : s.output.row (z' * s.y + y') + p' = s.output.row (z * s.y + y) + p := by
        rw [← houtput, ← hb', hb]
      obtain ⟨hrow, hplace⟩ := row_unique (h ▸ hp') hp hsame
      rw [hb', hinput, hrow, hplace, Nat.add_sub_cancel_left]
  outside input output order horder b hnone := by
    refine Copy.applyAll_outside fun copy hcopy hcovers => ?_
    obtain ⟨z, hz, y, hy, p, hp, hb, houtput, hinput⟩ := mem_copies hpos (horder.mem_iff.mp hcopy) hcovers
    rw [houtput] at hb
    exact hnone ⟨z, y, p, hz, hy, h ▸ hp, hb⟩

/-- Without a row in use nothing is copied. -/
theorem copiesBatch_of_empty (hpos : 0 < nThreads) (h : s.z = 0 ∨ s.batchSize = 0) :
    s.CopiesBatch nThreads where
  inside input output order horder b z y p hbyte := by
    have hz := hbyte.1
    have hy := hbyte.2.1
    omega
  outside input output order horder b hnone := by
    refine Copy.applyAll_outside fun copy hcopy hcovers => ?_
    obtain ⟨z, hz, y, hy, hrest⟩ := mem_copies hpos (horder.mem_iff.mp hcopy) hcovers
    omega

/-- Where the batch is copied, as many bytes are copied for a row as it has. -/
theorem rowBytes_of_copiesBatch (hpos : 0 < nThreads) (hz : 0 < s.z) (hbatch : 0 < s.batchSize)
    (h : s.CopiesBatch nThreads) : s.rowBytes = s.rowSize := by
  have hfits : s.output.offset + s.rowSize ≤ s.output.stride := s.output_fits
  cases Nat.lt_trichotomy s.rowBytes s.rowSize with
  | inl hless =>
    have hbyte : s.IsByte (s.output.row (0 * s.y + 0) + s.rowBytes) 0 0 s.rowBytes :=
      ⟨hz, hbatch, hless, Eq.refl _⟩
    have hcopied := h.inside (fun _ => 1) (fun _ => 0) (s.copies nThreads) (List.Perm.refl _) _ _ _ _ hbyte
    have hkept : Copy.applyAll (fun _ => 1) (fun _ => 0) (s.copies nThreads)
        (s.output.row (0 * s.y + 0) + s.rowBytes) = 0 := by
      refine Copy.applyAll_outside fun copy hcopy hcovers => ?_
      obtain ⟨z', hz', y', hy', p', hp', hb', houtput, _⟩ := mem_copies hpos hcopy hcovers
      rw [houtput] at hb'
      have hsame := row_unique hless (Nat.lt_trans hp' hless) hb'
      omega
    rw [hkept] at hcopied
    cases hcopied
  | inr hrest =>
    cases hrest with
    | inl heq => exact heq
    | inr hmore =>
      -- The byte behind the last row in use.
      have hnone : ¬∃ z y p, s.IsByte
          (s.output.row ((s.z - 1) * s.y + (s.batchSize - 1)) + s.rowSize) z y p := by
        intro hsome
        obtain ⟨z, y, p, hzLt, hy, hp, hb⟩ := hsome
        have hplane : z * s.y ≤ (s.z - 1) * s.y := Nat.mul_le_mul_right _ (by omega)
        have hrow : (z * s.y + y) * s.output.stride ≤
            ((s.z - 1) * s.y + (s.batchSize - 1)) * s.output.stride := Nat.mul_le_mul_right _ (by omega)
        unfold Rows.row at hb
        omega
      have hkept := h.outside (fun _ => 1) (fun _ => 0) (s.copies nThreads) (List.Perm.refl _) _ hnone
      obtain ⟨copy, hcopy, hcovers⟩ := exists_copy (z := s.z - 1) (y := s.batchSize - 1) hpos (by omega)
        (by omega) hmore
      have hcopied : Copy.applyAll (fun _ => 1) (fun _ => 0) (s.copies nThreads)
          (s.output.row ((s.z - 1) * s.y + (s.batchSize - 1)) + s.rowSize) = 1 :=
        Copy.applyAll_inside ⟨copy, hcopy, hcovers⟩ fun _ _ _ => Eq.refl _
      rw [hkept] at hcopied
      cases hcopied

/-- Rows of whole blocks have their bytes each. -/
theorem getBytes_rows {floatType : NnFloatType} {x : ℕ} (rows : ℕ) (h : WholeBlocks floatType x) :
    getBytes floatType (rows * x) = rows * getBytes floatType x := by
  have hblocks (blockBytes : ℕ) (hx : x % q80BlockSize = 0) :
      rows * x / q80BlockSize * blockBytes = rows * (x / q80BlockSize * blockBytes) := by
    rw [Nat.mul_div_assoc rows (Nat.dvd_of_mod_eq_zero hx), Nat.mul_assoc]
  cases floatType with
  | f32 => exact Nat.mul_left_comm 4 rows x
  | f16 => exact Nat.mul_left_comm 2 rows x
  | q40 => exact hblocks 18 h
  | q80 => exact hblocks 34 h

/-- As many bytes are copied for a row as its planes have for theirs. -/
theorem rowBytes_eq : s.rowBytes = s.z * s.rowSize % uintRange := by
  have hlength : s.z * s.y * s.x % 2 ^ 32 = s.z * s.y * s.x := Nat.mod_eq_of_lt s.length_lt
  have hbytes : s.nBytes = s.y * (s.z * s.rowSize) := by
    unfold nBytes size3D rowSize
    simp only
    rw [hlength, getBytes_rows _ s.whole, Nat.mul_comm s.z s.y, Nat.mul_assoc]
  unfold rowBytes
  rw [hbytes, Nat.mul_div_cancel_left _ s.y_pos]

/-- The bytes are those of one row exactly where the other planes vanish among the words. -/
theorem rowBytes_eq_iff (hz : 0 < s.z) :
    s.rowBytes = s.rowSize ↔ s.rowSize < uintRange ∧ (s.z - 1) * s.rowSize % uintRange = 0 := by
  have hsplit : s.z * s.rowSize = (s.z - 1) * s.rowSize + s.rowSize := by
    rw [← Nat.succ_mul]
    congr 1
    omega
  have hmod := Nat.mod_lt ((s.z - 1) * s.rowSize) (by decide : 0 < uintRange)
  rw [rowBytes_eq, hsplit]
  unfold uintRange at hmod ⊢
  omega

/-- The batch is copied exactly where no row is in use, or a row is shorter than a word can tell and the other
planes vanish among the words: with fewer bytes than that, where there is one plane or the rows are empty. -/
theorem copiesBatch_iff (hpos : 0 < nThreads) :
    s.CopiesBatch nThreads ↔ s.z = 0 ∨ s.batchSize = 0 ∨
      s.rowSize < uintRange ∧ (s.z - 1) * s.rowSize % uintRange = 0 := by
  by_cases hempty : s.z = 0 ∨ s.batchSize = 0
  · have hright := hempty.imp_right (Or.inl (b := s.rowSize < uintRange ∧
      (s.z - 1) * s.rowSize % uintRange = 0))
    exact iff_of_true (copiesBatch_of_empty hpos hempty) hright
  · have hz : 0 < s.z := by omega
    have hbatch : 0 < s.batchSize := by omega
    constructor
    · intro hcopies
      exact Or.inr (Or.inr ((rowBytes_eq_iff hz).mp (rowBytes_of_copiesBatch hpos hz hbatch hcopies)))
    · intro hcondition
      have hrow : s.rowSize < uintRange ∧ (s.z - 1) * s.rowSize % uintRange = 0 := by omega
      exact copiesBatch_of_rowBytes hpos ((rowBytes_eq_iff hz).mpr hrow)

/-- Two planes of one row of one float, side by side. -/
def twoPlanes : CastShape where
  floatType := .f32
  z := 2
  y := 1
  x := 1
  batchSize := 1
  y_pos := by decide
  rows_lt := by decide
  length_lt := by decide
  whole := by decide
  batchSize_le := Nat.one_pos
  input := ⟨4, 0⟩
  output := ⟨4, 0⟩
  output_fits := by decide

theorem copiesBatch_iff_twoPlanes :
    twoPlanes.CopiesBatch 3 ↔ twoPlanes.z = 0 ∨ twoPlanes.batchSize = 0 ∨
      twoPlanes.rowSize < uintRange ∧ (twoPlanes.z - 1) * twoPlanes.rowSize % uintRange = 0 :=
  copiesBatch_iff (by decide)

/-- Eight bytes are copied for a row of four. -/
theorem not_copiesBatch_twoPlanes : ¬twoPlanes.CopiesBatch 1 := by
  intro h
  have hrow := rowBytes_of_copiesBatch (by decide) (by decide) (by decide) h
  revert hrow
  decide

end CastShape

end Cast

end LayerSkip.CastRows
