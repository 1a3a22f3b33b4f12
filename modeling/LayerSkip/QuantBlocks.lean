import Mathlib.Algebra.Order.Floor.Ring
import Mathlib.Algebra.Order.Field.Basic
import Mathlib.Algebra.Order.AbsoluteValue.Basic
import Mathlib.Data.Fin.Basic
import Mathlib.Data.List.OfFn
import Mathlib.Tactic.Linarith
import Mathlib.Tactic.FieldSimp
import Mathlib.Tactic.Ring
import Mathlib.Data.Rat.Floor

/-!
# Quantised blocks

A block of 32 values is kept as a scale and a small whole number for each value: eight bits each
in a Q80 block, four in a Q40 block, where two numbers share a byte. Arithmetic is exact and the
scale is kept as it is computed.
-/

namespace LayerSkip.QuantBlocks

variable {K : Type*} [Field K] [LinearOrder K]

section Numbers

variable [FloorRing K]

/-- `roundf`: halves away from zero. -/
def roundf (v : K) : ℤ := if 0 ≤ v then ⌊v + 1 / 2⌋ else ⌈v - 1 / 2⌉

/-- Conversion to a whole number drops the fraction. -/
def truncate (v : K) : ℤ := if 0 ≤ v then ⌊v⌋ else ⌈v⌉

end Numbers

/-- `d ? 1.0f / d : 0.0f`. -/
def inverseScale (d : K) : K := if d = 0 then 0 else 1 / d

/-- Values of a block. -/
abbrev Block (K : Type*) := Fin 32 → K

section Q80

/-- A block of eight bit numbers. -/
@[ext]
structure NnBlockQ80 (K : Type*) where
  /-- Scale. -/
  d : K
  /-- Numbers. -/
  qs : Fin 32 → Int8

/-- The largest absolute value. -/
def amaxOf (values : List K) : K :=
  values.foldl (fun amax v => if amax > |v| then amax else |v|) 0

/-- Scale of a block of eight bit numbers. -/
def scaleQ80 (x : Block K) : K := amaxOf (List.ofFn x) / (2 ^ 7 - 1)

variable [FloorRing K]

/-- The whole number that is stored for a value. -/
def codeQ80 (x : Block K) (j : Fin 32) : ℤ := roundf (x j * inverseScale (scaleQ80 x))

/-- A block as eight bit numbers. -/
def quantizeF32toQ80 (x : Block K) : NnBlockQ80 K where
  d := scaleQ80 x
  qs j := Int8.ofInt (codeQ80 x j)

/-- Values of a block of eight bit numbers. -/
def dequantizeQ80toF32 (block : NnBlockQ80 K) : Block K :=
  fun j => ((block.qs j).toInt : K) * block.d

end Q80

section Q40

/-- A block of four bit numbers, two in a byte. -/
@[ext]
structure NnBlockQ40 (K : Type*) where
  /-- Scale. -/
  d : K
  /-- Pairs of numbers. -/
  qs : Fin 16 → UInt8

/-- The largest absolute value and the first value that has it. -/
def extremeOf (values : List K) : K × K :=
  values.foldl (fun state v => if state.1 < |v| then (|v|, v) else state) (0, 0)

/-- Scale of a block of four bit numbers. -/
def scaleQ40 (x : Block K) : K := (extremeOf (List.ofFn x)).2 / -8

variable [FloorRing K]

/-- The whole number of a value, not yet in four bits. -/
def codeQ40 (x : Block K) (j : Fin 32) : ℤ :=
  truncate (x j * inverseScale (scaleQ40 x) + 17 / 2)

/-- A whole number as a byte, at most 15. -/
def clampQ40 (code : ℤ) : UInt8 :=
  let xi := (Int8.ofInt code).toUInt8
  if 15 < xi then 15 else xi

/-- A value of the first half of a block. -/
def firstHalf (j : Fin 16) : Fin 32 := ⟨j.val, by omega⟩

/-- A value of the second half of a block. -/
def secondHalf (j : Fin 16) : Fin 32 := ⟨16 + j.val, by omega⟩

/-- A block as four bit numbers. -/
def quantizeF32toQ40 (x : Block K) : NnBlockQ40 K where
  d := scaleQ40 x
  qs j := clampQ40 (codeQ40 x (firstHalf j)) ||| (clampQ40 (codeQ40 x (secondHalf j)) <<< 4)

/-- The number of a value in a block of four bit numbers. -/
def nibble (qs : Fin 16 → UInt8) (k : Fin 32) : UInt8 :=
  if h : k.val < 16 then qs ⟨k.val, h⟩ &&& 15 else qs ⟨k.val - 16, by omega⟩ >>> 4

/-- Values of a block of four bit numbers. -/
def dequantizeQ40toF32 (block : NnBlockQ40 K) : Block K :=
  fun k => (((nibble block.qs k).toNat : ℤ) - 8 : ℤ) * block.d

end Q40

/-- What a round trip through each format does to a block. -/
structure RoundTrips [FloorRing K] (x : Block K) : Prop where
  /-- A value moves by half the scale at most. -/
  errorQ80 : ∀ j, |dequantizeQ80toF32 (quantizeF32toQ80 x) j - x j| ≤ (quantizeF32toQ80 x).d / 2
  /-- A value moves by the scale at most. -/
  errorQ40 : ∀ j, |dequantizeQ40toF32 (quantizeF32toQ40 x) j - x j| ≤ |(quantizeF32toQ40 x).d|
  /-- Numbers fit eight bits and are stored as they are. -/
  codesQ80 : ∀ j, -128 ≤ codeQ80 x j ∧ codeQ80 x j ≤ 127 ∧
    ((quantizeF32toQ80 x).qs j).toInt = codeQ80 x j
  /-- Numbers fit eight bits, and four bits when they are stored. -/
  codesQ40 : ∀ j, 0 ≤ codeQ40 x j ∧ codeQ40 x j ≤ 127 ∧ clampQ40 (codeQ40 x j) ≤ 15 ∧
    nibble (quantizeF32toQ40 x).qs j = clampQ40 (codeQ40 x j)
  /-- The same numbers and scale come out again. -/
  againQ80 : quantizeF32toQ80 (dequantizeQ80toF32 (quantizeF32toQ80 x)) = quantizeF32toQ80 x
  /-- The same numbers and scale come out again. -/
  againQ40 : quantizeF32toQ40 (dequantizeQ40toF32 (quantizeF32toQ40 x)) = quantizeF32toQ40 x

section Rounding

variable [IsStrictOrderedRing K] [FloorRing K] {v : K}

theorem abs_roundf_sub_le (v : K) : |(roundf v : K) - v| ≤ 1 / 2 := by
  unfold roundf
  rw [abs_le]
  split
  · have hlow := Int.floor_le (v + 1 / 2)
    have hhigh := Int.lt_floor_add_one (v + 1 / 2)
    constructor <;> linarith
  · have hlow := Int.le_ceil (v - 1 / 2)
    have hhigh := Int.ceil_lt_add_one (v - 1 / 2)
    constructor <;> linarith

theorem roundf_intCast (n : ℤ) : roundf (n : K) = n := by
  have herror := abs_le.mp (abs_roundf_sub_le (n : K))
  have hlow : (-1 : K) < ((roundf (n : K) - n : ℤ) : K) := by
    push_cast
    linarith
  have hhigh : ((roundf (n : K) - n : ℤ) : K) < 1 := by
    push_cast
    linarith
  have hlow' : -1 < roundf (n : K) - n := by exact_mod_cast hlow
  have hhigh' : roundf (n : K) - n < 1 := by exact_mod_cast hhigh
  omega

/-- A number within a range of whole numbers is rounded within it. -/
theorem abs_roundf_le {n : ℤ} (h : |v| ≤ n) : -n ≤ roundf v ∧ roundf v ≤ n := by
  have herror := abs_le.mp (abs_roundf_sub_le v)
  have hrange := abs_le.mp h
  have hlow : ((-n - 1 : ℤ) : K) < roundf v := by
    push_cast
    linarith
  have hhigh : (roundf v : K) < ((n + 1 : ℤ) : K) := by
    push_cast
    linarith
  have hlow' : -n - 1 < roundf v := by exact_mod_cast hlow
  have hhigh' : roundf v < n + 1 := by exact_mod_cast hhigh
  omega

end Rounding

section Extremes

variable {values : List K} {v : K}

theorem foldl_amax (values : List K) (amax : K) :
    amax ≤ values.foldl (fun amax v => if amax > |v| then amax else |v|) amax ∧
      (∀ v ∈ values, |v| ≤ values.foldl (fun amax v => if amax > |v| then amax else |v|) amax) ∧
      (values.foldl (fun amax v => if amax > |v| then amax else |v|) amax = amax ∨ ∃ v ∈ values,
        values.foldl (fun amax v => if amax > |v| then amax else |v|) amax = |v|) := by
  induction values generalizing amax with
  | nil => simp
  | cons v values ih =>
    rw [List.foldl_cons]
    obtain ⟨hle, hall, hattained⟩ := ih (if amax > |v| then amax else |v|)
    have hstep : amax ≤ (if amax > |v| then amax else |v|) ∧
        |v| ≤ if amax > |v| then amax else |v| := by
      by_cases hmax : amax > |v|
      · rw [if_pos hmax]
        exact ⟨le_refl _, le_of_lt hmax⟩
      · rw [if_neg hmax]
        exact ⟨not_lt.mp hmax, le_refl _⟩
    refine ⟨hstep.1.trans hle, ?_, ?_⟩
    · intro w hw
      cases List.mem_cons.mp hw with
      | inl heq => exact heq ▸ hstep.2.trans hle
      | inr hrest => exact hall w hrest
    · cases hattained with
      | inl hsame =>
        rw [hsame]
        by_cases hmax : amax > |v|
        · exact .inl (if_pos hmax)
        · exact .inr ⟨v, List.mem_cons_self, if_neg hmax⟩
      | inr hfound =>
        obtain ⟨w, hw, heq⟩ := hfound
        exact .inr ⟨w, List.mem_cons_of_mem v hw, heq⟩

theorem amaxOf_nonneg (values : List K) : 0 ≤ amaxOf values := (foldl_amax values 0).1

theorem le_amaxOf (h : v ∈ values) : |v| ≤ amaxOf values := (foldl_amax values 0).2.1 v h

/-- The largest absolute value is one of a value, or there is nothing but zeros. -/
theorem amaxOf_attained (values : List K) :
    amaxOf values = 0 ∨ ∃ v ∈ values, amaxOf values = |v| := (foldl_amax values 0).2.2

/-- A bound that is attained is the largest absolute value. -/
theorem amaxOf_eq [IsStrictOrderedRing K] (hall : ∀ w ∈ values, |w| ≤ |v|) (hv : v ∈ values) :
    amaxOf values = |v| := by
  refine le_antisymm ?_ (le_amaxOf hv)
  cases amaxOf_attained values with
  | inl hzero =>
    rw [hzero]
    exact abs_nonneg v
  | inr hfound =>
    obtain ⟨w, hw, heq⟩ := hfound
    rw [heq]
    exact hall w hw

theorem foldl_extreme (values : List K) (state : K × K) (hstate : |state.2| = state.1) :
    ∃ max : K, values.foldl (fun state v => if state.1 < |v| then (|v|, v) else state) state =
        (|max|, max) ∧ |state.2| ≤ |max| ∧ (∀ v ∈ values, |v| ≤ |max|) ∧
      (max = state.2 ∨ max ∈ values) := by
  induction values generalizing state with
  | nil => exact ⟨state.2, by rw [hstate]; exact Eq.refl _, le_refl _, by simp, .inl (Eq.refl _)⟩
  | cons v values ih =>
    rw [List.foldl_cons]
    by_cases hmax : state.1 < |v|
    · rw [if_pos hmax]
      obtain ⟨max, hfold, hle, hall, hfound⟩ := ih (|v|, v) (Eq.refl _)
      refine ⟨max, hfold, ?_, ?_, ?_⟩
      · rw [hstate]
        exact (le_of_lt hmax).trans hle
      · intro w hw
        cases List.mem_cons.mp hw with
        | inl heq => exact heq ▸ hle
        | inr hrest => exact hall w hrest
      · cases hfound with
        | inl heq => exact .inr (List.mem_cons.mpr (.inl heq))
        | inr hmem => exact .inr (List.mem_cons_of_mem v hmem)
    · rw [if_neg hmax]
      obtain ⟨max, hfold, hle, hall, hfound⟩ := ih state hstate
      refine ⟨max, hfold, hle, ?_, ?_⟩
      · intro w hw
        cases List.mem_cons.mp hw with
        | inl heq =>
          rw [heq]
          exact (not_lt.mp hmax).trans (hstate ▸ hle)
        | inr hrest => exact hall w hrest
      · cases hfound with
        | inl heq => exact .inl heq
        | inr hmem => exact .inr (List.mem_cons_of_mem v hmem)

/-- No value is larger than the extreme one, which is a value or zero. -/
theorem extremeOf_spec [IsStrictOrderedRing K] (values : List K) :
    (∀ v ∈ values, |v| ≤ |(extremeOf values).2|) ∧
      ((extremeOf values).2 = 0 ∨ (extremeOf values).2 ∈ values) := by
  obtain ⟨max, hfold, _, hall, hfound⟩ := foldl_extreme values (0, 0) abs_zero
  have hextreme : (extremeOf values).2 = max := by
    rw [extremeOf, hfold]
  rw [hextreme]
  exact ⟨hall, hfound⟩

end Extremes

section EightBits

variable [IsStrictOrderedRing K] (x : Block K)

theorem scaleQ80_nonneg : 0 ≤ scaleQ80 x := by
  refine div_nonneg (amaxOf_nonneg _) ?_
  norm_num

theorem abs_le_scaleQ80 (j : Fin 32) : |x j| ≤ 127 * scaleQ80 x := by
  have hle : |x j| ≤ amaxOf (List.ofFn x) := le_amaxOf (List.mem_ofFn.mpr ⟨j, Eq.refl _⟩)
  unfold scaleQ80
  linarith

theorem eq_zero_of_scaleQ80 (h : scaleQ80 x = 0) (j : Fin 32) : x j = 0 := by
  have hle := abs_le_scaleQ80 x j
  rw [h, mul_zero] at hle
  exact abs_nonpos_iff.mp hle

/-- A value in units of the scale. -/
theorem abs_unitsQ80_le (j : Fin 32) : |x j * inverseScale (scaleQ80 x)| ≤ ((127 : ℤ) : K) := by
  unfold inverseScale
  by_cases hzero : scaleQ80 x = 0
  · rw [if_pos hzero, mul_zero, abs_zero]
    norm_num
  · have hpositive : 0 < scaleQ80 x := lt_of_le_of_ne (scaleQ80_nonneg x) (Ne.symm hzero)
    rw [if_neg hzero, mul_one_div, abs_div, abs_of_pos hpositive, div_le_iff₀ hpositive]
    push_cast
    exact abs_le_scaleQ80 x j

variable [FloorRing K]

theorem codeQ80_range (j : Fin 32) : -127 ≤ codeQ80 x j ∧ codeQ80 x j ≤ 127 :=
  abs_roundf_le (abs_unitsQ80_le x j)

theorem toInt_qs (j : Fin 32) : ((quantizeF32toQ80 x).qs j).toInt = codeQ80 x j := by
  have hrange := codeQ80_range x j
  exact Int8.toInt_ofInt_of_le (by omega) (by omega)

theorem dequantizeQ80_apply (j : Fin 32) :
    dequantizeQ80toF32 (quantizeF32toQ80 x) j = (codeQ80 x j : K) * scaleQ80 x := by
  rw [dequantizeQ80toF32, toInt_qs]
  exact Eq.refl _

theorem errorQ80_le (j : Fin 32) :
    |dequantizeQ80toF32 (quantizeF32toQ80 x) j - x j| ≤ scaleQ80 x / 2 := by
  rw [dequantizeQ80_apply]
  by_cases hzero : scaleQ80 x = 0
  · rw [hzero, eq_zero_of_scaleQ80 x hzero j]
    simp
  · have hpositive : 0 < scaleQ80 x := lt_of_le_of_ne (scaleQ80_nonneg x) (Ne.symm hzero)
    have herror := abs_roundf_sub_le (x j * inverseScale (scaleQ80 x))
    have hunits : x j = x j * inverseScale (scaleQ80 x) * scaleQ80 x := by
      rw [inverseScale, if_neg hzero, mul_assoc, one_div_mul_cancel hzero, mul_one]
    calc |(codeQ80 x j : K) * scaleQ80 x - x j|
        = |((codeQ80 x j : K) - x j * inverseScale (scaleQ80 x)) * scaleQ80 x| := by
          rw [sub_mul, ← hunits]
      _ = |(codeQ80 x j : K) - x j * inverseScale (scaleQ80 x)| * scaleQ80 x := by
          rw [abs_mul, abs_of_pos hpositive]
      _ ≤ 1 / 2 * scaleQ80 x := mul_le_mul_of_nonneg_right herror (le_of_lt hpositive)
      _ = scaleQ80 x / 2 := by ring

/-- The value that sets the scale has the largest number. -/
theorem exists_codeQ80 (hzero : scaleQ80 x ≠ 0) : ∃ j, |(codeQ80 x j : K)| = 127 := by
  have hpositive : 0 < scaleQ80 x := lt_of_le_of_ne (scaleQ80_nonneg x) (Ne.symm hzero)
  cases amaxOf_attained (List.ofFn x) with
  | inl hnone =>
    refine absurd ?_ hzero
    rw [scaleQ80, hnone, zero_div]
  | inr hfound =>
    obtain ⟨v, hv, hmax⟩ := hfound
    obtain ⟨j, hj⟩ := List.mem_ofFn.mp hv
    have hvalue : |x j| = 127 * scaleQ80 x := by
      rw [hj, ← hmax, scaleQ80]
      ring
    have hunits : |x j * inverseScale (scaleQ80 x)| = 127 := by
      rw [inverseScale, if_neg hzero, mul_one_div, abs_div, abs_of_pos hpositive, hvalue,
        mul_div_cancel_right₀ _ hzero]
    refine ⟨j, ?_⟩
    rw [codeQ80]
    cases eq_or_eq_neg_of_abs_eq hunits with
    | inl hplus =>
      have hround := roundf_intCast (K := K) 127
      push_cast at hround
      rw [hplus, hround]
      norm_num
    | inr hminus =>
      have hround := roundf_intCast (K := K) (-127)
      push_cast at hround
      rw [hminus, hround]
      norm_num

theorem scaleQ80_again : scaleQ80 (dequantizeQ80toF32 (quantizeF32toQ80 x)) = scaleQ80 x := by
  by_cases hzero : scaleQ80 x = 0
  · have hvalues : dequantizeQ80toF32 (quantizeF32toQ80 x) = x := by
      funext j
      rw [dequantizeQ80_apply, hzero, mul_zero, eq_zero_of_scaleQ80 x hzero j]
    rw [hvalues]
  · obtain ⟨j, hj⟩ := exists_codeQ80 x hzero
    have habs : ∀ i, |dequantizeQ80toF32 (quantizeF32toQ80 x) i| =
        |(codeQ80 x i : K)| * scaleQ80 x := by
      intro i
      rw [dequantizeQ80_apply, abs_mul, abs_of_nonneg (scaleQ80_nonneg x)]
    have hmax : amaxOf (List.ofFn (dequantizeQ80toF32 (quantizeF32toQ80 x))) =
        |dequantizeQ80toF32 (quantizeF32toQ80 x) j| := by
      refine amaxOf_eq ?_ (List.mem_ofFn.mpr ⟨j, Eq.refl _⟩)
      intro w hw
      obtain ⟨i, hi⟩ := List.mem_ofFn.mp hw
      rw [← hi, habs, habs, hj]
      refine mul_le_mul_of_nonneg_right ?_ (scaleQ80_nonneg x)
      have hrange := codeQ80_range x i
      rw [abs_le]
      constructor
      · exact_mod_cast hrange.1
      · exact_mod_cast hrange.2
    rw [scaleQ80, hmax, habs, hj]
    ring

theorem againQ80 :
    quantizeF32toQ80 (dequantizeQ80toF32 (quantizeF32toQ80 x)) = quantizeF32toQ80 x := by
  have hcode : ∀ j, codeQ80 (dequantizeQ80toF32 (quantizeF32toQ80 x)) j = codeQ80 x j := by
    intro j
    rw [codeQ80, scaleQ80_again, dequantizeQ80_apply, inverseScale]
    by_cases hzero : scaleQ80 x = 0
    · rw [if_pos hzero, mul_zero, codeQ80, inverseScale, if_pos hzero, mul_zero]
    · rw [if_neg hzero, mul_assoc, mul_one_div_cancel hzero, mul_one, roundf_intCast]
  ext j
  · exact scaleQ80_again x
  · exact congrArg Int8.ofInt (hcode j)

end EightBits

section FourBits

variable [IsStrictOrderedRing K] (x : Block K)

theorem abs_le_scaleQ40 (j : Fin 32) : |x j| ≤ 8 * |scaleQ40 x| := by
  have hle := (extremeOf_spec (List.ofFn x)).1 (x j) (List.mem_ofFn.mpr ⟨j, Eq.refl _⟩)
  have hscale : |scaleQ40 x| = |(extremeOf (List.ofFn x)).2| / 8 := by
    rw [scaleQ40, abs_div, abs_neg]
    norm_num
  rw [hscale]
  linarith

theorem eq_zero_of_scaleQ40 (h : scaleQ40 x = 0) (j : Fin 32) : x j = 0 := by
  have hle := abs_le_scaleQ40 x j
  rw [h, abs_zero, mul_zero] at hle
  exact abs_nonpos_iff.mp hle

theorem abs_unitsQ40_le (j : Fin 32) : |x j * inverseScale (scaleQ40 x)| ≤ 8 := by
  unfold inverseScale
  by_cases hzero : scaleQ40 x = 0
  · rw [if_pos hzero, mul_zero, abs_zero]
    norm_num
  · rw [if_neg hzero, mul_one_div, abs_div, div_le_iff₀ (abs_pos.mpr hzero)]
    exact abs_le_scaleQ40 x j

/-- The value that sets the scale, in units of it. -/
theorem exists_unitsQ40 (hzero : scaleQ40 x ≠ 0) : ∃ j, x j = -8 * scaleQ40 x := by
  have hextreme : (extremeOf (List.ofFn x)).2 = -8 * scaleQ40 x := by
    rw [scaleQ40]
    ring
  cases (extremeOf_spec (List.ofFn x)).2 with
  | inl hnone =>
    refine absurd ?_ hzero
    rw [scaleQ40, hnone, zero_div]
  | inr hmem =>
    obtain ⟨j, hj⟩ := List.mem_ofFn.mp hmem
    exact ⟨j, hj.trans hextreme⟩

variable [FloorRing K]

/-- Before the fraction is dropped a number is half a unit above zero at least. -/
theorem codeQ40_eq_floor (j : Fin 32) :
    codeQ40 x j = ⌊x j * inverseScale (scaleQ40 x) + 17 / 2⌋ := by
  have hunits := abs_le.mp (abs_unitsQ40_le x j)
  rw [codeQ40, truncate, if_pos]
  linarith

theorem codeQ40_range (j : Fin 32) : 0 ≤ codeQ40 x j ∧ codeQ40 x j ≤ 16 := by
  have hunits := abs_le.mp (abs_unitsQ40_le x j)
  rw [codeQ40_eq_floor]
  constructor
  · rw [Int.floor_nonneg]
    linarith
  · rw [← Int.lt_add_one_iff, Int.floor_lt]
    push_cast
    linarith

/-- A byte at most 15 from the numbers that occur. -/
theorem clampQ40_eq {code : ℤ} (hlow : 0 ≤ code) (hhigh : code ≤ 16) :
    (clampQ40 code).toNat = min 15 code := by
  have hall : ∀ n : Fin 17, ((clampQ40 (n.val : ℤ)).toNat : ℤ) = min 15 (n.val : ℤ) := by
    decide +kernel
  have hcode := hall ⟨code.toNat, by omega⟩
  simp only [Int.toNat_of_nonneg hlow] at hcode
  exact hcode

theorem clampQ40_le {code : ℤ} (hlow : 0 ≤ code) (hhigh : code ≤ 16) : clampQ40 code ≤ 15 := by
  have hcode := clampQ40_eq hlow hhigh
  rw [UInt8.le_iff_toNat_le]
  have hle : min 15 code ≤ 15 := min_le_left _ _
  have hfifteen : (15 : UInt8).toNat = 15 := by decide
  omega

/-- Two numbers in a byte come out of it again. -/
theorem pack_unpack {low high : UInt8} (hlow : low ≤ 15) (hhigh : high ≤ 15) :
    (low ||| (high <<< 4)) &&& 15 = low ∧ (low ||| (high <<< 4)) >>> 4 = high := by
  have hall : ∀ a b : Fin 16,
      (UInt8.ofNat a.val ||| (UInt8.ofNat b.val <<< 4)) &&& 15 = UInt8.ofNat a.val ∧
        (UInt8.ofNat a.val ||| (UInt8.ofNat b.val <<< 4)) >>> 4 = UInt8.ofNat b.val := by
    decide +kernel
  have hfifteen : (15 : UInt8).toNat = 15 := by decide
  rw [UInt8.le_iff_toNat_le, hfifteen] at hlow hhigh
  have hpair := hall ⟨low.toNat, by omega⟩ ⟨high.toNat, by omega⟩
  simp only [UInt8.ofNat_toNat] at hpair
  exact hpair

/-- Every number of a block is in its half of a byte. -/
theorem nibble_quantize (j : Fin 32) :
    nibble (quantizeF32toQ40 x).qs j = clampQ40 (codeQ40 x j) := by
  have hle : ∀ i, clampQ40 (codeQ40 x i) ≤ 15 := by
    intro i
    exact clampQ40_le (codeQ40_range x i).1 (codeQ40_range x i).2
  unfold nibble
  by_cases hfirst : j.val < 16
  · rw [dif_pos hfirst]
    exact (pack_unpack (hle (firstHalf ⟨j.val, hfirst⟩)) (hle (secondHalf ⟨j.val, hfirst⟩))).1
  · rw [dif_neg hfirst]
    have hplace : secondHalf ⟨j.val - 16, by omega⟩ = j := by
      apply Fin.ext
      simp only [secondHalf]
      omega
    have hpair := (pack_unpack (hle (firstHalf ⟨j.val - 16, by omega⟩))
      (hle (secondHalf ⟨j.val - 16, by omega⟩))).2
    rw [hplace] at hpair
    rw [← hpair, quantizeF32toQ40]
    simp only [hplace]

theorem dequantizeQ40_apply (j : Fin 32) :
    dequantizeQ40toF32 (quantizeF32toQ40 x) j =
      ((min 15 (codeQ40 x j) - 8 : ℤ) : K) * scaleQ40 x := by
  have hcode := clampQ40_eq (codeQ40_range x j).1 (codeQ40_range x j).2
  rw [dequantizeQ40toF32, nibble_quantize, hcode]
  exact Eq.refl _

/-- The number of a value is within one unit of it. -/
theorem abs_codeQ40_sub_le (j : Fin 32) :
    |((min 15 (codeQ40 x j) - 8 : ℤ) : K) - x j * inverseScale (scaleQ40 x)| ≤ 1 := by
  have hunits := abs_le.mp (abs_unitsQ40_le x j)
  have hlow := Int.floor_le (x j * inverseScale (scaleQ40 x) + 17 / 2)
  have hhigh := Int.lt_floor_add_one (x j * inverseScale (scaleQ40 x) + 17 / 2)
  rw [← codeQ40_eq_floor] at hlow hhigh
  rw [abs_le]
  rcases le_total 15 (codeQ40 x j) with hlarge | hsmall
  · have hlarge' : (15 : K) ≤ codeQ40 x j := by exact_mod_cast hlarge
    rw [min_eq_left hlarge]
    push_cast
    constructor <;> linarith
  · rw [min_eq_right hsmall]
    push_cast
    constructor <;> linarith

theorem errorQ40_le (j : Fin 32) :
    |dequantizeQ40toF32 (quantizeF32toQ40 x) j - x j| ≤ |scaleQ40 x| := by
  rw [dequantizeQ40_apply]
  by_cases hzero : scaleQ40 x = 0
  · rw [hzero, eq_zero_of_scaleQ40 x hzero j]
    simp
  · have hunits : x j = x j * inverseScale (scaleQ40 x) * scaleQ40 x := by
      rw [inverseScale, if_neg hzero, mul_assoc, one_div_mul_cancel hzero, mul_one]
    calc |((min 15 (codeQ40 x j) - 8 : ℤ) : K) * scaleQ40 x - x j|
        = |(((min 15 (codeQ40 x j) - 8 : ℤ) : K) - x j * inverseScale (scaleQ40 x)) *
            scaleQ40 x| := by
          rw [sub_mul, ← hunits]
      _ = |((min 15 (codeQ40 x j) - 8 : ℤ) : K) - x j * inverseScale (scaleQ40 x)| *
            |scaleQ40 x| := abs_mul _ _
      _ ≤ 1 * |scaleQ40 x| :=
          mul_le_mul_of_nonneg_right (abs_codeQ40_sub_le x j) (abs_nonneg _)
      _ = |scaleQ40 x| := one_mul _

/-- The value that sets the scale has number zero. -/
theorem exists_codeQ40 (hzero : scaleQ40 x ≠ 0) : ∃ j, codeQ40 x j = 0 := by
  obtain ⟨j, hj⟩ := exists_unitsQ40 x hzero
  refine ⟨j, ?_⟩
  have hunits : x j * inverseScale (scaleQ40 x) = -8 := by
    rw [hj, inverseScale, if_neg hzero, mul_assoc, mul_one_div_cancel hzero, mul_one]
  rw [codeQ40_eq_floor, hunits, Int.floor_eq_iff]
  constructor <;> norm_num

theorem scaleQ40_again : scaleQ40 (dequantizeQ40toF32 (quantizeF32toQ40 x)) = scaleQ40 x := by
  by_cases hzero : scaleQ40 x = 0
  · have hvalues : dequantizeQ40toF32 (quantizeF32toQ40 x) = x := by
      funext j
      rw [dequantizeQ40_apply, hzero, mul_zero, eq_zero_of_scaleQ40 x hzero j]
    rw [hvalues]
  · obtain ⟨j, hj⟩ := exists_codeQ40 x hzero
    have hspec := extremeOf_spec (List.ofFn (dequantizeQ40toF32 (quantizeF32toQ40 x)))
    have hlargest : dequantizeQ40toF32 (quantizeF32toQ40 x) j = -8 * scaleQ40 x := by
      rw [dequantizeQ40_apply, hj]
      norm_num
    have hat := hspec.1 _ (List.mem_ofFn.mpr ⟨j, Eq.refl _⟩)
    rw [hlargest] at hat
    have hextreme : (extremeOf (List.ofFn (dequantizeQ40toF32 (quantizeF32toQ40 x)))).2 =
        -8 * scaleQ40 x := by
      cases hspec.2 with
      | inl hnone =>
        rw [hnone, abs_zero] at hat
        have hbad := abs_nonpos_iff.mp hat
        refine absurd ?_ hzero
        linarith
      | inr hmem =>
        obtain ⟨i, hi⟩ := List.mem_ofFn.mp hmem
        rw [← hi, dequantizeQ40_apply] at hat ⊢
        rw [abs_mul, abs_mul] at hat
        have hcompare := le_of_mul_le_mul_right hat (abs_pos.mpr hzero)
        have hrange := codeQ40_range x i
        have hnumber : min 15 (codeQ40 x i) - 8 = -8 := by
          have height : |(-8 : K)| = ((8 : ℤ) : K) := by
            rw [abs_neg]
            norm_num
          have habs : (8 : ℤ) ≤ |min 15 (codeQ40 x i) - 8| := by
            rw [height, ← Int.cast_abs] at hcompare
            exact Int.cast_le.mp hcompare
          rcases le_abs.mp habs with h | h
          · omega
          · omega
        rw [hnumber]
        norm_num
    rw [scaleQ40, hextreme]
    ring

theorem againQ40 :
    quantizeF32toQ40 (dequantizeQ40toF32 (quantizeF32toQ40 x)) = quantizeF32toQ40 x := by
  have hcode : ∀ j, clampQ40 (codeQ40 (dequantizeQ40toF32 (quantizeF32toQ40 x)) j) =
      clampQ40 (codeQ40 x j) := by
    intro j
    by_cases hzero : scaleQ40 x = 0
    · have hvalues : dequantizeQ40toF32 (quantizeF32toQ40 x) = x := by
        funext i
        rw [dequantizeQ40_apply, hzero, mul_zero, eq_zero_of_scaleQ40 x hzero i]
      rw [hvalues]
    · have hagain : codeQ40 (dequantizeQ40toF32 (quantizeF32toQ40 x)) j = min 15 (codeQ40 x j) := by
        rw [codeQ40_eq_floor, scaleQ40_again, dequantizeQ40_apply, inverseScale, if_neg hzero,
          mul_assoc, mul_one_div_cancel hzero, mul_one, Int.floor_eq_iff]
        push_cast
        constructor <;> linarith
      have hrange := codeQ40_range x j
      have hfirst := clampQ40_eq hrange.1 hrange.2
      have hagainlow : 0 ≤ min 15 (codeQ40 x j) := by omega
      have hagainhigh : min 15 (codeQ40 x j) ≤ 16 := by omega
      have hsecond := clampQ40_eq hagainlow hagainhigh
      rw [hagain]
      apply UInt8.toNat_inj.mp
      omega
  ext j
  · exact scaleQ40_again x
  · simp only [quantizeF32toQ40] at hcode ⊢
    rw [hcode, hcode]

end FourBits

/-- Dequantised values are within half the scale of an eight bit block and within the scale of a
four bit block, numbers stay in range, and a second quantisation changes nothing. -/
theorem roundTrips [IsStrictOrderedRing K] [FloorRing K] (x : Block K) : RoundTrips x where
  errorQ80 := errorQ80_le x
  errorQ40 := errorQ40_le x
  codesQ80 j := by
    have hrange := codeQ80_range x j
    exact ⟨by omega, by omega, toInt_qs x j⟩
  codesQ40 j := by
    have hrange := codeQ40_range x j
    exact ⟨hrange.1, by omega, clampQ40_le hrange.1 hrange.2, nibble_quantize x j⟩
  againQ80 := againQ80 x
  againQ40 := againQ40 x

/-- A block of rational numbers. -/
theorem roundTrips_rat : RoundTrips fun j : Fin 32 => ((j.val : ℚ) - 20) / 3 := roundTrips _

end LayerSkip.QuantBlocks
