import LayerSkip.DeltaNorm
import LayerSkip.FloatFormat
import Mathlib.Data.Nat.Bitwise

/-!
# Conversion of floats to half floats

The conversion works on the pattern of a float. It rounds the mantissa to the spacing that half
floats have in its place, to the even one of two, and a carry goes on into the exponent. Numbers
that are rounded to more than the largest half float are not converted, an assertion excludes them.
Half floats are converted to floats by a product with a power of two, which is exact.
-/

namespace LayerSkip.HalfConversion

open NnTopology FloatFormat DeltaNorm

/-- A half float, as its pattern. -/
abbrev NnFp16 := UInt16

/-- The half float of a float. Of the int that holds the pattern only bits are taken, so its sign
does not matter, and no other int leaves its range. -/
def convertF32ToF16Impl (x : NnUint) : Except String NnFp16 :=
  let i := x.toNat
  let s := (i >>> 16) &&& 0x8000
  let e : ℤ := ((i >>> 23) &&& 0xff : ℕ) - (127 - 15)
  let m := i &&& 0x7fffff
  if e ≤ 0 then
    if e < -10 then .ok (.ofNat s)
    else
      let m := m ||| 0x800000
      let t := (14 - e).toNat
      let a := (1 <<< (t - 1)) - 1
      let b := (m >>> t) &&& 1
      let m := (m + a + b) >>> t
      .ok (.ofNat (s ||| m))
  else if e = 0xff - (127 - 15) then
    if m = 0 then .ok (.ofNat (s ||| 0x7c00))
    else
      let m := m >>> 13
      .ok (.ofNat (s ||| 0x7c00 ||| m ||| if m = 0 then 1 else 0))
  else
    let m := m + 0xfff + ((m >>> 13) &&& 1)
    let carry := (m &&& 0x800000) ≠ 0
    let e := if carry then e + 1 else e
    let m := if carry then 0 else m
    if e ≤ 30 then .ok (.ofNat (s ||| (e.toNat <<< 10) ||| (m >>> 13))) else .error "e <= 30"

/-- Pattern of an infinite float. -/
def infinityF32 : ℕ := 255 <<< 23

/-- Pattern of an infinite half float. -/
def infinityF16 : ℕ := 0x7c00

/-- The product of two finite floats without sign, rounded to the nearest one, the even one of
two. -/
def mulF32 (a b : ℕ) : ℕ :=
  min (roundPattern 23 (magnitude 23 a * magnitude 23 b) 149) infinityF32

/-- The float of a half float. -/
def convertF16toF32Impl (value : NnFp16) : NnUint :=
  let magic := (254 - 15) <<< 23
  let infNan := (127 + 16) <<< 23
  let u := (value.toNat &&& 0x7fff) <<< 13
  let product := mulF32 u magic
  let u := if magnitude 23 infNan ≤ magnitude 23 product then product ||| (255 <<< 23) else product
  .ofNat (u ||| ((value.toNat &&& 0x8000) <<< 16))

/-- The float stands for a number. -/
def FiniteF32 (x : NnUint) : Prop := x.toNat % 2 ^ 31 < infinityF32

/-- The half float stands for a number. -/
def FiniteF16 (h : NnFp16) : Prop := h.toNat % 2 ^ 15 < infinityF16

instance (x : NnUint) : Decidable (FiniteF32 x) := inferInstanceAs (Decidable (_ < _))

instance (h : NnFp16) : Decidable (FiniteF16 h) := inferInstanceAs (Decidable (_ < _))

/-- The number of a half float without sign. Patterns from that of infinity on stand for the
numbers that half floats would have with more exponents. -/
def halfValue (k : ℕ) : ℚ := magnitude 10 k / 2 ^ 24

section Fields

/-- The number of a pattern without sign. -/
theorem ieeeValue_eq (exponentBits mantissaBits bits : ℕ) :
    ieeeValue exponentBits mantissaBits bits =
      (if bits / 2 ^ (exponentBits + mantissaBits) % 2 = 1 then -1 else 1) *
        magnitude mantissaBits (bits % 2 ^ (exponentBits + mantissaBits)) /
          2 ^ (2 ^ (exponentBits - 1) + mantissaBits - 2) := by
  have hexponent : bits % 2 ^ (exponentBits + mantissaBits) / 2 ^ mantissaBits =
      bits / 2 ^ mantissaBits % 2 ^ exponentBits := by
    rw [Nat.add_comm, Nat.pow_add, Nat.mod_mul_right_div_self]
  have hmantissa : bits % 2 ^ (exponentBits + mantissaBits) % 2 ^ mantissaBits =
      bits % 2 ^ mantissaBits :=
    Nat.mod_mod_of_dvd _ (Nat.pow_dvd_pow 2 (Nat.le_add_left _ _))
  have hparts := Nat.div_add_mod (bits % 2 ^ (exponentBits + mantissaBits)) (2 ^ mantissaBits)
  rw [hexponent, hmantissa] at hparts
  rw [ieeeValue, magnitude, hexponent, hmantissa]
  by_cases hfirst : bits / 2 ^ mantissaBits % 2 ^ exponentBits = 0
  · rw [hfirst, Nat.mul_zero, Nat.zero_add] at hparts
    simp [hfirst, hparts]
  · simp [hfirst]

/-- The sign of a number. -/
def signValue (bit : ℕ) : ℚ := if bit % 2 = 1 then -1 else 1

theorem abs_signValue (bit : ℕ) : |signValue bit| = 1 := by
  rw [signValue]
  by_cases hbit : bit % 2 = 1
  · rw [if_pos hbit, abs_neg, abs_one]
  · rw [if_neg hbit, abs_one]

/-- A half float is its number with its sign. -/
theorem f16Value_eq (h : NnFp16) :
    f16Value h.toNat = signValue (h.toNat / 2 ^ 15) * halfValue (h.toNat % 2 ^ 15) := by
  rw [f16Value, ieeeValue_eq, mul_div_assoc]
  exact Eq.refl _

/-- A float is its number with its sign. -/
theorem f32Value_eq (x : NnUint) : f32Value x =
    signValue (x.toNat / 2 ^ 31) * ((magnitude 23 (x.toNat % 2 ^ 31) : ℚ) / 2 ^ 149) := by
  rw [f32Value, ieeeValue_eq, mul_div_assoc]
  exact Eq.refl _

theorem abs_f32Value (x : NnUint) :
    |f32Value x| = (magnitude 23 (x.toNat % 2 ^ 31) : ℚ) / 2 ^ 149 := by
  have hnonneg : (0 : ℚ) ≤ magnitude 23 (x.toNat % 2 ^ 31) / 2 ^ 149 :=
    div_nonneg (Nat.cast_nonneg _) (by norm_num)
  rw [f32Value_eq, abs_mul, abs_signValue, one_mul]
  exact abs_of_nonneg hnonneg

theorem sign_eq {i : ℕ} (hi : i < 2 ^ 32) : (i >>> 16) &&& 0x8000 = i / 2 ^ 31 * 2 ^ 15 := by
  have hmask : (0x8000 : ℕ) = 2 ^ 15 := by norm_num
  have hbit : i / 2 ^ 31 < 2 := by omega
  rw [hmask, Nat.and_two_pow, Nat.testBit_shiftRight, Nat.testBit_eq_decide_div_mod_eq]
  have hplace : 16 + 15 = 31 := by norm_num
  rw [hplace, Nat.mod_eq_of_lt hbit]
  generalize i / 2 ^ 31 = bit at hbit
  by_cases hone : bit = 1
  · simp [hone]
  · have hzero : bit = 0 := by omega
    simp [hzero]

theorem exponent_eq (i : ℕ) : (i >>> 23) &&& 0xff = i / 2 ^ 23 % 2 ^ 8 := by
  rw [Nat.shiftRight_eq_div_pow]
  exact Nat.and_two_pow_sub_one_eq_mod _ 8

theorem mantissa_eq (i : ℕ) : i &&& 0x7fffff = i % 2 ^ 23 :=
  Nat.and_two_pow_sub_one_eq_mod _ 23

theorem hidden_eq {m : ℕ} (hm : m < 2 ^ 23) : m ||| 0x800000 = 2 ^ 23 + m := by
  have hor := Nat.two_pow_add_eq_or_of_lt hm 1
  rw [Nat.mul_one] at hor
  rw [hor, Nat.or_comm]

theorem round_eq {m t : ℕ} (ht : 0 < t) :
    (m + ((1 <<< (t - 1)) - 1) + ((m >>> t) &&& 1)) >>> t = roundShift m t := by
  rw [roundShift, if_neg (Nat.ne_of_gt ht), Nat.shiftRight_eq_div_pow, Nat.shiftRight_eq_div_pow,
    Nat.and_one_is_mod, Nat.one_shiftLeft]

theorem carry_iff {m : ℕ} (hm : m < 2 ^ 24) : (m &&& 0x800000) ≠ 0 ↔ 2 ^ 23 ≤ m := by
  have hmask : (0x800000 : ℕ) = 2 ^ 23 := by norm_num
  have hbit : m / 2 ^ 23 < 2 := by omega
  have hplace : 2 ^ 23 ≤ m ↔ m / 2 ^ 23 = 1 := by omega
  rw [hmask, Nat.and_two_pow, Nat.testBit_eq_decide_div_mod_eq, Nat.mod_eq_of_lt hbit, hplace]
  generalize m / 2 ^ 23 = bit
  by_cases hone : bit = 1
  · simp [hone]
  · simp [hone]

end Fields

section Rounding

/-- The number of a float in units of the half floats. -/
def HalfNearest (p k : ℕ) : Prop :=
  NearestEven (fun k => (magnitude 10 k : ℚ)) (magnitude 23 p / 2 ^ 125) k

theorem magnitude_normal {p : ℕ} (h : p / 2 ^ 23 ≠ 0) :
    magnitude 23 p = (2 ^ 23 + p % 2 ^ 23) * 2 ^ (p / 2 ^ 23 - 1) :=
  if_neg h

/-- A float in the place of the least half floats. -/
theorem halfNearest_subnormal {p t : ℕ} (hp : p / 2 ^ 23 ≠ 0) (ht : p / 2 ^ 23 + t = 126)
    (hmin : 14 ≤ t) : HalfNearest p (roundShift (2 ^ 23 + p % 2 ^ 23) t) := by
  have hmantissa : p % 2 ^ 23 < 2 ^ 23 := Nat.mod_lt _ (by norm_num)
  have hpow : 2 ^ 14 ≤ 2 ^ t := Nat.pow_le_pow_right (by decide) hmin
  have hround := nearestEven_block 10 (by norm_num) (c := 0) (q := 2 ^ 23 + p % 2 ^ 23) (t := t)
    (.inl (Eq.refl 0)) (by omega)
  have hscale : (magnitude 23 p : ℚ) / 2 ^ 125 =
      2 ^ 0 * ((2 ^ 23 + p % 2 ^ 23 : ℕ) / 2 ^ t) := by
    have hexp : (2 : ℚ) ^ 125 = 2 ^ t * 2 ^ (p / 2 ^ 23 - 1) := by
      rw [← pow_add]
      congr 1
      omega
    rw [magnitude_normal hp, hexp, Nat.cast_mul, Nat.cast_pow, Nat.cast_ofNat, pow_zero, one_mul]
    field_simp
  rw [Nat.zero_mul, Nat.zero_add] at hround
  rw [HalfNearest, hscale]
  exact hround

/-- A float in the place of the other half floats. -/
theorem halfNearest_normal {p e : ℕ} (he : p / 2 ^ 23 = e + 113) :
    HalfNearest p (e * 2 ^ 10 + roundShift (2 ^ 23 + p % 2 ^ 23) 13) := by
  have hmantissa : p % 2 ^ 23 < 2 ^ 23 := Nat.mod_lt _ (by norm_num)
  have hround := nearestEven_block 10 (by norm_num) (c := e) (q := 2 ^ 23 + p % 2 ^ 23) (t := 13)
    (.inr (by omega)) (by omega)
  have hscale : (magnitude 23 p : ℚ) / 2 ^ 125 =
      2 ^ e * ((2 ^ 23 + p % 2 ^ 23 : ℕ) / 2 ^ 13) := by
    have hexp : (2 : ℚ) ^ (e + 112) = 2 ^ e * 2 ^ 112 := pow_add 2 e 112
    have hlast : e + 113 - 1 = e + 112 := by omega
    have hplace : (2 : ℚ) ^ 125 = 2 ^ 13 * 2 ^ 112 := by norm_num
    rw [magnitude_normal (by omega), he, hlast, hplace, Nat.cast_mul, Nat.cast_pow, Nat.cast_ofNat,
      hexp]
    field_simp
  rw [HalfNearest, hscale]
  exact hround

/-- A float far below the least half float. -/
theorem halfNearest_tiny {p : ℕ} (h : p / 2 ^ 23 < 102) : HalfNearest p 0 := by
  by_cases hzero : p / 2 ^ 23 = 0
  · have hmagnitude : magnitude 23 p = p := if_pos hzero
    have hsmall : p < 2 ^ 124 := by
      have hmantissa : p < 2 ^ 23 := by omega
      exact Nat.lt_trans hmantissa (by norm_num)
    have hround := nearestEven_block 10 (by norm_num) (c := 0) (t := 125) (.inl (Eq.refl 0))
      (Nat.le_trans (Nat.le_of_lt hsmall) (by norm_num))
    rw [roundShift_eq_zero hsmall, pow_zero, one_mul, Nat.zero_mul] at hround
    rw [HalfNearest, hmagnitude]
    exact hround
  · obtain ⟨t, ht⟩ : ∃ t, p / 2 ^ 23 + (t + 1) = 126 := ⟨125 - p / 2 ^ 23, by omega⟩
    have hmantissa : p % 2 ^ 23 < 2 ^ 23 := Nat.mod_lt _ (by norm_num)
    have hpow : 2 ^ 24 ≤ 2 ^ t := Nat.pow_le_pow_right (by decide) (by omega)
    have hround := halfNearest_subnormal hzero ht (by omega)
    rw [roundShift_eq_zero (by omega)] at hround
    exact hround

/-- A sign before a pattern. -/
theorem sign_or {bit k : ℕ} (hk : k < 2 ^ 15) : bit * 2 ^ 15 ||| k = bit * 2 ^ 15 + k := by
  rw [Nat.mul_comm]
  exact (Nat.two_pow_add_eq_or_of_lt hk bit).symm

/-- Sign, exponent and mantissa of a half float. -/
theorem pack_eq (bit : ℕ) {e m : ℕ} (hm : m < 2 ^ 10) (h : e * 2 ^ 10 + m < 2 ^ 15) :
    bit * 2 ^ 15 ||| (e <<< 10) ||| m = bit * 2 ^ 15 + (e * 2 ^ 10 + m) := by
  have hlow : e <<< 10 ||| m = e * 2 ^ 10 + m := by
    rw [Nat.shiftLeft_eq, Nat.mul_comm]
    exact (Nat.two_pow_add_eq_or_of_lt hm e).symm
  rw [Nat.or_assoc, hlow, sign_or h]

/-- The end of the conversion: a carry of the mantissa goes on into the exponent, and the exponent
is checked. -/
theorem carry_eq {bit e r : ℕ} (hr : r < 2 ^ 23 + 2 ^ 13) :
    (if (if (r &&& 0x800000) ≠ 0 then ((e + 1 : ℕ) : ℤ) + 1 else (e + 1 : ℕ)) ≤ 30 then
      (.ok (UInt16.ofNat (bit * 2 ^ 15 |||
        ((if (r &&& 0x800000) ≠ 0 then ((e + 1 : ℕ) : ℤ) + 1 else (e + 1 : ℕ)).toNat <<< 10) |||
          ((if (r &&& 0x800000) ≠ 0 then 0 else r) >>> 13))) : Except String NnFp16)
    else .error "e <= 30") =
      if e * 2 ^ 10 + (2 ^ 10 + r / 2 ^ 13) < infinityF16 then
        .ok (.ofNat (bit * 2 ^ 15 + (e * 2 ^ 10 + (2 ^ 10 + r / 2 ^ 13))))
      else .error "e <= 30" := by
  have hinfinity : infinityF16 = 31 * 2 ^ 10 := Eq.refl _
  rw [hinfinity]
  by_cases hcarry : 2 ^ 23 ≤ r
  · have hmask := (carry_iff (by omega : r < 2 ^ 24)).mpr hcarry
    have hmantissa : r / 2 ^ 13 = 2 ^ 10 := by omega
    rw [if_pos hmask, if_pos hmask, hmantissa]
    by_cases hfits : e + 2 ≤ 30
    · have hpack := pack_eq bit (e := e + 2) (by norm_num : 0 < 2 ^ 10) (by omega)
      have hexponent : (((e + 1 : ℕ) : ℤ) + 1).toNat = e + 2 := by omega
      have hsum : (e + 2) * 2 ^ 10 + 0 = e * 2 ^ 10 + (2 ^ 10 + 2 ^ 10) := by omega
      rw [if_pos (by omega), if_pos (by omega), hexponent, Nat.zero_shiftRight, hpack, hsum]
    · rw [if_neg (by omega), if_neg (by omega)]
  · have hmask : ¬(r &&& 0x800000) ≠ 0 := fun h => hcarry ((carry_iff (by omega)).mp h)
    have hmantissa : r / 2 ^ 13 < 2 ^ 10 := by omega
    rw [if_neg hmask, if_neg hmask, Nat.shiftRight_eq_div_pow]
    by_cases hfits : e + 1 ≤ 30
    · have hpack := pack_eq bit (e := e + 1) hmantissa (by omega)
      have hexponent : ((e + 1 : ℕ) : ℤ).toNat = e + 1 := Int.toNat_natCast _
      have hsum : (e + 1) * 2 ^ 10 + r / 2 ^ 13 = e * 2 ^ 10 + (2 ^ 10 + r / 2 ^ 13) := by omega
      rw [if_pos (by omega), if_pos (by omega), hexponent, hpack, hsum]
    · rw [if_neg (by omega), if_neg (by omega)]

/-- The rounded mantissa with its carry. -/
theorem roundShift_hidden (m : ℕ) :
    roundShift (2 ^ 23 + m) 13 = 2 ^ 10 + (m + 0xfff + m / 2 ^ 13 % 2) / 2 ^ 13 := by
  rw [roundShift, if_neg (by decide)]
  omega

/-- Each float with a number is converted to the nearest half float, unless this is too large. -/
theorem convertF32ToF16Impl_eq (x : NnUint) (hx : FiniteF32 x) :
    ∃ k, HalfNearest (x.toNat % 2 ^ 31) k ∧ convertF32ToF16Impl x =
      if k < infinityF16 then .ok (.ofNat (x.toNat / 2 ^ 31 * 2 ^ 15 + k))
      else .error "e <= 30" := by
  have hword := x.toNat_lt
  have hmax : x.toNat % 2 ^ 31 / 2 ^ 23 < 255 := by
    rw [Nat.div_lt_iff_lt_mul (by norm_num)]
    exact hx
  unfold convertF32ToF16Impl infinityF16
  simp only [sign_eq hword, exponent_eq, mantissa_eq]
  generalize x.toNat = i at hword hmax ⊢
  have hexponent : i / 2 ^ 23 % 2 ^ 8 = i % 2 ^ 31 / 2 ^ 23 := by omega
  have hmantissa : i % 2 ^ 23 = i % 2 ^ 31 % 2 ^ 23 := by omega
  have hsign : i / 2 ^ 31 < 2 := by omega
  rw [hexponent, hmantissa]
  generalize i % 2 ^ 31 = p at hmax ⊢
  generalize i / 2 ^ 31 = bit at hsign ⊢
  have hm : p % 2 ^ 23 < 2 ^ 23 := Nat.mod_lt _ (by norm_num)
  by_cases hlow : p / 2 ^ 23 ≤ 112
  · rw [if_pos (by omega)]
    by_cases htiny : p / 2 ^ 23 < 102
    · rw [if_pos (by omega)]
      refine ⟨0, halfNearest_tiny htiny, ?_⟩
      rw [if_pos (by norm_num), Nat.add_zero]
    · rw [if_neg (by omega)]
      obtain ⟨t, ht⟩ : ∃ t, p / 2 ^ 23 + t = 126 := ⟨126 - p / 2 ^ 23, by omega⟩
      have hshift : (14 - (((p / 2 ^ 23 : ℕ) : ℤ) - (127 - 15))).toNat = t := by omega
      have hround := halfNearest_subnormal (by omega) ht (by omega)
      have hsize := roundShift_le (q := 2 ^ 23 + p % 2 ^ 23) (n := 2 ^ 10) (t := t) (by
        have hpow : 2 ^ 14 ≤ 2 ^ t := Nat.pow_le_pow_right (by decide) (by omega)
        omega)
      refine ⟨_, hround, ?_⟩
      rw [hshift, hidden_eq hm, round_eq (by omega), if_pos (by omega),
        sign_or (Nat.lt_of_le_of_lt hsize (by norm_num))]
  · rw [if_neg (by omega), if_neg (by omega)]
    obtain ⟨e, he⟩ : ∃ e, p / 2 ^ 23 = e + 113 := ⟨p / 2 ^ 23 - 113, by omega⟩
    have hround := halfNearest_normal he
    rw [roundShift_hidden] at hround
    refine ⟨_, hround, ?_⟩
    have hexponent : ((p / 2 ^ 23 : ℕ) : ℤ) - (127 - 15) = ((e + 1 : ℕ) : ℤ) := by omega
    have hbit : (p % 2 ^ 23) >>> 13 &&& 1 = p % 2 ^ 23 / 2 ^ 13 % 2 := by
      rw [Nat.and_one_is_mod, Nat.shiftRight_eq_div_pow]
    have hrounded : p % 2 ^ 23 + 0xfff + p % 2 ^ 23 / 2 ^ 13 % 2 < 2 ^ 23 + 2 ^ 13 := by
      omega
    rw [hexponent, hbit]
    exact carry_eq hrounded

end Rounding

section Widening

/-- A half float in the lowest exponents of the floats. -/
theorem magnitude_shift (k : ℕ) : magnitude 23 (k * 2 ^ 13) = magnitude 10 k * 2 ^ 13 := by
  have hexponent : k * 2 ^ 13 / 2 ^ 23 = k / 2 ^ 10 := by omega
  have hmantissa : k * 2 ^ 13 % 2 ^ 23 = k % 2 ^ 10 * 2 ^ 13 := by omega
  rw [magnitude, magnitude, hexponent, hmantissa]
  by_cases hfirst : k / 2 ^ 10 = 0
  · rw [if_pos hfirst, if_pos hfirst]
  · rw [if_neg hfirst, if_neg hfirst]
    ring

/-- Each number of a half float is that of a float. -/
theorem exists_widened (k : ℕ) : ∃ p, magnitude 23 p = magnitude 10 k * 2 ^ 125 := by
  by_cases hfirst : k / 2 ^ 10 = 0
  · obtain ⟨p, hp⟩ := exists_magnitude 23 (m := k) (by omega) 125
    refine ⟨p, ?_⟩
    rw [hp, magnitude, if_pos hfirst]
  · have hmantissa : 2 ^ 10 + k % 2 ^ 10 ≤ 2 ^ 24 := by omega
    obtain ⟨p, hp⟩ := exists_magnitude 23 hmantissa (k / 2 ^ 10 - 1 + 125)
    refine ⟨p, ?_⟩
    rw [hp, magnitude, if_neg hfirst, Nat.pow_add, Nat.mul_assoc]

/-- Larger numbers have larger patterns. -/
theorem magnitude_lt_iff {mantissaBits a b : ℕ} :
    magnitude mantissaBits a < magnitude mantissaBits b ↔ a < b := by
  have hcast := (magnitude_strictMono mantissaBits).lt_iff_lt (a := a) (b := b)
  exact_mod_cast hcast

/-- The product with the power of two is exact. -/
theorem mulF32_magic {k p : ℕ} (hp : magnitude 23 p = magnitude 10 k * 2 ^ 125)
    (hfinite : p < infinityF32) : mulF32 (k * 2 ^ 13) ((254 - 15) <<< 23) = p := by
  have hmagic : magnitude 23 ((254 - 15) <<< 23) = 2 ^ 23 * 2 ^ 238 := by
    decide +kernel
  have hexact : magnitude 23 p * 2 ^ 149 =
      magnitude 23 (k * 2 ^ 13) * magnitude 23 ((254 - 15) <<< 23) := by
    rw [hp, magnitude_shift, hmagic]
    ring
  rw [mulF32, roundPattern_exact 23 (by norm_num) hexact]
  exact Nat.min_eq_left (Nat.le_of_lt hfinite)

/-- The float of a finite half float has its sign and its number. -/
theorem convertF16toF32Impl_eq (h : NnFp16) (hh : FiniteF16 h) :
    ∃ p, p < infinityF32 ∧ magnitude 23 p = magnitude 10 (h.toNat % 2 ^ 15) * 2 ^ 125 ∧
      (convertF16toF32Impl h).toNat = h.toNat / 2 ^ 15 * 2 ^ 31 + p := by
  obtain ⟨p, hp⟩ := exists_widened (h.toNat % 2 ^ 15)
  have hlarge : magnitude 23 p < magnitude 23 ((127 + 16) <<< 23) := by
    have hinfinite : magnitude 23 ((127 + 16) <<< 23) = magnitude 10 infinityF16 * 2 ^ 125 := by
      decide +kernel
    rw [hp, hinfinite]
    exact Nat.mul_lt_mul_of_pos_right (magnitude_lt_iff.mpr hh) (Nat.two_pow_pos 125)
  have hpattern : p < (127 + 16) <<< 23 := magnitude_lt_iff.mp hlarge
  have hfinite : p < infinityF32 := Nat.lt_trans hpattern (by decide +kernel)
  have hshort : p < 2 ^ 31 := Nat.lt_trans hpattern (by decide +kernel)
  have hword := h.toNat_lt
  have hmask : h.toNat &&& 0x7fff = h.toNat % 2 ^ 15 := Nat.and_two_pow_sub_one_eq_mod _ 15
  have hsign : (h.toNat &&& 0x8000) <<< 16 = 2 ^ 31 * (h.toNat / 2 ^ 15) := by
    have hbit := sign_eq (i := h.toNat * 2 ^ 16) (by omega)
    have hback : (h.toNat * 2 ^ 16) >>> 16 = h.toNat := by
      rw [Nat.shiftRight_eq_div_pow, Nat.mul_div_cancel _ (by norm_num)]
    have hplace : h.toNat * 2 ^ 16 / 2 ^ 31 = h.toNat / 2 ^ 15 := by omega
    rw [hback, hplace] at hbit
    rw [hbit, Nat.shiftLeft_eq]
    ring
  refine ⟨p, hfinite, hp, ?_⟩
  simp only [convertF16toF32Impl]
  rw [hmask, Nat.shiftLeft_eq (h.toNat % 2 ^ 15), mulF32_magic hp hfinite,
    if_neg (Nat.not_le_of_lt hlarge), hsign, Nat.or_comm, ← Nat.two_pow_add_eq_or_of_lt hshort,
    UInt32.toNat_ofNat', Nat.mul_comm]
  exact Nat.mod_eq_of_lt (by omega)

end Widening

/-- A finite half float is converted to a float and back. -/
theorem convertF32ToF16Impl_convertF16toF32Impl (h : NnFp16) (hh : FiniteF16 h) :
    convertF32ToF16Impl (convertF16toF32Impl h) = .ok h := by
  obtain ⟨p, hfinite, hp, hword⟩ := convertF16toF32Impl_eq h hh
  have hshort : p < 2 ^ 31 := Nat.lt_trans hfinite (by decide +kernel)
  have hpattern : (convertF16toF32Impl h).toNat % 2 ^ 31 = p := by omega
  have hsign : (convertF16toF32Impl h).toNat / 2 ^ 31 = h.toNat / 2 ^ 15 := by omega
  have hnumber : FiniteF32 (convertF16toF32Impl h) := by
    rw [FiniteF32, hpattern]
    exact hfinite
  obtain ⟨k, hnearest, hresult⟩ := convertF32ToF16Impl_eq _ hnumber
  have hself : HalfNearest p (h.toNat % 2 ^ 15) := by
    have hvalue : (magnitude 23 p : ℚ) / 2 ^ 125 = magnitude 10 (h.toNat % 2 ^ 15) := by
      rw [hp, Nat.cast_mul, Nat.cast_pow, Nat.cast_ofNat]
      exact mul_div_cancel_right₀ _ (by positivity)
    rw [HalfNearest, hvalue]
    exact nearestEven_self (magnitude_strictMono 10) _
  rw [hpattern] at hnearest
  have hsame := hnearest.unique (magnitude_strictMono 10) hself
  have hparts : h.toNat / 2 ^ 15 * 2 ^ 15 + h.toNat % 2 ^ 15 = h.toNat := Nat.div_add_mod' _ _
  have hless : h.toNat % 2 ^ 15 < infinityF16 := hh
  rw [hresult, hsame, if_pos hless, hsign, hparts, UInt16.ofNat_toNat]

/-- The nearest half float, in numbers. -/
theorem HalfNearest.value {x : NnUint} {k : ℕ} (h : HalfNearest (x.toNat % 2 ^ 31) k) :
    NearestEven halfValue |f32Value x| k := by
  have hscaled := h.scale (by norm_num : (0 : ℚ) < 1 / 2 ^ 24)
  have hvalue : (fun m => 1 / 2 ^ 24 * (magnitude 10 m : ℚ)) = halfValue := by
    funext m
    rw [halfValue]
    ring
  have hnumber : 1 / 2 ^ 24 * ((magnitude 23 (x.toNat % 2 ^ 31) : ℚ) / 2 ^ 125) = |f32Value x| := by
    rw [abs_f32Value]
    field_simp
  rwa [hvalue, hnumber] at hscaled

/-- No finite half float, of any sign, is nearer to a float than that it is converted to. -/
theorem convertF32ToF16Impl_nearest {x : NnUint} (hx : FiniteF32 x) {h : NnFp16}
    (hresult : convertF32ToF16Impl x = .ok h) (g : NnFp16) :
    |f16Value h.toNat - f32Value x| ≤ |f16Value g.toNat - f32Value x| := by
  obtain ⟨k, hnearest, hconverted⟩ := convertF32ToF16Impl_eq x hx
  have hless : k < infinityF16 := by
    by_contra hmore
    rw [hresult, if_neg hmore] at hconverted
    cases hconverted
  rw [hresult, if_pos hless] at hconverted
  have hshort : k < 2 ^ 15 := Nat.lt_trans hless (by decide)
  have hword := x.toNat_lt
  have hbits : h.toNat = x.toNat / 2 ^ 31 * 2 ^ 15 + k := by
    rw [Except.ok.inj hconverted, UInt16.toNat_ofNat']
    exact Nat.mod_eq_of_lt (by omega)
  have hsign : h.toNat / 2 ^ 15 = x.toNat / 2 ^ 31 := by omega
  have hpattern : h.toNat % 2 ^ 15 = k := by omega
  have hvalue := hnearest.value.nearest (g.toNat % 2 ^ 15)
  have hown : |f16Value h.toNat - f32Value x| = |halfValue k - (|f32Value x|)| := by
    rw [f16Value_eq, hsign, hpattern, abs_f32Value, f32Value_eq, ← mul_sub, abs_mul, abs_signValue,
      one_mul]
  have hother : |halfValue (g.toNat % 2 ^ 15) - (|f32Value x|)| ≤
      |f16Value g.toNat - f32Value x| := by
    have hpositive : 0 ≤ halfValue (g.toNat % 2 ^ 15) :=
      div_nonneg (Nat.cast_nonneg _) (by norm_num)
    have habs : |f16Value g.toNat| = halfValue (g.toNat % 2 ^ 15) := by
      rw [f16Value_eq, abs_mul, abs_signValue, one_mul, abs_of_nonneg hpositive]
    rw [← habs]
    exact abs_abs_sub_abs_le _ _
  rw [hown]
  exact le_trans hvalue hother

/-- A float is converted to the nearest half float, the even one of two, with its sign, where its
rounded number is that of a half float, and an assertion fails where it is larger. A half float is
converted to a float and back. -/
theorem convert_spec (x : NnUint) (hx : FiniteF32 x) (h : NnFp16) (hh : FiniteF16 h) :
    (∃ k, NearestEven halfValue |f32Value x| k ∧ convertF32ToF16Impl x =
      if k < infinityF16 then .ok (.ofNat (x.toNat / 2 ^ 31 * 2 ^ 15 + k))
      else .error "e <= 30") ∧
    convertF32ToF16Impl (convertF16toF32Impl h) = .ok h := by
  constructor
  · obtain ⟨k, hnearest, hresult⟩ := convertF32ToF16Impl_eq x hx
    exact ⟨k, hnearest.value, hresult⟩
  · exact convertF32ToF16Impl_convertF16toF32Impl h hh

/-- The float one and the half float one. -/
theorem convert_spec_one :
    FiniteF32 0x3f800000 ∧ FiniteF16 0x3c00 ∧
    (∃ k, NearestEven halfValue |f32Value 0x3f800000| k ∧ convertF32ToF16Impl 0x3f800000 =
      if k < infinityF16 then .ok (.ofNat ((0x3f800000 : NnUint).toNat / 2 ^ 31 * 2 ^ 15 + k))
      else .error "e <= 30") ∧
    convertF32ToF16Impl (convertF16toF32Impl 0x3c00) = .ok 0x3c00 := by
  have hx : FiniteF32 0x3f800000 := by
    decide +kernel
  have hh : FiniteF16 0x3c00 := by
    decide +kernel
  exact ⟨hx, hh, convert_spec 0x3f800000 hx 0x3c00 hh⟩

/-- The float 65536 is rounded to more than the largest half float, and it is not converted to
infinity. -/
theorem not_convert_infinity :
    ¬∀ (x : NnUint) (h : NnFp16), FiniteF32 x → FiniteF16 h →
      (∃ k, NearestEven halfValue |f32Value x| k ∧ convertF32ToF16Impl x =
        .ok (.ofNat (x.toNat / 2 ^ 31 * 2 ^ 15 + min k infinityF16))) ∧
      convertF32ToF16Impl (convertF16toF32Impl h) = .ok h := by
  intro hall
  have hx : FiniteF32 0x47800000 := by
    decide +kernel
  have hh : FiniteF16 0x3c00 := by
    decide +kernel
  have hfails : convertF32ToF16Impl 0x47800000 = .error "e <= 30" := by
    decide +kernel
  obtain ⟨⟨k, _, hresult⟩, _⟩ := hall 0x47800000 0x3c00 hx hh
  rw [hfails] at hresult
  cases hresult

/-- A carry into the exponent, a tie in the least half floats, and a negative zero. -/
example : convertF32ToF16Impl 0x3fffffff = .ok 0x4000 ∧ convertF32ToF16Impl 0x33c00000 = .ok 2 ∧
    convertF32ToF16Impl 0x80000000 = .ok 0x8000 ∧ convertF16toF32Impl 1 = 0x33800000 := by
  decide +kernel

end LayerSkip.HalfConversion
