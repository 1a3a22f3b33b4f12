import Mathlib.Algebra.Order.Field.Rat
import Mathlib.Algebra.Order.Ring.Abs
import Mathlib.Data.Rat.Cast.Order
import Mathlib.Order.Monotone.Basic
import Mathlib.Tactic.Linarith
import Mathlib.Tactic.FieldSimp
import Mathlib.Tactic.Ring

/-!
# Patterns of floats and rounding to them

A pattern of exponent and mantissa is a natural number, and it stands for a natural number of least
units: mantissas are spaced by one unit up to the first exponent, and by twice as much for each one
after it. Numbers of units grow with patterns, so the nearest pattern of a number, the even one of
two, is unique. Rounding shifts a number to the spacing of its place.
-/

namespace LayerSkip.FloatFormat

section Nearest

/-- A pattern whose value is nearest to a number, and even when another one is as near. -/
structure NearestEven (value : ℕ → ℚ) (x : ℚ) (n : ℕ) : Prop where
  /-- No value is nearer. -/
  nearest : ∀ m, |value n - x| ≤ |value m - x|
  /-- Even when another value is as near. -/
  even : ∀ m, m ≠ n → |value m - x| = |value n - x| → n % 2 = 0

/-- A number that is a value is rounded to it. -/
theorem nearestEven_self {value : ℕ → ℚ} (hmono : StrictMono value) (n : ℕ) :
    NearestEven value (value n) n := by
  constructor
  · intro m
    rw [sub_self, abs_zero]
    exact abs_nonneg _
  · intro m hne heq
    rw [sub_self, abs_zero, abs_eq_zero, sub_eq_zero] at heq
    exact absurd (hmono.injective heq) hne

/-- Of two nearest patterns the smaller one is next to the larger one. -/
theorem NearestEven.le_succ {value : ℕ → ℚ} (hmono : StrictMono value) {x : ℚ} {n m : ℕ}
    (hn : NearestEven value x n) (hm : NearestEven value x m) : m ≤ n + 1 := by
  by_contra hfar
  have hlow := hmono (Nat.lt_succ_self n)
  have hhigh := hmono (Nat.lt_of_not_le hfar)
  have hbetween := hn.nearest (n + 1)
  have hbetween' := hm.nearest (n + 1)
  rw [Nat.succ_eq_add_one] at hlow
  cases le_total (value (n + 1)) x with
  | inl hle =>
    rw [abs_of_nonpos (by linarith : value n - x ≤ 0),
      abs_of_nonpos (by linarith : value (n + 1) - x ≤ 0)] at hbetween
    linarith
  | inr hge =>
    rw [abs_of_nonneg (by linarith : 0 ≤ value m - x),
      abs_of_nonneg (by linarith : 0 ≤ value (n + 1) - x)] at hbetween'
    linarith

/-- The nearest pattern is one. -/
theorem NearestEven.unique {value : ℕ → ℚ} (hmono : StrictMono value) {x : ℚ} {n m : ℕ}
    (hn : NearestEven value x n) (hm : NearestEven value x m) : n = m := by
  by_contra hne
  have hsame : |value m - x| = |value n - x| :=
    le_antisymm (hm.nearest n) (hn.nearest m)
  have hn' := hn.even m (Ne.symm hne) hsame
  have hm' := hm.even n hne hsame.symm
  have hnm := hn.le_succ hmono hm
  have hmn := hm.le_succ hmono hn
  omega

/-- A natural number that is at most a half away, and even when it is a half away. -/
theorem nearestEven_natCast {x : ℚ} {n : ℕ} (hhalf : |(n : ℚ) - x| ≤ 1 / 2)
    (heven : |(n : ℚ) - x| = 1 / 2 → n % 2 = 0) : NearestEven (fun m => (m : ℚ)) x n := by
  have hother : ∀ m : ℕ, m ≠ n → 1 / 2 ≤ |(m : ℚ) - x| := by
    intro m hne
    have hone : (1 : ℚ) ≤ |(m : ℚ) - n| := by
      have hint : (1 : ℤ) ≤ |(m : ℤ) - n| := Int.one_le_abs (by omega)
      exact_mod_cast hint
    have htriangle : |(m : ℚ) - n| ≤ |(m : ℚ) - x| + |(n : ℚ) - x| := by
      have hsum := abs_sub_le (m : ℚ) x n
      rwa [abs_sub_comm x] at hsum
    linarith
  constructor
  · intro m
    by_cases hne : m = n
    · rw [hne]
    · exact le_trans hhalf (hother m hne)
  · intro m hne heq
    apply heven
    have hfar := hother m hne
    exact le_antisymm hhalf (heq ▸ hfar)

/-- Rounding does not depend on the unit. -/
theorem NearestEven.scale {value : ℕ → ℚ} {x c : ℚ} {n : ℕ} (hc : 0 < c)
    (h : NearestEven value x n) : NearestEven (fun m => c * value m) (c * x) n := by
  have hdistance : ∀ m, |c * value m - c * x| = c * |value m - x| := by
    intro m
    rw [← mul_sub, abs_mul, abs_of_pos hc]
  constructor
  · intro m
    rw [hdistance, hdistance]
    exact mul_le_mul_of_nonneg_left (h.nearest m) (le_of_lt hc)
  · intro m hne heq
    rw [hdistance, hdistance] at heq
    exact h.even m hne (mul_left_cancel₀ (ne_of_gt hc) heq)

/-- On a segment where values are evenly spaced, the nearest pattern is that of the nearest
multiple. -/
theorem nearestEven_segment {value : ℕ → ℚ} (hmono : StrictMono value) {base lo hi : ℕ} {c y : ℚ}
    (hc : 0 < c) (hbase : base % 2 = 0)
    (hvalue : ∀ m, lo ≤ m → m ≤ hi → value (base + m) = c * m) (hlo : (lo : ℚ) ≤ y)
    (hhi : y ≤ hi) {n : ℕ} (hn : NearestEven (fun m => (m : ℚ)) y n) :
    NearestEven value (c * y) (base + n) := by
  have hdistance : ∀ a : ℚ, |c * a - c * y| = c * |a - y| := by
    intro a
    rw [← mul_sub, abs_mul, abs_of_pos hc]
  have hle : lo ≤ hi := by
    have hcast : (lo : ℚ) ≤ hi := le_trans hlo hhi
    exact_mod_cast hcast
  have hbelow : lo ≤ n := by
    by_contra hless
    have hnear := hn.nearest lo
    have hcast : (n : ℚ) < lo := by exact_mod_cast Nat.lt_of_not_le hless
    rw [abs_of_nonpos (by linarith : (n : ℚ) - y ≤ 0),
      abs_of_nonpos (by linarith : (lo : ℚ) - y ≤ 0)] at hnear
    linarith
  have habove : n ≤ hi := by
    by_contra hmore
    have hnear := hn.nearest hi
    have hcast : (hi : ℚ) < n := by exact_mod_cast Nat.lt_of_not_le hmore
    rw [abs_of_nonneg (by linarith : 0 ≤ (n : ℚ) - y),
      abs_of_nonneg (by linarith : 0 ≤ (hi : ℚ) - y)] at hnear
    linarith
  have hself := hvalue n hbelow habove
  -- outside of the segment a value is further away than the end of the segment
  have houtside : ∀ m, (m < base + lo ∨ base + hi < m) →
      |value (base + n) - c * y| < |value m - c * y| := by
    intro m hm
    rw [hself, hdistance]
    cases hm with
    | inl hm =>
      have hless := hmono hm
      rw [hvalue lo (Nat.le_refl lo) hle] at hless
      have hend := mul_le_mul_of_nonneg_left hlo (le_of_lt hc)
      have hnear := mul_le_mul_of_nonneg_left (hn.nearest lo) (le_of_lt hc)
      rw [abs_of_nonpos (by linarith : (lo : ℚ) - y ≤ 0)] at hnear
      rw [abs_of_nonpos (by linarith : value m - c * y ≤ 0)]
      linarith
    | inr hm =>
      have hmore := hmono hm
      rw [hvalue hi hle (Nat.le_refl hi)] at hmore
      have hend := mul_le_mul_of_nonneg_left hhi (le_of_lt hc)
      have hnear := mul_le_mul_of_nonneg_left (hn.nearest hi) (le_of_lt hc)
      rw [abs_of_nonneg (by linarith : 0 ≤ (hi : ℚ) - y)] at hnear
      rw [abs_of_nonneg (by linarith : 0 ≤ value m - c * y)]
      linarith
  have hinside : ∀ m, ¬(m < base + lo ∨ base + hi < m) →
      ∃ k, m = base + k ∧ value m = c * k := by
    intro m hm
    refine ⟨m - base, by omega, ?_⟩
    have hplace : base + (m - base) = m := by omega
    rw [← hvalue (m - base) (by omega) (by omega), hplace]
  constructor
  · intro m
    by_cases hm : m < base + lo ∨ base + hi < m
    · exact le_of_lt (houtside m hm)
    · obtain ⟨k, _, hk⟩ := hinside m hm
      rw [hself, hk, hdistance, hdistance]
      exact mul_le_mul_of_nonneg_left (hn.nearest k) (le_of_lt hc)
  · intro m hne heq
    by_cases hm : m < base + lo ∨ base + hi < m
    · exact absurd heq (ne_of_gt (houtside m hm))
    · obtain ⟨k, hplace, hk⟩ := hinside m hm
      rw [hself, hk, hdistance, hdistance] at heq
      have heven := hn.even k (by omega) (mul_left_cancel₀ (ne_of_gt hc) heq)
      omega

end Nearest

section Patterns

variable (mantissaBits : ℕ)

/-- The number of least units that a pattern stands for. -/
def magnitude (k : ℕ) : ℕ :=
  if k / 2 ^ mantissaBits = 0 then k
  else (2 ^ mantissaBits + k % 2 ^ mantissaBits) * 2 ^ (k / 2 ^ mantissaBits - 1)

/-- Patterns of an exponent are evenly spaced, the first one of the next exponent with them. -/
theorem magnitude_add {c m : ℕ} (hlo : c = 0 ∨ 2 ^ mantissaBits ≤ m)
    (hhi : m ≤ 2 ^ (mantissaBits + 1)) :
    magnitude mantissaBits (c * 2 ^ mantissaBits + m) = m * 2 ^ c := by
  have hpos := Nat.two_pow_pos mantissaBits
  have hdouble : 2 ^ (mantissaBits + 1) = 2 * 2 ^ mantissaBits := by
    rw [Nat.pow_succ, Nat.mul_comm]
  have hdiv : (c * 2 ^ mantissaBits + m) / 2 ^ mantissaBits = c + m / 2 ^ mantissaBits := by
    rw [Nat.add_comm, Nat.add_mul_div_right _ _ hpos, Nat.add_comm]
  have hmod : (c * 2 ^ mantissaBits + m) % 2 ^ mantissaBits = m % 2 ^ mantissaBits := by
    rw [Nat.add_comm, Nat.add_mul_mod_self_right]
  rw [magnitude, hdiv, hmod]
  by_cases hsmall : m < 2 ^ mantissaBits
  · have hzero : c = 0 := by omega
    rw [Nat.div_eq_of_lt hsmall, hzero]
    simp
  · by_cases hlast : m = 2 * 2 ^ mantissaBits
    · have hquot : m / 2 ^ mantissaBits = 2 := by
        rw [hlast, Nat.mul_div_cancel _ hpos]
      have hrest : m % 2 ^ mantissaBits = 0 := by
        rw [hlast, Nat.mul_mod_left]
      rw [hquot, hrest, if_neg (by omega), Nat.add_zero, hlast]
      have hexp : c + 2 - 1 = c + 1 := by omega
      rw [hexp, Nat.pow_succ]
      ring
    · have hquot : m / 2 ^ mantissaBits = 1 :=
        Nat.div_eq_of_lt_le (by omega) (by omega)
      have hrest := Nat.mod_add_div m (2 ^ mantissaBits)
      rw [hquot, Nat.mul_one] at hrest
      rw [hquot, if_neg (by omega), Nat.add_sub_cancel, Nat.add_comm (2 ^ mantissaBits), hrest]

/-- The next pattern stands for a larger number. -/
theorem magnitude_lt_succ (k : ℕ) : magnitude mantissaBits k < magnitude mantissaBits (k + 1) := by
  have hpos := Nat.two_pow_pos mantissaBits
  have hdouble : 2 ^ (mantissaBits + 1) = 2 * 2 ^ mantissaBits := by
    rw [Nat.pow_succ, Nat.mul_comm]
  have hparts := Nat.div_add_mod k (2 ^ mantissaBits)
  have hrest := Nat.mod_lt k hpos
  by_cases hfirst : k / 2 ^ mantissaBits = 0
  · have hsmall : k < 2 ^ mantissaBits := by
      rw [hfirst, Nat.mul_zero, Nat.zero_add] at hparts
      rwa [hparts] at hrest
    have hk := magnitude_add mantissaBits (c := 0) (.inl (Eq.refl _)) (by omega : k ≤ _)
    have hnext := magnitude_add mantissaBits (c := 0) (.inl (Eq.refl _)) (by omega : k + 1 ≤ _)
    rw [Nat.zero_mul, Nat.zero_add, Nat.pow_zero, Nat.mul_one] at hk hnext
    rw [hk, hnext]
    exact Nat.lt_succ_self k
  · obtain ⟨c, hc⟩ := Nat.exists_eq_succ_of_ne_zero hfirst
    have hplace : k = c * 2 ^ mantissaBits + (2 ^ mantissaBits + k % 2 ^ mantissaBits) := by
      rw [hc, Nat.succ_eq_add_one, Nat.mul_add, Nat.mul_one, Nat.mul_comm] at hparts
      omega
    have hk := magnitude_add mantissaBits (c := c)
      (.inr (Nat.le_add_right (2 ^ mantissaBits) (k % 2 ^ mantissaBits))) (by omega)
    have hnext := magnitude_add mantissaBits (c := c) (m := 2 ^ mantissaBits + k % 2 ^ mantissaBits + 1)
      (.inr (by omega)) (by omega)
    rw [← hplace] at hk
    rw [← Nat.add_assoc, ← hplace] at hnext
    rw [hk, hnext]
    exact Nat.mul_lt_mul_of_pos_right (Nat.lt_succ_self _) (Nat.two_pow_pos c)

theorem magnitude_strictMono : StrictMono fun k => (magnitude mantissaBits k : ℚ) := by
  apply strictMono_nat_of_lt_succ
  intro k
  exact_mod_cast magnitude_lt_succ mantissaBits k

/-- A short number in any place is that of a pattern. -/
theorem exists_magnitude {m : ℕ} (hm : m ≤ 2 ^ (mantissaBits + 1)) (c : ℕ) :
    ∃ k, magnitude mantissaBits k = m * 2 ^ c := by
  induction c generalizing m with
  | zero => exact ⟨_, magnitude_add mantissaBits (.inl (Eq.refl 0)) hm⟩
  | succ c ih =>
    by_cases hsmall : 2 ^ mantissaBits ≤ m
    · exact ⟨_, magnitude_add mantissaBits (.inr hsmall) hm⟩
    · have hdouble : 2 ^ (mantissaBits + 1) = 2 * 2 ^ mantissaBits := by
        rw [Nat.pow_succ, Nat.mul_comm]
      obtain ⟨k, hk⟩ := ih (by omega : 2 * m ≤ 2 ^ (mantissaBits + 1))
      refine ⟨k, ?_⟩
      rw [hk, Nat.pow_succ]
      ring

theorem natCast_strictMono : StrictMono fun m : ℕ => (m : ℚ) := by
  apply strictMono_nat_of_lt_succ
  intro m
  exact_mod_cast Nat.lt_succ_self m

/-- A number shifted to the right, rounded to the nearest one. -/
def roundShift (q t : ℕ) : ℕ :=
  if t = 0 then q else (q + (2 ^ (t - 1) - 1) + q / 2 ^ t % 2) / 2 ^ t

/-- At most a half is taken or added, and a half so that the result is even. -/
theorem roundShift_bounds {q t n : ℕ} (hn : roundShift q (t + 1) = n) :
    n * (2 * 2 ^ t) ≤ q + 2 ^ t ∧ q ≤ n * (2 * 2 ^ t) + 2 ^ t ∧
      (n * (2 * 2 ^ t) = q + 2 ^ t → n % 2 = 0) ∧ (q = n * (2 * 2 ^ t) + 2 ^ t → n % 2 = 0) := by
  have hpos := Nat.two_pow_pos t
  have hdouble : 2 ^ (t + 1) = 2 * 2 ^ t := by
    rw [Nat.pow_succ, Nat.mul_comm]
  rw [roundShift, if_neg (Nat.succ_ne_zero t), Nat.add_sub_cancel, hdouble] at hn
  generalize hhalf : 2 ^ t = half at hpos hn ⊢
  have hbit : q / (2 * half) % 2 < 2 := Nat.mod_lt _ (by decide)
  have hlow := Nat.div_mul_le_self (q + (half - 1) + q / (2 * half) % 2) (2 * half)
  have hhigh := Nat.lt_div_mul_add (a := q + (half - 1) + q / (2 * half) % 2)
    (by omega : 0 < 2 * half)
  rw [hn] at hlow hhigh
  refine ⟨by omega, by omega, ?_, ?_⟩
  · intro htie
    have hsome : 0 < n := by
      by_contra hzero
      rw [Nat.eq_zero_of_not_pos hzero] at htie
      omega
    have hodd : q / (2 * half) % 2 = 1 := by omega
    obtain ⟨n', hn'⟩ := Nat.exists_eq_succ_of_ne_zero (Nat.ne_of_gt hsome)
    rw [hn', Nat.succ_mul] at htie
    have hquot : q / (2 * half) = n' :=
      Nat.div_eq_of_lt_le (by omega) (by rw [Nat.succ_mul]; omega)
    omega
  · intro htie
    have hquot : q / (2 * half) = n :=
      Nat.div_eq_of_lt_le (by omega) (by rw [Nat.succ_mul]; omega)
    omega

/-- The shifted number is nearest. -/
theorem nearestEven_roundShift (q t : ℕ) :
    NearestEven (fun m => (m : ℚ)) (q / 2 ^ t) (roundShift q t) := by
  cases t with
  | zero =>
    have hself := nearestEven_self natCast_strictMono q
    simpa [roundShift] using hself
  | succ t =>
    obtain ⟨hlow, hhigh, hup, hdown⟩ := roundShift_bounds (Eq.refl (roundShift q (t + 1)))
    generalize roundShift q (t + 1) = n at hlow hhigh hup hdown ⊢
    have hhalf : (0 : ℚ) < 2 ^ t := by positivity
    have hlow : (n : ℚ) * (2 * 2 ^ t) ≤ q + 2 ^ t := by exact_mod_cast hlow
    have hhigh : (q : ℚ) ≤ n * (2 * 2 ^ t) + 2 ^ t := by exact_mod_cast hhigh
    generalize hy : (q : ℚ) / 2 ^ (t + 1) = y
    have hq : (q : ℚ) = y * (2 * 2 ^ t) := by
      rw [← hy, pow_succ]
      field_simp
    rw [hq] at hlow hhigh
    apply nearestEven_natCast
    · rw [abs_le]
      constructor
      · nlinarith
      · nlinarith
    · intro htie
      cases (abs_eq (by norm_num : (0 : ℚ) ≤ 1 / 2)).mp htie with
      | inl hmore =>
        apply hup
        have hcast : (n : ℚ) * (2 * 2 ^ t) = q + 2 ^ t := by
          have hn : (n : ℚ) = y + 1 / 2 := by linarith
          rw [hq, hn]
          ring
        exact_mod_cast hcast
      | inr hless =>
        apply hdown
        have hcast : (q : ℚ) = n * (2 * 2 ^ t) + 2 ^ t := by
          have hn : (n : ℚ) = y - 1 / 2 := by linarith
          rw [hq, hn]
          ring
        exact_mod_cast hcast

/-- A number up to a multiple is rounded to at most this one. -/
theorem roundShift_le {q t n : ℕ} (h : q ≤ n * 2 ^ t) : roundShift q t ≤ n := by
  have hpos := Nat.two_pow_pos t
  cases t with
  | zero => simpa [roundShift] using h
  | succ t =>
    obtain ⟨hlow, _, heven, _⟩ := roundShift_bounds (Eq.refl (roundShift q (t + 1)))
    have hdouble : 2 ^ (t + 1) = 2 * 2 ^ t := by
      rw [Nat.pow_succ, Nat.mul_comm]
    have hhalf := Nat.two_pow_pos t
    rw [hdouble] at h
    by_contra hmore
    have hnext := Nat.mul_le_mul_right (2 * 2 ^ t) (Nat.lt_of_not_le hmore)
    rw [Nat.succ_mul] at hnext
    omega

/-- Less than a half is rounded to nothing. -/
theorem roundShift_eq_zero {q t : ℕ} (h : q < 2 ^ t) : roundShift q (t + 1) = 0 := by
  have hdouble : 2 ^ (t + 1) = 2 * 2 ^ t := by
    rw [Nat.pow_succ, Nat.mul_comm]
  rw [roundShift, if_neg (Nat.succ_ne_zero t), Nat.add_sub_cancel, hdouble,
    Nat.div_eq_of_lt (by omega : q < 2 * 2 ^ t)]
  exact Nat.div_eq_of_lt (by omega)

/-- A number in the place of an exponent is rounded by shifting it. -/
theorem nearestEven_block (hbits : 0 < mantissaBits) {c q t : ℕ}
    (hlo : c = 0 ∨ 2 ^ mantissaBits * 2 ^ t ≤ q) (hhi : q ≤ 2 ^ (mantissaBits + 1) * 2 ^ t) :
    NearestEven (fun k => (magnitude mantissaBits k : ℚ)) (2 ^ c * (q / 2 ^ t))
      (c * 2 ^ mantissaBits + roundShift q t) := by
  have hpow : (0 : ℚ) < 2 ^ t := by positivity
  have hbase : c * 2 ^ mantissaBits % 2 = 0 := by
    obtain ⟨b, hb⟩ := Nat.exists_eq_succ_of_ne_zero (Nat.ne_of_gt hbits)
    rw [hb, Nat.pow_succ, ← Nat.mul_assoc, Nat.mul_mod_left]
  have hupper : (q : ℚ) / 2 ^ t ≤ (2 ^ (mantissaBits + 1) : ℕ) := by
    rw [div_le_iff₀ hpow]
    exact_mod_cast hhi
  have hspaced : ∀ lo, (c = 0 ∨ 2 ^ mantissaBits ≤ lo) → ∀ m, lo ≤ m →
      m ≤ 2 ^ (mantissaBits + 1) →
        (magnitude mantissaBits (c * 2 ^ mantissaBits + m) : ℚ) = 2 ^ c * m := by
    intro lo hlo m hm hmax
    have hplace : c = 0 ∨ 2 ^ mantissaBits ≤ m := hlo.imp_right fun h => Nat.le_trans h hm
    rw [magnitude_add mantissaBits hplace hmax, Nat.mul_comm]
    push_cast
    exact Eq.refl _
  have hmono := magnitude_strictMono mantissaBits
  have hc : (0 : ℚ) < 2 ^ c := by positivity
  have hround := nearestEven_roundShift q t
  cases hlo with
  | inl hzero =>
    have hlower : ((0 : ℕ) : ℚ) ≤ q / 2 ^ t := by
      rw [Nat.cast_zero]
      exact div_nonneg (Nat.cast_nonneg q) (le_of_lt hpow)
    exact nearestEven_segment hmono hc hbase (hspaced 0 (.inl hzero)) hlower hupper hround
  | inr hsome =>
    have hlower : ((2 ^ mantissaBits : ℕ) : ℚ) ≤ q / 2 ^ t := by
      rw [le_div_iff₀ hpow]
      exact_mod_cast hsome
    exact nearestEven_segment hmono hc hbase (hspaced _ (.inr (Nat.le_refl _))) hlower hupper
      hround

/-- The pattern nearest to a number of parts of the least unit, of which there are a power of two
in a unit. -/
def roundPattern (q t : ℕ) : ℕ :=
  (q.log2 - (t + mantissaBits)) * 2 ^ mantissaBits +
    roundShift q (t + (q.log2 - (t + mantissaBits)))

theorem nearestEven_roundPattern (hbits : 0 < mantissaBits) (q t : ℕ) :
    NearestEven (fun k => (magnitude mantissaBits k : ℚ)) (q / 2 ^ t)
      (roundPattern mantissaBits q t) := by
  rw [roundPattern]
  generalize hc : q.log2 - (t + mantissaBits) = c
  have hscale : (q : ℚ) / 2 ^ t = 2 ^ c * (q / 2 ^ (t + c)) := by
    rw [pow_add]
    field_simp
  rw [hscale]
  apply nearestEven_block mantissaBits hbits
  · by_cases hzero : c = 0
    · exact .inl hzero
    · right
      have hsome : q ≠ 0 := by
        intro hq
        rw [hq, Nat.log2_zero] at hc
        omega
      have hexp : mantissaBits + (t + c) = q.log2 := by omega
      rw [← Nat.pow_add, hexp]
      exact Nat.log2_self_le hsome
  · have hexp : q.log2 + 1 ≤ mantissaBits + 1 + (t + c) := by omega
    rw [← Nat.pow_add]
    exact Nat.le_trans (Nat.le_of_lt Nat.lt_log2_self)
      (Nat.pow_le_pow_right (by decide) hexp)

/-- A number that a pattern stands for is rounded to this pattern. -/
theorem roundPattern_exact (hbits : 0 < mantissaBits) {q t k : ℕ}
    (h : magnitude mantissaBits k * 2 ^ t = q) : roundPattern mantissaBits q t = k := by
  have hmono := magnitude_strictMono mantissaBits
  have hround := nearestEven_roundPattern mantissaBits hbits q t
  have hvalue : (q : ℚ) / 2 ^ t = magnitude mantissaBits k := by
    rw [← h]
    push_cast
    field_simp
  rw [hvalue] at hround
  exact hround.unique hmono (nearestEven_self hmono k)

end Patterns

end LayerSkip.FloatFormat
