import Mathlib.Algebra.BigOperators.Group.Finset.Basic

/-!
# Ranges cut into pieces of one length

An index below `pieces * size` is a piece and a place in it. Lists and sums over
all indices are lists and sums over the pieces and then over the places.
-/

namespace LayerSkip.EqualPieces

variable {α : Type*}

theorem index_lt {pieces size piece place : ℕ} (hpiece : piece < pieces) (hplace : place < size) :
    piece * size + place < pieces * size := by
  have hnext : (piece + 1) * size ≤ pieces * size := Nat.mul_le_mul_right size hpiece
  rw [Nat.add_mul, Nat.one_mul] at hnext
  omega

theorem index_div {size place : ℕ} (piece : ℕ) (hplace : place < size) :
    (piece * size + place) / size = piece := by
  rw [Nat.mul_comm, Nat.mul_add_div (by omega), Nat.div_eq_of_lt hplace, Nat.add_zero]

theorem index_mod {size place : ℕ} (piece : ℕ) (hplace : place < size) :
    (piece * size + place) % size = place := by
  rw [Nat.mul_comm, Nat.mul_add_mod, Nat.mod_eq_of_lt hplace]

theorem index_inj {size piece piece' place place' : ℕ} (hplace : place < size)
    (hplace' : place' < size) (h : piece * size + place = piece' * size + place') :
    piece = piece' ∧ place = place' := by
  have hdiv := index_div piece hplace
  have hmod := index_mod piece hplace
  rw [h, index_div piece' hplace'] at hdiv
  rw [h, index_mod piece' hplace'] at hmod
  exact ⟨hdiv.symm, hmod.symm⟩

/-- Every index lies in one piece, at one place. -/
theorem existsUnique_index {pieces size index : ℕ} (h : index < pieces * size) :
    ∃! at0 : ℕ × ℕ, at0.1 < pieces ∧ at0.2 < size ∧ at0.1 * size + at0.2 = index := by
  have hsize : 0 < size := by
    rcases Nat.eq_zero_or_pos size with hzero | hpos
    · rw [hzero, Nat.mul_zero] at h
      omega
    · exact hpos
  refine ⟨(index / size, index % size), ⟨?_, Nat.mod_lt _ hsize, ?_⟩, ?_⟩
  · exact Nat.div_lt_of_lt_mul (Nat.mul_comm pieces size ▸ h)
  · exact Nat.div_add_mod' index size
  · intro at0 hat0
    obtain ⟨-, hplace, hindex⟩ := hat0
    have hdiv := index_div at0.1 hplace
    have hmod := index_mod at0.1 hplace
    rw [hindex] at hdiv hmod
    rw [hdiv, hmod]

theorem length_flatMap_range {F : ℕ → List α} {size pieces : ℕ}
    (h : ∀ piece < pieces, (F piece).length = size) :
    ((List.range pieces).flatMap F).length = pieces * size := by
  induction pieces with
  | zero => simp
  | succ pieces ih =>
    have hrest := ih fun piece hpiece => h piece (Nat.lt_succ_of_lt hpiece)
    rw [List.range_succ, List.flatMap_append, List.length_append, hrest, List.flatMap_singleton,
      h pieces (Nat.lt_succ_self pieces), Nat.succ_mul]

/-- An element of a list made of pieces. -/
theorem getElem?_flatMap_range {F : ℕ → List α} {size pieces piece place : ℕ}
    (h : ∀ piece < pieces, (F piece).length = size) (hpiece : piece < pieces)
    (hplace : place < size) :
    ((List.range pieces).flatMap F)[piece * size + place]? = (F piece)[place]? := by
  induction pieces with
  | zero => omega
  | succ pieces ih =>
    have hshort : ∀ piece < pieces, (F piece).length = size := fun piece hpiece =>
      h piece (Nat.lt_succ_of_lt hpiece)
    have hlength := length_flatMap_range hshort
    rw [List.range_succ, List.flatMap_append, List.flatMap_singleton]
    rcases Nat.lt_succ_iff_lt_or_eq.mp hpiece with hbefore | hlast
    · have hbound := index_lt hbefore hplace
      rw [List.getElem?_append_left (by omega)]
      exact ih hshort hbefore
    · rw [List.getElem?_append_right (by rw [hlength, hlast]; omega), hlength, hlast]
      congr 1
      omega

/-- A list over all indices, piece by piece. -/
theorem flatMap_range_map (f : ℕ → α) (pieces size : ℕ) :
    ((List.range pieces).flatMap fun piece => (List.range size).map fun place =>
      f (piece * size + place)) = (List.range (pieces * size)).map f := by
  induction pieces with
  | zero => simp
  | succ pieces ih =>
    rw [List.range_succ, List.flatMap_append, ih, List.flatMap_singleton, Nat.succ_mul,
      List.range_add, List.map_append, List.map_map]
    exact Eq.refl _

/-- A sum over all indices, piece by piece. -/
theorem sum_range_mul {M : Type*} [AddCommMonoid M] (f : ℕ → M) (pieces size : ℕ) :
    ∑ index ∈ Finset.range (pieces * size), f index =
      ∑ piece ∈ Finset.range pieces, ∑ place ∈ Finset.range size, f (piece * size + place) := by
  induction pieces with
  | zero => simp
  | succ pieces ih => rw [Nat.succ_mul, Finset.sum_range_add, ih, Finset.sum_range_succ]

end LayerSkip.EqualPieces
