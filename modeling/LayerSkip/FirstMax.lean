import Mathlib.Data.List.Basic
import Mathlib.Order.Lattice
import Mathlib.Order.Defs.LinearOrder

/-!
# The first of the largest elements

A scan that only moves on to a strictly larger element ends at the first of the
largest ones, unless it started with a value that nothing exceeds.
-/

namespace LayerSkip.FirstMax

variable {F ι : Type*} [LinearOrder F]

/-- The element at an index is the largest and no earlier one is as large. -/
structure IsFirstMax (xs : List F) (i : ℕ) (v : F) : Prop where
  /-- The element. -/
  get : xs[i]? = some v
  /-- No element is larger. -/
  le : ∀ w ∈ xs, w ≤ v
  /-- No earlier element is as large. -/
  first : ∀ j : ℕ, xs[j]? = some v → i ≤ j

theorem IsFirstMax.unique {xs : List F} {i j : ℕ} {v w : F} (h : IsFirstMax xs i v)
    (h' : IsFirstMax xs j w) : i = j ∧ v = w := by
  have hv : v = w := le_antisymm (h'.le v (List.mem_of_getElem? h.get))
    (h.le w (List.mem_of_getElem? h'.get))
  refine ⟨Nat.le_antisymm (h.first j ?_) (h'.first i ?_), hv⟩
  · rw [hv]
    exact h'.get
  · rw [← hv]
    exact h.get

theorem IsFirstMax.head {x : F} {xs : List F} (h : ∀ w ∈ xs, w ≤ x) : IsFirstMax (x :: xs) 0 x :=
  ⟨rfl, fun w hw => (List.mem_cons.mp hw).elim (fun hx => le_of_eq hx) (h w), fun _ _ => Nat.zero_le _⟩

theorem IsFirstMax.tail {x v : F} {xs : List F} {i : ℕ} (h : IsFirstMax xs i v) (hx : x < v) :
    IsFirstMax (x :: xs) (i + 1) v := by
  refine ⟨h.get, fun w hw => ?_, fun j hj => ?_⟩
  · rcases List.mem_cons.mp hw with hhead | htail
    · rw [hhead]
      exact le_of_lt hx
    · exact h.le w htail
  · cases j with
    | zero =>
      injection hj with hj
      exact absurd hj (ne_of_lt hx)
    | succ j => exact Nat.succ_le_succ (h.first j hj)

/-- Go on to a pair whose value is strictly larger. -/
def pickStep (best x : ι × F) : ι × F := if best.2 < x.2 then x else best

/-- Scan a list of pairs. -/
def pick (best : ι × F) (xs : List (ι × F)) : ι × F := xs.foldl pickStep best

/-- A scan stays where it started, or ends at the first of the largest values. -/
theorem pick_cases (best : ι × F) (xs : List (ι × F)) :
    (pick best xs = best ∧ ∀ x ∈ xs, x.2 ≤ best.2) ∨
      ∃ i x, xs[i]? = some x ∧ IsFirstMax (xs.map Prod.snd) i x.2 ∧ best.2 < x.2 ∧
        pick best xs = x := by
  induction xs generalizing best with
  | nil => exact .inl ⟨rfl, fun x hx => absurd hx List.not_mem_nil⟩
  | cons y xs ih =>
    have hstep : pick best (y :: xs) = pick (pickStep best y) xs := rfl
    rw [hstep]
    rcases lt_or_ge best.2 y.2 with hlarger | hnot
    · have hy : pickStep best y = y := if_pos hlarger
      rw [hy]
      rcases ih y with ⟨hstay, hall⟩ | ⟨i, x, hget, hmax, hlt, hend⟩
      · refine .inr ⟨0, y, rfl, IsFirstMax.head fun w hw => ?_, hlarger, hstay⟩
        obtain ⟨x, hx, hw⟩ := List.mem_map.mp hw
        rw [← hw]
        exact hall x hx
      · exact .inr ⟨i + 1, x, hget, hmax.tail hlt, lt_trans hlarger hlt, hend⟩
    · have hy : pickStep best y = best := if_neg (not_lt_of_ge hnot)
      rw [hy]
      rcases ih best with ⟨hstay, hall⟩ | ⟨i, x, hget, hmax, hlt, hend⟩
      · refine .inl ⟨hstay, fun x hx => ?_⟩
        rcases List.mem_cons.mp hx with hhead | htail
        · rw [hhead]
          exact hnot
        · exact hall x htail
      · exact .inr ⟨i + 1, x, hget, hmax.tail (lt_of_le_of_lt hnot hlt), hlt, hend⟩

section Names

variable {G : Type*}

/-- The elements of a list with names for their indices. -/
def named (name : ℕ → ι) (start : ℕ) (xs : List G) : List (ι × G) :=
  (xs.zipIdx start).map fun x => (name x.2, x.1)

theorem named_getElem? (name : ℕ → ι) (start : ℕ) (xs : List G) (i : ℕ) :
    (named name start xs)[i]? = xs[i]?.map fun v => (name (start + i), v) := by
  unfold named
  rw [List.getElem?_map, List.getElem?_zipIdx, Option.map_map]
  rfl

theorem named_snd (name : ℕ → ι) (start : ℕ) (xs : List G) :
    (named name start xs).map Prod.snd = xs := by
  unfold named
  rw [List.map_map]
  exact List.zipIdx_map_fst start xs

end Names

/-- A scan over a list ends where it started, or at the name of the first of the
largest elements. -/
theorem pick_named_cases (name : ℕ → ι) (start : ℕ) (best : ι × F) (xs : List F) :
    (pick best (named name start xs) = best ∧ ∀ v ∈ xs, v ≤ best.2) ∨
      ∃ i v, IsFirstMax xs i v ∧ best.2 < v ∧
        pick best (named name start xs) = (name (start + i), v) := by
  rcases pick_cases best (named name start xs) with ⟨hstay, hall⟩ | ⟨i, x, hget, hmax, hlt, hend⟩
  · refine .inl ⟨hstay, fun v hv => ?_⟩
    rw [← named_snd name start xs] at hv
    obtain ⟨x, hx, hv⟩ := List.mem_map.mp hv
    rw [← hv]
    exact hall x hx
  · rw [named_snd] at hmax
    rw [named_getElem?, hmax.get] at hget
    injection hget with hget
    exact .inr ⟨i, x.2, hmax, hlt, hend.trans hget.symm⟩

/-- From its first element on, a scan ends at the first of the largest. -/
theorem pick_named_head (name : ℕ → ι) (v : F) (vs : List F) :
    ∃ i w, IsFirstMax (v :: vs) i w ∧ pick (name 0, v) (named name 1 vs) = (name i, w) := by
  rcases pick_named_cases name 1 (name 0, v) vs with ⟨hstay, hall⟩ | ⟨i, w, hmax, hlt, hend⟩
  · exact ⟨0, v, IsFirstMax.head hall, hstay⟩
  · rw [Nat.add_comm] at hend
    exact ⟨i + 1, w, hmax.tail hlt, hend⟩

end LayerSkip.FirstMax
