import Mathlib.Data.List.Sort
import Mathlib.Order.Lattice

/-!
# Keeping the best

The first elements of a sorted list are found without sorting all of it: each element is inserted into
those kept so far, and what is then too much is dropped. Elements with an index and a value are sorted by
their value, largest first, and equal values by their index.
-/

namespace LayerSkip.StableSelection

section Keep

variable {α : Type} (r : α → α → Prop) [DecidableRel r]

/-- Insert an element among the best and keep so many of them. -/
def keep (k : ℕ) (best : List α) (x : α) : List α := (best.orderedInsert r x).take k

theorem take_orderedInsert_take (k : ℕ) (x : α) (l : List α) :
    ((l.take k).orderedInsert r x).take k = (l.orderedInsert r x).take k := by
  induction l generalizing k with
  | nil => simp
  | cons y l ih =>
    cases k with
    | zero => simp
    | succ k =>
      rw [List.take_succ_cons, List.orderedInsert_cons, List.orderedInsert_cons]
      split
      · cases k with
        | zero => simp
        | succ k => simp [List.take_take]
      · rw [List.take_succ_cons, List.take_succ_cons, ih k]

/-- Keeping the best at every step is keeping the best at the end. -/
theorem foldl_keep (k : ℕ) (l best : List α) :
    l.foldl (keep r k) (best.take k) =
      (l.foldl (fun sorted x => sorted.orderedInsert r x) best).take k := by
  induction l generalizing best with
  | nil => exact Eq.refl _
  | cons x l ih =>
    rw [List.foldl_cons, List.foldl_cons, ← ih, keep, take_orderedInsert_take]

variable {r} in
/-- Insertion depends on the order of the new element to the others alone. -/
theorem orderedInsert_congr {q : α → α → Prop} [DecidableRel q] {x : α} {l : List α}
    (h : ∀ y ∈ l, r x y ↔ q x y) : l.orderedInsert r x = l.orderedInsert q x := by
  induction l with
  | nil => exact Eq.refl _
  | cons y l ih =>
    have hy := h y List.mem_cons_self
    rw [List.orderedInsert_cons, List.orderedInsert_cons,
      ih fun z hz => h z (List.mem_cons_of_mem y hz)]
    simp only [hy]

variable {r} in
theorem orderedInsert_append_singleton {x z : α} {l : List α} (h : r x z) :
    (l ++ [z]).orderedInsert r x = l.orderedInsert r x ++ [z] := by
  induction l with
  | nil => simp [h]
  | cons y l ih =>
    rw [List.cons_append, List.orderedInsert_cons, List.orderedInsert_cons, ih]
    split <;> simp

variable {r} in
/-- An element before the last that is kept replaces it. -/
theorem keep_append_singleton {x z : α} {l : List α} (h : r x z) :
    keep r (l.length + 1) (l ++ [z]) x = l.orderedInsert r x := by
  have hlength := List.orderedInsert_length r l x
  rw [keep, orderedInsert_append_singleton h, ← hlength, List.take_left]

theorem foldl_orderedInsert_perm (l best : List α) :
    (l.foldl (fun sorted x => sorted.orderedInsert r x) best).Perm (l ++ best) := by
  induction l generalizing best with
  | nil => exact List.Perm.refl _
  | cons x l ih =>
    have hinsert := (List.perm_orderedInsert r x best).append_left l
    exact (ih _).trans (hinsert.trans List.perm_middle)

variable [Std.Total r] [IsTrans α r]

theorem foldl_orderedInsert_pairwise (l : List α) {best : List α} (h : best.Pairwise r) :
    (l.foldl (fun sorted x => sorted.orderedInsert r x) best).Pairwise r := by
  induction l generalizing best with
  | nil => exact h
  | cons x l ih => exact ih (h.orderedInsert x best)

variable [Std.Antisymm r]

/-- The elements may be inserted from the front. -/
theorem foldl_orderedInsert (l : List α) :
    l.foldl (fun sorted x => sorted.orderedInsert r x) [] = l.insertionSort r := by
  have hperm := foldl_orderedInsert_perm r l []
  rw [List.append_nil] at hperm
  exact (hperm.trans (List.perm_insertionSort r l).symm).eq_of_pairwise'
    (foldl_orderedInsert_pairwise r l List.Pairwise.nil) (List.pairwise_insertionSort r l)

/-- Keeping the best finds the first of the sorted list. -/
theorem foldl_keep_nil (k : ℕ) (l : List α) :
    l.foldl (keep r k) [] = (l.insertionSort r).take k := by
  have h := foldl_keep r k l []
  rw [List.take_nil, foldl_orderedInsert] at h
  exact h

variable {r} {l : List α} {x : α}

/-- An element is inserted behind those before it and before those behind it. -/
theorem orderedInsert_eq_split (hl : l.Pairwise r) {p : ℕ} (hfront : ∀ y ∈ l.take p, r y x)
    (hback : ∀ y ∈ l.drop p, r x y) : l.orderedInsert r x = l.take p ++ x :: l.drop p := by
  have hsplit := List.pairwise_append.mp ((List.take_append_drop p l).symm ▸ hl)
  have hperm : (l.orderedInsert r x).Perm (l.take p ++ x :: l.drop p) := by
    have hcons := (List.perm_orderedInsert r x l).trans
      (List.Perm.of_eq (by rw [List.take_append_drop p l] : x :: l = x :: (l.take p ++ l.drop p)))
    exact hcons.trans List.perm_middle.symm
  apply hperm.eq_of_pairwise' (hl.orderedInsert x l)
  apply List.pairwise_append.mpr
  refine ⟨hsplit.1, List.pairwise_cons.mpr ⟨hback, hsplit.2.1⟩, ?_⟩
  intro y hy z hz
  cases List.mem_cons.mp hz with
  | inl heq => exact heq ▸ hfront y hy
  | inr hin => exact hsplit.2.2 y hy z hin

/-- An element behind all that are kept is dropped. -/
theorem keep_of_full {k : ℕ} (hl : l.Pairwise r) (hfull : l.length = k) (h : ∀ y ∈ l, r y x) :
    keep r k l x = l := by
  have hinsert : l.orderedInsert r x = l.take l.length ++ x :: l.drop l.length :=
    orderedInsert_eq_split hl (by simpa using h) (by simp)
  rw [keep, hinsert, List.take_length, ← hfull]
  simp

/-- The first of a sorted list is before all. -/
theorem take_one_insertionSort (hx : x ∈ l) (h : ∀ y ∈ l, r x y) :
    (l.insertionSort r).take 1 = [x] := by
  have hsorted := List.pairwise_insertionSort r l
  have hmem := (List.mem_insertionSort r).mpr hx
  have hall : ∀ y ∈ l.insertionSort r, r x y := fun y hy => h y ((List.mem_insertionSort r).mp hy)
  cases heq : l.insertionSort r with
  | nil =>
    rw [heq] at hmem
    cases hmem
  | cons y ys =>
    rw [heq] at hmem hsorted hall
    have hyx : r y x := by
      cases List.mem_cons.mp hmem with
      | inl h => exact h ▸ hall x (h ▸ List.mem_cons_self)
      | inr hin => exact (List.pairwise_cons.mp hsorted).1 x hin
    rw [antisymm (hall y List.mem_cons_self) hyx]
    simp

end Keep

section Ranked

variable {F : Type} [LinearOrder F]

/-- Order of elements with an index and a value. -/
def Precedes (x y : ℕ × F) : Prop := y.2 < x.2 ∨ x.2 = y.2 ∧ x.1 ≤ y.1

instance : DecidableRel (Precedes (F := F)) := fun x y =>
  inferInstanceAs (Decidable (y.2 < x.2 ∨ x.2 = y.2 ∧ x.1 ≤ y.1))

instance : Std.Total (Precedes (F := F)) where
  total x y := by
    rcases lt_trichotomy x.2 y.2 with h | h | h
    · exact .inr (.inl h)
    · rcases Nat.le_total x.1 y.1 with hle | hle
      · exact .inl (.inr ⟨h, hle⟩)
      · exact .inr (.inr ⟨h.symm, hle⟩)
    · exact .inl (.inl h)

instance : IsTrans (ℕ × F) Precedes where
  trans x y z hxy hyz := by
    rcases hxy with hxy | ⟨hxy, hle⟩
    · rcases hyz with hyz | ⟨hyz, _⟩
      · exact .inl (hyz.trans hxy)
      · exact .inl (hyz ▸ hxy)
    · rcases hyz with hyz | ⟨hyz, hle'⟩
      · exact .inl (hxy ▸ hyz)
      · exact .inr ⟨hxy.trans hyz, hle.trans hle'⟩

instance : Std.Antisymm (Precedes (F := F)) where
  antisymm x y hxy hyx := by
    rcases hxy with hxy | ⟨hxy, hle⟩
    · rcases hyx with hyx | ⟨hyx, _⟩
      · exact absurd hxy (lt_asymm hyx)
      · exact absurd hxy (hyx ▸ lt_irrefl _)
    · rcases hyx with hyx | ⟨_, hle'⟩
      · exact absurd hyx (hxy ▸ lt_irrefl _)
      · exact Prod.ext (Nat.le_antisymm hle hle') hxy

theorem Precedes.value_le {x y : ℕ × F} (h : Precedes x y) : y.2 ≤ x.2 := by
  cases h with
  | inl hlt => exact le_of_lt hlt
  | inr heq => exact heq.1 ▸ le_refl _

/-- Values of a sorted list do not grow. -/
theorem value_le_of_pairwise {l : List (ℕ × F)} (h : l.Pairwise Precedes) {a b : ℕ} {x y : ℕ × F}
    (hx : l[a]? = some x) (hy : l[b]? = some y) (hab : a ≤ b) : y.2 ≤ x.2 := by
  rcases Nat.lt_or_eq_of_le hab with hlt | heq
  · obtain ⟨ha, hgeta⟩ := List.getElem?_eq_some_iff.mp hx
    obtain ⟨hb, hgetb⟩ := List.getElem?_eq_some_iff.mp hy
    have hprecedes := List.pairwise_iff_getElem.mp h a b ha hb hlt
    rw [hgeta, hgetb] at hprecedes
    exact hprecedes.value_le
  · rw [heq, hy] at hx
    injection hx with hx
    exact hx ▸ le_refl _

/-- A later element precedes an earlier one when its value is larger. -/
theorem precedes_of_later {x y : ℕ × F} (h : y.1 < x.1) : Precedes x y ↔ y.2 < x.2 := by
  unfold Precedes
  constructor
  · intro hor
    cases hor with
    | inl hlt => exact hlt
    | inr hle => exact absurd hle.2 (Nat.not_le_of_lt h)
  · exact Or.inl

/-- An earlier element precedes a later one when its value is not smaller. -/
theorem precedes_of_earlier {x y : ℕ × F} (h : x.1 < y.1) : Precedes x y ↔ y.2 ≤ x.2 := by
  unfold Precedes
  constructor
  · intro hor
    cases hor with
    | inl hlt => exact le_of_lt hlt
    | inr hle => exact hle.1 ▸ le_refl _
  · intro hle
    rcases lt_or_eq_of_le hle with hlt | heq
    · exact Or.inl hlt
    · exact Or.inr ⟨heq.symm, Nat.le_of_lt h⟩

theorem keep_earlier {k : ℕ} {best : List (ℕ × F)} {x : ℕ × F} (h : ∀ y ∈ best, y.1 < x.1) :
    ∀ y ∈ keep Precedes k best x, y.1 < x.1 + 1 := by
  intro y hy
  cases (List.mem_orderedInsert Precedes).mp (List.mem_of_mem_take hy) with
  | inl heq =>
    rw [heq]
    exact Nat.lt_succ_self x.1
  | inr hin => exact Nat.lt_succ_of_lt (h y hin)

/-- A later element that is not larger than the last is behind all. -/
theorem precedes_of_le_last {best : List (ℕ × F)} {x last : ℕ × F}
    (hsorted : (best ++ [last]).Pairwise Precedes) (hlater : ∀ y ∈ best ++ [last], y.1 < x.1)
    (hle : x.2 ≤ last.2) : ∀ y ∈ best ++ [last], Precedes y x := by
  intro y hy
  obtain ⟨j, hj⟩ := List.mem_iff_getElem?.mp hy
  have hlast : (best ++ [last])[best.length]? = some last := by
    rw [List.getElem?_append_right (Nat.le_refl _), Nat.sub_self, List.getElem?_cons_zero]
  have hlength := (List.getElem?_eq_some_iff.mp hj).1
  rw [List.length_append, List.length_singleton] at hlength
  rw [precedes_of_earlier (hlater y hy)]
  exact hle.trans (value_le_of_pairwise hsorted hj hlast (by omega))

end Ranked

end LayerSkip.StableSelection
