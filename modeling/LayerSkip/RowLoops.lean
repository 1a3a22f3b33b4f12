import Mathlib.Data.List.Nodup
import Mathlib.Data.List.ProdSigma
import Mathlib.Data.Set.Function
import LayerSkip.EqualPieces

/-!
# Loops that store rows of buffers

A buffer is a row after another, all with the same number of values. A loop stores one row in each
turn. When no two turns have the same row, and a turn reads of the buffer only its own row, every
row ends up as if its turn had been the only one.
-/

namespace LayerSkip.RowLoops

open EqualPieces

variable {B V ι : Type*} [DecidableEq B]

/-- A row of a buffer whose rows have `x` values. -/
def rowOf (m : B → ℕ → V) (buffer : B) (x row : ℕ) : ℕ → V := fun i => m buffer (row * x + i)

/-- Store a row. -/
def storeRow (m : B → ℕ → V) (buffer : B) (x row : ℕ) (values : ℕ → V) : B → ℕ → V :=
  Function.update m buffer fun l =>
    if row * x ≤ l ∧ l < row * x + x then values (l - row * x) else m buffer l

/-- A loop that stores a row in each turn. -/
def storeRows (m : B → ℕ → V) (buffer : B) (x : ℕ) (row : ι → ℕ)
    (value : (B → ℕ → V) → ι → ℕ → V) (turns : List ι) : B → ℕ → V :=
  turns.foldl (fun m t => storeRow m buffer x (row t) (value m t)) m

/-- A loop that stores a row in each of two buffers in each turn. -/
def storePairs (m : B → ℕ → V) (first : B) (x : ℕ) (row : ι → ℕ)
    (value : (B → ℕ → V) → ι → ℕ → V) (second : B) (x' : ℕ) (row' : ι → ℕ)
    (value' : (B → ℕ → V) → ι → ℕ → V) (turns : List ι) : B → ℕ → V :=
  turns.foldl (fun m t =>
    storeRow (storeRow m first x (row t) (value m t)) second x' (row' t) (value' m t)) m

/-- What a turn stores comes from its own row, from rows of no turn and from other buffers. -/
def OwnRow (buffer : B) (x : ℕ) (row : ι → ℕ) (value : (B → ℕ → V) → ι → ℕ → V)
    (turns : List ι) : Prop :=
  ∀ m m' t, t ∈ turns → (∀ b ≠ buffer, m' b = m b) →
    (∀ row', (∀ s ∈ turns, row s = row' → s = t) →
      ∀ i < x, rowOf m' buffer x row' i = rowOf m buffer x row' i) →
        ∀ i < x, value m' t i = value m t i

section Rows

variable {buffer : B} {x : ℕ} {m : B → ℕ → V}

omit [DecidableEq B] in
theorem rowOf_congr {m m' : B → ℕ → V} (h : m' buffer = m buffer) (row : ℕ) :
    rowOf m' buffer x row = rowOf m buffer x row := by
  unfold rowOf
  rw [h]

theorem rowOf_storeRow (m : B → ℕ → V) (buffer : B) (row : ℕ) (values : ℕ → V) {i : ℕ}
    (hi : i < x) : rowOf (storeRow m buffer x row values) buffer x row i = values i := by
  have hinside : row * x ≤ row * x + i ∧ row * x + i < row * x + x := by omega
  unfold rowOf storeRow
  rw [Function.update_self, if_pos hinside, Nat.add_sub_cancel_left]

theorem rowOf_storeRow_of_ne (m : B → ℕ → V) (buffer : B) {row row' : ℕ} (hrow : row' ≠ row)
    (values : ℕ → V) {i : ℕ} (hi : i < x) :
    rowOf (storeRow m buffer x row values) buffer x row' i = rowOf m buffer x row' i := by
  have houtside : ¬(row * x ≤ row' * x + i ∧ row' * x + i < row * x + x) := by
    intro h
    have hplace : row' * x + i - row * x < x := by omega
    have hsame : row' * x + i = row * x + (row' * x + i - row * x) := by omega
    exact hrow (index_inj hi hplace hsame).1
  unfold rowOf storeRow
  rw [Function.update_self, if_neg houtside]

theorem storeRow_of_ne (m : B → ℕ → V) {buffer buffer' : B} (h : buffer' ≠ buffer) (row : ℕ)
    (values : ℕ → V) : storeRow m buffer x row values buffer' = m buffer' :=
  Function.update_of_ne h _ m

end Rows

section Loops

variable {buffer : B} {x : ℕ} {row : ι → ℕ} {value : (B → ℕ → V) → ι → ℕ → V} {turns : List ι}

theorem storeRows_append (m : B → ℕ → V) (before after : List ι) :
    storeRows m buffer x row value (before ++ after) =
      storeRows (storeRows m buffer x row value before) buffer x row value after :=
  List.foldl_append

/-- A loop leaves other buffers. -/
theorem storeRows_of_ne (m : B → ℕ → V) {buffer' : B} (h : buffer' ≠ buffer) :
    storeRows m buffer x row value turns buffer' = m buffer' := by
  induction turns generalizing m with
  | nil => exact Eq.refl _
  | cons t turns ih =>
    have hrest := ih (storeRow m buffer x (row t) (value m t))
    exact hrest.trans (storeRow_of_ne m h _ _)

/-- A loop leaves the rows that are of no turn. -/
theorem storeRows_of_notMem (m : B → ℕ → V) {row' : ℕ} (h : ∀ t ∈ turns, row t ≠ row') {i : ℕ}
    (hi : i < x) :
    rowOf (storeRows m buffer x row value turns) buffer x row' i = rowOf m buffer x row' i := by
  induction turns generalizing m with
  | nil => exact Eq.refl _
  | cons t turns ih =>
    have hrest := ih (storeRow m buffer x (row t) (value m t)) fun s hs =>
      h s (List.mem_cons_of_mem t hs)
    have hfirst : row' ≠ row t := (h t List.mem_cons_self).symm
    exact hrest.trans (rowOf_storeRow_of_ne m buffer hfirst _ hi)

/-- A row of a turn is as if the turn had been the only one. -/
theorem storeRows_row (m : B → ℕ → V) (hown : OwnRow buffer x row value turns)
    (hturns : turns.Nodup) (hrows : Set.InjOn row {t | t ∈ turns}) {t : ι} (ht : t ∈ turns) {i : ℕ}
    (hi : i < x) :
    rowOf (storeRows m buffer x row value turns) buffer x (row t) i = value m t i := by
  have hpart : ∀ part : List ι, part.Nodup → (∀ s ∈ part, s ∈ turns) → ∀ m : B → ℕ → V, t ∈ part →
      rowOf (storeRows m buffer x row value part) buffer x (row t) i = value m t i := by
    intro part hnodup hsub
    induction part with
    | nil =>
      intro m hmem
      cases hmem
    | cons first part ih =>
      intro m hmem
      obtain ⟨hnew, hrest⟩ := List.nodup_cons.mp hnodup
      have hfirst : first ∈ turns := hsub first List.mem_cons_self
      have hothers : ∀ s ∈ part, row s ≠ row first := by
        intro s hs hsame
        have heq := hrows (hsub s (List.mem_cons_of_mem first hs)) hfirst hsame
        exact hnew (heq ▸ hs)
      cases List.mem_cons.mp hmem with
      | inl hnow =>
        rw [hnow]
        have hkept : rowOf (storeRows m buffer x row value (first :: part)) buffer x (row first) i =
            rowOf (storeRow m buffer x (row first) (value m first)) buffer x (row first) i :=
          storeRows_of_notMem _ hothers hi
        exact hkept.trans (rowOf_storeRow m buffer (row first) _ hi)
      | inr hlater =>
        have hdone := ih hrest (fun s hs => hsub s (List.mem_cons_of_mem first hs))
          (storeRow m buffer x (row first) (value m first)) hlater
        have hsame := hown m (storeRow m buffer x (row first) (value m first)) t ht
          (fun b hb => storeRow_of_ne m hb _ _)
          (fun row' hfree j hj => by
            have hne : row' ≠ row first := by
              intro hrow
              have heq := hfree first hfirst hrow.symm
              exact hnew (heq ▸ hlater)
            exact rowOf_storeRow_of_ne m buffer hne _ hj) i hi
        exact hdone.trans hsame
  exact hpart turns hturns (fun s hs => hs) m ht

omit [DecidableEq B] in
/-- A loop whose turns read other buffers only. -/
theorem ownRow_of_others
    (h : ∀ m m' t, (∀ b ≠ buffer, m' b = m b) → ∀ i < x, value m' t i = value m t i) :
    OwnRow buffer x row value turns := by
  intro m m' t _ hothers _
  exact h m m' t hothers

omit [DecidableEq B] in
/-- A loop whose turns read other buffers and their own rows. -/
theorem ownRow_of_own (hrows : Set.InjOn row {t | t ∈ turns})
    (h : ∀ m m' t, (∀ b ≠ buffer, m' b = m b) →
      (∀ i < x, rowOf m' buffer x (row t) i = rowOf m buffer x (row t) i) →
        ∀ i < x, value m' t i = value m t i) :
    OwnRow buffer x row value turns := by
  intro m m' t ht hothers hfree
  apply h m m' t hothers
  apply hfree
  intro s hs hsame
  exact hrows hs ht hsame

end Loops

section Pairs

variable {first second : B} {x x' : ℕ} {row row' : ι → ℕ}
  {value value' : (B → ℕ → V) → ι → ℕ → V} {turns : List ι}

theorem storeRow_comm (m : B → ℕ → V) (h : first ≠ second) (r r' : ℕ) (values values' : ℕ → V) :
    storeRow (storeRow m first x r values) second x' r' values' =
      storeRow (storeRow m second x' r' values') first x r values := by
  unfold storeRow
  rw [Function.update_of_ne h.symm, Function.update_of_ne h, Function.update_comm h]

/-- A loop over one buffer does not notice a store in another one. -/
theorem storeRows_storeRow (m : B → ℕ → V) (h : first ≠ second)
    (hvalue : ∀ m m' t, (∀ b, b ≠ first → b ≠ second → m' b = m b) → value m' t = value m t)
    (r' : ℕ) (values' : ℕ → V) :
    storeRows (storeRow m second x' r' values') first x row value turns =
      storeRow (storeRows m first x row value turns) second x' r' values' := by
  induction turns generalizing m with
  | nil => exact Eq.refl _
  | cons t turns ih =>
    have hsame : value (storeRow m second x' r' values') t = value m t :=
      hvalue m _ t fun b _ hb => storeRow_of_ne m hb r' values'
    have hstep : storeRows (storeRow m second x' r' values') first x row value (t :: turns) =
        storeRows (storeRow (storeRow m second x' r' values') first x (row t)
          (value (storeRow m second x' r' values') t)) first x row value turns := Eq.refl _
    rw [hstep, hsame, ← storeRow_comm m h, ih]
    exact Eq.refl _

/-- A loop over two buffers is a loop over one and then one over the other, when what it stores
comes from neither. -/
theorem storePairs_eq (m : B → ℕ → V) (h : first ≠ second)
    (hvalue : ∀ m m' t, (∀ b, b ≠ first → b ≠ second → m' b = m b) → value m' t = value m t)
    (hvalue' : ∀ m m' t, (∀ b, b ≠ first → b ≠ second → m' b = m b) → value' m' t = value' m t) :
    storePairs m first x row value second x' row' value' turns =
      storeRows (storeRows m first x row value turns) second x' row' value' turns := by
  induction turns generalizing m with
  | nil => exact Eq.refl _
  | cons t turns ih =>
    have hstep : storePairs m first x row value second x' row' value' (t :: turns) =
        storePairs (storeRow (storeRow m first x (row t) (value m t)) second x' (row' t)
          (value' m t)) first x row value second x' row' value' turns := Eq.refl _
    have hrows : storeRows m first x row value (t :: turns) =
        storeRows (storeRow m first x (row t) (value m t)) first x row value turns := Eq.refl _
    have hlast : value' (storeRows m first x row value (t :: turns)) t = value' m t :=
      hvalue' m _ t fun b hb _ => storeRows_of_ne m hb
    have hrows' : storeRows (storeRows m first x row value (t :: turns)) second x' row' value'
          (t :: turns) =
        storeRows (storeRow (storeRows m first x row value (t :: turns)) second x' (row' t)
          (value' (storeRows m first x row value (t :: turns)) t)) second x' row' value' turns :=
      Eq.refl _
    rw [hstep, ih, hrows', hlast, hrows, storeRows_storeRow _ h hvalue]

end Pairs

section Turns

/-- Turns of two loops, one in the other. -/
theorem nodup_turns (outer inner : ℕ) : (List.range outer ×ˢ List.range inner).Nodup :=
  List.nodup_range.product List.nodup_range

theorem mem_turns {outer inner : ℕ} {t : ℕ × ℕ} :
    t ∈ List.range outer ×ˢ List.range inner ↔ t.1 < outer ∧ t.2 < inner := by
  rw [List.mem_product, List.mem_range, List.mem_range]

/-- Rows of layers of `y` rows, of which the first ones are used. -/
theorem injOn_rows {z batchSize y : ℕ} (hbatch : batchSize ≤ y) :
    Set.InjOn (fun t : ℕ × ℕ => t.1 * y + t.2) {t | t ∈ List.range z ×ˢ List.range batchSize} := by
  intro t ht s hs hsame
  have htbound := (mem_turns.mp ht).2
  have hsbound := (mem_turns.mp hs).2
  obtain ⟨hfirst, hsecond⟩ := index_inj (by omega) (by omega) hsame
  exact Prod.ext hfirst hsecond

/-- The same rows, visited row by row. -/
theorem injOn_rows_swap {z batchSize y : ℕ} (hbatch : batchSize ≤ y) :
    Set.InjOn (fun t : ℕ × ℕ => t.2 * y + t.1) {t | t ∈ List.range batchSize ×ˢ List.range z} := by
  intro t ht s hs hsame
  have htbound := (mem_turns.mp ht).1
  have hsbound := (mem_turns.mp hs).1
  obtain ⟨hsecond, hfirst⟩ := index_inj (by omega) (by omega) hsame
  exact Prod.ext hfirst hsecond

end Turns

end LayerSkip.RowLoops
