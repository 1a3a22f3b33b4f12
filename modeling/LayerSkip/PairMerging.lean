import Mathlib.Data.Nat.Notation
import Mathlib.Logic.Relation
import Mathlib.Order.Defs.LinearOrder
import Mathlib.Order.Lattice

/-!
# Merging neighbours

A list in which two neighbours are joined as long as any can be: those whose join scores best, and the first
of them if there are several. What the items spell is kept when it is kept by a join, and the first item stays
exactly as long as it never takes part in the best join.
-/

namespace LayerSkip.PairMerging

variable {α F : Type} [LinearOrder F] {join : α → α → Option α} {score : α → F}

/-- Neighbours. -/
def Adjacent (items : List α) (x y : α) : Prop := [x, y] <:+: items

/-- No neighbours can be joined. -/
def Irreducible (join : α → α → Option α) (items : List α) : Prop :=
  ∀ x y, Adjacent items x y → join x y = none

/-- The neighbours whose join scores best, the first of several, are joined. -/
structure BestMerge (join : α → α → Option α) (score : α → F) (items next : List α) : Prop where
  /-- The neighbours before score less, and those behind do not score more. -/
  form : ∃ front x y z back, items = front ++ x :: y :: back ∧ next = front ++ z :: back ∧
    join x y = some z ∧
    (∀ u v w, Adjacent (front ++ [x]) u v → join u v = some w → score w < score z) ∧
    ∀ u v w, Adjacent (y :: back) u v → join u v = some w → score w ≤ score z

/-- An item before others is joined with the first of them. -/
structure TakesFirst (join : α → α → Option α) (score : α → F) (first : α) (rest : List α) : Prop where
  /-- No neighbours among the others score more. -/
  form : ∃ x back z, rest = x :: back ∧ join first x = some z ∧
    ∀ u v w, Adjacent rest u v → join u v = some w → score w ≤ score z

section Adjacent

variable {a b x y : α} {items : List α}

@[simp] theorem not_adjacent_nil : ¬Adjacent [] x y := by
  simp [Adjacent]

@[simp] theorem not_adjacent_singleton : ¬Adjacent [a] x y := by
  simp [Adjacent, List.infix_cons_iff]

@[simp] theorem adjacent_cons_cons :
    Adjacent (a :: b :: items) x y ↔ x = a ∧ y = b ∨ Adjacent (b :: items) x y := by
  simp [Adjacent, List.infix_cons_iff, List.cons_prefix_cons]

theorem Adjacent.cons (h : Adjacent items x y) (a : α) : Adjacent (a :: items) x y :=
  List.infix_cons_iff.mpr (Or.inr h)

/-- Neighbours up to an item of a list that has one before it. -/
theorem adjacent_cons_front {c : α} {front back : List α} (h : b :: items = front ++ c :: back) :
    Adjacent (a :: (front ++ [c])) x y ↔ x = a ∧ y = b ∨ Adjacent (front ++ [c]) x y := by
  cases front with
  | nil =>
    injection h with hb _
    rw [hb, List.nil_append, adjacent_cons_cons]
  | cons d front =>
    injection h with hb _
    rw [hb, List.cons_append, adjacent_cons_cons]

theorem adjacent_middle (front back : List α) (x y : α) : Adjacent (front ++ x :: y :: back) x y :=
  ⟨front, back, by simp⟩

end Adjacent

section Merge

variable {items next : List α}

theorem BestMerge.length_eq (h : BestMerge join score items next) : items.length = next.length + 1 := by
  obtain ⟨front, x, y, z, back, hitems, hnext, _⟩ := h.form
  rw [hitems, hnext]
  simp only [List.length_append, List.length_cons]
  omega

/-- What the items spell. -/
theorem BestMerge.flatMap_eq {β : Type} {spell : α → List β}
    (hjoin : ∀ x y z, join x y = some z → spell z = spell x ++ spell y)
    (h : BestMerge join score items next) : next.flatMap spell = items.flatMap spell := by
  obtain ⟨front, x, y, z, back, hitems, hnext, hz, _⟩ := h.form
  rw [hitems, hnext]
  simp [hjoin x y z hz]

theorem BestMerge.not_irreducible (h : BestMerge join score items next) : ¬Irreducible join items := by
  intro hnone
  obtain ⟨front, x, y, z, back, hitems, _, hz, _⟩ := h.form
  have hjoin := hnone x y (hitems ▸ adjacent_middle front back x y)
  rw [hz] at hjoin
  cases hjoin

/-- An item before others is joined, or one of them is. -/
theorem bestMerge_cons {first : α} {rest : List α} (h : BestMerge join score (first :: rest) next) :
    (TakesFirst join score first rest ∧
      ∃ x z back, rest = x :: back ∧ join first x = some z ∧ next = z :: back) ∨
      ¬TakesFirst join score first rest ∧ ∃ rest', BestMerge join score rest rest' ∧
        next = first :: rest' := by
  obtain ⟨front, x, y, z, back, hitems, hnext, hz, hbefore, hbehind⟩ := h.form
  cases front with
  | nil =>
    injection hitems with hfirst hrest
    left
    constructor
    · refine ⟨y, back, z, hrest, by rw [hfirst]; exact hz, ?_⟩
      rw [hrest]
      exact hbehind
    · exact ⟨y, z, back, hrest, by rw [hfirst]; exact hz, hnext⟩
  | cons a front =>
    injection hitems with hfirst hrest
    right
    constructor
    · intro htakes
      obtain ⟨b, others, w, hb, hw, hmost⟩ := htakes.form
      have hle := hmost x y z (hrest ▸ adjacent_middle front back x y) hz
      have hadjacent : Adjacent (a :: (front ++ [x])) first b := by
        rw [adjacent_cons_front (hb.symm.trans hrest), hfirst]
        exact Or.inl ⟨Eq.refl _, Eq.refl _⟩
      have hlt := hbefore first b w hadjacent hw
      exact absurd hle (not_le_of_gt hlt)
    · refine ⟨front ++ z :: back, ⟨front, x, y, z, back, hrest, Eq.refl _, hz, ?_, hbehind⟩, ?_⟩
      · intro u v w hadjacent hw
        exact hbefore u v w (hadjacent.cons a) hw
      · rw [hnext, hfirst]
        exact Eq.refl _

/-- There is one list that a merge can lead to. -/
theorem bestMerge_unique {next' : List α} (h : BestMerge join score items next)
    (h' : BestMerge join score items next') : next = next' := by
  induction items generalizing next next' with
  | nil =>
    have hlength := h.length_eq
    simp at hlength
  | cons first rest ih =>
    cases bestMerge_cons h with
    | inl htakes =>
      obtain ⟨htakes, x, z, back, hrest, hz, hnext⟩ := htakes
      cases bestMerge_cons h' with
      | inl htakes' =>
        obtain ⟨_, x', z', back', hrest', hz', hnext'⟩ := htakes'
        rw [hrest] at hrest'
        cases hrest'
        rw [hz] at hz'
        cases hz'
        rw [hnext, hnext']
      | inr hleaves' => exact absurd htakes hleaves'.1
    | inr hleaves =>
      obtain ⟨hleaves, rest₁, hmerge, hnext⟩ := hleaves
      cases bestMerge_cons h' with
      | inl htakes' => exact absurd htakes'.1 hleaves
      | inr hleaves' =>
        obtain ⟨_, rest₂, hmerge', hnext'⟩ := hleaves'
        rw [hnext, hnext', ih hmerge hmerge']

/-- The first item of a list that a merge led to. -/
theorem BestMerge.head_ne {first : α} (hfirst : ∀ x y, join x y ≠ some first) {a : α} {rest : List α}
    (h : BestMerge join score (a :: rest) next) (ha : a ≠ first) :
    ∃ b back, next = b :: back ∧ b ≠ first := by
  cases bestMerge_cons h with
  | inl htakes =>
    obtain ⟨_, x, z, back, _, hz, hnext⟩ := htakes
    refine ⟨z, back, hnext, fun heq => ?_⟩
    rw [heq] at hz
    exact hfirst a x hz
  | inr hleaves =>
    obtain ⟨_, rest', _, hnext⟩ := hleaves
    exact ⟨a, rest', hnext, ha⟩

end Merge

/-- Lists that merges lead to. -/
def Merges (join : α → α → Option α) (score : α → F) : List α → List α → Prop :=
  Relation.ReflTransGen (BestMerge join score)

/-- An item before others is never in the best join. -/
def Stays (join : α → α → Option α) (score : α → F) (first : α) (rest : List α) : Prop :=
  ∀ rest', Merges join score rest rest' → ¬TakesFirst join score first rest'

/-- Repeat a step until there is none. -/
def run (step : List α → Option (List α)) : ℕ → List α → List α
  | 0, items => items
  | n + 1, items =>
    match step items with
    | none => items
    | some next => run step n next

/-- A step that merges. -/
structure IsMerger (join : α → α → Option α) (score : α → F) (step : List α → Option (List α)) : Prop where
  /-- It takes the best join. -/
  some : ∀ items next, step items = some next → BestMerge join score items next
  /-- There is none only if there is no join. -/
  none : ∀ items, step items = none → Irreducible join items

section Run

variable {step : List α → Option (List α)} (hstep : IsMerger join score step)

include hstep

/-- A run of so many steps as there are items ends when nothing can be joined. -/
theorem run_irreducible {n : ℕ} {items : List α} (hn : items.length ≤ n) :
    Irreducible join (run step n items) := by
  induction n generalizing items with
  | zero =>
    rw [List.eq_nil_of_length_eq_zero (Nat.le_zero.mp hn)]
    intro x y h
    exact absurd h not_adjacent_nil
  | succ n ih =>
    rw [run]
    cases h : step items with
    | none => exact hstep.none items h
    | some next =>
      have hlength := (hstep.some items next h).length_eq
      exact ih (by omega)

theorem run_merges (n : ℕ) (items : List α) : Merges join score items (run step n items) := by
  induction n generalizing items with
  | zero => exact Relation.ReflTransGen.refl
  | succ n ih =>
    rw [run]
    cases h : step items with
    | none => exact Relation.ReflTransGen.refl
    | some next => exact (ih next).head (hstep.some items next h)

omit hstep in
theorem Merges.length_le {items items' : List α} (h : Merges join score items items') :
    items'.length ≤ items.length := by
  induction h with
  | refl => exact Nat.le_refl _
  | tail _ hmerge ih =>
    have hlength := hmerge.length_eq
    omega

omit hstep in
theorem Merges.flatMap_eq {β : Type} {spell : α → List β}
    (hjoin : ∀ x y z, join x y = some z → spell z = spell x ++ spell y) {items items' : List α}
    (h : Merges join score items items') : items'.flatMap spell = items.flatMap spell := by
  induction h with
  | refl => exact Eq.refl _
  | tail _ hmerge ih => rw [hmerge.flatMap_eq hjoin, ih]

/-- A first item that stays, and what the others are merged to. -/
theorem run_of_stays {first : α} {rest : List α} (h : Stays join score first rest) (n : ℕ) :
    ∃ final, run step n (first :: rest) = first :: final ∧ Merges join score rest final := by
  induction n generalizing rest with
  | zero => exact ⟨rest, Eq.refl _, Relation.ReflTransGen.refl⟩
  | succ n ih =>
    rw [run]
    cases hnext : step (first :: rest) with
    | none => exact ⟨rest, Eq.refl _, Relation.ReflTransGen.refl⟩
    | some next =>
      cases bestMerge_cons (hstep.some _ next hnext) with
      | inl htakes => exact absurd htakes.1 (h rest Relation.ReflTransGen.refl)
      | inr hleaves =>
        obtain ⟨_, rest', hmerge, heq⟩ := hleaves
        obtain ⟨final, hrun, hfinal⟩ := ih fun other hother => h other (hother.head hmerge)
        exact ⟨final, by rw [heq]; exact hrun, hfinal.head hmerge⟩

variable {first : α} (hfirst : ∀ x y, join x y ≠ some first)

include hfirst

/-- An item that is no join does not come back. -/
theorem run_head_ne {a : α} {rest : List α} (ha : a ≠ first) (n : ℕ) (final : List α) :
    run step n (a :: rest) ≠ first :: final := by
  induction n generalizing a rest with
  | zero =>
    intro h
    injection h with h _
    exact ha h
  | succ n ih =>
    rw [run]
    cases hnext : step (a :: rest) with
    | none =>
      intro h
      injection h with h _
      exact ha h
    | some next =>
      obtain ⟨b, back, heq, hb⟩ := (hstep.some _ next hnext).head_ne hfirst ha
      simp only [heq]
      exact ih hb

/-- When a first item that is no join stays to the end. -/
theorem stays_of_run {n : ℕ} {rest final : List α} (hn : (first :: rest).length ≤ n)
    (h : run step n (first :: rest) = first :: final) : Stays join score first rest := by
  induction n generalizing rest with
  | zero => simp at hn
  | succ n ih =>
    rw [run] at h
    intro rest' hmerges
    cases hnext : step (first :: rest) with
    | none =>
      have hnone := hstep.none _ hnext
      cases hmerges.cases_head with
      | inl heq =>
        rw [← heq]
        intro htakes
        obtain ⟨x, back, z, hrest, hz, _⟩ := htakes.form
        have hjoin := hnone first x (by rw [hrest]; simp)
        rw [hz] at hjoin
        cases hjoin
      | inr hmore =>
        exfalso
        obtain ⟨rest₁, hmerge, _⟩ := hmore
        apply hmerge.not_irreducible
        intro x y hadjacent
        exact hnone x y (hadjacent.cons first)
    | some next =>
      rw [hnext] at h
      have hbest := hstep.some _ next hnext
      have hlength := hbest.length_eq
      cases bestMerge_cons hbest with
      | inl htakes =>
        exfalso
        obtain ⟨_, x, z, back, _, hz, heq⟩ := htakes
        have hne : z ≠ first := fun hsame => hfirst first x (hsame ▸ hz)
        simp only [heq] at h
        exact run_head_ne hstep hfirst hne n final h
      | inr hleaves =>
        obtain ⟨hleaves, rest₁, hmerge, heq⟩ := hleaves
        simp only [heq] at h
        rw [heq] at hlength
        have hstays := ih (by omega) h
        cases hmerges.cases_head with
        | inl hsame =>
          rw [← hsame]
          exact hleaves
        | inr hmore =>
          obtain ⟨rest₂, hmerge', hothers⟩ := hmore
          rw [bestMerge_unique hmerge' hmerge] at hothers
          exact hstays rest' hothers

end Run

end LayerSkip.PairMerging
