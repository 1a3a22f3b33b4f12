import LayerSkip.GreedySampling
import LayerSkip.StableSelection
import Mathlib.Data.Int.Order.Basic
import Mathlib.Order.WithBot

/-!
# The best logits

The last stage sends the best logits with their indices. It finds them in one pass over two arrays, which it
first fills and in which a better logit then replaces the last: smaller ones are moved one place back until
the place of the new one is free. The index of a logit travels as a float.
-/

namespace LayerSkip.TopKLogits

open StableSelection

section Model

variable {F : Type} [LinearOrder F] [OrderBot F]

/-- The arrays of the best logits so far. -/
structure TopK (F : Type) where
  /-- Indices. -/
  topIdx : List ℕ
  /-- Logits. -/
  topVal : List F
  /-- Number of places that are in use. -/
  filled : ℕ

/-- Move the smaller ones before a place one place back. The place that is then free, and the arrays. -/
def makeRoom (v : F) : ℕ → List ℕ → List F → ℕ × List ℕ × List F
  | 0, topIdx, topVal => (0, topIdx, topVal)
  | pos + 1, topIdx, topVal =>
    if topVal.getD pos ⊥ < v then
      makeRoom v pos (topIdx.set (pos + 1) (topIdx.getD pos 0))
        (topVal.set (pos + 1) (topVal.getD pos ⊥))
    else (pos + 1, topIdx, topVal)

/-- Insert a logit, where the place `pos` may be overwritten. -/
def TopK.insert (s : TopK F) (v : F) (i pos : ℕ) : TopK F :=
  let room := makeRoom v pos s.topIdx s.topVal
  { s with topIdx := room.2.1.set room.1 i, topVal := room.2.2.set room.1 v }

/-- Look at the next logit. -/
def TopK.round (k : ℕ) (s : TopK F) (x : F × ℕ) : TopK F :=
  if s.filled < k then { s.insert x.1 x.2 s.filled with filled := s.filled + 1 }
  else if x.1 ≤ s.topVal.getD (k - 1) ⊥ then s
  else s.insert x.1 x.2 (k - 1)

/-- The arrays after all logits. -/
def TopK.scan (k : ℕ) (logits : List F) : TopK F :=
  logits.zipIdx.foldl (TopK.round k) ⟨List.replicate k 0, List.replicate k ⊥, 0⟩

/-- The best logits with their indices as floats. -/
def packTopKLogits (toFloat : ℕ → F) (logits : List F) (k : ℕ) : List F :=
  if k = 0 ∨ logits.length = 0 then []
  else
    let k := min k logits.length
    let s := TopK.scan k logits
    (List.range k).flatMap fun i => [toFloat (s.topIdx.getD i 0), s.topVal.getD i ⊥]

end Model

section Arrays

variable {β : Type} {a b : List β} {p pos : ℕ}

/-- The elements from one place up to another are moved one place back. -/
structure Shifted (p pos : ℕ) (a b : List β) : Prop where
  /-- Number of places. -/
  length : b.length = a.length
  /-- Elements. -/
  get : ∀ j, b[j]? = if p < j ∧ j ≤ pos then a[j - 1]? else a[j]?

theorem Shifted.refl (pos : ℕ) (a : List β) : Shifted pos pos a a :=
  ⟨Eq.refl _, fun j => by rw [if_neg (by omega)]⟩

/-- The element before the last place is moved first. -/
theorem Shifted.step {x : β} (hpos : pos + 1 < a.length) (hx : a[pos]? = some x)
    (h : Shifted p pos (a.set (pos + 1) x) b) (hp : p ≤ pos) : Shifted p (pos + 1) a b := by
  constructor
  · rw [h.length, List.length_set]
  · intro j
    rw [h.get j]
    by_cases hj : p < j ∧ j ≤ pos
    · rw [if_pos hj, if_pos (by omega), List.getElem?_set_ne (by omega)]
    · rw [if_neg hj]
      by_cases hlast : j = pos + 1
      · rw [hlast, if_pos (by omega), List.getElem?_set_self hpos, Nat.add_sub_cancel, hx]
      · rw [if_neg (by omega), List.getElem?_set_ne (by omega)]

/-- With the free place taken, the array has one more element among the first. -/
theorem Shifted.place (h : Shifted p pos a b) (hp : p ≤ pos) (hpos : pos < a.length) (x : β) :
    (b.set p x).take (pos + 1) = (a.take pos).take p ++ x :: (a.take pos).drop p := by
  have hlength : ((a.take pos).take p).length = p := by
    rw [List.length_take, List.length_take]
    omega
  apply List.ext_getElem?
  intro j
  rw [List.getElem?_take]
  by_cases hj : j < pos + 1
  · rw [if_pos hj]
    rcases Nat.lt_trichotomy j p with hlt | heq | hgt
    · rw [List.getElem?_set_ne (by omega), h.get, if_neg (by omega),
        List.getElem?_append_left (by omega), List.getElem?_take, if_pos hlt, List.getElem?_take,
        if_pos (by omega)]
    · rw [heq, List.getElem?_set_self (by rw [h.length]; omega),
        List.getElem?_append_right (by omega), hlength, Nat.sub_self, List.getElem?_cons_zero]
    · have hback : j - p = (j - p - 1) + 1 := by omega
      rw [List.getElem?_set_ne (by omega), h.get, if_pos (by omega),
        List.getElem?_append_right (by omega), hlength, hback, List.getElem?_cons_succ,
        List.getElem?_drop, List.getElem?_take, if_pos (by omega)]
      congr 1
      omega
  · rw [if_neg hj]
    symm
    apply List.getElem?_eq_none
    simp only [List.length_append, List.length_cons, List.length_take, List.length_drop]
    omega

end Arrays

section Scan

variable {F : Type} [LinearOrder F] [OrderBot F] {s : TopK F} {k : ℕ} {v : F}

/-- The place is found behind the last logit that is not smaller, and both arrays are moved alike. -/
theorem makeRoom_spec {pos : ℕ} (topIdx : List ℕ) (topVal : List F) (hidx : pos < topIdx.length)
    (hval : pos < topVal.length) : ∃ p idx val, makeRoom v pos topIdx topVal = (p, idx, val) ∧
      p ≤ pos ∧ Shifted p pos topIdx idx ∧ Shifted p pos topVal val ∧
      (∀ j, p ≤ j → j < pos → topVal.getD j ⊥ < v) ∧
      (0 < p → v ≤ topVal.getD (p - 1) ⊥) := by
  induction pos generalizing topIdx topVal with
  | zero =>
    exact ⟨0, topIdx, topVal, Eq.refl _, Nat.le_refl 0, Shifted.refl 0 _, Shifted.refl 0 _,
      fun j _ h => absurd h (Nat.not_lt_zero j), fun h => absurd h (Nat.lt_irrefl 0)⟩
  | succ pos ih =>
    rw [makeRoom]
    by_cases hsmall : topVal.getD pos ⊥ < v
    · rw [if_pos hsmall]
      have hi : pos < topIdx.length := by omega
      have hv : pos < topVal.length := by omega
      obtain ⟨p, idx, val, heq, hp, hidxs, hvals, hback, hfront⟩ :=
        ih (topIdx.set (pos + 1) (topIdx.getD pos 0)) (topVal.set (pos + 1) (topVal.getD pos ⊥))
          (by rw [List.length_set]; exact hi) (by rw [List.length_set]; exact hv)
      have hother : ∀ j, j ≤ pos → (topVal.set (pos + 1) (topVal.getD pos ⊥)).getD j ⊥ =
          topVal.getD j ⊥ := by
        intro j hj
        have hne : pos + 1 ≠ j := by omega
        simp only [List.getD_eq_getElem?_getD, List.getElem?_set_ne hne]
      refine ⟨p, idx, val, heq, Nat.le_succ_of_le hp, hidxs.step hidx ?_ hp, hvals.step hval ?_ hp,
        ?_, ?_⟩
      · rw [List.getD_eq_getElem?_getD, List.getElem?_eq_getElem hi, Option.getD_some]
      · rw [List.getD_eq_getElem?_getD, List.getElem?_eq_getElem hv, Option.getD_some]
      · intro j hpj hj
        by_cases hlast : j = pos
        · rw [hlast]
          exact hsmall
        · rw [← hother j (by omega)]
          exact hback j hpj (by omega)
      · intro hpos
        rw [← hother (p - 1) (by omega)]
        exact hfront hpos
    · rw [if_neg hsmall]
      refine ⟨pos + 1, topIdx, topVal, Eq.refl _, Nat.le_refl _, Shifted.refl _ _, Shifted.refl _ _,
        ?_, ?_⟩
      · intro j hj hlt
        omega
      · intro _
        exact le_of_not_gt hsmall

/-- Logits in the first places, with their indices. -/
def TopK.first (s : TopK F) (n : ℕ) : List (ℕ × F) := (s.topIdx.take n).zip (s.topVal.take n)

/-- Both arrays have `k` places. -/
structure TopK.Sized (k : ℕ) (s : TopK F) : Prop where
  /-- Places of the indices. -/
  topIdx : s.topIdx.length = k
  /-- Places of the logits. -/
  topVal : s.topVal.length = k

theorem TopK.first_getElem? (h : s.Sized k) {n j : ℕ} (hj : j < n) (hn : n ≤ k) :
    (s.first n)[j]? = some (s.topIdx.getD j 0, s.topVal.getD j ⊥) := by
  have hi : j < s.topIdx.length := by rw [h.topIdx]; omega
  have hv : j < s.topVal.length := by rw [h.topVal]; omega
  rw [TopK.first, List.getElem?_zip_eq_some]
  simp [List.getD_eq_getElem?_getD, hj, hi, hv]

omit [LinearOrder F] [OrderBot F] in
theorem TopK.length_first (h : s.Sized k) {n : ℕ} (hn : n ≤ k) : (s.first n).length = n := by
  rw [TopK.first, List.length_zip, List.length_take, List.length_take, h.topIdx, h.topVal]
  omega

theorem TopK.first_succ (h : s.Sized k) {n : ℕ} (hn : n < k) :
    s.first (n + 1) = s.first n ++ [(s.topIdx.getD n 0, s.topVal.getD n ⊥)] := by
  have hlength := TopK.length_first h (Nat.le_of_lt hn)
  apply List.ext_getElem?
  intro j
  rcases Nat.lt_trichotomy j n with hlt | heq | hgt
  · rw [List.getElem?_append_left (by omega), TopK.first_getElem? h (by omega) hn,
      TopK.first_getElem? h hlt (Nat.le_of_lt hn)]
  · rw [heq, List.getElem?_append_right (by omega), hlength, Nat.sub_self,
      TopK.first_getElem? h (Nat.lt_succ_self n) hn, List.getElem?_cons_zero]
  · rw [List.getElem?_eq_none (by rw [TopK.length_first h hn]; omega),
      List.getElem?_eq_none (by rw [List.length_append, hlength, List.length_singleton]; omega)]

/-- A later logit is inserted where it belongs among the first ones. -/
theorem TopK.insert_spec (h : s.Sized k) {pos i : ℕ} (hpos : pos < k)
    (hsorted : (s.first pos).Pairwise Precedes) (hlater : ∀ y ∈ s.first pos, y.1 < i) :
    (s.insert v i pos).Sized k ∧
      (s.insert v i pos).first (pos + 1) = (s.first pos).orderedInsert Precedes (i, v) := by
  have hidx : pos < s.topIdx.length := by rw [h.topIdx]; exact hpos
  have hval : pos < s.topVal.length := by rw [h.topVal]; exact hpos
  obtain ⟨p, idx, val, hroom, hp, hidxs, hvals, hback, hfront⟩ :=
    makeRoom_spec (v := v) s.topIdx s.topVal hidx hval
  have hinsert : s.insert v i pos = { s with topIdx := idx.set p i, topVal := val.set p v } := by
    unfold TopK.insert
    rw [hroom]
  have hget : ∀ j, j < pos → (s.first pos)[j]? = some (s.topIdx.getD j 0, s.topVal.getD j ⊥) :=
    fun j hj => TopK.first_getElem? h hj (Nat.le_of_lt hpos)
  rw [hinsert]
  constructor
  · constructor
    · rw [List.length_set, hidxs.length, h.topIdx]
    · rw [List.length_set, hvals.length, h.topVal]
  · have hsplit : TopK.first { s with topIdx := idx.set p i, topVal := val.set p v } (pos + 1) =
        (s.first pos).take p ++ (i, v) :: (s.first pos).drop p := by
      have hsame : ((s.topIdx.take pos).take p).length = ((s.topVal.take pos).take p).length := by
        simp only [List.length_take]
        omega
      unfold TopK.first
      simp only [hidxs.place hp hidx, hvals.place hp hval, List.zip, List.take_zipWith,
        List.drop_zipWith, List.zipWith_append hsame, List.zipWith_cons_cons]
    rw [hsplit]
    symm
    apply orderedInsert_eq_split hsorted
    · intro y hy
      have hmem := List.mem_of_mem_take hy
      rw [precedes_of_earlier (hlater y hmem)]
      obtain ⟨j, hj⟩ := List.mem_iff_getElem?.mp hy
      rw [List.getElem?_take] at hj
      split at hj
      · rename_i hlt
        have hlast := hget (p - 1) (by omega)
        have hle : s.topVal.getD (p - 1) ⊥ ≤ y.2 :=
          value_le_of_pairwise hsorted hj hlast (by omega)
        exact (hfront (by omega)).trans hle
      · cases hj
    · intro y hy
      have hmem := List.mem_of_mem_drop hy
      rw [precedes_of_later (hlater y hmem)]
      obtain ⟨j, hj⟩ := List.mem_iff_getElem?.mp hy
      rw [List.getElem?_drop] at hj
      have hlt : p + j < pos := by
        have hlength := (List.getElem?_eq_some_iff.mp hj).1
        rw [TopK.length_first h (Nat.le_of_lt hpos)] at hlength
        exact hlength
      have hy' := hget (p + j) hlt
      rw [hj] at hy'
      injection hy' with hy'
      rw [hy']
      exact hback (p + j) (Nat.le_add_right p j) hlt

/-- The arrays hold the best logits so far, with indices below the next one. -/
structure TopK.Holds (k : ℕ) (s : TopK F) (best : List (ℕ × F)) (next : ℕ) : Prop where
  /-- The arrays. -/
  sized : s.Sized k
  /-- Places in use. -/
  filled : s.filled = best.length ∧ best.length ≤ k
  /-- What they hold. -/
  first : s.first s.filled = best
  /-- They are in order. -/
  sorted : best.Pairwise Precedes
  /-- Their indices have been looked at. -/
  earlier : ∀ y ∈ best, y.1 < next

/-- A round keeps the best. -/
theorem TopK.round_spec {best : List (ℕ × F)} {next : ℕ} (hk : 0 < k) (h : s.Holds k best next) :
    (s.round k (v, next)).Holds k (keep Precedes k best (next, v)) (next + 1) := by
  have hsorted : (keep Precedes k best (next, v)).Pairwise Precedes :=
    (h.sorted.orderedInsert (next, v) best).sublist (List.take_sublist _ _)
  have hearlier : ∀ y ∈ keep Precedes k best (next, v), y.1 < next + 1 := keep_earlier h.earlier
  have hlength := List.orderedInsert_length Precedes best (next, v)
  unfold TopK.round
  by_cases hfill : s.filled < k
  · -- The arrays are not full.
    simp only [hfill, if_true]
    obtain ⟨hsized, hinsert⟩ := TopK.insert_spec (v := v) (i := next) h.sized hfill
      (h.first ▸ h.sorted) (h.first ▸ h.earlier)
    have hroom : best.length < k := h.filled.1 ▸ hfill
    have hkeep : keep Precedes k best (next, v) = best.orderedInsert Precedes (next, v) :=
      List.take_of_length_le (by omega)
    rw [h.first] at hinsert
    refine ⟨⟨hsized.topIdx, hsized.topVal⟩, ?_, ?_, hsorted, hearlier⟩
    · rw [hkeep, hlength, ← h.filled.1]
      exact ⟨Eq.refl _, hfill⟩
    · rw [hkeep]
      exact hinsert
  · -- The last of them may be replaced.
    simp only [hfill, if_false]
    have hfull : best.length = k := by
      have hle := h.filled
      omega
    have hsmaller : k - 1 + 1 = k := Nat.sub_add_cancel hk
    have hbest : best =
        s.first (k - 1) ++ [(s.topIdx.getD (k - 1) 0, s.topVal.getD (k - 1) ⊥)] := by
      have hsucc := TopK.first_succ h.sized (n := k - 1) (by omega)
      rw [hsmaller] at hsucc
      rw [← hsucc, ← h.first, h.filled.1, hfull]
    by_cases hout : v ≤ s.topVal.getD (k - 1) ⊥
    · simp only [hout, if_true]
      have hkeep : keep Precedes k best (next, v) = best := by
        apply keep_of_full h.sorted hfull
        have hpairs := h.sorted
        have hlater := h.earlier
        rw [hbest] at hpairs hlater ⊢
        exact precedes_of_le_last hpairs hlater hout
      rw [hkeep] at hearlier ⊢
      exact ⟨h.sized, h.filled, h.first, h.sorted, hearlier⟩
    · simp only [hout, if_false]
      have hfront : ∀ y ∈ s.first (k - 1), y ∈ best := by
        intro y hy
        rw [hbest]
        exact List.mem_append_left _ hy
      have hfrontSorted : (s.first (k - 1)).Pairwise Precedes := by
        have hpairs := h.sorted
        rw [hbest] at hpairs
        exact (List.pairwise_append.mp hpairs).1
      have hplace : k - 1 < k := by omega
      obtain ⟨hsized, hinsert⟩ := TopK.insert_spec (v := v) (i := next) h.sized hplace hfrontSorted
        fun y hy => h.earlier y (hfront y hy)
      have hkeep : keep Precedes k best (next, v) =
          (s.first (k - 1)).orderedInsert Precedes (next, v) := by
        have hlen := TopK.length_first h.sized (n := k - 1) (by omega)
        have hbefore : Precedes (next, v) (s.topIdx.getD (k - 1) 0, s.topVal.getD (k - 1) ⊥) :=
          Or.inl (lt_of_not_ge hout)
        have hreplace := keep_append_singleton (l := s.first (k - 1)) hbefore
        rw [hlen, hsmaller, ← hbest] at hreplace
        exact hreplace
      have hcount : (keep Precedes k best (next, v)).length = k := by
        rw [keep, List.length_take, hlength]
        omega
      have hfilled : (s.insert v next (k - 1)).filled = k := by
        have hsame : (s.insert v next (k - 1)).filled = s.filled := Eq.refl _
        rw [hsame, h.filled.1, hfull]
      refine ⟨hsized, ?_, ?_, hsorted, hearlier⟩
      · rw [hfilled, hcount]
        exact ⟨Eq.refl k, Nat.le_refl k⟩
      · rw [hfilled, hkeep, ← hinsert, hsmaller]

/-- All rounds. -/
theorem TopK.foldl_spec (hk : 0 < k) (logits : List F) {best : List (ℕ × F)} {next : ℕ}
    (h : s.Holds k best next) :
    ((logits.zipIdx next).foldl (TopK.round k) s).Holds k
      (((logits.zipIdx next).map Prod.swap).foldl (keep Precedes k) best) (next + logits.length) := by
  induction logits generalizing s best next with
  | nil => exact h
  | cons v logits ih =>
    have hnext := ih (TopK.round_spec (v := v) hk h)
    rw [Nat.add_assoc, Nat.add_comm 1] at hnext
    exact hnext

end Scan

section Pack

variable {F : Type} [LinearOrder F] [OrderBot F]

/-- Logits with their indices, sorted by the logit, largest first, and equal logits by the index. -/
def ranked (logits : List F) : List (ℕ × F) := (logits.zipIdx.map Prod.swap).insertionSort Precedes

/-- What is sent are the first of the sorted logits, each with the float of its index. -/
theorem packTopKLogits_eq (toFloat : ℕ → F) (logits : List F) (k : ℕ) :
    packTopKLogits toFloat logits k =
      ((ranked logits).take (min k logits.length)).flatMap fun x => [toFloat x.1, x.2] := by
  unfold packTopKLogits
  split
  · rename_i h
    have hzero : min k logits.length = 0 := by omega
    rw [hzero, List.take_zero, List.flatMap_nil]
  · rename_i h
    have hk : 0 < min k logits.length := by omega
    have hempty : TopK.Holds (min k logits.length)
        (⟨List.replicate (min k logits.length) 0, List.replicate (min k logits.length) ⊥, 0⟩ : TopK F)
        [] 0 :=
      ⟨⟨List.length_replicate, List.length_replicate⟩, ⟨Eq.refl _, Nat.zero_le _⟩, Eq.refl _,
        List.Pairwise.nil, fun y hy => absurd hy List.not_mem_nil⟩
    have hscan : (TopK.scan (min k logits.length) logits).Holds (min k logits.length)
        ((ranked logits).take (min k logits.length)) (0 + logits.length) := by
      rw [ranked, ← foldl_keep_nil]
      exact TopK.foldl_spec hk logits hempty
    have hlength : (ranked logits).length = logits.length := by
      rw [ranked, List.length_insertionSort, List.length_map, List.length_zipIdx]
    have hfilled : (TopK.scan (min k logits.length) logits).filled = min k logits.length := by
      rw [hscan.filled.1, List.length_take, hlength, Nat.min_eq_left (Nat.min_le_right k _)]
    have hfirst : (ranked logits).take (min k logits.length) =
        (List.range (min k logits.length)).map fun i =>
          ((TopK.scan (min k logits.length) logits).topIdx.getD i 0,
            (TopK.scan (min k logits.length) logits).topVal.getD i ⊥) := by
      have hbest : (TopK.scan (min k logits.length) logits).first (min k logits.length) =
          (ranked logits).take (min k logits.length) := by
        have hheld := hscan.first
        rw [hfilled] at hheld
        exact hheld
      rw [← hbest]
      apply List.ext_getElem?
      intro j
      by_cases hj : j < min k logits.length
      · rw [TopK.first_getElem? hscan.sized hj (Nat.le_refl _), List.getElem?_map,
          List.getElem?_range hj, Option.map_some]
      · rw [List.getElem?_eq_none, List.getElem?_eq_none]
        · rw [List.length_map, List.length_range]
          exact Nat.le_of_not_lt hj
        · rw [hbest, List.length_take, hlength]
          omega
    rw [hfirst, List.flatMap_map]

omit [OrderBot F] in
/-- The first of the sorted logits. -/
theorem ranked_take_one {logits : List F} {i : ℕ} {v : F} (hi : logits[i]? = some v)
    (hbest : ∀ j w, logits[j]? = some w → w < v ∨ w = v ∧ i ≤ j) :
    (ranked logits).take 1 = [(i, v)] := by
  apply take_one_insertionSort
  · exact List.mem_map.mpr ⟨(v, i), List.mem_zipIdx_iff_getElem?.mpr hi, Eq.refl _⟩
  · intro y hy
    obtain ⟨x, hx, heq⟩ := List.mem_map.mp hy
    rw [← heq]
    cases hbest x.2 x.1 (List.mem_zipIdx_iff_getElem?.mp hx) with
    | inl hlt => exact Or.inl hlt
    | inr hsame => exact Or.inr ⟨hsame.1.symm, hsame.2⟩

end Pack

/-- The number that an unsigned integer becomes as a float: the nearest one whose significand has 24 bits, and
of two such the one with the even significand. -/
def floatOfUint (n : ℕ) : ℕ :=
  let unit := 2 ^ (n.log2 - 23)
  let significand := n / unit
  let rest := n % unit
  if unit < 2 * rest ∨ 2 * rest = unit ∧ significand % 2 = 1 then (significand + 1) * unit
  else significand * unit

theorem floatOfUint_of_le {n : ℕ} (h : n ≤ 2 ^ 24) : floatOfUint n = n := by
  rcases Nat.lt_or_eq_of_le h with hlt | heq
  · have hzero : n.log2 - 23 = 0 := by
      by_cases hn : n = 0
      · rw [hn]
        exact Eq.refl _
      · have hlog := (Nat.log2_lt hn).mpr hlt
        omega
    unfold floatOfUint
    simp [hzero, Nat.mod_one]
  · rw [heq]
    decide

section Worker

variable {F : Type} [LinearOrder F] {best : List (ℕ × F)} {x : ℕ × F}

/-- A logit with the index that the worker keeps. -/
def worded (x : ℕ × F) : UInt32 × F := (x.1.toUInt32, x.2)

/-- The insertion in the lists of the worker's payload. -/
theorem insertTop_worded (hsorted : best.Pairwise Precedes) (hlater : ∀ y ∈ best, y.1 < x.1) :
    WorkerLlmInference.insertTop (worded x) (best.map worded) =
      (best.orderedInsert Precedes x).map worded := by
  induction best using List.reverseRecOn with
  | nil => exact Eq.refl _
  | append_singleton best y ih =>
    have hy := hlater y (List.mem_append_right best (List.mem_singleton_self y))
    rw [List.map_append, List.map_singleton, GreedySampling.insertTop_append]
    by_cases hlt : (worded y).2 < (worded x).2
    · have hbefore : Precedes x y := (precedes_of_later hy).mpr hlt
      rw [if_pos hlt, orderedInsert_append_singleton hbefore, List.map_append, List.map_singleton,
        ih (List.pairwise_append.mp hsorted).1 fun z hz => hlater z (List.mem_append_left [y] hz)]
    · have hbehind := precedes_of_le_last hsorted hlater (le_of_not_gt hlt)
      have hinsert := orderedInsert_eq_split (p := (best ++ [y]).length) hsorted
        (by rw [List.take_length]; exact hbehind) (by rw [List.drop_length]; simp)
      rw [if_neg hlt, hinsert, List.take_length, List.drop_length]
      simp

/-- So a round of the worker keeps the best. -/
theorem topKRound_worded {k : ℕ} (hk : 0 < k) (hsorted : best.Pairwise Precedes)
    (hlater : ∀ y ∈ best, y.1 < x.1) (hlength : best.length ≤ k) :
    WorkerLlmInference.topKRound k (best.map worded) (worded x) =
      (keep Precedes k best x).map worded := by
  unfold WorkerLlmInference.topKRound
  rw [List.length_map]
  by_cases hfill : best.length < k
  · have hinsert := List.orderedInsert_length Precedes best x
    rw [if_pos hfill, insertTop_worded hsorted hlater, keep, List.take_of_length_le (by omega)]
  · rw [if_neg hfill]
    have hfull : best.length = k := by omega
    induction best using List.reverseRecOn with
    | nil =>
      rw [List.length_nil] at hfull
      omega
    | append_singleton best last _ =>
      have hback := hlater last (List.mem_append_right best (List.mem_singleton_self last))
      have hfront : ∀ y ∈ best, y.1 < x.1 := fun y hy => hlater y (List.mem_append_left [last] hy)
      simp only [List.map_append, List.map_singleton, List.getLast?_append, List.getLast?_singleton,
        Option.some_or, List.dropLast_concat]
      by_cases hle : (worded x).2 ≤ (worded last).2
      · rw [if_pos hle, keep_of_full hsorted hfull (precedes_of_le_last hsorted hlater hle),
          List.map_append, List.map_singleton]
      · have hbefore : Precedes x last := (precedes_of_later hback).mpr (lt_of_not_ge hle)
        rw [List.length_append, List.length_singleton] at hfull
        rw [if_neg hle, insertTop_worded (List.pairwise_append.mp hsorted).1 hfront, ← hfull,
          keep_append_singleton hbefore]

theorem foldl_topKRound_worded {k : ℕ} (hk : 0 < k) (logits : List F) {next : ℕ}
    (hsorted : best.Pairwise Precedes) (hlater : ∀ y ∈ best, y.1 < next) (hlength : best.length ≤ k) :
    ((logits.zipIdx next).map fun x => (x.2.toUInt32, x.1)).foldl (WorkerLlmInference.topKRound k)
        (best.map worded) =
      (((logits.zipIdx next).map Prod.swap).foldl (keep Precedes k) best).map worded := by
  induction logits generalizing best next with
  | nil => exact Eq.refl _
  | cons v logits ih =>
    have hround := topKRound_worded (x := (next, v)) hk hsorted hlater hlength
    rw [List.zipIdx_cons, List.map_cons, List.foldl_cons, List.map_cons, List.foldl_cons]
    have hnext : ∀ y ∈ keep Precedes k best (next, v), y.1 < next + 1 := keep_earlier hlater
    have hkept : (keep Precedes k best (next, v)).Pairwise Precedes :=
      (hsorted.orderedInsert (next, v) best).sublist (List.take_sublist _ _)
    have hrest := ih hkept hnext (List.length_take_le k _)
    rw [← hround] at hrest
    exact hrest

/-- The worker's payload is that of the arrays, with indices of 32 bits. -/
theorem packTopKLogits_worker [OrderBot F] (ofUint : UInt32 → F) (logits : List F) (k : ℕ) :
    WorkerLlmInference.packTopKLogits ofUint logits k =
      packTopKLogits (fun i => ofUint i.toUInt32) logits k := by
  rw [packTopKLogits_eq, WorkerLlmInference.packTopKLogits]
  by_cases hk : 0 < min k logits.length
  · have hnone : ∀ y ∈ ([] : List (ℕ × F)), y.1 < 0 := fun y hy => absurd hy List.not_mem_nil
    have hfold := foldl_topKRound_worded hk logits List.Pairwise.nil hnone (Nat.zero_le _)
    rw [foldl_keep_nil, List.map_nil] at hfold
    rw [hfold, List.flatMap_map]
    exact Eq.refl _
  · have hzero : min k logits.length = 0 := Nat.eq_zero_of_not_pos hk
    have hempty : ∀ l : List (UInt32 × F), l.foldl (WorkerLlmInference.topKRound 0) [] = [] := by
      intro l
      induction l with
      | nil => exact Eq.refl _
      | cons x l ih => exact ih
    rw [hzero, hempty, List.take_zero]
    exact Eq.refl _

end Worker

section Exact

variable {F : Type} [LinearOrder F] [OrderBot F]

/-- The pairs are the first of the sorted logits, of which there are as many as were asked for if there are
so many logits, each logit being sorted once. An index is rounded to a float, which up to 2 ^ 24 keeps it. -/
theorem packTopKLogits_selects (number : ℕ → F) (logits : List F) (k : ℕ) :
    packTopKLogits (fun i => number (floatOfUint i)) logits k =
        ((ranked logits).take (min k logits.length)).flatMap
          (fun x => [number (floatOfUint x.1), x.2]) ∧
      ((ranked logits).take (min k logits.length)).length = min k logits.length ∧
      (ranked logits).Perm (logits.zipIdx.map Prod.swap) ∧
      (ranked logits).Pairwise Precedes ∧ (ranked logits).Nodup ∧
      (logits.length ≤ 2 ^ 24 + 1 → packTopKLogits (fun i => number (floatOfUint i)) logits k =
        ((ranked logits).take (min k logits.length)).flatMap fun x => [number x.1, x.2]) := by
  have hperm : (ranked logits).Perm (logits.zipIdx.map Prod.swap) := List.perm_insertionSort Precedes _
  have hlength : (ranked logits).length = logits.length := by
    rw [hperm.length_eq, List.length_map, List.length_zipIdx]
  have hpack := packTopKLogits_eq (fun i => number (floatOfUint i)) logits k
  refine ⟨hpack, ?_, hperm, List.pairwise_insertionSort Precedes _, ?_, ?_⟩
  · rw [List.length_take, hlength]
    omega
  · apply hperm.nodup_iff.mpr
    apply List.Nodup.of_map Prod.fst
    have hindices : (logits.zipIdx.map Prod.swap).map Prod.fst = List.range' 0 logits.length := by
      rw [List.map_map, ← List.zipIdx_map_snd]
      exact Eq.refl _
    rw [hindices]
    exact List.nodup_range'
  · intro hsmall
    rw [hpack]
    apply List.flatMap_congr
    intro x hx
    have hmem := hperm.mem_iff.mp (List.mem_of_mem_take hx)
    obtain ⟨y, hy, heq⟩ := List.mem_map.mp hmem
    have hlt := List.snd_lt_of_mem_zipIdx hy
    have hle : x.1 ≤ 2 ^ 24 := by
      rw [← heq]
      simp only [Prod.fst_swap]
      omega
    rw [floatOfUint_of_le hle]

end Exact

/-- Three logits, two of which are equal. -/
theorem packTopKLogits_selects_two_of_three :
    packTopKLogits (fun i => (((floatOfUint i : ℕ) : ℤ) : WithBot ℤ))
        [(3 : ℤ), (5 : ℤ), (5 : ℤ)] 2 = [(1 : ℤ), (5 : ℤ), (2 : ℤ), (5 : ℤ)] := by
  have h := (packTopKLogits_selects (fun i => ((i : ℤ) : WithBot ℤ))
    [(3 : ℤ), (5 : ℤ), (5 : ℤ)] 2).2.2.2.2.2 (by decide)
  rw [h]
  decide

/-- The last of more than 2 ^ 24 + 1 logits, when it is the best. -/
theorem not_packTopKLogits_exact :
    ¬∀ (logits : List (WithBot ℤ)) (k : ℕ), 1 ≤ logits.length → 1 ≤ k →
      packTopKLogits (fun i => (((floatOfUint i : ℕ) : ℤ) : WithBot ℤ)) logits k =
        ((ranked logits).take (min k logits.length)).flatMap fun x =>
          [((x.1 : ℤ) : WithBot ℤ), x.2] := by
  intro h
  have hlogits := h (List.replicate 16777217 ((0 : ℤ) : WithBot ℤ) ++ [((1 : ℤ) : WithBot ℤ)]) 1
    (by rw [List.length_append, List.length_singleton]; omega) (Nat.le_refl 1)
  have hlength : (List.replicate 16777217 ((0 : ℤ) : WithBot ℤ) ++ [((1 : ℤ) : WithBot ℤ)]).length =
      16777218 := by
    rw [List.length_append, List.length_replicate, List.length_singleton]
  have htop : (ranked (List.replicate 16777217 ((0 : ℤ) : WithBot ℤ) ++
      [((1 : ℤ) : WithBot ℤ)])).take 1 = [(16777217, ((1 : ℤ) : WithBot ℤ))] := by
    apply ranked_take_one
    · rw [List.getElem?_append_right (by rw [List.length_replicate]), List.length_replicate,
        Nat.sub_self, List.getElem?_cons_zero]
    · intro j w hj
      have hlt := (List.getElem?_eq_some_iff.mp hj).1
      rw [hlength] at hlt
      by_cases hlast : j = 16777217
      · rw [hlast, List.getElem?_append_right (by rw [List.length_replicate]), List.length_replicate,
          Nat.sub_self, List.getElem?_cons_zero] at hj
        injection hj with hj
        exact Or.inr ⟨hj.symm, by omega⟩
      · rw [List.getElem?_append_left (by rw [List.length_replicate]; omega),
          List.getElem?_replicate_of_lt (by omega)] at hj
        injection hj with hj
        rw [← hj]
        exact Or.inl (by decide)
  rw [packTopKLogits_eq, hlength, Nat.min_eq_left (by omega), htop] at hlogits
  have hrounded : floatOfUint 16777217 = 16777216 := by decide
  simp only [List.flatMap_cons, List.flatMap_nil, List.append_nil, hrounded] at hlogits
  revert hlogits
  decide

end LayerSkip.TopKLogits
