import LayerSkip.PartialSums
import LayerSkip.TopKLogits
import Mathlib.Algebra.Order.Field.Basic
import Mathlib.Algebra.Order.BigOperators.Group.List
import Mathlib.Data.Rat.Cast.Order
import Mathlib.Tactic.Linarith
import Mathlib.Tactic.NormNum

/-!
# Nucleus sampling

The sampler takes the smallest set of the largest probabilities that exceeds a bound and picks one of them
with a coin. Before it sorts them it leaves out those that are too small to be in the set. Computed in exact
arithmetic; the sort keeps the order of equal probabilities.
-/

namespace LayerSkip.NucleusSampling

open StableSelection TopKLogits PartialSums

variable {F : Type} [Field F] [LinearOrder F]

/-- Order of the sort, which compares probabilities alone. -/
def compare (a b : ℕ × F) : Prop := b.2 ≤ a.2

instance : DecidableRel (compare (F := F)) := fun a b => inferInstanceAs (Decidable (b.2 ≤ a.2))

/-- Index at a place of the sorted candidates. -/
def readIndex (probindex : List (ℕ × F)) (i : ℤ) : Except String ℕ :=
  if i < 0 then .error "read before the candidates"
  else
    match probindex[i.toNat]? with
    | none => .error "read behind the candidates"
    | some x => .ok x.1

/-- Sort the candidates, cut the list where the sum exceeds `topp`, and pick one with the coin. -/
def sampleSorted (candidates : List (ℕ × F)) (topp coin : F) : Except String ℕ :=
  let probindex := candidates.insertionSort compare
  let cut := addUntil (fun cumulative => decide (topp < cumulative)) 0 (probindex.map Prod.snd)
  let lastIdx : ℤ := cut.1.elim ((probindex.length : ℤ) - 1) fun i => (i : ℤ)
  let r := coin * cut.2
  match (addUntil (fun cdf => decide (r < cdf)) 0
      ((probindex.map Prod.snd).take (lastIdx + 1).toNat)).1 with
  | some i => readIndex probindex i
  | none => readIndex probindex lastIdx

/-- Probabilities with their indices. -/
def entries (probabilities : List F) : List (ℕ × F) := probabilities.zipIdx.map Prod.swap

/-- Smallest probability of a candidate. -/
def cutoff (n : ℕ) (topp : F) : F := (1 - topp) / ((n : F) - 1)

/-- Nucleus sampling. -/
def sample_topp (probabilities : List F) (topp coin : F) : Except String ℕ :=
  if (probabilities.length : ℤ) - 1 = 0 then .error "division by zero"
  else
    sampleSorted ((entries probabilities).filter fun x =>
      decide (cutoff probabilities.length topp ≤ x.2)) topp coin

/-- Nucleus sampling with all probabilities as candidates. -/
def sampleToppUncropped (probabilities : List F) (topp coin : F) : Except String ℕ :=
  sampleSorted (entries probabilities) topp coin

section Sorted

omit [Field F]

omit [LinearOrder F] in
/-- Entries in the order of their indices. -/
theorem entries_pairwise (probabilities : List F) :
    (entries probabilities).Pairwise fun x y => x.1 < y.1 := by
  unfold entries
  rw [List.pairwise_map]
  have hindices : probabilities.zipIdx.map Prod.snd = List.range' 0 probabilities.length :=
    List.zipIdx_map_snd 0 probabilities
  have hsorted : (List.range' 0 probabilities.length).Pairwise (· < ·) := List.pairwise_lt_range'
  rw [← hindices, List.pairwise_map] at hsorted
  exact hsorted

/-- The sort of entries whose indices grow also orders equal probabilities by index. -/
theorem insertionSort_compare {l : List (ℕ × F)} (h : l.Pairwise fun x y => x.1 < y.1) :
    l.insertionSort compare = l.insertionSort Precedes := by
  induction l with
  | nil => exact Eq.refl _
  | cons x l ih =>
    obtain ⟨hx, hl⟩ := List.pairwise_cons.mp h
    rw [List.insertionSort_cons, List.insertionSort_cons, ih hl]
    apply orderedInsert_congr
    intro y hy
    exact (precedes_of_earlier (hx y ((List.mem_insertionSort Precedes).mp hy))).symm

/-- Candidates above a bound are the first of the sorted ones. -/
theorem filter_eq_take {l : List (ℕ × F)} (h : l.Pairwise Precedes) (c : F) :
    ∃ m, l.filter (fun x => decide (c ≤ x.2)) = l.take m ∧ (∀ x ∈ l.drop m, x.2 < c) ∧
      m ≤ l.length := by
  induction l with
  | nil => exact ⟨0, by simp⟩
  | cons x l ih =>
    obtain ⟨hx, hl⟩ := List.pairwise_cons.mp h
    by_cases hc : c ≤ x.2
    · obtain ⟨m, hm, hdrop, hle⟩ := ih hl
      refine ⟨m + 1, ?_, hdrop, Nat.succ_le_succ hle⟩
      rw [List.filter_cons_of_pos (by simpa using hc), hm, List.take_succ_cons]
    · have hlow : ∀ y ∈ x :: l, y.2 < c := by
        intro y hy
        cases List.mem_cons.mp hy with
        | inl heq => exact heq ▸ lt_of_not_ge hc
        | inr hin => exact lt_of_le_of_lt (hx y hin).value_le (lt_of_not_ge hc)
      refine ⟨0, ?_, hlow, Nat.zero_le _⟩
      rw [List.take_zero]
      apply List.filter_eq_nil_iff.mpr
      intro y hy
      simpa using hlow y hy

/-- Sorting and leaving out commute. -/
theorem insertionSort_filter (l : List (ℕ × F)) (p : ℕ × F → Bool) :
    (l.filter p).insertionSort Precedes = (l.insertionSort Precedes).filter p := by
  have hperm : ((l.filter p).insertionSort Precedes).Perm ((l.insertionSort Precedes).filter p) :=
    (List.perm_insertionSort Precedes _).trans ((List.perm_insertionSort Precedes l).symm.filter p)
  exact hperm.eq_of_pairwise' (List.pairwise_insertionSort Precedes _)
    ((List.pairwise_insertionSort Precedes l).filter p)

end Sorted

section Pick

variable {candidates : List (ℕ × F)} {topp coin : F}

/-- The pick from sorted candidates. -/
theorem sampleSorted_ok {P : List (ℕ × F)} (hsort : candidates.insertionSort compare = P) {m i : ℕ}
    (hcut : FirstAt (fun c => decide (topp < c)) (P.map Prod.snd) m)
    (hpick : FirstAt (fun c => decide (coin * sumTo (P.map Prod.snd) (m + 1) < c)) (P.map Prod.snd) i)
    (him : i ≤ m) {x : ℕ × F} (hx : P[i]? = some x) :
    sampleSorted candidates topp coin = .ok x.1 := by
  have hlast : ((m : ℤ) + 1).toNat = m + 1 := by omega
  have htaken := (firstAt_take (Nat.lt_succ_of_le him)).mpr hpick
  have hread : readIndex P i = .ok x.1 := by
    unfold readIndex
    rw [if_neg (by omega), Int.toNat_natCast, hx]
  unfold sampleSorted
  simp only [hsort, hcut.addUntil_zero, Option.elim_some, hlast, htaken.addUntil_zero, hread]

/-- Nothing can be picked from no candidates. -/
theorem sampleSorted_nil (topp coin : F) :
    sampleSorted [] topp coin = .error "read before the candidates" := by
  simp [sampleSorted, addUntil, readIndex]

variable [IsStrictOrderedRing F]

/-- With a coin below one, a sum that is positive has a place that is picked. -/
theorem exists_pick {values : List F} {m : ℕ} (hm : m < values.length)
    (hpos : 0 < sumTo values (m + 1)) (hcoin : coin < 1) :
    ∃ i ≤ m, FirstAt (fun c => decide (coin * sumTo values (m + 1) < c)) values i := by
  apply exists_firstAt hm
  rw [decide_eq_true_eq]
  calc coin * sumTo values (m + 1) < 1 * sumTo values (m + 1) := mul_lt_mul_of_pos_right hcoin hpos
    _ = sumTo values (m + 1) := one_mul _

end Pick

section Crop

variable {probabilities : List F} {topp coin : F}

/-- Some probability is a candidate. -/
def SomeCandidate (probabilities : List F) (topp : F) : Prop :=
  2 ≤ probabilities.length ∧ ∃ p ∈ probabilities, cutoff probabilities.length topp ≤ p

/-- Sampling picks an index, whose larger probabilities do not exceed the bound, and which is picked too when
all probabilities are candidates. -/
structure Samples (probabilities : List F) (topp coin : F) (index : ℕ) : Prop where
  /-- The index that is picked. -/
  picks : sample_topp probabilities topp coin = .ok index
  /-- It is an index of the probabilities. -/
  lt : index < probabilities.length
  /-- The larger probabilities. -/
  larger : ∀ p, probabilities[index]? = some p →
    (probabilities.filter fun q => decide (p < q)).sum ≤ topp
  /-- The pick without the crop. -/
  uncropped : sampleToppUncropped probabilities topp coin = .ok index

/-- The probabilities, largest first. -/
def descending (probabilities : List F) : List F := (ranked probabilities).map Prod.snd

section

omit [Field F]

theorem descending_perm (probabilities : List F) : (descending probabilities).Perm probabilities := by
  have hvalues : (entries probabilities).map Prod.snd = probabilities := by
    rw [entries, List.map_map]
    exact List.zipIdx_map_fst 0 probabilities
  have hperm := (List.perm_insertionSort Precedes (entries probabilities)).map Prod.snd
  rw [hvalues] at hperm
  exact hperm

theorem ranked_pairwise (probabilities : List F) : (ranked probabilities).Pairwise Precedes :=
  List.pairwise_insertionSort Precedes _

theorem getElem?_descending {i : ℕ} {x : ℕ × F} (h : (ranked probabilities)[i]? = some x) :
    (descending probabilities)[i]? = some x.2 := by
  rw [descending, List.getElem?_map, h, Option.map_some]

/-- A place of the sorted probabilities has an index. -/
theorem getElem?_of_ranked {i : ℕ} {x : ℕ × F} (h : (ranked probabilities)[i]? = some x) :
    probabilities[x.1]? = some x.2 := by
  have hmem := (List.mem_insertionSort Precedes).mp (List.mem_of_getElem? h)
  obtain ⟨y, hy, heq⟩ := List.mem_map.mp hmem
  rw [← heq]
  exact List.mem_zipIdx_iff_getElem?.mp hy

end

/-- The last probability of the nucleus is a candidate, if any is: were it too small, so would be all behind
it, and those before it would have exceeded the bound. -/
theorem cutoff_le_cut [IsStrictOrderedRing F] (hsum : probabilities.sum = 1) (htopp : topp < 1)
    (hsome : SomeCandidate probabilities topp) {m : ℕ}
    (hcut : FirstAt (fun c => decide (topp < c)) (descending probabilities) m) {x : ℕ × F}
    (hx : (ranked probabilities)[m]? = some x) : cutoff probabilities.length topp ≤ x.2 := by
  have hperm := descending_perm probabilities
  have hlength := hperm.length_eq
  have hvalue := getElem?_descending hx
  by_contra hnot
  have hsmall := lt_of_not_ge hnot
  cases m with
  | zero =>
    obtain ⟨p, hp, hle⟩ := hsome.2
    obtain ⟨j, hj⟩ := List.mem_iff_getElem?.mp (hperm.mem_iff.mpr hp)
    obtain ⟨y, hy, heq⟩ : ∃ y, (ranked probabilities)[j]? = some y ∧ y.2 = p := by
      rw [descending, List.getElem?_map] at hj
      obtain ⟨y, hy, heq⟩ := Option.map_eq_some_iff.mp hj
      exact ⟨y, hy, heq⟩
    have hyx := value_le_of_pairwise (ranked_pairwise probabilities) hx hy (Nat.zero_le j)
    rw [heq] at hyx
    exact absurd (hle.trans hyx) hnot
  | succ m =>
    have hfront : sumTo (descending probabilities) (m + 1) ≤ topp := by
      have hbefore := hcut.before m (Nat.lt_succ_self m)
      rw [decide_eq_false_iff_not, not_lt] at hbefore
      exact hbefore
    have hback : ((descending probabilities).drop (m + 1)).sum ≤
        (probabilities.length - (m + 1) : ℕ) • x.2 := by
      have hbound := List.sum_le_card_nsmul ((descending probabilities).drop (m + 1)) x.2 (by
        intro v hv
        obtain ⟨j, hj⟩ := List.mem_iff_getElem?.mp hv
        rw [List.getElem?_drop, descending, List.getElem?_map] at hj
        obtain ⟨y, hy, heq⟩ := Option.map_eq_some_iff.mp hj
        rw [← heq]
        exact value_le_of_pairwise (ranked_pairwise probabilities) hx hy (by omega))
      rw [List.length_drop, hlength] at hbound
      exact hbound
    have htotal : sumTo (descending probabilities) (m + 1) +
        ((descending probabilities).drop (m + 1)).sum = 1 := by
      rw [sumTo, ← List.sum_append, List.take_append_drop, hperm.sum_eq, hsum]
    have hlt : m + 1 < probabilities.length := by
      rw [← hlength]
      exact hcut.lt
    obtain ⟨rest, hrest⟩ : ∃ rest, probabilities.length - (m + 1) = rest + 1 :=
      ⟨probabilities.length - (m + 1) - 1, by omega⟩
    have hfew : ((rest + 1 : ℕ) : F) ≤ (probabilities.length : F) - 1 := by
      have hcount : rest + 1 + 1 ≤ probabilities.length := by omega
      have hcast : ((rest + 1 + 1 : ℕ) : F) ≤ (probabilities.length : F) := Nat.cast_le.mpr hcount
      rw [Nat.cast_succ] at hcast
      linarith
    have hpos : (0 : F) < ((rest + 1 : ℕ) : F) := Nat.cast_pos.mpr (Nat.succ_pos rest)
    have hbelow : ((rest + 1 : ℕ) : F) * x.2 < 1 - topp := by
      calc ((rest + 1 : ℕ) : F) * x.2
          < ((rest + 1 : ℕ) : F) * cutoff probabilities.length topp :=
            mul_lt_mul_of_pos_left hsmall hpos
        _ ≤ ((probabilities.length : F) - 1) * cutoff probabilities.length topp := by
            apply mul_le_mul_of_nonneg_right hfew
            exact div_nonneg (sub_nonneg.mpr (le_of_lt htopp)) (hpos.le.trans hfew)
        _ = 1 - topp := mul_div_cancel₀ _ (ne_of_gt (lt_of_lt_of_le hpos hfew))
    rw [hrest, nsmul_eq_mul] at hback
    linarith

/-- The crop keeps the nucleus. -/
theorem sample_topp_ok [IsStrictOrderedRing F] (hsum : probabilities.sum = 1) (htopp : topp < 1)
    (hsome : SomeCandidate probabilities topp) {m i : ℕ}
    (hcut : FirstAt (fun c => decide (topp < c)) (descending probabilities) m)
    (hpick : FirstAt (fun c => decide (coin * sumTo (descending probabilities) (m + 1) < c))
      (descending probabilities) i) (him : i ≤ m) {x : ℕ × F}
    (hx : (ranked probabilities)[i]? = some x) : sample_topp probabilities topp coin = .ok x.1 := by
  have hplaces : (ranked probabilities).length = (descending probabilities).length := by
    rw [descending, List.length_map]
  obtain ⟨last, hlast⟩ : ∃ last, (ranked probabilities)[m]? = some last := by
    have hlt := hcut.lt
    exact ⟨_, List.getElem?_eq_getElem (by omega)⟩
  obtain ⟨k, hfilter, hdrop, _⟩ :=
    filter_eq_take (ranked_pairwise probabilities) (cutoff probabilities.length topp)
  have hmk : m < k := by
    by_contra hnot
    have hout : last ∈ (ranked probabilities).drop k := by
      apply List.mem_iff_getElem?.mpr
      refine ⟨m - k, ?_⟩
      rw [List.getElem?_drop, Nat.add_sub_cancel' (Nat.le_of_not_lt hnot)]
      exact hlast
    exact absurd (cutoff_le_cut hsum htopp hsome hcut hlast) (not_le_of_gt (hdrop last hout))
  have hik : i < k := Nat.lt_of_le_of_lt him hmk
  have hcropped : ((entries probabilities).filter fun x =>
      decide (cutoff probabilities.length topp ≤ x.2)).insertionSort compare =
        (ranked probabilities).take k := by
    rw [insertionSort_compare ((entries_pairwise probabilities).filter _), insertionSort_filter,
      ← hfilter]
    exact Eq.refl _
  have hvalues : ((ranked probabilities).take k).map Prod.snd =
      (descending probabilities).take k := List.map_take
  have hlong := hsome.1
  have hbatch : ¬((probabilities.length : ℤ) - 1 = 0) := by omega
  unfold sample_topp
  rw [if_neg hbatch]
  apply sampleSorted_ok hcropped
  · rw [hvalues]
    exact (firstAt_take hmk).mpr hcut
  · rw [hvalues, sumTo_take hmk]
    exact (firstAt_take hik).mpr hpick
  · exact him
  · rw [List.getElem?_take, if_pos hik, hx]

/-- The sum of all probabilities passes the test, so some partial sum is the first to. -/
theorem exists_cut (test : F → Bool) (hn : 1 ≤ probabilities.length) (hsum : probabilities.sum = 1)
    (htest : test 1 = true) : ∃ m, FirstAt test (descending probabilities) m := by
  have hperm := descending_perm probabilities
  have hlength := hperm.length_eq
  have hall : probabilities.length - 1 + 1 = (descending probabilities).length := by omega
  have hlast : test (sumTo (descending probabilities) (probabilities.length - 1 + 1)) = true := by
    rw [hall, sumTo_length, hperm.sum_eq, hsum]
    exact htest
  obtain ⟨m, _, hm⟩ := exists_firstAt (by omega) hlast
  exact ⟨m, hm⟩

/-- With a candidate the nucleus is found, and the pick is in it. -/
theorem samples_of_someCandidate [IsStrictOrderedRing F]
    (hnonneg : ∀ p ∈ probabilities, 0 ≤ p) (hsum : probabilities.sum = 1)
    (hpos : 0 ≤ topp) (htopp : topp < 1) (hcoin : coin < 1)
    (hsome : SomeCandidate probabilities topp) : ∃ index, Samples probabilities topp coin index := by
  have hperm := descending_perm probabilities
  have hlength := hperm.length_eq
  have hsorted : (entries probabilities).insertionSort compare = ranked probabilities :=
    insertionSort_compare (entries_pairwise probabilities)
  have hlong := hsome.1
  obtain ⟨m, hcut⟩ := exists_cut (fun c => decide (topp < c)) (by omega) hsum (decide_eq_true htopp)
  have hexceeds : topp < sumTo (descending probabilities) (m + 1) := of_decide_eq_true hcut.holds
  obtain ⟨i, him, hpick⟩ := exists_pick hcut.lt (lt_of_le_of_lt hpos hexceeds) hcoin
  have hplaces : (ranked probabilities).length = (descending probabilities).length := by
    rw [descending, List.length_map]
  obtain ⟨x, hx⟩ : ∃ x, (ranked probabilities)[i]? = some x := by
    have hlt := hpick.lt
    exact ⟨_, List.getElem?_eq_getElem (by omega)⟩
  have hindex := getElem?_of_ranked hx
  refine ⟨x.1, sample_topp_ok hsum htopp hsome hcut hpick him hx,
    (List.getElem?_eq_some_iff.mp hindex).1, ?_, sampleSorted_ok hsorted hcut hpick him hx⟩
  · -- The larger probabilities are before the pick.
    intro p hp
    rw [hindex] at hp
    injection hp with hp
    have hnonneg' : ∀ v ∈ descending probabilities, 0 ≤ v := fun v hv =>
      hnonneg v (hperm.mem_iff.mp hv)
    have hfront : (probabilities.filter fun q => decide (p < q)).sum =
        (((descending probabilities).take i).filter fun q => decide (p < q)).sum := by
      have hback : ((descending probabilities).drop i).filter (fun q => decide (p < q)) = [] := by
        apply List.filter_eq_nil_iff.mpr
        intro v hv
        obtain ⟨j, hj⟩ := List.mem_iff_getElem?.mp hv
        rw [List.getElem?_drop, descending, List.getElem?_map] at hj
        obtain ⟨y, hy, heq⟩ := Option.map_eq_some_iff.mp hj
        rw [← heq, ← hp, decide_eq_true_eq, not_lt]
        exact value_le_of_pairwise (ranked_pairwise probabilities) hx hy (Nat.le_add_right i j)
      rw [← (hperm.filter _).sum_eq, ← List.take_append_drop i (descending probabilities),
        List.filter_append, hback, List.append_nil, List.take_append_drop]
    have hle : (((descending probabilities).take i).filter fun q => decide (p < q)).sum ≤
        sumTo (descending probabilities) i :=
      List.filter_sublist.sum_le_sum fun v hv => hnonneg' v (List.mem_of_mem_take hv)
    rw [hfront]
    apply hle.trans
    cases m with
    | zero =>
      rw [Nat.le_zero.mp him, sumTo_zero]
      exact hpos
    | succ m =>
      have hbefore := hcut.before m (Nat.lt_succ_self m)
      rw [decide_eq_false_iff_not, not_lt] at hbefore
      exact (sumTo_mono hnonneg' him).trans hbefore

/-- Without a candidate nothing can be picked. -/
theorem someCandidate_of_picks {index : ℕ} (h : sample_topp probabilities topp coin = .ok index)
    (hn : 1 ≤ probabilities.length) : SomeCandidate probabilities topp := by
  unfold sample_topp at h
  split at h
  · cases h
  · rename_i hone
    refine ⟨by omega, ?_⟩
    by_contra hnone
    have hempty : (entries probabilities).filter
        (fun x => decide (cutoff probabilities.length topp ≤ x.2)) = [] := by
      apply List.filter_eq_nil_iff.mpr
      intro x hx
      rw [decide_eq_true_eq]
      intro hle
      obtain ⟨y, hy, heq⟩ := List.mem_map.mp hx
      have hvalue := List.mem_zipIdx_iff_getElem?.mp hy
      exact hnone ⟨x.2, heq ▸ List.mem_of_getElem? hvalue, hle⟩
    rw [hempty, sampleSorted_nil] at h
    cases h

/-- Sampling from probabilities fails when there is one of them, or none is a candidate, and is right
otherwise. -/
theorem sample_topp_iff [IsStrictOrderedRing F]
    (hn : 1 ≤ probabilities.length) (hnonneg : ∀ p ∈ probabilities, 0 ≤ p)
    (hsum : probabilities.sum = 1) (hpos : 0 < topp) (htopp : topp < 1) (hcoin : 0 ≤ coin ∧ coin < 1) :
    (∃ index, Samples probabilities topp coin index) ↔ SomeCandidate probabilities topp := by
  constructor
  · intro h
    obtain ⟨index, hsamples⟩ := h
    exact someCandidate_of_picks hsamples.picks hn
  · exact samples_of_someCandidate hnonneg hsum (le_of_lt hpos) htopp hcoin.2

end Crop

/-- Two equal probabilities, which are candidates for a bound of a half. -/
theorem sample_topp_iff_halves :
    ∃ index, Samples [(1 / 2 : ℚ), 1 / 2] (1 / 2) 0 index := by
  apply (sample_topp_iff (by decide) (by decide +kernel) (by decide +kernel) (by decide +kernel)
    (by decide +kernel) (by decide +kernel)).mpr
  exact ⟨by decide, 1 / 2, List.mem_cons_self, by norm_num [cutoff]⟩

/-- For a smaller bound neither of them is one. -/
theorem not_samples_halves : ¬∃ index, Samples [(1 / 2 : ℚ), 1 / 2] (3 / 10) 0 index := by
  intro h
  obtain ⟨index, hsamples⟩ := h
  obtain ⟨_, p, hp, hle⟩ := someCandidate_of_picks hsamples.picks (by decide)
  have hhalf : p = 1 / 2 := by simpa using hp
  rw [hhalf] at hle
  norm_num [cutoff] at hle

end LayerSkip.NucleusSampling
