import LayerSkip.MoeBlock
import LayerSkip.NucleusSampling

/-!
# Sampling from the best logits

The root samples from all logits, or from the best ones that the last stage sent. The second way has a nucleus
of its own, which ends where the sum reaches the bound instead of exceeding it, and whose pick is the first
sum that reaches the coin's part instead of exceeding it. Computed in exact arithmetic; the sorts keep the
order of equal probabilities.
-/

namespace LayerSkip.SamplerTopK

open StableSelection TopKLogits PartialSums NucleusSampling MoeKernels MoeBlock GreedySampling

section Model

variable {F : Type} [Field F] [LinearOrder F]

/-- Pick from all probabilities. -/
def sample_mult (probabilities : List F) (coin : F) : ℕ :=
  (addUntil (fun cdf => decide (coin < cdf)) 0 probabilities).1.getD (probabilities.length - 1)

variable (e : Exponential F)

/-- Probabilities of a row of logits. -/
def rowProbabilities (temperature : F) (logits : List F) : List F :=
  (List.range logits.length).map
    (softmax_F32 e logits.length fun i => (logits.map fun x => x / temperature).getD i 0)

/-- `Sampler::sample`. -/
def sample (temperature topp coin : F) (logits : List F) : Except String ℕ :=
  if temperature = 0 then .ok (sampleArgmax logits)
  else if topp ≤ 0 ∨ 1 ≤ topp then .ok (sample_mult (rowProbabilities e temperature logits) coin)
  else sample_topp (rowProbabilities e temperature logits) topp coin

/-- Read an index of the payload. -/
def readPayload (indices : List ℕ) (i : ℕ) : Except String ℕ :=
  match indices[i]? with
  | none => .error "read behind the indices"
  | some index => .ok index

/-- Order of the places by their probabilities. -/
def byProbability (probs : List F) (a b : ℕ) : Prop := probs.getD b 0 ≤ probs.getD a 0

instance (probs : List F) : DecidableRel (byProbability probs) := fun a b =>
  inferInstanceAs (Decidable (probs.getD b 0 ≤ probs.getD a 0))

/-- Largest scaled logit, if there is one. -/
def maxLogit (invTemp : F) (logits : List F) : Option F :=
  logits.foldl (fun best x =>
    if best.elim true fun m => decide (m < x * invTemp) then some (x * invTemp) else best) none

/-- Place that is picked from the nucleus of the payload. -/
def pickNucleus (probs : List F) (topp coin : F) : ℕ :=
  let order := (List.range probs.length).insertionSort (byProbability probs)
  let sorted := order.map fun i => probs.getD i 0
  let cut := addUntil (fun cumulative => decide (topp ≤ cumulative)) 0 sorted
  let cutoff := cut.1.getD (probs.length - 1)
  let target := coin * cut.2
  let place := (addUntil (fun cdf => decide (target ≤ cdf)) 0 (sorted.take (cutoff + 1))).1.getD cutoff
  order.getD place 0

/-- `Sampler::sampleTopK`. -/
def sampleTopK (temperature topp coin : F) (indices : List ℕ) (logits : List F) : Except String ℕ :=
  if logits.length = 0 then .error "Invalid top-k logits payload"
  else if temperature = 0 then readPayload indices (sampleArgmax logits)
  else
    let invTemp := 1 / temperature
    let weights := logits.map fun x => e.expf (x * invTemp - (maxLogit invTemp logits).getD 0)
    if weights.sum ≤ 0 then readPayload indices 0
    else
      let probs := weights.map fun w => w / weights.sum
      if topp ≤ 0 ∨ 1 ≤ topp then readPayload indices (sample_mult probs coin)
      else readPayload indices (pickNucleus probs topp coin)

/-- Indices and logits of a payload, whose indices are truncated. -/
def unpackTopK [FloorSemiring F] : List (WithBot F) → List (ℕ × F)
  | index :: logit :: packed => (⌊index.unbotD 0⌋₊, logit.unbotD 0) :: unpackTopK packed
  | _ => []

/-- All logits of a row as the root gets them. -/
def payload [FloorSemiring F] (row : List F) : List (ℕ × F) :=
  unpackTopK (packTopKLogits (fun i => ((i : F) : WithBot F)) (row.map WithBot.some) row.length)

end Model

section Ranked

variable {F G : Type} [LinearOrder F] [LinearOrder G]

/-- Numbers that grow with the logits are sorted alike. -/
theorem ranked_map {f : F → G} (hf : StrictMono f) (l : List F) :
    ranked (l.map f) = (ranked l).map fun x => (x.1, f x.2) := by
  have hentries : (l.map f).zipIdx.map Prod.swap =
      (l.zipIdx.map Prod.swap).map fun x => (x.1, f x.2) := by
    rw [List.zipIdx_map, List.map_map, List.map_map]
    exact Eq.refl _
  have horder : ∀ x y : ℕ × F, Precedes x y ↔ Precedes (x.1, f x.2) (y.1, f y.2) := by
    intro x y
    simp only [Precedes, hf.lt_iff_lt, hf.injective.eq_iff]
  unfold ranked
  rw [hentries, List.map_insertionSort Precedes Precedes (fun x : ℕ × F => (x.1, f x.2)) _
    fun x _ y _ => horder x y]

theorem ranked_indices_nodup (l : List F) : ((ranked l).map Prod.fst).Nodup := by
  have hindices : (l.zipIdx.map Prod.swap).map Prod.fst = List.range' 0 l.length := by
    rw [List.map_map]
    exact List.zipIdx_map_snd 0 l
  have hperm := (List.perm_insertionSort Precedes (l.zipIdx.map Prod.swap)).map Prod.fst
  rw [hindices] at hperm
  exact hperm.nodup_iff.mpr List.nodup_range'

end Ranked

section Payload

variable {F : Type} [Field F] [LinearOrder F] [IsStrictOrderedRing F] [FloorSemiring F]

theorem unpackTopK_flatMap (l : List (ℕ × F)) :
    unpackTopK (l.flatMap fun x => [((x.1 : F) : WithBot F), (x.2 : WithBot F)]) = l := by
  induction l with
  | nil => exact Eq.refl _
  | cons x l ih =>
    rw [List.flatMap_cons, List.cons_append, List.cons_append, List.nil_append, unpackTopK, ih]
    simp

/-- A payload of all logits holds them sorted. -/
theorem payload_eq (row : List F) : payload row = ranked row := by
  have hcoe : StrictMono (WithBot.some : F → WithBot F) := WithBot.coe_strictMono
  have hlength : (ranked row).length = row.length := by
    rw [ranked, List.length_insertionSort, List.length_map, List.length_zipIdx]
  rw [payload, packTopKLogits_eq, List.length_map, Nat.min_self, ranked_map hcoe, List.take_of_length_le
    (by rw [List.length_map, hlength]), List.flatMap_map]
  exact unpackTopK_flatMap _

end Payload

section Probabilities

variable {F : Type} [Field F] [LinearOrder F]

omit [LinearOrder F] in
theorem map_range_getD {G : Type} (g : F → G) (l : List F) :
    (List.range l.length).map (fun i => g (l.getD i 0)) = l.map g := by
  apply List.ext_getElem
  · simp
  · intro i hi hi'
    simp only [List.length_map, List.length_range] at hi
    simp [List.getD_eq_getElem?_getD, hi]

variable [IsStrictOrderedRing F] (e : Exponential F)

/-- Sum of the exponentials of a row. -/
def total (temperature : F) (row : List F) : F := (row.map fun x => e.expf (x / temperature)).sum

theorem total_pos (temperature : F) {row : List F} (h : row ≠ []) : 0 < total e temperature row := by
  apply List.sum_pos
  · intro y hy
    obtain ⟨x, _, heq⟩ := List.mem_map.mp hy
    rw [← heq]
    exact e.expf_pos _
  · simpa using h

omit [IsStrictOrderedRing F] in
theorem total_perm {temperature : F} {row row' : List F} (h : row.Perm row') :
    total e temperature row = total e temperature row' := (h.map _).sum_eq

/-- The softmax of a row. -/
theorem rowProbabilities_eq (temperature : F) (row : List F) :
    rowProbabilities e temperature row =
      row.map fun x => e.expf (x / temperature) / total e temperature row := by
  have hsum : ∑ j ∈ Finset.range row.length,
      e.expf ((row.map fun x => x / temperature).getD j 0) = total e temperature row := by
    have hlist : ∑ j ∈ Finset.range row.length, e.expf ((row.map fun x => x / temperature).getD j 0) =
        ((List.range row.length).map fun j =>
          e.expf ((row.map fun x => x / temperature).getD j 0)).sum := Eq.refl _
    have hmap := map_range_getD e.expf (row.map fun x => x / temperature)
    rw [List.length_map, List.map_map] at hmap
    rw [hlist, hmap]
    exact Eq.refl _
  have hvalue : rowProbabilities e temperature row = (List.range row.length).map fun i =>
      e.expf ((row.map fun x => x / temperature).getD i 0) / total e temperature row := by
    apply List.map_congr_left
    intro i hi
    rw [softmax_F32_eq e _ (List.mem_range.mp hi), hsum]
  have hmap := map_range_getD (fun y => e.expf y / total e temperature row)
    (row.map fun x => x / temperature)
  rw [List.length_map, List.map_map] at hmap
  rw [hvalue, hmap]
  exact Eq.refl _

/-- Exponentials of logits that are lowered by the largest one have the same ratios. -/
theorem weights_eq (temperature m : F) {l : List F} (h : l ≠ []) :
    0 < (l.map fun x => e.expf (x * (1 / temperature) - m)).sum ∧
      (l.map fun x => e.expf (x * (1 / temperature) - m)).map
          (fun w => w / (l.map fun x => e.expf (x * (1 / temperature) - m)).sum) =
        l.map fun x => e.expf (x / temperature) / total e temperature l := by
  have hlowered : ∀ x, e.expf (x * (1 / temperature) - m) = e.expf (x / temperature) * e.expf (-m) := by
    intro x
    rw [← e.expf_add, mul_one_div, sub_eq_add_neg]
  have hsum : (l.map fun x => e.expf (x * (1 / temperature) - m)).sum =
      total e temperature l * e.expf (-m) := by
    simp only [hlowered, total, List.sum_map_mul_right]
  have hpos := e.expf_pos (-m)
  constructor
  · rw [hsum]
    exact mul_pos (total_pos e temperature h) hpos
  · rw [hsum, List.map_map]
    apply List.map_congr_left
    intro x _
    simp only [Function.comp_apply, hlowered]
    exact mul_div_mul_right _ _ (ne_of_gt hpos)

/-- A probability grows with its logit. -/
theorem probability_strictMono {temperature : F} (htemperature : 0 < temperature) {row : List F}
    (h : row ≠ []) : StrictMono fun x => e.expf (x / temperature) / total e temperature row := by
  intro x y hxy
  exact div_lt_div_of_pos_right (e.expf_strictMono (div_lt_div_of_pos_right hxy htemperature))
    (total_pos e temperature h)

end Probabilities

section Pick

variable {F : Type} [Field F] [LinearOrder F]

/-- The nucleus of sorted probabilities. -/
theorem pickNucleus_eq {probs : List F} (hsorted : probs.Pairwise fun a b => b ≤ a) {topp coin : F}
    {m i : ℕ} (hcut : FirstAt (fun c => decide (topp ≤ c)) probs m)
    (hpick : FirstAt (fun c => decide (coin * sumTo probs (m + 1) ≤ c)) probs i) (him : i ≤ m) :
    pickNucleus probs topp coin = i := by
  have horder : (List.range probs.length).insertionSort (byProbability probs) =
      List.range probs.length := by
    apply List.Pairwise.insertionSort_eq
    rw [List.pairwise_iff_getElem]
    intro a b ha hb hab
    rw [List.length_range] at ha hb
    have hle := List.pairwise_iff_getElem.mp hsorted a b ha hb hab
    simpa [byProbability, List.getD_eq_getElem?_getD, ha, hb] using hle
  have hvalues : (List.range probs.length).map (fun i => probs.getD i 0) = probs := by
    have hmap := map_range_getD id probs
    rw [List.map_id] at hmap
    exact hmap
  have htaken := (firstAt_take (Nat.lt_succ_of_le him)).mpr hpick
  have hread : (List.range probs.length).getD i 0 = i := by
    simp [List.getD_eq_getElem?_getD, hpick.lt]
  unfold pickNucleus
  simp only [horder, hvalues, hcut.addUntil_zero, Option.getD_some, htaken.addUntil_zero, hread]

end Pick

section Agree

variable {F : Type} [Field F] [LinearOrder F] [IsStrictOrderedRing F] (e : Exponential F)
  {temperature topp coin : F} {row : List F}

theorem descending_rowProbabilities (htemperature : 0 < temperature) (h : row ≠ []) :
    ranked (rowProbabilities e temperature row) =
        (ranked row).map (fun x => (x.1, e.expf (x.2 / temperature) / total e temperature row)) ∧
      descending (rowProbabilities e temperature row) =
        ((ranked row).map Prod.snd).map
          fun x => e.expf (x / temperature) / total e temperature row := by
  have hranked : ranked (rowProbabilities e temperature row) =
      (ranked row).map fun x => (x.1, e.expf (x.2 / temperature) / total e temperature row) := by
    rw [rowProbabilities_eq, ranked_map (probability_strictMono e htemperature h)]
  refine ⟨hranked, ?_⟩
  rw [descending, hranked, List.map_map, List.map_map]
  exact Eq.refl _

theorem rowProbabilities_nonneg (temperature : F) (row : List F) :
    ∀ p ∈ rowProbabilities e temperature row, 0 ≤ p := by
  intro p hp
  rw [rowProbabilities_eq] at hp
  obtain ⟨x, hx, heq⟩ := List.mem_map.mp hp
  rw [← heq]
  exact le_of_lt (div_pos (e.expf_pos _) (total_pos e temperature (List.ne_nil_of_mem hx)))

theorem rowProbabilities_sum (temperature : F) (h : row ≠ []) :
    (rowProbabilities e temperature row).sum = 1 := by
  rw [rowProbabilities_eq]
  simp only [div_eq_mul_inv _ (total e temperature row)]
  rw [List.sum_map_mul_right]
  exact mul_inv_cancel₀ (ne_of_gt (total_pos e temperature h))

/-- What the sampler of the whole row picks. -/
theorem sample_ok (htemperature : 0 < temperature) (htopp : 0 < topp ∧ topp < 1)
    (hsome : SomeCandidate (rowProbabilities e temperature row) topp) {m i : ℕ}
    (hcut : FirstAt (fun c => decide (topp < c)) (descending (rowProbabilities e temperature row)) m)
    (hpick : FirstAt (fun c => decide
        (coin * sumTo (descending (rowProbabilities e temperature row)) (m + 1) < c))
      (descending (rowProbabilities e temperature row)) i) (him : i ≤ m) {x : ℕ × F}
    (hx : (ranked row)[i]? = some x) : sample e temperature topp coin row = .ok x.1 := by
  have hne : row ≠ [] := by
    intro h
    have hlong := hsome.1
    rw [h] at hlong
    simp [rowProbabilities] at hlong
  have hout : ¬(topp ≤ 0 ∨ 1 ≤ topp) :=
    not_or.mpr ⟨not_le_of_gt htopp.1, not_le_of_gt htopp.2⟩
  have hplace : (ranked (rowProbabilities e temperature row))[i]? =
      some (x.1, e.expf (x.2 / temperature) / total e temperature row) := by
    rw [(descending_rowProbabilities e htemperature hne).1, List.getElem?_map, hx, Option.map_some]
  unfold sample
  rw [if_neg (ne_of_gt htemperature), if_neg hout]
  have hsampled := sample_topp_ok (rowProbabilities_sum e temperature hne) htopp.2 hsome hcut hpick him
    hplace
  exact hsampled

/-- What the sampler of the payload picks. -/
theorem sampleTopK_ok [FloorSemiring F] (htemperature : 0 < temperature)
    (htopp : 0 < topp ∧ topp < 1) {m i : ℕ}
    (hcut : FirstAt (fun c => decide (topp ≤ c)) (descending (rowProbabilities e temperature row)) m)
    (hpick : FirstAt (fun c => decide
        (coin * sumTo (descending (rowProbabilities e temperature row)) (m + 1) ≤ c))
      (descending (rowProbabilities e temperature row)) i) (him : i ≤ m) {x : ℕ × F}
    (hx : (ranked row)[i]? = some x) :
    sampleTopK e temperature topp coin ((payload row).map Prod.fst) ((payload row).map Prod.snd) =
      .ok x.1 := by
  have hranked : ranked row ≠ [] := List.ne_nil_of_mem (List.mem_of_getElem? hx)
  have hperm : ((ranked row).map Prod.snd).Perm row := descending_perm row
  have hne : row ≠ [] := by
    intro h
    rw [h] at hranked
    exact hranked (Eq.refl _)
  have hlogits : (ranked row).map Prod.snd ≠ [] := by simpa using hranked
  have hlength : ((ranked row).map Prod.snd).length ≠ 0 := by simpa using hranked
  have hout : ¬(topp ≤ 0 ∨ 1 ≤ topp) :=
    not_or.mpr ⟨not_le_of_gt htopp.1, not_le_of_gt htopp.2⟩
  have hweights := weights_eq e temperature
    ((maxLogit (1 / temperature) ((ranked row).map Prod.snd)).getD 0) hlogits
  rw [total_perm e hperm, ← (descending_rowProbabilities e htemperature hne).2] at hweights
  have hsorted : (descending (rowProbabilities e temperature row)).Pairwise fun a b => b ≤ a := by
    rw [descending, List.pairwise_map]
    exact (ranked_pairwise _).imp fun h => h.value_le
  have hindex : ((ranked row).map Prod.fst)[i]? = some x.1 := by
    rw [List.getElem?_map, hx, Option.map_some]
  unfold sampleTopK
  rw [payload_eq, if_neg hlength, if_neg (ne_of_gt htemperature)]
  simp only [not_le_of_gt hweights.1, hweights.2, if_neg hout, if_false, readPayload,
    pickNucleus_eq hsorted hcut hpick him, hindex]

/-- No partial sum of the probabilities, largest first, lies between the coin's parts of the two nuclei. -/
def NoSumBetween (values : List F) (topp coin : F) : Prop :=
  ∀ m m', FirstAt (fun c => decide (topp < c)) values m → FirstAt (fun c => decide (topp ≤ c)) values m' →
    ∀ j < values.length, ¬(coin * sumTo values (m' + 1) ≤ sumTo values (j + 1) ∧
      sumTo values (j + 1) ≤ coin * sumTo values (m + 1))

/-- The two samplers pick the same token when no partial sum lies between the coin's parts of the two nuclei,
and only then. -/
theorem sampleTopK_eq_sample_iff [FloorSemiring F] (htemperature : 0 < temperature)
    (htopp : 0 < topp ∧ topp < 1) (hcoin : 0 ≤ coin ∧ coin < 1)
    (hsome : SomeCandidate (rowProbabilities e temperature row) topp) :
    sampleTopK e temperature topp coin ((payload row).map Prod.fst) ((payload row).map Prod.snd) =
        sample e temperature topp coin row ↔
      NoSumBetween (descending (rowProbabilities e temperature row)) topp coin := by
  have hlong := hsome.1
  have hperm := descending_perm (rowProbabilities e temperature row)
  have hne : row ≠ [] := by
    intro h
    rw [h] at hlong
    simp [rowProbabilities] at hlong
  have hsum := rowProbabilities_sum e temperature hne
  have hnonneg : ∀ v ∈ descending (rowProbabilities e temperature row), 0 ≤ v := fun v hv =>
    rowProbabilities_nonneg e temperature row v (hperm.mem_iff.mp hv)
  obtain ⟨m, hcut⟩ := exists_cut (fun c => decide (topp < c)) (by omega) hsum
    (decide_eq_true htopp.2)
  obtain ⟨m', hcut'⟩ := exists_cut (fun c => decide (topp ≤ c)) (by omega) hsum
    (decide_eq_true (le_of_lt htopp.2))
  have hexceeds : topp < sumTo (descending (rowProbabilities e temperature row)) (m + 1) :=
    of_decide_eq_true hcut.holds
  have hreaches : topp ≤ sumTo (descending (rowProbabilities e temperature row)) (m' + 1) :=
    of_decide_eq_true hcut'.holds
  obtain ⟨i, him, hpick⟩ := exists_pick hcut.lt (htopp.1.trans hexceeds) hcoin.2
  obtain ⟨i', him', hpick'⟩ : ∃ i' ≤ m', FirstAt (fun c => decide
      (coin * sumTo (descending (rowProbabilities e temperature row)) (m' + 1) ≤ c))
      (descending (rowProbabilities e temperature row)) i' := by
    apply exists_firstAt hcut'.lt
    rw [decide_eq_true_eq]
    exact mul_le_of_le_one_left ((le_of_lt htopp.1).trans hreaches) (le_of_lt hcoin.2)
  have hplaces : (ranked row).length = (descending (rowProbabilities e temperature row)).length := by
    rw [(descending_rowProbabilities e htemperature hne).2, List.length_map, List.length_map]
  have hlt := hpick.lt
  have hlt' := hpick'.lt
  rw [← hplaces] at hlt hlt'
  have hx := List.getElem?_eq_getElem hlt
  have hx' := List.getElem?_eq_getElem hlt'
  rw [sample_ok e htemperature htopp hsome hcut hpick him hx,
    sampleTopK_ok e htemperature htopp hcut' hpick' him' hx']
  have hparts : coin * sumTo (descending (rowProbabilities e temperature row)) (m' + 1) ≤
      coin * sumTo (descending (rowProbabilities e temperature row)) (m + 1) := by
    apply mul_le_mul_of_nonneg_left _ hcoin.1
    have hle : m' ≤ m := hcut'.le_of_holds (decide_eq_true (le_of_lt hexceeds))
    exact sumTo_mono hnonneg (Nat.succ_le_succ hle)
  have hsame : (Except.ok ((ranked row)[i']).1 : Except String ℕ) = .ok ((ranked row)[i]).1 ↔
      i' = i := by
    constructor
    · intro h
      injection h with h
      have hget : ((ranked row).map Prod.fst)[i']? = ((ranked row).map Prod.fst)[i]? := by
        rw [List.getElem?_map, List.getElem?_map, hx, hx', Option.map_some, Option.map_some, h]
      have hin : i' < ((ranked row).map Prod.fst).length := by
        rw [List.length_map]
        exact hlt'
      exact (List.getElem?_inj hin (ranked_indices_nodup row)).mp hget
    · intro h
      subst h
      exact Eq.refl _
  rw [hsame, firstAt_eq_iff hnonneg hparts hpick hpick']
  constructor
  · intro hnone k k' hk hk'
    rw [hk.unique hcut, hk'.unique hcut']
    exact hnone
  · intro hnone
    exact hnone m m' hcut hcut'

end Agree

section Halves

/-- Two equal logits are equally probable. -/
theorem rowProbabilities_halves : rowProbabilities realExponential 1 [0, 0] = [1 / 2, 1 / 2] := by
  have hpos := realExponential.expf_pos 0
  have hhalf : realExponential.expf 0 / (realExponential.expf 0 + realExponential.expf 0) = 1 / 2 := by
    field_simp
    norm_num
  rw [rowProbabilities_eq]
  simp [total, hhalf]

theorem descending_halves : descending [(1 / 2 : ℝ), 1 / 2] = [1 / 2, 1 / 2] := by
  have hperm := descending_perm [(1 / 2 : ℝ), 1 / 2]
  have hequal : [(1 / 2 : ℝ), 1 / 2] = List.replicate 2 (1 / 2) := Eq.refl _
  rw [hequal] at hperm ⊢
  exact List.perm_replicate.mp hperm

theorem someCandidate_halves : SomeCandidate (rowProbabilities realExponential 1 [0, 0]) (1 / 2) := by
  rw [rowProbabilities_halves]
  exact ⟨by simp, 1 / 2, List.mem_cons_self, by norm_num [cutoff]⟩

/-- The two samplers agree on them for the least coin. -/
theorem sampleTopK_eq_sample_halves :
    sampleTopK realExponential 1 (1 / 2) 0 ((payload [(0 : ℝ), 0]).map Prod.fst)
      ((payload [(0 : ℝ), 0]).map Prod.snd) = sample realExponential 1 (1 / 2) 0 [0, 0] := by
  apply (sampleTopK_eq_sample_iff realExponential one_pos (by norm_num) (by norm_num)
    someCandidate_halves).mpr
  rw [rowProbabilities_halves, descending_halves]
  intro m m' _ _ j hj hbetween
  rw [zero_mul, zero_mul] at hbetween
  have hle := hbetween.2
  cases j with
  | zero => norm_num [sumTo] at hle
  | succ j =>
    have hzero : j = 0 := by
      simp only [List.length_cons, List.length_nil] at hj
      omega
    rw [hzero] at hle
    norm_num [sumTo] at hle

/-- They disagree for a larger coin. -/
theorem not_sampleTopK_eq_sample_halves :
    ¬∀ (row : List ℝ) (temperature topp coin : ℝ), 0 < temperature → 0 < topp ∧ topp < 1 →
      0 ≤ coin ∧ coin < 1 → SomeCandidate (rowProbabilities realExponential temperature row) topp →
      sampleTopK realExponential temperature topp coin ((payload row).map Prod.fst)
        ((payload row).map Prod.snd) = sample realExponential temperature topp coin row := by
  intro h
  have hagree := h [0, 0] 1 (1 / 2) (3 / 5) one_pos (by norm_num) (by norm_num) someCandidate_halves
  have hranked : ranked [(0 : ℝ), 0] = [(0, 0), (1, 0)] := by
    apply List.Pairwise.insertionSort_eq
    simp [Precedes]
  have htopp : (0 : ℝ) < 1 / 2 ∧ (1 / 2 : ℝ) < 1 := by norm_num
  have hvalues : descending (rowProbabilities realExponential 1 [0, 0]) = [1 / 2, 1 / 2] := by
    rw [rowProbabilities_halves, descending_halves]
  have hfull : sample realExponential 1 (1 / 2) (3 / 5) [0, 0] = .ok 1 := by
    apply sample_ok realExponential one_pos htopp someCandidate_halves (m := 1) (i := 1) (x := (1, 0))
    · rw [hvalues]
      refine ⟨by simp, by norm_num [sumTo], ?_⟩
      intro j hj
      rw [Nat.lt_one_iff.mp hj]
      norm_num [sumTo]
    · rw [hvalues]
      refine ⟨by simp, by norm_num [sumTo], ?_⟩
      intro j hj
      rw [Nat.lt_one_iff.mp hj]
      norm_num [sumTo]
    · exact Nat.le_refl 1
    · rw [hranked]
      exact Eq.refl _
  have htop : sampleTopK realExponential 1 (1 / 2) (3 / 5) ((payload [(0 : ℝ), 0]).map Prod.fst)
      ((payload [(0 : ℝ), 0]).map Prod.snd) = .ok 0 := by
    apply sampleTopK_ok realExponential one_pos htopp (m := 0) (i := 0) (x := (0, 0))
    · rw [hvalues]
      exact ⟨by simp, by norm_num [sumTo], fun j hj => absurd hj (Nat.not_lt_zero j)⟩
    · rw [hvalues]
      exact ⟨by simp, by norm_num [sumTo], fun j hj => absurd hj (Nat.not_lt_zero j)⟩
    · exact Nat.le_refl 0
    · rw [hranked]
      exact Eq.refl _
  rw [hfull, htop] at hagree
  injection hagree with hagree
  cases hagree

end Halves

end LayerSkip.SamplerTopK
