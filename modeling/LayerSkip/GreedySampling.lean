import LayerSkip.FirstMax
import LayerSkip.WorkerLlmInference
import Mathlib.Data.List.Induction
import Mathlib.Order.BoundedOrder.Basic

/-!
# Greedy sampling in four places

The sampler scans all logits, the last stage scans them for a token or keeps the
best ones for the root, and the fused product scans them in shards, one a thread,
each from its last winner on. The first three end at the first of the largest
logits. The fused one does so unless the last winner of that shard is as large.
-/

namespace LayerSkip.GreedySampling

open NnTopology WorkerLlmInference FirstMax

/-- How indices travel as floats: exactly, below the precision of a float. -/
structure FloatIndex (F : Type) where
  /-- The float of an index. -/
  ofUint : NnUint → F
  /-- The index of a float. -/
  toUint : F → NnUint
  /-- Small indices are exact. -/
  exact : ∀ i, i.toNat < 2 ^ 24 → toUint (ofUint i) = i

section Whole

variable {F : Type}

/-- The best logits as the root takes them out of a payload. -/
def unpackTopK (codec : FloatIndex F) : List F → List (NnUint × F)
  | index :: logit :: rest => (codec.toUint index, logit) :: unpackTopK codec rest
  | _ => []

theorem unpackTopK_pack (codec : FloatIndex F) {top : List (NnUint × F)}
    (h : ∀ x ∈ top, x.1.toNat < 2 ^ 24) :
    unpackTopK codec (top.flatMap fun x => [codec.ofUint x.1, x.2]) = top := by
  induction top with
  | nil => rfl
  | cons x top ih =>
    rw [List.flatMap_cons, List.cons_append, List.cons_append, List.nil_append, unpackTopK,
      codec.exact _ (h x List.mem_cons_self), ih fun y hy => h y (List.mem_cons_of_mem x hy)]

variable [LinearOrder F]

/-- `sample_argmax`, and `Sampler::sample` at temperature 0. -/
def sampleArgmax (probabilities : List F) : ℕ :=
  match probabilities with
  | [] => 0
  | p :: ps => ((ps.zipIdx 1).foldl (fun best x => if best.2 < x.1 then (x.2, x.1) else best) (0, p)).1

/-- `Sampler::sampleTopK` at temperature 0. -/
def sampleTopK (top : List (NnUint × F)) : Except String NnUint :=
  if top.length = 0 then .error "Invalid top-k logits payload"
  else .ok ((top.map Prod.fst).getD (sampleArgmax (top.map Prod.snd)) 0)

/-- The scan of the sampler ends at the first of the largest. -/
theorem sampleArgmax_isFirstMax {row : List F} (h : row ≠ []) :
    ∃ v, IsFirstMax row (sampleArgmax row) v := by
  cases row with
  | nil => exact absurd rfl h
  | cons v vs =>
    obtain ⟨i, w, hmax, hend⟩ := pick_named_head id v vs
    have hscan : sampleArgmax (v :: vs) = (pick (0, v) (named id 1 vs)).1 := by
      rw [named, pick, List.foldl_map]
      rfl
    have hindex : sampleArgmax (v :: vs) = i := hscan.trans (congrArg Prod.fst hend)
    rw [hindex]
    exact ⟨w, hmax⟩

/-- So does the scan of the last stage. -/
theorem sampleArgmaxToken_eq {row : List F} {i : ℕ} {v : F} (h : IsFirstMax row i v) :
    sampleArgmaxToken row = i.toUInt32 := by
  cases row with
  | nil => cases h.get
  | cons x xs =>
    obtain ⟨j, w, hmax, hend⟩ := pick_named_head Nat.toUInt32 x xs
    have hscan : sampleArgmaxToken (x :: xs) = (pick (0, x) (named Nat.toUInt32 1 xs)).1 := by
      rw [named, pick, List.foldl_map]
      rfl
    have hindex : sampleArgmaxToken (x :: xs) = j.toUInt32 := hscan.trans (congrArg Prod.fst hend)
    rw [hindex, (hmax.unique h).1]

/-- From the end on, a pair passes the smaller ones. -/
theorem insertTop_append (x y : NnUint × F) (top : List (NnUint × F)) :
    insertTop x (top ++ [y]) = if y.2 < x.2 then insertTop x top ++ [y] else top ++ [y, x] := by
  unfold insertTop
  rw [List.reverse_append, List.reverse_singleton, List.singleton_append, List.takeWhile_cons,
    List.dropWhile_cons]
  split
  · rename_i hlt
    rw [decide_eq_true_eq] at hlt
    simp [hlt]
  · rename_i hnot
    rw [decide_eq_true_eq] at hnot
    simp [hnot]

theorem mem_insertTop {x z : NnUint × F} {top : List (NnUint × F)} :
    z ∈ insertTop x top ↔ z = x ∨ z ∈ top := by
  induction top using List.reverseRecOn with
  | nil => simp [insertTop]
  | append_singleton top y ih =>
    rw [insertTop_append]
    split
    · rw [List.mem_append, ih, List.mem_append, or_assoc]
    · simp only [List.mem_append, List.mem_cons, List.not_mem_nil, or_false]
      tauto

/-- Values that do not grow. -/
def Descending (top : List (NnUint × F)) : Prop := top.Pairwise fun x y => y.2 ≤ x.2

theorem descending_insertTop {top : List (NnUint × F)} (h : Descending top) (x : NnUint × F) :
    Descending (insertTop x top) := by
  induction top using List.reverseRecOn with
  | nil => exact List.pairwise_singleton _ _
  | append_singleton top y ih =>
    obtain ⟨hfront, -, hlast⟩ := List.pairwise_append.mp h
    rw [insertTop_append]
    split
    · rename_i hlt
      refine List.pairwise_append.mpr ⟨ih hfront, List.pairwise_singleton _ _, ?_⟩
      intro z hz w hw
      rw [List.mem_singleton.mp hw]
      rcases mem_insertTop.mp hz with hx | htop
      · rw [hx]
        exact le_of_lt hlt
      · exact hlast z htop y (List.mem_singleton_self y)
    · rename_i hnot
      have hxy : x.2 ≤ y.2 := le_of_not_gt hnot
      have hpair : [y, x].Pairwise fun a b => b.2 ≤ a.2 :=
        List.pairwise_cons.mpr ⟨fun w hw => by rw [List.mem_singleton.mp hw]; exact hxy,
          List.pairwise_singleton _ _⟩
      refine List.pairwise_append.mpr ⟨hfront, hpair, ?_⟩
      intro z hz w hw
      have hzy := hlast z hz y (List.mem_singleton_self y)
      rcases List.mem_cons.mp hw with hy | hx
      · rw [hy]
        exact hzy
      · rw [List.mem_singleton.mp hx]
        exact le_trans hxy hzy

/-- The first pair changes only for a larger one. -/
theorem head_insertTop {y : NnUint × F} {top : List (NnUint × F)}
    (h : Descending (y :: top)) (x : NnUint × F) :
    (insertTop x (y :: top)).head? = some (pickStep y x) := by
  induction top using List.reverseRecOn with
  | nil =>
    have hone := insertTop_append x y []
    rw [List.nil_append] at hone
    rw [hone, pickStep]
    split
    · rfl
    · rfl
  | append_singleton top z ih =>
    rw [← List.cons_append] at h ⊢
    obtain ⟨hfront, -, hlast⟩ := List.pairwise_append.mp h
    rw [insertTop_append]
    split
    · rw [List.head?_append, ih hfront]
      rfl
    · rename_i hnot
      have hzy := hlast y List.mem_cons_self z (List.mem_singleton_self z)
      have hstay : pickStep y x = y := if_neg fun hlt => hnot (lt_of_le_of_lt hzy hlt)
      rw [hstay]
      rfl

/-- A round keeps the order, and the first pair is that of the scan. -/
theorem descending_topKRound {k : ℕ} {y : NnUint × F} {top : List (NnUint × F)}
    (h : Descending (y :: top)) (x : NnUint × F) :
    Descending (topKRound k (y :: top) x) ∧
      (topKRound k (y :: top) x).head? = some (pickStep y x) := by
  unfold topKRound
  split
  · exact ⟨descending_insertTop h x, head_insertTop h x⟩
  · have hlast : (y :: top).getLast? = some ((y :: top).getLast (List.cons_ne_nil y top)) :=
      List.getLast?_eq_some_getLast _
    have hwhole := List.dropLast_append_getLast (List.cons_ne_nil y top)
    generalize (y :: top).getLast (List.cons_ne_nil y top) = last at hlast hwhole
    rw [hlast]
    dsimp only
    split
    · rename_i hle
      refine ⟨h, ?_⟩
      have hly : last.2 ≤ y.2 := by
        rcases List.mem_cons.mp (List.mem_of_getLast? hlast) with hy | htop
        · rw [hy]
        · exact (List.pairwise_cons.mp h).1 last htop
      have hstay : pickStep y x = y := if_neg (not_lt_of_ge (le_trans hle hly))
      rw [hstay]
      rfl
    · rename_i hnot
      have hlt : last.2 < x.2 := lt_of_not_ge hnot
      have hinsert := insertTop_append x last (y :: top).dropLast
      rw [hwhole, if_pos hlt] at hinsert
      have hhead := head_insertTop h x
      have hdrop : Descending (y :: top).dropLast := List.Pairwise.sublist (List.dropLast_sublist _) h
      refine ⟨descending_insertTop hdrop x, ?_⟩
      rw [hinsert, List.head?_append] at hhead
      cases hcases : (insertTop x (y :: top).dropLast).head? with
      | none =>
        have hmem : x ∈ insertTop x (y :: top).dropLast := mem_insertTop.mpr (.inl rfl)
        rw [List.head?_eq_none_iff.mp hcases] at hmem
        cases hmem
      | some z =>
        rw [hcases] at hhead
        exact hhead

/-- After all rounds the first pair is the one that the scan ends at. -/
theorem descending_foldl_topKRound {k : ℕ} {y : NnUint × F} {top : List (NnUint × F)}
    (h : Descending (y :: top)) (xs : List (NnUint × F)) :
    Descending (xs.foldl (topKRound k) (y :: top)) ∧
      (xs.foldl (topKRound k) (y :: top)).head? = some (pick y xs) := by
  induction xs generalizing y top with
  | nil => exact ⟨h, rfl⟩
  | cons x xs ih =>
    obtain ⟨horder, hhead⟩ := descending_topKRound (k := k) h x
    rw [List.foldl_cons]
    cases hround : topKRound k (y :: top) x with
    | nil =>
      rw [hround] at hhead
      cases hhead
    | cons z rest =>
      rw [hround] at horder hhead
      injection hhead with hz
      have hrest := ih horder
      rw [hz] at hrest ⊢
      exact hrest

theorem mem_topKRound {k : ℕ} {x z : NnUint × F} {top : List (NnUint × F)}
    (h : z ∈ topKRound k top x) : z = x ∨ z ∈ top := by
  unfold topKRound at h
  split at h
  · exact mem_insertTop.mp h
  · split at h
    · exact .inr h
    · split at h
      · exact .inr h
      · rcases mem_insertTop.mp h with hx | hdrop
        · exact .inl hx
        · exact .inr (List.dropLast_subset top hdrop)

theorem mem_foldl_topKRound {k : ℕ} {z : NnUint × F} {xs top : List (NnUint × F)}
    (h : z ∈ xs.foldl (topKRound k) top) : z ∈ xs ∨ z ∈ top := by
  induction xs generalizing top with
  | nil => exact .inr h
  | cons x xs ih =>
    rcases ih h with hxs | hround
    · exact .inl (List.mem_cons_of_mem x hxs)
    · rcases mem_topKRound hround with hx | htop
      · rw [hx]
        exact .inl List.mem_cons_self
      · exact .inr htop

/-- The best of the logits that the root receives is the first of the largest. -/
theorem sampleTopK_pack (codec : FloatIndex F) {row : List F} {k i : ℕ} {v : F} (hk : 0 < k)
    (hsize : row.length < 2 ^ 24) (h : IsFirstMax row i v) :
    sampleTopK (unpackTopK codec (packTopKLogits codec.ofUint row k)) = .ok i.toUInt32 := by
  cases row with
  | nil => cases h.get
  | cons x xs =>
    obtain ⟨j, w, hmax, hend⟩ := pick_named_head Nat.toUInt32 x xs
    have hlist : (((x :: xs).zipIdx.map fun y => (y.2.toUInt32, y.1)) : List (NnUint × F)) =
        ((0 : ℕ).toUInt32, x) :: named Nat.toUInt32 1 xs := rfl
    have hround : topKRound (min k (x :: xs).length) [] ((0 : ℕ).toUInt32, x) =
        [((0 : ℕ).toUInt32, x)] := by
      unfold topKRound
      rw [if_pos]
      · rfl
      · rw [List.length_nil, List.length_cons]
        omega
    obtain ⟨horder, hhead⟩ := descending_foldl_topKRound (k := min k (x :: xs).length)
      (List.pairwise_singleton (fun a b : NnUint × F => b.2 ≤ a.2) ((0 : ℕ).toUInt32, x))
      (named Nat.toUInt32 1 xs)
    have hsmall : ∀ z ∈ (named Nat.toUInt32 1 xs).foldl (topKRound (min k (x :: xs).length))
        [((0 : ℕ).toUInt32, x)], z.1.toNat < 2 ^ 24 := by
      intro z hz
      rcases mem_foldl_topKRound hz with hnamed | hfirst
      · obtain ⟨n, hn⟩ := List.mem_iff_getElem?.mp hnamed
        rw [named_getElem?] at hn
        obtain ⟨u, hu, hname⟩ := Option.map_eq_some_iff.mp hn
        have hbound := (List.getElem?_eq_some_iff.mp hu).1
        rw [List.length_cons] at hsize
        have hvalue : (1 + n).toUInt32.toNat = 1 + n := Nat.mod_eq_of_lt (by omega)
        rw [← hname, hvalue]
        omega
      · have hzero : (0 : ℕ).toUInt32.toNat < 2 ^ 24 := by decide
        rw [List.mem_singleton.mp hfirst]
        exact hzero
    have hpacked : unpackTopK codec (packTopKLogits codec.ofUint (x :: xs) k) =
        (named Nat.toUInt32 1 xs).foldl (topKRound (min k (x :: xs).length))
          [((0 : ℕ).toUInt32, x)] := by
      unfold packTopKLogits
      rw [hlist, List.foldl_cons, hround]
      exact unpackTopK_pack codec hsmall
    rw [hpacked]
    rw [hend] at hhead
    generalize (named Nat.toUInt32 1 xs).foldl (topKRound (min k (x :: xs).length))
      [((0 : ℕ).toUInt32, x)] = top at horder hhead
    cases top with
    | nil => cases hhead
    | cons y top =>
      injection hhead with hy
      have hfirst : IsFirstMax ((y :: top).map Prod.snd) 0 y.2 := by
        refine IsFirstMax.head fun u hu => ?_
        obtain ⟨z, hz, hzu⟩ := List.mem_map.mp hu
        rw [← hzu]
        exact (List.pairwise_cons.mp horder).1 z hz
      have hne : (y :: top).map Prod.snd ≠ [] := List.cons_ne_nil _ _
      obtain ⟨u, hscan⟩ := sampleArgmax_isFirstMax hne
      unfold sampleTopK
      rw [if_neg (by simp), (hscan.unique hfirst).1, hy, (hmax.unique h).1]
      rfl

end Whole

end LayerSkip.GreedySampling
