import LayerSkip.GreedySampling
import Mathlib.Order.Nat

/-!
# The product that keeps only the largest logit

Every thread scans its shard of the rows and remembers its winner. The next scan
starts from that row, whose value it takes first, so an earlier row of the same
value does not replace it.
-/

namespace LayerSkip.FusedArgmax

open NnTopology WorkerLlmInference FirstMax GreedySampling

/-- Rows of one thread: the first and the one past the last. -/
def splitThreads (rangeLen nThreads threadIndex : ℕ) : ℕ × ℕ :=
  let rangeSlice := rangeLen / nThreads
  let rangeRest := rangeLen % nThreads
  let start := threadIndex * rangeSlice + if threadIndex < rangeRest then threadIndex else rangeRest
  (start, start + rangeSlice + if threadIndex < rangeRest then 1 else 0)

/-- Where the rows of a thread start. -/
def shardStart (rangeLen nThreads threadIndex : ℕ) : ℕ :=
  threadIndex * (rangeLen / nThreads) + min threadIndex (rangeLen % nThreads)

theorem splitThreads_eq (rangeLen nThreads threadIndex : ℕ) :
    splitThreads rangeLen nThreads threadIndex =
      (shardStart rangeLen nThreads threadIndex, shardStart rangeLen nThreads (threadIndex + 1)) := by
  unfold splitThreads shardStart
  rw [Nat.succ_mul]
  dsimp only
  refine Prod.ext ?_ ?_
  · dsimp only
    split <;> omega
  · dsimp only
    split <;> omega

theorem shardStart_mono (rangeLen nThreads : ℕ) {t u : ℕ} (h : t ≤ u) :
    shardStart rangeLen nThreads t ≤ shardStart rangeLen nThreads u := by
  have hmul := Nat.mul_le_mul_right (rangeLen / nThreads) h
  unfold shardStart
  omega

/-- Every row belongs to a thread. -/
theorem exists_shard {rangeLen nThreads i : ℕ} (hpos : 0 < nThreads) (hi : i < rangeLen) :
    ∃ t < nThreads, shardStart rangeLen nThreads t ≤ i ∧ i < shardStart rangeLen nThreads (t + 1) := by
  have hall (n : ℕ) (hn : i < shardStart rangeLen nThreads n) :
      ∃ t < n, shardStart rangeLen nThreads t ≤ i ∧ i < shardStart rangeLen nThreads (t + 1) := by
    induction n with
    | zero => simp [shardStart] at hn
    | succ n ih =>
      rcases Nat.lt_or_ge i (shardStart rangeLen nThreads n) with hbefore | hhere
      · obtain ⟨t, ht, hshard⟩ := ih hbefore
        exact ⟨t, Nat.lt_succ_of_lt ht, hshard⟩
      · exact ⟨n, Nat.lt_succ_self n, hhere, hn⟩
  have hend : shardStart rangeLen nThreads nThreads = rangeLen := by
    have hmod := Nat.mod_lt rangeLen hpos
    unfold shardStart
    rw [Nat.min_eq_right (Nat.le_of_lt hmod)]
    exact Nat.div_add_mod rangeLen nThreads
  exact hall nThreads (hend.symm ▸ hi)

/-- An element of a shard is an element of the row. -/
theorem shard_getElem? {G : Type} {logits : List G} {start stop i : ℕ} :
    ((logits.take stop).drop start)[i]? = if start + i < stop then logits[start + i]? else none := by
  rw [List.getElem?_drop, List.getElem?_take]

/-- A row is in the shard of a thread. -/
def InShard (rangeLen nThreads t i : ℕ) : Prop :=
  shardStart rangeLen nThreads t ≤ i ∧ i < shardStart rangeLen nThreads (t + 1)

instance (rangeLen nThreads t i : ℕ) : Decidable (InShard rangeLen nThreads t i) :=
  inferInstanceAs (Decidable (_ ∧ _))

/-- A row belongs to one thread. -/
theorem shard_unique {rangeLen nThreads t u i : ℕ} (h : InShard rangeLen nThreads t i)
    (h' : InShard rangeLen nThreads u i) : t = u := by
  rcases Nat.lt_trichotomy t u with hlt | heq | hgt
  · have hmono : shardStart rangeLen nThreads (t + 1) ≤ shardStart rangeLen nThreads u :=
      shardStart_mono rangeLen nThreads hlt
    have hupper := h.2
    have hlower := h'.1
    omega
  · exact heq
  · have hmono : shardStart rangeLen nThreads (u + 1) ≤ shardStart rangeLen nThreads t :=
      shardStart_mono rangeLen nThreads hgt
    have hupper := h'.2
    have hlower := h.1
    omega

section Scan

variable {F : Type} [LinearOrder F] [OrderBot F]

/-- What one thread finds in one row of the batch: index and value. The scan starts
from the last winner when that row is in the shard. -/
def matmulArgmaxRow (nThreads threadIndex prevBest : ℕ) (logits : List F) : ℕ × F :=
  let shard := splitThreads logits.length nThreads threadIndex
  if shard.1 < shard.2 then
    let seed : ℕ × F :=
      if shard.1 ≤ prevBest ∧ prevBest < shard.2 ∧ prevBest < logits.length then
        (prevBest, logits.getD prevBest ⊥)
      else (shard.1, ⊥)
    (((logits.take shard.2).drop shard.1).zipIdx shard.1).foldl
      (fun best x => if best.2 < x.1 then (x.2, x.1) else best) seed
  else (shard.1, ⊥)

/-- Last winners of a thread, one for each row of the batch. -/
def rememberedBest (prevBest : List ℕ) (batchSize : ℕ) : List ℕ :=
  if prevBest.length ≠ batchSize then List.replicate batchSize 0 else prevBest

/-- What one thread finds in all rows of the batch. -/
def threadBest (nThreads threadIndex : ℕ) (prevBest : List ℕ) (rows : List (List F)) :
    List (ℕ × F) :=
  rows.zipIdx.map fun x =>
    matmulArgmaxRow nThreads threadIndex ((rememberedBest prevBest rows.length).getD x.2 0) x.1

/-- Last winners of all threads after a call. -/
def nextBest (nThreads : ℕ) (prevBest : ℕ → List ℕ) (rows : List (List F)) : ℕ → List ℕ :=
  fun t => if t < nThreads then (threadBest nThreads t (prevBest t) rows).map Prod.fst else prevBest t

/-- Last winners of all threads after earlier calls. -/
def bestAfter (nThreads : ℕ) (calls : List (List (List F))) : ℕ → List ℕ :=
  calls.foldl (nextBest nThreads) fun _ => []

/-- Width of the buffer that the threads write their findings to. -/
def argmaxPartialWidth : ℕ := 128

/-- Threads that the reduction looks at. -/
def argmaxMaxThreads : ℕ := 64

/-- What the threads write for every row of the batch. -/
def matmulArgmaxForward (codec : FloatIndex F) (nThreads : ℕ) (prevBest : ℕ → List ℕ)
    (rows : List (List F)) : Except String (List (List (F × F))) :=
  if argmaxPartialWidth < nThreads * 2 then .error "argmax output buffer too small"
  else .ok (rows.zipIdx.map fun x => (List.range nThreads).map fun t =>
    let best := matmulArgmaxRow nThreads t
      ((rememberedBest (prevBest t) rows.length).getD x.2 0) x.1
    (codec.ofUint best.1.toUInt32, best.2))

/-- The token that the reduction finds for one row of the batch. -/
def argmaxReduceForward (codec : FloatIndex F) (nThreads : ℕ) (partials : List (F × F)) : F :=
  codec.ofUint (((partials.take (min nThreads argmaxMaxThreads)).foldl
    (fun best x => if best.2 < x.2 then (codec.toUint x.1, x.2) else best) ((0 : NnUint), ⊥)).1)

/-- Both operations: a token for each row of the batch. -/
def fusedArgmaxForward (codec : FloatIndex F) (nThreads : ℕ) (prevBest : ℕ → List ℕ)
    (rows : List (List F)) : Except String (List F) :=
  (matmulArgmaxForward codec nThreads prevBest rows).map fun partials =>
    partials.map (argmaxReduceForward codec nThreads)

/-- The seed of a thread for a row of the batch. -/
def seedOf (prevBest : ℕ → List ℕ) (batchSize t y : ℕ) : ℕ :=
  (rememberedBest (prevBest t) batchSize).getD y 0

variable {logits : List F} {nThreads t : ℕ}

/-- The scan of a shard in terms of named elements. -/
theorem matmulArgmaxRow_eq (logits : List F) (nThreads t prevBest : ℕ) :
    matmulArgmaxRow nThreads t prevBest logits =
      if shardStart logits.length nThreads t < shardStart logits.length nThreads (t + 1) then
        pick (if InShard logits.length nThreads t prevBest ∧ prevBest < logits.length then
            (prevBest, logits.getD prevBest ⊥)
          else (shardStart logits.length nThreads t, ⊥))
          (named id (shardStart logits.length nThreads t)
            ((logits.take (shardStart logits.length nThreads (t + 1))).drop
              (shardStart logits.length nThreads t)))
      else (shardStart logits.length nThreads t, ⊥) := by
  unfold matmulArgmaxRow InShard
  rw [splitThreads_eq]
  simp only [named, pick, List.foldl_map, and_assoc]
  rfl

/-- The value that a thread finds is the least one or that of a row of its shard. -/
theorem matmulArgmaxRow_value (logits : List F) (nThreads t prevBest : ℕ) :
    (matmulArgmaxRow nThreads t prevBest logits).2 = ⊥ ∨ ∃ i, InShard logits.length nThreads t i ∧
      logits[i]? = some (matmulArgmaxRow nThreads t prevBest logits).2 := by
  rw [matmulArgmaxRow_eq]
  split
  · generalize hseed : (if InShard logits.length nThreads t prevBest ∧ prevBest < logits.length then
      (prevBest, logits.getD prevBest ⊥) else (shardStart logits.length nThreads t, ⊥)) = seed
    rcases pick_named_cases id (shardStart logits.length nThreads t) seed
      ((logits.take (shardStart logits.length nThreads (t + 1))).drop
        (shardStart logits.length nThreads t)) with ⟨hstay, -⟩ | ⟨i, v, hmax, -, hend⟩
    · rw [hstay, ← hseed]
      split
      · rename_i hin
        refine .inr ⟨prevBest, hin.1, ?_⟩
        dsimp only
        rw [List.getD_eq_getElem?_getD, List.getElem?_eq_getElem hin.2, Option.getD_some]
      · exact .inl rfl
    · have hget := hmax.get
      rw [shard_getElem?] at hget
      split at hget
      · rename_i hlt
        rw [hend]
        exact .inr ⟨_, ⟨Nat.le_add_right _ _, hlt⟩, hget⟩
      · cases hget
  · exact .inl rfl

/-- In the shard of the first of the largest logits a thread finds that logit, or its
last winner when that is as large. -/
theorem matmulArgmaxRow_max (prevBest : ℕ) {i : ℕ} {v : F} (hmax : IsFirstMax logits i v) (hbot : v ≠ ⊥)
    (hin : InShard logits.length nThreads t i) :
    matmulArgmaxRow nThreads t prevBest logits =
      (if InShard logits.length nThreads t prevBest ∧ logits[prevBest]? = some v then prevBest else i,
        v) := by
  have hi := (List.getElem?_eq_some_iff.mp hmax.get).1
  have hshard : IsFirstMax ((logits.take (shardStart logits.length nThreads (t + 1))).drop
      (shardStart logits.length nThreads t)) (i - shardStart logits.length nThreads t) v := by
    have hindex : shardStart logits.length nThreads t + (i - shardStart logits.length nThreads t) = i :=
      Nat.add_sub_cancel' hin.1
    refine ⟨?_, fun w hw => ?_, fun j hj => ?_⟩
    · rw [shard_getElem?, hindex, if_pos hin.2]
      exact hmax.get
    · exact hmax.le w (List.mem_of_mem_take (List.mem_of_mem_drop hw))
    · rw [shard_getElem?] at hj
      split at hj
      · have hfirst := hmax.first _ hj
        omega
      · cases hj
  rw [matmulArgmaxRow_eq, if_pos (Nat.lt_of_le_of_lt hin.1 hin.2)]
  rcases pick_named_cases id (shardStart logits.length nThreads t)
    (if InShard logits.length nThreads t prevBest ∧ prevBest < logits.length then
      (prevBest, logits.getD prevBest ⊥) else (shardStart logits.length nThreads t, ⊥))
    ((logits.take (shardStart logits.length nThreads (t + 1))).drop
      (shardStart logits.length nThreads t)) with ⟨hstay, hall⟩ | ⟨j, w, hfirst, hlt, hend⟩
  · have hle := hall v (List.mem_of_getElem? hshard.get)
    rw [hstay]
    split
    · rename_i hseed
      rw [if_pos hseed, List.getD_eq_getElem?_getD, List.getElem?_eq_getElem hseed.2,
        Option.getD_some] at hle
      have hvalue : logits[prevBest] = v :=
        le_antisymm (hmax.le _ (List.getElem_mem hseed.2)) hle
      have hget : logits[prevBest]? = some v := by
        rw [List.getElem?_eq_getElem hseed.2, hvalue]
      rw [if_pos ⟨hseed.1, hget⟩, List.getD_eq_getElem?_getD, hget, Option.getD_some]
    · rename_i hseed
      rw [if_neg hseed] at hle
      exact absurd (le_bot_iff.mp hle) hbot
  · obtain ⟨hj, hw⟩ := hfirst.unique hshard
    have hnot : ¬(InShard logits.length nThreads t prevBest ∧ logits[prevBest]? = some v) := by
      intro hseed
      have hbound := (List.getElem?_eq_some_iff.mp hseed.2).1
      rw [if_pos ⟨hseed.1, hbound⟩, List.getD_eq_getElem?_getD, hseed.2, Option.getD_some, hw] at hlt
      exact lt_irrefl v hlt
    rw [hend, if_neg hnot, hj, hw, Nat.add_sub_cancel' hin.1]
    rfl

/-- Both operations find the first of the largest logits, or the last winner of its
shard when that is as large. -/
theorem argmaxReduceForward_eq (codec : FloatIndex F) (hpos : 0 < nThreads)
    (hthreads : nThreads ≤ argmaxMaxThreads) (hsize : logits.length < 2 ^ 24) (seed : ℕ → ℕ) {i : ℕ}
    {v : F} (hmax : IsFirstMax logits i v) :
    ∃ t < nThreads, InShard logits.length nThreads t i ∧
      codec.toUint (argmaxReduceForward codec nThreads ((List.range nThreads).map fun t =>
        (codec.ofUint (matmulArgmaxRow nThreads t (seed t) logits).1.toUInt32,
          (matmulArgmaxRow nThreads t (seed t) logits).2))) =
        if v ≠ ⊥ ∧ InShard logits.length nThreads t (seed t) ∧ logits[seed t]? = some v then
          (seed t).toUInt32
        else i.toUInt32 := by
  have hi := (List.getElem?_eq_some_iff.mp hmax.get).1
  obtain ⟨t, ht, hin⟩ := exists_shard hpos hi
  have hvalue (u : ℕ) : (matmulArgmaxRow nThreads u (seed u) logits).2 ≤ v := by
    rcases matmulArgmaxRow_value logits nThreads u (seed u) with hbot | ⟨j, -, hget⟩
    · rw [hbot]
      exact bot_le
    · exact hmax.le _ (List.mem_of_getElem? hget)
  have hexact {n : ℕ} (hn : n < logits.length) :
      codec.toUint (codec.ofUint n.toUInt32) = n.toUInt32 := by
    have hnat : n.toUInt32.toNat = n := Nat.mod_eq_of_lt (by omega)
    exact codec.exact _ (by omega)
  have hfold : codec.toUint (argmaxReduceForward codec nThreads ((List.range nThreads).map fun t =>
      (codec.ofUint (matmulArgmaxRow nThreads t (seed t) logits).1.toUInt32,
        (matmulArgmaxRow nThreads t (seed t) logits).2))) =
      codec.toUint (codec.ofUint (pick ((0 : NnUint), ⊥) ((List.range nThreads).map fun t =>
        (codec.toUint (codec.ofUint (matmulArgmaxRow nThreads t (seed t) logits).1.toUInt32),
          (matmulArgmaxRow nThreads t (seed t) logits).2))).1) := by
    have hlength : ((List.range nThreads).map fun t =>
        (codec.ofUint (matmulArgmaxRow nThreads t (seed t) logits).1.toUInt32,
          (matmulArgmaxRow nThreads t (seed t) logits).2)).length ≤ nThreads :=
      Nat.le_of_eq ((List.length_map _).trans List.length_range)
    unfold argmaxReduceForward pick
    rw [Nat.min_eq_left hthreads, List.take_of_length_le hlength, List.foldl_map, List.foldl_map]
    rfl
  have hget (u : ℕ) (hu : u < nThreads) : ((List.range nThreads).map fun t =>
      (codec.toUint (codec.ofUint (matmulArgmaxRow nThreads t (seed t) logits).1.toUInt32),
        (matmulArgmaxRow nThreads t (seed t) logits).2))[u]? =
      some (codec.toUint (codec.ofUint (matmulArgmaxRow nThreads u (seed u) logits).1.toUInt32),
        (matmulArgmaxRow nThreads u (seed u) logits).2) := by
    rw [List.getElem?_map, List.getElem?_range hu]
    rfl
  refine ⟨t, ht, hin, ?_⟩
  rw [hfold]
  rcases pick_cases ((0 : NnUint), (⊥ : F)) ((List.range nThreads).map fun t =>
      (codec.toUint (codec.ofUint (matmulArgmaxRow nThreads t (seed t) logits).1.toUInt32),
        (matmulArgmaxRow nThreads t (seed t) logits).2)) with
    ⟨hstay, hall⟩ | ⟨u, x, hx, hfirst, hlt, hend⟩
  · -- no thread has found more than the least value
    have hbot : v = ⊥ := by
      by_contra hne
      have hle := hall _ (List.mem_of_getElem? (hget t ht))
      dsimp only at hle
      rw [matmulArgmaxRow_max (seed t) hmax hne hin] at hle
      exact hne (le_bot_iff.mp hle)
    have hzero : i = 0 := by
      have hlength : 0 < logits.length := Nat.lt_of_le_of_lt (Nat.zero_le i) hi
      have hhead : logits[0]? = some v := by
        have hle := hmax.le _ (List.getElem_mem hlength)
        rw [List.getElem?_eq_getElem hlength, hbot, ← le_bot_iff.mp (hbot ▸ hle)]
      have hfirst := hmax.first 0 hhead
      omega
    have hnot : ¬(v ≠ ⊥ ∧ InShard logits.length nThreads t (seed t) ∧
        logits[seed t]? = some v) := fun h => h.1 hbot
    rw [hstay, if_neg hnot, hzero]
    exact codec.exact 0 (by decide)
  · have hu := (List.getElem?_eq_some_iff.mp hx).1
    rw [List.length_map, List.length_range] at hu
    have hxu := hget u hu
    rw [hx] at hxu
    injection hxu with hxu
    have hbot : v ≠ ⊥ := by
      intro hv
      have hle := hvalue u
      rw [hv] at hle
      rw [hxu] at hlt
      exact absurd (le_bot_iff.mp hle) (ne_of_gt hlt)
    have hrow := matmulArgmaxRow_max (seed t) hmax hbot hin
    have hvalues : IsFirstMax (((List.range nThreads).map fun t =>
        (codec.toUint (codec.ofUint (matmulArgmaxRow nThreads t (seed t) logits).1.toUInt32),
          (matmulArgmaxRow nThreads t (seed t) logits).2)).map Prod.snd) t v := by
      refine ⟨?_, fun w hw => ?_, fun s hs => ?_⟩
      · rw [List.getElem?_map, hget t ht, hrow]
        rfl
      · obtain ⟨y, hy, hyw⟩ := List.mem_map.mp hw
        obtain ⟨s, hs, hsy⟩ := List.mem_map.mp hy
        rw [← hyw, ← hsy]
        exact hvalue s
      · by_contra hbefore
        have hst : s < t := Nat.lt_of_not_le hbefore
        rw [List.getElem?_map, hget s (Nat.lt_trans hst ht)] at hs
        injection hs with hs
        dsimp only at hs
        rcases matmulArgmaxRow_value logits nThreads s (seed s) with hleast | ⟨j, hshard, hj⟩
        · exact hbot (hs.symm.trans hleast)
        · rw [hs] at hj
          have hij := hmax.first j hj
          have hmono : shardStart logits.length nThreads (s + 1) ≤ shardStart logits.length nThreads t :=
            shardStart_mono logits.length nThreads hst
          have hupper := hshard.2
          have hlower := hin.1
          omega
    have hut := (hfirst.unique hvalues).1
    rw [hend, hxu, hut, hrow]
    dsimp only
    by_cases hseed : InShard logits.length nThreads t (seed t) ∧ logits[seed t]? = some v
    · have hbound := (List.getElem?_eq_some_iff.mp hseed.2).1
      rw [if_pos hseed, if_pos ⟨hbot, hseed⟩, hexact hbound, hexact hbound]
    · have hnot : ¬(v ≠ ⊥ ∧ InShard logits.length nThreads t (seed t) ∧
          logits[seed t]? = some v) := fun h => hseed h.2
      rw [if_neg hseed, if_neg hnot, hexact hi, hexact hi]

/-- Where the last winner of a thread would hide the first of the largest logits. -/
def SeedHarmless (nThreads : ℕ) (prevBest : ℕ → List ℕ) (batchSize y : ℕ) (logits : List F) :
    Prop :=
  ∀ t < nThreads, ∀ i v, IsFirstMax logits i v → v ≠ ⊥ → InShard logits.length nThreads t i →
    InShard logits.length nThreads t (seedOf prevBest batchSize t y) →
    logits[seedOf prevBest batchSize t y]? = some v → seedOf prevBest batchSize t y = i

/-- All four ways to pick a token from these logits give the same one, with `k` logits
kept and this outcome of the fused operations. -/
def Agree (codec : FloatIndex F) (logits : List F) (k : ℕ) (fused : F) : Prop :=
  ∃ token : NnUint, sampleArgmax logits = token.toNat ∧
    sampleTopK (unpackTopK codec (packTopKLogits codec.ofUint logits k)) = .ok token ∧
    sampleArgmaxToken logits = token ∧ codec.toUint fused = token

/-- After any earlier calls the four ways agree on a row exactly when it is not empty and
the last winner of the shard with the first of the largest logits is not another row of
that shard with the same logit. -/
theorem greedy_agree_iff (codec : FloatIndex F) (hpos : 0 < nThreads)
    (hthreads : nThreads * 2 ≤ argmaxPartialWidth) (calls : List (List (List F)))
    {rows : List (List F)} (hsize : ∀ logits ∈ rows, logits.length < 2 ^ 24) :
    ∃ tokens, fusedArgmaxForward codec nThreads (bestAfter nThreads calls) rows = .ok tokens ∧
      tokens.length = rows.length ∧
      ∀ (y : ℕ) logits token, rows[y]? = some logits → tokens[y]? = some token → ∀ k, 0 < k →
        (Agree codec logits k token ↔
          logits ≠ [] ∧ SeedHarmless nThreads (bestAfter nThreads calls) rows.length y logits) := by
  generalize bestAfter nThreads calls = prevBest
  have hroom : ¬argmaxPartialWidth < nThreads * 2 := Nat.not_lt.mpr hthreads
  have hok : fusedArgmaxForward codec nThreads prevBest rows = .ok (rows.zipIdx.map fun x =>
      argmaxReduceForward codec nThreads ((List.range nThreads).map fun t =>
        (codec.ofUint (matmulArgmaxRow nThreads t (seedOf prevBest rows.length t x.2) x.1).1.toUInt32,
          (matmulArgmaxRow nThreads t (seedOf prevBest rows.length t x.2) x.1).2))) := by
    unfold fusedArgmaxForward matmulArgmaxForward
    rw [if_neg hroom]
    exact congrArg Except.ok (List.map_map ..)
  refine ⟨_, hok, by rw [List.length_map, List.length_zipIdx], ?_⟩
  intro y logits token hrow htoken k hk
  rw [List.getElem?_map, List.getElem?_zipIdx, hrow, Nat.zero_add] at htoken
  injection htoken with htoken
  have hshort := hsize logits (List.mem_of_getElem? hrow)
  have hsmall : nThreads ≤ argmaxMaxThreads := by
    unfold argmaxPartialWidth at hthreads
    unfold argmaxMaxThreads
    omega
  constructor
  · intro h
    obtain ⟨best, hsample, htop, hlast, hfused⟩ := h
    have hne : logits ≠ [] := by
      intro hempty
      rw [hempty] at htop
      cases htop
    refine ⟨hne, fun t ht i v hmax hbot hin hseedIn hseed => ?_⟩
    obtain ⟨u, hu, huin, hreduce⟩ := argmaxReduceForward_eq codec hpos hsmall hshort
      (fun t => seedOf prevBest rows.length t y) hmax
    have htu : t = u := shard_unique hin huin
    rw [← htu, if_pos ⟨hbot, hseedIn, hseed⟩] at hreduce
    have hi := (List.getElem?_eq_some_iff.mp hmax.get).1
    have hs := (List.getElem?_eq_some_iff.mp hseed).1
    have hwords : (seedOf prevBest rows.length t y).toUInt32 = i.toUInt32 := by
      rw [← hreduce, ← sampleArgmaxToken_eq hmax, hlast, ← hfused, ← htoken]
    have hnats := congrArg UInt32.toNat hwords
    have hsNat : (seedOf prevBest rows.length t y).toUInt32.toNat =
        seedOf prevBest rows.length t y := Nat.mod_eq_of_lt (by omega)
    have hiNat : i.toUInt32.toNat = i := Nat.mod_eq_of_lt (by omega)
    omega
  · intro h
    obtain ⟨hne, hharmless⟩ := h
    obtain ⟨v, hmax⟩ := sampleArgmax_isFirstMax hne
    generalize hi : sampleArgmax logits = i at hmax
    have hbound := (List.getElem?_eq_some_iff.mp hmax.get).1
    have hnat : i.toUInt32.toNat = i := Nat.mod_eq_of_lt (by omega)
    obtain ⟨t, ht, hin, hreduce⟩ := argmaxReduceForward_eq codec hpos hsmall hshort
      (fun t => seedOf prevBest rows.length t y) hmax
    refine ⟨i.toUInt32, hi.trans hnat.symm, sampleTopK_pack codec hk hshort hmax,
      sampleArgmaxToken_eq hmax, ?_⟩
    rw [← htoken, hreduce]
    split
    · rename_i hseed
      rw [hharmless t ht i v hmax hseed.1 hin hseed.2.1 hseed.2.2]
    · rfl

end Scan

/-- Natural numbers stand for floats, so indices are exact. -/
def natIndex : FloatIndex ℕ where
  ofUint := UInt32.toNat
  toUint := Nat.toUInt32
  exact _ _ := UInt32.ofNat_toNat

theorem greedy_agree_iff_two :
    ∃ tokens, fusedArgmaxForward natIndex 2 (bestAfter 2 [[[0, 1, 7]]]) [[5, 9, 9, 2]] = .ok tokens ∧
      Agree natIndex [5, 9, 9, 2] 2 (tokens.getD 0 0) := by
  have hpos : 0 < 2 := by decide
  have hthreads : 2 * 2 ≤ argmaxPartialWidth := by decide
  have hsize : ∀ logits ∈ [[5, 9, 9, 2]], logits.length < 2 ^ 24 := by decide
  obtain ⟨tokens, hok, hlength, hiff⟩ := greedy_agree_iff natIndex hpos hthreads [[[0, 1, 7]]] hsize
  have hfirst : tokens[0]? = some (tokens.getD 0 0) := by
    rw [List.getD_eq_getElem?_getD]
    cases tokens with
    | nil => cases hlength
    | cons token tokens => rfl
  have hbest : IsFirstMax [5, 9, 9, 2] 1 9 := by
    refine ⟨rfl, by decide, fun j hj => ?_⟩
    cases j with
    | zero => cases hj
    | succ j => exact Nat.succ_le_succ (Nat.zero_le j)
  refine ⟨tokens, hok, (hiff 0 _ _ rfl hfirst 2 (by decide)).mpr ⟨by decide, ?_⟩⟩
  intro t ht i v hmax _ hin _ _
  rw [(hmax.unique hbest).1] at hin ⊢
  have hzero : t = 0 := shard_unique hin (by decide)
  rw [hzero]
  decide

/-- After a call that the second token has won, two equal logits give the second token
in the fused operations and the first one elsewhere. -/
theorem not_greedy_agree_tie :
    fusedArgmaxForward natIndex 1 (bestAfter 1 [[[1, 2]]]) [[2, 2]] = .ok [1] ∧
      ¬Agree natIndex [2, 2] 1 1 := by
  refine ⟨by decide, fun h => ?_⟩
  obtain ⟨token, -, -, hlast, hfused⟩ := h
  exact absurd (hfused.trans hlast.symm) (by decide)

end LayerSkip.FusedArgmax
