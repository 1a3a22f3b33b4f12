import LayerSkip.NnCore
import LayerSkip.DataMoving
import LayerSkip.EqualPieces
import Mathlib.Logic.Function.Basic

/-!
# Rotary embedding on a slice of the columns

A tensor rank keeps one window of the rotary cache, from its first key column to its last query
column, and rotates its query columns with a shift into the window. Places of the cache are
words: a cache of more places than a word tells is too short.
-/

namespace LayerSkip.RopeSlicing

open NnTopology NnPipeline NnCore DataMoving FusedArgmax EqualPieces

variable {F : Type}

/-- Cosines and sines, by position and column of a head. -/
structure RopeAngles (F : Type) where
  /-- Cosine. -/
  fcr : ℕ → ℕ → F
  /-- Sine. -/
  fci : ℕ → ℕ → F

/-- A buffer after writes; writes past its end are lost. -/
def storeAll (length : ℕ) (writes : List (ℕ × F)) (buffer : ℕ → Option F) : ℕ → Option F :=
  writes.foldl (fun buffer w =>
    if w.1 < length then Function.update buffer w.1 (some w.2) else buffer) buffer

/-- The two writes for a pair of columns at a position. -/
def ropePairWrites (angles : RopeAngles F) (headDim : ℕ) (shift : NnRopeShift) (pos pair : ℕ) :
    List (ℕ × F) :=
  let i := shift.kvDimStart + 2 * pair
  let h := i % headDim
  let place := pos * shift.sliceDim + (i - shift.kvDimStart)
  [(place % uintRange, angles.fcr pos h), ((place + 1) % uintRange, angles.fci pos h)]

/-- Fill the rotary cache, position by position. A head without columns cannot divide. -/
def fullfillRopeLlamaCache (angles : RopeAngles F) (slice : NnRopeSlice) :
    Option (ℕ → Option F) := do
  let shift ← slice.shift
  if slice.headDim = 0 ∧ 0 < slice.seqLen ∧ shift.kvDimStart < shift.qDimEnd then none
  else
    let pairs := (shift.qDimEnd - shift.kvDimStart + 1) / 2
    let writes := (List.range slice.seqLen).flatMap fun pos =>
      (List.range pairs).flatMap (ropePairWrites angles slice.headDim shift pos)
    some (storeAll slice.cacheSize.length writes fun _ => none)

section Rotate

variable [Add F] [Sub F] [Mul F]

/-- Rotate a pair of columns. Nothing is known of a place of the cache that was not written. -/
def rotatePair (cache : ℕ → Option F) (posCache pair : ℕ) (x : ℕ → F) : Option (ℕ → F) := do
  let i := 2 * pair
  let fcr ← cache (posCache + i)
  let fci ← cache (posCache + (i + 1))
  let x0 := x i * fcr - x (i + 1) * fci
  let x1 := x i * fci + x (i + 1) * fcr
  return Function.update (Function.update x i x0) (i + 1) x1

/-- Columns of a rank. -/
def dim0 (slice : NnRopeSlice) (isQ : Bool) : ℕ := if isQ then slice.qDim0 else slice.kvDim0

/-- Rotate the pairs of a thread. -/
def ropeLlama (cache : ℕ → Option F) (isQ : Bool) (pos : ℕ) (slice : NnRopeSlice)
    (nThreads threadIndex : ℕ) (x : ℕ → F) : Option (ℕ → F) := do
  let shift ← slice.shift
  let range := splitThreadsUint (dim0 slice isQ / 2) nThreads threadIndex
  let posCache := (pos * shift.sliceDim + if isQ then shift.qShift else 0) % uintRange
  (List.range' range.1 (range.2 - range.1)).foldlM (fun x pair => rotatePair cache posCache pair x) x

/-- All threads, one after the other. -/
def ropeLlamaThreads (cache : ℕ → Option F) (isQ : Bool) (pos : ℕ) (slice : NnRopeSlice)
    (nThreads : ℕ) (order : List ℕ) (x : ℕ → F) : Option (ℕ → F) :=
  order.foldlM (fun x threadIndex => ropeLlama cache isQ pos slice nThreads threadIndex x) x

/-- A rank rotates its columns as one node with all columns does, and both read only places of their
caches that were written, at every position, for every number and order of threads. -/
def SliceRotates (angles : RopeAngles F) (slice whole : NnRopeSlice) (nodeIndex : ℕ)
    (isQ : Bool) : Prop :=
  ∃ cache wholeCache, fullfillRopeLlamaCache angles slice = some cache ∧
    fullfillRopeLlamaCache angles whole = some wholeCache ∧
    ∀ pos < slice.seqLen, ∀ nThreads order nThreads' order', 0 < nThreads → 0 < nThreads' →
      order.Perm (List.range nThreads) → order'.Perm (List.range nThreads') → ∀ x : ℕ → F,
      ∃ y z, ropeLlamaThreads cache isQ pos slice nThreads order
          (fun i => x (dim0 slice isQ * nodeIndex + i)) = some y ∧
        ropeLlamaThreads wholeCache isQ pos whole nThreads' order' x = some z ∧
        ∀ i < dim0 slice isQ, y i = z (dim0 slice isQ * nodeIndex + i)

end Rotate

section Buffer

theorem storeAll_cons (length : ℕ) (w : ℕ × F) (writes : List (ℕ × F)) (buffer : ℕ → Option F) :
    storeAll length (w :: writes) buffer =
      storeAll length writes
        (if w.1 < length then Function.update buffer w.1 (some w.2) else buffer) :=
  Eq.refl _

/-- Past its end a buffer stays as it was. -/
theorem storeAll_past {length place : ℕ} (hplace : length ≤ place) (writes : List (ℕ × F))
    (buffer : ℕ → Option F) : storeAll length writes buffer place = buffer place := by
  induction writes generalizing buffer with
  | nil => exact Eq.refl _
  | cons w writes ih =>
    rw [storeAll_cons, ih]
    by_cases hw : w.1 < length
    · have hne : place ≠ w.1 := by omega
      rw [if_pos hw, Function.update_of_ne hne]
    · rw [if_neg hw]

/-- A place that is written with one value only has it. -/
theorem storeAll_written {length place : ℕ} {value : F} (hplace : place < length)
    (writes : List (ℕ × F)) (buffer : ℕ → Option F)
    (hsame : ∀ w ∈ writes, w.1 = place → w.2 = value)
    (hwritten : (∃ w ∈ writes, w.1 = place) ∨ buffer place = some value) :
    storeAll length writes buffer place = some value := by
  induction writes generalizing buffer with
  | nil =>
    cases hwritten with
    | inl hsome =>
      obtain ⟨w, hw, _⟩ := hsome
      cases hw
    | inr hbefore => exact hbefore
  | cons w writes ih =>
    rw [storeAll_cons]
    refine ih _ (fun v hv => hsame v (List.mem_cons_of_mem w hv)) ?_
    by_cases hfirst : w.1 = place
    · right
      have hvalue : w.2 = value := hsame w List.mem_cons_self hfirst
      rw [if_pos (hfirst ▸ hplace), hfirst, Function.update_self, hvalue]
    · cases hwritten with
      | inl hsome =>
        left
        obtain ⟨v, hv, hat⟩ := hsome
        cases List.mem_cons.mp hv with
        | inl heq => exact absurd (heq ▸ hat) hfirst
        | inr hrest => exact ⟨v, hrest, hat⟩
      | inr hbefore =>
        right
        by_cases hw : w.1 < length
        · rw [if_pos hw, Function.update_of_ne (Ne.symm hfirst), hbefore]
        · rw [if_neg hw, hbefore]

end Buffer

section Slices

/-- Columns of a rank with rank-wise numbers of query and key columns. -/
def llamaShift (qDim0 kvDim0 nodeIndex : ℕ) : NnRopeShift where
  qDimStart := qDim0 * nodeIndex
  qDimEnd := qDim0 * nodeIndex + qDim0
  qShift := qDim0 * nodeIndex - kvDim0 * nodeIndex
  kvDimStart := kvDim0 * nodeIndex
  sliceDim := qDim0 * nodeIndex + qDim0 - kvDim0 * nodeIndex

/-- The slice of a rank for the llama kinds. -/
def llamaSlice (qDim kvDim nKvHeads nNodes seqLen headDim nodeIndex : ℕ) : NnRopeSlice where
  qDim0 := qDim / nNodes
  kvDim := kvDim
  kvDim0 := kvDim / nNodes
  seqLen := seqLen
  headDim := headDim
  nKvHeads := nKvHeads
  shift := some (llamaShift (qDim / nNodes) (kvDim / nNodes) nodeIndex)
  cacheSize := size2D .f32 seqLen (llamaShift (qDim / nNodes) (kvDim / nNodes) nodeIndex).sliceDim

/-- What the slicer checks for the llama kinds. -/
structure SliceAccepts (qDim kvDim nNodes : ℕ) : Prop where
  /-- No more key columns than query columns. -/
  fewer : kvDim ≤ qDim
  /-- The ranks share the query columns. -/
  qDim_mod : qDim % nNodes = 0
  /-- And the key columns. -/
  kvDim_mod : kvDim % nNodes = 0
  /-- Query columns of a rank are pairs. -/
  qDim0_even : qDim / nNodes % 2 = 0
  /-- Key columns of a rank, too. -/
  kvDim0_even : kvDim / nNodes % 2 = 0

variable {type : NnRopeType} {qDim kvDim nKvHeads nNodes seqLen headDim nodeIndex : ℕ}

theorem sliceRope_ok (htype : type ≠ .falcon) {slice : NnRopeSlice}
    (h : sliceRope type qDim kvDim nKvHeads nNodes seqLen headDim nodeIndex = .ok slice) :
    SliceAccepts qDim kvDim nNodes ∧
      slice = llamaSlice qDim kvDim nKvHeads nNodes seqLen headDim nodeIndex := by
  obtain ⟨_, hfewer, h⟩ := bind_eq_ok h
  obtain ⟨_, hq, h⟩ := bind_eq_ok h
  obtain ⟨_, hkv, h⟩ := bind_eq_ok h
  obtain ⟨_, hqEven, h⟩ := bind_eq_ok h
  obtain ⟨_, hkvEven, h⟩ := bind_eq_ok h
  rw [if_neg htype] at h
  obtain ⟨_, _, h⟩ := bind_eq_ok h
  injection h with hslice
  exact ⟨⟨require_eq_ok hfewer, require_eq_ok hq, require_eq_ok hkv, require_eq_ok hqEven,
    require_eq_ok hkvEven⟩, hslice.symm⟩

theorem sliceRope_eq (htype : type ≠ .falcon) (h : SliceAccepts qDim kvDim nNodes) :
    sliceRope type qDim kvDim nKvHeads nNodes seqLen headDim nodeIndex =
      .ok (llamaSlice qDim kvDim nKvHeads nNodes seqLen headDim nodeIndex) := by
  have heven : (qDim / nNodes * nodeIndex + qDim / nNodes - kvDim / nNodes * nodeIndex) % 2 = 0 := by
    have hq := h.qDim0_even
    have hkv := h.kvDim0_even
    have hqStart : qDim / nNodes * nodeIndex % 2 = 0 := by rw [Nat.mul_mod, hq, Nat.zero_mul]
    have hkvStart : kvDim / nNodes * nodeIndex % 2 = 0 := by rw [Nat.mul_mod, hkv, Nat.zero_mul]
    omega
  unfold sliceRope require
  rw [if_pos h.fewer, if_pos h.qDim_mod, if_pos h.kvDim_mod]
  dsimp only [bind, Except.bind]
  rw [if_pos h.qDim0_even, if_pos h.kvDim0_even, if_neg htype]
  dsimp only
  rw [if_pos heven]
  exact Eq.refl _

/-- A single node accepts what ranks accept. -/
theorem SliceAccepts.single (h : SliceAccepts qDim kvDim nNodes) : SliceAccepts qDim kvDim 1 := by
  have hq : nNodes * (qDim / nNodes) = qDim := Nat.mul_div_cancel' (Nat.dvd_of_mod_eq_zero h.qDim_mod)
  have hkv : nNodes * (kvDim / nNodes) = kvDim :=
    Nat.mul_div_cancel' (Nat.dvd_of_mod_eq_zero h.kvDim_mod)
  refine ⟨h.fewer, Nat.mod_one _, Nat.mod_one _, ?_, ?_⟩
  · rw [Nat.div_one, ← hq, Nat.mul_mod, h.qDim0_even, Nat.mul_zero]
  · rw [Nat.div_one, ← hkv, Nat.mul_mod, h.kvDim0_even, Nat.mul_zero]

end Slices

section Cache

/-- The writes for a pair of columns, without the offset of the first key column. -/
theorem mem_ropePairWrites {angles : RopeAngles F} {headDim pos pair : ℕ} {shift : NnRopeShift}
    {w : ℕ × F} (h : pos * shift.sliceDim + (2 * pair + 1) < uintRange) :
    w ∈ ropePairWrites angles headDim shift pos pair ↔
      w = (pos * shift.sliceDim + 2 * pair,
        angles.fcr pos ((shift.kvDimStart + 2 * pair) % headDim)) ∨
      w = (pos * shift.sliceDim + (2 * pair + 1),
        angles.fci pos ((shift.kvDimStart + 2 * pair) % headDim)) := by
  unfold ropePairWrites
  dsimp only
  rw [Nat.add_sub_cancel_left, Nat.add_assoc, Nat.mod_eq_of_lt (by omega), Nat.mod_eq_of_lt h,
    List.mem_cons, List.mem_singleton]

/-- The value for a column of the window: a cosine for the first of a pair, a sine for the second. -/
def windowValue (angles : RopeAngles F) (headDim : ℕ) (shift : NnRopeShift) (pos place : ℕ) : F :=
  let h := (shift.kvDimStart + 2 * (place / 2)) % headDim
  if place % 2 = 0 then angles.fcr pos h else angles.fci pos h

theorem ropePairWrites_value {angles : RopeAngles F} {headDim pos pair place : ℕ}
    {shift : NnRopeShift} {w : ℕ × F} (h : pos * shift.sliceDim + (2 * pair + 1) < uintRange)
    (hw : w ∈ ropePairWrites angles headDim shift pos pair)
    (hplace : place < shift.sliceDim) (hpair : 2 * pair + 1 < shift.sliceDim) {pos' : ℕ}
    (hat : w.1 = pos' * shift.sliceDim + place) :
    w.2 = windowValue angles headDim shift pos' place := by
  unfold windowValue
  dsimp only
  cases (mem_ropePairWrites h).mp hw with
  | inl hcosine =>
    rw [hcosine] at hat
    obtain ⟨hpos, hsame⟩ := index_inj (by omega) hplace hat
    have hparity : place % 2 = 0 := by omega
    have hhalf : place / 2 = pair := by omega
    rw [hcosine, hparity, if_pos (Eq.refl 0), hhalf, hpos]
  | inr hsine =>
    rw [hsine] at hat
    obtain ⟨hpos, hsame⟩ := index_inj hpair hplace hat
    have hparity : place % 2 = 1 := by omega
    have hhalf : place / 2 = pair := by omega
    rw [hsine, hparity, if_neg Nat.one_ne_zero, hhalf, hpos]

/-- What the cache of a rank holds: the angles of its window, and nothing past its end. -/
theorem fullfillRopeLlamaCache_eq {angles : RopeAngles F} {slice : NnRopeSlice}
    {shift : NnRopeShift} {cache : ℕ → Option F} (hshift : slice.shift = some shift)
    (h : fullfillRopeLlamaCache angles slice = some cache) :
    cache = storeAll slice.cacheSize.length
      ((List.range slice.seqLen).flatMap fun pos =>
        (List.range ((shift.qDimEnd - shift.kvDimStart + 1) / 2)).flatMap
          (ropePairWrites angles slice.headDim shift pos)) fun _ => none := by
  unfold fullfillRopeLlamaCache at h
  rw [hshift, Option.bind_eq_bind, Option.bind_some] at h
  split at h
  · cases h
  · injection h with h
    exact h.symm

theorem cache_past {angles : RopeAngles F} {slice : NnRopeSlice} {shift : NnRopeShift}
    {cache : ℕ → Option F} (hshift : slice.shift = some shift)
    (h : fullfillRopeLlamaCache angles slice = some cache) {place : ℕ}
    (hplace : slice.cacheSize.length ≤ place) : cache place = none := by
  rw [fullfillRopeLlamaCache_eq hshift h]
  exact storeAll_past hplace _ _

theorem cache_window {angles : RopeAngles F} {slice : NnRopeSlice} {shift : NnRopeShift}
    {cache : ℕ → Option F} (hshift : slice.shift = some shift)
    (h : fullfillRopeLlamaCache angles slice = some cache)
    (hwidth : shift.sliceDim = shift.qDimEnd - shift.kvDimStart) (heven : shift.sliceDim % 2 = 0)
    (hlength : slice.cacheSize.length = slice.seqLen * shift.sliceDim)
    (hword : slice.seqLen * shift.sliceDim < uintRange) {pos place : ℕ} (hpos : pos < slice.seqLen)
    (hplace : place < shift.sliceDim) :
    cache (pos * shift.sliceDim + place) =
      some (windowValue angles slice.headDim shift pos place) := by
  have hfits (pos' pair : ℕ) (hpos' : pos' < slice.seqLen) (hpair : 2 * pair + 1 < shift.sliceDim) :
      pos' * shift.sliceDim + (2 * pair + 1) < uintRange :=
    Nat.lt_trans (index_lt hpos' hpair) hword
  rw [fullfillRopeLlamaCache_eq hshift h, ← hwidth]
  refine storeAll_written ?_ _ _ ?_ (.inl ?_)
  · rw [hlength]
    exact index_lt hpos hplace
  · intro w hw hat
    obtain ⟨pos', hpos', hw⟩ := List.mem_flatMap.mp hw
    obtain ⟨pair, hpair, hw⟩ := List.mem_flatMap.mp hw
    have hpos' := List.mem_range.mp hpos'
    have hpair := List.mem_range.mp hpair
    have hin : 2 * pair + 1 < shift.sliceDim := by omega
    exact ropePairWrites_value (hfits pos' pair hpos' hin) hw hplace hin hat
  · have hin : 2 * (place / 2) + 1 < shift.sliceDim := by omega
    have hmem (w : ℕ × F) (hw : w ∈ ropePairWrites angles slice.headDim shift pos (place / 2)) :
        w ∈ (List.range slice.seqLen).flatMap fun pos =>
          (List.range ((shift.sliceDim + 1) / 2)).flatMap
            (ropePairWrites angles slice.headDim shift pos) := by
      refine List.mem_flatMap.mpr ⟨pos, List.mem_range.mpr hpos, ?_⟩
      exact List.mem_flatMap.mpr ⟨place / 2, List.mem_range.mpr (by omega), hw⟩
    rcases Nat.mod_two_eq_zero_or_one place with hparity | hparity
    · refine ⟨_, hmem _ ((mem_ropePairWrites (hfits pos _ hpos hin)).mpr (.inl (Eq.refl _))), ?_⟩
      dsimp only
      omega
    · refine ⟨_, hmem _ ((mem_ropePairWrites (hfits pos _ hpos hin)).mpr (.inr (Eq.refl _))), ?_⟩
      dsimp only
      omega

end Cache

section Rotations

variable [Add F] [Sub F] [Mul F] {cache : ℕ → Option F} {posCache : ℕ}

/-- Pairs of a thread. -/
def threadPairs (half nThreads threadIndex : ℕ) : List ℕ :=
  let range := splitThreadsUint half nThreads threadIndex
  List.range' range.1 (range.2 - range.1)

/-- A column after the rotation of its pair. -/
def rotated (angle : ℕ → F) (x : ℕ → F) (i : ℕ) : F :=
  if i % 2 = 0 then x i * angle i - x (i + 1) * angle (i + 1)
  else x (i - 1) * angle i + x i * angle (i - 1)

theorem rotatePair_eq {angle : ℕ → F} {pair : ℕ} (x : ℕ → F)
    (hfcr : cache (posCache + 2 * pair) = some (angle (2 * pair)))
    (hfci : cache (posCache + (2 * pair + 1)) = some (angle (2 * pair + 1))) :
    ∃ y, rotatePair cache posCache pair x = some y ∧
      ∀ i, y i = if i / 2 = pair then rotated angle x i else x i := by
  refine ⟨Function.update (Function.update x (2 * pair)
    (x (2 * pair) * angle (2 * pair) - x (2 * pair + 1) * angle (2 * pair + 1))) (2 * pair + 1)
    (x (2 * pair) * angle (2 * pair + 1) + x (2 * pair + 1) * angle (2 * pair)), ?_, ?_⟩
  · unfold rotatePair
    dsimp only
    rw [hfcr, hfci]
    exact Eq.refl _
  · intro i
    unfold rotated
    by_cases hpair : i / 2 = pair
    · rw [if_pos hpair]
      rcases Nat.mod_two_eq_zero_or_one i with hparity | hparity
      · have hfirst : i = 2 * pair := by omega
        rw [if_pos hparity, hfirst, Function.update_of_ne (by omega), Function.update_self]
      · have hsecond : i = 2 * pair + 1 := by omega
        rw [if_neg (by omega), hsecond, Function.update_self, Nat.add_sub_cancel]
    · rw [if_neg hpair, Function.update_of_ne (by omega), Function.update_of_ne (by omega)]

/-- Distinct pairs, in any order. -/
theorem rotatePairs_eq {angle : ℕ → F} {pairs : List ℕ} (hnodup : pairs.Nodup)
    (hcache : ∀ pair ∈ pairs, cache (posCache + 2 * pair) = some (angle (2 * pair)) ∧
      cache (posCache + (2 * pair + 1)) = some (angle (2 * pair + 1))) (x : ℕ → F) :
    ∃ y, pairs.foldlM (fun x pair => rotatePair cache posCache pair x) x = some y ∧
      ∀ i, y i = if i / 2 ∈ pairs then rotated angle x i else x i := by
  induction pairs generalizing x with
  | nil =>
    refine ⟨x, Eq.refl _, ?_⟩
    intro i
    rw [if_neg List.not_mem_nil]
  | cons pair pairs ih =>
    obtain ⟨hfresh, hnodup⟩ := List.nodup_cons.mp hnodup
    obtain ⟨hfcr, hfci⟩ := hcache pair List.mem_cons_self
    obtain ⟨y, hy, hvalues⟩ := rotatePair_eq x hfcr hfci
    obtain ⟨z, hz, hrest⟩ := ih hnodup (fun q hq => hcache q (List.mem_cons_of_mem pair hq)) y
    refine ⟨z, ?_, ?_⟩
    · rw [List.foldlM_cons, hy]
      exact hz
    · intro i
      rw [hrest i]
      by_cases hlater : i / 2 ∈ pairs
      · have hne : i / 2 ≠ pair := fun heq => hfresh (heq ▸ hlater)
        have hsame (j : ℕ) (hj : j / 2 = i / 2) : y j = x j := by
          rw [hvalues j, if_neg (hj ▸ hne)]
        rw [if_pos hlater, if_pos (List.mem_cons_of_mem pair hlater)]
        unfold rotated
        rcases Nat.mod_two_eq_zero_or_one i with hparity | hparity
        · rw [if_pos hparity, if_pos hparity, hsame i (Eq.refl _), hsame (i + 1) (by omega)]
        · rw [if_neg (by omega), if_neg (by omega), hsame i (Eq.refl _), hsame (i - 1) (by omega)]
      · rw [if_neg hlater, hvalues i]
        simp only [List.mem_cons, hlater, or_false]

theorem ropeLlamaThreads_eq {isQ : Bool} {pos : ℕ} {slice : NnRopeSlice} {shift : NnRopeShift}
    (hshift : slice.shift = some shift) (nThreads : ℕ) (order : List ℕ) (x : ℕ → F) :
    ropeLlamaThreads cache isQ pos slice nThreads order x =
      (order.flatMap (threadPairs (dim0 slice isQ / 2) nThreads)).foldlM
        (fun x pair => rotatePair cache
          ((pos * shift.sliceDim + if isQ then shift.qShift else 0) % uintRange) pair x) x := by
  have hthread (t : ℕ) (x : ℕ → F) : ropeLlama cache isQ pos slice nThreads t x =
      (threadPairs (dim0 slice isQ / 2) nThreads t).foldlM (fun x pair => rotatePair cache
        ((pos * shift.sliceDim + if isQ then shift.qShift else 0) % uintRange) pair x) x := by
    unfold ropeLlama
    rw [hshift]
    exact Eq.refl _
  unfold ropeLlamaThreads
  induction order generalizing x with
  | nil => exact Eq.refl _
  | cons t order ih =>
    rw [List.foldlM_cons, List.flatMap_cons, List.foldlM_append, hthread]
    refine congrArg (Option.bind _) ?_
    funext y
    exact ih y

theorem mem_threadPairs {half nThreads t pair : ℕ} (hhalf : half < uintRange) (ht : t < nThreads) :
    pair ∈ threadPairs half nThreads t ↔ InShard half nThreads t pair := by
  have hmono : shardStart half nThreads t ≤ shardStart half nThreads (t + 1) :=
    shardStart_mono half nThreads (Nat.le_succ t)
  unfold threadPairs InShard
  rw [splitThreadsUint_eq hhalf ht]
  dsimp only
  rw [List.mem_range'_1]
  omega

/-- The threads have all pairs, each once. -/
theorem threadPairs_all {half nThreads : ℕ} (hhalf : half < uintRange) (hpos : 0 < nThreads)
    {order : List ℕ} (hperm : order.Perm (List.range nThreads)) :
    (order.flatMap (threadPairs half nThreads)).Nodup ∧
      ∀ pair, pair ∈ order.flatMap (threadPairs half nThreads) ↔ pair < half := by
  have hmem (t : ℕ) : t ∈ order ↔ t < nThreads := by rw [hperm.mem_iff, List.mem_range]
  constructor
  · refine List.nodup_flatMap.mpr ⟨?_, ?_⟩
    · intro t _
      exact List.nodup_range'
    · refine (List.Nodup.pairwise_of_forall_ne (hperm.nodup_iff.mpr List.nodup_range) ?_)
      intro t ht u hu hne pair hpair hpair'
      have hshard := (mem_threadPairs hhalf ((hmem t).mp ht)).mp hpair
      have hshard' := (mem_threadPairs hhalf ((hmem u).mp hu)).mp hpair'
      exact hne (shard_unique hshard hshard')
  · intro pair
    constructor
    · intro h
      obtain ⟨t, ht, hpair⟩ := List.mem_flatMap.mp h
      have hshard := (mem_threadPairs hhalf ((hmem t).mp ht)).mp hpair
      exact Nat.lt_of_lt_of_le hshard.2 (shardStart_le hpos ((hmem t).mp ht))
    · intro h
      obtain ⟨t, ht, hshard⟩ := exists_shard hpos h
      exact List.mem_flatMap.mpr ⟨t, (hmem t).mpr ht, (mem_threadPairs hhalf ht).mpr hshard⟩

/-- Threads that read an unwritten place fail. -/
theorem rotatePairs_none {pairs : List ℕ} {pair : ℕ} (hmem : pair ∈ pairs)
    (hnone : cache (posCache + (2 * pair + 1)) = none) (x : ℕ → F) :
    pairs.foldlM (fun x pair => rotatePair cache posCache pair x) x = none := by
  induction pairs generalizing x with
  | nil => cases hmem
  | cons first pairs ih =>
    rw [List.foldlM_cons]
    cases hfirst : rotatePair cache posCache first x with
    | none => exact Eq.refl _
    | some y =>
      cases List.mem_cons.mp hmem with
      | inl heq =>
        rw [← heq] at hfirst
        unfold rotatePair at hfirst
        dsimp only at hfirst
        rw [hnone] at hfirst
        cases hcos : cache (posCache + 2 * pair) with
        | none =>
          rw [hcos] at hfirst
          cases hfirst
        | some fcr =>
          rw [hcos] at hfirst
          cases hfirst
      | inr hrest => exact ih hrest y

end Rotations

section Ranks

variable {qDim kvDim nKvHeads nNodes seqLen headDim nodeIndex : ℕ}

/-- Place in the window of the first column of a rank. -/
def offset (shift : NnRopeShift) (isQ : Bool) : ℕ := if isQ then shift.qShift else 0

/-- Angles for the columns of a rank. -/
def rankAngle (angles : RopeAngles F) (headDim : ℕ) (shift : NnRopeShift) (isQ : Bool) (pos i : ℕ) :
    F :=
  windowValue angles headDim shift pos (offset shift isQ + i)

/-- The windows of the ranks of accepted slices. -/
structure Window (slice : NnRopeSlice) (shift : NnRopeShift) (qDim nodeIndex : ℕ) : Prop where
  /-- The slice has it. -/
  shift_eq : slice.shift = some shift
  /-- From the first key column to the last query column. -/
  width : shift.sliceDim = shift.qDimEnd - shift.kvDimStart
  /-- Whole pairs. -/
  width_even : shift.sliceDim % 2 = 0
  /-- No more than all columns. -/
  width_le : shift.sliceDim ≤ qDim
  /-- Columns of a rank are pairs. -/
  dim0_even : ∀ isQ, dim0 slice isQ % 2 = 0
  /-- The first key column begins a pair. -/
  start_even : shift.kvDimStart % 2 = 0
  /-- The offset leads from the first key column to that of the rank. -/
  start : ∀ isQ, shift.kvDimStart + offset shift isQ = dim0 slice isQ * nodeIndex
  /-- The window has the columns of the rank. -/
  fits : ∀ isQ, offset shift isQ + dim0 slice isQ ≤ shift.sliceDim

theorem window_llamaSlice (h : SliceAccepts qDim kvDim nNodes) (hnode : nodeIndex < nNodes) :
    Window (llamaSlice qDim kvDim nKvHeads nNodes seqLen headDim nodeIndex)
      (llamaShift (qDim / nNodes) (kvDim / nNodes) nodeIndex) qDim nodeIndex := by
  have hq : qDim / nNodes * nNodes = qDim := Nat.div_mul_cancel (Nat.dvd_of_mod_eq_zero h.qDim_mod)
  have hfewer : kvDim / nNodes ≤ qDim / nNodes := Nat.div_le_div_right h.fewer
  have hstarts : kvDim / nNodes * nodeIndex ≤ qDim / nNodes * nodeIndex :=
    Nat.mul_le_mul_right nodeIndex hfewer
  have hend : qDim / nNodes * nodeIndex + qDim / nNodes ≤ qDim := by
    have hnext : qDim / nNodes * (nodeIndex + 1) ≤ qDim / nNodes * nNodes :=
      Nat.mul_le_mul_left _ hnode
    rw [hq, Nat.mul_succ] at hnext
    exact hnext
  have hqStart : qDim / nNodes * nodeIndex % 2 = 0 := by
    rw [Nat.mul_mod, h.qDim0_even, Nat.zero_mul]
  have hkvStart : kvDim / nNodes * nodeIndex % 2 = 0 := by
    rw [Nat.mul_mod, h.kvDim0_even, Nat.zero_mul]
  have hqEven := h.qDim0_even
  constructor
  · exact Eq.refl _
  · exact Eq.refl _
  · dsimp only [llamaShift]
    omega
  · dsimp only [llamaShift]
    omega
  · intro isQ
    cases isQ with
    | true => exact h.qDim0_even
    | false => exact h.kvDim0_even
  · exact hkvStart
  · intro isQ
    cases isQ with
    | true => exact Nat.add_sub_of_le hstarts
    | false => exact Nat.add_zero _
  · intro isQ
    cases isQ with
    | true =>
      change qDim / nNodes * nodeIndex - kvDim / nNodes * nodeIndex + qDim / nNodes ≤
        qDim / nNodes * nodeIndex + qDim / nNodes - kvDim / nNodes * nodeIndex
      omega
    | false =>
      change 0 + kvDim / nNodes ≤
        qDim / nNodes * nodeIndex + qDim / nNodes - kvDim / nNodes * nodeIndex
      omega

variable [Add F] [Sub F] [Mul F] {angles : RopeAngles F} {slice : NnRopeSlice} {shift : NnRopeShift}

/-- A rank rotates its columns by the angles of its window. -/
theorem Window.rotates (h : Window slice shift qDim nodeIndex) (hdim : qDim < uintRange)
    {cache : ℕ → Option F} (hfill : fullfillRopeLlamaCache angles slice = some cache)
    (hlength : slice.cacheSize.length = slice.seqLen * shift.sliceDim)
    (hword : slice.seqLen * shift.sliceDim < uintRange) (isQ : Bool) {pos : ℕ}
    (hpos : pos < slice.seqLen) {nThreads : ℕ} (hthreads : 0 < nThreads) {order : List ℕ}
    (hperm : order.Perm (List.range nThreads)) (x : ℕ → F) :
    ∃ y, ropeLlamaThreads cache isQ pos slice nThreads order x = some y ∧
      ∀ i < dim0 slice isQ, y i = rotated (rankAngle angles slice.headDim shift isQ pos) x i := by
  have hfits := h.fits isQ
  have heven := h.dim0_even isQ
  have hwidth := h.width_le
  have hhalf : dim0 slice isQ / 2 < uintRange := by omega
  obtain ⟨hnodup, hmem⟩ := threadPairs_all hhalf hthreads hperm
  have hwindow (i : ℕ) (hi : i < dim0 slice isQ) :
      cache ((pos * shift.sliceDim + offset shift isQ) % uintRange + i) =
        some (rankAngle angles slice.headDim shift isQ pos i) := by
    have hplace : offset shift isQ + i < shift.sliceDim := by omega
    have hindex := index_lt hpos hplace
    rw [Nat.mod_eq_of_lt (by omega), Nat.add_assoc]
    exact cache_window h.shift_eq hfill h.width h.width_even hlength hword hpos hplace
  have hpairs (pair : ℕ) (hpair : pair ∈ order.flatMap (threadPairs (dim0 slice isQ / 2) nThreads)) :
      cache ((pos * shift.sliceDim + offset shift isQ) % uintRange + 2 * pair) =
          some (rankAngle angles slice.headDim shift isQ pos (2 * pair)) ∧
        cache ((pos * shift.sliceDim + offset shift isQ) % uintRange + (2 * pair + 1)) =
          some (rankAngle angles slice.headDim shift isQ pos (2 * pair + 1)) := by
    have hlt := (hmem pair).mp hpair
    exact ⟨hwindow (2 * pair) (by omega), hwindow (2 * pair + 1) (by omega)⟩
  obtain ⟨y, hy, hvalues⟩ := rotatePairs_eq hnodup hpairs x
  refine ⟨y, ?_, ?_⟩
  · rw [ropeLlamaThreads_eq h.shift_eq]
    exact hy
  · intro i hi
    rw [hvalues i, if_pos ((hmem _).mpr (by omega))]

omit [Add F] [Sub F] [Mul F] in
/-- Two windows hold the same angles for the same columns. -/
theorem rankAngle_eq {whole : NnRopeSlice} {all : NnRopeShift}
    (h : Window slice shift qDim nodeIndex) (hall : Window whole all qDim 0) (isQ : Bool)
    (pos i : ℕ) : rankAngle angles headDim shift isQ pos i =
      rankAngle angles headDim all isQ pos (dim0 slice isQ * nodeIndex + i) := by
  have hstart := h.start isQ
  have hwhole := hall.start isQ
  have hcolumn : shift.kvDimStart + 2 * ((offset shift isQ + i) / 2) =
      all.kvDimStart + 2 * ((offset all isQ + (dim0 slice isQ * nodeIndex + i)) / 2) := by
    have heven := h.start_even
    omega
  have hparity : (offset shift isQ + i) % 2 =
      (offset all isQ + (dim0 slice isQ * nodeIndex + i)) % 2 := by
    have heven := h.start_even
    omega
  unfold rankAngle windowValue
  dsimp only
  rw [hcolumn, hparity]

omit [Add F] [Sub F] [Mul F] in
/-- The cache can be filled when a head has columns or there is nothing to fill. -/
theorem fullfillRopeLlamaCache_some (h : Window slice shift qDim nodeIndex)
    (hhead : slice.headDim = 0 → slice.seqLen = 0 ∨ qDim = 0) :
    ∃ cache, fullfillRopeLlamaCache angles slice = some cache := by
  have hbad : ¬(slice.headDim = 0 ∧ 0 < slice.seqLen ∧ shift.kvDimStart < shift.qDimEnd) := by
    intro hall
    obtain ⟨hzero, hseq, hcolumns⟩ := hall
    have hwidth := h.width
    have hle := h.width_le
    cases hhead hzero with
    | inl hnone => omega
    | inr hnone => omega
  unfold fullfillRopeLlamaCache
  rw [h.shift_eq, Option.bind_eq_bind, Option.bind_some, if_neg hbad]
  exact ⟨_, Eq.refl _⟩

theorem length_cacheSize {seqLen width : ℕ} (h : seqLen * width < uintRange) :
    (size2D .f32 seqLen width).length = seqLen * width := by
  have hword : 1 * seqLen * width % 2 ^ 32 = seqLen * width := by
    rw [Nat.one_mul]
    exact Nat.mod_eq_of_lt h
  exact hword

theorem length_cacheSize_lt (seqLen width : ℕ) :
    (size2D .f32 seqLen width).length < uintRange := by
  have hpositive : 0 < 2 ^ 32 := Nat.two_pow_pos 32
  exact Nat.mod_lt _ hpositive

omit [Add F] [Sub F] [Mul F] in
/-- Columns of all ranks. -/
theorem dim0_mul (h : SliceAccepts qDim kvDim nNodes) (isQ : Bool) :
    dim0 (llamaSlice qDim kvDim nKvHeads nNodes seqLen headDim nodeIndex) isQ * nNodes =
      dim0 (llamaSlice qDim kvDim nKvHeads 1 seqLen headDim 0) isQ := by
  cases isQ with
  | true =>
    change qDim / nNodes * nNodes = qDim / 1
    rw [Nat.div_one, Nat.div_mul_cancel (Nat.dvd_of_mod_eq_zero h.qDim_mod)]
  | false =>
    change kvDim / nNodes * nNodes = kvDim / 1
    rw [Nat.div_one, Nat.div_mul_cancel (Nat.dvd_of_mod_eq_zero h.kvDim_mod)]

/-- A rotation of the columns from an even one on is part of the rotation of all. -/
theorem rotated_add {start : ℕ} (heven : start % 2 = 0) {angle all : ℕ → F}
    (hangle : ∀ i, angle i = all (start + i)) (x : ℕ → F) (i : ℕ) :
    rotated angle (fun i => x (start + i)) i = rotated all x (start + i) := by
  unfold rotated
  rcases Nat.mod_two_eq_zero_or_one i with hparity | hparity
  · have hsum : (start + i) % 2 = 0 := by omega
    rw [if_pos hparity, if_pos hsum, hangle, hangle, Nat.add_assoc]
  · have hsum : ¬(start + i) % 2 = 0 := by omega
    have hbefore : start + i - 1 = start + (i - 1) := by omega
    rw [if_neg (by omega), if_neg hsum, hangle, hangle, hbefore]

/-- A cache that words can count serves every rank. -/
theorem sliceRotates_of_lt (haccepts : SliceAccepts qDim kvDim nNodes) (hnode : nodeIndex < nNodes)
    (hdim : qDim < uintRange) (hword : seqLen * qDim < uintRange)
    (hhead : headDim = 0 → seqLen * qDim = 0) (angles : RopeAngles F) (isQ : Bool) :
    SliceRotates angles (llamaSlice qDim kvDim nKvHeads nNodes seqLen headDim nodeIndex)
      (llamaSlice qDim kvDim nKvHeads 1 seqLen headDim 0) nodeIndex isQ := by
  have hrank : Window (llamaSlice qDim kvDim nKvHeads nNodes seqLen headDim nodeIndex)
      (llamaShift (qDim / nNodes) (kvDim / nNodes) nodeIndex) qDim nodeIndex :=
    window_llamaSlice haccepts hnode
  have hwhole : Window (llamaSlice qDim kvDim nKvHeads 1 seqLen headDim 0)
      (llamaShift (qDim / 1) (kvDim / 1) 0) qDim 0 :=
    window_llamaSlice haccepts.single Nat.zero_lt_one
  have hempty : headDim = 0 → seqLen = 0 ∨ qDim = 0 := fun hzero => Nat.mul_eq_zero.mp (hhead hzero)
  have hfilled : ∃ cache, fullfillRopeLlamaCache angles
      (llamaSlice qDim kvDim nKvHeads nNodes seqLen headDim nodeIndex) = some cache :=
    fullfillRopeLlamaCache_some hrank hempty
  have hfilledWhole : ∃ cache, fullfillRopeLlamaCache angles
      (llamaSlice qDim kvDim nKvHeads 1 seqLen headDim 0) = some cache :=
    fullfillRopeLlamaCache_some hwhole hempty
  obtain ⟨cache, hfill⟩ := hfilled
  obtain ⟨wholeCache, hfillWhole⟩ := hfilledWhole
  have hfitsRank := Nat.lt_of_le_of_lt (Nat.mul_le_mul_left seqLen hrank.width_le) hword
  have hfitsWhole := Nat.lt_of_le_of_lt (Nat.mul_le_mul_left seqLen hwhole.width_le) hword
  refine ⟨cache, wholeCache, hfill, hfillWhole, ?_⟩
  intro pos hpos nThreads order nThreads' order' hthreads hthreads' hperm hperm' x
  obtain ⟨y, hy, hrotated⟩ := hrank.rotates hdim hfill (length_cacheSize hfitsRank) hfitsRank
    isQ hpos hthreads hperm (fun i => x (dim0 _ isQ * nodeIndex + i))
  obtain ⟨z, hz, hall⟩ := hwhole.rotates hdim hfillWhole (length_cacheSize hfitsWhole) hfitsWhole
    isQ hpos hthreads' hperm' x
  refine ⟨y, z, hy, hz, ?_⟩
  intro i hi
  have hranks : dim0 (llamaSlice qDim kvDim nKvHeads nNodes seqLen headDim nodeIndex) isQ * nNodes =
      dim0 (llamaSlice qDim kvDim nKvHeads 1 seqLen headDim 0) isQ := dim0_mul haccepts isQ
  have hcolumns : dim0 (llamaSlice qDim kvDim nKvHeads nNodes seqLen headDim nodeIndex) isQ *
      nodeIndex + i < dim0 (llamaSlice qDim kvDim nKvHeads 1 seqLen headDim 0) isQ := by
    rw [← hranks, Nat.mul_comm, Nat.mul_comm _ nNodes]
    exact index_lt hnode hi
  have hstart : dim0 (llamaSlice qDim kvDim nKvHeads nNodes seqLen headDim nodeIndex) isQ *
      nodeIndex % 2 = 0 := by
    rw [Nat.mul_mod, hrank.dim0_even isQ, Nat.zero_mul]
  rw [hrotated i hi, hall _ hcolumns]
  exact rotated_add hstart (fun j => rankAngle_eq hrank hwhole isQ pos j) x i

/-- A cache that words cannot count has places that were never written. -/
theorem lt_of_sliceRotates (haccepts : SliceAccepts qDim kvDim nNodes) (hdim : qDim < uintRange)
    {angles : RopeAngles F} {slice : NnRopeSlice} (hseq : slice.seqLen = seqLen)
    (h : SliceRotates angles slice (llamaSlice qDim kvDim nKvHeads 1 seqLen headDim 0) nodeIndex
      true) : seqLen * qDim < uintRange ∧ (headDim = 0 → seqLen * qDim = 0) := by
  obtain ⟨cache, wholeCache, _, hfill, hrun⟩ := h
  have hwhole : Window (llamaSlice qDim kvDim nKvHeads 1 seqLen headDim 0)
      (llamaShift (qDim / 1) (kvDim / 1) 0) qDim 0 :=
    window_llamaSlice haccepts.single Nat.zero_lt_one
  have hwidth : (llamaShift (qDim / 1) (kvDim / 1) 0).sliceDim = qDim := by
    change qDim / 1 * 0 + qDim / 1 - kvDim / 1 * 0 = qDim
    rw [Nat.mul_zero, Nat.mul_zero, Nat.zero_add, Nat.sub_zero, Nat.div_one]
  have heven : qDim % 2 = 0 := hwidth ▸ hwhole.width_even
  constructor
  · by_contra hlong
    have hpositive : 0 < qDim := by
      rcases Nat.eq_zero_or_pos qDim with hzero | hpos
      · rw [hzero, Nat.mul_zero] at hlong
        exact absurd (by decide) hlong
      · exact hpos
    have hrange : uintRange = 4294967296 := Eq.refl _
    have hdiv := Nat.div_add_mod (uintRange - 1) qDim
    have hmod := Nat.mod_lt (uintRange - 1) hpositive
    have hparity : qDim * ((uintRange - 1) / qDim) % 2 = 0 := by
      rw [Nat.mul_mod, heven, Nat.zero_mul]
    have hpos : (uintRange - 1) / qDim < seqLen := by
      rw [Nat.div_lt_iff_lt_mul hpositive]
      omega
    obtain ⟨y, z, _, hz, _⟩ := hrun ((uintRange - 1) / qDim) (hseq ▸ hpos) 1 [0] 1 [0]
      Nat.zero_lt_one Nat.zero_lt_one (List.Perm.refl _) (List.Perm.refl _)
      fun _ => angles.fcr 0 0
    have hhalf : qDim / 1 / 2 < uintRange := by
      rw [Nat.div_one]
      omega
    obtain ⟨_, hmem⟩ := threadPairs_all hhalf Nat.zero_lt_one (List.Perm.refl (List.range 1))
    have hpair : (uintRange - 1) % qDim / 2 ∈ [0].flatMap (threadPairs (qDim / 1 / 2) 1) := by
      refine (hmem _).mpr ?_
      rw [Nat.div_one]
      omega
    have hpast : wholeCache (((uintRange - 1) / qDim *
        (llamaShift (qDim / 1) (kvDim / 1) 0).sliceDim + if true then
          (llamaShift (qDim / 1) (kvDim / 1) 0).qShift else 0) % uintRange +
        (2 * ((uintRange - 1) % qDim / 2) + 1)) = none := by
      have hshift : (llamaShift (qDim / 1) (kvDim / 1) 0).qShift = 0 := by
        change qDim / 1 * 0 - kvDim / 1 * 0 = 0
        rw [Nat.mul_zero, Nat.zero_sub]
      refine cache_past hwhole.shift_eq hfill ?_
      have hlast := length_cacheSize_lt seqLen (llamaShift (qDim / 1) (kvDim / 1) 0).sliceDim
      refine Nat.le_trans (Nat.le_sub_one_of_lt hlast) ?_
      rw [hwidth, hshift, ite_self, Nat.add_zero, Nat.mul_comm, Nat.mod_eq_of_lt (by omega)]
      omega
    rw [ropeLlamaThreads_eq hwhole.shift_eq] at hz
    have hfails := rotatePairs_none hpair hpast fun _ => angles.fcr 0 0
    exact Option.some_ne_none z (hz.symm.trans hfails)
  · intro hzero
    by_contra hsome
    have hfactors := Nat.pos_of_mul_pos_right (Nat.pos_of_ne_zero hsome)
    have hpositive := Nat.pos_of_mul_pos_left (Nat.pos_of_ne_zero hsome)
    have hbad : headDim = 0 ∧ 0 < seqLen ∧ (llamaShift (qDim / 1) (kvDim / 1) 0).kvDimStart <
        (llamaShift (qDim / 1) (kvDim / 1) 0).qDimEnd := by
      have hwide := hwhole.width
      rw [hwidth] at hwide
      omega
    unfold fullfillRopeLlamaCache at hfill
    rw [hwhole.shift_eq, Option.bind_eq_bind, Option.bind_some] at hfill
    split at hfill
    · cases hfill
    · rename_i hgood
      exact hgood hbad

/-- Slicing the rotary embedding is right exactly when words can count the places of the cache of a
single node, and a head has columns unless there is nothing to fill. -/
theorem rope_slicing_iff {type : NnRopeType} (htype : type ≠ .falcon) (hnode : nodeIndex < nNodes)
    (hdim : qDim < uintRange) {slice : NnRopeSlice}
    (hslice : sliceRope type qDim kvDim nKvHeads nNodes seqLen headDim nodeIndex = .ok slice)
    (angles : RopeAngles F) :
    (∃ whole, sliceRope type qDim kvDim nKvHeads 1 seqLen headDim 0 = .ok whole ∧
        ∀ isQ, SliceRotates angles slice whole nodeIndex isQ) ↔
      seqLen * qDim < uintRange ∧ (headDim = 0 → seqLen * qDim = 0) := by
  obtain ⟨haccepts, heq⟩ := sliceRope_ok htype hslice
  constructor
  · intro h
    obtain ⟨whole, hwhole, hrotates⟩ := h
    obtain ⟨_, hsame⟩ := sliceRope_ok htype hwhole
    rw [hsame, heq] at hrotates
    exact lt_of_sliceRotates haccepts hdim (Eq.refl _) (hrotates true)
  · intro h
    refine ⟨_, sliceRope_eq htype haccepts.single, ?_⟩
    intro isQ
    rw [heq]
    exact sliceRotates_of_lt haccepts hnode hdim h.1 h.2 angles isQ

/-- The second of two ranks of a model with four query and two key columns a rank. -/
theorem rope_slicing_two : (NnRopeType.llama ≠ .falcon ∧ 1 < 2 ∧ 8 < uintRange) ∧
    ∃ slice, sliceRope .llama 8 4 2 2 3 4 1 = .ok slice ∧
      ∃ whole, sliceRope .llama 8 4 2 1 3 4 0 = .ok whole ∧ ∀ isQ,
        SliceRotates (F := ℤ) ⟨fun pos h => pos + h, fun pos h => pos - h⟩ slice whole 1 isQ := by
  have hslice : sliceRope .llama 8 4 2 2 3 4 1 = .ok (llamaSlice 8 4 2 2 3 4 1) := by decide
  refine ⟨by decide, _, hslice, ?_⟩
  exact (rope_slicing_iff (by decide) (by decide) (by decide) hslice _).mpr (by decide)

/-- Of a model with 65536 positions and as many query columns the cache of a single node has no
places. -/
theorem not_sliceRotates_65536 :
    sliceRope .llama 65536 65536 512 1 65536 128 0 = .ok (llamaSlice 65536 65536 512 1 65536 128 0) ∧
      ¬SliceRotates (F := ℤ) ⟨fun pos h => pos + h, fun pos h => pos - h⟩
        (llamaSlice 65536 65536 512 1 65536 128 0) (llamaSlice 65536 65536 512 1 65536 128 0) 0
        true := by
  have hslice : sliceRope .llama 65536 65536 512 1 65536 128 0 =
      .ok (llamaSlice 65536 65536 512 1 65536 128 0) := by decide
  refine ⟨hslice, ?_⟩
  intro h
  have haccepts := (sliceRope_ok (by decide) hslice).1
  have hcount := (lt_of_sliceRotates haccepts (by decide) (Eq.refl _) h).1
  revert hcount
  decide

end Ranks

end LayerSkip.RopeSlicing
