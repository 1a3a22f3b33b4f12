import LayerSkip.FusedArgmax
import LayerSkip.ParallelSteps

/-!
# Operations that only move or convert rows

Casts, the repetition of a row and the shift into the cache run on all threads, each on a part of
every row. Quantising divides a row by blocks, dequantising gives the blocks left over to the last
thread, and copying divides by bytes. A step has no barrier inside.
-/

namespace LayerSkip.DataMoving

open Dataflow ParallelSteps FusedArgmax

/-- Bytes of a quantised block, its values, and the numbers of an index. -/
def q80Bytes : ℕ := 34

/-- Values of a quantised block. -/
def q80Values : ℕ := 32

/-- Numbers of an `NnUint`. -/
def uintRange : ℕ := 4294967296

/-- Largest number of values that an `int` index reaches. -/
def intRange : ℕ := 2147483648

/-- `SPLIT_THREADS`, in words. -/
def splitThreadsUint (rangeLen nThreads threadIndex : ℕ) : ℕ × ℕ :=
  let rangeSlice := rangeLen / nThreads % uintRange
  let rangeRest := rangeLen % nThreads % uintRange
  let start := (threadIndex * rangeSlice +
    if threadIndex < rangeRest then threadIndex else rangeRest) % uintRange
  (start, (start + rangeSlice + if threadIndex < rangeRest then 1 else 0) % uintRange)

/-- Bytes that `copy_UNK` copies: the length is a word, too. -/
def copyRange (size nThreads threadIndex : ℕ) : ℕ × ℕ :=
  let range := splitThreadsUint size nThreads threadIndex
  (range.1, range.1 + (range.2 + uintRange - range.1) % uintRange)

section Actions

variable {V : Type*}

/-- Store values in a part of a row. Locations are a row and a place in it. -/
def storeRow (row start stop : ℕ) (value : ℕ → V) : Dataflow.Action (ℕ × ℕ) V where
  reads := ∅
  writes := {l | l.1 = row ∧ start ≤ l.2 ∧ l.2 < stop}
  kernel _ l := value l.2
  decWrites l := inferInstanceAs (Decidable (l.1 = row ∧ start ≤ l.2 ∧ l.2 < stop))

/-- Copy a part of a row to the same places of another row. -/
def copyRow [Inhabited V] (row source start stop : ℕ) : Dataflow.Action (ℕ × ℕ) V where
  reads := {l | l.1 = source ∧ start ≤ l.2 ∧ l.2 < stop}
  writes := {l | l.1 = row ∧ start ≤ l.2 ∧ l.2 < stop}
  kernel f l := if h : start ≤ l.2 ∧ l.2 < stop then f ⟨(source, l.2), Eq.refl _, h⟩ else default
  decWrites l := inferInstanceAs (Decidable (l.1 = row ∧ start ≤ l.2 ∧ l.2 < stop))

end Actions

section Kernels

variable {F : Type*} (quantizeBlock : (ℕ → F) → ℕ → UInt8) (dequantizeBlock : (ℕ → UInt8) → ℕ → F)

/-- Quantise the blocks of a thread. -/
def quantizeF32toQ80 (input : ℕ → F) (row n nThreads threadIndex : ℕ) : Dataflow.Action (ℕ × ℕ) UInt8 :=
  let range := splitThreadsUint (n / q80Values) nThreads threadIndex
  storeRow row (range.1 * q80Bytes) (range.2 * q80Bytes) fun p =>
    quantizeBlock (fun j => input (p / q80Bytes * q80Values + j)) (p % q80Bytes)

/-- Dequantise the blocks of a thread; the last one takes those left over. The index of a value
within them is an `int`. -/
def dequantizeQ80toF32 (input : ℕ → UInt8) (row k nThreads threadIndex : ℕ) : Dataflow.Action (ℕ × ℕ) F :=
  let nBlocks := k / q80Values
  let blocksPerThread := nBlocks / nThreads
  let sk := blocksPerThread * q80Values
  let currentThreadBlocks :=
    blocksPerThread + if threadIndex = nThreads - 1 then nBlocks % nThreads else 0
  storeRow row (sk * threadIndex)
    (sk * threadIndex + min (currentThreadBlocks * q80Values) intRange) fun p =>
    dequantizeBlock (fun b => input (p / q80Values * q80Bytes + b)) (p % q80Values)

/-- `copy_UNK` from another buffer. -/
def copyInput (input : ℕ → UInt8) (row size nThreads threadIndex : ℕ) : Dataflow.Action (ℕ × ℕ) UInt8 :=
  let range := copyRange size nThreads threadIndex
  storeRow row range.1 range.2 input

/-- `copy_UNK` within a buffer. -/
def copyOutput (row source size nThreads threadIndex : ℕ) : Dataflow.Action (ℕ × ℕ) UInt8 :=
  let range := copyRange size nThreads threadIndex
  copyRow row source range.1 range.2

/-- Shape of the rows of an operation. -/
structure RowShape where
  /-- Layers. -/
  z : ℕ
  /-- There is one. -/
  z_pos : 0 < z
  /-- Rows of a layer. -/
  y : ℕ
  /-- Values of a row. -/
  x : ℕ
  /-- They are a word. -/
  x_lt : x < uintRange
  /-- Whole blocks. -/
  x_blocks : x % q80Values = 0
  /-- Rows in use. -/
  batchSize : ℕ
  /-- There is one. -/
  batchSize_pos : 0 < batchSize
  /-- The layer has them. -/
  batchSize_le : batchSize ≤ y

/-- A call per row in use, layer by layer. -/
def RowShape.calls {A : Type*} (s : RowShape) (call : ℕ → ℕ → A) : List A :=
  (List.range s.z).flatMap fun z => (List.range s.batchSize).map fun y => call z y

/-- The places of the rows in use. -/
def RowShape.rows (s : RowShape) (size : ℕ) : Set (ℕ × ℕ) :=
  {l | ∃ z < s.z, ∃ y < s.batchSize, l.1 = z * s.y + y ∧ l.2 < size}

/-- Cast of floats to quantised blocks. -/
def castForwardF32Q80 (s : RowShape) (input : ℕ → ℕ → F) (nThreads threadIndex : ℕ) :
    List (Dataflow.Action (ℕ × ℕ) UInt8) :=
  s.calls fun z y =>
    quantizeF32toQ80 quantizeBlock (input (z * s.y + y)) (z * s.y + y) s.x nThreads threadIndex

/-- Cast of quantised blocks to floats. -/
def castForwardQ80F32 (s : RowShape) (input : ℕ → ℕ → UInt8) (nThreads threadIndex : ℕ) :
    List (Dataflow.Action (ℕ × ℕ) F) :=
  s.calls fun z y =>
    dequantizeQ80toF32 dequantizeBlock (input (z * s.y + y)) (z * s.y + y) s.x nThreads threadIndex

/-- Quantise the rows into the first layer and copy them to the others. -/
def repeatZForwardF32Q80 (s : RowShape) (input : ℕ → ℕ → F) (nThreads threadIndex : ℕ) :
    List (Dataflow.Action (ℕ × ℕ) UInt8) :=
  s.calls fun z y =>
    if z = 0 then quantizeF32toQ80 quantizeBlock (input y) (z * s.y + y) s.x nThreads threadIndex
    else copyOutput (z * s.y + y) y (s.x / q80Values * q80Bytes) nThreads threadIndex

/-- A shift of rows of floats to the positions of a batch. -/
structure ShiftConfig where
  /-- Floats of a row. -/
  x : ℕ
  /-- Rows in use. -/
  batchSize : ℕ
  /-- Position of each row. -/
  indexes : ℕ → ℕ
  /-- First position of this rank. -/
  localSeqStart : ℕ
  /-- Positions of this rank, zero for all. -/
  localSeqLen : ℕ

/-- Whether the row of a batch is stored on this rank. -/
def ShiftConfig.keeps (c : ShiftConfig) (batchIndex : ℕ) : Prop :=
  c.localSeqLen = 0 ∨ (c.localSeqStart ≤ c.indexes batchIndex ∧
    c.indexes batchIndex < (c.localSeqStart + c.localSeqLen) % uintRange)

instance (c : ShiftConfig) (batchIndex : ℕ) : Decidable (c.keeps batchIndex) :=
  inferInstanceAs (Decidable (_ ∨ _))

/-- Bytes of a row. -/
def ShiftConfig.dimBytes (c : ShiftConfig) : ℕ := 4 * c.x

/-- Copy the rows that this rank keeps to their positions. -/
def shiftForwardF32F32 (c : ShiftConfig) (input : ℕ → ℕ → UInt8) (nThreads threadIndex : ℕ) :
    List (Dataflow.Action (ℕ × ℕ) UInt8) :=
  ((List.range c.batchSize).filter fun b => c.keeps b).map fun b =>
    copyInput (input b) (c.indexes b) c.dimBytes nThreads threadIndex

/-- The places of the rows that this rank keeps. -/
def ShiftConfig.rows (c : ShiftConfig) : Set (ℕ × ℕ) :=
  {l | ∃ b < c.batchSize, c.keeps b ∧ l.1 = c.indexes b ∧ l.2 < c.dimBytes}

end Kernels

section Ranges

variable {rangeLen nThreads t : ℕ}

theorem shardStart_le (hpos : 0 < nThreads) (ht : t ≤ nThreads) :
    shardStart rangeLen nThreads t ≤ rangeLen := by
  have hend : shardStart rangeLen nThreads nThreads = rangeLen := by
    have hmod := Nat.mod_lt rangeLen hpos
    unfold shardStart
    rw [Nat.min_eq_right (Nat.le_of_lt hmod)]
    exact Nat.div_add_mod rangeLen nThreads
  have hmono := shardStart_mono rangeLen nThreads ht
  omega

/-- In a range that words can count, words divide it as numbers do. -/
theorem splitThreadsUint_eq (hlen : rangeLen < uintRange) (ht : t < nThreads) :
    splitThreadsUint rangeLen nThreads t =
      (shardStart rangeLen nThreads t, shardStart rangeLen nThreads (t + 1)) := by
  have hpos : 0 < nThreads := Nat.zero_lt_of_lt ht
  have hstart : shardStart rangeLen nThreads t ≤ rangeLen := shardStart_le hpos (Nat.le_of_lt ht)
  have hstop : shardStart rangeLen nThreads (t + 1) ≤ rangeLen := shardStart_le hpos ht
  have hslice : rangeLen / nThreads % uintRange = rangeLen / nThreads :=
    Nat.mod_eq_of_lt (Nat.lt_of_le_of_lt (Nat.div_le_self _ _) hlen)
  have hrest : rangeLen % nThreads % uintRange = rangeLen % nThreads :=
    Nat.mod_eq_of_lt (Nat.lt_of_le_of_lt (Nat.mod_le _ _) hlen)
  have hsplit := splitThreads_eq rangeLen nThreads t
  unfold splitThreads at hsplit
  injection hsplit with hfirst hsecond
  unfold splitThreadsUint
  dsimp only
  rw [hslice, hrest, hfirst, Nat.mod_eq_of_lt (Nat.lt_of_le_of_lt hstart hlen)]
  rw [hfirst] at hsecond
  rw [hsecond, Nat.mod_eq_of_lt (Nat.lt_of_le_of_lt hstop hlen)]

theorem copyRange_eq (hlen : rangeLen < uintRange) (ht : t < nThreads) :
    copyRange rangeLen nThreads t =
      (shardStart rangeLen nThreads t, shardStart rangeLen nThreads (t + 1)) := by
  have hmono : shardStart rangeLen nThreads t ≤ shardStart rangeLen nThreads (t + 1) :=
    shardStart_mono rangeLen nThreads (Nat.le_succ t)
  have hstop : shardStart rangeLen nThreads (t + 1) ≤ rangeLen :=
    shardStart_le (Nat.zero_lt_of_lt ht) ht
  unfold copyRange
  rw [splitThreadsUint_eq hlen ht]
  dsimp only
  have hlength : (shardStart rangeLen nThreads (t + 1) + uintRange - shardStart rangeLen nThreads t) %
      uintRange = shardStart rangeLen nThreads (t + 1) - shardStart rangeLen nThreads t := by
    have hsum : shardStart rangeLen nThreads (t + 1) + uintRange - shardStart rangeLen nThreads t =
        shardStart rangeLen nThreads (t + 1) - shardStart rangeLen nThreads t + uintRange := by omega
    rw [hsum, Nat.add_mod_right]
    exact Nat.mod_eq_of_lt (by omega)
  rw [hlength, Nat.add_sub_cancel' hmono]

/-- A single thread copies as many bytes as a word can tell. -/
theorem copyRange_single (size : ℕ) : copyRange size 1 0 = (0, size % uintRange) := by
  unfold copyRange splitThreadsUint
  simp only [Nat.div_one, Nat.mod_one, Nat.zero_mod, Nat.zero_mul, Nat.lt_irrefl, if_false,
    Nat.add_zero, Nat.zero_add, Nat.mod_mod, Nat.sub_zero, Nat.add_mod_right]

theorem shardStart_one (rangeLen : ℕ) : shardStart rangeLen 1 0 = 0 ∧ shardStart rangeLen 1 1 = rangeLen := by
  constructor
  · simp [shardStart]
  · simp [shardStart, Nat.mod_one]

end Ranges

section Bands

variable {V : Type*} {nThreads : ℕ}

/-- The places from one on and before another, in all rows. -/
def band (start stop : ℕ) : Set (ℕ × ℕ) := {l | start ≤ l.2 ∧ l.2 < stop}

theorem storeRow_inside {row start stop : ℕ} {value : ℕ → V} (m : ℕ × ℕ → V) {l : ℕ × ℕ}
    (h : l.1 = row ∧ start ≤ l.2 ∧ l.2 < stop) : (storeRow row start stop value).apply m l = value l.2 :=
  Dataflow.Action.apply_of_mem (storeRow row start stop value) m h

theorem storeRow_outside {row start stop : ℕ} {value : ℕ → V} (m : ℕ × ℕ → V) {l : ℕ × ℕ}
    (h : l.1 ≠ row) : (storeRow row start stop value).apply m l = m l :=
  Dataflow.Action.apply_of_notMem (storeRow row start stop value) m fun hl => h hl.1

theorem copyRow_inside [Inhabited V] {row source start stop : ℕ} (m : ℕ × ℕ → V) {l : ℕ × ℕ}
    (h : l.1 = row ∧ start ≤ l.2 ∧ l.2 < stop) :
    (copyRow row source start stop).apply m l = m (source, l.2) :=
  (Dataflow.Action.apply_of_mem (copyRow row source start stop) m h).trans (dif_pos h.2)

theorem copyRow_outside [Inhabited V] {row source start stop : ℕ} (m : ℕ × ℕ → V) {l : ℕ × ℕ}
    (h : l.1 ≠ row) : (copyRow row source start stop).apply m l = m l :=
  Dataflow.Action.apply_of_notMem (copyRow row source start stop) m fun hl => h hl.1

/-- A store in a band is the part there of the store in the whole row. -/
theorem part_storeRow (row : ℕ) {start stop size : ℕ} (hstop : stop ≤ size) (value : ℕ → V) :
    ParallelSteps.Part (band start stop) (storeRow row start stop value) (storeRow row 0 size value) := by
  refine ⟨Set.empty_subset _, ?_, ?_⟩
  · ext l
    constructor
    · intro h
      obtain ⟨hrow, hband⟩ := h
      exact ⟨⟨hrow, Nat.zero_le _, Nat.lt_of_lt_of_le hband.2 hstop⟩, hband⟩
    · intro h
      exact ⟨h.1.1, h.2⟩
  · intro m m' hm l hl
    by_cases hrow : l.1 = row
    · rw [storeRow_inside m ⟨hrow, hl⟩,
        storeRow_inside m' ⟨hrow, Nat.zero_le _, Nat.lt_of_lt_of_le hl.2 hstop⟩]
    · rw [storeRow_outside m hrow, storeRow_outside m' hrow]
      exact hm hl

/-- A copy in a band is the part there of the copy of the whole row. -/
theorem part_copyRow [Inhabited V] (row source : ℕ) {start stop size : ℕ} (hstop : stop ≤ size) :
    ParallelSteps.Part (band start stop) (copyRow row source start stop : Dataflow.Action (ℕ × ℕ) V)
      (copyRow row source 0 size) := by
  refine ⟨fun l hl => hl.2, ?_, ?_⟩
  · ext l
    constructor
    · intro h
      obtain ⟨hrow, hband⟩ := h
      exact ⟨⟨hrow, Nat.zero_le _, Nat.lt_of_lt_of_le hband.2 hstop⟩, hband⟩
    · intro h
      exact ⟨h.1.1, h.2⟩
  · intro m m' hm l hl
    have hwhole : 0 ≤ l.2 ∧ l.2 < size := ⟨Nat.zero_le _, Nat.lt_of_lt_of_le hl.2 hstop⟩
    have hsource : m (source, l.2) = m' (source, l.2) := hm hl
    by_cases hrow : l.1 = row
    · rw [copyRow_inside m ⟨hrow, hl⟩, copyRow_inside m' ⟨hrow, hwhole⟩, hsource]
    · rw [copyRow_outside m hrow, copyRow_outside m' hrow]
      exact hm hl

/-- Bands between the members of a chain of bounds divide a row. -/
theorem division_of_bounds {kernels : ℕ → List (Dataflow.Action (ℕ × ℕ) V)}
    {wholes : List (Dataflow.Action (ℕ × ℕ) V)}
    (bound : ℕ → ℕ) (hmono : ∀ t, t < nThreads → bound t ≤ bound (t + 1)) (hzero : bound 0 = 0)
    (hparts : ∀ t < nThreads,
      List.Forall₂ (ParallelSteps.Part (band (bound t) (bound (t + 1)))) (kernels t) wholes)
    (hplaces : ∀ l ∈ written (accesses wholes), l.2 < bound nThreads) :
    Division kernels nThreads wholes fun t => band (bound t) (bound (t + 1)) := by
  have hchain : ∀ u ≤ nThreads, ∀ t ≤ u, bound t ≤ bound u := by
    intro u hu t ht
    induction u with
    | zero =>
      have heq : t = 0 := Nat.le_zero.mp ht
      rw [heq]
    | succ u ih =>
      rcases Nat.lt_or_eq_of_le ht with hlt | heq
      · exact (ih (by omega) (by omega)).trans (hmono u (by omega))
      · rw [heq]
  refine ⟨hparts, ?_, ?_⟩
  · intro t ht u hu hne
    refine Set.disjoint_left.mpr fun l hl hl' => ?_
    rcases Nat.lt_or_gt_of_ne hne with hlt | hgt
    · have hbetween := hchain u (by omega) (t + 1) hlt
      have hupper := hl.2
      have hlower := hl'.1
      omega
    · have hbetween := hchain t (by omega) (u + 1) hgt
      have hupper := hl'.2
      have hlower := hl.1
      omega
  · intro l hl
    have hall : ∀ n ≤ nThreads, l.2 < bound n → ∃ t < n, l ∈ band (bound t) (bound (t + 1)) := by
      intro n hn
      induction n with
      | zero =>
        intro hplace
        rw [hzero] at hplace
        exact absurd hplace (Nat.not_lt_zero _)
      | succ n ih =>
        intro hplace
        rcases Nat.lt_or_ge l.2 (bound n) with hbefore | hhere
        · obtain ⟨t, ht, hband⟩ := ih (by omega) hbefore
          exact ⟨t, Nat.lt_succ_of_lt ht, hband⟩
        · exact ⟨n, Nat.lt_succ_self n, hhere, hplace⟩
    exact hall nThreads (Nat.le_refl _) (hplaces l hl)

theorem forall₂_map_map {α A B : Type*} {r : A → B → Prop} {f : α → A} {g : α → B} {xs : List α}
    (h : ∀ x ∈ xs, r (f x) (g x)) : List.Forall₂ r (xs.map f) (xs.map g) := by
  rw [List.forall₂_map_left_iff, List.forall₂_map_right_iff]
  exact List.forall₂_same.mpr h

/-- Calls whose members are parts of each other. -/
theorem forall₂_calls (s : RowShape) {region : Set (ℕ × ℕ)}
    {part whole : ℕ → ℕ → Dataflow.Action (ℕ × ℕ) V}
    (h : ∀ z < s.z, ∀ y, ParallelSteps.Part region (part z y) (whole z y)) :
    List.Forall₂ (ParallelSteps.Part region) (s.calls part) (s.calls whole) := by
  have hlayers (zs : List ℕ) (hzs : ∀ z ∈ zs, z < s.z) :
      List.Forall₂ (ParallelSteps.Part region)
        (zs.flatMap fun z => (List.range s.batchSize).map fun y => part z y)
        (zs.flatMap fun z => (List.range s.batchSize).map fun y => whole z y) := by
    induction zs with
    | nil => exact .nil
    | cons z zs ih =>
      rw [List.flatMap_cons, List.flatMap_cons]
      refine List.rel_append (forall₂_map_map fun y _ => ?_) ?_
      · exact h z (hzs z List.mem_cons_self) y
      · exact ih fun z' hz' => hzs z' (List.mem_cons_of_mem z hz')
  exact hlayers (List.range s.z) fun z hz => List.mem_range.mp hz

/-- What calls write. -/
theorem mem_written_calls (s : RowShape) {call : ℕ → ℕ → Dataflow.Action (ℕ × ℕ) V} {l : ℕ × ℕ} :
    l ∈ written (accesses (s.calls call)) ↔ ∃ z < s.z, ∃ y < s.batchSize, l ∈ (call z y).writes := by
  constructor
  · intro h
    obtain ⟨a, ha, hl⟩ := h
    obtain ⟨action, haction, heq⟩ := List.mem_map.mp ha
    obtain ⟨z, hz, hrow⟩ := List.mem_flatMap.mp haction
    obtain ⟨y, hy, hcall⟩ := List.mem_map.mp hrow
    rw [← heq, ← hcall] at hl
    exact ⟨z, List.mem_range.mp hz, y, List.mem_range.mp hy, hl⟩
  · intro h
    obtain ⟨z, hz, y, hy, hl⟩ := h
    refine ⟨(call z y).toAccess, List.mem_map.mpr ⟨call z y, ?_, Eq.refl _⟩, hl⟩
    exact List.mem_flatMap.mpr ⟨z, List.mem_range.mpr hz,
      List.mem_map.mpr ⟨y, List.mem_range.mpr hy, Eq.refl _⟩⟩

end Bands

section Independence

variable {V : Type*} {nThreads : ℕ}

/-- Calls on rows whose parts lie between bounds are independent of the threads. -/
theorem independent_calls (s : RowShape) (call : ℕ → ℕ → ℕ → ℕ → Dataflow.Action (ℕ × ℕ) V)
    {size : ℕ}
    (bound : ℕ → ℕ) (hmono : ∀ t, t < nThreads → bound t ≤ bound (t + 1)) (hzero : bound 0 = 0)
    (hend : bound nThreads = size)
    (hparts : ∀ t < nThreads, ∀ z < s.z, ∀ y,
      ParallelSteps.Part (band (bound t) (bound (t + 1))) (call nThreads t z y) (call 1 0 z y))
    (hwrites : ∀ z < s.z, ∀ y, (call 1 0 z y).writes = {l | l.1 = z * s.y + y ∧ l.2 < size}) :
    ThreadIndependent (fun nThreads t => s.calls (call nThreads t)) nThreads (s.rows size) := by
  have hmem (l : ℕ × ℕ) : l ∈ written (accesses (s.calls (call 1 0))) ↔ l ∈ s.rows size := by
    rw [mem_written_calls]
    constructor
    · intro h
      obtain ⟨z, hz, y, hy, hl⟩ := h
      rw [hwrites z hz y] at hl
      exact ⟨z, hz, y, hy, hl⟩
    · intro h
      obtain ⟨z, hz, y, hy, hl⟩ := h
      refine ⟨z, hz, y, hy, ?_⟩
      rw [hwrites z hz y]
      exact hl
  refine ThreadIndependent.of_division (division_of_bounds bound hmono hzero ?_ ?_) ?_
  · intro t ht
    exact forall₂_calls s (hparts t ht)
  · intro l hl
    obtain ⟨z, _, y, _, _, hplace⟩ := (hmem l).mp hl
    rw [hend]
    exact hplace
  · intro l hl
    exact (hmem l).mpr hl

theorem quantizeF32toQ80_eq {F : Type*} (quantizeBlock : (ℕ → F) → ℕ → UInt8) (input : ℕ → F)
    (row : ℕ) {n t : ℕ} (hn : n < uintRange) (ht : t < nThreads) :
    quantizeF32toQ80 quantizeBlock input row n nThreads t =
      storeRow row (shardStart (n / q80Values) nThreads t * q80Bytes)
        (shardStart (n / q80Values) nThreads (t + 1) * q80Bytes)
        fun p => quantizeBlock (fun j => input (p / q80Bytes * q80Values + j)) (p % q80Bytes) := by
  have hblocks : n / q80Values < uintRange := Nat.lt_of_le_of_lt (Nat.div_le_self _ _) hn
  unfold quantizeF32toQ80
  rw [splitThreadsUint_eq hblocks ht]

/-- A single thread quantises the row. -/
theorem quantizeF32toQ80_single {F : Type*} (quantizeBlock : (ℕ → F) → ℕ → UInt8) (input : ℕ → F)
    (row : ℕ) {n : ℕ} (hn : n < uintRange) :
    quantizeF32toQ80 quantizeBlock input row n 1 0 =
      storeRow row 0 (n / q80Values * q80Bytes)
        fun p => quantizeBlock (fun j => input (p / q80Bytes * q80Values + j)) (p % q80Bytes) := by
  rw [quantizeF32toQ80_eq quantizeBlock input row hn Nat.zero_lt_one, (shardStart_one _).1,
    (shardStart_one _).2, Nat.zero_mul]

theorem shardStart_end (rangeLen : ℕ) (hpos : 0 < nThreads) :
    shardStart rangeLen nThreads nThreads = rangeLen := by
  have hmod := Nat.mod_lt rangeLen hpos
  unfold shardStart
  rw [Nat.min_eq_right (Nat.le_of_lt hmod)]
  exact Nat.div_add_mod rangeLen nThreads

theorem shardStart_zero (rangeLen : ℕ) : shardStart rangeLen nThreads 0 = 0 := by
  simp [shardStart]

/-- The part of a thread in the quantising of a row. -/
theorem part_quantize {F : Type*} (quantizeBlock : (ℕ → F) → ℕ → UInt8) (input : ℕ → F)
    (row : ℕ) {n t : ℕ} (hn : n < uintRange) (ht : t < nThreads) :
    ParallelSteps.Part (band (shardStart (n / q80Values) nThreads t * q80Bytes)
        (shardStart (n / q80Values) nThreads (t + 1) * q80Bytes))
      (quantizeF32toQ80 quantizeBlock input row n nThreads t)
      (quantizeF32toQ80 quantizeBlock input row n 1 0) := by
  rw [quantizeF32toQ80_eq quantizeBlock input row hn ht,
    quantizeF32toQ80_single quantizeBlock input row hn]
  have hstop : shardStart (n / q80Values) nThreads (t + 1) ≤ n / q80Values :=
    shardStart_le (Nat.zero_lt_of_lt ht) ht
  exact part_storeRow row (Nat.mul_le_mul_right q80Bytes hstop) _

/-- Casting floats to blocks divides the rows by blocks. -/
theorem castForwardF32Q80_independent {F : Type*} (quantizeBlock : (ℕ → F) → ℕ → UInt8)
    (s : RowShape) (input : ℕ → ℕ → F) (hpos : 0 < nThreads) :
    ThreadIndependent (castForwardF32Q80 quantizeBlock s input) nThreads
      (s.rows (s.x / q80Values * q80Bytes)) := by
  refine independent_calls s _ (fun t => shardStart (s.x / q80Values) nThreads t * q80Bytes)
    ?_ ?_ ?_ ?_ ?_
  · intro t _
    exact Nat.mul_le_mul_right q80Bytes (shardStart_mono _ _ (Nat.le_succ t))
  · rw [shardStart_zero, Nat.zero_mul]
  · rw [shardStart_end _ hpos]
  · intro t ht z _ y
    exact part_quantize quantizeBlock _ _ s.x_lt ht
  · intro z _ y
    rw [quantizeF32toQ80_single quantizeBlock _ _ s.x_lt]
    ext l
    exact ⟨fun h => ⟨h.1, h.2.2⟩, fun h => ⟨h.1, Nat.zero_le _, h.2⟩⟩

/-- First place of a thread, or the end of the row. -/
def dequantizeBound (k nThreads t : ℕ) : ℕ :=
  if t < nThreads then k / q80Values / nThreads * q80Values * t else k

theorem whole_blocks {k : ℕ} (hk : k % q80Values = 0) : k / q80Values * q80Values = k :=
  Nat.div_mul_cancel (Nat.dvd_of_mod_eq_zero hk)

/-- In a row that an index reaches, threads dequantise from bound to bound. -/
theorem dequantizeQ80toF32_eq {F : Type*} (dequantizeBlock : (ℕ → UInt8) → ℕ → F)
    (input : ℕ → UInt8) (row : ℕ) {k t : ℕ} (hk : k ≤ intRange) (hblocks : k % q80Values = 0)
    (ht : t < nThreads) :
    dequantizeQ80toF32 dequantizeBlock input row k nThreads t =
      storeRow row (dequantizeBound k nThreads t) (dequantizeBound k nThreads (t + 1))
        fun p => dequantizeBlock (fun b => input (p / q80Values * q80Bytes + b)) (p % q80Values) := by
  have hfull : k / q80Values * q80Values = k := whole_blocks hblocks
  have hdivision : nThreads * (k / q80Values / nThreads) + k / q80Values % nThreads = k / q80Values :=
    Nat.div_add_mod _ _
  have hstart : dequantizeBound k nThreads t = k / q80Values / nThreads * q80Values * t := if_pos ht
  have hstop : k / q80Values / nThreads * q80Values * t +
      min ((k / q80Values / nThreads +
        if t = nThreads - 1 then k / q80Values % nThreads else 0) * q80Values) intRange =
      dequantizeBound k nThreads (t + 1) := by
    unfold dequantizeBound
    by_cases hlast : t = nThreads - 1
    · have hcount : nThreads = t + 1 := by omega
      rw [if_pos hlast, if_neg (by omega), Nat.min_eq_left]
      · rw [Nat.mul_right_comm, ← Nat.add_mul, ← Nat.add_assoc]
        rw [hcount, Nat.add_mul, Nat.one_mul, Nat.mul_comm t] at hdivision
        rw [hcount, hdivision, hfull]
      · refine Nat.le_trans ?_ hk
        refine Nat.le_trans (Nat.mul_le_mul_right q80Values ?_) (Nat.le_of_eq hfull)
        refine Nat.le_trans ?_ (Nat.le_of_eq hdivision)
        exact Nat.add_le_add_right (Nat.le_mul_of_pos_left _ (Nat.zero_lt_of_lt ht)) _
    · rw [if_neg hlast, if_pos (by omega), Nat.add_zero, Nat.min_eq_left]
      · rw [Nat.mul_succ]
      · refine Nat.le_trans ?_ hk
        refine Nat.le_trans ?_ (Nat.le_of_eq hfull)
        exact Nat.mul_le_mul_right q80Values (Nat.div_le_self _ _)
  unfold dequantizeQ80toF32
  dsimp only
  rw [hstop, hstart]

theorem dequantizeBound_mono {k t : ℕ} (hblocks : k % q80Values = 0) (ht : t < nThreads) :
    dequantizeBound k nThreads t ≤ dequantizeBound k nThreads (t + 1) := by
  unfold dequantizeBound
  rw [if_pos ht]
  by_cases hlast : t + 1 < nThreads
  · rw [if_pos hlast]
    exact Nat.mul_le_mul_left _ (Nat.le_succ t)
  · rw [if_neg hlast]
    have hfull : k / q80Values * q80Values = k := whole_blocks hblocks
    refine Nat.le_trans ?_ (Nat.le_of_eq hfull)
    rw [Nat.mul_right_comm]
    refine Nat.mul_le_mul_right q80Values ?_
    refine Nat.le_trans (Nat.mul_le_mul_left _ (Nat.le_of_lt ht)) ?_
    exact Nat.div_mul_le_self _ _

theorem dequantizeBound_zero {k : ℕ} (hpos : 0 < nThreads) : dequantizeBound k nThreads 0 = 0 := by
  unfold dequantizeBound
  rw [if_pos hpos, Nat.mul_zero]

theorem dequantizeBound_end {k : ℕ} : dequantizeBound k nThreads nThreads = k := by
  unfold dequantizeBound
  exact if_neg (Nat.lt_irrefl _)

/-- A single thread dequantises what an index reaches. -/
theorem dequantizeQ80toF32_single {F : Type*} (dequantizeBlock : (ℕ → UInt8) → ℕ → F)
    (input : ℕ → UInt8) (row : ℕ) {k : ℕ} (hblocks : k % q80Values = 0) :
    dequantizeQ80toF32 dequantizeBlock input row k 1 0 =
      storeRow row 0 (min k intRange)
        fun p => dequantizeBlock (fun b => input (p / q80Values * q80Bytes + b)) (p % q80Values) := by
  unfold dequantizeQ80toF32
  simp only [Nat.div_one, Nat.mod_one, Nat.mul_zero, Nat.zero_add, ite_self, Nat.add_zero,
    whole_blocks hblocks]

/-- Casting blocks to floats is independent of the threads as long as an `int` reaches the last
value of a row. -/
theorem castForwardQ80F32_independent_iff {F : Type*} (dequantizeBlock : (ℕ → UInt8) → ℕ → F)
    (s : RowShape) (input : ℕ → ℕ → UInt8) (hpos : 0 < nThreads) :
    ThreadIndependent (castForwardQ80F32 dequantizeBlock s input) nThreads (s.rows s.x) ↔
      s.x ≤ intRange := by
  constructor
  · intro h
    by_contra hlong
    have hplace : ((0, intRange) : ℕ × ℕ) ∈ s.rows s.x :=
      ⟨0, s.z_pos, 0, s.batchSize_pos, by rw [Nat.zero_mul], Nat.lt_of_not_le hlong⟩
    obtain ⟨z, _, y, _, hwritten⟩ := (mem_written_calls s).mp (h.complete.2 hplace)
    rw [dequantizeQ80toF32_single dequantizeBlock _ _ s.x_blocks] at hwritten
    exact absurd hwritten.2.2 (Nat.not_lt.mpr (Nat.min_le_right _ _))
  · intro hx
    refine independent_calls s _ (dequantizeBound s.x nThreads) ?_ ?_ ?_ ?_ ?_
    · intro t ht
      exact dequantizeBound_mono s.x_blocks ht
    · exact dequantizeBound_zero hpos
    · exact dequantizeBound_end
    · intro t ht z _ y
      have hsingle := dequantizeQ80toF32_single dequantizeBlock (input (z * s.y + y)) (z * s.y + y)
        s.x_blocks
      rw [Nat.min_eq_left hx] at hsingle
      rw [hsingle, dequantizeQ80toF32_eq dequantizeBlock _ _ hx s.x_blocks ht]
      refine part_storeRow _ ?_ _
      unfold dequantizeBound
      by_cases hlast : t + 1 < nThreads
      · rw [if_pos hlast]
        refine Nat.le_trans ?_ (Nat.le_of_eq (whole_blocks s.x_blocks))
        rw [Nat.mul_right_comm]
        refine Nat.mul_le_mul_right q80Values ?_
        exact (Nat.mul_le_mul_left _ (Nat.le_of_lt hlast)).trans (Nat.div_mul_le_self _ _)
      · rw [if_neg hlast]
    · intro z _ y
      rw [dequantizeQ80toF32_single dequantizeBlock _ _ s.x_blocks, Nat.min_eq_left hx]
      ext l
      exact ⟨fun h => ⟨h.1, h.2.2⟩, fun h => ⟨h.1, Nat.zero_le _, h.2⟩⟩

/-- Bytes of blocks that threads share evenly are shared at the same bounds. -/
theorem shardStart_bytes {nBlocks : ℕ} (hdvd : nThreads ∣ nBlocks) (hpos : 0 < nThreads) (t : ℕ) :
    shardStart (nBlocks * q80Bytes) nThreads t = shardStart nBlocks nThreads t * q80Bytes := by
  obtain ⟨share, hshare⟩ := hdvd
  have hbytes : nBlocks * q80Bytes = nThreads * (share * q80Bytes) := by
    rw [hshare, Nat.mul_assoc]
  unfold shardStart
  rw [hbytes, hshare, Nat.mul_div_cancel_left _ hpos, Nat.mul_div_cancel_left _ hpos,
    Nat.mul_mod_right, Nat.mul_mod_right, Nat.min_zero, Nat.add_zero, Nat.add_zero, Nat.mul_assoc]

/-- Where threads cannot share the blocks evenly, a thread has a byte of another one's block. -/
theorem exists_foreign_byte {nBlocks : ℕ} (hpos : 0 < nThreads) (h : ¬nThreads ∣ nBlocks) :
    ∃ t < nThreads, ∃ p < nBlocks * q80Bytes, InShard (nBlocks * q80Bytes) nThreads t p ∧
      ¬InShard nBlocks nThreads t (p / q80Bytes) := by
  have hrest : 0 < nBlocks % nThreads := Nat.pos_of_ne_zero fun hz => h (Nat.dvd_of_mod_eq_zero hz)
  have hrest_lt : nBlocks % nThreads < nThreads := Nat.mod_lt _ hpos
  have hblocks := Nat.div_add_mod nBlocks nThreads
  have hbytes := Nat.div_add_mod (nBlocks * q80Bytes) nThreads
  have hbyteRest : nBlocks * q80Bytes % nThreads < nThreads := Nat.mod_lt _ hpos
  have hfirst : shardStart nBlocks nThreads 1 = nBlocks / nThreads + 1 := by
    unfold shardStart
    rw [Nat.one_mul, Nat.min_eq_left hrest]
  have hfirstByte : shardStart (nBlocks * q80Bytes) nThreads 1 ≤
      nBlocks * q80Bytes / nThreads + 1 := by
    unfold shardStart
    rw [Nat.one_mul]
    exact Nat.add_le_add_left (Nat.min_le_left _ _) _
  have hlast (len : ℕ) : shardStart len nThreads (nThreads - 1) + len / nThreads = len := by
    have hmod : len % nThreads ≤ nThreads - 1 := Nat.le_sub_one_of_lt (Nat.mod_lt _ hpos)
    have hall : (nThreads - 1) * (len / nThreads) + len / nThreads = nThreads * (len / nThreads) := by
      rw [← Nat.succ_mul, Nat.succ_eq_add_one, Nat.sub_add_cancel hpos]
    have hsum := Nat.div_add_mod len nThreads
    unfold shardStart
    rw [Nat.min_eq_right hmod]
    omega
  have hend (len : ℕ) : shardStart len nThreads (nThreads - 1 + 1) = len := by
    rw [Nat.sub_add_cancel hpos]
    exact shardStart_end len hpos
  have hshare : nBlocks / nThreads < nBlocks :=
    Nat.div_lt_self (by omega) (by omega)
  have hsize : q80Bytes = 34 := Eq.refl _
  rw [hsize] at hbytes hfirstByte hbyteRest ⊢
  rcases Nat.lt_or_ge (nBlocks * 34 / nThreads) (nBlocks / nThreads * 34 + 33) with hfew | hmany
  · have hin : nBlocks / nThreads * 34 + 33 < nBlocks * 34 := by omega
    obtain ⟨t, ht, hshard⟩ := exists_shard hpos hin
    refine ⟨t, ht, nBlocks / nThreads * 34 + 33, hin, hshard, ?_⟩
    intro hblock
    have hplace : (nBlocks / nThreads * 34 + 33) / 34 = nBlocks / nThreads := by omega
    rw [hplace] at hblock
    have hzero : InShard nBlocks nThreads 0 (nBlocks / nThreads) := by
      constructor
      · rw [shardStart_zero]
        exact Nat.zero_le _
      · rw [Nat.zero_add, hfirst]
        exact Nat.lt_succ_self _
    have hsame : t = 0 := shard_unique hblock hzero
    have hupper := hshard.2
    rw [hsame, Nat.zero_add] at hupper
    omega
  · have hlastByte := hlast (nBlocks * 34)
    have hlastBlock := hlast nBlocks
    refine ⟨nThreads - 1, by omega, nBlocks * 34 - nBlocks / nThreads * 34 - 1, by omega, ⟨?_, ?_⟩, ?_⟩
    · omega
    · rw [hend]
      omega
    · intro hblock
      have hlower := hblock.1
      omega

theorem copyOutput_eq (row source : ℕ) {size t : ℕ} (hsize : size < uintRange) (ht : t < nThreads) :
    copyOutput row source size nThreads t =
      copyRow row source (shardStart size nThreads t) (shardStart size nThreads (t + 1)) := by
  unfold copyOutput
  rw [copyRange_eq hsize ht]

theorem copyOutput_single (row source size : ℕ) :
    copyOutput row source size 1 0 = copyRow row source 0 (size % uintRange) := by
  unfold copyOutput
  rw [copyRange_single]

section RepeatZ

variable {F : Type*} (quantizeBlock : (ℕ → F) → ℕ → UInt8) (s : RowShape) (input : ℕ → ℕ → F)

/-- The call for a row of a layer. -/
def repeatZCall (nThreads threadIndex z y : ℕ) : Dataflow.Action (ℕ × ℕ) UInt8 :=
  if z = 0 then quantizeF32toQ80 quantizeBlock (input y) (z * s.y + y) s.x nThreads threadIndex
  else copyOutput (z * s.y + y) y (s.x / q80Values * q80Bytes) nThreads threadIndex

theorem mem_repeatZ {nThreads threadIndex z y : ℕ} (hz : z < s.z) (hy : y < s.batchSize) :
    repeatZCall quantizeBlock s input nThreads threadIndex z y ∈
      repeatZForwardF32Q80 quantizeBlock s input nThreads threadIndex :=
  List.mem_flatMap.mpr ⟨z, List.mem_range.mpr hz,
    List.mem_map.mpr ⟨y, List.mem_range.mpr hy, Eq.refl _⟩⟩

/-- Repetition that is independent of the threads has the threads share the blocks evenly. -/
theorem dvd_of_repeatZ_independent (hpos : 0 < nThreads) (hz : 1 < s.z)
    (hsize : s.x / q80Values * q80Bytes < uintRange)
    (h : ThreadIndependent (repeatZForwardF32Q80 quantizeBlock s input) nThreads
      (s.rows (s.x / q80Values * q80Bytes))) : nThreads ∣ s.x / q80Values := by
  by_contra hdvd
  obtain ⟨t, ht, p, hp, hbyte, hblock⟩ := exists_foreign_byte hpos hdvd
  have hblocks : p / q80Bytes < s.x / q80Values := Nat.div_lt_of_lt_mul (Nat.mul_comm _ _ ▸ hp)
  obtain ⟨u, hu, howner⟩ := exists_shard hpos hblocks
  have hne : t ≠ u := fun heq => hblock (heq ▸ howner)
  have hreads : ((0, p) : ℕ × ℕ) ∈ readBy (repeatZForwardF32Q80 quantizeBlock s input nThreads t) := by
    refine ⟨_, mem_repeatZ quantizeBlock s input hz s.batchSize_pos, ?_⟩
    unfold repeatZCall
    rw [if_neg Nat.one_ne_zero, copyOutput_eq _ _ hsize ht]
    exact ⟨Eq.refl _, hbyte⟩
  have hwrites : ((0, p) : ℕ × ℕ) ∈
      written (accesses (repeatZForwardF32Q80 quantizeBlock s input nThreads u)) := by
    refine ⟨_, List.mem_map_of_mem (mem_repeatZ quantizeBlock s input s.z_pos s.batchSize_pos), ?_⟩
    unfold repeatZCall
    rw [if_pos (Eq.refl _), quantizeF32toQ80_eq quantizeBlock _ _ s.x_lt hu, Nat.zero_mul]
    have hbytes : 0 < q80Bytes := by decide
    refine ⟨Eq.refl _, ?_, ?_⟩
    · exact (Nat.le_div_iff_mul_le hbytes).mp howner.1
    · exact (Nat.div_lt_iff_lt_mul hbytes).mp howner.2
  exact Set.disjoint_left.mp (h.apart t ht u hu hne) hreads hwrites

/-- Repetition that is written completely has rows whose bytes a word can tell. -/
theorem size_of_repeatZ_independent (hz : 1 < s.z)
    (h : ThreadIndependent (repeatZForwardF32Q80 quantizeBlock s input) nThreads
      (s.rows (s.x / q80Values * q80Bytes))) : s.x / q80Values * q80Bytes < uintRange := by
  by_contra hlong
  have hrange : 0 < uintRange := by decide
  have hmod : s.x / q80Values * q80Bytes % uintRange < uintRange := Nat.mod_lt _ hrange
  have hplace : ((s.y, s.x / q80Values * q80Bytes % uintRange) : ℕ × ℕ) ∈
      s.rows (s.x / q80Values * q80Bytes) :=
    ⟨1, hz, 0, s.batchSize_pos, by rw [Nat.one_mul, Nat.add_zero],
      Nat.lt_of_lt_of_le hmod (Nat.le_of_not_lt hlong)⟩
  obtain ⟨z, _, y, hy, hwritten⟩ := (mem_written_calls s).mp (h.complete.2 hplace)
  have hbatch := s.batchSize_le
  by_cases hfirst : z = 0
  · rw [if_pos hfirst, quantizeF32toQ80_single quantizeBlock _ _ s.x_lt] at hwritten
    have hrow : s.y = z * s.y + y := hwritten.1
    rw [hfirst, Nat.zero_mul] at hrow
    omega
  · rw [if_neg hfirst, copyOutput_single] at hwritten
    exact absurd hwritten.2.2 (Nat.lt_irrefl _)

/-- Repetition is independent of the threads when there is nothing to repeat, and else exactly when
the threads share the blocks evenly and a word can tell the bytes of a row. -/
theorem repeatZForwardF32Q80_independent_iff (hpos : 0 < nThreads) :
    ThreadIndependent (repeatZForwardF32Q80 quantizeBlock s input) nThreads
        (s.rows (s.x / q80Values * q80Bytes)) ↔
      s.z = 1 ∨ (nThreads ∣ s.x / q80Values ∧ s.x / q80Values * q80Bytes < uintRange) := by
  have hone := s.z_pos
  constructor
  · intro h
    by_cases hz : s.z = 1
    · exact .inl hz
    · have hmany : 1 < s.z := by omega
      have hsize := size_of_repeatZ_independent quantizeBlock s input hmany h
      exact .inr ⟨dvd_of_repeatZ_independent quantizeBlock s input hpos hmany hsize h, hsize⟩
  · intro h
    have hcopies (z : ℕ) (hz : z < s.z) (hlater : ¬z = 0) :
        nThreads ∣ s.x / q80Values ∧ s.x / q80Values * q80Bytes < uintRange := by
      cases h with
      | inl hsingle => omega
      | inr heven => exact heven
    refine independent_calls s (repeatZCall quantizeBlock s input)
      (fun t => shardStart (s.x / q80Values) nThreads t * q80Bytes) ?_ ?_ ?_ ?_ ?_
    · intro t _
      exact Nat.mul_le_mul_right q80Bytes (shardStart_mono _ _ (Nat.le_succ t))
    · rw [shardStart_zero, Nat.zero_mul]
    · rw [shardStart_end _ hpos]
    · intro t ht z hz y
      unfold repeatZCall
      by_cases hfirst : z = 0
      · rw [if_pos hfirst, if_pos hfirst]
        exact part_quantize quantizeBlock _ _ s.x_lt ht
      · obtain ⟨hdvd, hsize⟩ := hcopies z hz hfirst
        rw [if_neg hfirst, if_neg hfirst, copyOutput_eq _ _ hsize ht, copyOutput_single,
          Nat.mod_eq_of_lt hsize, shardStart_bytes hdvd hpos, shardStart_bytes hdvd hpos]
        exact part_copyRow _ _ (Nat.mul_le_mul_right q80Bytes (shardStart_le hpos ht))
    · intro z hz y
      unfold repeatZCall
      by_cases hfirst : z = 0
      · rw [if_pos hfirst, quantizeF32toQ80_single quantizeBlock _ _ s.x_lt]
        ext l
        exact ⟨fun h => ⟨h.1, h.2.2⟩, fun h => ⟨h.1, Nat.zero_le _, h.2⟩⟩
      · rw [if_neg hfirst, copyOutput_single, Nat.mod_eq_of_lt (hcopies z hz hfirst).2]
        ext l
        exact ⟨fun h => ⟨h.1, h.2.2⟩, fun h => ⟨h.1, Nat.zero_le _, h.2⟩⟩

end RepeatZ

theorem copyInput_eq (input : ℕ → UInt8) (row : ℕ) {size t : ℕ} (hsize : size < uintRange)
    (ht : t < nThreads) : copyInput input row size nThreads t =
      storeRow row (shardStart size nThreads t) (shardStart size nThreads (t + 1)) input := by
  unfold copyInput
  rw [copyRange_eq hsize ht]

theorem copyInput_single (input : ℕ → UInt8) (row size : ℕ) :
    copyInput input row size 1 0 = storeRow row 0 (size % uintRange) input := by
  unfold copyInput
  rw [copyRange_single]

/-- What a single thread shifts. -/
theorem mem_written_shift (c : ShiftConfig) (input : ℕ → ℕ → UInt8) {l : ℕ × ℕ} :
    l ∈ written (accesses (shiftForwardF32F32 c input 1 0)) ↔
      ∃ b < c.batchSize, c.keeps b ∧ l.1 = c.indexes b ∧ l.2 < c.dimBytes % uintRange := by
  constructor
  · intro h
    obtain ⟨a, ha, hl⟩ := h
    obtain ⟨action, haction, heq⟩ := List.mem_map.mp ha
    obtain ⟨b, hb, hcopy⟩ := List.mem_map.mp haction
    obtain ⟨hbatch, hkeeps⟩ := List.mem_filter.mp hb
    rw [← heq, ← hcopy, copyInput_single] at hl
    exact ⟨b, List.mem_range.mp hbatch, of_decide_eq_true hkeeps, hl.1, hl.2.2⟩
  · intro h
    obtain ⟨b, hb, hkeeps, hrow, hplace⟩ := h
    have hfilter : b ∈ (List.range c.batchSize).filter fun b => c.keeps b :=
      List.mem_filter.mpr ⟨List.mem_range.mpr hb, decide_eq_true hkeeps⟩
    refine ⟨_, List.mem_map_of_mem (List.mem_map_of_mem hfilter), ?_⟩
    rw [copyInput_single]
    exact ⟨hrow, Nat.zero_le _, hplace⟩

/-- The shift is independent of the threads when no row is kept, and else exactly when a word can
tell the bytes of a row. -/
theorem shiftForwardF32F32_independent_iff (c : ShiftConfig) (input : ℕ → ℕ → UInt8)
    (hpos : 0 < nThreads) :
    ThreadIndependent (shiftForwardF32F32 c input) nThreads c.rows ↔
      ((∃ b < c.batchSize, c.keeps b) → c.dimBytes < uintRange) := by
  constructor
  · intro h hkept
    obtain ⟨b, hb, hkeeps⟩ := hkept
    by_contra hlong
    have hrange : 0 < uintRange := by decide
    have hmod : c.dimBytes % uintRange < uintRange := Nat.mod_lt _ hrange
    have hplace : ((c.indexes b, c.dimBytes % uintRange) : ℕ × ℕ) ∈ c.rows :=
      ⟨b, hb, hkeeps, Eq.refl _, Nat.lt_of_lt_of_le hmod (Nat.le_of_not_lt hlong)⟩
    obtain ⟨_, _, _, _, hwritten⟩ := (mem_written_shift c input).mp (h.complete.2 hplace)
    exact absurd hwritten (Nat.lt_irrefl _)
  · intro hsize
    have hsizeOf (b : ℕ) (hb : b ∈ (List.range c.batchSize).filter fun b => c.keeps b) :
        c.dimBytes < uintRange := by
      obtain ⟨hbatch, hkeeps⟩ := List.mem_filter.mp hb
      exact hsize ⟨b, List.mem_range.mp hbatch, of_decide_eq_true hkeeps⟩
    refine ThreadIndependent.of_division
      (division_of_bounds (shardStart c.dimBytes nThreads) ?_ (shardStart_zero _) ?_ ?_) ?_
    · intro t _
      exact shardStart_mono _ _ (Nat.le_succ t)
    · intro t ht
      refine forall₂_map_map fun b hb => ?_
      have hlt := hsizeOf b hb
      rw [copyInput_eq _ _ hlt ht, copyInput_single, Nat.mod_eq_of_lt hlt]
      exact part_storeRow _ (shardStart_le hpos ht) _
    · intro l hl
      obtain ⟨_, _, _, _, hplace⟩ := (mem_written_shift c input).mp hl
      rw [shardStart_end _ hpos]
      exact Nat.lt_of_lt_of_le hplace (Nat.mod_le _ _)
    · intro l hl
      obtain ⟨b, hb, hkeeps, hrow, hplace⟩ := hl
      refine (mem_written_shift c input).mpr ⟨b, hb, hkeeps, hrow, ?_⟩
      rw [Nat.mod_eq_of_lt (hsize ⟨b, hb, hkeeps⟩)]
      exact hplace

/-- Which of the operations that move rows are independent of the threads: quantising always is,
dequantising as long as an `int` reaches the last value of a row, the repetition of blocks
when the threads share them evenly, and the shift as long as a word can tell the bytes of a row. -/
theorem data_moving_independent_iff {F : Type*} (quantizeBlock : (ℕ → F) → ℕ → UInt8)
    (dequantizeBlock : (ℕ → UInt8) → ℕ → F) (s : RowShape) (c : ShiftConfig)
    (values : ℕ → ℕ → F) (bytes : ℕ → ℕ → UInt8) (nThreads : ℕ) (hpos : 0 < nThreads) :
    ThreadIndependent (castForwardF32Q80 quantizeBlock s values) nThreads
        (s.rows (s.x / q80Values * q80Bytes)) ∧
      (ThreadIndependent (castForwardQ80F32 dequantizeBlock s bytes) nThreads (s.rows s.x) ↔
        s.x ≤ intRange) ∧
      (ThreadIndependent (repeatZForwardF32Q80 quantizeBlock s values) nThreads
          (s.rows (s.x / q80Values * q80Bytes)) ↔
        s.z = 1 ∨ (nThreads ∣ s.x / q80Values ∧ s.x / q80Values * q80Bytes < uintRange)) ∧
      (ThreadIndependent (shiftForwardF32F32 c bytes) nThreads c.rows ↔
        ((∃ b < c.batchSize, c.keeps b) → c.dimBytes < uintRange)) :=
  ⟨castForwardF32Q80_independent quantizeBlock s values hpos,
    castForwardQ80F32_independent_iff dequantizeBlock s bytes hpos,
    repeatZForwardF32Q80_independent_iff quantizeBlock s values hpos,
    shiftForwardF32F32_independent_iff c bytes hpos⟩

/-- Rows of three blocks, repeated in two layers. -/
def threeBlocks : RowShape where
  z := 2
  z_pos := Nat.two_pos
  y := 1
  x := 96
  x_lt := by decide
  x_blocks := Eq.refl _
  batchSize := 1
  batchSize_pos := Nat.one_pos
  batchSize_le := by decide

/-- A row of floats stored at position four. -/
def oneShift : ShiftConfig where
  x := 3
  batchSize := 1
  indexes _ := 4
  localSeqStart := 4
  localSeqLen := 2

/-- Two threads. -/
theorem data_moving_independent_two :
    (0 < 2 ∧ threeBlocks.x ≤ intRange ∧ ¬(threeBlocks.z = 1 ∨ (2 ∣ threeBlocks.x / q80Values ∧
        threeBlocks.x / q80Values * q80Bytes < uintRange)) ∧ oneShift.keeps 0) ∧
      ThreadIndependent (castForwardF32Q80 (fun (x : ℕ → UInt8) p => x p) threeBlocks
          fun _ _ => 1) 2 (threeBlocks.rows 102) ∧
      ThreadIndependent (castForwardQ80F32 (fun b p => b p) threeBlocks fun _ _ => 1) 2
          (threeBlocks.rows 96) ∧
      ¬ThreadIndependent (repeatZForwardF32Q80 (fun (x : ℕ → UInt8) p => x p) threeBlocks
          fun _ _ => 1) 2 (threeBlocks.rows 102) ∧
      ThreadIndependent (shiftForwardF32F32 oneShift fun _ _ => 1) 2 oneShift.rows := by
  have hall := data_moving_independent_iff (fun (x : ℕ → UInt8) p => x p)
    (fun b p => b p) threeBlocks oneShift (fun _ _ => 1) (fun _ _ => 1) 2 (by decide)
  refine ⟨by decide, hall.1, hall.2.1.mpr (by decide), fun h => ?_, hall.2.2.2.mpr fun _ => by decide⟩
  have hcondition := hall.2.2.1.mp h
  revert hcondition
  decide

/-- The second thread before the first one copies bytes of the second block that are not there yet. -/
theorem repeatZ_second_thread_first :
    ¬ThreadIndependent (repeatZForwardF32Q80 (fun (x : ℕ → UInt8) p => x p) threeBlocks
      fun _ _ => 1) 2 (threeBlocks.rows (threeBlocks.x / q80Values * q80Bytes)) := by
  intro h
  have hsame := congrFun (h.sameOutput [1, 0] (by decide) fun _ => 0) (1, 51)
  revert hsame
  decide

end Independence

end LayerSkip.DataMoving
