import LayerSkip.CpuKernels
import LayerSkip.LoopInterchange

/-!
# The rows of a batch one at a time

An operation on a batch does row by row what it does on a batch of one row: it computes the row, or
stores it into a cache at its position. Among memories that hold the same positions such a task
reads and writes its own row, and of the caches the positions up to its own and its own position.
-/

namespace LayerSkip.BatchRows

open NnPipeline NnCore NnCpu LlmGraph Dataflow RegionFlow ForwardReads StageExecutor CpuKernels
open LoopInterchange
open DevicePlacement (NnNode)

/-- An operation that computes every row from this row, and reads and writes caches as an attention
and a shift do. -/
structure RowWise (node : NnNode) (op : NnOpConfig) : Prop where
  /-- It is not one of the fused maximum. -/
  plain : op.code ≠ .matmulArgmax ∧ op.code ≠ .argmaxReduce
  /-- Rows are not in caches. -/
  rows : ∀ nThreads, ∀ r ∈ opReads node nThreads op ++ opWrites node nThreads op, ¬IsCache r.source
  /-- Its input has rows. -/
  input : ¬IsCache op.input.source
  /-- Positions stay. -/
  positions : ∀ nThreads, ∀ r ∈ opWrites node nThreads op, r.source ≠ .pipe .pos
  /-- What it reads besides its rows are caches. -/
  reads : ∀ source ∈ cacheReads op, IsCache source
  /-- Only a shift writes to a cache, which it also reads. -/
  writes : ∀ source ∈ cacheWrites op, source ∈ cacheReads op ∧ op.code = .shift
  /-- A shift stores by position, and writes no rows. -/
  shift : op.code = .shift → (∀ nThreads, opWrites node nThreads op = []) ∧
    ∃ localSeqStart localSeqLen, op.config = .shift .pos localSeqStart localSeqLen
  /-- An attention looks at the position, and its heads look at their key heads. -/
  attention : ∀ config, op.code = .multiheadAtt → op.config = .multiheadAtt config →
    config.positionPipe = .pos ∧ op.output.type = .batchedSlice ∧ HeadsFit config
  /-- Products with chosen experts have several planes. -/
  matmul : ∀ nExperts nActiveExperts buffer, op.config = .matmul nExperts nActiveExperts buffer →
    nActiveExperts = 0 ∨ (inputSize node op).z ≠ 1

/-- A cell of the first row as a cell of another row. Caches stay. -/
def toRow (y : ℕ) (c : Cell) : Cell := if IsCache c.source then c else { c with y := c.y + y }

/-- A cell of a row as a cell of the first row. -/
def fromRow (c : Cell) : Cell := { c with y := 0 }

section Access

variable {R : Type} {node : NnNode} {nThreads batchSize : ℕ} {op : NnOpConfig}

/-- The memory as a batch of one row finds it. -/
def atRow (y : ℕ) (m : Memory R) : Memory R := fun c => m (toRow y c)

theorem atRow_cache (y : ℕ) (m : Memory R) {c : Cell} (hc : IsCache c.source) :
    atRow y m c = m c := by
  rw [atRow, toRow, if_pos hc]

theorem atRow_row (y : ℕ) (m : Memory R) {c : Cell} (hc : ¬IsCache c.source) :
    atRow y m c = m { c with y := c.y + y } := by
  rw [atRow, toRow, if_neg hc]

theorem atRow_zero (m : Memory R) : atRow 0 m = m := by
  funext c
  by_cases hc : IsCache c.source
  · exact atRow_cache 0 m hc
  · exact atRow_row 0 m hc

theorem atRow_fromRow (m : Memory R) {c : Cell} (hc : ¬IsCache c.source) :
    atRow c.y m (fromRow c) = m c := by
  have hsource : ¬IsCache (fromRow c).source := hc
  rw [atRow_row c.y m hsource, fromRow]
  simp only [Nat.zero_add]

theorem mem_cells_fromRow (r : Region) (c : Cell) :
    c ∈ cells node batchSize r ↔ c.y < batchSize ∧ fromRow c ∈ cells node 1 r := by
  constructor
  · intro h
    obtain ⟨hsource, hsize, hrow, hpart⟩ := h
    exact ⟨hrow, hsource, hsize, Nat.one_pos, hpart⟩
  · intro h
    obtain ⟨hrow, hsource, hsize, _, hpart⟩ := h
    exact ⟨hsource, hsize, hrow, hpart⟩

theorem mem_cellsOf_fromRow (rs : List Region) (c : Cell) :
    c ∈ cellsOf (cells node batchSize) rs ↔
      c.y < batchSize ∧ fromRow c ∈ cellsOf (cells node 1) rs := by
  constructor
  · intro h
    obtain ⟨r, hr, hmem⟩ := h
    obtain ⟨hrow, hfirst⟩ := (mem_cells_fromRow r c).mp hmem
    exact ⟨hrow, r, hr, hfirst⟩
  · intro h
    obtain ⟨hrow, r, hr, hfirst⟩ := h
    exact ⟨r, hr, (mem_cells_fromRow r c).mpr ⟨hrow, hfirst⟩⟩

theorem RowWise.notMem_cells (h : RowWise node op) {rs : List Region}
    (hrs : rs ⊆ opReads node nThreads op ++ opWrites node nThreads op) {c : Cell}
    (hc : IsCache c.source) : c ∉ cellsOf (cells node batchSize) rs := by
  intro hmem
  obtain ⟨r, hr, hcell⟩ := hmem
  rw [hcell.1] at hc
  exact h.rows nThreads r (hrs hr) hc

/-- An operation writes to the rows of the batch what it writes to the first row. -/
theorem RowWise.mem_writes (h : RowWise node op) {c : Cell} (hc : ¬IsCache c.source) :
    c ∈ (opAccess node nThreads batchSize op).writes ↔
      c.y < batchSize ∧ fromRow c ∈ (opAccess node nThreads 1 op).writes := by
  have hnone (source : NnSource) (hsource : ¬IsCache source) : source ∉ cacheWrites op :=
    fun hmem => hsource (h.reads _ (h.writes _ hmem).1)
  have hbatch : c ∈ (opAccess node nThreads batchSize op).writes ↔
      c ∈ cellsOf (cells node batchSize) (opWrites node nThreads op) :=
    or_iff_left (hnone _ hc)
  have hfirst : fromRow c ∈ (opAccess node nThreads 1 op).writes ↔
      fromRow c ∈ cellsOf (cells node 1) (opWrites node nThreads op) :=
    or_iff_left (hnone _ hc)
  rw [hbatch, hfirst]
  exact mem_cellsOf_fromRow _ c

/-- An operation reads from the rows of the batch what it reads from the first row. -/
theorem RowWise.mem_reads (h : RowWise node op) {c : Cell} (hc : ¬IsCache c.source) :
    c ∈ (opAccess node nThreads batchSize op).reads ↔
      c.y < batchSize ∧ fromRow c ∈ (opAccess node nThreads 1 op).reads := by
  have hnone (source : NnSource) (hsource : ¬IsCache source) : source ∉ cacheReads op :=
    fun hmem => hsource (h.reads _ hmem)
  have hbatch : c ∈ (opAccess node nThreads batchSize op).reads ↔
      c ∈ cellsOf (cells node batchSize) (opReads node nThreads op) :=
    or_iff_left (hnone _ hc)
  have hfirst : fromRow c ∈ (opAccess node nThreads 1 op).reads ↔
      fromRow c ∈ cellsOf (cells node 1) (opReads node nThreads op) :=
    or_iff_left (hnone _ hc)
  rw [hbatch, hfirst]
  exact mem_cellsOf_fromRow _ c

theorem RowWise.cache_writes (h : RowWise node op) {c : Cell} (hc : IsCache c.source) :
    c ∈ (opAccess node nThreads batchSize op).writes ↔ c.source ∈ cacheWrites op :=
  or_iff_right (h.notMem_cells (List.subset_append_right _ _) hc)

theorem RowWise.cache_reads (h : RowWise node op) {c : Cell} (hc : IsCache c.source) :
    c ∈ (opAccess node nThreads batchSize op).reads ↔ c.source ∈ cacheReads op :=
  or_iff_right (h.notMem_cells (List.subset_append_left _ _) hc)

/-- A row of the batch looks to the operation as it does alone. -/
theorem RowWise.view_row (h : RowWise node op) (m : Memory R) {c : Cell} (hc : ¬IsCache c.source)
    (hrow : c.y < batchSize) : view node nThreads batchSize op m c =
      view node nThreads 1 op (atRow c.y m) (fromRow c) := by
  have hmem : c ∈ (opAccess node nThreads batchSize op).reads ↔
      fromRow c ∈ (opAccess node nThreads 1 op).reads := by
    rw [h.mem_reads hc]
    exact and_iff_right hrow
  rw [view, view, atRow_fromRow m hc]
  simp only [hmem]

theorem RowWise.view_cache (h : RowWise node op) (m : Memory R) (y : ℕ) {c : Cell}
    (hc : IsCache c.source) : view node nThreads batchSize op m c =
      view node nThreads 1 op (atRow y m) c := by
  have hmem : c ∈ (opAccess node nThreads batchSize op).reads ↔
      c ∈ (opAccess node nThreads 1 op).reads := by
    rw [h.cache_reads hc, h.cache_reads hc]
  rw [view, view, atRow_cache y m hc]
  simp only [hmem]

end Access

section Values

variable {R : Type} [Field R] [LinearOrder R] [FloorRing R] {cpu : Cpu R}
  {node : NnNode} {nThreads batchSize : ℕ} {op : NnOpConfig}

omit [LinearOrder R] [FloorRing R] in
/-- An operation finds a row of the batch as it finds it alone. -/
theorem RowWise.opRow_view (h : RowWise node op) (m : Memory R) {y : ℕ} (hy : y < batchSize) :
    opRow (view node nThreads batchSize op m) y = opRow (view node nThreads 1 op (atRow y m)) 0 := by
  apply OpRow.ext
  · funext source z x
    by_cases hc : IsCache source
    · simp only [opRow, hc, if_true]
    · have hrow : view node nThreads batchSize op m ⟨source, z, y, x⟩ =
          view node nThreads 1 op (atRow y m) ⟨source, z, 0, x⟩ := h.view_row m hc hy
      simp only [opRow, hc, if_false, hrow]
  · funext buffer pos x
    by_cases hc : IsCache (.buffer buffer)
    · have hcache : view node nThreads batchSize op m ⟨.buffer buffer, 0, pos, x⟩ =
          view node nThreads 1 op (atRow y m) ⟨.buffer buffer, 0, pos, x⟩ := h.view_cache m y hc
      simp only [opRow, hc, if_true, hcache]
    · simp only [opRow, hc, if_false]

theorem RowWise.loaded (h : RowWise node op) : RowWise node (loadedOp op) := by
  rw [loadedOp]
  split
  · exact ⟨h.plain, h.rows, h.input, h.positions, h.reads, h.writes, h.shift, h.attention, h.matmul⟩
  · exact h

theorem loadedOp_code (op : NnOpConfig) : (loadedOp op).code = op.code := by
  rw [loadedOp]
  split <;> exact Eq.refl _

theorem loadedOp_output (op : NnOpConfig) : (loadedOp op).output = op.output := by
  rw [loadedOp]
  split <;> exact Eq.refl _

theorem shiftRow_loadedOp (op : NnOpConfig) (v : OpRow R) (c : Cell) (old : R) :
    shiftRow node (loadedOp op) v c old = shiftRow node op v c old := by
  rw [loadedOp]
  split <;> exact Eq.refl _

theorem RowWise.cpuKernels_row (h : RowWise node op) (hshift : op.code ≠ .shift)
    (view : Cell → Option R) (c : Cell) : cpuKernels cpu node op batchSize view c =
      rowForward cpu node op batchSize (opRow view c.y) c.source c.z
        (c.x - firstColumn node op.output) := by
  obtain ⟨hmatmul, hreduce⟩ := h.plain
  unfold cpuKernels
  split
  · rename_i hcode
    exact absurd hcode hshift
  · rename_i hcode
    exact absurd hcode hmatmul
  · rename_i hcode
    exact absurd hcode hreduce
  · exact Eq.refl _

/-- A shift writes no rows. -/
theorem RowWise.not_shift (h : RowWise node op) {c : Cell} (hc : ¬IsCache c.source)
    (hmem : c ∈ (opAccess node nThreads batchSize op).writes) : op.code ≠ .shift := by
  intro hcode
  cases hmem with
  | inl hrow =>
    obtain ⟨r, hr, _⟩ := hrow
    rw [(h.shift hcode).1] at hr
    exact absurd hr List.not_mem_nil
  | inr hcache => exact hc (h.reads _ (h.writes _ hcache).1)

/-- The value of a row is the value that the row has alone. -/
theorem RowWise.value (h : RowWise node op) (m : Memory R) {c : Cell} (hc : ¬IsCache c.source)
    (hmem : c ∈ (opAccess node nThreads batchSize op).writes) :
    opValue node (cpuKernels cpu node) batchSize op (view node nThreads batchSize op m) c =
      opValue node (cpuKernels cpu node) 1 op (view node nThreads 1 op (atRow c.y m))
        (fromRow c) := by
  have hrow := ((h.mem_writes hc).mp hmem).1
  have hshift : (loadedOp op).code ≠ .shift := by
    rw [loadedOp_code]
    exact h.not_shift hc hmem
  have hkernel : cpuKernels cpu node (loadedOp op) batchSize (view node nThreads batchSize op m) c =
      cpuKernels cpu node (loadedOp op) 1 (view node nThreads 1 op (atRow c.y m)) (fromRow c) := by
    rw [h.loaded.cpuKernels_row hshift, h.loaded.cpuKernels_row hshift, h.opRow_view m hrow,
      rowForward_batch h.loaded.matmul batchSize 1]
    exact Eq.refl _
  have hview : view node nThreads batchSize op m
        ⟨op.input.source, c.z, c.y, firstColumn node op.input + (c.x - firstColumn node op.output)⟩ =
      view node nThreads 1 op (atRow c.y m)
        ⟨op.input.source, c.z, 0, firstColumn node op.input + (c.x - firstColumn node op.output)⟩ :=
    h.view_row m h.input hrow
  rw [opValue, opValue, hkernel, hview]
  exact Eq.refl _

/-- An operation does to a row of the batch what it does to the row alone. -/
theorem RowWise.apply_row (h : RowWise node op) (m : Memory R) {c : Cell} (hc : ¬IsCache c.source) :
    (opAction node nThreads (cpuKernels cpu node) batchSize op).apply m c =
      if c.y < batchSize then
        (opAction node nThreads (cpuKernels cpu node) 1 op).apply (atRow c.y m) (fromRow c)
      else m c := by
  by_cases hrow : c.y < batchSize
  · rw [if_pos hrow, opAction_apply, opAction_apply, atRow_fromRow m hc]
    by_cases hmem : c ∈ (opAccess node nThreads batchSize op).writes
    · rw [if_pos hmem, if_pos ((h.mem_writes hc).mp hmem).2, h.value m hc hmem]
    · have hfirst : fromRow c ∉ (opAccess node nThreads 1 op).writes := fun hin =>
        hmem ((h.mem_writes hc).mpr ⟨hrow, hin⟩)
      rw [if_neg hmem, if_neg hfirst]
  · have hmem : c ∉ (opAccess node nThreads batchSize op).writes := fun hin =>
      hrow ((h.mem_writes hc).mp hin).1
    rw [if_neg hrow, opAction_apply, if_neg hmem]

/-- Other operations leave a cache. -/
theorem RowWise.apply_cache_of_notMem (h : RowWise node op) (m : Memory R) {c : Cell}
    (hc : IsCache c.source) (hnot : c.source ∉ cacheWrites op) :
    (opAction node nThreads (cpuKernels cpu node) batchSize op).apply m c = m c := by
  have hmem : c ∉ (opAccess node nThreads batchSize op).writes := fun hin =>
    hnot ((h.cache_writes hc).mp hin)
  rw [opAction_apply, if_neg hmem]

/-- A shift stores the rows one after the other. -/
theorem RowWise.apply_cache (h : RowWise node op) (m : Memory R) {c : Cell}
    (hc : IsCache c.source) (hmem : c.source ∈ cacheWrites op) :
    (opAction node nThreads (cpuKernels cpu node) batchSize op).apply m c =
      (List.range batchSize).foldl (fun old y =>
        shiftRow node op (opRow (view node nThreads 1 op (atRow y m)) 0) c old) (m c) := by
  obtain ⟨hread, hcode⟩ := h.writes _ hmem
  have hkernel (view : Cell → Option R) : cpuKernels cpu node (loadedOp op) batchSize view c =
      shiftForward node (loadedOp op) batchSize view c := by
    unfold cpuKernels
    rw [loadedOp_code, hcode]
  have hcast : ¬(op.code = .cast ∧ sourceType node op.input.source = sourceType node op.output.source) :=
    fun hpair => by
      rw [hcode] at hpair
      cases hpair.1
  have hold : (view node nThreads batchSize op m c).getD 0 = m c := by
    rw [view, if_pos ((h.cache_reads hc).mpr hread), Option.getD_some]
  rw [opAction_apply, if_pos ((h.cache_writes hc).mpr hmem), opValue, if_neg hcast, hkernel,
    shiftForward, hold]
  apply List.foldl_ext
  intro old y hy
  rw [shiftRow_loadedOp, h.opRow_view m (List.mem_range.mp hy)]

/-- The position of the first row. -/
def positionOf (m : Memory R) : ℕ := ⌊m ⟨.pipe .pos, 0, 0, 0⟩⌋₊

theorem position_seen (m : Memory R) (h : whole (.pipe .pos) ∈ opReads node nThreads op) :
    ⌊(opRow (view node nThreads 1 op m) 0).row (.pipe .pos) 0 0⌋₊ = positionOf m := by
  have hmem : (⟨.pipe .pos, 0, 0, 0⟩ : Cell) ∈ (opAccess node nThreads 1 op).reads :=
    .inl ⟨_, h, Eq.refl _, ⟨_, Eq.refl _, Nat.one_pos, Nat.one_pos⟩, Nat.one_pos, trivial, trivial⟩
  have hrow : ¬IsCache (.pipe .pos) := id
  simp only [opRow, hrow, if_false, view, hmem, if_true, Option.getD_some, positionOf]

omit [LinearOrder R] [FloorRing R] in
/-- What an operation finds in its row comes from this row. -/
theorem opRow_congr {m m' : Memory R} (hrows : ∀ c : Cell, ¬IsCache c.source → c.y = 0 → m c = m' c) :
    (opRow (view node nThreads 1 op m) 0).row = (opRow (view node nThreads 1 op m') 0).row := by
  funext source z x
  by_cases hc : IsCache source
  · simp only [opRow, hc, if_true]
  · simp only [opRow, hc, if_false, view, hrows ⟨source, z, 0, x⟩ hc (Eq.refl _)]

theorem RowWise.shift_reads (h : RowWise node op) (hcode : op.code = .shift) :
    whole (.pipe .pos) ∈ opReads node nThreads op := by
  obtain ⟨_, localSeqStart, localSeqLen, hconfig⟩ := h.shift hcode
  simp [opReads, configReads, hconfig]

/-- A batch of one row leaves a cache at the other positions. -/
theorem RowWise.cache_frame (h : RowWise node op) (m : Memory R) {c : Cell} (hc : IsCache c.source)
    (hne : c.y ≠ positionOf m) :
    (opAction node nThreads (cpuKernels cpu node) 1 op).apply m c = m c := by
  by_cases hmem : c.source ∈ cacheWrites op
  · have hcode := (h.writes _ hmem).2
    obtain ⟨_, localSeqStart, localSeqLen, hconfig⟩ := h.shift hcode
    have hseen : ⌊(opRow (view node nThreads 1 op (atRow 0 m)) 0).row (.pipe .pos) 0 0⌋₊ =
        positionOf m := position_seen (atRow 0 m) (h.shift_reads hcode)
    rw [h.apply_cache m hc hmem, List.range_one, List.foldl_cons, List.foldl_nil, shiftRow, hconfig]
    simp only [hseen, hne, false_and, and_false, if_false]
  · exact h.apply_cache_of_notMem m hc hmem

/-- What a batch of one row stores in a cache comes from the row. -/
theorem RowWise.depends_cache (h : RowWise node op) {m m' : Memory R}
    (hrows : ∀ c : Cell, ¬IsCache c.source → c.y = 0 → m c = m' c) {c : Cell} (hc : IsCache c.source)
    (hsame : m c = m' c) : (opAction node nThreads (cpuKernels cpu node) 1 op).apply m c =
      (opAction node nThreads (cpuKernels cpu node) 1 op).apply m' c := by
  have hrows' : ∀ c : Cell, ¬IsCache c.source → c.y = 0 → atRow 0 m c = atRow 0 m' c := by
    intro c hc hy
    rw [atRow_row 0 m hc, atRow_row 0 m' hc]
    exact hrows _ hc hy
  by_cases hmem : c.source ∈ cacheWrites op
  · rw [h.apply_cache m hc hmem, h.apply_cache m' hc hmem, hsame]
    simp only [List.range_one, List.foldl_cons, List.foldl_nil]
    exact shiftRow_congr (opRow_congr hrows') c _
  · rw [h.apply_cache_of_notMem m hc hmem, h.apply_cache_of_notMem m' hc hmem, hsame]

/-- An attention writes the columns of its heads. -/
theorem RowWise.head_column (h : RowWise node op) {c : Cell} (hc : ¬IsCache c.source)
    (hmem : c ∈ (opAccess node nThreads batchSize op).writes) {config : NnMultiHeadAttOpConfig}
    (hcode : op.code = .multiheadAtt) (hconfig : op.config = .multiheadAtt config) :
    c.x - firstColumn node op.output < config.nHeads0 * config.headDim := by
  have hfirst : firstColumn node op.output = sliceStart node op.output.source := by
    rw [firstColumn, (h.attention config hcode hconfig).2.1]
  cases hmem with
  | inl hrow =>
    obtain ⟨r, hr, _, _, _, _, hcolumn⟩ := hrow
    simp only [opWrites, hcode, hconfig, List.mem_singleton] at hr
    rw [hr] at hcolumn
    have hrange : sliceStart node op.output.source ≤ c.x ∧ c.x <
      sliceStart node op.output.source + config.nHeads0 * config.headDim := hcolumn
    rw [hfirst]
    omega
  | inr hcache => exact absurd (h.reads _ (h.writes _ hcache).1) hc

/-- What a batch of one row computes comes from the row and, for an attention, from the columns of
its key heads in the caches up to the position. -/
theorem RowWise.depends_row [IsStrictOrderedRing R] (h : RowWise node op) {m m' : Memory R}
    (hrows : ∀ c : Cell, ¬IsCache c.source → c.y = 0 → m c = m' c)
    (hcaches : ∀ config, op.code = .multiheadAtt → op.config = .multiheadAtt config →
      ∀ c : Cell, c.source ∈ cacheReads op → c.z = 0 → c.y ≤ positionOf m → c.x < config.kvDim0 →
        m c = m' c) {c : Cell} (hc : ¬IsCache c.source) (hy : c.y = 0) :
    (opAction node nThreads (cpuKernels cpu node) 1 op).apply m c =
      (opAction node nThreads (cpuKernels cpu node) 1 op).apply m' c := by
  rw [opAction_apply, opAction_apply, hrows c hc hy]
  by_cases hmem : c ∈ (opAccess node nThreads 1 op).writes
  · have hshift : (loadedOp op).code ≠ .shift := by
      rw [loadedOp_code]
      exact h.not_shift hc hmem
    have hview : view node nThreads 1 op m
          ⟨op.input.source, c.z, c.y, firstColumn node op.input + (c.x - firstColumn node op.output)⟩ =
        view node nThreads 1 op m'
          ⟨op.input.source, c.z, c.y,
            firstColumn node op.input + (c.x - firstColumn node op.output)⟩ := by
      rw [view, view, hrows ⟨op.input.source, c.z, c.y, _⟩ h.input hy]
    have hkernel : cpuKernels cpu node (loadedOp op) 1 (view node nThreads 1 op m) c =
        cpuKernels cpu node (loadedOp op) 1 (view node nThreads 1 op m') c := by
      rw [h.loaded.cpuKernels_row hshift, h.loaded.cpuKernels_row hshift, hy]
      apply rowForward_congr (opRow_congr hrows)
      intro config hcode hconfig
      obtain ⟨hpipe, _, hfits⟩ := h.loaded.attention config hcode hconfig
      have hconfig' : op.config = .multiheadAtt config := by
        rw [← hconfig, loadedOp]
        split <;> exact Eq.refl _
      rw [loadedOp_code] at hcode
      have hreads : whole (.pipe .pos) ∈ opReads node nThreads op := by
        simp [opReads, configReads, hconfig', hpipe]
      have hpos := position_seen m hreads
      have hcolumn := h.head_column hc hmem hcode hconfig'
      refine ⟨hfits, by rw [loadedOp_output]; exact hcolumn, ?_⟩
      intro t ht i hi
      rw [hpipe, hpos] at ht
      have hcache (buffer : NnBuffer) (hin : .buffer buffer ∈ cacheReads op) :
          (opRow (view node nThreads 1 op m) 0).cache buffer t i =
            (opRow (view node nThreads 1 op m') 0).cache buffer t i := by
        simp only [opRow, view,
          hcaches config hcode hconfig' ⟨.buffer buffer, 0, t, i⟩ hin (Eq.refl _) ht hi]
      have hkeys : .buffer config.keyCacheBuffer ∈ cacheReads op := by
        simp [cacheReads, hconfig']
      have hvalues : .buffer config.valueCacheBuffer ∈ cacheReads op := by
        simp [cacheReads, hconfig']
      exact ⟨hcache _ hkeys, hcache _ hvalues⟩
    rw [if_pos hmem, if_pos hmem, opValue, opValue, hview, hkernel]
  · rw [if_neg hmem, if_neg hmem]

end Values

section Tasks

variable {R : Type} [Field R] [LinearOrder R] [FloorRing R] (cpu : Cpu R)
  (node : NnNode) (nThreads : ℕ)

/-- An operation on one row of the batch. -/
def rowTask (op : NnOpConfig) (y : ℕ) (m : Memory R) : Memory R := fun c =>
  if IsCache c.source then (opAction node nThreads (cpuKernels cpu node) 1 op).apply (atRow y m) c
  else if c.y = y then
    (opAction node nThreads (cpuKernels cpu node) 1 op).apply (atRow y m) (fromRow c)
  else m c

variable {cpu node nThreads} {batchSize : ℕ} {op op' : NnOpConfig}

theorem rowTask_cache (op : NnOpConfig) (y : ℕ) (m : Memory R) {c : Cell} (hc : IsCache c.source) :
    rowTask cpu node nThreads op y m c =
      (opAction node nThreads (cpuKernels cpu node) 1 op).apply (atRow y m) c := if_pos hc

theorem rowTask_row (op : NnOpConfig) (m : Memory R) {c : Cell} (hc : ¬IsCache c.source) :
    rowTask cpu node nThreads op c.y m c =
      (opAction node nThreads (cpuKernels cpu node) 1 op).apply (atRow c.y m) (fromRow c) := by
  rw [rowTask, if_neg hc, if_pos (Eq.refl _)]

theorem rowTask_other (op : NnOpConfig) {y : ℕ} (m : Memory R) {c : Cell} (hc : ¬IsCache c.source)
    (hy : c.y ≠ y) : rowTask cpu node nThreads op y m c = m c := by
  rw [rowTask, if_neg hc, if_neg hy]

/-- A task does on its row what the operation does on a batch of one row. -/
theorem RowWise.atRow_rowTask (h : RowWise node op) (y : ℕ) (m : Memory R) :
    atRow y (rowTask cpu node nThreads op y m) =
      (opAction node nThreads (cpuKernels cpu node) 1 op).apply (atRow y m) := by
  funext c
  by_cases hc : IsCache c.source
  · rw [atRow_cache y _ hc, rowTask_cache op y m hc]
  · rw [atRow_row y _ hc]
    by_cases hy : c.y = 0
    · have hcell : ({ c with y := c.y + y } : Cell) = { c with y := y } := by
        rw [hy, Nat.zero_add]
      have hfirst : fromRow ({ c with y := y } : Cell) = c := by
        rw [fromRow, ← hy]
      rw [hcell]
      exact (rowTask_row op m (c := { c with y := y }) hc).trans (by rw [hfirst])
    · have hother : c.y + y ≠ y := by
        omega
      have hnot : ¬c.y < 1 := by
        omega
      rw [rowTask_other op m (c := { c with y := c.y + y }) hc hother, h.apply_row _ hc, if_neg hnot,
        atRow_row y m hc]

/-- A row that a batch has not reached is as it was. -/
theorem RowWise.atRow_apply (h : RowWise node op) (m : Memory R) {c : Cell} (hc : ¬IsCache c.source)
    (hy : c.y = 0) :
    atRow batchSize ((opAction node nThreads (cpuKernels cpu node) batchSize op).apply m) c =
      atRow batchSize m c := by
  have hnot : ¬c.y + batchSize < batchSize := by
    omega
  rw [atRow_row _ _ hc, atRow_row _ _ hc]
  exact (h.apply_row m (c := { c with y := c.y + batchSize }) hc).trans (if_neg hnot)

/-- A batch with one row more. -/
theorem RowWise.apply_succ [IsStrictOrderedRing R] (h : RowWise node op) (m : Memory R) :
    (opAction node nThreads (cpuKernels cpu node) (batchSize + 1) op).apply m =
      rowTask cpu node nThreads op batchSize
        ((opAction node nThreads (cpuKernels cpu node) batchSize op).apply m) := by
  have hrows : ∀ c : Cell, ¬IsCache c.source → c.y = 0 →
      atRow batchSize ((opAction node nThreads (cpuKernels cpu node) batchSize op).apply m) c =
        atRow batchSize m c := fun c hc hy => h.atRow_apply m hc hy
  funext c
  by_cases hc : IsCache c.source
  · rw [rowTask_cache op batchSize _ hc]
    by_cases hmem : c.source ∈ cacheWrites op
    · have hbefore : (opAction node nThreads (cpuKernels cpu node) batchSize op).apply m c =
          (List.range batchSize).foldl (fun old y =>
            shiftRow node op (opRow (view node nThreads 1 op (atRow y m)) 0) c old) (m c) :=
        h.apply_cache m hc hmem
      rw [h.apply_cache m hc hmem, h.apply_cache _ hc hmem, List.range_succ, List.foldl_append,
        ← hbefore, List.range_one, atRow_cache batchSize _ hc]
      simp only [List.foldl_cons, List.foldl_nil, atRow_zero]
      exact shiftRow_congr (opRow_congr fun c hc hy => (hrows c hc hy).symm) c _
    · rw [h.apply_cache_of_notMem m hc hmem, h.apply_cache_of_notMem _ hc hmem,
        atRow_cache batchSize _ hc, h.apply_cache_of_notMem m hc hmem]
  · rw [h.apply_row m hc]
    by_cases hy : c.y = batchSize
    · have hlt : c.y < batchSize + 1 := by
        omega
      have hrowTask : rowTask cpu node nThreads op batchSize
          ((opAction node nThreads (cpuKernels cpu node) batchSize op).apply m) c =
          (opAction node nThreads (cpuKernels cpu node) 1 op).apply (atRow batchSize
            ((opAction node nThreads (cpuKernels cpu node) batchSize op).apply m)) (fromRow c) := by
        rw [← hy]
        exact rowTask_row op _ hc
      rw [if_pos hlt, hrowTask, hy]
      by_cases hshift : op.code = .shift
      · have hnone : fromRow c ∉ (opAccess node nThreads 1 op).writes := fun hmem =>
          h.not_shift (c := fromRow c) hc hmem hshift
        rw [opAction_apply, opAction_apply, if_neg hnone, if_neg hnone]
        exact (hrows (fromRow c) hc (Eq.refl _)).symm
      · refine h.depends_row (c := fromRow c) (fun c hc hy => (hrows c hc hy).symm) ?_ hc (Eq.refl _)
        intro _ _ _ c' hc' _ _ _
        have hcache := h.reads _ hc'
        rw [atRow_cache _ _ hcache, atRow_cache _ _ hcache,
          h.apply_cache_of_notMem m hcache fun hmem => hshift (h.writes _ hmem).2]
    · rw [rowTask_other op _ hc hy, h.apply_row m hc]
      have hiff : c.y < batchSize + 1 ↔ c.y < batchSize := by
        omega
      simp only [hiff]

/-- An operation on a batch is a task for each row. -/
theorem RowWise.apply_eq_onRows [IsStrictOrderedRing R] (h : RowWise node op) (m : Memory R) :
    (opAction node nThreads (cpuKernels cpu node) batchSize op).apply m =
      onRows (rowTask cpu node nThreads) (List.range batchSize) op m := by
  induction batchSize with
  | zero =>
    funext c
    rw [List.range_zero, onRows, List.foldl_nil]
    by_cases hc : IsCache c.source
    · by_cases hmem : c.source ∈ cacheWrites op
      · rw [h.apply_cache m hc hmem, List.range_zero, List.foldl_nil]
      · exact h.apply_cache_of_notMem m hc hmem
    · rw [h.apply_row m hc, if_neg (Nat.not_lt_zero _)]
  | succ batchSize ih =>
    rw [h.apply_succ, ih, onRows, onRows, List.range_succ, List.foldl_append, List.foldl_cons,
      List.foldl_nil]

/-- The positions of the rows. -/
def HasPositions (position : ℕ → ℕ) (batchSize : ℕ) (m : Memory R) : Prop :=
  ∀ y < batchSize, ⌊m ⟨.pipe .pos, 0, y, 0⟩⌋₊ = position y

/-- What a task reads: its row, and caches up to its position. -/
def taskReads (op : NnOpConfig) (y position : ℕ) : Set Cell :=
  {c | if IsCache c.source then c.source ∈ cacheReads op ∧ c.y ≤ position else c.y = y}

/-- What a task writes: its row, and a cache at its position. -/
def taskWrites (op : NnOpConfig) (y position : ℕ) : Set Cell :=
  {c | if IsCache c.source then c.source ∈ cacheWrites op ∧ c.y = position else c.y = y}

theorem mem_taskReads (op : NnOpConfig) (y position : ℕ) (c : Cell) : c ∈ taskReads op y position ↔
    if IsCache c.source then c.source ∈ cacheReads op ∧ c.y ≤ position else c.y = y := Iff.rfl

theorem mem_taskWrites (op : NnOpConfig) (y position : ℕ) (c : Cell) :
    c ∈ taskWrites op y position ↔
      if IsCache c.source then c.source ∈ cacheWrites op ∧ c.y = position else c.y = y := Iff.rfl

theorem positionOf_atRow {position : ℕ → ℕ} {m : Memory R} (hm : HasPositions position batchSize m)
    {y : ℕ} (hy : y < batchSize) : positionOf (atRow y m) = position y := by
  have hrow : ¬IsCache (.pipe .pos) := id
  rw [positionOf, atRow_row y m (c := ⟨.pipe .pos, 0, 0, 0⟩) hrow]
  simp only [Nat.zero_add]
  exact hm y hy

/-- A task keeps the positions. -/
theorem RowWise.rowTask_position (h : RowWise node op) (y : ℕ) (m : Memory R) {c : Cell}
    (hc : c.source = .pipe .pos) : rowTask cpu node nThreads op y m c = m c := by
  have hrow : ¬IsCache c.source := by
    rw [hc]
    exact id
  by_cases hy : c.y = y
  · have hnot : fromRow c ∉ (opAccess node nThreads 1 op).writes := by
      intro hmem
      cases hmem with
      | inl hin =>
        obtain ⟨r, hr, hsource, _⟩ := hin
        exact h.positions nThreads r hr (hsource.symm.trans hc)
      | inr hcache => exact hrow (h.reads _ (h.writes _ hcache).1)
    rw [← hy, rowTask_row op m hrow, opAction_apply, if_neg hnot, atRow_fromRow m hrow]
  · exact rowTask_other op m hrow hy

/-- Tasks read and write their rows and positions. -/
theorem RowWise.local [IsStrictOrderedRing R]
    (h : RowWise node op) {position : ℕ → ℕ} {y : ℕ} (hy : y < batchSize) :
    Local (HasPositions (R := R) position batchSize) (taskReads op y (position y))
      (taskWrites op y (position y)) (rowTask cpu node nThreads op y) := by
  constructor
  · intro m hm y' hy'
    rw [h.rowTask_position y m (c := ⟨.pipe .pos, 0, y', 0⟩) (Eq.refl _)]
    exact hm y' hy'
  · intro m hm c hnot
    rw [mem_taskWrites] at hnot
    by_cases hc : IsCache c.source
    · rw [if_pos hc, not_and] at hnot
      rw [rowTask_cache op y m hc]
      by_cases hmem : c.source ∈ cacheWrites op
      · have hne : c.y ≠ positionOf (atRow y m) := by
          rw [positionOf_atRow hm hy]
          exact hnot hmem
        rw [h.cache_frame _ hc hne, atRow_cache y m hc]
      · rw [h.apply_cache_of_notMem _ hc hmem, atRow_cache y m hc]
    · rw [if_neg hc] at hnot
      exact rowTask_other op m hc hnot
  · intro m m' hm hm' hsame c hmem
    rw [mem_taskWrites] at hmem
    have hrows : ∀ c : Cell, ¬IsCache c.source → c.y = 0 → atRow y m c = atRow y m' c := by
      intro c hc hzero
      rw [atRow_row y m hc, atRow_row y m' hc]
      apply hsame
      rw [mem_taskReads, if_neg hc, hzero, Nat.zero_add]
    by_cases hc : IsCache c.source
    · rw [if_pos hc] at hmem
      rw [rowTask_cache op y m hc, rowTask_cache op y m' hc]
      apply h.depends_cache hrows hc
      rw [atRow_cache y m hc, atRow_cache y m' hc]
      apply hsame
      rw [mem_taskReads, if_pos hc]
      exact ⟨(h.writes _ hmem.1).1, le_of_eq hmem.2⟩
    · rw [if_neg hc] at hmem
      rw [← hmem, rowTask_row op m hc, rowTask_row op m' hc, hmem]
      refine h.depends_row (c := fromRow c) hrows ?_ hc (Eq.refl _)
      intro _ _ _ c' hc' _ hle _
      have hcache := h.reads _ hc'
      rw [positionOf_atRow hm hy] at hle
      rw [atRow_cache y m hcache, atRow_cache y m' hcache]
      apply hsame
      rw [mem_taskReads, if_pos hcache]
      exact ⟨hc', hle⟩

end Tasks

section Batches

variable {R : Type} [Field R] [LinearOrder R] [FloorRing R] {cpu : Cpu R}
  {node : NnNode} {nThreads batchSize : ℕ} {ops : List NnOpConfig} {position : ℕ → ℕ}

/-- Caches are written before they are read. -/
def CachesSettled (ops : List NnOpConfig) : Prop :=
  ops.Pairwise fun op op' => ∀ source ∈ cacheWrites op', source ∉ cacheReads op

/-- A later operation on a row has nothing to do with an earlier one on a later row. -/
theorem apart_tasks {op op' : NnOpConfig} {y y' : ℕ} (hy : y < y') (hposition : position y < position y')
    (hsettled : ∀ source ∈ cacheWrites op', source ∉ cacheReads op) :
    Apart (taskReads op' y (position y)) (taskWrites op' y (position y))
      (taskReads op y' (position y')) (taskWrites op y' (position y')) := by
  constructor
  · intro c hc hc'
    rw [mem_taskWrites] at hc
    rw [mem_taskReads] at hc'
    split at hc
    · rename_i hcache
      rw [if_pos hcache] at hc'
      exact hsettled _ hc.1 hc'.1
    · rename_i hcache
      rw [if_neg hcache] at hc'
      omega
  · intro c hc hc'
    rw [mem_taskWrites] at hc
    rw [mem_taskReads] at hc'
    split at hc
    · rename_i hcache
      rw [if_pos hcache] at hc'
      omega
    · rename_i hcache
      rw [if_neg hcache] at hc'
      omega
  · intro c hc hc'
    rw [mem_taskWrites] at hc hc'
    split at hc
    · rename_i hcache
      rw [if_pos hcache] at hc'
      omega
    · rename_i hcache
      rw [if_neg hcache] at hc'
      omega

/-- With growing positions the rows of a batch can be taken one after the other. -/
theorem interchanges [IsStrictOrderedRing R]
    (hops : ∀ op ∈ ops, RowWise node op) (hsettled : CachesSettled ops)
    (hgrows : ∀ y y', y < y' → y' < batchSize → position y < position y') :
    Interchanges (rowTask cpu node nThreads) (HasPositions position batchSize)
      (List.range batchSize) ops := by
  constructor
  · intro op hop y hy m hm
    exact ((hops op hop).local (List.mem_range.mp hy)).good m hm
  · apply hsettled.imp_of_mem
    intro op op' hop hop' hpair
    apply (List.pairwise_lt_range (n := batchSize)).imp_of_mem
    intro y y' hy hy' hlt m hm
    rw [List.mem_range] at hy hy'
    exact ((hops op' hop').local hy).comm ((hops op hop).local hy')
      (apart_tasks hlt (hgrows y y' hlt hy') hpair) hm

/-- A batch does what its rows do one after the other. -/
theorem runOps_eq_byRow [IsStrictOrderedRing R]
    (hops : ∀ op ∈ ops, RowWise node op) (hsettled : CachesSettled ops)
    (hgrows : ∀ y y', y < y' → y' < batchSize → position y < position y') {m : Memory R}
    (hm : HasPositions position batchSize m) :
    runOps node nThreads (cpuKernels cpu node) batchSize ops m =
      byRow (rowTask cpu node nThreads) (List.range batchSize) ops m := by
  rw [← byOperation_eq_byRow (interchanges hops hsettled hgrows) hm]
  clear hm hsettled
  induction ops generalizing m with
  | nil => exact Eq.refl _
  | cons op ops ih =>
    have hfirst := hops op List.mem_cons_self
    have hrest := ih (fun op' hop' => hops op' (List.mem_cons_of_mem op hop'))
      (m := (opAction node nThreads (cpuKernels cpu node) batchSize op).apply m)
    rw [runOps, List.map_cons, run_cons, ← runOps, hrest, hfirst.apply_eq_onRows]
    exact Eq.refl _

/-- On its row a task list does what the operations do on a batch of one row. -/
theorem atRow_onRow (hops : ∀ op ∈ ops, RowWise node op) (y : ℕ) (m : Memory R) :
    atRow y (onRow (rowTask cpu node nThreads) ops y m) =
      runOps node nThreads (cpuKernels cpu node) 1 ops (atRow y m) := by
  induction ops generalizing m with
  | nil => exact Eq.refl _
  | cons op ops ih =>
    have hfirst := hops op List.mem_cons_self
    rw [onRow_cons, ih fun op' hop' => hops op' (List.mem_cons_of_mem op hop'),
      hfirst.atRow_rowTask]
    exact Eq.refl _

/-- The other rows stay. -/
theorem onRow_other (ops : List NnOpConfig) {y : ℕ} (m : Memory R) {c : Cell}
    (hc : ¬IsCache c.source) (hy : c.y ≠ y) : onRow (rowTask cpu node nThreads) ops y m c = m c := by
  induction ops generalizing m with
  | nil => exact Eq.refl _
  | cons op ops ih => rw [onRow_cons, ih, rowTask_other op m hc hy]

end Batches

end LayerSkip.BatchRows
