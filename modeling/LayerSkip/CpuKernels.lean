import LayerSkip.MoeKernels
import LayerSkip.QuantBlocks
import LayerSkip.RopeSlicing
import LayerSkip.StageSimulation

/-!
# The operations on the processor

What the processor puts into the rows of the batch, as the loops of the operations compute it in
exact arithmetic. A value in a buffer is a number whatever the format, so a cast to Q80 leaves what
its blocks stand for. An operation computes each row from the values of this row; an attention also
reads the caches, and a shift stores its rows into them one after the other. Threads and registers
are left out but for what the loops over registers assert, and the products of the fused maximum are
a parameter.
-/

namespace LayerSkip.CpuKernels

open NnPipeline NnCore NnCpu LlmGraph ForwardReads StageExecutor StageSimulation MoeKernels
open DevicePlacement (NnNode)

/-- What the processor computes with. -/
structure Cpu (R : Type) [Field R] [LinearOrder R] where
  /-- The exponential function. -/
  exponential : Exponential R
  /-- The sort of the gate. -/
  stdSort : StdSort R
  /-- The square root. -/
  sqrtf : R → R
  /-- What is added to a mean square. -/
  epsilon : R
  /-- Weights, by operation and layer. -/
  weight : String → ℕ → ℕ → R
  /-- The rotary cache. -/
  ropeCache : NnRopeType → NnRopeSlice → ℕ → R
  /-- Which products the fast path takes. -/
  llamafile_sgemm : ℕ → ℕ → ℕ → NnSize3D → NnSize3D → Bool
  /-- The operations of the fused maximum. -/
  fusedArgmax : Kernels R

/-- A cache of keys or values. -/
def IsCache : NnSource → Prop
  | .buffer (.k _) => True
  | .buffer (.v _) => True
  | _ => False

instance (source : NnSource) : Decidable (IsCache source) := by
  unfold IsCache
  split <;> infer_instance

theorem isCache_iff (source : NnSource) : IsCache source ↔ ∃ layer, IsCacheOf layer source := by
  cases source with
  | pipe pipe => simp [IsCache, IsCacheOf]
  | buffer buffer => cases buffer <;> simp [IsCache, IsCacheOf]

/-- What an operation finds at a row of the batch. -/
@[ext]
structure OpRow (R : Type) where
  /-- Values of the row, by plane and column. -/
  row : NnSource → ℕ → ℕ → R
  /-- Values of the caches, by position and column. -/
  cache : NnBuffer → ℕ → ℕ → R

section Rows

variable {R : Type} [Field R] [LinearOrder R]

/-- A row of what an operation sees. Caches have no rows of the batch, and only they have rows by
position. -/
def opRow (view : Cell → Option R) (y : ℕ) : OpRow R where
  row source z x := if IsCache source then 0 else (view ⟨source, z, y, x⟩).getD 0
  cache buffer pos x :=
    if IsCache (.buffer buffer) then (view ⟨.buffer buffer, 0, pos, x⟩).getD 0 else 0

variable [FloorRing R]

/-- A value of a row after its blocks were quantised. -/
def quantizedQ80 (x : ℕ → R) (i : ℕ) : R :=
  QuantBlocks.dequantizeQ80toF32
    (QuantBlocks.quantizeF32toQ80 fun j => x (i / 32 * 32 + j)) ⟨i % 32, Nat.mod_lt i (by decide)⟩

/-- The inverse of the root of the mean square. -/
def invRms_F32 (cpu : Cpu R) (x : ℕ → R) (size : ℕ) : R :=
  1 / cpu.sqrtf ((∑ j ∈ Finset.range size, x j * x j) / size + cpu.epsilon)

/-- The rotation of pairs of neighbours. -/
def ropeLlama_F32 (cache : ℕ → R) (isQ : Bool) (pos : ℕ) (slice : NnRopeSlice) (x : ℕ → R)
    (i : ℕ) : R :=
  let dim0Half := (if isQ then slice.qDim0 else slice.kvDim0) / 2
  match slice.shift with
  | none => x i
  | some shift =>
    let posCache := pos * shift.sliceDim + if isQ then shift.qShift else 0
    if i / 2 < dim0Half then RopeSlicing.rotated (fun j => cache (posCache + j)) x i else x i

/-- The rotation of pairs half a head apart. -/
def ropeFalcon_F32 (cache : ℕ → R) (isQ : Bool) (pos : ℕ) (slice : NnRopeSlice) (x : ℕ → R)
    (i : ℕ) : R :=
  let nHeads0 := (if isQ then slice.qDim0 else slice.kvDim0) / slice.headDim
  let half := slice.headDim / 2
  let posCache := pos * slice.headDim
  let j := i % slice.headDim
  if i / slice.headDim < nHeads0 then
    if j < half then x i * cache (posCache + j) - x (i + half) * cache (posCache + j + half)
    else if j < half + half then
      x (i - half) * cache (posCache + j) + x i * cache (posCache + (j - half))
    else x i
  else x i

/-- Value of a cache at a place, counted from its first row. -/
def cacheAt (cache : ℕ → ℕ → R) (kvDim0 place : ℕ) : R := cache (place / kvDim0) (place % kvDim0)

/-- A value of the key head of a query head at a position. The shift that stores a row asserts that it
ends in the cache, so the offset of a row does not wrap. -/
def headCache (config : NnMultiHeadAttOpConfig) (cache : ℕ → ℕ → R) (h0 t j : ℕ) : R :=
  let kvMul := config.nHeads / config.nKvHeads
  let headIndex := h0 / kvMul
  cacheAt cache config.kvDim0 (headIndex * config.headDim + t * config.kvDim0 + j)

/-- The score of a query head with its key at a position. -/
def attScore (cpu : Cpu R) (config : NnMultiHeadAttOpConfig) (q : ℕ → R) (keyCache : ℕ → ℕ → R)
    (h0 t : ℕ) : R :=
  (∑ j ∈ Finset.range config.headDim, q (h0 * config.headDim + j) *
    headCache config keyCache h0 t j) / cpu.sqrtf config.headDim

/-- A value of an attention: the scores of a head with the keys up to the position, as weights of
the values. -/
def multiheadAtt_F32 (cpu : Cpu R) (config : NnMultiHeadAttOpConfig) (q : ℕ → R)
    (keyCache valueCache : ℕ → ℕ → R) (pos i : ℕ) : R :=
  let h0 := i / config.headDim
  ∑ t ∈ Finset.range (pos + 1),
    softmax_F32 cpu.exponential (pos + 1) (attScore cpu config q keyCache h0) t *
      headCache config valueCache h0 t (i % config.headDim)

end Rows

section Operations

variable {R : Type} [Field R] [LinearOrder R] [IsStrictOrderedRing R] [FloorRing R] (cpu : Cpu R)
  (node : NnNode) (op : NnOpConfig)

/-- Size of what a pointer is to. -/
def pointerSize (pointer : NnPointerConfig) : NnSize3D :=
  let size := (node.sourceSize pointer.source).getD size0
  match pointer.type with
  | .batchedSlice => { size with x := sliceWidth node pointer.source }
  | _ => size

/-- The input of an operation. -/
def inputSize : NnSize3D := pointerSize node op.input

/-- The output of an operation. -/
def outputSize : NnSize3D := pointerSize node op.output

/-- A row of the input. -/
def inputRow (v : OpRow R) (z x : ℕ) : R := v.row op.input.source z (firstColumn node op.input + x)

/-- A row of the output before the operation. -/
def outputRow (v : OpRow R) (z x : ℕ) : R :=
  v.row op.output.source z (firstColumn node op.output + x)

/-- Weight of the operation. -/
def weightOf : ℕ → R := cpu.weight op.name op.index

/-- Numbers that are kept in the format of the output. -/
def castRow (x : ℕ → R) (i : ℕ) : R :=
  if (inputSize node op).floatType = some .f32 ∧ (outputSize node op).floatType = some .q80 then
    quantizedQ80 x i
  else x i

/-- Whether the fast path takes the product of a batch. It knows the first expert only. -/
def takesFast (batchSize : ℕ) : Bool :=
  hasPointerContinuousMemory op.input.type && hasPointerContinuousMemory op.output.type &&
    decide ((inputSize node op).z = 1) &&
    cpu.llamafile_sgemm op.weightSize.x batchSize
      (op.weightSize.y / ((inputSize node op).floatType.map getBlockSize).getD 1) op.weightSize
      (inputSize node op)

/-- The expert whose weight a plane is multiplied with. -/
def activeExpert (batchSize nActiveExperts : ℕ) (activeExpertIndexesBuffer : NnBuffer)
    (v : OpRow R) (e : ℕ) : ℕ :=
  if takesFast cpu node op batchSize then 0
  else if nActiveExperts = 0 then 0
  else ⌊v.row (.buffer activeExpertIndexesBuffer) 0 e⌋₊

/-- The value that an operation puts into a plane and a column of a row. -/
def rowForward (batchSize : ℕ) (v : OpRow R) (source : NnSource) (z x : ℕ) : R :=
  match op.code, op.config with
  | .embedding, _ =>
    castRow node op (fun i => weightOf cpu op (⌊inputRow node op v 0 0⌋₊ *
      (outputSize node op).x + i)) x
  | .mergeAdd, _ =>
    (List.range ((inputSize node op).x / (outputSize node op).x)).foldl
      (fun sum sliceIndex => sum + inputRow node op v 0 (sliceIndex * (outputSize node op).x + x))
      (outputRow node op v 0 x)
  | .mergeSum, _ => ∑ e ∈ Finset.range (inputSize node op).z, inputRow node op v e x
  | .invRms, .invRms nColumns =>
    let colSize := (inputSize node op).x / nColumns
    invRms_F32 cpu (fun j => inputRow node op v 0 (x * colSize + j)) colSize
  | .rmsNorm, .rmsNorm invRmsBuffer nColumns =>
    let colSize := op.weightSize.x
    if x / colSize < nColumns then
      weightOf cpu op (x % colSize) * (v.row (.buffer invRmsBuffer) 0 (x / colSize) *
        inputRow node op v 0 x)
    else outputRow node op v 0 x
  | .matmul, .matmul _ nActiveExperts activeExpertIndexesBuffer =>
    let expert := activeExpert cpu node op batchSize nActiveExperts activeExpertIndexesBuffer v z
    matmul_F32 (fun l => weightOf cpu op (expert * planeValues op.weightSize + l))
      (inputRow node op v z) op.weightSize.y x
  | .rope, .rope type isQ positionPipe _ slice =>
    let pos := ⌊v.row (.pipe positionPipe) 0 0⌋₊
    match type with
    | .falcon => ropeFalcon_F32 (cpu.ropeCache type slice) isQ pos slice (inputRow node op v 0) x
    | _ => ropeLlama_F32 (cpu.ropeCache type slice) isQ pos slice (inputRow node op v 0) x
  | .multiheadAtt, .multiheadAtt config =>
    multiheadAtt_F32 cpu config (v.row (.buffer config.queryBuffer) 0) (v.cache config.keyCacheBuffer)
      (v.cache config.valueCacheBuffer) ⌊v.row (.pipe config.positionPipe) 0 0⌋₊ x
  | .silu, _ => silu_F32 cpu.exponential (outputRow node op v z x)
  | .mul, .mul multiplierBuffer => inputRow node op v z x * v.row (.buffer multiplierBuffer) z x
  | .scale, .scale scaleBuffer => inputRow node op v z x * v.row (.buffer scaleBuffer) z 0
  | .cast, _ => castRow node op (inputRow node op v z) x
  | .repeatZ, _ => castRow node op (inputRow node op v 0) x
  | .softmax, _ =>
    softmax_F32 cpu.exponential (outputSize node op).x (outputRow node op v 0) x
  | .moeGate, .moeGate k normTopk indexesBuffer =>
    let input := inputRow node op v 0
    let pos := topk_F32 cpu.stdSort input (inputSize node op).x k
    if source = .buffer indexesBuffer then (pos.getD x 0 : R)
    else input (pos.getD z 0) / topkSum normTopk input pos
  | _, _ => outputRow node op v z x

/-- A value of a cache after a row was stored at its position, when this is one of the rank. -/
def shiftRow (v : OpRow R) (c : Cell) (old : R) : R :=
  match op.config with
  | .shift indexPipe localSeqStart localSeqLen =>
    let index := ⌊v.row (.pipe indexPipe) 0 0⌋₊
    if (0 < localSeqLen → localSeqStart ≤ index ∧ index < localSeqStart + localSeqLen) ∧
        c.y = index ∧ c.z = 0 ∧ c.x < (inputSize node op).x then
      inputRow node op v 0 c.x
    else old
  | _ => old

/-- A value of a cache after all rows of the batch. -/
def shiftForward (batchSize : ℕ) (view : Cell → Option R) (c : Cell) : R :=
  (List.range batchSize).foldl (fun old y => shiftRow node op (opRow view y) c old)
    ((view c).getD 0)

/-- What the loops over registers of some lanes assert (four with `__ARM_NEON`, eight with `__AVX2__`,
else one): whole registers for a mean square, for a row of floats and for a head. A forward has no
part in it. -/
def WholeRegisters (lanes : ℕ) : Prop :=
  match op.code, op.config with
  | .invRms, .invRms nColumns => (inputSize node op).x / nColumns % lanes = 0
  | .matmul, _ => op.weightSize.floatType = some .f32 → op.weightSize.y % lanes = 0
  | .multiheadAtt, .multiheadAtt config => config.headDim % lanes = 0
  | _, _ => True

/-- The functions of the operations. -/
def cpuKernels : Kernels R := fun op batchSize view c =>
  match op.code with
  | .shift => shiftForward node op batchSize view c
  | .matmulArgmax => cpu.fusedArgmax op batchSize view c
  | .argmaxReduce => cpu.fusedArgmax op batchSize view c
  | _ => rowForward cpu node op batchSize (opRow view c.y) c.source c.z
      (c.x - firstColumn node op.output)

end Operations

section Congruence

variable {R : Type} [Field R] [LinearOrder R] [FloorRing R] {cpu : Cpu R}
  {node : NnNode} {op : NnOpConfig}

omit [Field R] [LinearOrder R] [FloorRing R] in
/-- A place in a row of a cache. -/
theorem cacheAt_row (cache : ℕ → ℕ → R) {kvDim0 t j : ℕ} (hj : j < kvDim0) :
    cacheAt cache kvDim0 (j + t * kvDim0) = cache t j := by
  have hpos : 0 < kvDim0 := Nat.zero_lt_of_lt hj
  rw [cacheAt, Nat.add_mul_div_right _ _ hpos, Nat.div_eq_of_lt hj, Nat.zero_add,
    Nat.add_mul_mod_self_right, Nat.mod_eq_of_lt hj]

/-- Every head of the rank has the columns of its key head in a row of the caches. -/
def HeadsFit (config : NnMultiHeadAttOpConfig) : Prop :=
  ∀ h0 < config.nHeads0,
    (h0 / (config.nHeads / config.nKvHeads) + 1) * config.headDim ≤ config.kvDim0

omit [Field R] [LinearOrder R] [FloorRing R] in
/-- A head reads a row of a cache. -/
theorem headCache_congr {config : NnMultiHeadAttOpConfig} (hfits : HeadsFit config)
    {cache cache' : ℕ → ℕ → R} {h0 t j : ℕ} (hhead : h0 < config.nHeads0)
    (hj : j < config.headDim) (hsame : ∀ x < config.kvDim0, cache t x = cache' t x) :
    headCache config cache h0 t j = headCache config cache' h0 t j := by
  have hfit := hfits h0 hhead
  rw [Nat.succ_mul] at hfit
  have hcolumn : h0 / (config.nHeads / config.nKvHeads) * config.headDim + j < config.kvDim0 := by
    omega
  rw [headCache, headCache, Nat.add_right_comm, cacheAt_row cache hcolumn,
    cacheAt_row cache' hcolumn]
  exact hsame _ hcolumn

omit [FloorRing R] in
/-- An attention reads no later positions. -/
theorem multiheadAtt_F32_congr [IsStrictOrderedRing R]
    {config : NnMultiHeadAttOpConfig} (hfits : HeadsFit config)
    (q : ℕ → R) {keys keys' values values' : ℕ → ℕ → R} {pos i : ℕ}
    (hi : i < config.nHeads0 * config.headDim)
    (hkeys : ∀ t ≤ pos, ∀ x < config.kvDim0, keys t x = keys' t x)
    (hvalues : ∀ t ≤ pos, ∀ x < config.kvDim0, values t x = values' t x) :
    multiheadAtt_F32 cpu config q keys values pos i =
      multiheadAtt_F32 cpu config q keys' values' pos i := by
  have hdim : 0 < config.headDim := Nat.pos_of_mul_pos_left (Nat.zero_lt_of_lt hi)
  have hhead : i / config.headDim < config.nHeads0 := Nat.div_lt_of_lt_mul (Nat.mul_comm _ _ ▸ hi)
  have hscore {t : ℕ} (ht : t < pos + 1) : attScore cpu config q keys (i / config.headDim) t =
      attScore cpu config q keys' (i / config.headDim) t := by
    rw [attScore, attScore]
    congr 1
    apply Finset.sum_congr (Eq.refl _)
    intro j hj
    rw [headCache_congr hfits hhead (Finset.mem_range.mp hj) (hkeys t (Nat.lt_succ_iff.mp ht))]
  apply Finset.sum_congr (Eq.refl _)
  intro t ht
  have hlt := Finset.mem_range.mp ht
  rw [softmax_F32_congr cpu.exponential (fun t ht => hscore ht) hlt,
    headCache_congr hfits hhead (Nat.mod_lt i hdim) (hvalues t (Nat.lt_succ_iff.mp hlt))]

/-- Only a product of one plane with chosen experts depends on the number of rows. -/
theorem rowForward_batch (hmatmul : ∀ nExperts nActiveExperts buffer,
      op.config = .matmul nExperts nActiveExperts buffer →
        nActiveExperts = 0 ∨ (inputSize node op).z ≠ 1)
    (batchSize batchSize' : ℕ) (v : OpRow R) (source : NnSource) (z x : ℕ) :
    rowForward cpu node op batchSize v source z x = rowForward cpu node op batchSize' v source z x := by
  have hexpert (nExperts nActiveExperts : ℕ) (buffer : NnBuffer)
      (hconfig : op.config = .matmul nExperts nActiveExperts buffer) (batchSize : ℕ) :
      activeExpert cpu node op batchSize nActiveExperts buffer v z =
        if nActiveExperts = 0 then 0 else ⌊v.row (.buffer buffer) 0 z⌋₊ := by
    rw [activeExpert]
    cases hmatmul nExperts nActiveExperts buffer hconfig with
    | inl hnone => simp [hnone]
    | inr hplanes => simp [takesFast, hplanes]
  unfold rowForward
  split <;> try exact Eq.refl _
  rename_i nExperts nActiveExperts buffer _ hconfig
  simp only [hexpert nExperts nActiveExperts buffer hconfig]

/-- Values of a row depend on this row, and those of an attention on the caches up to its
position. -/
theorem rowForward_congr [IsStrictOrderedRing R]
    {v v' : OpRow R} (hrow : v.row = v'.row) (batchSize : ℕ)
    (source : NnSource) {z x : ℕ}
    (hcache : ∀ config, op.code = .multiheadAtt → op.config = .multiheadAtt config →
      HeadsFit config ∧ x < config.nHeads0 * config.headDim ∧
        ∀ t ≤ ⌊v.row (.pipe config.positionPipe) 0 0⌋₊, ∀ i < config.kvDim0,
          v.cache config.keyCacheBuffer t i = v'.cache config.keyCacheBuffer t i ∧
            v.cache config.valueCacheBuffer t i = v'.cache config.valueCacheBuffer t i) :
    rowForward cpu node op batchSize v source z x = rowForward cpu node op batchSize v' source z x := by
  have hin : inputRow node op v = inputRow node op v' := by
    funext z x
    rw [inputRow, inputRow, hrow]
  have hout : outputRow node op v = outputRow node op v' := by
    funext z x
    rw [outputRow, outputRow, hrow]
  unfold rowForward
  split
  case h_8 config hcode hconfig =>
    obtain ⟨hfits, hx, hsame⟩ := hcache config hcode hconfig
    rw [multiheadAtt_F32_congr hfits _ hx (fun t ht i hi => (hsame t ht i hi).1)
      fun t ht i hi => (hsame t ht i hi).2, hrow]
  all_goals simp only [activeExpert, hin, hout, hrow]

/-- A stored value depends on its row. -/
theorem shiftRow_congr {v v' : OpRow R} (hrow : v.row = v'.row) (c : Cell) (old : R) :
    shiftRow node op v c old = shiftRow node op v' c old := by
  unfold shiftRow
  simp only [inputRow, hrow]

end Congruence

end LayerSkip.CpuKernels
