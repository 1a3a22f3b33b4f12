import LayerSkip.NnCpu
import Mathlib.Tactic.Ring

/-!
# Products over tensor ranks

A weight is cut by rows, and every rank writes its part of the output, or by
columns, and the parts of all ranks are added up. Both give the product with the
whole weight.
-/

namespace LayerSkip.TensorParallel

open NnTopology NnPipeline NnCore NnCpu NodeMemory EqualPieces

/-- Bytes of a shard; there are none behind its end. -/
def bytesOf (shard : List UInt8) : ℕ → UInt8 := fun i => shard.getD i 0

section Shards

variable {R : Type*} (f : MatmulFormat R)

/-- A block of a shard is a block of the weight when their bytes agree. -/
theorem blockAt_eq {w w' : ℕ → UInt8} {blockBytes block block' : ℕ}
    (h : ∀ i < blockBytes, w (block * blockBytes + i) = w' (block' * blockBytes + i)) :
    blockAt w blockBytes block = blockAt w' blockBytes block' :=
  List.map_congr_left fun i hi => h i (List.mem_range.mp hi)

variable {f} {nNodes n d : ℕ}

/-- What the slicer says of a slice by rows. -/
theorem rowSlice_eq {slice : NnRowMatmulSlice} (h : sliceRowMatmul f.weightType nNodes n d = .ok slice) :
    d = nNodes * slice.d0 ∧ slice.type = f.weightType ∧ slice.n = n := by
  obtain ⟨u, hcheck, hrest⟩ := bind_eq_ok h
  obtain ⟨v, -, hrest⟩ := bind_eq_ok hrest
  obtain ⟨w, -, hslice⟩ := bind_eq_ok hrest
  have hdvd := Nat.dvd_of_mod_eq_zero (require_eq_ok hcheck)
  injection hslice with hslice
  rw [← hslice]
  exact ⟨(Nat.mul_div_cancel' hdvd).symm, rfl, rfl⟩

/-- What the slicer says of a slice by columns. -/
theorem colSlice_eq {slice : NnColMatmulSlice} (h : sliceColMatmul f.weightType nNodes n d = .ok slice) :
    n = nNodes * slice.n0 ∧ slice.type = f.weightType ∧ slice.n = n ∧ slice.d = d := by
  obtain ⟨u, hcheck, hrest⟩ := bind_eq_ok h
  obtain ⟨v, -, hrest⟩ := bind_eq_ok hrest
  obtain ⟨w, -, hslice⟩ := bind_eq_ok hrest
  have hdvd := Nat.dvd_of_mod_eq_zero (require_eq_ok hcheck)
  injection hslice with hslice
  rw [← hslice]
  exact ⟨(Nat.mul_div_cancel' hdvd).symm, rfl, rfl, rfl⟩

/-- The splitter copies the bytes of the rows of a rank in order. -/
theorem splitRowMatmulWeight_ok {slice : NnRowMatmulSlice} (htype : slice.type = f.weightType)
    (hblocks : slice.n % f.blockSize = 0) (nodeIndex : ℕ) (weight : ℕ → UInt8) :
    ∃ shard, splitRowMatmulWeight slice nodeIndex weight = .ok shard ∧
      shard.length = slice.d0 * (slice.n / f.blockSize * f.weightBytes) ∧
      ∀ i < slice.d0, ∀ j < slice.n / f.blockSize, ∀ b < f.weightBytes,
        bytesOf shard ((i * (slice.n / f.blockSize) + j) * f.weightBytes + b) =
          weight (((nodeIndex * slice.d0 + i) * (slice.n / f.blockSize) + j) * f.weightBytes + b) := by
  have hinner (offset row block : ℕ) : ((List.range f.weightBytes).map fun i =>
      weight (offset + (row * (slice.n / f.blockSize) + block) * f.weightBytes + i)).length =
        f.weightBytes := by
    rw [List.length_map, List.length_range]
  have houter (offset row : ℕ) : ((List.range (slice.n / f.blockSize)).flatMap fun j =>
      (List.range f.weightBytes).map fun i =>
        weight (offset + (row * (slice.n / f.blockSize) + j) * f.weightBytes + i)).length =
          slice.n / f.blockSize * f.weightBytes :=
    length_flatMap_range fun block _ => hinner offset row block
  have hok : splitRowMatmulWeight slice nodeIndex weight = .ok ((List.range slice.d0).flatMap fun d =>
      (List.range (slice.n / f.blockSize)).flatMap fun j => (List.range f.weightBytes).map fun i =>
        weight (slice.d0 * nodeIndex * (slice.n / f.blockSize) * f.weightBytes +
          (d * (slice.n / f.blockSize) + j) * f.weightBytes + i)) := by
    unfold splitRowMatmulWeight MatmulFormat.weightBytes MatmulFormat.blockSize at *
    rw [htype]
    simp only [require, hblocks, if_true]
    rfl
  refine ⟨_, hok, length_flatMap_range fun row _ => houter _ row, ?_⟩
  intro i hi j hj b hb
  have hindex : (i * (slice.n / f.blockSize) + j) * f.weightBytes + b =
      i * (slice.n / f.blockSize * f.weightBytes) + (j * f.weightBytes + b) := by
    ring
  unfold bytesOf
  rw [List.getD_eq_getElem?_getD, hindex,
    getElem?_flatMap_range (fun row _ => houter _ row) hi (index_lt hj hb),
    getElem?_flatMap_range (fun block _ => hinner _ i block) hj hb, List.getElem?_map,
    List.getElem?_range hb]
  dsimp only [Option.map_some, Option.getD_some]
  congr 1
  ring

/-- The splitter copies the columns of a rank out of every row. -/
theorem splitColMatmulWeight_ok {slice : NnColMatmulSlice} (htype : slice.type = f.weightType)
    (hblocks : slice.n0 % f.blockSize = 0) (nodeIndex : ℕ) (weight : ℕ → UInt8) :
    ∃ shard, splitColMatmulWeight slice nodeIndex weight = .ok shard ∧
      shard.length = slice.d * (slice.n0 / f.blockSize * f.weightBytes) ∧
      ∀ i < slice.d, ∀ j < slice.n0 / f.blockSize, ∀ b < f.weightBytes,
        bytesOf shard ((i * (slice.n0 / f.blockSize) + j) * f.weightBytes + b) =
          weight ((i * (slice.n / f.blockSize) + (nodeIndex * (slice.n0 / f.blockSize) + j)) *
            f.weightBytes + b) := by
  have hinner (row : ℕ) : ((List.range (slice.n0 / f.blockSize * f.weightBytes)).map fun i =>
      weight (slice.n / f.blockSize * f.weightBytes * row +
        nodeIndex * (slice.n0 / f.blockSize * f.weightBytes) + i)).length =
        slice.n0 / f.blockSize * f.weightBytes := by
    rw [List.length_map, List.length_range]
  have hok : splitColMatmulWeight slice nodeIndex weight = .ok ((List.range slice.d).flatMap fun d =>
      (List.range (slice.n0 / f.blockSize * f.weightBytes)).map fun i =>
        weight (slice.n / f.blockSize * f.weightBytes * d +
          nodeIndex * (slice.n0 / f.blockSize * f.weightBytes) + i)) := by
    unfold splitColMatmulWeight MatmulFormat.weightBytes MatmulFormat.blockSize at *
    rw [htype]
    simp only [require, hblocks, if_true]
    rfl
  refine ⟨_, hok, length_flatMap_range fun row _ => hinner row, ?_⟩
  intro i hi j hj b hb
  have hindex : (i * (slice.n0 / f.blockSize) + j) * f.weightBytes + b =
      i * (slice.n0 / f.blockSize * f.weightBytes) + (j * f.weightBytes + b) := by
    ring
  have hplace := index_lt hj hb
  unfold bytesOf
  rw [List.getD_eq_getElem?_getD, hindex, getElem?_flatMap_range (fun row _ => hinner row) hi hplace,
    List.getElem?_map, List.getElem?_range hplace]
  dsimp only [Option.map_some, Option.getD_some]
  congr 1
  ring

/-- A row slice of the weight holds rows of the matrix. -/
theorem weightAt_rows {w w' : ℕ → UInt8} {i row : ℕ} (hn : n % f.blockSize = 0)
    (h : ∀ j < n / f.blockSize, ∀ b < f.weightBytes,
      w ((i * (n / f.blockSize) + j) * f.weightBytes + b) =
        w' ((row * (n / f.blockSize) + j) * f.weightBytes + b)) {c : ℕ} (hc : c < n) :
    f.weightAt w n i c = f.weightAt w' n row c := by
  have hblock : c / f.blockSize < n / f.blockSize :=
    Nat.div_lt_div_of_lt_of_dvd (Nat.dvd_of_mod_eq_zero hn) hc
  rw [MatmulFormat.weightAt, MatmulFormat.weightAt, blockAt_eq (h _ hblock)]

/-- Column and place in its block, counted from the first column of a rank. -/
theorem column_div_mod {n0 bs : ℕ} (hbs : 0 < bs) (hn0 : n0 % bs = 0) (k c : ℕ) :
    (k * n0 + c) / bs = k * (n0 / bs) + c / bs ∧ (k * n0 + c) % bs = c % bs := by
  have hwhole : n0 = bs * (n0 / bs) := (Nat.mul_div_cancel' (Nat.dvd_of_mod_eq_zero hn0)).symm
  have hsum : k * n0 + c = bs * (k * (n0 / bs)) + c := by
    rw [Nat.mul_left_comm, ← hwhole]
  rw [hsum]
  exact ⟨Nat.mul_add_div hbs _ _, Nat.mul_add_mod _ _ _⟩

/-- The blocks of all columns are the blocks of the columns of each rank. -/
theorem blocks_mul {n0 bs : ℕ} (hbs : 0 < bs) (hn0 : n0 % bs = 0) (nNodes : ℕ) :
    nNodes * n0 / bs = nNodes * (n0 / bs) := by
  have hdiv := (column_div_mod hbs hn0 nNodes 0).1
  rw [Nat.add_zero, Nat.zero_div, Nat.add_zero] at hdiv
  exact hdiv

/-- A column slice of the weight holds columns of the matrix. -/
theorem weightAt_columns {w w' : ℕ → UInt8} {i k n0 : ℕ} (hn0 : n0 % f.blockSize = 0)
    (h : ∀ j < n0 / f.blockSize, ∀ b < f.weightBytes,
      w ((i * (n0 / f.blockSize) + j) * f.weightBytes + b) =
        w' ((i * (n / f.blockSize) + (k * (n0 / f.blockSize) + j)) * f.weightBytes + b))
    {c : ℕ} (hc : c < n0) : f.weightAt w n0 i c = f.weightAt w' n i (k * n0 + c) := by
  have hblock : c / f.blockSize < n0 / f.blockSize :=
    Nat.div_lt_div_of_lt_of_dvd (Nat.dvd_of_mod_eq_zero hn0) hc
  obtain ⟨hdiv, hmod⟩ := column_div_mod f.blockSize_pos hn0 k c
  rw [MatmulFormat.weightAt, MatmulFormat.weightAt, hdiv, hmod, blockAt_eq (h _ hblock)]

/-- The input behind the offset of a rank holds the columns of that rank. -/
theorem inputAt_columns {x x' : ℕ → UInt8} {k n0 : ℕ} (hn0 : n0 % f.blockSize = 0)
    (h : ∀ a, x' a = x (k * (n0 / f.blockSize * f.inputBytes) + a)) (c : ℕ) :
    f.inputAt x' c = f.inputAt x (k * n0 + c) := by
  obtain ⟨hdiv, hmod⟩ := column_div_mod f.blockSize_pos hn0 k c
  have hbytes : blockAt x' f.inputBytes (c / f.blockSize) =
      blockAt x f.inputBytes (k * (n0 / f.blockSize) + c / f.blockSize) := by
    refine blockAt_eq fun i _ => ?_
    rw [h]
    congr 1
    ring
  rw [MatmulFormat.inputAt, MatmulFormat.inputAt, hdiv, hmod, hbytes]

end Shards

/-- Values of all ranks written one after another. -/
theorem foldl_writeCells {α : Type*} (mem : ℕ → α) (base size : ℕ) {xs : ℕ → List α}
    {pieces : ℕ} (h : ∀ k < pieces, (xs k).length = size) :
    (∀ k < pieces, ∀ i < size,
      some ((List.range pieces).foldl (fun mem k => writeCells mem (base + k * size) (xs k)) mem
        (base + (k * size + i))) = (xs k)[i]?) ∧
    ∀ a, a < base ∨ base + pieces * size ≤ a →
      (List.range pieces).foldl (fun mem k => writeCells mem (base + k * size) (xs k)) mem a =
        mem a := by
  induction pieces with
  | zero => exact ⟨fun k hk => absurd hk (Nat.not_lt_zero k), fun a _ => rfl⟩
  | succ pieces ih =>
    obtain ⟨hinside, houtside⟩ := ih fun k hk => h k (Nat.lt_succ_of_lt hk)
    have hlast := h pieces (Nat.lt_succ_self pieces)
    rw [List.range_succ, List.foldl_append, List.foldl_cons, List.foldl_nil]
    constructor
    · intro k hk i hi
      rcases Nat.lt_succ_iff_lt_or_eq.mp hk with hbefore | hsame
      · have hindex := index_lt hbefore hi
        rw [writeCells_outside _ (.inl (by omega))]
        exact hinside k hbefore i hi
      · have hget : (xs pieces)[i]? = some (xs pieces)[i] := List.getElem?_eq_getElem (by omega)
        rw [hsame, ← Nat.add_assoc, writeCells_inside _ hget, hget]
    · intro a ha
      rw [Nat.succ_mul] at ha
      rw [writeCells_outside _ (by omega)]
      exact houtside a (by omega)

section Exact

variable {R : Type*} [AddCommMonoid R] [Mul R] (f : MatmulFormat R)

/-- Every rank writes the product of its rows where its pointer into row `b` of the
batch says. -/
def writeShards (nNodes n d0 : ℕ) (shards : ℕ → List UInt8) (rows : ℕ → List ℕ) (x : ℕ → UInt8)
    (b : ℕ) (mem : ℕ → R) : ℕ → R :=
  (List.range nNodes).foldl (fun mem k =>
    writeCells mem ((rows k).getD b 0 / sizeofFloat) (f.matmul (bytesOf (shards k)) x n d0)) mem

/-- A weight cut by rows. -/
structure RowSharded (nNodes n d : ℕ) (slice : NnRowMatmulSlice) (weight : ℕ → UInt8)
    (shards : ℕ → List UInt8) : Prop where
  /-- The splitter makes these shards. -/
  split : ∀ k < nNodes, splitRowMatmulWeight slice k weight = .ok (shards k)
  /-- A shard has the bytes of its rows. -/
  bytes : ∀ k < nNodes, (shards k).length = getBytes f.weightType (n * slice.d0)
  /-- Every row belongs to one rank. -/
  rows : ∀ r < d, ∃! at0 : ℕ × ℕ, at0.1 < nNodes ∧ at0.2 < slice.d0 ∧
    at0.1 * slice.d0 + at0.2 = r
  /-- A shard holds the rows of its rank. -/
  entries : ∀ k < nNodes, ∀ i < slice.d0, ∀ c < n,
    f.weightAt (bytesOf (shards k)) n i c = f.weightAt weight n (k * slice.d0 + i) c
  /-- The products of the ranks, written through their sliced pointers, are the product
  with the whole weight, and nothing else is written. -/
  concat : ∀ z nBatches, ∃ pointers : ℕ → List ℕ,
    (∀ k < nNodes, resolvePointer nBatches nNodes k .batchedSlice (size3D .f32 z nBatches d) =
      .ok (size3D .f32 z nBatches slice.d0, pointers k)) ∧
    ∀ b < z * nBatches, ∀ (x : ℕ → UInt8) (mem : ℕ → R),
      readCells (writeShards f nNodes n slice.d0 shards pointers x b mem) (b * d) d =
        (List.range d).map (f.mulVec weight x n) ∧
      ∀ a, a < b * d ∨ b * d + d ≤ a →
        writeShards f nNodes n slice.d0 shards pointers x b mem a = mem a

/-- A weight cut by columns. -/
structure ColSharded (nNodes n d : ℕ) (slice : NnColMatmulSlice) (weight : ℕ → UInt8)
    (shards : ℕ → List UInt8) : Prop where
  /-- The splitter makes these shards. -/
  split : ∀ k < nNodes, splitColMatmulWeight slice k weight = .ok (shards k)
  /-- A shard has the bytes of its columns. -/
  bytes : ∀ k < nNodes, (shards k).length = getBytes f.weightType (slice.n0 * d)
  /-- Every column belongs to one rank. -/
  columns : ∀ c < n, ∃! at0 : ℕ × ℕ, at0.1 < nNodes ∧ at0.2 < slice.n0 ∧
    at0.1 * slice.n0 + at0.2 = c
  /-- A shard holds the columns of its rank. -/
  entries : ∀ k < nNodes, ∀ i < d, ∀ c < slice.n0,
    f.weightAt (bytesOf (shards k)) slice.n0 i c = f.weightAt weight n i (k * slice.n0 + c)
  /-- The products of the ranks with their slices of the input add up to the product
  with the whole weight. -/
  sum : ∀ z nBatches, ∃ pointers : ℕ → List ℕ,
    (∀ k < nNodes, resolvePointer nBatches nNodes k .batchedSlice
      (size3D f.inputType z nBatches n) =
        .ok (size3D f.inputType z nBatches slice.n0, pointers k)) ∧
    ∀ b < z * nBatches, ∀ (input : ℕ → UInt8), ∀ i < d,
      ∑ k ∈ Finset.range nNodes, (f.matmul (bytesOf (shards k))
        (fun a => input ((pointers k).getD b 0 + a)) slice.n0 d).getD i 0 =
      f.mulVec weight (fun a => input (b * getBytes f.inputType n + a)) n i

variable {f} {nNodes n d : ℕ}

theorem rowSharded {slice : NnRowMatmulSlice}
    (hslice : sliceRowMatmul f.weightType nNodes n d = .ok slice) (hn : n % f.blockSize = 0)
    (weight : ℕ → UInt8) : ∃ shards, RowSharded f nNodes n d slice weight shards := by
  obtain ⟨hd, htype, hsliceN⟩ := rowSlice_eq hslice
  have hblocks : slice.n % f.blockSize = 0 := by
    rw [hsliceN]
    exact hn
  choose shards hsplit hlength hbytes using fun k =>
    splitRowMatmulWeight_ok (f := f) htype hblocks k weight
  rw [hsliceN] at hlength hbytes
  have hentries (k i : ℕ) (hi : i < slice.d0) (c : ℕ) (hc : c < n) :
      f.weightAt (bytesOf (shards k)) n i c = f.weightAt weight n (k * slice.d0 + i) c :=
    weightAt_rows hn (hbytes k i hi) hc
  have hproduct (k : ℕ) (x : ℕ → UInt8) (i : ℕ) (hi : i < slice.d0) :
      f.mulVec (bytesOf (shards k)) x n i = f.mulVec weight x n (k * slice.d0 + i) :=
    Finset.sum_congr rfl fun c hc => by rw [hentries k i hi c (Finset.mem_range.mp hc)]
  refine ⟨shards, fun k _ => hsplit k, fun k _ => ?_, fun r hr => ?_, fun k _ => hentries k,
    fun z nBatches => ?_⟩
  · have hwhole : WholeBlocks f.weightType (n * slice.d0) :=
      Nat.mod_eq_zero_of_dvd (Nat.dvd_mul_right_of_dvd (Nat.dvd_of_mod_eq_zero hn) slice.d0)
    rw [hlength, getBytes_blocks _ hwhole, Nat.mul_comm n, ← Nat.mul_assoc]
    exact congrArg (· * f.weightBytes) (blocks_mul f.blockSize_pos hn slice.d0).symm
  · exact existsUnique_index (hd ▸ hr)
  · have hpointer (b : ℕ) (hb : b < z * nBatches) (k : ℕ) :
        ((List.range (z * nBatches)).map fun row =>
          row * getBytes .f32 d + getBytes .f32 slice.d0 * k).getD b 0 / sizeofFloat =
            b * d + k * slice.d0 := by
      rw [List.getD_eq_getElem?_getD, List.getElem?_map, List.getElem?_range hb]
      dsimp only [Option.map_some, Option.getD_some, getBytes, sizeofFloat]
      have hfour : b * (4 * d) + 4 * slice.d0 * k = 4 * (b * d + k * slice.d0) := by ring
      rw [hfour, Nat.mul_div_cancel_left _ (by decide)]
    refine ⟨fun k => (List.range (z * nBatches)).map fun row =>
      row * getBytes .f32 d + getBytes .f32 slice.d0 * k, fun k hk => ?_, fun b hb x mem => ?_⟩
    · have hdiv : d / nNodes = slice.d0 := by
        rw [hd, Nat.mul_div_cancel_left _ (by omega)]
      have hdvd : d % nNodes = 0 := Nat.mod_eq_zero_of_dvd ⟨slice.d0, hd⟩
      have hfloat (m : ℕ) : WholeBlocks .f32 m := Nat.mod_one m
      rw [resolvePointer_batchedSlice hdvd (hfloat _) (hfloat _), hdiv]
    · have hxs (k : ℕ) (_ : k < nNodes) :
          (f.matmul (bytesOf (shards k)) x n slice.d0).length = slice.d0 := f.matmul_length _ _ _ _
      obtain ⟨hinside, houtside⟩ := foldl_writeCells mem (b * d) slice.d0 hxs
      unfold writeShards
      simp only [hpointer b hb]
      refine ⟨?_, fun a ha => houtside a (hd ▸ ha)⟩
      refine List.map_congr_left fun r hr => ?_
      obtain ⟨at0, ⟨hk, hi, hindex⟩, -⟩ := existsUnique_index (hd ▸ List.mem_range.mp hr)
      have hcell := hinside at0.1 hk at0.2 hi
      rw [hindex, f.matmul_eq _ _ hn, List.getElem?_map, List.getElem?_range hi] at hcell
      injection hcell with hcell
      rw [hcell, hproduct at0.1 x at0.2 hi, hindex]

theorem colSharded {slice : NnColMatmulSlice}
    (hslice : sliceColMatmul f.weightType nNodes n d = .ok slice)
    (hn0 : slice.n0 % f.blockSize = 0) (weight : ℕ → UInt8) :
    ∃ shards, ColSharded f nNodes n d slice weight shards := by
  obtain ⟨hn, htype, hsliceN, hsliceD⟩ := colSlice_eq hslice
  choose shards hsplit hlength hbytes using fun k =>
    splitColMatmulWeight_ok (f := f) htype hn0 k weight
  rw [hsliceD] at hlength hbytes
  rw [hsliceN] at hbytes
  have hentries (k i : ℕ) (hi : i < d) (c : ℕ) (hc : c < slice.n0) :
      f.weightAt (bytesOf (shards k)) slice.n0 i c = f.weightAt weight n i (k * slice.n0 + c) :=
    weightAt_columns hn0 (hbytes k i hi) hc
  have hwhole : n % f.blockSize = 0 := by
    rw [hn]
    exact Nat.mod_eq_zero_of_dvd (Nat.dvd_mul_left_of_dvd (Nat.dvd_of_mod_eq_zero hn0) nNodes)
  have hblocks (m : ℕ) (hm : m % f.blockSize = 0) : WholeBlocks f.inputType m := by
    unfold WholeBlocks
    rw [f.blockSize_eq]
    exact hm
  have hinput (m : ℕ) (hm : m % f.blockSize = 0) :
      getBytes f.inputType m = m / f.blockSize * f.inputBytes := by
    rw [getBytes_blocks _ (hblocks m hm), f.blockSize_eq]
    rfl
  refine ⟨shards, fun k _ => hsplit k, fun k _ => ?_, fun c hc => ?_, fun k _ => hentries k,
    fun z nBatches => ?_⟩
  · have hall : WholeBlocks f.weightType (slice.n0 * d) :=
      Nat.mod_eq_zero_of_dvd (Nat.dvd_mul_right_of_dvd (Nat.dvd_of_mod_eq_zero hn0) d)
    rw [hlength, getBytes_blocks _ hall, Nat.mul_comm slice.n0, ← Nat.mul_assoc]
    exact congrArg (· * f.weightBytes) (blocks_mul f.blockSize_pos hn0 d).symm
  · exact existsUnique_index (hn ▸ hc)
  · refine ⟨fun k => (List.range (z * nBatches)).map fun row =>
      row * getBytes f.inputType n + getBytes f.inputType slice.n0 * k, fun k hk => ?_,
      fun b hb input i hi => ?_⟩
    · have hdiv : n / nNodes = slice.n0 := by
        rw [hn, Nat.mul_div_cancel_left _ (by omega)]
      have hdvd : n % nNodes = 0 := Nat.mod_eq_zero_of_dvd ⟨slice.n0, hn⟩
      rw [resolvePointer_batchedSlice hdvd (hblocks n hwhole) (hblocks _ (hdiv ▸ hn0)), hdiv]
    · rw [MatmulFormat.mulVec, hn, sum_range_mul, ← hn]
      refine Finset.sum_congr rfl fun k _ => ?_
      rw [f.matmul_eq _ _ hn0, List.getD_eq_getElem?_getD, List.getElem?_map,
        List.getElem?_range hi, List.getD_eq_getElem?_getD, List.getElem?_map,
        List.getElem?_range hb]
      dsimp only [Option.map_some, Option.getD_some]
      refine Finset.sum_congr rfl fun c hc => ?_
      rw [hentries k i hi c (Finset.mem_range.mp hc)]
      congr 1
      refine inputAt_columns hn0 (fun a => ?_) c
      rw [hinput slice.n0 hn0]
      congr 1
      ring

/-- Whatever the weight and the input: shards by rows hold all rows once and their
products make up the product, and shards by columns hold all columns once and their
products add up to it. -/
theorem tensor_parallel_exact (nNodes n d : ℕ) (weight : ℕ → UInt8) :
    (∀ slice, sliceRowMatmul f.weightType nNodes n d = .ok slice → n % f.blockSize = 0 →
      ∃ shards, RowSharded f nNodes n d slice weight shards) ∧
    ∀ slice, sliceColMatmul f.weightType nNodes n d = .ok slice → slice.n0 % f.blockSize = 0 →
      ∃ shards, ColSharded f nNodes n d slice weight shards :=
  ⟨fun _ hslice hn => rowSharded hslice hn weight, fun _ hslice hn0 => colSharded hslice hn0 weight⟩

end Exact

/-- Floats whose value is their first byte. -/
def byteFormat : MatmulFormat ℕ where
  weightType := .f32
  inputType := .f32
  blockSize_eq := rfl
  weightValue block _ := (block.headD 0).toNat
  inputValue block _ := (block.headD 0).toNat

theorem tensor_parallel_exact_two :
    (∃ shards, RowSharded byteFormat 2 2 4
      ⟨.f32, 2, 2, 2, size2D .f32 2 4, size2D .f32 2 2⟩ (fun a => a.toUInt8) shards) ∧
    ∃ shards, ColSharded byteFormat 2 2 4
      ⟨.f32, 2, 2, 1, 4, size2D .f32 2 4, size2D .f32 1 4⟩ (fun a => a.toUInt8) shards := by
  obtain ⟨hrow, hcol⟩ := tensor_parallel_exact (f := byteFormat) 2 2 4 fun a => a.toUInt8
  exact ⟨hrow _ (by decide) (by decide), hcol _ (by decide) (by decide)⟩

end LayerSkip.TensorParallel
