import LayerSkip.NnCpu
import LayerSkip.WeightLoader
import Mathlib.Tactic.Ring

/-!
# What a load delivers

A tensor of the file reaches the nodes that the loader selects, and each of them
gets the part of its tensor rank. A whole file can be handed out just when no
tensor is larger than a 32-bit word can count, every part that is cut consists of
whole blocks and every part that is sent fits the buffer of a worker.
-/

namespace LayerSkip.WeightLoader

open NnTopology NnPipeline NnCore LlmGraph EqualPieces ByteCover

section Sizes

/-- Values of a tensor, without the limit of a word. -/
def values (size : NnSize3D) : ℕ := size.z * size.y * size.x

/-- Bytes of a tensor, without the limit of a word. -/
def fileBytes (size : NnSize3D) : ℕ :=
  match size.floatType with
  | none => 0
  | some floatType => getBytes floatType (values size)

/-- A size that has been computed from its extents. -/
def Sized (size : NnSize3D) : Prop := ∃ floatType z y x, size = size3D floatType z y x

/-- A larger number of values takes more bytes when it does not fit a word. -/
theorem getBytes_mod_lt (floatType : NnFloatType) {v : ℕ} (h : 2 ^ 32 ≤ v) :
    getBytes floatType (v % 2 ^ 32) < getBytes floatType v := by
  have hmod : v % 2 ^ 32 + 2 ^ 32 ≤ v := by omega
  cases floatType with
  | f32 | f16 | q40 | q80 =>
    simp only [getBytes, q80BlockSize]
    omega

theorem Sized.nBytes_le {size : NnSize3D} (h : Sized size) : size.nBytes ≤ fileBytes size := by
  obtain ⟨floatType, z, y, x, rfl⟩ := h
  dsimp only [size3D, fileBytes, values]
  rcases Nat.lt_or_ge (z * y * x) (2 ^ 32) with hlt | hge
  · rw [Nat.mod_eq_of_lt hlt]
  · exact Nat.le_of_lt (getBytes_mod_lt floatType hge)

/-- The bytes are right exactly when a word can count the values. -/
theorem Sized.nBytes_eq_iff {size : NnSize3D} (h : Sized size) :
    size.nBytes = fileBytes size ↔ values size < 2 ^ 32 := by
  obtain ⟨floatType, z, y, x, rfl⟩ := h
  dsimp only [size3D, fileBytes, values]
  constructor
  · intro heq
    rcases Nat.lt_or_ge (z * y * x) (2 ^ 32) with hlt | hge
    · exact hlt
    · have hless := getBytes_mod_lt floatType hge
      omega
  · intro hlt
    rw [Nat.mod_eq_of_lt hlt]

end Sizes

section Slices

namespace NnWeightSlice

/-- A slicer has made this slice. -/
def Cut : NnWeightSlice → Prop
  | .row slice => ∃ type nNodes n d, sliceRowMatmul type nNodes n d = .ok slice
  | .column slice => ∃ type nNodes n d, sliceColMatmul type nNodes n d = .ok slice

/-- Rows that are copied consist of whole blocks. -/
def WholeRows : NnWeightSlice → Prop
  | .row slice => slice.n % getBlockSize slice.type = 0
  | .column slice => slice.n0 % getBlockSize slice.type = 0

/-- Where a byte of a part stands in the weight. -/
def shardByte (slice : NnWeightSlice) (tpRank i : ℕ) : ℕ :=
  match slice with
  | .row slice => tpRank * slice.sliceSize.nBytes + i
  | .column slice =>
    let rowBytes := slice.n / getBlockSize slice.type * getBytes slice.type (getBlockSize slice.type)
    let row0Bytes :=
      slice.n0 / getBlockSize slice.type * getBytes slice.type (getBlockSize slice.type)
    i / row0Bytes * rowBytes + tpRank * row0Bytes + i % row0Bytes

end NnWeightSlice

/-- What the slicer of rows says. -/
theorem sliceRowMatmul_ok {type : NnFloatType} {nNodes n d : ℕ} {slice : NnRowMatmulSlice}
    (h : sliceRowMatmul type nNodes n d = .ok slice) :
    d % nNodes = 0 ∧ WholeBlocks type (n * d % 2 ^ 32) ∧
      WholeBlocks type (n * (d / nNodes) % 2 ^ 32) ∧
      slice = ⟨type, nNodes, d / nNodes, n, size2D type n d, size2D type n (d / nNodes)⟩ := by
  obtain ⟨u, hdvd, h⟩ := bind_eq_ok h
  obtain ⟨v, hsize, h⟩ := bind_eq_ok h
  obtain ⟨w, hslice, h⟩ := bind_eq_ok h
  injection h with h
  exact ⟨require_eq_ok hdvd, require_eq_ok hsize, require_eq_ok hslice, h.symm⟩

/-- What the slicer of columns says. -/
theorem sliceColMatmul_ok {type : NnFloatType} {nNodes n d : ℕ} {slice : NnColMatmulSlice}
    (h : sliceColMatmul type nNodes n d = .ok slice) :
    n % nNodes = 0 ∧ WholeBlocks type (n * d % 2 ^ 32) ∧
      WholeBlocks type (n / nNodes * d % 2 ^ 32) ∧
      slice = ⟨type, nNodes, n, n / nNodes, d, size2D type n d, size2D type (n / nNodes) d⟩ := by
  obtain ⟨u, hdvd, h⟩ := bind_eq_ok h
  obtain ⟨v, hsize, h⟩ := bind_eq_ok h
  obtain ⟨w, hslice, h⟩ := bind_eq_ok h
  injection h with h
  exact ⟨require_eq_ok hdvd, require_eq_ok hsize, require_eq_ok hslice, h.symm⟩

/-- Words wrap at whole blocks. -/
theorem wholeBlocks_mod (type : NnFloatType) (v : ℕ) :
    WholeBlocks type (v % 2 ^ 32) ↔ WholeBlocks type v := by
  cases type with
  | f32 | f16 | q40 | q80 =>
    unfold WholeBlocks
    simp only [getBlockSize, q80BlockSize]
    omega

/-- Bytes of rows of whole blocks. -/
theorem getBytes_rows (type : NnFloatType) {n : ℕ} (d : ℕ) (hn : n % getBlockSize type = 0) :
    getBytes type (n * d) = d * (n / getBlockSize type * getBytes type (getBlockSize type)) := by
  have hdvd := Nat.dvd_of_mod_eq_zero hn
  have hwhole : WholeBlocks type (n * d) := Nat.mod_eq_zero_of_dvd (Dvd.dvd.mul_right hdvd d)
  rw [NnCpu.getBytes_blocks type hwhole, Nat.mul_comm n d, Nat.mul_div_assoc d hdvd, Nat.mul_assoc]

namespace NnWeightSlice

variable {slice : NnWeightSlice}

theorem Cut.sized (h : slice.Cut) : Sized slice.size ∧ Sized slice.sliceSize := by
  cases slice with
  | row slice =>
    obtain ⟨type, nNodes, n, d, h⟩ := h
    obtain ⟨_, _, _, hslice⟩ := sliceRowMatmul_ok h
    rw [hslice]
    exact ⟨⟨type, 1, n, d, Eq.refl _⟩, ⟨type, 1, n, d / nNodes, Eq.refl _⟩⟩
  | column slice =>
    obtain ⟨type, nNodes, n, d, h⟩ := h
    obtain ⟨_, _, _, hslice⟩ := sliceColMatmul_ok h
    rw [hslice]
    exact ⟨⟨type, 1, n, d, Eq.refl _⟩, ⟨type, 1, n / nNodes, d, Eq.refl _⟩⟩

/-- A part has no more values than the weight. -/
theorem Cut.values_le (h : slice.Cut) : values slice.sliceSize ≤ values slice.size := by
  cases slice with
  | row slice =>
    obtain ⟨type, nNodes, n, d, h⟩ := h
    obtain ⟨_, _, _, hslice⟩ := sliceRowMatmul_ok h
    rw [hslice]
    exact Nat.mul_le_mul_left (1 * n) (Nat.div_le_self d nNodes)
  | column slice =>
    obtain ⟨type, nNodes, n, d, h⟩ := h
    obtain ⟨_, _, _, hslice⟩ := sliceColMatmul_ok h
    rw [hslice]
    exact Nat.mul_le_mul_right d (Nat.mul_le_mul_left 1 (Nat.div_le_self n nNodes))

/-- Copying a part takes its bytes out of the weight in order. -/
theorem Cut.split_ok (h : slice.Cut) (hvalues : values slice.size < 2 ^ 32)
    (hrows : slice.WholeRows) (tpRank : ℕ) (weight : ℕ → UInt8) : slice.split tpRank weight =
      .ok ((List.range slice.sliceSize.nBytes).map fun i => weight (slice.shardByte tpRank i)) := by
  have hless := Nat.lt_of_le_of_lt h.values_le hvalues
  cases slice with
  | row slice =>
    obtain ⟨type, nNodes, n, d, h⟩ := h
    obtain ⟨_, _, _, hslice⟩ := sliceRowMatmul_ok h
    subst hslice
    simp only [values, NnWeightSlice.sliceSize, size2D, size3D, Nat.one_mul] at hless
    simp only [NnWeightSlice.WholeRows] at hrows
    have hbytes := getBytes_rows type (d / nNodes) hrows
    simp only [NnWeightSlice.split, splitRowMatmulWeight, require, hrows, if_true, bind, Except.bind,
      pure, Except.pure, NnWeightSlice.sliceSize, NnWeightSlice.shardByte, size2D, size3D,
      Nat.one_mul, Nat.mod_eq_of_lt hless, hbytes]
    generalize getBytes type (getBlockSize type) = batchBytes
    generalize n / getBlockSize type = blocks
    generalize d / nNodes = d0
    congr 1
    have hinner (row : ℕ) : ((List.range blocks).flatMap fun j => (List.range batchBytes).map fun i =>
        weight (d0 * tpRank * blocks * batchBytes + (row * blocks + j) * batchBytes + i)) =
          (List.range (blocks * batchBytes)).map fun place =>
            weight (tpRank * (d0 * (blocks * batchBytes)) + (row * (blocks * batchBytes) + place)) := by
      rw [← flatMap_range_map]
      refine List.flatMap_congr fun j _ => List.map_congr_left fun i _ => ?_
      congr 1
      ring
    rw [List.flatMap_congr fun row _ => hinner row]
    exact flatMap_range_map
      (fun place => weight (tpRank * (d0 * (blocks * batchBytes)) + place)) d0 (blocks * batchBytes)
  | column slice =>
    obtain ⟨type, nNodes, n, d, h⟩ := h
    obtain ⟨_, _, _, hslice⟩ := sliceColMatmul_ok h
    subst hslice
    simp only [values, NnWeightSlice.sliceSize, size2D, size3D, Nat.one_mul] at hless
    simp only [NnWeightSlice.WholeRows] at hrows
    have hbytes := getBytes_rows type d hrows
    simp only [NnWeightSlice.split, splitColMatmulWeight, require, hrows, if_true, bind, Except.bind,
      pure, Except.pure, NnWeightSlice.sliceSize, NnWeightSlice.shardByte, size2D, size3D,
      Nat.one_mul, Nat.mod_eq_of_lt hless, hbytes]
    generalize n / getBlockSize type * getBytes type (getBlockSize type) = rowBytes
    generalize n / nNodes / getBlockSize type * getBytes type (getBlockSize type) = row0Bytes
    congr 1
    rw [← flatMap_range_map]
    refine List.flatMap_congr fun row _ => List.map_congr_left fun i hi => ?_
    have hplace := List.mem_range.mp hi
    rw [index_div row hplace, index_mod row hplace, Nat.mul_comm rowBytes row]

/-- Rows of other lengths cannot be copied. -/
theorem wholeRows_of_split {tpRank : ℕ} {weight : ℕ → UInt8} {shard : List UInt8}
    (h : slice.split tpRank weight = .ok shard) : slice.WholeRows := by
  cases slice with
  | row slice =>
    obtain ⟨u, hcheck, _⟩ := bind_eq_ok h
    have hrows := require_eq_ok hcheck
    exact hrows
  | column slice =>
    obtain ⟨u, hcheck, _⟩ := bind_eq_ok h
    have hrows := require_eq_ok hcheck
    exact hrows

/-- A single rank has the whole weight. -/
theorem Cut.shardByte_single (h : slice.Cut) (hsingle : slice.tpSize = 1) (i : ℕ) :
    slice.shardByte 0 i = i ∧ slice.sliceSize = slice.size := by
  cases slice with
  | row slice =>
    obtain ⟨type, nNodes, n, d, h⟩ := h
    obtain ⟨_, _, _, hslice⟩ := sliceRowMatmul_ok h
    subst hslice
    simp only [NnWeightSlice.tpSize] at hsingle
    subst hsingle
    simp only [NnWeightSlice.shardByte, NnWeightSlice.sliceSize, NnWeightSlice.size, Nat.zero_mul,
      Nat.zero_add, Nat.div_one, and_self]
  | column slice =>
    obtain ⟨type, nNodes, n, d, h⟩ := h
    obtain ⟨_, _, _, hslice⟩ := sliceColMatmul_ok h
    subst hslice
    simp only [NnWeightSlice.tpSize] at hsingle
    subst hsingle
    simp only [NnWeightSlice.shardByte, NnWeightSlice.sliceSize, NnWeightSlice.size, Nat.zero_mul,
      Nat.add_zero, Nat.div_one, Nat.div_add_mod', and_self]

end NnWeightSlice

end Slices

namespace WeightSource

/-- What a node gets. -/
def partSize : WeightSource → NnSize3D
  | .root size => size
  | .all size => size
  | .slices slice _ => slice.sliceSize

/-- Where a byte of a part stands in the tensor. -/
def shardByte (source : WeightSource) (tpRank i : ℕ) : ℕ :=
  match source with
  | .root _ => i
  | .all _ => i
  | .slices slice _ => slice.shardByte tpRank i

/-- The stage whose nodes get a part, none for all stages. -/
def owner (source : WeightSource) (loader : NnRootWeightLoader) (opIndex : ℕ) : Option ℕ :=
  match source with
  | .root _ => none
  | .all _ => none
  | .slices (.row _) _ => getLayerOwnerPpRank opIndex loader.nLayers loader.ppSize
  | .slices (.column _) overridePpRank =>
    overridePpRank.or (getLayerOwnerPpRank opIndex loader.nLayers loader.ppSize)

/-- A node gets a part. -/
def Reaches (source : WeightSource) (loader : NnRootWeightLoader) (opIndex nodeIndex : ℕ) : Prop :=
  match source with
  | .root _ => nodeIndex = 0
  | .all _ => True
  | .slices slice _ => loader.nNodes = 1 ∨
      ∀ owner ∈ source.owner loader opIndex, nodeInPpStage nodeIndex owner slice.tpSize

instance (source : WeightSource) (loader : NnRootWeightLoader) (opIndex : ℕ) :
    DecidablePred (source.Reaches loader opIndex) := fun nodeIndex =>
  match source with
  | .root _ => inferInstanceAs (Decidable (nodeIndex = 0))
  | .all _ => inferInstanceAs (Decidable True)
  | .slices slice rank => inferInstanceAs (Decidable (loader.nNodes = 1 ∨
      ∀ owner ∈ (slices slice rank).owner loader opIndex,
        nodeInPpStage nodeIndex owner slice.tpSize))

/-- What is copied row by row consists of whole blocks. -/
def WholeRows : WeightSource → Prop
  | .root _ => True
  | .all _ => True
  | .slices slice _ => slice.WholeRows

end WeightSource

namespace WeightLoad

/-- A load of a graph: slices are cut for the tensor ranks, only they have experts. -/
def Proper (load : WeightLoad) (tpSize : ℕ) : Prop :=
  match load.source with
  | .root size => Sized size ∧ load.expertIndex = 0
  | .all size => Sized size ∧ load.expertIndex = 0
  | .slices slice _ => slice.Cut ∧ slice.tpSize = tpSize

/-- The part for a tensor rank. -/
def record (load : WeightLoad) (tpRank : ℕ) (weight : ℕ → UInt8) : WeightRecord where
  opName := load.opName
  opIndex := load.opIndex
  offset := pieceStart load.source.partSize.nBytes (2 ^ 32) load.expertIndex
  weight := (List.range load.source.partSize.nBytes).map fun i =>
    weight (load.source.shardByte tpRank i)

/-- The parts for the nodes that get one. -/
def parts (load : WeightLoad) (loader : NnRootWeightLoader) (tpSize : ℕ) (weight : ℕ → UInt8) :
    List (ℕ × WeightRecord) :=
  ((List.range loader.nNodes).filter fun nodeIndex =>
    load.source.Reaches loader load.opIndex nodeIndex).map fun nodeIndex =>
      (nodeIndex, load.record (nodeIndex % tpSize) weight)

/-- The parts can be copied for all nodes that get one. -/
def CanSplit (load : WeightLoad) (loader : NnRootWeightLoader) : Prop :=
  ∀ nodeIndex < loader.nNodes, load.source.Reaches loader load.opIndex nodeIndex →
    loader.nNodes = 1 ∨ load.source.WholeRows

end WeightLoad

theorem le_allocate (tempSize size : ℕ) : size ≤ allocate tempSize size := by
  unfold allocate
  split <;> omega

section Tensors

variable {loader : NnRootWeightLoader} {tpSize : ℕ}

/-- Slices by rows and by columns are handed out the same way. -/
theorem load_slices {load : WeightLoad} {slice : NnWeightSlice} {rank : Option ℕ}
    (h : load.source = .slices slice rank) (weight : ℕ → UInt8) (tempSize : ℕ) :
    load.load loader weight tempSize =
      loadSlices loader load.opName load.opIndex slice load.expertIndex
        (load.source.owner loader load.opIndex) weight tempSize := by
  unfold WeightLoad.load
  rw [h]
  cases slice <;> exact Eq.refl _

/-- A tensor whose parts can be copied is handed out. -/
theorem load_of_canSplit {load : WeightLoad} (hproper : load.Proper tpSize)
    (hpos : 0 < loader.nNodes) (hsingle : loader.nNodes = 1 → tpSize = 1)
    (hvalues : values load.source.size < 2 ^ 32) (hsplit : load.CanSplit loader)
    (weight : ℕ → UInt8) (tempSize : ℕ) :
    ∃ room, load.load loader weight tempSize = .ok (load.parts loader tpSize weight, room) := by
  obtain ⟨opName, opIndex, expertIndex, source⟩ := load
  cases source with
  | root size =>
    have hexpert : expertIndex = 0 := hproper.2
    refine ⟨tempSize, ?_⟩
    subst hexpert
    have hnode : ((List.range loader.nNodes).filter fun nodeIndex =>
        decide ((WeightSource.root size).Reaches loader opIndex nodeIndex)) = [0] :=
      filter_range_eq hpos fun i _ => decide_eq_true_iff
    unfold WeightLoad.parts
    dsimp only
    rw [hnode, List.map_singleton]
    simp only [WeightLoad.load, loadRoot, WeightLoad.record, WeightSource.partSize,
      WeightSource.shardByte, pieceStart, Nat.zero_mul, Nat.zero_mod, firstBytes]
  | all size =>
    have hexpert : expertIndex = 0 := hproper.2
    refine ⟨tempSize, ?_⟩
    subst hexpert
    have hnode : ((List.range loader.nNodes).filter fun nodeIndex =>
        decide ((WeightSource.all size).Reaches loader opIndex nodeIndex)) =
          List.range loader.nNodes :=
      List.filter_eq_self.mpr fun i _ => decide_eq_true trivial
    unfold WeightLoad.parts
    dsimp only
    rw [hnode]
    simp only [WeightLoad.load, loadAll, WeightLoad.record, WeightSource.partSize,
      WeightSource.shardByte, pieceStart, Nat.zero_mul, Nat.zero_mod, firstBytes]
  | slices slice rank =>
    have hcut : slice.Cut := hproper.1
    have htp : slice.tpSize = tpSize := hproper.2
    rw [load_slices (Eq.refl _)]
    unfold loadSlices
    by_cases hone : loader.nNodes = 1
    · have hshard (i : ℕ) := (hcut.shardByte_single (htp.trans (hsingle hone)) i).1
      have hreach : ∀ nodeIndex, WeightSource.Reaches (.slices slice rank) loader opIndex nodeIndex :=
        fun _ => Or.inl hone
      rw [if_pos hone]
      refine ⟨tempSize, ?_⟩
      unfold WeightLoad.parts
      rw [List.filter_eq_self.mpr fun i _ => decide_eq_true (hreach i), hone]
      simp only [List.range_one, List.map_singleton, Nat.zero_mod, WeightLoad.record,
        WeightSource.partSize, WeightSource.shardByte, hshard, firstBytes, pieceStart]
    · rw [if_neg hone]
      refine ⟨allocate tempSize slice.sliceSize.nBytes, ?_⟩
      have hfilter : ((List.range loader.nNodes).filter fun nodeIndex =>
          decide (∀ owner ∈ (WeightSource.slices slice rank).owner loader opIndex,
            nodeInPpStage nodeIndex owner slice.tpSize)) =
          (List.range loader.nNodes).filter fun nodeIndex =>
            decide (WeightSource.Reaches (.slices slice rank) loader opIndex nodeIndex) := by
        refine List.filter_congr fun nodeIndex _ => decide_eq_decide.mpr ?_
        exact ⟨Or.inr, fun h => h.resolve_left hone⟩
      dsimp only
      rw [hfilter, mapM_of_ok (g := fun nodeIndex => (nodeIndex, WeightLoad.record
        ⟨opName, opIndex, expertIndex, .slices slice rank⟩ (nodeIndex % tpSize) weight))]
      · exact Eq.refl _
      · intro nodeIndex hnode
        have hin := List.mem_filter.mp hnode
        have hrows : slice.WholeRows :=
          (hsplit nodeIndex (List.mem_range.mp hin.1) (of_decide_eq_true hin.2)).resolve_left hone
        rw [hcut.split_ok hvalues hrows, htp]
        dsimp only [bind, Except.bind]
        have hlength : ((List.range slice.sliceSize.nBytes).map fun i =>
            weight (slice.shardByte (nodeIndex % tpSize) i)).length = slice.sliceSize.nBytes := by
          rw [List.length_map, List.length_range]
        rw [hlength, require, if_pos (le_allocate _ _)]
        dsimp only
        rw [List.take_of_length_le (Nat.le_of_eq hlength)]
        exact Eq.refl _

/-- A tensor that is handed out could be copied. -/
theorem canSplit_of_load {load : WeightLoad} {weight : ℕ → UInt8} {tempSize : ℕ}
    {result : List (ℕ × WeightRecord) × ℕ} (h : load.load loader weight tempSize = .ok result) :
    load.CanSplit loader := by
  intro nodeIndex hlt hreach
  by_cases hone : loader.nNodes = 1
  · exact Or.inl hone
  · refine Or.inr ?_
    cases hsource : load.source with
    | root size => trivial
    | all size => trivial
    | slices slice rank =>
      rw [load_slices hsource] at h
      unfold loadSlices at h
      rw [if_neg hone] at h
      obtain ⟨records, hrecords, _⟩ := bind_eq_ok h
      rw [hsource] at hreach
      have howner : ∀ owner ∈ (WeightSource.slices slice rank).owner loader load.opIndex,
          nodeInPpStage nodeIndex owner slice.tpSize := hreach.resolve_left hone
      have hmem : nodeIndex ∈ (List.range loader.nNodes).filter fun nodeIndex =>
          decide (∀ owner ∈ load.source.owner loader load.opIndex,
            nodeInPpStage nodeIndex owner slice.tpSize) := by
        rw [hsource]
        exact List.mem_filter.mpr ⟨List.mem_range.mpr hlt, decide_eq_true howner⟩
      obtain ⟨i, hi⟩ := List.getElem?_of_mem hmem
      obtain ⟨_, _, hstep⟩ := (mapM_eq_ok hrecords).2 i nodeIndex hi
      obtain ⟨shard, hshard, _⟩ := bind_eq_ok hstep
      exact NnWeightSlice.wholeRows_of_split hshard

/-- Tensors with the bytes at which they start in the file. -/
def placed (b : ℕ) : List WeightLoad → List (ℕ × WeightLoad)
  | [] => []
  | load :: loads => (b, load) :: placed (b + fileBytes load.source.size) loads

theorem map_snd_placed (b : ℕ) (loads : List WeightLoad) :
    (placed b loads).map Prod.snd = loads := by
  induction loads generalizing b with
  | nil => rfl
  | cons load loads ih => rw [placed, List.map_cons, ih]

theorem mem_of_mem_placed {b : ℕ} {loads : List WeightLoad} {at0 : ℕ × WeightLoad}
    (h : at0 ∈ placed b loads) : at0.2 ∈ loads := by
  rw [← map_snd_placed b loads]
  exact List.mem_map_of_mem h

/-- The loader ends where the sizes it knows add up to. -/
theorem loadTensors_last {data : ℕ → UInt8} {loads : List WeightLoad} {b tempSize last : ℕ}
    {records : List (ℕ × WeightRecord)}
    (h : loadTensors loader data loads b tempSize = .ok (records, last)) :
    last = b + (loads.map fun load => load.source.size.nBytes).sum := by
  induction loads generalizing b tempSize records last with
  | nil =>
    injection h with h
    injection h with _ h
    exact h.symm
  | cons load loads ih =>
    obtain ⟨⟨first, room⟩, _, h⟩ := bind_eq_ok h
    obtain ⟨⟨rest, last'⟩, hrest, h⟩ := bind_eq_ok h
    injection h with h
    injection h with _ h
    rw [← h, ih hrest, List.map_cons, List.sum_cons, Nat.add_assoc]

/-- What can be copied is handed out. -/
theorem loadTensors_of_canSplit (data : ℕ → UInt8) {loads : List WeightLoad}
    (hpos : 0 < loader.nNodes) (hsingle : loader.nNodes = 1 → tpSize = 1)
    (hproper : ∀ load ∈ loads, load.Proper tpSize ∧ Sized load.source.size)
    (hvalues : ∀ load ∈ loads, values load.source.size < 2 ^ 32)
    (hsplit : ∀ load ∈ loads, load.CanSplit loader) (b tempSize : ℕ) :
    ∃ last, loadTensors loader data loads b tempSize =
      .ok ((placed b loads).flatMap fun at0 =>
        at0.2.parts loader tpSize fun i => data (at0.1 + i), last) := by
  induction loads generalizing b tempSize with
  | nil => exact ⟨b, Eq.refl _⟩
  | cons load loads ih =>
    have hmem := List.mem_cons_self (a := load) (l := loads)
    have htail (l : WeightLoad) (hl : l ∈ loads) := List.mem_cons_of_mem load hl
    obtain ⟨room, hload⟩ := load_of_canSplit (hproper load hmem).1 hpos hsingle (hvalues load hmem)
      (hsplit load hmem) (fun i => data (b + i)) tempSize
    have hbytes := ((hproper load hmem).2.nBytes_eq_iff).mpr (hvalues load hmem)
    obtain ⟨last, hrest⟩ := ih (fun l hl => hproper l (htail l hl)) (fun l hl => hvalues l (htail l hl))
      (fun l hl => hsplit l (htail l hl)) (b + load.source.size.nBytes) room
    refine ⟨last, ?_⟩
    rw [loadTensors, hload]
    dsimp only [bind, Except.bind]
    rw [hrest, placed, List.flatMap_cons, hbytes]
    exact Eq.refl _

/-- What is handed out could be copied. -/
theorem canSplit_of_loadTensors {data : ℕ → UInt8} {loads : List WeightLoad} {b tempSize : ℕ}
    {result : List (ℕ × WeightRecord) × ℕ}
    (h : loadTensors loader data loads b tempSize = .ok result) :
    ∀ load ∈ loads, load.CanSplit loader := by
  induction loads generalizing b tempSize result with
  | nil => exact fun _ hmem => absurd hmem List.not_mem_nil
  | cons load loads ih =>
    obtain ⟨first, hload, h⟩ := bind_eq_ok h
    obtain ⟨rest, hrest, _⟩ := bind_eq_ok h
    intro l hl
    cases List.mem_cons.mp hl with
    | inl heq => exact heq ▸ canSplit_of_load hload
    | inr htail => exact ih hrest l htail

/-- Sums of smaller numbers are equal only when the numbers are. -/
theorem eq_of_sum_eq {α : Type} {f g : α → ℕ} {l : List α} (hle : ∀ a ∈ l, f a ≤ g a)
    (hsum : (l.map f).sum = (l.map g).sum) : ∀ a ∈ l, f a = g a := by
  induction l with
  | nil => exact fun _ hmem => absurd hmem List.not_mem_nil
  | cons a l ih =>
    have htail (c : α) (hc : c ∈ l) := hle c (List.mem_cons_of_mem a hc)
    have hhead := hle a List.mem_cons_self
    have hrest := List.sum_le_sum htail
    rw [List.map_cons, List.map_cons, List.sum_cons, List.sum_cons] at hsum
    intro c hc
    cases List.mem_cons.mp hc with
    | inl heq =>
      rw [heq]
      omega
    | inr hmem => exact ih htail (by omega) c hmem

/-- A file that consists of the tensors of a graph. -/
def MmapFile.Of (file : MmapFile) (net : LlmNet) : Prop :=
  file.fileSize = file.headerSize + ((loads net).map fun load => fileBytes load.source.size).sum

/-- Parts of all tensors. -/
def allParts (loader : NnRootWeightLoader) (tpSize : ℕ) (file : MmapFile) (loads : List WeightLoad) :
    List (ℕ × WeightRecord) :=
  (placed file.headerSize loads).flatMap fun at0 =>
    at0.2.parts loader tpSize fun i => file.data (at0.1 + i)

/-- A file is handed out exactly when a word can count the values of each tensor and
the parts can be copied. -/
theorem loadLlmNetWeight_eq_ok_iff {net : LlmNet} {file : MmapFile}
    (loader : NnRootWeightLoader) (hfile : file.Of net)
    (hpos : 0 < loader.nNodes) (hsingle : loader.nNodes = 1 → tpSize = 1)
    (hproper : ∀ load ∈ loads net, load.Proper tpSize ∧ Sized load.source.size)
    (records : List (ℕ × WeightRecord)) :
    loadLlmNetWeight loader net file = .ok records ↔
      (∀ load ∈ loads net, values load.source.size < 2 ^ 32) ∧
      (∀ load ∈ loads net, load.CanSplit loader) ∧
      records = allParts loader tpSize file (loads net) := by
  constructor
  · intro h
    obtain ⟨⟨emitted, last⟩, htensors, h⟩ := bind_eq_ok h
    obtain ⟨u, hmissing, h⟩ := bind_eq_ok h
    injection h with h
    have hlast := loadTensors_last htensors
    have hend := require_eq_ok hmissing
    have hsum : ((loads net).map fun load => load.source.size.nBytes).sum =
        ((loads net).map fun load => fileBytes load.source.size).sum := by
      have hsize : file.fileSize = _ := hfile
      omega
    have hvalues : ∀ load ∈ loads net, values load.source.size < 2 ^ 32 := fun load hmem =>
      ((hproper load hmem).2.nBytes_eq_iff).mp
        (eq_of_sum_eq (fun l hl => (hproper l hl).2.nBytes_le) hsum load hmem)
    have hsplit := canSplit_of_loadTensors htensors
    obtain ⟨last', hall⟩ := loadTensors_of_canSplit file.data hpos hsingle hproper hvalues
      hsplit file.headerSize 0
    rw [hall] at htensors
    injection htensors with htensors
    injection htensors with hrecords _
    exact ⟨hvalues, hsplit, h ▸ hrecords.symm⟩
  · intro hboth
    obtain ⟨hvalues, hsplit, hrecords⟩ := hboth
    obtain ⟨last, hall⟩ := loadTensors_of_canSplit file.data hpos hsingle hproper hvalues
      hsplit file.headerSize 0
    have hlast := loadTensors_last hall
    have hbytes : ((loads net).map fun load => load.source.size.nBytes) =
        (loads net).map fun load => fileBytes load.source.size :=
      List.map_congr_left fun load hmem =>
        ((hproper load hmem).2.nBytes_eq_iff).mpr (hvalues load hmem)
    have hend : last = file.fileSize := by
      rw [hlast, hbytes]
      exact Eq.symm hfile
    unfold loadLlmNetWeight
    rw [hall]
    dsimp only [bind, Except.bind]
    rw [require, if_pos hend, hrecords]
    exact Eq.refl _

/-- Parts for one node. -/
theorem recordsOf_allParts {file : MmapFile} {nodeIndex : ℕ} (hlt : nodeIndex < loader.nNodes)
    (loads : List WeightLoad) : recordsOf nodeIndex (allParts loader tpSize file loads) =
      ((placed file.headerSize loads).filter fun at0 =>
        at0.2.source.Reaches loader at0.2.opIndex nodeIndex).map fun at0 =>
          at0.2.record (nodeIndex % tpSize) fun i => file.data (at0.1 + i) := by
  unfold recordsOf allParts
  rw [List.filter_flatMap, List.map_flatMap]
  generalize placed file.headerSize loads = tensors
  induction tensors with
  | nil => rfl
  | cons at0 tensors ih =>
    rw [List.flatMap_cons, ih]
    unfold WeightLoad.parts
    rw [List.filter_map, List.filter_filter]
    by_cases hreach : at0.2.source.Reaches loader at0.2.opIndex nodeIndex
    · have hone : ((List.range loader.nNodes).filter fun i =>
          ((fun record : ℕ × WeightRecord => decide (record.1 = nodeIndex)) ∘ fun nodeIndex =>
            (nodeIndex, at0.2.record (nodeIndex % tpSize) fun i => file.data (at0.1 + i))) i &&
          decide (at0.2.source.Reaches loader at0.2.opIndex i)) = [nodeIndex] := by
        refine filter_range_eq hlt fun i _ => ?_
        rw [Bool.and_eq_true, decide_eq_true_iff]
        constructor
        · intro h
          exact of_decide_eq_true h.1
        · intro h
          exact ⟨decide_eq_true h, h ▸ hreach⟩
      rw [hone, List.filter_cons_of_pos (by simpa using hreach)]
      exact Eq.refl _
    · have hnone : ((List.range loader.nNodes).filter fun i =>
          ((fun record : ℕ × WeightRecord => decide (record.1 = nodeIndex)) ∘ fun nodeIndex =>
            (nodeIndex, at0.2.record (nodeIndex % tpSize) fun i => file.data (at0.1 + i))) i &&
          decide (at0.2.source.Reaches loader at0.2.opIndex i)) = [] := by
        rw [List.filter_eq_nil_iff]
        intro i _ h
        rw [Bool.and_eq_true, decide_eq_true_iff] at h
        have hi : i = nodeIndex := of_decide_eq_true h.1
        exact hreach (hi ▸ h.2)
      rw [hnone, List.filter_cons_of_neg (by simpa using hreach)]
      exact Eq.refl _

end Tensors

end LayerSkip.WeightLoader
