import LayerSkip.TileGrid

/-!
# Tiles of the product of the processor

`llamafile_sgemm` cuts the product into tiles of a few rows and columns, as many as the registers
hold, and what is left over into smaller ones. The tiles of one size are dealt out to the threads.
The classes share the recursion and differ in their tables of tiles. With every table the threads
compute each cell of the product once.
-/

namespace LayerSkip.SgemmTiles

open TileGrid

/-- What the compiler defines for a processor. -/
structure Target where
  /-- `__AVX512F__`. -/
  avx512f : Bool
  /-- `__AVX__`. -/
  avx : Bool
  /-- `__AVX2__`. -/
  avx2 : Bool
  /-- `__F16C__`. -/
  f16c : Bool
  /-- `__AVXVNNI__`, or `__AVX512VNNI__` with `__AVX512VL__`. -/
  vnni : Bool
  /-- `__ARM_NEON`. -/
  neon : Bool
  /-- `__ARM_FEATURE_FP16_VECTOR_ARITHMETIC`. -/
  fp16Vector : Bool
  /-- `__ARM_FEATURE_DOTPROD`. -/
  dotprod : Bool
  /-- `_MSC_VER`. -/
  msc : Bool
  deriving DecidableEq, Repr

/-- `VECTOR_REGISTERS`. -/
def Target.vectorRegisters (t : Target) : ℕ := if t.neon || t.avx512f then 32 else 16

section Tiles

/-- A choice of tiles for what is left of the rows and columns, both cut off at a size. -/
structure Tiles (cap : ℕ) (pick : ℕ → ℕ → Option (ℕ × ℕ)) : Prop where
  /-- Something is left after the cut. -/
  cap_pos : 0 < cap
  /-- There is a tile as long as something is left. -/
  total : ∀ rows ≤ cap, ∀ columns ≤ cap, 0 < rows → 0 < columns → (pick rows columns).isSome
  /-- A tile is not larger than what is left. -/
  fits : ∀ rows columns mc nc, pick rows columns = some (mc, nc) →
    0 < mc ∧ mc ≤ rows ∧ 0 < nc ∧ nc ≤ columns

/-- The table of a class. -/
structure TileTable where
  /-- Where rows and columns are cut off. -/
  cap : ℕ
  /-- The tile, if anything is left. -/
  pick : ℕ → ℕ → Option (ℕ × ℕ)
  /-- Tiles fit. -/
  tiles : Tiles cap pick

/-- `tinyBLAS::mnpack` with 32 registers. -/
def tinyBLASPick32 : ℕ → ℕ → Option (ℕ × ℕ)
  | 5, 5 => some (5, 5)
  | 4, 5 => some (4, 5)
  | 5, 4 => some (5, 4)
  | 4, 4 => some (4, 4)
  | 5, 3 => some (5, 3)
  | 3, 5 => some (3, 5)
  | 4, 3 => some (4, 3)
  | 3, 4 => some (3, 4)
  | 5, 2 => some (5, 2)
  | 3, 3 => some (3, 3)
  | 2, 5 => some (2, 5)
  | 4, 2 => some (4, 2)
  | 2, 4 => some (2, 4)
  | 3, 2 => some (3, 2)
  | 2, 3 => some (2, 3)
  | 5, 1 => some (5, 1)
  | 4, 1 => some (4, 1)
  | 2, 2 => some (2, 2)
  | 1, 5 => some (1, 5)
  | 1, 4 => some (1, 4)
  | 3, 1 => some (3, 1)
  | 1, 3 => some (1, 3)
  | 2, 1 => some (2, 1)
  | 1, 2 => some (1, 2)
  | 1, 1 => some (1, 1)
  | _, _ => none

/-- `tinyBLAS::mnpack` with 16 registers. -/
def tinyBLASPick16 : ℕ → ℕ → Option (ℕ × ℕ)
  | 5, 5 => some (4, 3)
  | 5, 4 => some (4, 3)
  | 5, 3 => some (4, 3)
  | 4, 5 => some (4, 3)
  | 4, 4 => some (4, 3)
  | 4, 3 => some (4, 3)
  | 3, 5 => some (3, 4)
  | 3, 4 => some (3, 4)
  | 5, 2 => some (5, 2)
  | 3, 3 => some (3, 3)
  | 2, 5 => some (2, 5)
  | 4, 2 => some (4, 2)
  | 2, 4 => some (2, 4)
  | 3, 2 => some (3, 2)
  | 2, 3 => some (2, 3)
  | 5, 1 => some (5, 1)
  | 4, 1 => some (4, 1)
  | 2, 2 => some (2, 2)
  | 1, 5 => some (1, 5)
  | 1, 4 => some (1, 4)
  | 3, 1 => some (3, 1)
  | 1, 3 => some (1, 3)
  | 2, 1 => some (2, 1)
  | 1, 2 => some (1, 2)
  | 1, 1 => some (1, 1)
  | _, _ => none

/-- `tinyBLAS_Q0_ARM::mnpack`. -/
def tinyBLAS_Q0_ARMPick : ℕ → ℕ → Option (ℕ × ℕ)
  | 3, 3 => some (3, 3)
  | 3, 2 => some (3, 2)
  | 2, 3 => some (2, 3)
  | 2, 2 => some (2, 2)
  | 3, 1 => some (3, 1)
  | 1, 3 => some (1, 3)
  | 2, 1 => some (2, 1)
  | 1, 2 => some (1, 2)
  | 1, 1 => some (1, 1)
  | _, _ => none

/-- `tinyBLAS_Q0_AVX2::mnpack` with 32 registers. -/
def tinyBLAS_Q0_AVX2Pick32 : ℕ → ℕ → Option (ℕ × ℕ)
  | 4, 4 => some (4, 4)
  | 4, 3 => some (4, 3)
  | 3, 4 => some (3, 4)
  | 3, 3 => some (3, 3)
  | 4, 2 => some (4, 2)
  | 2, 4 => some (2, 4)
  | 3, 2 => some (3, 2)
  | 2, 3 => some (2, 3)
  | 4, 1 => some (4, 1)
  | 2, 2 => some (2, 2)
  | 1, 4 => some (1, 4)
  | 3, 1 => some (3, 1)
  | 1, 3 => some (1, 3)
  | 2, 1 => some (2, 1)
  | 1, 2 => some (1, 2)
  | 1, 1 => some (1, 1)
  | _, _ => none

/-- `tinyBLAS_Q0_AVX2::mnpack` with 16 registers. -/
def tinyBLAS_Q0_AVX2Pick16 : ℕ → ℕ → Option (ℕ × ℕ)
  | 4, 4 => some (4, 2)
  | 4, 3 => some (4, 2)
  | 4, 2 => some (4, 2)
  | 3, 4 => some (2, 4)
  | 2, 4 => some (2, 4)
  | 3, 3 => some (3, 2)
  | 3, 2 => some (3, 2)
  | 2, 3 => some (2, 3)
  | 4, 1 => some (4, 1)
  | 2, 2 => some (2, 2)
  | 1, 4 => some (1, 4)
  | 3, 1 => some (3, 1)
  | 1, 3 => some (1, 3)
  | 2, 1 => some (2, 1)
  | 1, 2 => some (1, 2)
  | 1, 1 => some (1, 1)
  | _, _ => none

theorem tiles_tinyBLASPick32 : Tiles 5 tinyBLASPick32 := by
  constructor
  · decide
  · decide
  · intro rows columns mc nc h
    unfold tinyBLASPick32 at h
    split at h <;> cases h <;> decide

theorem tiles_tinyBLASPick16 : Tiles 5 tinyBLASPick16 := by
  constructor
  · decide
  · decide
  · intro rows columns mc nc h
    unfold tinyBLASPick16 at h
    split at h <;> cases h <;> decide

theorem tiles_tinyBLAS_Q0_ARMPick : Tiles 3 tinyBLAS_Q0_ARMPick := by
  constructor
  · decide
  · decide
  · intro rows columns mc nc h
    unfold tinyBLAS_Q0_ARMPick at h
    split at h <;> cases h <;> decide

theorem tiles_tinyBLAS_Q0_AVX2Pick32 : Tiles 4 tinyBLAS_Q0_AVX2Pick32 := by
  constructor
  · decide
  · decide
  · intro rows columns mc nc h
    unfold tinyBLAS_Q0_AVX2Pick32 at h
    split at h <;> cases h <;> decide

theorem tiles_tinyBLAS_Q0_AVX2Pick16 : Tiles 4 tinyBLAS_Q0_AVX2Pick16 := by
  constructor
  · decide
  · decide
  · intro rows columns mc nc h
    unfold tinyBLAS_Q0_AVX2Pick16 at h
    split at h <;> cases h <;> decide

/-- The tiles of `tinyBLAS`. -/
def tinyBLASTiles (t : Target) : TileTable :=
  if t.vectorRegisters = 32 then ⟨5, tinyBLASPick32, tiles_tinyBLASPick32⟩
  else ⟨5, tinyBLASPick16, tiles_tinyBLASPick16⟩

/-- The tiles of `tinyBLAS_Q0_ARM`. -/
def tinyBLAS_Q0_ARMTiles : TileTable := ⟨3, tinyBLAS_Q0_ARMPick, tiles_tinyBLAS_Q0_ARMPick⟩

/-- The tiles of `tinyBLAS_Q0_AVX2`. -/
def tinyBLAS_Q0_AVX2Tiles (t : Target) : TileTable :=
  if t.vectorRegisters = 32 then ⟨4, tinyBLAS_Q0_AVX2Pick32, tiles_tinyBLAS_Q0_AVX2Pick32⟩
  else ⟨4, tinyBLAS_Q0_AVX2Pick16, tiles_tinyBLAS_Q0_AVX2Pick16⟩

/-- A call of `gemm<RM, RN>`. -/
structure Gemm where
  /-- Rows of a tile. -/
  rm : ℕ
  /-- Columns of a tile. -/
  rn : ℕ
  /-- First row. -/
  m0 : ℕ
  /-- One past the last row. -/
  m : ℕ
  /-- First column. -/
  n0 : ℕ
  /-- One past the last column. -/
  n : ℕ
  deriving DecidableEq, Repr

variable (table : TileTable)

/-- The tile for a part of the product. -/
def TileTable.tile (m0 m n0 n : ℕ) : Option (ℕ × ℕ) :=
  table.pick (min (m - m0) table.cap) (min (n - n0) table.cap)

theorem TileTable.tile_fits {m0 m n0 n mc nc : ℕ} (h : table.tile m0 m n0 n = some (mc, nc)) :
    0 < mc ∧ mc ≤ m - m0 ∧ 0 < nc ∧ nc ≤ n - n0 := by
  obtain ⟨hmc, hrows, hnc, hcolumns⟩ := table.tiles.fits _ _ _ _ h
  exact ⟨hmc, hrows.trans (Nat.min_le_left _ _), hnc, hcolumns.trans (Nat.min_le_left _ _)⟩

/-- Where the tiles of one size end. -/
def tiledEnd (first last size : ℕ) : ℕ := first + (last - first) / size * size

theorem tiledEnd_le {first last size : ℕ} (h : first ≤ last) : tiledEnd first last size ≤ last := by
  have hle := Nat.div_mul_le_self (last - first) size
  rw [tiledEnd]
  omega

theorem lt_tiledEnd {first last size : ℕ} (hsize : 0 < size) (hle : size ≤ last - first) :
    first < tiledEnd first last size := by
  have hone : 1 ≤ (last - first) / size := (Nat.one_le_div_iff hsize).mpr hle
  have hmul := Nat.mul_le_mul_right size hone
  rw [tiledEnd]
  omega

/-- `mnpack`: tiles of one size, and then what is below them and what is beside them. -/
def mnpack (m0 m n0 n : ℕ) : List Gemm :=
  match h : table.tile m0 m n0 n with
  | none => []
  | some (mc, nc) =>
    have hm : m0 < tiledEnd m0 m mc ∧ tiledEnd m0 m mc ≤ m := by
      obtain ⟨hmc, hrows, _⟩ := table.tile_fits h
      exact ⟨lt_tiledEnd hmc hrows, tiledEnd_le (by omega)⟩
    have hn : n0 < tiledEnd n0 n nc ∧ tiledEnd n0 n nc ≤ n := by
      obtain ⟨_, _, hnc, hcolumns⟩ := table.tile_fits h
      exact ⟨lt_tiledEnd hnc hcolumns, tiledEnd_le (by omega)⟩
    ⟨mc, nc, m0, m, n0, n⟩ :: (mnpack (tiledEnd m0 m mc) m n0 (tiledEnd n0 n nc) ++
      mnpack m0 m (tiledEnd n0 n nc) n)
  termination_by (m - m0) + (n - n0)

/-- The cells that a thread computes in a call, in their order. -/
def Gemm.cells (g : Gemm) (ith nth : ℕ) : List (ℕ × ℕ) :=
  let ytiles := (g.m - g.m0) / g.rm
  let xtiles := (g.n - g.n0) / g.rn
  let tiles := xtiles * ytiles
  let duty := (tiles + nth - 1) / nth
  let start := duty * ith
  let stop := min (start + duty) tiles
  (List.range' start (stop - start)).flatMap fun job =>
    let ii := g.m0 + job / xtiles * g.rm
    let jj := g.n0 + job % xtiles * g.rn
    (List.range g.rn).flatMap fun j => (List.range g.rm).map fun i => (ii + i, jj + j)

/-- The cells that a thread computes. -/
def threadCells (m n ith nth : ℕ) : List (ℕ × ℕ) :=
  (mnpack table 0 m 0 n).flatMap fun g => g.cells ith nth

end Tiles

section Coverage

/-- A tile column by column. -/
theorem column_cells_perm (ii jj rm rn : ℕ) :
    ((List.range rn).flatMap fun j => (List.range rm).map fun i => (ii + i, jj + j)).Perm
      (grid ii (ii + rm) jj (jj + rn)) := by
  apply perm_grid
  · rw [List.nodup_flatMap]
    constructor
    · intro j _
      apply List.Nodup.map _ List.nodup_range
      intro i i' heq
      injection heq with hrow
      omega
    · apply List.nodup_range.imp
      intro j j' hne c hc hc'
      obtain ⟨i, _, hi⟩ := List.mem_map.mp hc
      obtain ⟨i', _, hi'⟩ := List.mem_map.mp hc'
      have hcolumn := congrArg Prod.snd (hi.trans hi'.symm)
      dsimp only at hcolumn
      omega
  · intro c
    rw [List.mem_flatMap]
    constructor
    · intro h
      obtain ⟨j, hj, hc⟩ := h
      obtain ⟨i, hi, heq⟩ := List.mem_map.mp hc
      rw [List.mem_range] at hi hj
      rw [← heq]
      dsimp only
      omega
    · intro h
      refine ⟨c.2 - jj, List.mem_range.mpr (by omega), List.mem_map.mpr ⟨c.1 - ii,
        List.mem_range.mpr (by omega), Prod.ext ?_ ?_⟩⟩
      · dsimp only
        omega
      · dsimp only
        omega

/-- The threads compute together the tiles of a call, each once. -/
theorem Gemm.cells_perm (g : Gemm) {nth : ℕ} (hnth : 0 < nth) (hrm : 0 < g.rm) (hrn : 0 < g.rn) :
    ((List.range nth).flatMap fun ith => g.cells ith nth).Perm
      (grid g.m0 (tiledEnd g.m0 g.m g.rm) g.n0 (tiledEnd g.n0 g.n g.rn)) := by
  set xtiles := (g.n - g.n0) / g.rn with hxtiles
  set ytiles := (g.m - g.m0) / g.rm with hytiles
  set duty := (xtiles * ytiles + nth - 1) / nth with hduty
  have henough : xtiles * ytiles ≤ duty * nth := by
    have hdiv := Nat.div_add_mod (xtiles * ytiles + nth - 1) nth
    have hmod := Nat.mod_lt (xtiles * ytiles + nth - 1) hnth
    rw [← hduty, Nat.mul_comm] at hdiv
    omega
  have htiles := tiles_perm hrm hrn ytiles xtiles g.m0 g.n0
  have hall : ((List.range nth).flatMap fun ith => g.cells ith nth) =
      (List.range (xtiles * ytiles)).flatMap fun job =>
        (List.range g.rn).flatMap fun j => (List.range g.rm).map fun i =>
          (g.m0 + job / xtiles * g.rm + i, g.n0 + job % xtiles * g.rn + j) := by
    rw [← duties_eq henough, List.flatMap_assoc]
    exact Eq.refl _
  rw [hall]
  refine List.Perm.trans ?_ htiles
  apply List.Perm.flatMap_left
  intro job _
  exact column_cells_perm _ _ _ _

theorem mnpack_none {table : TileTable} {m0 m n0 n : ℕ} (h : table.tile m0 m n0 n = none) :
    mnpack table m0 m n0 n = [] := by
  rw [mnpack]
  split
  · exact Eq.refl _
  · rename_i hsome
    rw [h] at hsome
    cases hsome

theorem mnpack_some {table : TileTable} {m0 m n0 n mc nc : ℕ}
    (h : table.tile m0 m n0 n = some (mc, nc)) :
    mnpack table m0 m n0 n = ⟨mc, nc, m0, m, n0, n⟩ ::
      (mnpack table (tiledEnd m0 m mc) m n0 (tiledEnd n0 n nc) ++
        mnpack table m0 m (tiledEnd n0 n nc) n) := by
  rw [mnpack]
  split
  · rename_i hnone
    rw [h] at hnone
    cases hnone
  · rename_i hsome
    rw [h] at hsome
    cases hsome
    exact Eq.refl _

/-- Without a tile nothing is left. -/
theorem grid_of_none {table : TileTable} {m0 m n0 n : ℕ}
    (h : table.tile m0 m n0 n = none) : grid m0 m n0 n = [] := by
  have hempty : m - m0 = 0 ∨ n - n0 = 0 := by
    by_contra hleft
    have hcap := table.tiles.cap_pos
    have htotal := table.tiles.total (min (m - m0) table.cap) (Nat.min_le_right _ _)
      (min (n - n0) table.cap) (Nat.min_le_right _ _) (by omega) (by omega)
    rw [TileTable.tile] at h
    rw [h] at htotal
    cases htotal
  rw [grid]
  cases hempty with
  | inl hrows => rw [hrows, List.range'_zero, List.nil_product]
  | inr hcolumns => rw [hcolumns, List.range'_zero, List.product_nil]

/-- The threads compute together every cell of the product once. -/
theorem mnpack_cells_perm (table : TileTable) {nth : ℕ} (hnth : 0 < nth)
    (m0 m n0 n : ℕ) :
    ((mnpack table m0 m n0 n).flatMap fun g =>
      (List.range nth).flatMap fun ith => g.cells ith nth).Perm (grid m0 m n0 n) := by
  induction hsize : (m - m0) + (n - n0) using Nat.strong_induction_on generalizing m0 m n0 n with
  | _ size ih =>
    cases htile : table.tile m0 m n0 n with
    | none => rw [mnpack_none htile, grid_of_none htile, List.flatMap_nil]
    | some tile =>
      obtain ⟨mc, nc⟩ := tile
      obtain ⟨hmc, hrows, hnc, hcolumns⟩ := table.tile_fits htile
      have hm := lt_tiledEnd hmc hrows
      have hmle : tiledEnd m0 m mc ≤ m := tiledEnd_le (by omega)
      have hn := lt_tiledEnd hnc hcolumns
      have hnle : tiledEnd n0 n nc ≤ n := tiledEnd_le (by omega)
      have hcall := Gemm.cells_perm ⟨mc, nc, m0, m, n0, n⟩ hnth hmc hnc
      have hbelow := ih _ (by omega) (tiledEnd m0 m mc) m n0 (tiledEnd n0 n nc) (Eq.refl _)
      have hbeside := ih _ (by omega) m0 m (tiledEnd n0 n nc) n (Eq.refl _)
      rw [mnpack_some htile, List.flatMap_cons, List.flatMap_append]
      exact (hcall.append (hbelow.append hbeside)).trans
        (grid_split (Nat.le_of_lt hm) hmle (Nat.le_of_lt hn) hnle)

/-- The threads compute together every cell of the product once. -/
theorem threadCells_perm (table : TileTable) {nth : ℕ} (hnth : 0 < nth)
    (m n : ℕ) :
    ((List.range nth).flatMap fun ith => threadCells table m n ith nth).Perm (grid 0 m 0 n) :=
  (flatMap_comm _ _ _).trans (mnpack_cells_perm table hnth 0 m 0 n)

end Coverage

end LayerSkip.SgemmTiles
