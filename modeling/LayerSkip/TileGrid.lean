import Mathlib.Data.List.ProdSigma
import Mathlib.Data.List.Perm.Basic
import Mathlib.Data.List.Range
import Mathlib.Data.List.Nodup
import Mathlib.Tactic.Ring

/-!
# Grids cut into tiles

A grid of rows and columns has every cell once. Tiles of one size that lie side by side make up a
grid, and a grid is made of a corner and two strips. Jobs that are dealt out in runs of one length
are all done once.
-/

namespace LayerSkip.TileGrid

/-- The cells of some rows and columns. -/
def grid (m0 m n0 n : ℕ) : List (ℕ × ℕ) := List.range' m0 (m - m0) ×ˢ List.range' n0 (n - n0)

theorem mem_grid {m0 m n0 n : ℕ} {c : ℕ × ℕ} :
    c ∈ grid m0 m n0 n ↔ (m0 ≤ c.1 ∧ c.1 < m) ∧ n0 ≤ c.2 ∧ c.2 < n := by
  rw [grid, List.mem_product, List.mem_range'_1, List.mem_range'_1]
  omega

theorem nodup_grid (m0 m n0 n : ℕ) : (grid m0 m n0 n).Nodup :=
  List.Nodup.product List.nodup_range' List.nodup_range'

/-- Lists without repetitions that have the same elements. -/
theorem perm_grid {cells : List (ℕ × ℕ)} {m0 m n0 n : ℕ} (hnodup : cells.Nodup)
    (hmem : ∀ c, c ∈ cells ↔ (m0 ≤ c.1 ∧ c.1 < m) ∧ n0 ≤ c.2 ∧ c.2 < n) :
    cells.Perm (grid m0 m n0 n) :=
  (List.perm_ext_iff_of_nodup hnodup (nodup_grid m0 m n0 n)).mpr fun c =>
    (hmem c).trans mem_grid.symm

/-- A corner, what is below it, and what is beside both. -/
theorem grid_split {m0 mp m n0 np n : ℕ} (hmp : m0 ≤ mp) (hm : mp ≤ m) (hnp : n0 ≤ np)
    (hn : np ≤ n) :
    (grid m0 mp n0 np ++ (grid mp m n0 np ++ grid m0 m np n)).Perm (grid m0 m n0 n) := by
  apply perm_grid
  · rw [List.nodup_append, List.nodup_append]
    refine ⟨nodup_grid _ _ _ _, ⟨nodup_grid _ _ _ _, nodup_grid _ _ _ _, ?_⟩, ?_⟩
    · intro c hc d hd heq
      rw [← heq] at hd
      have hbelow := mem_grid.mp hc
      have hbeside := mem_grid.mp hd
      omega
    · intro c hc d hd heq
      rw [← heq] at hd
      have hcorner := mem_grid.mp hc
      cases List.mem_append.mp hd with
      | inl hd =>
        have hbelow := mem_grid.mp hd
        omega
      | inr hd =>
        have hbeside := mem_grid.mp hd
        omega
  · intro c
    rw [List.mem_append, List.mem_append, mem_grid, mem_grid, mem_grid]
    omega

/-- The cells of the tile of a job, where the tiles of a row of tiles come first. -/
def tileCells (rows columns xtiles m0 n0 job : ℕ) : List (ℕ × ℕ) :=
  grid (m0 + job / xtiles * rows) (m0 + job / xtiles * rows + rows)
    (n0 + job % xtiles * columns) (n0 + job % xtiles * columns + columns)

theorem mem_tileCells {rows columns xtiles m0 n0 job : ℕ} (hrows : 0 < rows)
    (hcolumns : 0 < columns) (hxtiles : 0 < xtiles) {c : ℕ × ℕ} :
    c ∈ tileCells rows columns xtiles m0 n0 job ↔ m0 ≤ c.1 ∧ n0 ≤ c.2 ∧
      (c.2 - n0) / columns < xtiles ∧ (c.1 - m0) / rows * xtiles + (c.2 - n0) / columns = job := by
  have hplace {place first size : ℕ} (hsize : 0 < size) (hle : first ≤ place) (tile : ℕ) :
      (first + tile * size ≤ place ∧ place < first + tile * size + size) ↔
        (place - first) / size = tile := by
    rw [Nat.div_eq_iff hsize]
    constructor
    · intro h
      constructor <;> omega
    · intro h
      have hlast : tile * size + size - 1 + 1 = tile * size + size := by
        omega
      constructor <;> omega
  rw [tileCells, mem_grid]
  constructor
  · intro h
    obtain ⟨⟨hfirst, hlast⟩, hleft, hright⟩ := h
    have hm : m0 ≤ c.1 := Nat.le_trans (Nat.le_add_right _ _) hfirst
    have hn : n0 ≤ c.2 := Nat.le_trans (Nat.le_add_right _ _) hleft
    have hy := (hplace hrows hm (job / xtiles)).mp ⟨hfirst, hlast⟩
    have hx := (hplace hcolumns hn (job % xtiles)).mp ⟨hleft, hright⟩
    refine ⟨hm, hn, ?_, ?_⟩
    · rw [hx]
      exact Nat.mod_lt job hxtiles
    · rw [hy, hx, Nat.mul_comm]
      exact Nat.div_add_mod job xtiles
  · intro h
    obtain ⟨hm, hn, hlt, hjob⟩ := h
    have hdiv : job / xtiles = (c.1 - m0) / rows := by
      rw [← hjob, Nat.mul_comm, Nat.mul_add_div hxtiles, Nat.div_eq_of_lt hlt, Nat.add_zero]
    have hmod : job % xtiles = (c.2 - n0) / columns := by
      rw [← hjob, Nat.mul_comm, Nat.mul_add_mod, Nat.mod_eq_of_lt hlt]
    exact ⟨(hplace hrows hm _).mpr hdiv.symm, (hplace hcolumns hn _).mpr hmod.symm⟩

/-- Tiles side by side make up a grid. -/
theorem tiles_perm {rows columns : ℕ} (hrows : 0 < rows) (hcolumns : 0 < columns)
    (ytiles xtiles m0 n0 : ℕ) :
    ((List.range (xtiles * ytiles)).flatMap (tileCells rows columns xtiles m0 n0)).Perm
      (grid m0 (m0 + ytiles * rows) n0 (n0 + xtiles * columns)) := by
  by_cases hnone : xtiles = 0
  · rw [hnone, Nat.zero_mul, List.range_zero, List.flatMap_nil, Nat.zero_mul, Nat.add_zero, grid,
      Nat.sub_self n0, List.range'_zero, List.product_nil]
  have hxtiles : 0 < xtiles := Nat.pos_of_ne_zero hnone
  apply perm_grid
  · rw [List.nodup_flatMap]
    refine ⟨fun job _ => nodup_grid _ _ _ _, ?_⟩
    apply List.nodup_range.imp
    intro job job' hne c hc hc'
    have hjob := ((mem_tileCells hrows hcolumns hxtiles).mp hc).2.2.2
    have hjob' := ((mem_tileCells hrows hcolumns hxtiles).mp hc').2.2.2
    exact hne (hjob.symm.trans hjob')
  · intro c
    rw [List.mem_flatMap]
    constructor
    · intro h
      obtain ⟨job, hjob, hc⟩ := h
      obtain ⟨hm, hn, hlt, heq⟩ := (mem_tileCells hrows hcolumns hxtiles).mp hc
      rw [List.mem_range, ← heq] at hjob
      have hy : (c.1 - m0) / rows < ytiles := by
        by_contra hnot
        have hle : ytiles * xtiles ≤ (c.1 - m0) / rows * xtiles :=
          Nat.mul_le_mul_right xtiles (Nat.not_lt.mp hnot)
        rw [Nat.mul_comm xtiles ytiles] at hjob
        exact absurd (Nat.lt_of_le_of_lt (Nat.le_trans hle (Nat.le_add_right _ _)) hjob)
          (Nat.lt_irrefl _)
      have hrow := (Nat.div_lt_iff_lt_mul hrows).mp hy
      have hcolumn := (Nat.div_lt_iff_lt_mul hcolumns).mp hlt
      omega
    · intro h
      obtain ⟨⟨hm, hmlt⟩, hn, hnlt⟩ := h
      have hy : (c.1 - m0) / rows < ytiles := (Nat.div_lt_iff_lt_mul hrows).mpr (by omega)
      have hx : (c.2 - n0) / columns < xtiles := (Nat.div_lt_iff_lt_mul hcolumns).mpr (by omega)
      refine ⟨(c.1 - m0) / rows * xtiles + (c.2 - n0) / columns, List.mem_range.mpr ?_,
        (mem_tileCells hrows hcolumns hxtiles).mpr ⟨hm, hn, hx, Eq.refl _⟩⟩
      have hle : ((c.1 - m0) / rows + 1) * xtiles ≤ ytiles * xtiles :=
        Nat.mul_le_mul_right xtiles hy
      rw [Nat.succ_mul] at hle
      rw [Nat.mul_comm xtiles ytiles]
      exact Nat.lt_of_lt_of_le (Nat.add_lt_add_left hx _) hle

/-- Runs that start where the one before ends are one run. -/
theorem runs_eq {first : ℕ → ℕ} (hzero : first 0 = 0) (hmono : ∀ worker, first worker ≤
    first (worker + 1)) (workers : ℕ) :
    ((List.range workers).flatMap fun worker =>
      List.range' (first worker) (first (worker + 1) - first worker)) =
        List.range (first workers) := by
  induction workers with
  | zero => rw [hzero, List.range_zero, List.flatMap_nil]
  | succ workers ih =>
    have hsum : first (workers + 1) = first workers + (first (workers + 1) - first workers) := by
      have hle := hmono workers
      omega
    have hjoin : List.range' 0 (first workers) ++
        List.range' (0 + 1 * first workers) (first (workers + 1) - first workers) =
          List.range' 0 (first workers + (first (workers + 1) - first workers)) :=
      List.range'_append
    rw [Nat.zero_add, Nat.one_mul, ← hsum] at hjoin
    rw [List.range_succ, List.flatMap_append, ih, List.flatMap_singleton, List.range_eq_range',
      List.range_eq_range', hjoin]

/-- Runs of jobs that are dealt out one after the other are all jobs. -/
theorem duties_eq {duty workers jobs : ℕ} (henough : jobs ≤ duty * workers) :
    ((List.range workers).flatMap fun worker =>
      List.range' (duty * worker) (min (duty * worker + duty) jobs - duty * worker)) =
        List.range jobs := by
  have hzero : min (duty * 0) jobs = 0 := by
    simp
  have hmono (worker : ℕ) : min (duty * worker) jobs ≤ min (duty * (worker + 1)) jobs :=
    min_le_min_right jobs (Nat.mul_le_mul_left duty (Nat.le_add_right worker 1))
  have hruns := @runs_eq (fun worker => min (duty * worker) jobs) hzero hmono workers
  rw [Nat.min_eq_right henough] at hruns
  rw [← hruns]
  apply List.flatMap_congr
  intro worker _
  rw [Nat.mul_succ]
  by_cases hlast : jobs ≤ duty * worker
  · have hnothing : min (duty * worker + duty) jobs - duty * worker = 0 := by
      omega
    have hnone : min (duty * worker + duty) jobs - min (duty * worker) jobs = 0 := by
      omega
    rw [hnothing, hnone, List.range'_zero, List.range'_zero]
  · have hfirst : min (duty * worker) jobs = duty * worker := by
      omega
    rw [hfirst]

/-- Steps of several workers, worker by worker or step by step. -/
theorem flatMap_comm {α β γ : Type*} (as : List α) (bs : List β) (f : α → β → List γ) :
    (as.flatMap fun a => bs.flatMap (f a)).Perm (bs.flatMap fun b => as.flatMap fun a => f a b) := by
  induction as with
  | nil => simp
  | cons a as ih =>
    simp only [List.flatMap_cons]
    exact (List.Perm.append_left _ ih).trans (List.flatMap_append_perm bs _ _)

end LayerSkip.TileGrid
