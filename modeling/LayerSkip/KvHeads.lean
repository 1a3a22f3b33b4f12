import LayerSkip.NnCore

/-!
# Key heads of a tensor rank

The attention kernel finds the key head of a local query head from the sizes of
its own node. The weights are cut by columns of the whole model. The two agree on
every rank exactly when the ranks divide the key heads and these divide the query
heads; the slicers check neither.
-/

namespace LayerSkip.KvHeads

open NnTopology NnPipeline NnCore

/-- What `multiheadAtt_F32` reads of the key cache, and of the value cache, for one
local head up to a position: rows and columns in the order of its loops. Both
divisions stop the process when they are by zero. The offset of a row does not wrap:
the shift that stores the row asserts that it ends in the cache. -/
def multiheadAttReads (nHeads nKvHeads headDim pos h0 : ℕ) : Option (List (ℕ × ℕ)) :=
  if nKvHeads = 0 then none
  else
    let kvMul := nHeads / nKvHeads
    if kvMul = 0 then none
    else
      let headIndex := h0 / kvMul
      some ((List.range (pos + 1)).flatMap fun t =>
        (List.range headDim).map fun i => (t, headIndex * headDim % 2 ^ 32 + i))

/-- Attention of a model on one tensor rank, as far as the slicers accept it. -/
structure TpAttention where
  /-- Query heads of the model. -/
  nHeads : ℕ
  /-- Key heads of the model. -/
  nKvHeads : ℕ
  /-- Columns of a head. -/
  headDim : ℕ
  /-- Columns of an activation. -/
  dim : ℕ
  /-- Positions. -/
  seqLen : ℕ
  /-- Rows of a batch. -/
  nBatches : ℕ
  /-- Format of the weights. -/
  weightType : NnFloatType
  /-- Tensor ranks. -/
  tpSize : ℕ
  /-- Sequence ranks. -/
  spSize : ℕ
  /-- Sequence rank of this node. -/
  spRank : ℕ
  /-- A remainder by zero is not accepted. -/
  tpSize_pos : 0 < tpSize
  /-- Heads of a rank. -/
  multiHeadAtt : NnMultiHeadAttSlice
  /-- Caches of a rank. -/
  kvCache : NnKvCacheSlice
  /-- Query weights of a rank. -/
  qSlice : NnRowMatmulSlice
  /-- Key weights of a rank. -/
  kSlice : NnRowMatmulSlice
  /-- The heads are accepted. -/
  multiHeadAtt_eq : sliceMultiHeadAtt nHeads seqLen tpSize nBatches = .ok multiHeadAtt
  /-- The caches are accepted. -/
  kvCache_eq : sliceKvCache (headDim * nKvHeads % 2 ^ 32) seqLen tpSize spSize spRank = .ok kvCache
  /-- The query weights are accepted. -/
  qSlice_eq : sliceRowMatmul weightType tpSize dim (headDim * nHeads % 2 ^ 32) = .ok qSlice
  /-- The key weights are accepted. -/
  kSlice_eq : sliceRowMatmul weightType tpSize dim (headDim * nKvHeads % 2 ^ 32) = .ok kSlice

namespace TpAttention

variable (a : TpAttention)

/-- Key head that a query head of the model uses. -/
def kvHead (head : ℕ) : ℕ := head / (a.nHeads / a.nKvHeads)

/-- The kernel reads, for this head of a rank, columns inside the row, and these are
the columns of its key head in the whole model. -/
def ReadsOwnKvHead (tpRank h0 pos : ℕ) : Prop :=
  ∃ reads, multiheadAttReads a.nHeads a.nKvHeads a.headDim pos h0 = some reads ∧
    (∀ read ∈ reads, read.2 < a.kvCache.kvDim0) ∧
    reads.map (fun read => (read.1, tpRank * a.kSlice.d0 + read.2)) =
      (List.range (pos + 1)).flatMap fun t => (List.range a.headDim).map fun i =>
        (t, a.kvHead (tpRank * a.multiHeadAtt.nHeads0 + h0) * a.headDim + i)

/-- What the slicers check of the heads. -/
theorem nHeads_eq : a.nHeads = a.tpSize * a.multiHeadAtt.nHeads0 := by
  obtain ⟨u, hcheck, hslice⟩ := bind_eq_ok a.multiHeadAtt_eq
  have hdvd := Nat.dvd_of_mod_eq_zero (require_eq_ok hcheck)
  injection hslice with hslice
  rw [← hslice]
  exact (Nat.mul_div_cancel' hdvd).symm

/-- What the slicers check of the columns. -/
theorem kvDim_eq : a.headDim * a.nKvHeads % 2 ^ 32 = a.tpSize * a.kvCache.kvDim0 := by
  obtain ⟨u, hcheck, hrest⟩ := bind_eq_ok a.kvCache_eq
  obtain ⟨v, -, hrest⟩ := bind_eq_ok hrest
  obtain ⟨w, -, hslice⟩ := bind_eq_ok hrest
  have hdvd := Nat.dvd_of_mod_eq_zero (require_eq_ok hcheck)
  injection hslice with hslice
  rw [← hslice]
  exact (Nat.mul_div_cancel' hdvd).symm

/-- The rows of the key weights of a rank are the columns of its cache. -/
theorem kSlice_d0 : a.kSlice.d0 = a.kvCache.kvDim0 := by
  obtain ⟨u, -, hrest⟩ := bind_eq_ok a.kvCache_eq
  obtain ⟨v, -, hrest⟩ := bind_eq_ok hrest
  obtain ⟨w, -, hcache⟩ := bind_eq_ok hrest
  obtain ⟨x, -, hrest⟩ := bind_eq_ok a.kSlice_eq
  obtain ⟨y, -, hrest⟩ := bind_eq_ok hrest
  obtain ⟨z, -, hslice⟩ := bind_eq_ok hrest
  injection hcache with hcache
  injection hslice with hslice
  rw [← hcache, ← hslice]

/-- Rows and columns in the order of two loops. -/
theorem flatMap_eq_map_product (rows columns : ℕ) (f : ℕ → ℕ) :
    ((List.range rows).flatMap fun t => (List.range columns).map fun i => (t, f i)) =
      ((List.range rows).product (List.range columns)).map fun x => (x.1, f x.2) := by
  rw [List.product, List.map_flatMap]
  simp only [List.map_map]
  rfl

variable {a}

/-- The offset of every row up to a position is a word once the shift has stored the row of
this position, since it asserts that the row ends in the cache. -/
theorem rowOffset_lt {pos t : ℕ} (ht : t ≤ pos)
    (hshift : (pos + 1) * a.kvCache.kvDim0 ≤ a.kvCache.keySize.length) :
    t * a.kvCache.kvDim0 < 2 ^ 32 := by
  have hkey := a.kvCache_eq
  obtain ⟨u, _, hkey⟩ := bind_eq_ok hkey
  obtain ⟨v, _, hkey⟩ := bind_eq_ok hkey
  obtain ⟨w, _, hkey⟩ := bind_eq_ok hkey
  injection hkey with hkey
  have hlength : a.kvCache.keySize.length < 2 ^ 32 := by
    rw [← hkey]
    exact Nat.mod_lt _ (by decide)
  have hrow : t * a.kvCache.kvDim0 ≤ (pos + 1) * a.kvCache.kvDim0 :=
    Nat.mul_le_mul_right _ (Nat.le_succ_of_le ht)
  exact Nat.lt_of_le_of_lt (Nat.le_trans hrow hshift) hlength

/-- In every row the same columns are read. -/
theorem readsOwnKvHead_iff_columns {tpRank h0 pos : ℕ} :
    a.ReadsOwnKvHead tpRank h0 pos ↔
      a.nKvHeads ≠ 0 ∧ a.nHeads / a.nKvHeads ≠ 0 ∧ ∀ i < a.headDim,
        h0 / (a.nHeads / a.nKvHeads) * a.headDim % 2 ^ 32 + i < a.kvCache.kvDim0 ∧
        tpRank * a.kvCache.kvDim0 + (h0 / (a.nHeads / a.nKvHeads) * a.headDim % 2 ^ 32 + i) =
          a.kvHead (tpRank * a.multiHeadAtt.nHeads0 + h0) * a.headDim + i := by
  unfold ReadsOwnKvHead multiheadAttReads
  rw [a.kSlice_d0]
  simp only [flatMap_eq_map_product]
  constructor
  · intro h
    obtain ⟨reads, hreads, hrow, hcolumns⟩ := h
    split at hreads
    · cases hreads
    · rename_i hkv
      split at hreads
      · cases hreads
      · rename_i hmul
        injection hreads with hreads
        rw [← hreads] at hrow hcolumns
        rw [List.map_map, List.map_inj_left] at hcolumns
        refine ⟨hkv, hmul, fun i hi => ?_⟩
        have hcell : (0, i) ∈ (List.range (pos + 1)).product (List.range a.headDim) :=
          List.pair_mem_product.mpr
            ⟨List.mem_range.mpr (Nat.succ_pos pos), List.mem_range.mpr hi⟩
        refine ⟨hrow _ (List.mem_map_of_mem hcell), ?_⟩
        exact congrArg Prod.snd (hcolumns _ hcell)
  · intro h
    obtain ⟨hkv, hmul, hcolumns⟩ := h
    rw [if_neg hkv, if_neg hmul]
    refine ⟨_, rfl, ?_, ?_⟩
    · intro read hread
      obtain ⟨cell, hcell, hat⟩ := List.mem_map.mp hread
      rw [← hat]
      exact (hcolumns cell.2 (List.mem_range.mp (List.pair_mem_product.mp hcell).2)).1
    · rw [List.map_map, List.map_inj_left]
      intro cell hcell
      have hcolumn := hcolumns cell.2 (List.mem_range.mp (List.pair_mem_product.mp hcell).2)
      exact congrArg (Prod.mk cell.1) hcolumn.2

/-- The ranks divide the key heads and these the query heads. -/
structure HeadsDivide (a : TpAttention) : Prop where
  /-- The key columns are counted without a wrap. -/
  noWrap : a.headDim * a.nKvHeads < 2 ^ 32
  /-- Every rank has whole key heads. -/
  ranks : a.tpSize ∣ a.nKvHeads
  /-- Every key head has equally many query heads. -/
  heads : a.nKvHeads ∣ a.nHeads

/-- With whole groups on every rank a head reads its own key head. -/
theorem HeadsDivide.readsOwnKvHead (h : HeadsDivide a) {h0 : ℕ}
    (hh : h0 < a.multiHeadAtt.nHeads0) (tpRank pos : ℕ) : a.ReadsOwnKvHead tpRank h0 pos := by
  obtain ⟨k, hk⟩ := h.ranks
  obtain ⟨m, hm⟩ := h.heads
  have hheads : a.multiHeadAtt.nHeads0 = k * m := by
    have htotal := a.nHeads_eq
    rw [hm, hk, Nat.mul_assoc] at htotal
    exact (Nat.eq_of_mul_eq_mul_left a.tpSize_pos htotal).symm
  have hdim : a.kvCache.kvDim0 = k * a.headDim := by
    have htotal := a.kvDim_eq
    rw [Nat.mod_eq_of_lt h.noWrap, hk, Nat.mul_left_comm] at htotal
    rw [Nat.mul_comm k]
    exact (Nat.eq_of_mul_eq_mul_left a.tpSize_pos htotal).symm
  have hmpos : 0 < m := by
    rcases Nat.eq_zero_or_pos m with hzero | hpos
    · rw [hheads, hzero] at hh
      omega
    · exact hpos
  have hkpos : 0 < k := by
    rcases Nat.eq_zero_or_pos k with hzero | hpos
    · rw [hheads, hzero, Nat.zero_mul] at hh
      omega
    · exact hpos
  have hkv : 0 < a.nKvHeads := by
    rw [hk]
    exact Nat.mul_pos a.tpSize_pos hkpos
  have hmul : a.nHeads / a.nKvHeads = m := by
    rw [hm, Nat.mul_div_cancel_left _ hkv]
  have hindex : h0 / m < k := by
    rw [hheads] at hh
    exact Nat.div_lt_of_lt_mul (Nat.mul_comm k m ▸ hh)
  have hnext : (h0 / m + 1) * a.headDim ≤ k * a.headDim := Nat.mul_le_mul_right _ hindex
  have hrow : k * a.headDim ≤ a.headDim * a.nKvHeads := by
    rw [hk, Nat.mul_comm]
    exact Nat.mul_le_mul_left _ (Nat.le_mul_of_pos_left k a.tpSize_pos)
  have hcolumn : h0 / m * a.headDim % 2 ^ 32 = h0 / m * a.headDim := by
    refine Nat.mod_eq_of_lt (Nat.lt_of_le_of_lt ?_ h.noWrap)
    rw [Nat.succ_mul] at hnext
    omega
  have hhead : a.kvHead (tpRank * a.multiHeadAtt.nHeads0 + h0) = tpRank * k + h0 / m := by
    rw [kvHead, hmul, hheads, ← Nat.mul_assoc, Nat.mul_comm _ m, Nat.mul_add_div hmpos]
  rw [readsOwnKvHead_iff_columns, hmul, hcolumn, hhead, hdim]
  refine ⟨by omega, by omega, fun i hi => ⟨?_, ?_⟩⟩
  · rw [Nat.succ_mul] at hnext
    omega
  · rw [Nat.add_mul, Nat.mul_assoc, Nat.add_assoc]

/-- If every head of every rank reads its own key head, the last head shows that the
key heads divide the query heads. -/
theorem heads_of_readsOwnKvHead (hheads : 0 < a.nHeads) (hdim : 0 < a.headDim) {pos : ℕ}
    (h : ∀ tpRank < a.tpSize, ∀ h0 < a.multiHeadAtt.nHeads0, a.ReadsOwnKvHead tpRank h0 pos) :
    a.headDim * a.nKvHeads < 2 ^ 32 ∧ a.nKvHeads ∣ a.nHeads := by
  have htotal := a.nHeads_eq
  have hdimTotal := a.kvDim_eq
  have htp := a.tpSize_pos
  have hlocal : 0 < a.multiHeadAtt.nHeads0 := by
    rw [htotal] at hheads
    exact Nat.pos_of_mul_pos_left hheads
  obtain ⟨hkv, hmul, hcolumns⟩ := readsOwnKvHead_iff_columns.mp
    (h (a.tpSize - 1) (by omega) (a.multiHeadAtt.nHeads0 - 1) (by omega))
  obtain ⟨hrow, hown⟩ := hcolumns (a.headDim - 1) (by omega)
  have hlast : (a.tpSize - 1) * a.multiHeadAtt.nHeads0 + (a.multiHeadAtt.nHeads0 - 1) =
      a.nHeads - 1 := by
    rw [htotal, Nat.sub_mul, Nat.one_mul]
    have hle : a.multiHeadAtt.nHeads0 ≤ a.tpSize * a.multiHeadAtt.nHeads0 :=
      Nat.le_mul_of_pos_left _ htp
    omega
  have hranks : (a.tpSize - 1) * a.kvCache.kvDim0 + a.kvCache.kvDim0 =
      a.headDim * a.nKvHeads % 2 ^ 32 := by
    rw [hdimTotal, ← Nat.succ_mul]
    congr 1
    omega
  rw [hlast, kvHead] at hown
  generalize hm : a.nHeads / a.nKvHeads = m at hmul hown hrow
  have hmpos : 0 < m := by omega
  have hgroups : a.nKvHeads * m ≤ a.nHeads := by
    rw [← hm]
    exact Nat.mul_div_le a.nHeads a.nKvHeads
  have hbelow : a.nKvHeads ≤ (a.nHeads - 1) / m + 1 := by
    have hpred : a.nKvHeads - 1 ≤ (a.nHeads - 1) / m := by
      rw [Nat.le_div_iff_mul_le hmpos, Nat.sub_mul, Nat.one_mul]
      omega
    omega
  have hcolumn : ((a.nHeads - 1) / m + 1) * a.headDim ≤ a.headDim * a.nKvHeads % 2 ^ 32 := by
    rw [Nat.succ_mul]
    omega
  have hmod := Nat.mod_le (a.headDim * a.nKvHeads) (2 ^ 32)
  have hall : a.headDim * a.nKvHeads ≤ ((a.nHeads - 1) / m + 1) * a.headDim := by
    rw [Nat.mul_comm]
    exact Nat.mul_le_mul_right _ hbelow
  have hwrap : a.headDim * a.nKvHeads % 2 ^ 32 = a.headDim * a.nKvHeads := by omega
  have hcount : (a.nHeads - 1) / m + 1 = a.nKvHeads := by
    have hsame : ((a.nHeads - 1) / m + 1) * a.headDim = a.nKvHeads * a.headDim := by
      rw [Nat.mul_comm a.nKvHeads]
      omega
    exact Nat.eq_of_mul_eq_mul_right hdim hsame
  refine ⟨?_, m, ?_⟩
  · rw [← hwrap]
    exact Nat.mod_lt _ (by decide)
  · have hupper : a.nHeads - 1 < a.nKvHeads * m := by
      have hdivLt : (a.nHeads - 1) / m < a.nKvHeads := by omega
      exact (Nat.div_lt_iff_lt_mul hmpos).mp hdivLt
    omega

/-- The first head of the second rank shows that the ranks divide the key heads. -/
theorem ranks_of_readsOwnKvHead (hheads : 0 < a.nHeads) (hdim : 0 < a.headDim) {pos : ℕ}
    (hwrap : a.headDim * a.nKvHeads < 2 ^ 32)
    (h : ∀ tpRank < a.tpSize, ∀ h0 < a.multiHeadAtt.nHeads0, a.ReadsOwnKvHead tpRank h0 pos) :
    a.tpSize ∣ a.nKvHeads := by
  have htp := a.tpSize_pos
  have hlocal : 0 < a.multiHeadAtt.nHeads0 := by
    have htotal := a.nHeads_eq
    rw [htotal] at hheads
    exact Nat.pos_of_mul_pos_left hheads
  rcases Nat.eq_or_lt_of_le htp with hone | hmore
  · rw [← hone]
    exact Nat.one_dvd a.nKvHeads
  · obtain ⟨-, -, hcolumns⟩ := readsOwnKvHead_iff_columns.mp (h 1 hmore 0 hlocal)
    have hown := (hcolumns 0 hdim).2
    rw [Nat.zero_div, Nat.zero_mul, Nat.zero_mod, Nat.one_mul, Nat.add_zero, Nat.add_zero] at hown
    have hdimTotal := a.kvDim_eq
    rw [Nat.mod_eq_of_lt hwrap, hown, Nat.mul_comm, ← Nat.mul_assoc] at hdimTotal
    exact ⟨_, Nat.eq_of_mul_eq_mul_right hdim hdimTotal⟩

/-- On all ranks all heads read their own key head exactly when the ranks divide the
key heads and these divide the query heads, apart from models without query heads or
without columns. -/
theorem readsOwnKvHead_iff (pos : ℕ) :
    (∀ tpRank < a.tpSize, ∀ h0 < a.multiHeadAtt.nHeads0, a.ReadsOwnKvHead tpRank h0 pos) ↔
      a.nHeads = 0 ∨ (a.headDim = 0 ∧ 0 < a.nKvHeads ∧ a.nKvHeads ≤ a.nHeads) ∨ HeadsDivide a := by
  constructor
  · intro h
    rcases Nat.eq_zero_or_pos a.nHeads with hzero | hheads
    · exact .inl hzero
    · rcases Nat.eq_zero_or_pos a.headDim with hzero | hdim
      · have hlocal : 0 < a.multiHeadAtt.nHeads0 := by
          rw [a.nHeads_eq] at hheads
          exact Nat.pos_of_mul_pos_left hheads
        obtain ⟨hkv, hmul, -⟩ := readsOwnKvHead_iff_columns.mp (h 0 a.tpSize_pos 0 hlocal)
        have hpos : 0 < a.nKvHeads := Nat.pos_of_ne_zero hkv
        have hle : a.nKvHeads ≤ a.nHeads :=
          Nat.le_of_not_lt fun hlt => hmul (Nat.div_eq_of_lt hlt)
        exact .inr (.inl ⟨hzero, hpos, hle⟩)
      · obtain ⟨hwrap, hdvd⟩ := heads_of_readsOwnKvHead hheads hdim h
        exact .inr (.inr ⟨hwrap, ranks_of_readsOwnKvHead hheads hdim hwrap h, hdvd⟩)
  · intro h tpRank _ h0 hh
    rcases h with hzero | ⟨hzero, hpos, hle⟩ | hdivide
    · have htotal := a.nHeads_eq
      rw [hzero] at htotal
      have hmul := Nat.mul_pos a.tpSize_pos (Nat.lt_of_le_of_lt (Nat.zero_le h0) hh)
      omega
    · rw [readsOwnKvHead_iff_columns, hzero]
      refine ⟨by omega, ?_, fun i hi => absurd hi (Nat.not_lt_zero i)⟩
      exact Nat.ne_of_gt (Nat.div_pos hle hpos)
    · exact hdivide.readsOwnKvHead hh tpRank pos

end TpAttention

/-- Twelve query heads and six key heads of 64 columns on four ranks. -/
def sixKvHeads : TpAttention where
  nHeads := 12
  nKvHeads := 6
  headDim := 64
  dim := 768
  seqLen := 1024
  nBatches := 32
  weightType := .q40
  tpSize := 4
  spSize := 1
  spRank := 0
  tpSize_pos := by decide
  multiHeadAtt := ⟨12, 3, size2D .f32 32 (3 * 1024)⟩
  kvCache := ⟨96, 1024, 0, size2D .f32 1024 96, size2D .f32 1024 96⟩
  qSlice := ⟨.q40, 4, 192, 768, size2D .q40 768 768, size2D .q40 768 192⟩
  kSlice := ⟨.q40, 4, 96, 768, size2D .q40 768 384, size2D .q40 768 96⟩
  multiHeadAtt_eq := by decide
  kvCache_eq := by decide
  qSlice_eq := by decide
  kSlice_eq := by decide

/-- On the second rank the first head reads the second half of one key head and the
first half of the next. -/
theorem not_readsOwnKvHead_six :
    ¬∀ tpRank < 4, ∀ h0 < 3, sixKvHeads.ReadsOwnKvHead tpRank h0 0 := by
  intro h
  obtain ⟨-, -, hcolumns⟩ := TpAttention.readsOwnKvHead_iff_columns.mp (h 1 (by decide) 0 (by decide))
  exact absurd (hcolumns 0 (by decide)).2 (by decide)

end LayerSkip.KvHeads
