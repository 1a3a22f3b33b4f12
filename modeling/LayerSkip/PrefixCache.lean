import LayerSkip.ChunkedPrompt

/-!
# The caches hold the prefix of a conversation

Every attention of a forward finds its own position stored by the shifts before it, and looks at
earlier positions besides. So what a node answers for a token depends on the tokens before it only,
whatever the caches held when the conversation began: a node is a function of prefixes, and its
memory stands for the list of tokens whose rows the caches hold. Feeding from a position on keeps
the tokens before it and puts the new ones behind them.
-/

namespace LayerSkip.PrefixCache

open NnTopology NnPipeline NnCore NnCpu LlmGraph Dataflow RegionFlow ForwardReads ForwardTriples
open ForwardFreshness StageExecutor StageSimulation StageHandOver StageForward CpuKernels BatchRows
open LoopInterchange PrefillRows ChunkedPrompt
open DevicePlacement (NnNode)

section Uses

variable {ops more : List NnOpConfig} (b : NnNodeBuilder)

/-- A source is a part of itself only. -/
instance : Preorder NnSource where
  le source source' := source = source'
  le_refl _ := Eq.refl _
  le_trans _ _ _ := Eq.trans

/-- Caches that an attention looks at, and caches that a shift stores to. -/
def cacheUse (op : NnOpConfig) : Use NnSource where
  reads := if op.code = .multiheadAtt then cacheReads op else []
  writes := cacheWrites op

theorem covered_iff (known : List NnSource) (source : NnSource) :
    Covered known source ↔ source ∈ known := by
  constructor
  · intro h
    obtain ⟨w, hw, hle⟩ := h
    have hsame : source = w := hle
    rw [hsame]
    exact hw
  · exact covered_of_mem

theorem mem_after (known : List NnSource) (us : List (Use NnSource)) (source : NnSource) :
    source ∈ after known us ↔ source ∈ known ∨ ∃ u ∈ us, source ∈ u.writes := by
  induction us generalizing known with
  | nil => simp [after]
  | cons u us ih =>
    rw [after, ih, List.mem_append]
    simp only [List.mem_cons, exists_eq_or_imp]
    exact ⟨fun h => by tauto, fun h => by tauto⟩

theorem triple_uncached (hops : ∀ op ∈ ops, Uncached op) : Triple [] (ops.map cacheUse) [] := by
  have hnone : ∀ op ∈ ops, (cacheUse op).reads = [] := by
    intro op hop
    rw [cacheUse, (hops op hop).1, ite_self]
  rw [triple_iff]
  constructor
  · induction ops with
    | nil => trivial
    | cons op ops ih =>
      have hwrites : (cacheUse op).writes = [] := (hops op List.mem_cons_self).2
      rw [List.map_cons, Checks, hnone op List.mem_cons_self, hwrites]
      exact ⟨fun _ h => absurd h List.not_mem_nil,
        ih (fun op' hop' => hops op' (List.mem_cons_of_mem op hop'))
          fun op' hop' => hnone op' (List.mem_cons_of_mem op hop')⟩
  · exact fun _ h => absurd h List.not_mem_nil

theorem triple_both (hops : Triple [] (ops.map cacheUse) [])
    (hmore : Triple [] (more.map cacheUse) []) : Triple [] ((ops ++ more).map cacheUse) [] := by
  rw [List.map_append]
  exact hops.append hmore

/-- An attention finds its caches stored. -/
theorem triple_rope (layer : ℕ) :
    Triple [] ((b.ropeOps layer ++ b.attentionOps layer).map cacheUse) [] := by
  rw [triple_iff]
  simp [NnNodeBuilder.ropeOps, NnNodeBuilder.attentionOps, NnNodeBuilder.multiheadAttConfig,
    pointerRawConfig, cacheUse, cacheReads, cacheWrites, Checks, covered_iff]

theorem triple_layer (layer : ℕ) : Triple [] ((layerRest b layer).map cacheUse) [] := by
  rw [layerRest, attRest_eq]
  exact triple_both (triple_both (triple_uncached (uncached_before b layer)) (triple_rope b layer))
    (triple_uncached (uncached_ff b layer))

theorem triple_later (first count : ℕ) :
    Triple [] ((laterLayers b first count).map cacheUse) [] := by
  induction count generalizing first with
  | zero => exact Triple.nil []
  | succ count ih =>
    have hmerge : ∀ op ∈ [mergeEntry "block_merge_add" first], Uncached op := by
      simp [mergeEntry, Uncached, cacheReads, cacheWrites]
    rw [laterLayers_succ]
    exact triple_both (triple_both (triple_uncached hmerge) (triple_layer b first)) (ih (first + 1))

theorem triple_caches : Triple [] ((nodeOps b).map cacheUse) [] := by
  have hentry : ∀ op ∈ [embedding b.n, castEntry b.layerStart], Uncached op := by
    simp [embedding, castEntry, Uncached, cacheReads, cacheWrites]
  have hsplit : nodeOps b = [embedding b.n, castEntry b.layerStart] ++
      (body b b.layerStart b.layerEnd ++ (b.finalSegment false).ops) := Eq.refl _
  rw [hsplit, body]
  exact triple_both (triple_uncached hentry)
    (triple_both (triple_both (triple_layer b _) (triple_later b _ _))
      (triple_uncached (uncached_finalSegment b)))

end Uses

section Operations

variable {b : NnNodeBuilder} (nBatches : ℕ)

/-- The rows that are stored have the columns of the caches. -/
structure KvSized (b : NnNodeBuilder) : Prop where
  /-- Keys. -/
  keys : b.n.kSlice.d0 = b.kvCacheSlice.kvDim0
  /-- Values. -/
  values : b.n.vSlice.d0 = b.kvCacheSlice.kvDim0

/-- How an operation uses the caches. -/
structure KvOp (b : NnNodeBuilder) (node : NnNode) (op : NnOpConfig) : Prop where
  /-- An attention looks at the columns of the caches. -/
  attention : ∀ config, op.config = .multiheadAtt config →
    config.kvDim0 = b.kvCacheSlice.kvDim0
  /-- A shift stores all columns, at positions of the rank. -/
  shift : ∀ indexPipe localSeqStart localSeqLen,
    op.config = .shift indexPipe localSeqStart localSeqLen →
      localSeqStart = b.kvCacheSlice.localSeqStart ∧ localSeqLen = b.kvCacheSlice.localSeqLen ∧
        b.kvCacheSlice.kvDim0 ≤ (inputSize node op).x

theorem kvOp_of_uncached {node : NnNode} {op : NnOpConfig} (h : Uncached op) : KvOp b node op := by
  constructor
  · intro config hconfig
    simp [Uncached, cacheReads, hconfig] at h
  · intro indexPipe localSeqStart localSeqLen hconfig
    simp [Uncached, cacheReads, hconfig] at h

theorem columns_kTemp (node : NnNode) (hnode : node = builtNode b nBatches false) :
    ((node.sourceSize (.buffer .kTemp)).getD size0).x = b.n.kSlice.d0 := by
  rw [hnode]
  by_cases hq : b.n.Quantized <;>
  simp [nodeOf, NnNode.sourceSize, NnNodeBuilder.buffers, size2D, size3D, hq]

theorem columns_vTemp (node : NnNode) (hnode : node = builtNode b nBatches false) :
    ((node.sourceSize (.buffer .vTemp)).getD size0).x = b.n.vSlice.d0 := by
  rw [hnode]
  by_cases hq : b.n.Quantized <;>
  simp [nodeOf, NnNode.sourceSize, NnNodeBuilder.buffers, size2D, size3D, hq]

theorem kvOp_rope (h : KvSized b) (layer : ℕ) :
    ∀ op ∈ b.ropeOps layer ++ b.attentionOps layer, KvOp b (builtNode b nBatches false) op := by
  simp only [NnNodeBuilder.ropeOps, NnNodeBuilder.attentionOps, List.forall_mem_append,
    List.forall_mem_cons, List.not_mem_nil, false_implies, implies_true, and_true]
  and_intros
  · constructor <;> simp
  · constructor <;> simp
  · constructor
    · simp
    · intro indexPipe localSeqStart localSeqLen hconfig
      injection hconfig with _ hstart hlen
      refine ⟨hstart.symm, hlen.symm, ?_⟩
      rw [← h.keys, ← columns_kTemp nBatches _ (Eq.refl _)]
      exact le_of_eq (Eq.refl _)
  · constructor
    · simp
    · intro indexPipe localSeqStart localSeqLen hconfig
      injection hconfig with _ hstart hlen
      refine ⟨hstart.symm, hlen.symm, ?_⟩
      rw [← h.values, ← columns_vTemp nBatches _ (Eq.refl _)]
      exact le_of_eq (Eq.refl _)
  · constructor
    · intro config hconfig
      injection hconfig with hconfig
      rw [← hconfig]
      exact Eq.refl _
    · simp
  all_goals constructor <;> simp

theorem kvOp_layer (h : KvSized b) (layer : ℕ) :
    ∀ op ∈ layerRest b layer, KvOp b (builtNode b nBatches false) op := by
  have hbefore := uncached_before b layer
  have hff := uncached_ff b layer
  have hrope := kvOp_rope nBatches h layer
  intro op hop
  rw [layerRest, attRest_eq] at hop
  cases List.mem_append.mp hop with
  | inl hatt =>
    cases List.mem_append.mp hatt with
    | inl hmem => exact kvOp_of_uncached (hbefore op hmem)
    | inr hmem => exact hrope op hmem
  | inr hmem => exact kvOp_of_uncached (hff op hmem)

theorem kvOp_nodeOps (h : KvSized b) :
    ∀ op ∈ nodeOps b, KvOp b (builtNode b nBatches false) op := by
  have hentry : ∀ op ∈ [embedding b.n, castEntry b.layerStart], Uncached op := by
    simp [embedding, castEntry, Uncached, cacheReads, cacheWrites]
  have hmerge (layer : ℕ) : Uncached (mergeEntry "block_merge_add" layer) := by
    simp [mergeEntry, Uncached, cacheReads, cacheWrites]
  have hsplit : nodeOps b = [embedding b.n, castEntry b.layerStart] ++
      (body b b.layerStart b.layerEnd ++ (b.finalSegment false).ops) := Eq.refl _
  intro op hop
  rw [hsplit] at hop
  cases List.mem_append.mp hop with
  | inl hmem => exact kvOp_of_uncached (hentry op hmem)
  | inr hrest =>
    cases List.mem_append.mp hrest with
    | inl hbody =>
      cases List.mem_append.mp hbody with
      | inl hfirst => exact kvOp_layer nBatches h _ op hfirst
      | inr hlater =>
        obtain ⟨layer, _, hmem⟩ := List.mem_flatMap.mp hlater
        cases List.mem_cons.mp hmem with
        | inl hsame =>
          rw [hsame]
          exact kvOp_of_uncached (hmerge layer)
        | inr hmem => exact kvOp_layer nBatches h layer op hmem
    | inr hmem => exact kvOp_of_uncached (uncached_finalSegment b op hmem)

end Operations

section Step

variable {R : Type} [Field R] [LinearOrder R] [IsStrictOrderedRing R] [FloorRing R] {cpu : Cpu R}
  {b : NnNodeBuilder} {node : NnNode} {nThreads position : ℕ} {ops : List NnOpConfig}
  {op : NnOpConfig} {m m' : Memory R}

/-- Caches that a forward stores to. -/
def stores (b : NnNodeBuilder) : List NnSource := (nodeOps b).flatMap cacheWrites

/-- A cell that a row of a cache consists of. -/
def Kept (b : NnNodeBuilder) (c : Cell) : Prop :=
  c.source ∈ stores b ∧ c.z = 0 ∧ c.x < b.kvCacheSlice.kvDim0

/-- A position of the sequence rank. -/
def LocalPosition (b : NnNodeBuilder) (position : ℕ) : Prop :=
  0 < b.kvCacheSlice.localSeqLen → b.kvCacheSlice.localSeqStart ≤ position ∧
    position < b.kvCacheSlice.localSeqStart + b.kvCacheSlice.localSeqLen

/-- Two memories in a forward of one row: the same rows, the same rows of the caches before the
position, and at the position in the caches that are stored. -/
structure SameSoFar (b : NnNodeBuilder) (position : ℕ) (stored : List NnSource) (m m' : Memory R) :
    Prop where
  /-- Rows. -/
  rows : ∀ c : Cell, ¬IsCache c.source → m c = m' c
  /-- The position of the row. -/
  start : positionOf m = position
  /-- Earlier positions. -/
  earlier : ∀ c : Cell, Kept b c → c.y < position → m c = m' c
  /-- Stored caches. -/
  stored : ∀ c : Cell, Kept b c → c.y = position → c.source ∈ stored → m c = m' c

omit [IsStrictOrderedRing R] in
/-- A forward keeps its position. -/
theorem positionOf_apply (h : RowWise node op) (m : Memory R) :
    positionOf ((opAction node nThreads (cpuKernels cpu node) 1 op).apply m) = positionOf m := by
  have hkept := @RowWise.rowTask_position R _ _ _ cpu node nThreads op h 0 m ⟨.pipe .pos, 0, 0, 0⟩
    (Eq.refl _)
  have hrow : ¬IsCache (.pipe .pos) := id
  rw [rowTask_row op m (c := ⟨.pipe .pos, 0, 0, 0⟩) hrow, atRow_zero] at hkept
  rw [positionOf, positionOf]
  exact congrArg Nat.floor hkept

omit [IsStrictOrderedRing R] in
/-- A shift stores its row. -/
theorem stored_eq (h : RowWise node op) (hkv : KvOp b node op) (hlocal : LocalPosition b position)
    (hrows : ∀ c : Cell, ¬IsCache c.source → m c = m' c) (hstart : positionOf m = position)
    {c : Cell} (hcache : IsCache c.source) (hc : Kept b c) (hy : c.y = position)
    (hmem : c.source ∈ cacheWrites op) :
    (opAction node nThreads (cpuKernels cpu node) 1 op).apply m c =
      (opAction node nThreads (cpuKernels cpu node) 1 op).apply m' c := by
  have hcode := (h.writes _ hmem).2
  obtain ⟨_, localSeqStart, localSeqLen, hconfig⟩ := h.shift hcode
  obtain ⟨hfirst, hlen, hcolumns⟩ := hkv.shift _ _ _ hconfig
  have hreads : whole (.pipe .pos) ∈ opReads node nThreads op := h.shift_reads hcode
  have hseen := position_seen m hreads
  have hrow : (opRow (view node nThreads 1 op m) 0).row = (opRow (view node nThreads 1 op m') 0).row :=
    opRow_congr fun c hc _ => hrows c hc
  have hplace : (0 < localSeqLen → localSeqStart ≤ position ∧ position < localSeqStart + localSeqLen) ∧
      c.y = position ∧ c.z = 0 ∧ c.x < (inputSize node op).x := by
    rw [hfirst, hlen]
    exact ⟨hlocal, hy, hc.2.1, hc.2.2.trans_le hcolumns⟩
  rw [h.apply_cache m hcache hmem, h.apply_cache m' hcache hmem]
  simp only [List.range_one, List.foldl_cons, List.foldl_nil, atRow_zero]
  rw [shiftRow_congr hrow.symm c (m' c), shiftRow, shiftRow, hconfig]
  simp only [hseen, hstart, if_pos hplace]

/-- An operation keeps what is the same. -/
theorem SameSoFar.apply {stored : List NnSource} (hm : SameSoFar b position stored m m')
    (h : RowWise node op) (hkv : KvOp b node op) (hlocal : LocalPosition b position)
    (hcaches : ∀ source ∈ stores b, IsCache source) (hstores : ∀ source ∈ stored, source ∈ stores b)
    (hreads : ∀ source ∈ (cacheUse op).reads, source ∈ stored) :
    SameSoFar b position (cacheWrites op ++ stored)
      ((opAction node nThreads (cpuKernels cpu node) 1 op).apply m)
      ((opAction node nThreads (cpuKernels cpu node) 1 op).apply m') := by
  constructor
  · intro c hc
    by_cases hy : c.y = 0
    · refine h.depends_row (fun c hc _ => hm.rows c hc) ?_ hc hy
      intro config hcode hconfig c' hmem hz hle hx
      rw [hm.start] at hle
      have hread : c'.source ∈ (cacheUse op).reads := by
        rw [cacheUse, if_pos hcode]
        exact hmem
      have hstored := hreads _ hread
      have hkept : Kept b c' := ⟨hstores _ hstored, hz, by rw [← hkv.attention config hconfig]; exact hx⟩
      cases Nat.lt_or_eq_of_le hle with
      | inl hlt => exact hm.earlier c' hkept hlt
      | inr hsame => exact hm.stored c' hkept hsame hstored
    · have hnot : ¬c.y < 1 := by
        omega
      rw [h.apply_row m hc, h.apply_row m' hc, if_neg hnot, if_neg hnot]
      exact hm.rows c hc
  · rw [positionOf_apply h m]
    exact hm.start
  · intro c hc hlt
    exact h.depends_cache (fun c hc _ => hm.rows c hc) (hcaches _ hc.1) (hm.earlier c hc hlt)
  · intro c hc hy hmem
    by_cases hwritten : c.source ∈ cacheWrites op
    · exact stored_eq h hkv hlocal hm.rows hm.start (hcaches _ hc.1) hc hy hwritten
    · have hstored := (List.mem_append.mp hmem).resolve_left hwritten
      exact h.depends_cache (fun c hc _ => hm.rows c hc) (hcaches _ hc.1)
        (hm.stored c hc hy hstored)

/-- Operations whose attentions find their caches stored keep what is the same. -/
theorem SameSoFar.run {stored : List NnSource} (hm : SameSoFar b position stored m m')
    (hops : ∀ op ∈ ops, RowWise node op ∧ KvOp b node op) (hlocal : LocalPosition b position)
    (hcaches : ∀ source ∈ stores b, IsCache source) (hstores : ∀ source ∈ stored, source ∈ stores b)
    (hwrites : ∀ op ∈ ops, ∀ source ∈ cacheWrites op, source ∈ stores b)
    (hchecks : Checks stored (ops.map cacheUse)) :
    SameSoFar b position (after stored (ops.map cacheUse))
      (runOps node nThreads (cpuKernels cpu node) 1 ops m)
      (runOps node nThreads (cpuKernels cpu node) 1 ops m') := by
  induction ops generalizing stored m m' with
  | nil => exact hm
  | cons op ops ih =>
    obtain ⟨hreads, hrest⟩ := hchecks
    obtain ⟨hop, hkv⟩ := hops op List.mem_cons_self
    have hnext := @SameSoFar.apply R _ _ _ _ cpu b node nThreads position op m m' stored hm hop hkv
      hlocal hcaches hstores fun source hsource => (covered_iff _ _).mp (hreads source hsource)
    have hmore : ∀ source ∈ cacheWrites op ++ stored, source ∈ stores b := by
      intro source hsource
      cases List.mem_append.mp hsource with
      | inl hwritten => exact hwrites op List.mem_cons_self source hwritten
      | inr hbefore => exact hstores source hbefore
    exact ih hnext (fun op' hop' => hops op' (List.mem_cons_of_mem op hop')) hmore
      (fun op' hop' => hwrites op' (List.mem_cons_of_mem op hop')) hrest

omit [IsStrictOrderedRing R] in
/-- A forward leaves the other positions. -/
theorem runOps_frame (hops : ∀ op ∈ ops, RowWise node op) {c : Cell} (hc : IsCache c.source)
    (hne : c.y ≠ positionOf m) : runOps node nThreads (cpuKernels cpu node) 1 ops m c = m c := by
  induction ops generalizing m with
  | nil => exact Eq.refl _
  | cons op ops ih =>
    have hop := hops op List.mem_cons_self
    have hnext : c.y ≠ positionOf
        ((opAction node nThreads (cpuKernels cpu node) 1 op).apply m) := by
      rw [positionOf_apply hop m]
      exact hne
    have hrest := ih (fun op' hop' => hops op' (List.mem_cons_of_mem op hop')) hnext
    rw [runOps, List.map_cons, run_cons, ← runOps, hrest, hop.cache_frame m hc hne]

end Step

section Forward

variable {R : Type} [Field R] [LinearOrder R] [IsStrictOrderedRing R] [FloorRing R] {cpu : Cpu R}
  {b : NnNodeBuilder} {nBatches seqLen nThreads : ℕ} {m m' : Memory R}

/-- What a node with all layers needs so that its caches hold prefixes. -/
structure PrefixNode (b : NnNodeBuilder) (nBatches seqLen : ℕ) : Prop where
  /-- It has all layers. -/
  alone : Alone b
  /-- Its rows are computed one by one. -/
  rows : RowModel b
  /-- Sizes of its rows. -/
  sized : Sized (builtNode b nBatches false) b
  /-- Columns of its caches. -/
  columns : KvSized b
  /-- It stores all positions. -/
  positions : ∀ position < seqLen, LocalPosition b position

theorem positionOf_piped (row : ℕ × ℤ) (m : Memory R) : positionOf (piped [row] m) = row.1 := by
  have hone : 0 < [row].length := Nat.one_pos
  rw [positionOf, piped_pos m hone]
  exact Nat.floor_natCast _

theorem isCache_stores (h : PrefixNode b nBatches seqLen) : ∀ source ∈ stores b, IsCache source := by
  intro source hsource
  obtain ⟨op, hop, hmem⟩ := List.mem_flatMap.mp hsource
  have hrow := rowWise_nodeOps nBatches h.rows h.alone.layers op hop
  exact hrow.reads _ (hrow.writes _ hmem).1

/-- A forward of one row leaves the caches at other positions. -/
theorem feed_frame (h : PrefixNode b nBatches seqLen) (row : ℕ × ℤ) {c : Cell}
    (hc : IsCache c.source) (hne : c.y ≠ row.1) :
    feed (cpuNode cpu (builtNode b nBatches false) nThreads) [row] m c = m c := by
  have hops := rowWise_nodeOps nBatches h.rows h.alone.layers
  have hother : c.y ≠ positionOf (piped [row] m) := by
    rw [positionOf_piped]
    exact hne
  rw [feed_eq h.alone, List.length_singleton, runOps_frame hops hc hother, piped_cache _ m hc]

/-- A forward of one row depends on the earlier positions of the caches. -/
theorem feed_earlier (h : PrefixNode b nBatches seqLen) (hthreads : 0 < nThreads) (row : ℕ × ℤ)
    (hposition : row.1 < seqLen) (hsame : ∀ c, Kept b c → c.y < row.1 → m c = m' c) :
    (∀ c, Kept b c → c.y ≤ row.1 →
      feed (cpuNode cpu (builtNode b nBatches false) nThreads) [row] m c =
        feed (cpuNode cpu (builtNode b nBatches false) nThreads) [row] m' c) ∧
      fedLogits (cpuNode cpu (builtNode b nBatches false) nThreads) [[row]] m =
        fedLogits (cpuNode cpu (builtNode b nBatches false) nThreads) [[row]] m' := by
  have hcaches := isCache_stores h
  have hone : 0 < [row].length := Nat.one_pos
  -- the rows of the first memory with the caches of the second one
  let mid : Memory R := fun c => if IsCache c.source then piped [row] m' c else piped [row] m c
  have hfirst : SameSoFar b row.1 [] (piped [row] m) mid := by
    constructor
    · intro c hc
      exact (if_neg hc).symm
    · exact positionOf_piped row m
    · intro c hc hlt
      have hcache := hcaches _ hc.1
      have hmid : mid c = piped [row] m' c := if_pos hcache
      rw [hmid, piped_cache _ m hcache, piped_cache _ m' hcache]
      exact hsame c hc hlt
    · exact fun _ _ _ hmem => absurd hmem List.not_mem_nil
  have hops : ∀ op ∈ nodeOps b, RowWise (builtNode b nBatches false) op ∧
      KvOp b (builtNode b nBatches false) op := fun op hop =>
    ⟨rowWise_nodeOps nBatches h.rows h.alone.layers op hop, kvOp_nodeOps nBatches h.columns op hop⟩
  have hwrites : ∀ op ∈ nodeOps b, ∀ source ∈ cacheWrites op, source ∈ stores b :=
    fun op hop source hmem => List.mem_flatMap.mpr ⟨op, hop, hmem⟩
  have hrun := @SameSoFar.run R _ _ _ _ cpu b (builtNode b nBatches false) nThreads row.1 _ _ _ _
    hfirst hops (h.positions _ hposition) hcaches (fun _ hmem => absurd hmem List.not_mem_nil) hwrites
    (triple_iff.mp (triple_caches b)).1
  have hstored : ∀ source ∈ stores b, source ∈ after [] ((nodeOps b).map cacheUse) := by
    intro source hsource
    obtain ⟨op, hop, hmem⟩ := List.mem_flatMap.mp hsource
    exact (mem_after _ _ _).mpr (.inr ⟨cacheUse op, List.mem_map_of_mem hop, hmem⟩)
  have hpos : mid ⟨.pipe .pos, 0, 0, 0⟩ = piped [row] m' ⟨.pipe .pos, 0, 0, 0⟩ := by
    have hmid : mid ⟨.pipe .pos, 0, 0, 0⟩ = piped [row] m ⟨.pipe .pos, 0, 0, 0⟩ := if_neg id
    rw [hmid, piped_pos m hone, piped_pos m' hone]
  have htok : mid ⟨.pipe .tok, 0, 0, 0⟩ = piped [row] m' ⟨.pipe .tok, 0, 0, 0⟩ := by
    have hmid : mid ⟨.pipe .tok, 0, 0, 0⟩ = piped [row] m ⟨.pipe .tok, 0, 0, 0⟩ := if_neg id
    rw [hmid, piped_tok m hone, piped_tok m' hone]
  obtain ⟨hcells, hlogits⟩ := @feed_single R _ _ _ cpu b nBatches nThreads h.alone h.rows h.sized
    hthreads _ _ hpos htok fun c hc => if_pos hc
  constructor
  · intro c hc hle
    have hleft : runOps (builtNode b nBatches false) nThreads
        (cpuKernels cpu (builtNode b nBatches false)) 1 (nodeOps b) (piped [row] m) c =
        runOps (builtNode b nBatches false) nThreads
          (cpuKernels cpu (builtNode b nBatches false)) 1 (nodeOps b) mid c := by
      cases Nat.lt_or_eq_of_le hle with
      | inl hlt => exact hrun.earlier c hc hlt
      | inr hy => exact hrun.stored c hc hy (hstored _ hc.1)
    rw [feed_eq h.alone, feed_eq h.alone, List.length_singleton, hleft]
    exact hcells c (hcaches _ hc.1)
  · rw [fedLogits, fedLogits, fedLogits, fedLogits, feed_eq h.alone, feed_eq h.alone,
      List.length_singleton, List.append_nil, List.append_nil, readPipe_rows, readPipe_rows,
      List.range_one, List.flatMap_singleton, List.flatMap_singleton]
    apply List.map_congr_left
    intro x hx
    have hrow : ¬IsCache (.pipe .lg) := id
    rw [hrun.rows ⟨.pipe .lg, 0, 0, x⟩ hrow]
    exact hlogits x (List.mem_range.mp hx)

end Forward

section Conversations

variable {T A : Type*}

/-- A forward of a conversation: the position of its first row, and its tokens. -/
structure Turn (T : Type*) where
  /-- The position. -/
  position : ℕ
  /-- The tokens. -/
  tokens : List T

/-- The tokens of a conversation after a forward: those before its position stay. -/
def Turn.hold (held : List T) (turn : Turn T) : List T := held.take turn.position ++ turn.tokens

/-- What a function of prefixes replies to tokens behind a prefix. -/
def replies (model : List T → List A) : List T → List T → List A
  | _, [] => []
  | before, token :: tokens => model (before ++ [token]) ++ replies model (before ++ [token]) tokens

/-- What it replies in a conversation. -/
def conversation (model : List T → List A) : List T → List (Turn T) → List A
  | _, [] => []
  | held, turn :: turns => replies model (held.take turn.position) turn.tokens ++
      conversation model (turn.hold held) turns

/-- Forwards that start behind tokens that are held, and end in the context. -/
def Fits (seqLen : ℕ) : List T → List (Turn T) → Prop
  | _, [] => True
  | held, turn :: turns => turn.position ≤ held.length ∧
      turn.position + turn.tokens.length ≤ seqLen ∧ Fits seqLen (turn.hold held) turns

/-- Tokens with the positions from one on. -/
def rowsFrom : ℕ → List T → List (ℕ × T)
  | _, [] => []
  | position, token :: tokens => (position, token) :: rowsFrom (position + 1) tokens

/-- The rows of a forward. -/
def Turn.rows (turn : Turn T) : List (ℕ × T) := rowsFrom turn.position turn.tokens

theorem rowsFrom_append (position : ℕ) (tokens more : List T) :
    rowsFrom position (tokens ++ more) =
      rowsFrom position tokens ++ rowsFrom (position + tokens.length) more := by
  induction tokens generalizing position with
  | nil => exact Eq.refl _
  | cons token tokens ih =>
    rw [List.cons_append, rowsFrom, rowsFrom, ih, List.cons_append, List.length_cons, Nat.add_assoc,
      Nat.add_comm 1]

theorem positions_rowsFrom (position : ℕ) (tokens : List T) :
    (rowsFrom position tokens).map Prod.fst = List.range' position tokens.length := by
  induction tokens generalizing position with
  | nil => exact Eq.refl _
  | cons token tokens ih => rw [rowsFrom, List.map_cons, ih, List.length_cons, List.range'_succ]

theorem increasing_rowsFrom (position : ℕ) (tokens : List ℤ) :
    Increasing (rowsFrom position tokens) := by
  rw [Increasing, positions_rowsFrom]
  exact List.pairwise_lt_range'

end Conversations

section Refinement

variable {R : Type} [Field R] [LinearOrder R] [IsStrictOrderedRing R] [FloorRing R] {cpu : Cpu R}
  {b : NnNodeBuilder} {nBatches seqLen nThreads : ℕ} {m : Memory R}

/-- A new node after the tokens of a prefix, one forward a token. -/
def prefixMemory (s : StageNode R) (tokens : List ℤ) : Memory R :=
  feedAll s (oneByOne (rowsFrom 0 tokens)) fun _ => 0

/-- The row of logits that a new node has after a prefix. -/
def prefixLogits (s : StageNode R) (tokens : List ℤ) : List R :=
  readPipe .lg s.node.header.vocabSize s.node.header.vocabSize (prefixMemory s tokens)

/-- The caches hold the rows of some tokens. -/
def Holds (b : NnNodeBuilder) (s : StageNode R) (tokens : List ℤ) (m : Memory R) : Prop :=
  ∀ c, Kept b c → c.y < tokens.length → m c = prefixMemory s tokens c

omit [LinearOrder R] [IsStrictOrderedRing R] [FloorRing R] in
theorem holds_nil (s : StageNode R) (m : Memory R) : Holds b s [] m :=
  fun _ _ hlt => absurd hlt (Nat.not_lt_zero _)

omit [LinearOrder R] [IsStrictOrderedRing R] [FloorRing R] in
theorem prefixMemory_snoc (s : StageNode R) (tokens : List ℤ) (token : ℤ) :
    prefixMemory s (tokens ++ [token]) = feed s [(tokens.length, token)] (prefixMemory s tokens) := by
  rw [prefixMemory, rowsFrom_append, oneByOne_append, feedAll_append, Nat.zero_add]
  exact Eq.refl _

/-- Later tokens leave what is held of earlier ones. -/
theorem feedAll_frame (h : PrefixNode b nBatches seqLen) {c : Cell} (hc : IsCache c.source)
    {position : ℕ} (hlt : c.y < position) (tokens : List ℤ) (m : Memory R) :
    feedAll (cpuNode cpu (builtNode b nBatches false) nThreads)
      (oneByOne (rowsFrom position tokens)) m c = m c := by
  induction tokens generalizing position m with
  | nil => exact Eq.refl _
  | cons token tokens ih =>
    have hrest := ih (Nat.lt_succ_of_lt hlt)
      (feed (cpuNode cpu (builtNode b nBatches false) nThreads) [(position, token)] m)
    exact hrest.trans (feed_frame h (position, token) hc (Nat.ne_of_lt hlt))

/-- What is held of a prefix of the tokens. -/
theorem Holds.take (h : PrefixNode b nBatches seqLen) {tokens : List ℤ}
    (hm : Holds b (cpuNode cpu (builtNode b nBatches false) nThreads) tokens m) (position : ℕ) :
    Holds b (cpuNode cpu (builtNode b nBatches false) nThreads) (tokens.take position) m := by
  intro c hc hlt
  have hle : c.y < tokens.length := by
    rw [List.length_take] at hlt
    omega
  have hframe := @feedAll_frame R _ _ _ _ cpu b nBatches seqLen nThreads h c (isCache_stores h _ hc.1)
    (0 + (tokens.take position).length) (by omega) (tokens.drop position)
    (prefixMemory (cpuNode cpu (builtNode b nBatches false) nThreads) (tokens.take position))
  have hsplit : prefixMemory (cpuNode cpu (builtNode b nBatches false) nThreads) tokens =
      feedAll (cpuNode cpu (builtNode b nBatches false) nThreads)
        (oneByOne (rowsFrom (0 + (tokens.take position).length) (tokens.drop position)))
        (prefixMemory (cpuNode cpu (builtNode b nBatches false) nThreads)
          (tokens.take position)) := by
    rw [prefixMemory, prefixMemory, ← feedAll_append, ← oneByOne_append, ← rowsFrom_append,
      List.take_append_drop]
  rw [hm c hc hle, hsplit, hframe]

/-- One token more. -/
theorem Holds.step (h : PrefixNode b nBatches seqLen) (hthreads : 0 < nThreads) {tokens : List ℤ}
    (hm : Holds b (cpuNode cpu (builtNode b nBatches false) nThreads) tokens m)
    (hlength : tokens.length < seqLen) (token : ℤ) :
    Holds b (cpuNode cpu (builtNode b nBatches false) nThreads) (tokens ++ [token])
        (feed (cpuNode cpu (builtNode b nBatches false) nThreads) [(tokens.length, token)] m) ∧
      fedLogits (cpuNode cpu (builtNode b nBatches false) nThreads) [[(tokens.length, token)]] m =
        prefixLogits (cpuNode cpu (builtNode b nBatches false) nThreads) (tokens ++ [token]) := by
  obtain ⟨hcells, hlogits⟩ := @feed_earlier R _ _ _ _ cpu b nBatches seqLen nThreads _ _ h hthreads
    (tokens.length, token) hlength hm
  constructor
  · intro c hc hlt
    rw [List.length_append, List.length_singleton] at hlt
    rw [prefixMemory_snoc]
    exact hcells c hc (Nat.le_of_lt_succ hlt)
  · rw [hlogits, prefixLogits, prefixMemory_snoc, fedLogits, fedLogits, List.length_singleton,
      Nat.mul_one, List.append_nil]

/-- Tokens one by one behind those that are held. -/
theorem Holds.rows (h : PrefixNode b nBatches seqLen) (hthreads : 0 < nThreads)
    {before : List ℤ} (hm : Holds b (cpuNode cpu (builtNode b nBatches false) nThreads) before m)
    {tokens : List ℤ} (hlength : before.length + tokens.length ≤ seqLen) :
    Holds b (cpuNode cpu (builtNode b nBatches false) nThreads) (before ++ tokens)
        (feedAll (cpuNode cpu (builtNode b nBatches false) nThreads)
          (oneByOne (rowsFrom before.length tokens)) m) ∧
      fedLogits (cpuNode cpu (builtNode b nBatches false) nThreads)
          (oneByOne (rowsFrom before.length tokens)) m =
        replies (prefixLogits (cpuNode cpu (builtNode b nBatches false) nThreads)) before
          tokens := by
  induction tokens generalizing before m with
  | nil =>
    rw [List.append_nil]
    exact ⟨hm, Eq.refl _⟩
  | cons token tokens ih =>
    rw [List.length_cons] at hlength
    have hnext := hm.step h hthreads (by omega) token
    have hmore : (before ++ [token]).length + tokens.length ≤ seqLen := by
      rw [List.length_append, List.length_singleton]
      omega
    obtain ⟨hheld, hrest⟩ := ih hnext.1 hmore
    rw [List.append_assoc, List.singleton_append, List.length_append, List.length_singleton] at hheld
    rw [List.length_append, List.length_singleton] at hrest
    have hsplit : oneByOne (rowsFrom before.length (token :: tokens)) =
        [[(before.length, token)]] ++ oneByOne (rowsFrom (before.length + 1) tokens) := Eq.refl _
    rw [hsplit, feedAll_append, fedLogits_append, replies, ← hnext.2, ← hrest]
    exact ⟨hheld, Eq.refl _⟩

/-- A forward of a conversation. -/
theorem Holds.turn (h : PrefixNode b nBatches seqLen) (hthreads : 0 < nThreads) {held : List ℤ}
    (hm : Holds b (cpuNode cpu (builtNode b nBatches false) nThreads) held m) {turn : Turn ℤ}
    (hposition : turn.position ≤ held.length)
    (hlength : turn.position + turn.tokens.length ≤ seqLen) :
    Holds b (cpuNode cpu (builtNode b nBatches false) nThreads) (turn.hold held)
        (feed (cpuNode cpu (builtNode b nBatches false) nThreads) turn.rows m) ∧
      fedLogits (cpuNode cpu (builtNode b nBatches false) nThreads) [turn.rows] m =
        replies (prefixLogits (cpuNode cpu (builtNode b nBatches false) nThreads))
          (held.take turn.position) turn.tokens := by
  have htake : (held.take turn.position).length = turn.position := by
    rw [List.length_take]
    exact Nat.min_eq_left hposition
  have hbefore := hm.take h turn.position
  have hrows := @Holds.rows R _ _ _ _ cpu b nBatches seqLen nThreads m h hthreads
    (held.take turn.position) hbefore turn.tokens (by rw [htake]; exact hlength)
  rw [htake] at hrows
  obtain ⟨hheld, hreplies⟩ := hrows
  have hchunks : ∀ rows ∈ [turn.rows], Increasing rows := by
    intro rows hmem
    rw [List.mem_singleton.mp hmem]
    exact increasing_rowsFrom _ _
  obtain ⟨hcells, hlogits⟩ := @feedAll_rows R _ _ _ _ cpu b nBatches nThreads h.alone h.rows h.sized
    hthreads [turn.rows] hchunks m m fun _ _ => Eq.refl _
  rw [List.flatten_singleton] at hcells hlogits
  constructor
  · intro c hc hlt
    exact (hcells c (isCache_stores h _ hc.1)).trans (hheld c hc hlt)
  · exact hlogits.trans hreplies

/-- A node that holds some tokens answers as the function of prefixes, and holds the tokens of the
conversation after it. -/
theorem Holds.run (h : PrefixNode b nBatches seqLen) (hthreads : 0 < nThreads)
    {held : List ℤ} (hm : Holds b (cpuNode cpu (builtNode b nBatches false) nThreads) held m)
    {turns : List (Turn ℤ)} (hturns : Fits seqLen held turns) :
    Holds b (cpuNode cpu (builtNode b nBatches false) nThreads) (turns.foldl Turn.hold held)
        (feedAll (cpuNode cpu (builtNode b nBatches false) nThreads) (turns.map Turn.rows) m) ∧
      fedLogits (cpuNode cpu (builtNode b nBatches false) nThreads) (turns.map Turn.rows) m =
        conversation (prefixLogits (cpuNode cpu (builtNode b nBatches false) nThreads)) held
          turns := by
  induction turns generalizing held m with
  | nil => exact ⟨hm, Eq.refl _⟩
  | cons turn turns ih =>
    obtain ⟨hposition, hlength, hrest⟩ := hturns
    obtain ⟨hheld, hreplies⟩ := hm.turn h hthreads hposition hlength
    obtain ⟨hlater, hanswers⟩ := ih hheld hrest
    have hsplit : (turn :: turns).map Turn.rows = [turn.rows] ++ turns.map Turn.rows := Eq.refl _
    rw [hsplit, feedAll_append, fedLogits_append, hreplies, conversation, ← hanswers]
    exact ⟨hlater, Eq.refl _⟩

end Refinement

section Models

variable {R : Type} [Field R] [LinearOrder R] [IsStrictOrderedRing R] [FloorRing R] {cpu : Cpu R}
  {h : LlmHeader} {nBatches nThreads : ℕ} {net : LlmNet} {config : NnNodeConfig}

theorem exists_prefixNode (hheader : RowHeader h)
    (hnet : buildLlmNet h ⟨1, 1, 1, 1⟩ nBatches none false = .ok net)
    (hinit : ∀ config ∈ net.nodeConfigs, Initialized (nodeOf h nBatches config)) :
    ∃ b config, net.nodeConfigs[0]? = some config ∧
      nodeOf h nBatches config = builtNode b nBatches false ∧ PrefixNode b nBatches h.seqLen := by
  obtain ⟨b, config, hconfig, hnode, halone, hmodel, hsized, hshape, layerOffsets, hbuilt⟩ :=
    exists_alone hheader hnet hinit
  refine ⟨b, config, hconfig, hnode, halone, hmodel, hsized, ?_, ?_⟩
  all_goals
    obtain ⟨hheaderEq, _, _, hk, hv, _⟩ := buildShape_ok hshape
    have hkv := hbuilt.kvCache_eq
    obtain ⟨v, _, hkv⟩ := bind_eq_ok hkv
    obtain ⟨w, _, hkv⟩ := bind_eq_ok hkv
    obtain ⟨y, _, hkv⟩ := bind_eq_ok hkv
    injection hkv with hkv
  · have hcolumns {slice : NnRowMatmulSlice}
        (hslice : sliceRowMatmul h.weightType 1 h.dim h.kvDim = .ok slice) :
        slice.d0 = b.kvCacheSlice.kvDim0 := by
      obtain ⟨_, _, hslice⟩ := bind_eq_ok hslice
      obtain ⟨_, _, hslice⟩ := bind_eq_ok hslice
      obtain ⟨_, _, hslice⟩ := bind_eq_ok hslice
      injection hslice with hslice
      rw [← hslice, ← hkv, hheaderEq]
    rw [← hbuilt.shape_eq] at hk hv
    exact ⟨hcolumns hk, hcolumns hv⟩
  · intro position hlt _
    have hplacement := hbuilt.placement_eq
    have hrank : b.nodePlacement.spRank = 0 := by
      injection hplacement with hplacement
      rw [← hplacement]
      exact Eq.refl _
    rw [← hkv, hheaderEq, hrank]
    simpa using hlt

/-- Whatever the caches held before, one node answers every forward of a conversation as one function
of the tokens up to each row: forwards may start again at any position that is held, and be cut in
any way. -/
theorem answers_of_prefixes (hheader : RowHeader h)
    (hnet : buildLlmNet h ⟨1, 1, 1, 1⟩ nBatches none false = .ok net)
    (hinit : ∀ config ∈ net.nodeConfigs, Initialized (nodeOf h nBatches config))
    (hconfig : net.nodeConfigs[0]? = some config) (hthreads : 0 < nThreads)
    {turns : List (Turn ℤ)} (hturns : Fits h.seqLen [] turns) (m : Memory R) :
    fedLogits (cpuNode cpu (nodeOf h nBatches config) nThreads) (turns.map Turn.rows) m =
      conversation (prefixLogits (cpuNode cpu (nodeOf h nBatches config) nThreads)) [] turns := by
  obtain ⟨b, config', hconfig', hnode, hprefixNode⟩ := exists_prefixNode hheader hnet hinit
  rw [hconfig] at hconfig'
  injection hconfig' with hsame
  rw [hsame, hnode]
  exact ((holds_nil _ m).run hprefixNode hthreads hturns).2

/-- A prompt of two tokens, a third one, and another continuation of the first. -/
theorem answers_of_prefixes_three : ∃ net config,
    buildLlmNet eightColumns ⟨1, 1, 1, 1⟩ 4 none false = .ok net ∧
      net.nodeConfigs[0]? = some config ∧
      (∀ op ∈ config.ops, WholeRegisters (nodeOf eightColumns 4 config) op 8) ∧
      fedLogits (cpuNode realCpu (nodeOf eightColumns 4 config) 1)
          [[(0, 3), (1, 4)], [(2, 5)], [(1, 6)]] (fun _ => 7) =
        prefixLogits (cpuNode realCpu (nodeOf eightColumns 4 config) 1) [3] ++
          prefixLogits (cpuNode realCpu (nodeOf eightColumns 4 config) 1) [3, 4] ++
          prefixLogits (cpuNode realCpu (nodeOf eightColumns 4 config) 1) [3, 4, 5] ++
          prefixLogits (cpuNode realCpu (nodeOf eightColumns 4 config) 1) [3, 6] := by
  obtain ⟨net, config, hnet, hinit, hconfig, hwhole⟩ := exists_eightColumns
  have hturns : Fits eightColumns.seqLen [] [⟨0, [(3 : ℤ), 4]⟩, ⟨2, [5]⟩, ⟨1, [6]⟩] := by
    simp [Fits, Turn.hold, eightColumns]
  have hanswers := @answers_of_prefixes ℝ _ _ _ _ realCpu _ 4 1 _ _ rowHeader_eightColumns hnet hinit
    hconfig Nat.one_pos _ hturns fun _ => 7
  refine ⟨net, config, hnet, hconfig, hwhole, hanswers.trans ?_⟩
  simp [conversation, replies, Turn.hold]

end Models

end LayerSkip.PrefixCache
