import LayerSkip.MoeBlock
import LayerSkip.PipelineRefinement
import LayerSkip.PrefillRows
import LayerSkip.VectorLoops

/-!
# What a prompt leaves on a node

A node with all layers does for any chunks with increasing positions what it does for their rows one
by one. So the caches after a prefill, and all that is answered afterwards, do not depend on the
options about batches, nor on which driver sent the prompt.
-/

namespace LayerSkip.ChunkedPrompt

open NnTopology NnPipeline NnCore NnCpu LlmGraph Dataflow RegionFlow ForwardReads ForwardTriples
open ForwardFreshness StageExecutor StageSimulation StageHandOver StageForward CpuKernels BatchRows
open LoopInterchange PrefillRows VectorLoops
open DevicePlacement (NnNode)

section Chunks

variable {R : Type} [Field R] [LinearOrder R] [IsStrictOrderedRing R] [FloorRing R] {cpu : Cpu R}
  {b : NnNodeBuilder} {nBatches nThreads : ℕ}

/-- Every row comes behind the rows before it. -/
def Increasing (rows : List (ℕ × ℤ)) : Prop := (rows.map Prod.fst).Pairwise (· < ·)

instance (rows : List (ℕ × ℤ)) : Decidable (Increasing rows) :=
  inferInstanceAs (Decidable (List.Pairwise _ _))

theorem oneByOne_append (rows more : List (ℕ × ℤ)) :
    oneByOne (rows ++ more) = oneByOne rows ++ oneByOne more := List.map_append

/-- Chunks do what their rows do one by one. -/
theorem feedAll_rows (h : Alone b) (hmodel : RowModel b) (hs : Sized (builtNode b nBatches false) b)
    (hthreads : 0 < nThreads) {chunks : List (List (ℕ × ℤ))}
    (hchunks : ∀ rows ∈ chunks, Increasing rows) {m m' : Memory R}
    (hcaches : ∀ c : Cell, IsCache c.source → m c = m' c) :
    (∀ c : Cell, IsCache c.source →
      feedAll (cpuNode cpu (builtNode b nBatches false) nThreads) chunks m c =
        feedAll (cpuNode cpu (builtNode b nBatches false) nThreads) (oneByOne chunks.flatten) m' c) ∧
      fedLogits (cpuNode cpu (builtNode b nBatches false) nThreads) chunks m =
        fedLogits (cpuNode cpu (builtNode b nBatches false) nThreads) (oneByOne chunks.flatten)
          m' := by
  induction chunks generalizing m m' with
  | nil => exact ⟨hcaches, Eq.refl _⟩
  | cons rows chunks ih =>
    have hfed := @feed_rows R _ _ _ _ cpu b nBatches nThreads rows h hmodel hs hthreads
      (hchunks rows List.mem_cons_self) m m' hcaches
    have hnext := hfed.caches
    have hlogits := hfed.logits
    rw [List.take_length] at hnext hlogits
    obtain ⟨hcells, hrows⟩ := ih (fun more hmem => hchunks more (List.mem_cons_of_mem rows hmem)) hnext
    rw [List.flatten_cons, oneByOne_append, feedAll_append, fedLogits_append]
    constructor
    · exact hcells
    · rw [fedLogits, hrows, readPipe_rows, ← hlogits]

/-- Two ways to cut the same rows do the same. -/
theorem feedAll_congr (h : Alone b) (hmodel : RowModel b) (hs : Sized (builtNode b nBatches false) b)
    (hthreads : 0 < nThreads) {chunks chunks' : List (List (ℕ × ℤ))}
    (hchunks : ∀ rows ∈ chunks, Increasing rows) (hchunks' : ∀ rows ∈ chunks', Increasing rows)
    (hsame : chunks.flatten = chunks'.flatten) {m m' : Memory R}
    (hcaches : ∀ c : Cell, IsCache c.source → m c = m' c) :
    (∀ c : Cell, IsCache c.source →
      feedAll (cpuNode cpu (builtNode b nBatches false) nThreads) chunks m c =
        feedAll (cpuNode cpu (builtNode b nBatches false) nThreads) chunks' m' c) ∧
      fedLogits (cpuNode cpu (builtNode b nBatches false) nThreads) chunks m =
        fedLogits (cpuNode cpu (builtNode b nBatches false) nThreads) chunks' m' := by
  obtain ⟨hcells, hlogits⟩ := @feedAll_rows R _ _ _ _ cpu b nBatches nThreads h hmodel hs hthreads
    chunks hchunks m m' hcaches
  obtain ⟨hcells', hlogits'⟩ := @feedAll_rows R _ _ _ _ cpu b nBatches nThreads h hmodel hs hthreads
    chunks' hchunks' m' m' (fun _ _ => Eq.refl _)
  rw [hsame] at hcells hlogits
  constructor
  · intro c hc
    exact (hcells c hc).trans (hcells' c hc).symm
  · exact hlogits.trans hlogits'.symm

end Chunks

section Models

variable {h : LlmHeader} {nBatches : ℕ} {ppStageLayerCounts : Option (List ℕ)} {net : LlmNet}

/-- What a header needs so that its rows are computed one by one. -/
structure RowHeader (h : LlmHeader) : Prop where
  /-- There is a layer. -/
  layers : 0 < h.nLayers
  /-- Query columns of all heads. -/
  qDim : h.qDim = h.headDim * h.nHeads % 2 ^ 32
  /-- Key columns of all key heads. -/
  kvDim : h.kvDim = h.headDim * h.nKvHeads
  /-- Every key head has as many query heads. -/
  groups : h.nKvHeads ∣ h.nHeads
  /-- Experts come in several. -/
  experts : h.archType = .qwen3Moe → h.nActiveExperts ≠ 1

/-- Every head has its key head in a row of the caches. -/
theorem headsFit_of_groups {config : NnMultiHeadAttOpConfig}
    (hheads : config.nHeads0 = config.nHeads) (hgroups : config.nKvHeads ∣ config.nHeads)
    (hkvDim : config.kvDim0 = config.headDim * config.nKvHeads) : HeadsFit config := by
  intro h0 hlt
  rw [hheads] at hlt
  obtain ⟨kvMul, hmul⟩ := hgroups
  have hkv : 0 < config.nKvHeads := by
    rw [hmul] at hlt
    exact Nat.pos_of_mul_pos_right (Nat.zero_lt_of_lt hlt)
  have hdiv : config.nHeads / config.nKvHeads = kvMul := by
    rw [hmul, Nat.mul_div_cancel_left kvMul hkv]
  have hhead : h0 / kvMul < config.nKvHeads := by
    rw [hmul, Nat.mul_comm] at hlt
    exact Nat.div_lt_of_lt_mul hlt
  rw [hdiv, hkvDim, Nat.mul_comm]
  exact Nat.mul_le_mul_left _ hhead

/-- The node of a model that runs on one node. -/
theorem exists_alone (hheader : RowHeader h)
    (hnet : buildLlmNet h ⟨1, 1, 1, 1⟩ nBatches none false = .ok net)
    (hinit : ∀ config ∈ net.nodeConfigs, Initialized (nodeOf h nBatches config)) :
    ∃ b config, net.nodeConfigs[0]? = some config ∧
      nodeOf h nBatches config = builtNode b nBatches false ∧ Alone b ∧ RowModel b ∧
      Sized (builtNode b nBatches false) b ∧ buildShape h 1 nBatches = .ok net.shape ∧
      ∃ layerOffsets, BuiltFrom net.shape ⟨1, 1, 1, 1⟩ layerOffsets 0 b := by
  obtain ⟨layerOffsets, hshape, hoffsets, _, hnodes⟩ := buildLlmNet_ok hnet
  obtain ⟨b, hb⟩ := exists_builtNode hshape hnodes Nat.one_pos
  obtain ⟨hfirst, hlast⟩ := PipelineRefinement.offsets_ends Nat.one_pos hoffsets
  have hstage : b.nodePlacement.ppRank = 0 := by
    rw [hb.ppRank]
    exact Nat.zero_div _
  have halone : Alone b := by
    constructor
    · exact ⟨hstage, hb.globalRank⟩
    · rw [hb.built.topology_eq]
    · rw [hb.built.layerStart_eq, hb.built.layerEnd_eq, hstage, hfirst, Nat.zero_add, hlast]
      exact hheader.layers
  have hnode := hinit _ (List.mem_of_getElem? hb.config)
  rw [hb.node_eq] at hnode
  refine ⟨b, _, hb.config, hb.node_eq, halone, ?_,
    sized hb.built hshape hheader.qDim hnode halone.layers, hshape, layerOffsets, hb.built⟩
  obtain ⟨hheaderEq, hatt, _⟩ := buildShape_ok hshape
  obtain ⟨u, _, hslice⟩ := bind_eq_ok hatt
  injection hslice with hslice
  have hkv := hb.built.kvCache_eq
  obtain ⟨v, _, hkv⟩ := bind_eq_ok hkv
  obtain ⟨w, _, hkv⟩ := bind_eq_ok hkv
  obtain ⟨y, _, hkv⟩ := bind_eq_ok hkv
  injection hkv with hkv
  constructor
  · intro layer
    apply headsFit_of_groups
    · simp [NnNodeBuilder.multiheadAttConfig, hb.built.shape_eq, ← hslice]
    · simpa [NnNodeBuilder.multiheadAttConfig, hb.built.shape_eq, ← hslice, hheaderEq] using
        hheader.groups
    · simpa [NnNodeBuilder.multiheadAttConfig, hb.built.shape_eq, ← hkv, hheaderEq] using
        hheader.kvDim
  · rw [hb.header]
    exact hheader.experts

end Models

section Prompts

open ContinuousBatching

variable {args : AppCliArgs} {s next : RootLlmInference}

theorem increasing_promptRows (tokens : List ℤ) (pos count : ℕ) :
    Increasing (promptRows tokens pos count) := by
  have hpositions : (promptRows tokens pos count).map Prod.fst = List.range' pos count := by
    rw [promptRows, List.map_map]
    exact List.map_id' _
  rw [Increasing, hpositions]
  exact List.pairwise_lt_range'

/-- Parts of increasing rows are increasing. -/
theorem increasing_of_flatten {chunks : List (List (ℕ × ℤ))} (h : Increasing chunks.flatten) :
    ∀ rows ∈ chunks, Increasing rows := fun _ hrows =>
  h.sublist ((List.sublist_flatten_of_mem hrows).map Prod.fst)

/-- What a driver has sent for some rows. -/
structure Fed (s next : RootLlmInference) (rows : List (ℕ × ℤ)) : Prop where
  /-- The rows, in chunks with increasing positions. -/
  sent : ∃ new, next.chunks = s.chunks ++ new ∧ (new.map Chunk.rows).flatten = rows ∧
    ∀ chunk ∈ new.map Chunk.rows, Increasing chunk

theorem fed_of_sends {call : ForwardCall} {cap : ℕ} {tokens : List ℤ} {pos count : ℕ}
    (h : Sends call cap tokens pos count s next) : Fed s next (promptRows tokens pos count) := by
  obtain ⟨new, hchunks, hrows, _⟩ := h.chunks
  rw [List.flatMap_def] at hrows
  have hincreasing := increasing_promptRows tokens pos count
  rw [← hrows] at hincreasing
  exact ⟨new, hchunks, hrows, increasing_of_flatten hincreasing⟩

theorem fed_of_sendsAll {prompts : List (List ℤ)} (h : SendsAll args prompts s next) :
    Fed s next (prompts.flatMap fun tokens => promptRows tokens 0 (tokens.length - 1)) := by
  induction prompts generalizing s with
  | nil =>
    have hsame : next = s := h
    exact ⟨[], by rw [hsame, List.append_nil], Eq.refl _, fun _ hmem => absurd hmem List.not_mem_nil⟩
  | cons tokens prompts ih =>
    obtain ⟨mid, hsends, hrest⟩ := h
    obtain ⟨new, hchunks, hrows, hincreasing⟩ := (fed_of_sends hsends).sent
    obtain ⟨more, hmore, hlater, hlaterIncreasing⟩ := (ih hrest).sent
    refine ⟨new ++ more, ?_, ?_, ?_⟩
    · rw [hmore, hchunks, List.append_assoc]
    · rw [List.map_append, List.flatten_append, hrows, hlater, List.flatMap_cons]
    · rw [List.map_append]
      intro chunk hchunk
      cases List.mem_append.mp hchunk with
      | inl hfirst => exact hincreasing chunk hfirst
      | inr hsecond => exact hlaterIncreasing chunk hsecond

end Prompts

section Results

open ContinuousBatching

variable {R : Type} [Field R] [LinearOrder R] [IsStrictOrderedRing R] [FloorRing R] {cpu : Cpu R}
  {h : LlmHeader} {nBatches nThreads : ℕ} {net : LlmNet} {config : NnNodeConfig}

/-- Two ways to feed a node leave the same caches, and the same answers to what comes next. -/
structure SameAfter (s : StageNode R) (chunks chunks' : List (List (ℕ × ℤ))) (m : Memory R) :
    Prop where
  /-- The caches. -/
  caches : ∀ c : Cell, IsCache c.source → feedAll s chunks m c = feedAll s chunks' m c
  /-- The answers. -/
  answers : ∀ more, (∀ rows ∈ more, Increasing rows) →
    fedLogits s more (feedAll s chunks m) = fedLogits s more (feedAll s chunks' m)

/-- What one node leaves does not depend on how the rows are cut. -/
theorem sameAfter (hheader : RowHeader h)
    (hnet : buildLlmNet h ⟨1, 1, 1, 1⟩ nBatches none false = .ok net)
    (hinit : ∀ config ∈ net.nodeConfigs, Initialized (nodeOf h nBatches config))
    (hconfig : net.nodeConfigs[0]? = some config) (hthreads : 0 < nThreads)
    {chunks : List (List (ℕ × ℤ))} (hchunks : ∀ rows ∈ chunks, Increasing rows) (m : Memory R) :
    SameAfter (cpuNode cpu (nodeOf h nBatches config) nThreads) chunks (oneByOne chunks.flatten) m := by
  obtain ⟨b, config', hconfig', hnode, halone, hmodel, hsized, _⟩ := exists_alone hheader hnet hinit
  rw [hconfig] at hconfig'
  injection hconfig' with hsame
  rw [hsame, hnode]
  obtain ⟨hcaches, _⟩ := @feedAll_rows R _ _ _ _ cpu b nBatches nThreads halone hmodel hsized hthreads
    chunks hchunks m m (fun _ _ => Eq.refl _)
  constructor
  · exact hcaches
  · intro more hmore
    exact (feedAll_congr halone hmodel hsized hthreads hmore hmore (Eq.refl _) hcaches).2

/-- On one node chunks with increasing positions leave the caches and give the logits that their rows
leave and give one by one. -/
theorem chunks_eq_rows (hheader : RowHeader h)
    (hnet : buildLlmNet h ⟨1, 1, 1, 1⟩ nBatches none false = .ok net)
    (hinit : ∀ config ∈ net.nodeConfigs, Initialized (nodeOf h nBatches config))
    (hconfig : net.nodeConfigs[0]? = some config) (hthreads : 0 < nThreads)
    {chunks : List (List (ℕ × ℤ))} (hchunks : ∀ rows ∈ chunks, Increasing rows) (m : Memory R) :
    (∀ c : Cell, IsCache c.source →
      feedAll (cpuNode cpu (nodeOf h nBatches config) nThreads) chunks m c =
        feedAll (cpuNode cpu (nodeOf h nBatches config) nThreads) (oneByOne chunks.flatten) m c) ∧
      fedLogits (cpuNode cpu (nodeOf h nBatches config) nThreads) chunks m =
        fedLogits (cpuNode cpu (nodeOf h nBatches config) nThreads) (oneByOne chunks.flatten) m := by
  obtain ⟨b, config', hconfig', hnode, halone, hmodel, hsized, _⟩ := exists_alone hheader hnet hinit
  rw [hconfig] at hconfig'
  injection hconfig' with hsame
  rw [hsame, hnode]
  exact feedAll_rows halone hmodel hsized hthreads hchunks fun _ _ => Eq.refl _

/-- Whatever the options, a prefill leaves the caches that the prompts leave token by token, and all
that comes next is answered as after these. -/
theorem prefill_eq_tokens (hheader : RowHeader h)
    (hnet : buildLlmNet h ⟨1, 1, 1, 1⟩ nBatches none false = .ok net)
    (hinit : ∀ config ∈ net.nodeConfigs, Initialized (nodeOf h nBatches config))
    (hconfig : net.nodeConfigs[0]? = some config) (hthreads : 0 < nThreads) {args : AppCliArgs}
    (haccepted : args.Accepted) {s : RootLlmInference} (hbuilt : BuiltFor args s)
    (hnew : s.chunks = []) :
    (∀ tokens, IsPrompt args tokens → ∀ wavePipeline fuel, tokens.length ≤ fuel → ∃ last next,
      inferencePrefill args wavePipeline tokens fuel s =
          .ok (some (tokens.length - 1, last, next)) ∧
        ∀ m : Memory R, SameAfter (cpuNode cpu (nodeOf h nBatches config) nThreads)
          (next.chunks.map Chunk.rows) (oneByOne (promptRows tokens 0 (tokens.length - 1))) m) ∧
      ∀ prompts : List (List ℤ), (∀ tokens ∈ prompts, IsPrompt args tokens) → ∀ fuel,
        (∀ tokens ∈ prompts, tokens.length ≤ fuel) → ∃ reqs next,
          requestsPrefill args fuel (prompts.map (newRequest args)) s = .ok (some (reqs, next)) ∧
            ∀ m : Memory R, SameAfter (cpuNode cpu (nodeOf h nBatches config) nThreads)
              (next.chunks.map Chunk.rows)
              (oneByOne (prompts.flatMap fun tokens => promptRows tokens 0 (tokens.length - 1))) m := by
  have hafter {next : RootLlmInference} {rows : List (ℕ × ℤ)} (hfed : Fed s next rows)
      (m : Memory R) : SameAfter (cpuNode cpu (nodeOf h nBatches config) nThreads)
        (next.chunks.map Chunk.rows) (oneByOne rows) m := by
    obtain ⟨new, hchunks, hrows, hincreasing⟩ := hfed.sent
    rw [hnew, List.nil_append] at hchunks
    rw [hchunks, ← hrows]
    exact sameAfter hheader hnet hinit hconfig hthreads hincreasing m
  constructor
  · intro tokens hprompt wavePipeline fuel hfuel
    obtain ⟨call, last, next, hrun, _, hsends⟩ :=
      inferencePrefill_ok haccepted hbuilt hprompt wavePipeline hfuel
    exact ⟨last, next, hrun, hafter (fed_of_sends hsends)⟩
  · intro prompts hprompts fuel hfuel
    obtain ⟨next, hrun, hsends⟩ := requestsPrefill_ok haccepted hprompts hbuilt hfuel
    exact ⟨_, next, hrun, hafter (fed_of_sendsAll hsends)⟩

open MoeBlock

/-- A processor with real numbers. -/
noncomputable def realCpu : Cpu ℝ where
  exponential := realExponential
  stdSort := stableSort ℝ
  sqrtf := Real.sqrt
  epsilon := 1 / 100000
  weight _ _ i := i
  ropeCache _ _ i := i
  llamafile_sgemm _ _ _ _ _ := false
  fusedArgmax _ _ _ _ := 0

/-- A model of two layers, with two heads of eight columns for each key head. -/
def eightColumns : LlmHeader :=
  ⟨.llama, 16, 2, 2, 8, 1, 0, 0, 4, 8, 0, 16, 8, 8, .llama, .f32, .f32⟩

theorem rowHeader_eightColumns : RowHeader eightColumns := by
  constructor
  all_goals decide

theorem vectorHeader_eightColumns : VectorHeader 8 1 eightColumns := by
  constructor
  all_goals decide

/-- Its node, which no loop over registers of eight lanes stops. -/
theorem exists_eightColumns : ∃ net config,
    buildLlmNet eightColumns ⟨1, 1, 1, 1⟩ 4 none false = .ok net ∧
      (∀ config ∈ net.nodeConfigs, Initialized (nodeOf eightColumns 4 config)) ∧
      net.nodeConfigs[0]? = some config ∧
      ∀ op ∈ config.ops, WholeRegisters (nodeOf eightColumns 4 config) op 8 := by
  obtain ⟨net, hnet, hinit⟩ := build_noGate eightColumns ⟨1, 1, 1, 1⟩ 4 none
    (by decide +kernel)
  obtain ⟨_, config, hconfig, _⟩ := exists_alone rowHeader_eightColumns hnet hinit
  exact ⟨net, config, hnet, hinit, hconfig,
    wholeRegisters_of_build vectorHeader_eightColumns hnet (List.mem_of_getElem? hconfig)⟩

/-- Three tokens at once, or one by one. -/
theorem chunks_eq_rows_three : ∃ net config,
    buildLlmNet eightColumns ⟨1, 1, 1, 1⟩ 4 none false = .ok net ∧
      net.nodeConfigs[0]? = some config ∧
      (∀ op ∈ config.ops, WholeRegisters (nodeOf eightColumns 4 config) op 8) ∧
      (∀ c : Cell, IsCache c.source →
        feedAll (cpuNode realCpu (nodeOf eightColumns 4 config) 1) [[(0, 3), (1, 4), (2, 5)]]
            (fun _ => 0) c =
          feedAll (cpuNode realCpu (nodeOf eightColumns 4 config) 1) [[(0, 3)], [(1, 4)], [(2, 5)]]
            (fun _ => 0) c) ∧
      fedLogits (cpuNode realCpu (nodeOf eightColumns 4 config) 1) [[(0, 3), (1, 4), (2, 5)]]
          (fun _ => 0) =
        fedLogits (cpuNode realCpu (nodeOf eightColumns 4 config) 1) [[(0, 3)], [(1, 4)], [(2, 5)]]
          (fun _ => 0) := by
  obtain ⟨net, config, hnet, hinit, hconfig, hwhole⟩ := exists_eightColumns
  have hchunks : ∀ rows ∈ [[(0, (3 : ℤ)), (1, 4), (2, 5)]], Increasing rows := by
    decide
  exact ⟨net, config, hnet, hconfig, hwhole,
    chunks_eq_rows rowHeader_eightColumns hnet hinit hconfig Nat.one_pos hchunks fun _ => 0⟩

/-- Options for one node with long prompts in chunks of two tokens. -/
def oneStage : AppCliArgs := ⟨4, 0, 4, 1, 2, 2, 4⟩

/-- A prompt of four tokens. -/
theorem prefill_eq_tokens_four : ∃ net config,
    buildLlmNet eightColumns ⟨1, 1, 1, 1⟩ 4 none false = .ok net ∧
      net.nodeConfigs[0]? = some config ∧
      (∀ op ∈ config.ops, WholeRegisters (nodeOf eightColumns 4 config) op 8) ∧
      ∃ last next, inferencePrefill oneStage false [1, 2, 3, 1] 4
          ⟨4, 4, 0, fun _ => 0, fun _ => 0, []⟩ = .ok (some (3, last, next)) ∧
        SameAfter (cpuNode realCpu (nodeOf eightColumns 4 config) 1) (next.chunks.map Chunk.rows)
          [[(0, 1)], [(1, 2)], [(2, 3)]] fun _ => 0 := by
  obtain ⟨net, config, hnet, hinit, hconfig, hwhole⟩ := exists_eightColumns
  have haccepted : oneStage.Accepted :=
    ⟨by decide, by decide, by decide, by decide⟩
  have hprompt : IsPrompt oneStage [1, 2, 3, 1] :=
    ⟨by decide, by decide, by decide, by decide⟩
  have hbuilt : BuiltFor oneStage ⟨4, 4, 0, fun _ => 0, fun _ => 0, []⟩ :=
    ⟨Eq.refl _, Eq.refl _⟩
  obtain ⟨last, next, hrun, hsame⟩ := (@prefill_eq_tokens ℝ _ _ _ _ realCpu _ 4 1 _ _
    rowHeader_eightColumns hnet hinit hconfig Nat.one_pos _ haccepted _ hbuilt (Eq.refl _)).1 _ hprompt
    false 4 (by decide)
  exact ⟨net, config, hnet, hconfig, hwhole, last, next, hrun, hsame _⟩

end Results

end LayerSkip.ChunkedPrompt
