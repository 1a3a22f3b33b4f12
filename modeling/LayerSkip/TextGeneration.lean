import LayerSkip.GreedySampling
import LayerSkip.PrefixCache

/-!
# The text that a prompt is continued with

The driver of a single prompt feeds the prompt but its last token in chunks, and then one token a
forward, each sampled from the logits of the one before. On one node the logits are a function of
the tokens up to the row, so the driver prints what repeated sampling from this function prints,
whatever the options say about batches and whatever the caches held before.
-/

namespace LayerSkip.TextGeneration

open NnTopology NnPipeline NnCore NnCpu LlmGraph ForwardReads ForwardTriples ForwardFreshness
open StageExecutor StageSimulation StageHandOver StageForward CpuKernels BatchRows PrefillRows
open ChunkedPrompt PrefixCache ContinuousBatching

section Sampling

variable {A σ : Type*}

/-- A sampler: from a row of logits it takes a token, and leaves other numbers in the row. -/
structure Sampler (A σ : Type*) where
  /-- The token, and the next state. -/
  sample : σ → List A → ℤ × σ
  /-- What it leaves in the row. -/
  leaves : σ → List A → List A

/-- Tokens that are sampled one after the other from a function of prefixes. -/
def continuation (model : List ℤ → List A) (sampler : Sampler A σ) : ℕ → List ℤ → σ → List ℤ
  | 0, _, _ => []
  | count + 1, tokens, state =>
    let sampled := sampler.sample state (model tokens)
    sampled.1 :: continuation model sampler count (tokens ++ [sampled.1]) sampled.2

end Sampling

section Driver

variable {R : Type} [Field R] [LinearOrder R] [IsStrictOrderedRing R] [FloorRing R] {σ : Type*}

/-- The decode loop of `inference`, for the positions that are left. -/
def decodeLoop (s : StageNode R) (sampler : Sampler R σ) : ℕ → ℕ → ℤ → σ → Memory R → List ℤ
  | 0, _, _, _, _ => []
  | count + 1, pos, token, state, m =>
    let m := feed s [(pos, token)] m
    let logits := readPipe .lg s.node.header.vocabSize s.node.header.vocabSize m
    let sampled := sampler.sample state logits
    sampled.1 :: decodeLoop s sampler count (pos + 1) sampled.1 sampled.2
      (writePipe .lg s.node.header.vocabSize (sampler.leaves state logits) m)

/-- Tokens that `inference` takes for a prompt. -/
def inference (s : StageNode R) (sampler : Sampler R σ) (args : AppCliArgs) (wavePipeline : Bool)
    (tokens : List ℤ) (fuel : ℕ) (root : RootLlmInference) (state : σ) (m : Memory R) :
    Except String (Option (List ℤ)) := do
  match ← inferencePrefill args wavePipeline tokens fuel root with
  | none => return none
  | some (pos, token, root) =>
    let maxPos := min args.seqLen args.steps
    return some (decodeLoop s sampler (maxPos - pos) pos token state
      (feedAll s (root.chunks.map Chunk.rows) m))

end Driver

section Prompts

/-- Rows of a part of a prompt. -/
theorem promptRows_eq (tokens : List ℤ) {pos count : ℕ} (h : pos + count ≤ tokens.length) :
    promptRows tokens pos count = rowsFrom pos ((tokens.drop pos).take count) := by
  induction count generalizing pos with
  | zero => exact Eq.refl _
  | succ count ih =>
    have hlt : pos < tokens.length := by
      omega
    have hrest := @ih (pos + 1) (by omega)
    rw [List.drop_eq_getElem_cons hlt, List.take_succ_cons, rowsFrom, ← hrest, promptRows,
      List.range'_succ, List.map_cons, ← promptRows, List.getD_eq_getElem _ _ hlt]

end Prompts

section Results

variable {R : Type} [Field R] [LinearOrder R] [IsStrictOrderedRing R] [FloorRing R] {σ : Type*}
  {cpu : Cpu R} {b : NnNodeBuilder} {h : LlmHeader} {nBatches seqLen nThreads : ℕ} {net : LlmNet}
  {config : NnNodeConfig} {m : Memory R}

omit [LinearOrder R] [IsStrictOrderedRing R] [FloorRing R] in
/-- What a sampler leaves in the logits does not change what is held. -/
theorem holds_writePipe (hprefixNode : PrefixNode b nBatches seqLen) {s : StageNode R} {tokens : List ℤ}
    (hm : Holds b s tokens m) (width : ℕ) (values : List R) :
    Holds b s tokens (writePipe .lg width values m) := by
  intro c hc hlt
  have hne : c.source ≠ .pipe .lg := by
    intro heq
    have hcache := isCache_stores hprefixNode _ hc.1
    rw [heq] at hcache
    exact hcache
  rw [writePipe_of_ne hne]
  exact hm c hc hlt

/-- The decode loop continues the tokens that are held. -/
theorem decodeLoop_eq (hprefixNode : PrefixNode b nBatches seqLen) (hthreads : 0 < nThreads)
    (sampler : Sampler R σ) {tokens : List ℤ}
    (hm : Holds b (cpuNode cpu (builtNode b nBatches false) nThreads) tokens m) {count : ℕ}
    (hcount : tokens.length + count ≤ seqLen) (token : ℤ) (state : σ) :
    decodeLoop (cpuNode cpu (builtNode b nBatches false) nThreads) sampler count tokens.length token
        state m =
      continuation (prefixLogits (cpuNode cpu (builtNode b nBatches false) nThreads)) sampler count
        (tokens ++ [token]) state := by
  induction count generalizing tokens token state m with
  | zero => exact Eq.refl _
  | succ count ih =>
    obtain ⟨hheld, hlogits⟩ := hm.step hprefixNode hthreads (by omega) token
    have hrow : readPipe .lg
        (cpuNode cpu (builtNode b nBatches false) nThreads).node.header.vocabSize
        (cpuNode cpu (builtNode b nBatches false) nThreads).node.header.vocabSize
        (feed (cpuNode cpu (builtNode b nBatches false) nThreads) [(tokens.length, token)] m) =
        prefixLogits (cpuNode cpu (builtNode b nBatches false) nThreads) (tokens ++ [token]) := by
      rw [← hlogits, fedLogits, fedLogits, List.length_singleton, Nat.mul_one, List.append_nil]
    have hlength : tokens.length + 1 = (tokens ++ [token]).length := by
      rw [List.length_append, List.length_singleton]
    simp only [decodeLoop, continuation, hrow]
    congr 1
    rw [hlength]
    exact ih (holds_writePipe hprefixNode hheld _ _) (by omega) _ _

/-- On one node the driver of a single prompt takes the tokens that repeated sampling from the function
of prefixes takes, up to the end of the context or of the steps. -/
theorem inference_continues (hheader : RowHeader h)
    (hnet : buildLlmNet h ⟨1, 1, 1, 1⟩ nBatches none false = .ok net)
    (hinit : ∀ config ∈ net.nodeConfigs, Initialized (nodeOf h nBatches config))
    (hconfig : net.nodeConfigs[0]? = some config) (hthreads : 0 < nThreads) {args : AppCliArgs}
    (haccepted : args.Accepted) (hseqLen : args.seqLen = h.seqLen) {root : RootLlmInference}
    (hbuilt : BuiltFor args root) (hnew : root.chunks = []) {tokens : List ℤ}
    (hprompt : IsPrompt args tokens) (wavePipeline : Bool) {fuel : ℕ} (hfuel : tokens.length ≤ fuel)
    (sampler : Sampler R σ) (state : σ) (m : Memory R) :
    inference (cpuNode cpu (nodeOf h nBatches config) nThreads) sampler args wavePipeline tokens fuel
        root state m =
      .ok (some (continuation (prefixLogits (cpuNode cpu (nodeOf h nBatches config) nThreads)) sampler
        (min args.seqLen args.steps - (tokens.length - 1)) tokens state)) := by
  obtain ⟨b, config', hconfig', hnode, hprefixNode⟩ := exists_prefixNode hheader hnet hinit
  rw [hconfig] at hconfig'
  injection hconfig' with hsame
  obtain ⟨call, last, next, hrun, hlast, hsends⟩ :=
    inferencePrefill_ok haccepted hbuilt hprompt wavePipeline hfuel
  obtain ⟨new, hchunks, hrows, hincreasing⟩ := (fed_of_sends hsends).sent
  rw [hnew, List.nil_append] at hchunks
  have hpos := hprompt.pos
  have hlength : (tokens.take (tokens.length - 1)).length = tokens.length - 1 := by
    rw [List.length_take]
    omega
  have hle := hprompt.seqLen
  have hprefixRows : promptRows tokens 0 (tokens.length - 1) =
      rowsFrom 0 (tokens.take (tokens.length - 1)) := by
    rw [promptRows_eq tokens (by omega), List.drop_zero]
  obtain ⟨hcells, _⟩ := @feedAll_rows R _ _ _ _ cpu b nBatches nThreads hprefixNode.alone hprefixNode.rows
    hprefixNode.sized hthreads _ hincreasing m m fun _ _ => Eq.refl _
  have hfits : ([] : List ℤ).length + (tokens.take (tokens.length - 1)).length ≤ h.seqLen := by
    rw [List.length_nil, hlength]
    omega
  have hnone : Holds b (cpuNode cpu (builtNode b nBatches false) nThreads) [] m := holds_nil _ m
  have hfirst := hnone.rows hprefixNode hthreads hfits
  have hheld : Holds b (cpuNode cpu (builtNode b nBatches false) nThreads)
      (tokens.take (tokens.length - 1))
      (feedAll (cpuNode cpu (builtNode b nBatches false) nThreads) (new.map Chunk.rows) m) := by
    intro c hc hlt
    rw [hcells c (isCache_stores hprefixNode _ hc.1), hrows, hprefixRows]
    exact hfirst.1 c hc hlt
  have hwhole : tokens.take (tokens.length - 1) ++ [last] = tokens := by
    obtain ⟨hlt, hget⟩ := List.getElem?_eq_some_iff.mp hlast
    have hsucc := List.take_succ_eq_append_getElem hlt
    rw [hget, Nat.sub_add_cancel hpos, List.take_length] at hsucc
    exact hsucc.symm
  have hroom : (tokens.take (tokens.length - 1)).length +
      (min args.seqLen args.steps - (tokens.length - 1)) ≤ h.seqLen := by
    rw [hlength]
    omega
  have hdecode := decodeLoop_eq hprefixNode hthreads sampler hheld hroom last state
  rw [hlength, hwhole] at hdecode
  rw [hsame, hnode, inference]
  simp only [hrun, hchunks, bind, Except.bind, pure, Except.pure, hdecode]

/-- The sampler at temperature 0. -/
noncomputable def greedy : Sampler ℝ Unit where
  sample _ logits := (GreedySampling.sampleArgmax logits, ())
  leaves _ logits := logits

/-- A prompt of three tokens and two more. -/
theorem inference_continues_three : ∃ net config,
    buildLlmNet eightColumns ⟨1, 1, 1, 1⟩ 4 none false = .ok net ∧
      net.nodeConfigs[0]? = some config ∧
      (∀ op ∈ config.ops, WholeRegisters (nodeOf eightColumns 4 config) op 8) ∧
      inference (cpuNode realCpu (nodeOf eightColumns 4 config) 1) greedy oneStage false
          [1, 2, 3] 3 ⟨4, 4, 0, fun _ => 0, fun _ => 0, []⟩ () (fun _ => 7) =
        .ok (some (continuation (prefixLogits (cpuNode realCpu (nodeOf eightColumns 4 config) 1)) greedy
          2 [1, 2, 3] ())) := by
  obtain ⟨net, config, hnet, hinit, hconfig, hwhole⟩ := exists_eightColumns
  have haccepted : oneStage.Accepted := ⟨by decide, by decide, by decide, by decide⟩
  have hprompt : IsPrompt oneStage [1, 2, 3] :=
    ⟨by decide, by decide, by decide, by decide⟩
  have hbuilt : BuiltFor oneStage ⟨4, 4, 0, fun _ => 0, fun _ => 0, []⟩ :=
    ⟨Eq.refl _, Eq.refl _⟩
  exact ⟨net, config, hnet, hconfig, hwhole, @inference_continues ℝ _ _ _ _ Unit realCpu eightColumns 4 1 net
    config rowHeader_eightColumns hnet hinit hconfig Nat.one_pos _ haccepted (Eq.refl _) _ hbuilt
    (Eq.refl _) _ hprompt false _ (by decide) greedy () fun _ => 7⟩

end Results

end LayerSkip.TextGeneration
