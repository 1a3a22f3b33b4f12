import LayerSkip.ContinuousBatching
import LayerSkip.TopKLogits

/-!
# Prefill in chunks

Both drivers feed a prompt but its last token in chunks before they decode. A chunk is sent by setting the
batch size, the position of its first row and the token of every row, and then one forward. The loops are
stated on 32-bit unsigned variables, with the remainder signed in one and unsigned in the other, and run
for at most some number of rounds.
-/

namespace LayerSkip.ContinuousBatching

/-- Value that is stored in a 32-bit unsigned variable. -/
def nnUint (x : ℤ) : ℕ := (x % 4294967296).toNat

/-- How a chunk is sent, with or without waiting for its logits. -/
inductive ForwardCall
  | forward
  | forwardPrefillNoWait
  deriving DecidableEq, Repr

/-- Rows of a forward, each with its position and its token. -/
structure Chunk where
  /-- How it is sent. -/
  call : ForwardCall
  /-- Its rows. -/
  rows : List (ℕ × ℤ)
  deriving DecidableEq, Repr

/-- The root's inference, with the chunks that it was given. -/
structure RootLlmInference where
  /-- Rows of the pipes. -/
  nBatches : ℕ
  /-- Length of the context. -/
  seqLen : ℕ
  /-- Rows of the next forward. -/
  batchSize : ℕ
  /-- Position of every row. -/
  positionPipe : ℕ → ℕ
  /-- Token of every row. -/
  tokenPipe : ℕ → ℤ
  /-- Chunks in the order in which they were sent. -/
  chunks : List Chunk

namespace RootLlmInference

variable (s : RootLlmInference)

/-- Set the number of rows. -/
def setBatchSize (batchSize : ℕ) : Except String RootLlmInference :=
  if maxControlBatchPos < batchSize then .error "batchSize exceeds MAX_CONTROL_BATCH_POS"
  else if s.nBatches < batchSize then .error "assertion: batchSize <= nBatches"
  else .ok { s with batchSize := batchSize }

/-- Set the position of the first row, from which those of the others follow. The pipe holds floats, which
keep numbers up to `2 ^ 24`. -/
def setPosition (position : ℕ) : Except String RootLlmInference :=
  if nnUint ((position : ℤ) + s.batchSize - 1) < s.seqLen then
    .ok { s with positionPipe := fun i =>
      if i < s.batchSize then nnUint ((position : ℤ) + i) else s.positionPipe i }
  else .error "assertion: position + batchSize - 1 < seqLen"

/-- Set the token of a row. The pipe holds floats, which keep numbers up to `2 ^ 24`. -/
def setToken (batchIndex : ℕ) (token : ℤ) : Except String RootLlmInference :=
  if batchIndex < s.batchSize then
    .ok { s with tokenPipe := Function.update s.tokenPipe batchIndex token }
  else .error "assertion: batchIndex < batchSize"

/-- Set the tokens of some rows to those of the prompt from a position on. -/
def setTokens (tokens : List ℤ) (pos : ℕ) : RootLlmInference → List ℕ → Except String RootLlmInference
  | s, [] => .ok s
  | s, i :: is =>
    match tokens[pos + i]? with
    | none => .error "read behind the tokens of the prompt"
    | some token => do
      let next ← s.setToken i token
      setTokens tokens pos next is

/-- Run the forward. -/
def runForward (call : ForwardCall) : RootLlmInference :=
  { s with chunks := s.chunks ++
      [⟨call, (List.range s.batchSize).map fun i => (s.positionPipe i, s.tokenPipe i)⟩] }

/-- Send a chunk of the prompt. -/
def submit (call : ForwardCall) (tokens : List ℤ) (pos batchSize : ℕ) :
    Except String RootLlmInference := do
  let s ← s.setBatchSize batchSize
  let s ← s.setPosition pos
  let s ← setTokens tokens pos s (List.range batchSize)
  return s.runForward call

end RootLlmInference

/-- Prefill loop of `inference`, for at most `fuel` rounds. -/
def inferencePrefillLoop (call : ForwardCall) (prefillBatchCap : ℕ) (tokens : List ℤ) :
    ℕ → ℕ → ℤ → RootLlmInference → Except String (Option (ℕ × ℤ × RootLlmInference))
  | 0, _, _, _ => .ok none
  | fuel + 1, pos, token, s =>
    let remainingTokens : ℤ := tokens.length - 1 - pos
    if remainingTokens ≤ 0 then .ok (some (pos, token, s))
    else do
      let batchSize :=
        nnUint (if remainingTokens < prefillBatchCap then remainingTokens else prefillBatchCap)
      let s ← s.submit call tokens pos batchSize
      let pos := nnUint ((pos : ℤ) + batchSize)
      match tokens[pos]? with
      | none => .error "read behind the tokens of the prompt"
      | some token => inferencePrefillLoop call prefillBatchCap tokens fuel pos token s

/-- Prefill of `inference`. -/
def inferencePrefill (args : AppCliArgs) (wavePipeline : Bool) (tokens : List ℤ) (fuel : ℕ)
    (s : RootLlmInference) : Except String (Option (ℕ × ℤ × RootLlmInference)) :=
  if args.seqLen < tokens.length then
    .error "The number of prompt tokens is greater than the sequence length"
  else if args.steps < tokens.length then
    .error "The number of prompt tokens is greater than the number of steps"
  else
    match tokens[0]? with
    | none => .error "read behind the tokens of the prompt"
    | some token =>
      let nPrefillTokens := if 0 < tokens.length then tokens.length - 1 else 0
      let prefillBatchCap := resolvePrefillChunkBatchSize args nPrefillTokens
      let useWave := wavePipeline && decide (1 < args.ppSize)
      let call := if useWave then ForwardCall.forwardPrefillNoWait else ForwardCall.forward
      inferencePrefillLoop call prefillBatchCap tokens fuel 0 token s

/-- Prefill loop of a request of continuous batching, for at most `fuel` rounds. -/
def requestPrefillLoop (prefillBatchCap : ℕ) :
    ℕ → CbRequestState → RootLlmInference → Except String (Option (CbRequestState × RootLlmInference))
  | 0, _, _ => .ok none
  | fuel + 1, req, s =>
    if nnUint ((req.pos : ℤ) + 1) < req.nInputTokens then do
      let remainingTokens := nnUint ((req.nInputTokens : ℤ) - 1 - req.pos)
      let batchSize := if remainingTokens < prefillBatchCap then remainingTokens else prefillBatchCap
      let s ← s.submit .forward req.tokens req.pos batchSize
      let pos := nnUint ((req.pos : ℤ) + batchSize)
      match req.tokens[pos]? with
      | none => .error "read behind the tokens of the prompt"
      | some token => requestPrefillLoop prefillBatchCap fuel { req with pos := pos, token := token } s
    else .ok (some (req, s))

/-- Prefill of all requests of continuous batching in turn. -/
def requestsPrefill (args : AppCliArgs) (fuel : ℕ) :
    List CbRequestState → RootLlmInference →
      Except String (Option (List CbRequestState × RootLlmInference))
  | [], s => .ok (some ([], s))
  | req :: reqs, s => do
    let nPrefillTokens := if 0 < req.nInputTokens then req.nInputTokens - 1 else 0
    let prefillBatchCap := resolvePrefillChunkBatchSize args nPrefillTokens
    match ← requestPrefillLoop prefillBatchCap fuel req s with
    | none => return none
    | some (req, s) =>
      match ← requestsPrefill args fuel reqs s with
      | none => return none
      | some (reqs, s) => return some (req :: reqs, s)

section Submit

variable {s : RootLlmInference} {call : ForwardCall} {tokens : List ℤ} {pos batchSize : ℕ}

/-- Rows of a part of the prompt. -/
def promptRows (tokens : List ℤ) (pos count : ℕ) : List (ℕ × ℤ) :=
  (List.range' pos count).map fun k => (k, tokens.getD k 0)

/-- Position and token of a row are the same as floats. -/
def Stored (row : ℕ × ℤ) : Prop :=
  TopKLogits.floatOfUint row.1 = row.1 ∧ TopKLogits.floatOfUint (nnUint row.2) = nnUint row.2

/-- Up to `2 ^ 24` the floats of the pipes keep positions and tokens. -/
theorem stored_promptRows {tokens : List ℤ} {pos count : ℕ} (hpos : pos + count ≤ 2 ^ 24)
    (hlong : pos + count ≤ tokens.length) (htokens : ∀ token ∈ tokens, nnUint token ≤ 2 ^ 24) :
    ∀ row ∈ promptRows tokens pos count, Stored row := by
  intro row hrow
  obtain ⟨k, hk, heq⟩ := List.mem_map.mp hrow
  have hplace : k < pos + count := (List.mem_range'_1.mp hk).2
  have hlt : k < tokens.length := Nat.lt_of_lt_of_le hplace hlong
  have htoken : tokens.getD k 0 ∈ tokens := by
    rw [List.getD_eq_getElem?_getD, List.getElem?_eq_getElem hlt]
    exact List.getElem_mem hlt
  rw [← heq]
  constructor
  · exact TopKLogits.floatOfUint_of_le (Nat.le_trans (Nat.le_of_lt hplace) hpos)
  · exact TopKLogits.floatOfUint_of_le (htokens _ htoken)

theorem promptRows_append (tokens : List ℤ) (pos first second : ℕ) :
    promptRows tokens pos first ++ promptRows tokens (pos + first) second =
      promptRows tokens pos (first + second) := by
  unfold promptRows
  rw [← List.map_append, List.range'_append_1]

theorem length_promptRows (tokens : List ℤ) (pos count : ℕ) :
    (promptRows tokens pos count).length = count := by
  simp [promptRows]

theorem getElem?_of_lt {k : ℕ} (h : k < tokens.length) : tokens[k]? = some (tokens.getD k 0) := by
  rw [List.getD_eq_getElem?_getD, List.getElem?_eq_getElem h, Option.getD_some]

/-- Tokens of some rows. -/
theorem setTokens_ok (tokens : List ℤ) (pos : ℕ) (s : RootLlmInference) (is : List ℕ)
    (hrows : ∀ i ∈ is, i < s.batchSize) (htokens : ∀ i ∈ is, pos + i < tokens.length) :
    ∃ tokenPipe, RootLlmInference.setTokens tokens pos s is = .ok { s with tokenPipe := tokenPipe } ∧
      (∀ i ∈ is, tokenPipe i = tokens.getD (pos + i) 0) ∧
      ∀ i, i ∉ is → tokenPipe i = s.tokenPipe i := by
  induction is generalizing s with
  | nil => exact ⟨s.tokenPipe, Eq.refl _, by simp, by simp⟩
  | cons i is ih =>
    have hget := getElem?_of_lt (htokens i List.mem_cons_self)
    have hset : s.setToken i (tokens.getD (pos + i) 0) =
        .ok { s with tokenPipe := Function.update s.tokenPipe i (tokens.getD (pos + i) 0) } :=
      if_pos (hrows i List.mem_cons_self)
    obtain ⟨tokenPipe, heq, hin, hout⟩ :=
      ih { s with tokenPipe := Function.update s.tokenPipe i (tokens.getD (pos + i) 0) }
        (fun j hj => hrows j (List.mem_cons_of_mem i hj))
        (fun j hj => htokens j (List.mem_cons_of_mem i hj))
    refine ⟨tokenPipe, ?_, ?_, ?_⟩
    · rw [RootLlmInference.setTokens, hget]
      simp only [hset]
      exact heq
    · intro j hj
      by_cases hmem : j ∈ is
      · exact hin j hmem
      · cases List.mem_cons.mp hj with
        | inl heq =>
          have hsame := hout j hmem
          simp only [heq, Function.update_self] at hsame ⊢
          exact hsame
        | inr h => exact absurd h hmem
    · intro j hj
      rw [List.mem_cons, not_or] at hj
      have hsame := hout j hj.2
      simp only [Function.update_of_ne hj.1] at hsame
      exact hsame

variable (s call tokens pos batchSize) in
/-- A chunk of the prompt that fits the packet, the pipes and the context. -/
theorem submit_ok (hpos : 0 < batchSize) (hcontrol : batchSize ≤ maxControlBatchPos)
    (hpipes : batchSize ≤ s.nBatches) (hprompt : pos + batchSize ≤ tokens.length)
    (hcontext : tokens.length ≤ s.seqLen) (hint : tokens.length < 2147483648) :
    ∃ next, s.submit call tokens pos batchSize = .ok next ∧
      next.nBatches = s.nBatches ∧ next.seqLen = s.seqLen ∧
      next.chunks = s.chunks ++ [⟨call, promptRows tokens pos batchSize⟩] := by
  have hbatch : s.setBatchSize batchSize = .ok { s with batchSize := batchSize } := by
    unfold RootLlmInference.setBatchSize
    rw [if_neg (Nat.not_lt_of_le hcontrol), if_neg (Nat.not_lt_of_le hpipes)]
  have hlast : nnUint ((pos : ℤ) + batchSize - 1) < s.seqLen := by
    unfold nnUint
    omega
  obtain ⟨tokenPipe, htokens, hin, _⟩ := setTokens_ok tokens pos
    { s with
      batchSize := batchSize
      positionPipe := fun i => if i < batchSize then nnUint ((pos : ℤ) + i) else s.positionPipe i }
    (List.range batchSize) (fun i hi => List.mem_range.mp hi) (fun i hi => by
      have hi := List.mem_range.mp hi
      omega)
  have hsubmit : s.submit call tokens pos batchSize = .ok (RootLlmInference.runForward
      { s with
        batchSize := batchSize
        positionPipe := fun i => if i < batchSize then nnUint ((pos : ℤ) + i) else s.positionPipe i
        tokenPipe := tokenPipe } call) := by
    unfold RootLlmInference.submit RootLlmInference.setPosition
    simp only [hbatch, bind, Except.bind, pure, Except.pure, hlast, if_true, htokens]
  refine ⟨_, hsubmit, Eq.refl _, Eq.refl _, ?_⟩
  have hrows : (List.range batchSize).map (fun i =>
      (if i < batchSize then nnUint ((pos : ℤ) + i) else s.positionPipe i, tokenPipe i)) =
        promptRows tokens pos batchSize := by
    rw [promptRows, List.range'_eq_map_range, List.map_map]
    apply List.map_congr_left
    intro i hi
    have hlt := List.mem_range.mp hi
    have hplace : nnUint ((pos : ℤ) + i) = pos + i := by
      unfold nnUint
      omega
    rw [if_pos hlt, hplace, hin i hi]
    exact Eq.refl _
  simp only [RootLlmInference.runForward, hrows]

/-- The part of a prompt that is sent from one state to another. -/
structure Sends (call : ForwardCall) (cap : ℕ) (tokens : List ℤ) (pos count : ℕ)
    (s next : RootLlmInference) : Prop where
  /-- The pipes. -/
  nBatches : next.nBatches = s.nBatches
  /-- The context. -/
  seqLen : next.seqLen = s.seqLen
  /-- Every position of the part is sent once and in order, in chunks of the right size. -/
  chunks : ∃ new, next.chunks = s.chunks ++ new ∧ new.flatMap Chunk.rows = promptRows tokens pos count ∧
    ∀ chunk ∈ new, chunk.call = call ∧ 0 < chunk.rows.length ∧ chunk.rows.length ≤ cap

/-- Nothing is sent. -/
theorem Sends.none (call : ForwardCall) (cap : ℕ) (tokens : List ℤ) (pos : ℕ) (s : RootLlmInference) :
    Sends call cap tokens pos 0 s s :=
  ⟨Eq.refl _, Eq.refl _, [], by simp [promptRows]⟩

/-- A chunk and then the rest. -/
theorem Sends.step {cap count : ℕ} {next last : RootLlmInference} (hpos : 0 < batchSize)
    (hcap : batchSize ≤ cap) (hbatches : next.nBatches = s.nBatches) (hseq : next.seqLen = s.seqLen)
    (hchunks : next.chunks = s.chunks ++ [⟨call, promptRows tokens pos batchSize⟩])
    (h : Sends call cap tokens (pos + batchSize) count next last) :
    Sends call cap tokens pos (batchSize + count) s last := by
  obtain ⟨new, hnew, hrows, hsizes⟩ := h.chunks
  refine ⟨by rw [h.nBatches, hbatches], by rw [h.seqLen, hseq],
    ⟨call, promptRows tokens pos batchSize⟩ :: new, ?_, ?_, ?_⟩
  · rw [hnew, hchunks, List.append_assoc, List.singleton_append]
  · rw [List.flatMap_cons, hrows, promptRows_append]
  · intro chunk hchunk
    cases List.mem_cons.mp hchunk with
    | inl heq =>
      rw [heq]
      simp only [length_promptRows]
      exact ⟨trivial, hpos, hcap⟩
    | inr hin => exact hsizes chunk hin

end Submit

section Loops

variable {cap : ℕ} {tokens : List ℤ} {s : RootLlmInference}

/-- The loop of `inference` sends what is left of the prompt but its last token. -/
theorem inferencePrefillLoop_ok (call : ForwardCall) (hcap : 0 < cap) (hcontrol : cap ≤ maxControlBatchPos)
    (hpipes : cap ≤ s.nBatches) (hcontext : tokens.length ≤ s.seqLen)
    (hint : tokens.length < 2147483648) {pos fuel : ℕ} {token : ℤ} (hpos : pos < tokens.length)
    (htoken : tokens[pos]? = some token) (hfuel : tokens.length ≤ pos + fuel) :
    ∃ last next, inferencePrefillLoop call cap tokens fuel pos token s =
        .ok (some (tokens.length - 1, last, next)) ∧
      tokens[tokens.length - 1]? = some last ∧
      Sends call cap tokens pos (tokens.length - 1 - pos) s next := by
  induction fuel generalizing pos token s with
  | zero => omega
  | succ fuel ih =>
    rw [inferencePrefillLoop]
    by_cases hend : (tokens.length : ℤ) - 1 - pos ≤ 0
    · have hlast : tokens.length - 1 = pos := by omega
      refine ⟨token, s, ?_, ?_, ?_⟩
      · simp only [hend, if_true, hlast]
      · rw [hlast, htoken]
      · rw [hlast, Nat.sub_self]
        exact Sends.none call cap tokens pos s
    · simp only [hend, if_false]
      obtain ⟨batchSize, hbatch, hbatchPos, hbatchCap, hbatchEnd⟩ : ∃ batchSize : ℕ,
          nnUint (if (tokens.length : ℤ) - 1 - pos < cap then (tokens.length : ℤ) - 1 - pos else cap) =
            batchSize ∧ 0 < batchSize ∧ batchSize ≤ cap ∧ pos + batchSize ≤ tokens.length - 1 := by
        have hsmall : cap ≤ 64 := hcontrol
        refine ⟨_, Eq.refl _, ?_⟩
        unfold nnUint
        split <;> omega
      obtain ⟨next, hsubmit, hbatches, hseq, hchunks⟩ := submit_ok s call tokens pos batchSize hbatchPos
        (hbatchCap.trans hcontrol) (hbatchCap.trans hpipes) (by omega) hcontext hint
      have hplace : nnUint ((pos : ℤ) + batchSize) = pos + batchSize := by
        unfold nnUint
        omega
      have hin : pos + batchSize < tokens.length := by omega
      obtain ⟨last, out, hloop, hlast, hsends⟩ := ih (s := next) (by rw [hbatches]; exact hpipes)
        (by rw [hseq]; exact hcontext) hin (getElem?_of_lt hin) (by omega)
      refine ⟨last, out, ?_, hlast, ?_⟩
      · simp only [hbatch, hsubmit, bind, Except.bind, hplace, getElem?_of_lt hin]
        exact hloop
      · have hcount : tokens.length - 1 - pos = batchSize + (tokens.length - 1 - (pos + batchSize)) := by
          omega
        rw [hcount]
        exact hsends.step hbatchPos hbatchCap hbatches hseq hchunks

/-- The loop of a request sends what is left of its prompt but its last token. -/
theorem requestPrefillLoop_ok (hcap : 0 < cap) (hcontrol : cap ≤ maxControlBatchPos)
    (s : RootLlmInference) (req : CbRequestState) (hpipes : cap ≤ s.nBatches)
    (hinput : req.nInputTokens = req.tokens.length) (hcontext : req.tokens.length ≤ s.seqLen) (hint : req.tokens.length < 2147483648) {fuel : ℕ}
    (hpos : req.pos < req.tokens.length) (htoken : req.token = req.tokens.getD req.pos 0)
    (hfuel : req.tokens.length ≤ req.pos + fuel) :
    ∃ next, requestPrefillLoop cap fuel req s = .ok (some (req.prefilled, next)) ∧
      Sends .forward cap req.tokens req.pos (req.tokens.length - 1 - req.pos) s next := by
  induction fuel generalizing req s with
  | zero => omega
  | succ fuel ih =>
    rw [requestPrefillLoop]
    by_cases hmore : nnUint ((req.pos : ℤ) + 1) < req.nInputTokens
    · rw [if_pos hmore]
      obtain ⟨batchSize, hbatch, hbatchPos, hbatchCap, hbatchEnd⟩ : ∃ batchSize : ℕ,
          (if nnUint ((req.nInputTokens : ℤ) - 1 - req.pos) < cap then
            nnUint ((req.nInputTokens : ℤ) - 1 - req.pos) else cap) = batchSize ∧
          0 < batchSize ∧ batchSize ≤ cap ∧ req.pos + batchSize ≤ req.tokens.length - 1 := by
        refine ⟨_, Eq.refl _, ?_⟩
        unfold nnUint at hmore ⊢
        split <;> omega
      obtain ⟨next, hsubmit, hbatches, hseq, hchunks⟩ := submit_ok s .forward req.tokens req.pos batchSize
        hbatchPos (hbatchCap.trans hcontrol) (hbatchCap.trans hpipes) (by omega) hcontext hint
      have hplace : nnUint ((req.pos : ℤ) + batchSize) = req.pos + batchSize := by
        unfold nnUint
        omega
      have hin : req.pos + batchSize < req.tokens.length := by omega
      obtain ⟨out, hloop, hsends⟩ := ih next
        { req with
          pos := req.pos + batchSize
          token := req.tokens.getD (req.pos + batchSize) 0 }
        (by rw [hbatches]; exact hpipes) hinput (by rw [hseq]; exact hcontext) hint hin (Eq.refl _)
        (by simp only; omega)
      refine ⟨out, ?_, ?_⟩
      · simp only [hbatch, hsubmit, bind, Except.bind, hplace, getElem?_of_lt hin]
        exact hloop
      · have hcount : req.tokens.length - 1 - req.pos =
            batchSize + (req.tokens.length - 1 - (req.pos + batchSize)) := by
          omega
        rw [hcount]
        exact hsends.step hbatchPos hbatchCap hbatches hseq hchunks
    · have hlast : req.tokens.length - 1 = req.pos := by
        unfold nnUint at hmore
        omega
      refine ⟨s, ?_, ?_⟩
      · rw [if_neg hmore, CbRequestState.prefilled, hinput, hlast, ← htoken, ← hinput]
      · rw [hlast, Nat.sub_self]
        exact Sends.none _ cap _ _ s

end Loops

/-- A chunk is never larger than a batch. -/
theorem resolvePrefillChunkBatchSize_le {args : AppCliArgs} (h : 1 ≤ args.nBatches)
    (nPrefillTokens : ℕ) : resolvePrefillChunkBatchSize args nPrefillTokens ≤ args.nBatches := by
  have hdiv : args.nBatches / args.ppSize ≤ args.nBatches := Nat.div_le_self _ _
  unfold resolvePrefillChunkBatchSize
  grind

/-- Options that the command line accepts, with a batch that fits the control packet. -/
structure AppCliArgs.Accepted (args : AppCliArgs) : Prop where
  /-- There is a pipeline stage. -/
  ppSize : 1 ≤ args.ppSize
  /-- The limit of a decode round fits the packet. -/
  decodeCbMaxActive : args.decodeCbMaxActive ≤ maxControlBatchPos
  /-- The batch is not empty and fits the packet. -/
  nBatches : 1 ≤ args.nBatches ∧ args.nBatches ≤ maxControlBatchPos

/-- A prompt that passes the checks before the prefill, its length being an `int`. -/
structure IsPrompt (args : AppCliArgs) (tokens : List ℤ) : Prop where
  /-- It has a token. -/
  pos : 1 ≤ tokens.length
  /-- Its length is an `int`. -/
  int : tokens.length < 2147483648
  /-- It fits the context. -/
  seqLen : tokens.length ≤ args.seqLen
  /-- It fits the steps. -/
  steps : tokens.length ≤ args.steps

/-- Inference that was built for the options. -/
structure BuiltFor (args : AppCliArgs) (s : RootLlmInference) : Prop where
  /-- Rows of the pipes. -/
  nBatches : s.nBatches = args.nBatches
  /-- Length of the context. -/
  seqLen : s.seqLen = args.seqLen

/-- Every prompt is sent but its last token, one after the other. -/
def SendsAll (args : AppCliArgs) : List (List ℤ) → RootLlmInference → RootLlmInference → Prop
  | [], s, next => next = s
  | tokens :: prompts, s, next => ∃ mid,
    Sends .forward (resolvePrefillChunkBatchSize args (tokens.length - 1)) tokens 0 (tokens.length - 1)
      s mid ∧ SendsAll args prompts mid next

section Drivers

variable {args : AppCliArgs}

/-- The prefill of `inference`. -/
theorem inferencePrefill_ok (haccepted : args.Accepted) {s : RootLlmInference} (hbuilt : BuiltFor args s)
    {tokens : List ℤ} (hprompt : IsPrompt args tokens) (wavePipeline : Bool) {fuel : ℕ}
    (hfuel : tokens.length ≤ fuel) :
    ∃ call last next, inferencePrefill args wavePipeline tokens fuel s =
        .ok (some (tokens.length - 1, last, next)) ∧
      tokens[tokens.length - 1]? = some last ∧
      Sends call (resolvePrefillChunkBatchSize args (tokens.length - 1)) tokens 0 (tokens.length - 1)
        s next := by
  have hle := resolvePrefillChunkBatchSize_le haccepted.nBatches.1 (tokens.length - 1)
  have hpos := hprompt.pos
  have hlong : tokens.length ≤ 0 + fuel := by omega
  have hcall := fun call => inferencePrefillLoop_ok (s := s) call
    (resolvePrefillChunkBatchSize_pos args (tokens.length - 1)) (hle.trans haccepted.nBatches.2)
    (hbuilt.nBatches ▸ hle) (hbuilt.seqLen ▸ hprompt.seqLen) hprompt.int hpos (getElem?_of_lt hpos)
    hlong
  unfold inferencePrefill
  rw [if_neg (Nat.not_lt_of_le hprompt.seqLen), if_neg (Nat.not_lt_of_le hprompt.steps),
    getElem?_of_lt hpos]
  simp only [Nat.lt_of_lt_of_le Nat.zero_lt_one hpos, if_true]
  obtain ⟨last, next, hloop, hlast, hsends⟩ := hcall
    (if (wavePipeline && decide (1 < args.ppSize)) = true then .forwardPrefillNoWait else .forward)
  exact ⟨_, last, next, hloop, hlast, hsends⟩

/-- The prefill of the requests. -/
theorem requestsPrefill_ok (haccepted : args.Accepted) {prompts : List (List ℤ)}
    (hprompts : ∀ tokens ∈ prompts, IsPrompt args tokens) {s : RootLlmInference}
    (hbuilt : BuiltFor args s) {fuel : ℕ} (hfuel : ∀ tokens ∈ prompts, tokens.length ≤ fuel) :
    ∃ next, requestsPrefill args fuel (prompts.map (newRequest args)) s =
        .ok (some (prompts.map fun tokens => (newRequest args tokens).prefilled, next)) ∧
      SendsAll args prompts s next := by
  induction prompts generalizing s with
  | nil => exact ⟨s, Eq.refl _, Eq.refl _⟩
  | cons tokens prompts ih =>
    have hprompt := hprompts tokens List.mem_cons_self
    have hle := resolvePrefillChunkBatchSize_le haccepted.nBatches.1 (tokens.length - 1)
    have hpos := hprompt.pos
    have hlong : (newRequest args tokens).tokens.length ≤ (newRequest args tokens).pos + fuel := by
      simpa [newRequest] using hfuel tokens List.mem_cons_self
    obtain ⟨mid, hloop, hsends⟩ := requestPrefillLoop_ok
      (resolvePrefillChunkBatchSize_pos args (tokens.length - 1)) (hle.trans haccepted.nBatches.2) s
      (newRequest args tokens) (hbuilt.nBatches ▸ hle) (Eq.refl _) (hbuilt.seqLen ▸ hprompt.seqLen)
      hprompt.int hpos (Eq.refl _) hlong
    obtain ⟨next, hrest, hall⟩ := ih (s := mid)
      (fun t ht => hprompts t (List.mem_cons_of_mem tokens ht))
      ⟨by rw [hsends.nBatches, hbuilt.nBatches], by rw [hsends.seqLen, hbuilt.seqLen]⟩
      (fun t ht => hfuel t (List.mem_cons_of_mem tokens ht))
    refine ⟨next, ?_, mid, hsends, hall⟩
    have hcount : (if 0 < (newRequest args tokens).nInputTokens then
        (newRequest args tokens).nInputTokens - 1 else 0) = tokens.length - 1 := if_pos hpos
    rw [List.map_cons, List.map_cons, requestsPrefill]
    simp only [hcount, bind, Except.bind]
    rw [hloop]
    simp only [hrest, pure, Except.pure]

/-- Chunks are not empty and not larger than a batch, and both drivers, in as many rounds as the prompt has
tokens at most, send every prompt token but the last once and in order in such chunks and stop at the
last. Up to `2 ^ 24` the floats of the pipes are the positions and the tokens. -/
theorem prefill_chunking (haccepted : args.Accepted) :
    (∀ nPrefillTokens, 1 ≤ resolvePrefillChunkBatchSize args nPrefillTokens ∧
      resolvePrefillChunkBatchSize args nPrefillTokens ≤ args.nBatches) ∧
    (∀ s, BuiltFor args s → ∀ tokens, IsPrompt args tokens → ∀ wavePipeline,
      ∃ rounds, ∀ fuel ≥ rounds, ∃ call last next,
        inferencePrefill args wavePipeline tokens fuel s =
          .ok (some (tokens.length - 1, last, next)) ∧
        tokens[tokens.length - 1]? = some last ∧
        Sends call (resolvePrefillChunkBatchSize args (tokens.length - 1)) tokens 0
          (tokens.length - 1) s next) ∧
    (∀ s, BuiltFor args s → ∀ prompts : List (List ℤ), (∀ tokens ∈ prompts, IsPrompt args tokens) →
      ∃ rounds, ∀ fuel ≥ rounds, ∃ reqs next,
        requestsPrefill args fuel (prompts.map (newRequest args)) s = .ok (some (reqs, next)) ∧
        reqs.map CbRequestState.tokens = prompts ∧
        (∀ req ∈ reqs, req.pos = req.tokens.length - 1 ∧ req.tokens[req.pos]? = some req.token) ∧
        SendsAll args prompts s next) ∧
    ∀ tokens, IsPrompt args tokens → args.seqLen ≤ 2 ^ 24 →
      (∀ token ∈ tokens, nnUint token ≤ 2 ^ 24) →
        ∀ row ∈ promptRows tokens 0 (tokens.length - 1), Stored row := by
  refine ⟨fun n => ⟨resolvePrefillChunkBatchSize_pos args n,
    resolvePrefillChunkBatchSize_le haccepted.nBatches.1 n⟩, ?_, ?_, ?_⟩
  · intro s hbuilt tokens hprompt wavePipeline
    exact ⟨tokens.length, fun fuel hfuel =>
      inferencePrefill_ok haccepted hbuilt hprompt wavePipeline hfuel⟩
  · intro s hbuilt prompts hprompts
    refine ⟨prompts.flatten.length, fun fuel hfuel => ?_⟩
    have hlong : ∀ tokens ∈ prompts, tokens.length ≤ fuel := by
      intro tokens htokens
      exact (List.sublist_flatten_of_mem htokens).length_le.trans hfuel
    obtain ⟨next, hrun, hall⟩ := requestsPrefill_ok haccepted hprompts hbuilt hlong
    refine ⟨_, next, hrun, ?_, ?_, hall⟩
    · rw [List.map_map]
      exact List.map_id' prompts
    · intro req hreq
      obtain ⟨tokens, htokens, heq⟩ := List.mem_map.mp hreq
      have hpos := (hprompts tokens htokens).pos
      rw [← heq]
      constructor
      · exact Eq.refl _
      · have hlast : tokens.length - 1 < tokens.length := by omega
        exact getElem?_of_lt hlast
  · intro tokens hprompt hseqLen htokens
    have hlength := hprompt.seqLen
    exact stored_promptRows (by omega) (by omega) htokens

end Drivers

/-- Options for a pipeline of four stages with long prompts in small chunks, and a prompt. -/
def fourStages : AppCliArgs := ⟨32, 0, 64, 4, 2, 0, 64⟩

theorem prefill_chunking_four_stages :
    fourStages.Accepted ∧ BuiltFor fourStages ⟨32, 64, 0, fun _ => 0, fun _ => 0, []⟩ ∧
    IsPrompt fourStages [5, 6, 7, 8, 9, 10] ∧
    ∃ rounds, ∀ fuel ≥ rounds, ∃ call last next,
      inferencePrefill fourStages true [5, 6, 7, 8, 9, 10] fuel
          ⟨32, 64, 0, fun _ => 0, fun _ => 0, []⟩ = .ok (some (5, last, next)) ∧
        ([5, 6, 7, 8, 9, 10] : List ℤ)[5]? = some last ∧
        Sends call (resolvePrefillChunkBatchSize fourStages 5) [5, 6, 7, 8, 9, 10] 0 5
          ⟨32, 64, 0, fun _ => 0, fun _ => 0, []⟩ next := by
  have haccepted : fourStages.Accepted := ⟨by decide, by decide, by decide, by decide⟩
  have hbuilt : BuiltFor fourStages ⟨32, 64, 0, fun _ => 0, fun _ => 0, []⟩ :=
    ⟨Eq.refl _, Eq.refl _⟩
  have hprompt : IsPrompt fourStages [5, 6, 7, 8, 9, 10] :=
    ⟨by decide, by decide, by decide, by decide⟩
  exact ⟨haccepted, hbuilt, hprompt, (prefill_chunking haccepted).2.1 _ hbuilt _ hprompt true⟩

end LayerSkip.ContinuousBatching
