import LayerSkip.KvCache
import Mathlib.Data.List.Nodup
import Mathlib.Data.List.Range
import Mathlib.Data.Nat.ModEq

/-!
# Continuous batching

The driver for a file of prompts first feeds every prompt but its last token,
one request after the other, then decodes in rounds: each round picks requests
in turn, runs one forward for all of them and takes a token for each. All
requests use the same rows of the one cache, which are indexed by position
alone. A row is marked with the request whose token was processed when it was
written. The cache is that of a node without sequence parallelism that runs
every forward.
-/

namespace LayerSkip.ContinuousBatching

open KvCache

/-- Most positions of a control packet. -/
def maxControlBatchPos : ℕ := 64

/-- Options that the driver reads, and the length of the model's context. -/
structure AppCliArgs where
  /-- Largest batch. -/
  nBatches : ℕ
  /-- Most requests in a decode round, 0 for no own limit. -/
  decodeCbMaxActive : ℕ
  /-- Most tokens of a request. -/
  steps : ℕ
  /-- Number of pipeline stages. -/
  ppSize : ℕ
  /-- Prompt length from which prefill is cut in chunks. -/
  prefillChunkThreshold : ℕ
  /-- Chunk length, 0 for one that depends on the prompt. -/
  prefillChunkSize : ℕ
  /-- Length of the context. -/
  seqLen : ℕ
  deriving DecidableEq, Repr

/-- A prompt with what has been decoded for it. -/
structure CbRequestState where
  /-- Tokens of the prompt. -/
  tokens : List ℤ
  /-- Number of tokens of the prompt. -/
  nInputTokens : ℕ
  /-- Position of the next token. -/
  pos : ℕ
  /-- Position at which the request ends. -/
  maxPos : ℕ
  /-- Next token. -/
  token : ℤ
  /-- No more tokens are wanted. -/
  finished : Bool
  deriving DecidableEq, Repr

/-- Chunk length of a prompt with this many prefill tokens. -/
def resolvePrefillChunkBatchSize (args : AppCliArgs) (nPrefillTokens : ℕ) : ℕ :=
  if args.nBatches < 1 then 1
  else if args.ppSize ≤ 1 then args.nBatches
  else if nPrefillTokens < args.prefillChunkThreshold then args.nBatches
  else if 0 < args.prefillChunkSize then min args.nBatches args.prefillChunkSize
  else
    let autoChunk := args.nBatches / args.ppSize
    let autoChunk := if autoChunk < 1 then 1 else autoChunk
    let autoChunk := if 4 ≤ args.ppSize then max 1 (autoChunk / 2) else autoChunk
    let pressureDivisor := if 0 < args.prefillChunkThreshold then args.prefillChunkThreshold else 1
    let pressure := nPrefillTokens / pressureDivisor
    if 16 ≤ pressure then max 1 (autoChunk / 4)
    else if 8 ≤ pressure then max 1 (autoChunk / 2)
    else autoChunk

theorem resolvePrefillChunkBatchSize_pos (args : AppCliArgs) (nPrefillTokens : ℕ) :
    0 < resolvePrefillChunkBatchSize args nPrefillTokens := by
  unfold resolvePrefillChunkBatchSize
  grind

/-- Lines of the prompts file that are prompts. -/
def promptLines (lines : List String) : List String := lines.filter fun line => line ≠ ""

/-- Read the prompts from the lines of the file. -/
def loadPromptsFromFile (lines : List String) : Except String (List String) :=
  if promptLines lines = [] then .error "prompts-file is empty" else .ok (promptLines lines)

/-- Most requests in a decode round. -/
def maxActive (args : AppCliArgs) : ℕ :=
  if 0 < args.decodeCbMaxActive then min args.decodeCbMaxActive args.nBatches else args.nBatches

/-- A request before its prefill. -/
def newRequest (args : AppCliArgs) (tokens : List ℤ) : CbRequestState where
  tokens := tokens
  nInputTokens := tokens.length
  pos := 0
  maxPos := min args.seqLen args.steps
  token := tokens.getD 0 0
  finished := false

/-- Encode the prompts and check their lengths. -/
def makeRequests (args : AppCliArgs) (encode : String → List ℤ) :
    List String → Except String (List CbRequestState)
  | [] => .ok []
  | prompt :: prompts =>
    let tokens := encode prompt
    if tokens.length < 1 then .error "Failed to encode prompt"
    else if args.seqLen < tokens.length then
      .error "Prompt tokens exceed sequence length in prompts-file"
    else if args.steps < tokens.length then
      .error "Prompt tokens exceed steps in prompts-file"
    else do
      let reqs ← makeRequests args encode prompts
      return newRequest args tokens :: reqs

/-- The driver's variables and the cache. -/
structure CbState where
  /-- Requests. -/
  reqs : List CbRequestState
  /-- For every row the request it was written for last. -/
  cache : Rows ℕ
  /-- Request that is looked at first in the next round. -/
  rrCursor : ℕ
  /-- Requests that are not finished. -/
  activeCount : ℕ

/-- One forward of the prefill of a request. -/
def prefillChunk (cap r : ℕ) (req : CbRequestState) (cache : Rows ℕ) :
    CbRequestState × Rows ℕ :=
  let remainingTokens := req.nInputTokens - 1 - req.pos
  let batchSize := if remainingTokens < cap then remainingTokens else cap
  ({ req with pos := req.pos + batchSize, token := req.tokens.getD (req.pos + batchSize) 0 },
    shiftForward ⟨0, 0⟩ ((List.range batchSize).map fun i => req.pos + i) r cache)

/-- Prefill of a request, for at most `fuel` forwards. -/
def prefillLoop (cap r : ℕ) : ℕ → CbRequestState → Rows ℕ → CbRequestState × Rows ℕ
  | 0, req, cache => (req, cache)
  | fuel + 1, req, cache =>
    if req.pos + 1 < req.nInputTokens then
      let next := prefillChunk cap r req cache
      prefillLoop cap r fuel next.1 next.2
    else (req, cache)

/-- Prefill of the requests in turn, the first of which is request `r`. -/
def prefill (args : AppCliArgs) : ℕ → List CbRequestState → Rows ℕ →
    List CbRequestState × Rows ℕ
  | _, [], cache => ([], cache)
  | r, req :: reqs, cache =>
    let cap := resolvePrefillChunkBatchSize args (req.nInputTokens - 1)
    let first := prefillLoop cap r req.nInputTokens req cache
    let others := prefill args (r + 1) reqs first.2
    (first.1 :: others.1, others.2)

/-- The driver up to its decode loop. -/
def startDecode (args : AppCliArgs) (encode : String → List ℤ) (lines : List String) :
    Except String CbState := do
  let prompts ← loadPromptsFromFile lines
  if maxActive args < 1 then throw "decode-cb-max-active must be >= 1"
  if maxControlBatchPos < args.nBatches then
    throw "nBatches exceeds control packet batch position capacity"
  let reqs ← makeRequests args encode prompts
  let done := prefill args 0 reqs fun _ => none
  return { reqs := done.1, cache := done.2, rrCursor := 0, activeCount := reqs.length }

/-- A request may be picked. -/
def CbState.waiting (s : CbState) (idx : ℕ) : Bool :=
  (s.reqs[idx]?).any fun req => !req.finished && decide (req.pos < req.maxPos)

/-- Position of a request. -/
def CbState.position (s : CbState) (idx : ℕ) : ℕ := (s.reqs[idx]?).elim 0 fun req => req.pos

/-- Requests in the order in which a round looks at them. The sums do not wrap for up to `2 ^ 31`
requests. -/
def CbState.order (s : CbState) : List ℕ :=
  (List.range s.reqs.length).map fun i => (s.rrCursor + i) % s.reqs.length

/-- Requests of the next round. -/
def CbState.picked (limit : ℕ) (s : CbState) : List ℕ := (s.order.filter s.waiting).take limit

/-- Cache of a forward for these requests once the rows of its batch are written. -/
def CbState.forwardCache (s : CbState) (picks : List ℕ) : Rows ℕ :=
  picks.foldl (fun cache idx => shiftForward ⟨0, 0⟩ [s.position idx] idx cache) s.cache

/-- Take the token that was sampled for a request. -/
def takeToken (isEos : ℤ → Bool) (sampled : ℕ → ℤ) (s : CbState) (pick : ℕ × ℕ) : CbState :=
  match s.reqs[pick.1]? with
  | none => s
  | some req =>
    let req := { req with token := sampled pick.2, pos := req.pos + 1 }
    if isEos req.token ∨ req.maxPos ≤ req.pos then
      { s with reqs := s.reqs.set pick.1 { req with finished := true }
               activeCount := s.activeCount - 1 }
    else { s with reqs := s.reqs.set pick.1 req }

/-- One decode round. -/
def decodeRound (isEos : ℤ → Bool) (sampled : ℕ → ℤ) (limit : ℕ) (s : CbState) : CbState :=
  let picks := s.picked limit
  let forwarded :=
    { s with
      cache := s.forwardCache picks
      rrCursor := (picks.getLast?.elim 0 fun last => last + 1) % s.reqs.length }
  picks.zipIdx.foldl (takeToken isEos sampled) forwarded

/-- The loop goes on: a request is active and one is picked. -/
def CbState.continues (limit : ℕ) (s : CbState) : Prop :=
  0 < s.activeCount ∧ s.picked limit ≠ []

instance (limit : ℕ) (s : CbState) : Decidable (s.continues limit) :=
  inferInstanceAs (Decidable (_ ∧ _))

/-- State in which round `k` starts, if the loop gets there. The token sampled
in round `k` at a batch index is arbitrary. -/
def decodeRun (isEos : ℤ → Bool) (sampled : ℕ → ℕ → ℤ) (limit : ℕ) (s : CbState) :
    ℕ → Option CbState
  | 0 => if s.continues limit then some s else none
  | k + 1 => (decodeRun isEos sampled limit s k).bind fun s =>
    let next := decodeRound isEos (sampled k) limit s
    if next.continues limit then some next else none

/-- Every row that attention reads in the round that starts here was written
for the request it is read for. -/
def CbState.Isolated (limit : ℕ) (s : CbState) : Prop :=
  ∀ idx ∈ s.picked limit, ∀ row ∈ attentionRows (s.position idx),
    s.forwardCache (s.picked limit) row = some idx

instance (limit : ℕ) (s : CbState) : Decidable (s.Isolated limit) :=
  inferInstanceAs (Decidable (∀ _ ∈ _, _))

section Prefill

variable {args : AppCliArgs} {encode : String → List ℤ}

/-- What a request is after its prefill. -/
def CbRequestState.prefilled (req : CbRequestState) : CbRequestState :=
  { req with pos := req.nInputTokens - 1, token := req.tokens.getD (req.nInputTokens - 1) 0 }

theorem prefillLoop_eq {cap : ℕ} (hcap : 0 < cap) (r fuel : ℕ) (req : CbRequestState)
    (cache : Rows ℕ) (hpos : req.pos < req.nInputTokens)
    (hfuel : req.nInputTokens ≤ req.pos + 1 + fuel)
    (htoken : req.token = req.tokens.getD req.pos 0) :
    prefillLoop cap r fuel req cache = (req.prefilled, fun row =>
      if req.pos ≤ row ∧ row + 1 < req.nInputTokens then some r else cache row) := by
  induction fuel generalizing req cache with
  | zero =>
    have hlast : req.nInputTokens - 1 = req.pos := by omega
    rw [prefillLoop, CbRequestState.prefilled, hlast, ← htoken]
    congr 1
    funext row
    rw [if_neg (by omega)]
  | succ fuel ih =>
    rw [prefillLoop]
    by_cases hmore : req.pos + 1 < req.nInputTokens
    · rw [if_pos hmore]
      have hbatch : 0 < (if req.nInputTokens - 1 - req.pos < cap then
          req.nInputTokens - 1 - req.pos else cap) ∧
          (if req.nInputTokens - 1 - req.pos < cap then
            req.nInputTokens - 1 - req.pos else cap) ≤ req.nInputTokens - 1 - req.pos := by
        split <;> omega
      simp only [prefillChunk]
      generalize (if req.nInputTokens - 1 - req.pos < cap then
        req.nInputTokens - 1 - req.pos else cap) = batchSize at hbatch ⊢
      rw [ih _ _ (by simp only; omega) (by simp only; omega) rfl]
      congr 1
      funext row
      have hallow : (⟨0, 0⟩ : LocalRange).Allows row := fun h => Nat.lt_irrefl 0 h.1
      have hmem : row ∈ (List.range batchSize).map (fun i => req.pos + i) ↔
          req.pos ≤ row ∧ row < req.pos + batchSize := by
        simp only [List.mem_map, List.mem_range]
        constructor
        · intro h
          obtain ⟨i, hi, he⟩ := h
          omega
        · intro h
          exact ⟨row - req.pos, by omega, by omega⟩
      simp only [shiftForward_apply, hmem, hallow, and_true]
      by_cases hin : req.pos ≤ row ∧ row + 1 < req.nInputTokens
      · rw [if_pos hin]
        by_cases hlate : req.pos + batchSize ≤ row
        · rw [if_pos ⟨hlate, hin.2⟩]
        · rw [if_neg (by omega), if_pos (by omega)]
      · rw [if_neg hin, if_neg (by omega), if_neg (by omega)]
    · have hlast : req.nInputTokens - 1 = req.pos := by omega
      rw [if_neg hmore, CbRequestState.prefilled, hlast, ← htoken]
      congr 1
      funext row
      rw [if_neg (by omega)]

/-- The prefill leaves every request at its last prompt token. -/
theorem prefill_fst (args : AppCliArgs) (r : ℕ) (prompts : List (List ℤ)) (hne : ∀ tokens ∈ prompts, tokens ≠ [])
    (cache : Rows ℕ) : (prefill args r (prompts.map (newRequest args)) cache).1 =
      prompts.map fun tokens => (newRequest args tokens).prefilled := by
  induction prompts generalizing r cache with
  | nil => rfl
  | cons tokens prompts ih =>
    have hlen := List.length_pos_of_ne_nil (hne tokens List.mem_cons_self)
    rw [List.map_cons, prefill, List.map_cons, ih _ (fun t ht => hne t (List.mem_cons_of_mem _ ht)),
      prefillLoop_eq (resolvePrefillChunkBatchSize_pos _ _) _ _ _ _ hlen
        (by simp [newRequest]) rfl]

/-- Prompts of one token leave the cache as it is. -/
theorem prefill_snd_of_single (r : ℕ) (prompts : List (List ℤ))
    (hone : ∀ tokens ∈ prompts, tokens.length = 1) (cache : Rows ℕ) :
    (prefill args r (prompts.map (newRequest args)) cache).2 = cache := by
  induction prompts generalizing r cache with
  | nil => rfl
  | cons tokens prompts ih =>
    have hlen := hone tokens List.mem_cons_self
    have hn : (newRequest args tokens).nInputTokens = 1 := hlen
    rw [List.map_cons, prefill, ih _ (fun t ht => hone t (List.mem_cons_of_mem _ ht)),
      prefillLoop_eq (resolvePrefillChunkBatchSize_pos _ _) _ _ _ _ (by rw [hn]; exact Nat.one_pos)
        (by rw [hn]; omega) rfl]
    funext row
    simp only [hn]
    rw [if_neg (by omega)]

theorem makeRequests_ok {prompts : List String} {reqs : List CbRequestState}
    (h : makeRequests args encode prompts = .ok reqs) :
    reqs = (prompts.map encode).map (newRequest args) ∧
      ∀ prompt ∈ prompts, 0 < (encode prompt).length ∧
        (encode prompt).length ≤ min args.seqLen args.steps := by
  induction prompts generalizing reqs with
  | nil =>
    injection h with h
    exact ⟨h.symm, fun prompt hmem => absurd hmem List.not_mem_nil⟩
  | cons prompt prompts ih =>
    rw [makeRequests] at h
    split at h
    · cases h
    · split at h
      · cases h
      · split at h
        · cases h
        · rename_i hpos hseq hsteps
          cases hrest : makeRequests args encode prompts with
          | error msg =>
            rw [hrest] at h
            cases h
          | ok rest =>
            rw [hrest] at h
            injection h with h
            have htail := ih hrest
            constructor
            · rw [← h, htail.1]
              rfl
            · intro p hp
              cases List.mem_cons.mp hp with
              | inl he =>
                rw [he]
                exact ⟨by omega, by omega⟩
              | inr hin => exact htail.2 p hin

/-- Token lists of the prompts of the file. -/
def promptTokens (encode : String → List ℤ) (lines : List String) : List (List ℤ) :=
  (promptLines lines).map encode

/-- State before the first round. -/
def startState (args : AppCliArgs) (prompts : List (List ℤ)) : CbState where
  reqs := prompts.map fun tokens => (newRequest args tokens).prefilled
  cache := (prefill args 0 (prompts.map (newRequest args)) fun _ => none).2
  rrCursor := 0
  activeCount := prompts.length

/-- The driver's checks, and the state in which it starts to decode. -/
theorem startDecode_ok {lines : List String} {s : CbState}
    (h : startDecode args encode lines = .ok s) :
    s = startState args (promptTokens encode lines) ∧ promptTokens encode lines ≠ [] ∧
      0 < maxActive args ∧ ∀ tokens ∈ promptTokens encode lines,
        0 < tokens.length ∧ tokens.length ≤ min args.seqLen args.steps := by
  unfold startDecode loadPromptsFromFile at h
  split at h
  · cases h
  · rename_i hne
    dsimp only [bind, Except.bind] at h
    split at h
    · cases h
    · split at h
      · cases h
      · rename_i hactive hbatches
        cases hreqs : makeRequests args encode (promptLines lines) with
        | error msg =>
          rw [hreqs] at h
          cases h
        | ok reqs =>
          rw [hreqs] at h
          injection h with h
          have hmade := makeRequests_ok hreqs
          have hbounds : ∀ tokens ∈ promptTokens encode lines,
              0 < tokens.length ∧ tokens.length ≤ min args.seqLen args.steps := by
            intro tokens hmem
            obtain ⟨prompt, hp, he⟩ := List.mem_map.mp hmem
            rw [← he]
            exact hmade.2 prompt hp
          have hfst := prefill_fst args 0 (promptTokens encode lines)
            (fun tokens hmem => List.ne_nil_of_length_pos (hbounds tokens hmem).1) fun _ => none
          constructor
          · rw [← h, hmade.1, startState, ← hfst]
            simp [promptTokens]
          · exact ⟨fun hnil => hne (List.map_eq_nil_iff.mp hnil), by omega, hbounds⟩

end Prefill

section Round

variable {isEos : ℤ → Bool} {limit : ℕ} {s : CbState}

/-- A request once a token is taken for it. -/
def CbRequestState.taken (isEos : ℤ → Bool) (next : ℤ) (req : CbRequestState) : CbRequestState :=
  { req with
    token := next
    pos := req.pos + 1
    finished := req.finished || isEos next || decide (req.maxPos ≤ req.pos + 1) }

theorem waiting_iff (s : CbState) (idx : ℕ) : s.waiting idx = true ↔
    ∃ req, s.reqs[idx]? = some req ∧ req.finished = false ∧ req.pos < req.maxPos := by
  unfold CbState.waiting
  cases s.reqs[idx]? with
  | none => simp
  | some req => simp

theorem lt_of_waiting {idx : ℕ} (h : s.waiting idx = true) : idx < s.reqs.length := by
  obtain ⟨req, hreq, _⟩ := (waiting_iff s idx).mp h
  exact (List.getElem?_eq_some_iff.mp hreq).1

theorem position_eq {idx : ℕ} {req : CbRequestState} (h : s.reqs[idx]? = some req) :
    s.position idx = req.pos := by
  rw [CbState.position, h]
  rfl

theorem nodup_order (s : CbState) : s.order.Nodup := by
  apply List.Nodup.map_on _ List.nodup_range
  intro i hi j hj h
  exact Nat.ModEq.eq_of_lt_of_lt (Nat.ModEq.add_left_cancel' s.rrCursor h)
    (List.mem_range.mp hi) (List.mem_range.mp hj)

theorem waiting_of_picked {idx : ℕ} (h : idx ∈ s.picked limit) : s.waiting idx = true :=
  (List.mem_filter.mp (List.mem_of_mem_take h)).2

theorem nodup_picked (limit : ℕ) (s : CbState) : (s.picked limit).Nodup :=
  ((nodup_order s).filter _).sublist (List.take_sublist _ _)

/-- With one request waiting a round picks it or none. -/
theorem picked_of_sole (limit : ℕ) {last : ℕ} (h : ∀ idx, s.waiting idx = true → idx = last) :
    s.picked limit = [] ∨ s.picked limit = [last] := by
  have hnodup := nodup_picked limit s
  have hall : ∀ idx ∈ s.picked limit, idx = last := fun idx hidx => h idx (waiting_of_picked hidx)
  cases hp : s.picked limit with
  | nil => exact .inl rfl
  | cons first rest =>
    rw [hp] at hnodup hall
    have hfirst := hall first List.mem_cons_self
    cases rest with
    | nil => exact .inr (by rw [hfirst])
    | cons second rest =>
      have hsecond := hall second (by simp)
      rw [hfirst, hsecond] at hnodup
      exact absurd List.mem_cons_self (List.nodup_cons.mp hnodup).1

/-- The request under the cursor is picked first. -/
theorem picked_one_of_cursor (hcursor : s.rrCursor < s.reqs.length)
    (hwait : s.waiting s.rrCursor = true) : s.picked 1 = [s.rrCursor] := by
  unfold CbState.picked CbState.order
  cases hlen : s.reqs.length with
  | zero => omega
  | succ n =>
    have hmod : s.rrCursor % (n + 1) = s.rrCursor := Nat.mod_eq_of_lt (by omega)
    rw [List.range_succ_eq_map, List.map_cons, Nat.add_zero, hmod, List.filter_cons_of_pos hwait]
    rfl

theorem order_of_cursor_zero (hcursor : s.rrCursor = 0) : s.order = List.range s.reqs.length := by
  unfold CbState.order
  rw [hcursor]
  calc (List.range s.reqs.length).map (fun i => (0 + i) % s.reqs.length)
      = (List.range s.reqs.length).map id := by
        apply List.map_congr_left
        intro i hi
        rw [Nat.zero_add, Nat.mod_eq_of_lt (List.mem_range.mp hi)]
        rfl
    _ = List.range s.reqs.length := List.map_id _

/-- With the cursor at 0 the lowest waiting request is picked. -/
theorem picked_one_of_cursor_zero (hcursor : s.rrCursor = 0) {idx : ℕ}
    (hwait : s.waiting idx = true) : ∃ low, low ≤ idx ∧ s.picked 1 = [low] := by
  have hmem : idx ∈ (List.range s.reqs.length).filter s.waiting :=
    List.mem_filter.mpr ⟨List.mem_range.mpr (lt_of_waiting hwait), hwait⟩
  have hsorted := (List.pairwise_lt_range (n := s.reqs.length)).filter s.waiting
  unfold CbState.picked
  rw [order_of_cursor_zero hcursor]
  cases hf : (List.range s.reqs.length).filter s.waiting with
  | nil =>
    rw [hf] at hmem
    exact absurd hmem List.not_mem_nil
  | cons low rest =>
    rw [hf] at hmem hsorted
    refine ⟨low, ?_, rfl⟩
    cases List.mem_cons.mp hmem with
    | inl he => exact he.ge
    | inr hin => exact ((List.pairwise_cons.mp hsorted).1 idx hin).le

theorem forwardCache_single (s : CbState) (idx row : ℕ) :
    s.forwardCache [idx] row = if row = s.position idx then some idx else s.cache row := by
  have hallow : (⟨0, 0⟩ : LocalRange).Allows row := fun h => Nat.lt_irrefl 0 h.1
  unfold CbState.forwardCache
  rw [List.foldl_cons, List.foldl_nil, shiftForward_apply]
  simp only [List.mem_singleton, hallow, and_true]

/-- The counter counts the requests that are not finished. -/
def CbState.Counted (s : CbState) : Prop :=
  s.activeCount = s.reqs.countP fun req => !req.finished

/-- A round of one request takes its token and nothing else. -/
theorem decodeRound_single (isEos : ℤ → Bool) (sampled : ℕ → ℤ) {idx : ℕ}
    {req : CbRequestState} (hpick : s.picked limit = [idx]) (hreq : s.reqs[idx]? = some req) :
    (decodeRound isEos sampled limit s).reqs = s.reqs.set idx (req.taken isEos (sampled 0)) ∧
      (decodeRound isEos sampled limit s).cache = s.forwardCache [idx] ∧
      (decodeRound isEos sampled limit s).rrCursor = (idx + 1) % s.reqs.length ∧
      (s.Counted → (decodeRound isEos sampled limit s).Counted) := by
  have hmem : idx ∈ s.picked limit := by
    rw [hpick]
    exact List.mem_singleton_self idx
  have hwait : s.waiting idx = true := waiting_of_picked hmem
  obtain ⟨req', hreq', hfin, _⟩ := (waiting_iff s idx).mp hwait
  rw [hreq] at hreq'
  injection hreq' with hreq'
  rw [← hreq'] at hfin
  have hlt := (List.getElem?_eq_some_iff.mp hreq)
  have hpos : 0 < s.reqs.countP fun req => !req.finished := by
    apply List.countP_pos_iff.mpr
    exact ⟨req, List.mem_of_getElem? hreq, by simp [hfin]⟩
  have hround : decodeRound isEos sampled limit s = takeToken isEos sampled
      { s with cache := s.forwardCache [idx], rrCursor := (idx + 1) % s.reqs.length } (idx, 0) := by
    unfold decodeRound
    rw [hpick]
    rfl
  rw [hround]
  unfold takeToken
  simp only [hreq]
  by_cases hend : isEos (sampled 0) = true ∨ req.maxPos ≤ req.pos + 1
  · rw [if_pos hend]
    have htaken : req.taken isEos (sampled 0) =
        { req with token := sampled 0, pos := req.pos + 1, finished := true } := by
      unfold CbRequestState.taken
      congr 1
      cases hend with
      | inl h => simp [h]
      | inr h => simp [h]
    refine ⟨by rw [htaken], rfl, rfl, ?_⟩
    intro hcount
    unfold CbState.Counted at hcount ⊢
    simp only
    rw [List.countP_set hlt.1, hlt.2, hfin, hcount]
    simp
  · rw [if_neg hend]
    have htaken : req.taken isEos (sampled 0) =
        { req with token := sampled 0, pos := req.pos + 1 } := by
      unfold CbRequestState.taken
      congr 1
      have h := not_or.mp hend
      simp [h.1, h.2]
    refine ⟨by rw [htaken], rfl, rfl, ?_⟩
    intro hcount
    unfold CbState.Counted at hcount ⊢
    simp only
    rw [List.countP_set hlt.1, hlt.2, hfin, hcount]
    simp
    omega

/-- The picked requests are isolated when only one can be picked and the cache
below its position is its own. -/
structure Sole (last : ℕ) (s : CbState) : Prop where
  /-- No other request waits. -/
  waiting : ∀ idx, s.waiting idx = true → idx = last
  /-- Rows below the position are those of the request. -/
  rows : ∀ row < s.position last, s.cache row = some last

theorem Sole.isolated {last : ℕ} (h : Sole last s) : s.Isolated limit := by
  intro idx hidx row hrow
  have he := h.waiting idx (waiting_of_picked hidx)
  have hpick : s.picked limit = [last] := by
    cases picked_of_sole limit h.waiting with
    | inl hnil =>
      rw [hnil] at hidx
      exact absurd hidx List.not_mem_nil
    | inr hone => exact hone
  rw [he] at hrow ⊢
  rw [hpick, forwardCache_single]
  have hle : row < s.position last + 1 := List.mem_range.mp hrow
  by_cases hpos : row = s.position last
  · rw [if_pos hpos]
  · rw [if_neg hpos]
    exact h.rows row (by omega)

theorem Sole.step {last : ℕ} (h : Sole last s) (sampled : ℕ → ℤ) :
    Sole last (decodeRound isEos sampled limit s) := by
  cases picked_of_sole limit h.waiting with
  | inl hnil =>
    have hreqs : (decodeRound isEos sampled limit s).reqs = s.reqs := by
      unfold decodeRound
      rw [hnil]
      rfl
    have hcache : (decodeRound isEos sampled limit s).cache = s.cache := by
      unfold decodeRound
      rw [hnil]
      rfl
    constructor
    · intro idx hwait
      unfold CbState.waiting at hwait
      rw [hreqs] at hwait
      exact h.waiting idx hwait
    · intro row hrow
      unfold CbState.position at hrow
      rw [hreqs] at hrow
      rw [hcache]
      exact h.rows row hrow
  | inr hone =>
    have hmem : last ∈ s.picked limit := by
      rw [hone]
      exact List.mem_singleton_self last
    have hwait : s.waiting last = true := waiting_of_picked hmem
    obtain ⟨req, hreq, _⟩ := (waiting_iff s last).mp hwait
    have hlt := (List.getElem?_eq_some_iff.mp hreq).1
    have hround := decodeRound_single isEos sampled hone hreq
    constructor
    · intro idx hidx
      by_cases he : idx = last
      · exact he
      · apply h.waiting idx
        unfold CbState.waiting at hidx ⊢
        rw [hround.1, List.getElem?_set_ne (Ne.symm he)] at hidx
        exact hidx
    · intro row hrow
      have hnext : (decodeRound isEos sampled limit s).position last = req.pos + 1 := by
        unfold CbState.position
        rw [hround.1, List.getElem?_set_self hlt]
        rfl
      rw [hnext] at hrow
      have hpos := position_eq hreq
      rw [hround.2.1, forwardCache_single, hpos]
      by_cases he : row = req.pos
      · rw [if_pos he]
      · rw [if_neg he]
        exact h.rows row (by omega)

end Round

section Turns

variable {args : AppCliArgs} {isEos : ℤ → Bool} {sampled : ℕ → ℕ → ℤ} {prompts : List (List ℤ)}

/-- After `k` rounds of one request each, every one of the first `k` requests
has had its turn and the others have not. -/
structure Turn (args : AppCliArgs) (isEos : ℤ → Bool) (sampled : ℕ → ℕ → ℤ)
    (prompts : List (List ℤ)) (k : ℕ) (s : CbState) : Prop where
  /-- Requests. -/
  reqs : ∀ j : ℕ, s.reqs[j]? = (prompts[j]?).map fun tokens =>
    if j < k then (newRequest args tokens).prefilled.taken isEos (sampled j 0)
    else (newRequest args tokens).prefilled
  /-- Cursor. -/
  rrCursor : s.rrCursor = k % prompts.length
  /-- Counter. -/
  counted : s.Counted

theorem Turn.length {k : ℕ} {s : CbState} (h : Turn args isEos sampled prompts k s) :
    s.reqs.length = prompts.length := by
  apply Nat.le_antisymm
  · have hnone := h.reqs prompts.length
    rw [List.getElem?_eq_none (Nat.le_refl _)] at hnone
    exact List.getElem?_eq_none_iff.mp hnone
  · have hnone := h.reqs s.reqs.length
    rw [List.getElem?_eq_none (Nat.le_refl _)] at hnone
    exact List.getElem?_eq_none_iff.mp (Option.map_eq_none_iff.mp hnone.symm)

theorem turn_startState (args : AppCliArgs) (isEos : ℤ → Bool) (sampled : ℕ → ℕ → ℤ)
    (prompts : List (List ℤ)) :
    Turn args isEos sampled prompts 0 (startState args prompts) := by
  constructor
  · intro j
    simp [startState]
  · simp [startState]
  · unfold CbState.Counted startState
    simp only
    rw [List.countP_map, List.countP_eq_length.mpr]
    intro tokens _
    rfl

/-- The prompts pass the driver's checks. -/
def Fits (args : AppCliArgs) (prompts : List (List ℤ)) : Prop :=
  ∀ tokens ∈ prompts, 0 < tokens.length ∧ tokens.length ≤ min args.seqLen args.steps

/-- A request that has not had its turn waits at its last prompt token. -/
theorem Turn.untouched {k : ℕ} {s : CbState} (h : Turn args isEos sampled prompts k s)
    (hfits : Fits args prompts) {j : ℕ} {tokens : List ℤ} (hj : prompts[j]? = some tokens)
    (hk : k ≤ j) : s.waiting j = true ∧ s.position j = tokens.length - 1 := by
  have hreq := h.reqs j
  rw [hj, Option.map_some, if_neg (by omega)] at hreq
  have hlen := hfits tokens (List.mem_of_getElem? hj)
  constructor
  · apply (waiting_iff s j).mpr
    refine ⟨_, hreq, rfl, ?_⟩
    simp only [CbRequestState.prefilled, newRequest]
    omega
  · rw [position_eq hreq]
    rfl

/-- A request that has had its turn waits for another unless it has ended. -/
theorem Turn.waiting_iff_of_lt {k : ℕ} {s : CbState} (h : Turn args isEos sampled prompts k s)
    {j : ℕ} {tokens : List ℤ} (hj : prompts[j]? = some tokens) (hk : j < k) :
    s.waiting j = true ↔
      ¬(isEos (sampled j 0) = true ∨ min args.seqLen args.steps ≤ tokens.length - 1 + 1) := by
  have hreq := h.reqs j
  rw [hj, Option.map_some, if_pos hk] at hreq
  unfold CbState.waiting
  rw [hreq]
  simp only [CbRequestState.taken, CbRequestState.prefilled, newRequest, Option.any_some,
    Bool.false_or, Bool.not_or, Bool.and_eq_true, Bool.not_eq_true', decide_eq_true_eq, not_or,
    Bool.not_eq_true]
  constructor
  · intro hall
    exact ⟨hall.1.1, of_decide_eq_false hall.1.2⟩
  · intro hall
    have hnot := hall.2
    exact ⟨⟨hall.1, decide_eq_false hnot⟩, by omega⟩

theorem Turn.position_pos {k : ℕ} {s : CbState} (h : Turn args isEos sampled prompts k s)
    {j : ℕ} {tokens : List ℤ} (hj : prompts[j]? = some tokens) (hk : j < k) :
    s.position j = tokens.length - 1 + 1 := by
  have hreq := h.reqs j
  rw [hj, Option.map_some, if_pos hk] at hreq
  rw [position_eq hreq]
  rfl

/-- One more request has its turn. -/
theorem Turn.step {k : ℕ} {s : CbState} (h : Turn args isEos sampled prompts k s)
    (hfits : Fits args prompts) (hk : k < prompts.length) :
    s.picked 1 = [k] ∧ s.continues 1 ∧
      Turn args isEos sampled prompts (k + 1) (decodeRound isEos (sampled k) 1 s) := by
  have htokens := List.getElem?_eq_getElem hk
  have hwait := (h.untouched hfits htokens (Nat.le_refl k)).1
  have hcursor : s.rrCursor = k := by rw [h.rrCursor, Nat.mod_eq_of_lt hk]
  have hpick : s.picked 1 = [k] := by
    have hone := picked_one_of_cursor (s := s) (by rw [hcursor]; exact lt_of_waiting hwait)
      (by rw [hcursor]; exact hwait)
    rw [hone, hcursor]
  obtain ⟨req, hreq, hfin, _⟩ := (waiting_iff s k).mp hwait
  have hround := decodeRound_single isEos (sampled k) hpick hreq
  refine ⟨hpick, ⟨?_, by rw [hpick]; simp⟩, ?_, ?_, hround.2.2.2 h.counted⟩
  · rw [h.counted]
    apply List.countP_pos_iff.mpr
    exact ⟨req, List.mem_of_getElem? hreq, by simp [hfin]⟩
  · intro j
    rw [hround.1]
    by_cases hj : j = k
    · have hold := h.reqs k
      rw [htokens, hreq, Option.map_some, if_neg (Nat.lt_irrefl k)] at hold
      injection hold with hold
      rw [hj, List.getElem?_set_self (List.getElem?_eq_some_iff.mp hreq).1, htokens,
        Option.map_some, if_pos (Nat.lt_succ_self k), hold]
    · rw [List.getElem?_set_ne (Ne.symm hj), h.reqs j]
      have hiff : (j < k) = (j < k + 1) := by
        apply propext
        omega
      simp only [hiff]
  · rw [hround.2.2.1, h.length]

theorem turn_run (isEos : ℤ → Bool) (sampled : ℕ → ℕ → ℤ) (hfits : Fits args prompts) {k : ℕ} (hk : k < prompts.length) :
    ∃ s, decodeRun isEos sampled 1 (startState args prompts) k = some s ∧
      Turn args isEos sampled prompts k s := by
  induction k with
  | zero =>
    have hturn := turn_startState args isEos sampled prompts
    exact ⟨_, if_pos (hturn.step hfits hk).2.1, hturn⟩
  | succ k ih =>
    obtain ⟨s, hs, hturn⟩ := ih (by omega)
    have hnext := (hturn.step hfits (by omega)).2.2
    refine ⟨_, ?_, hnext⟩
    rw [decodeRun, hs]
    exact if_pos (hnext.step hfits hk).2.1

/-- Every prompt after the first is one token, rounds take one request, and
every request but the last ends with its first token. -/
structure OneByOne (args : AppCliArgs) (isEos : ℤ → Bool) (sampled : ℕ → ℕ → ℤ)
    (prompts : List (List ℤ)) : Prop where
  /-- Rounds take one request. -/
  limit : maxActive args = 1
  /-- Later prompts are one token. -/
  single : ∀ (i : ℕ) (tokens : List ℤ), 0 < i → prompts[i]? = some tokens → tokens.length = 1
  /-- Earlier requests end with their first token. -/
  ends : ∀ (i : ℕ) (tokens : List ℤ), i + 1 < prompts.length → prompts[i]? = some tokens →
    isEos (sampled i 0) = true ∨ min args.seqLen args.steps ≤ tokens.length

/-- The rows of the first prompt's prefill are its own when no other prompt has one. -/
theorem startState_cache (hfits : Fits args prompts)
    (hsingle : ∀ (i : ℕ) (tokens : List ℤ), 0 < i → prompts[i]? = some tokens → tokens.length = 1)
    {tokens : List ℤ} (hfirst : prompts[0]? = some tokens) {row : ℕ}
    (hrow : row < tokens.length - 1) : (startState args prompts).cache row = some 0 := by
  cases prompts with
  | nil => cases hfirst
  | cons first rest =>
    injection hfirst with hfirst
    have hlen := (hfits first List.mem_cons_self).1
    have hrest : ∀ tokens ∈ rest, tokens.length = 1 := by
      intro t ht
      obtain ⟨i, hi⟩ := List.getElem?_of_mem ht
      exact hsingle (i + 1) t (Nat.succ_pos i) hi
    unfold startState
    simp only [List.map_cons, prefill]
    rw [prefill_snd_of_single _ rest hrest,
      prefillLoop_eq (resolvePrefillChunkBatchSize_pos _ _) _ _ _ _ hlen
        (by simp [newRequest]) rfl]
    simp only [newRequest]
    rw [hfirst]
    exact if_pos ⟨Nat.zero_le row, by omega⟩

/-- From a state in which one request waits on its own rows, all rounds are isolated. -/
theorem sole_run (limit last : ℕ) {j : ℕ} {s₀ : CbState}
    (hstart : ∀ s, decodeRun isEos sampled limit s₀ j = some s → Sole last s) {k : ℕ} (hk : j ≤ k)
    {s : CbState} (hs : decodeRun isEos sampled limit s₀ k = some s) : Sole last s := by
  induction k, hk using Nat.le_induction generalizing s with
  | base => exact hstart s hs
  | succ k _ ih =>
    rw [decodeRun] at hs
    obtain ⟨prev, hprev, hnext⟩ := Option.bind_eq_some_iff.mp hs
    simp only at hnext
    split at hnext
    · injection hnext with hnext
      rw [← hnext]
      exact (ih hprev).step (sampled k)
    · cases hnext

/-- A single request only reads what was written for it. -/
theorem isolated_of_single {tokens : List ℤ} (hfits : Fits args [tokens]) {limit k : ℕ}
    {s : CbState} (hs : decodeRun isEos sampled limit (startState args [tokens]) k = some s) :
    s.Isolated limit := by
  have hturn := turn_startState args isEos sampled [tokens]
  have hsole : Sole 0 (startState args [tokens]) := by
    constructor
    · intro idx hwait
      have hlt := lt_of_waiting hwait
      rw [hturn.length] at hlt
      exact Nat.lt_one_iff.mp hlt
    · intro row hrow
      rw [(hturn.untouched hfits (j := 0) rfl (Nat.le_refl 0)).2] at hrow
      refine startState_cache hfits ?_ rfl hrow
      intro i t hi ht
      have hlt : i < 1 := (List.getElem?_eq_some_iff.mp ht).1
      omega
  have hrun := sole_run limit 0 (j := 0) ?_ (Nat.zero_le k) hs
  · exact hrun.isolated
  · intro s₁ hs₁
    rw [decodeRun] at hs₁
    split at hs₁
    · injection hs₁ with hs₁
      rw [← hs₁]
      exact hsole
    · cases hs₁

/-- When requests are run one by one, each of one row, no row is shared. -/
theorem isolated_of_oneByOne (hfits : Fits args prompts) (h : OneByOne args isEos sampled prompts)
    (htwo : 2 ≤ prompts.length) {k : ℕ} {s : CbState}
    (hs : decodeRun isEos sampled 1 (startState args prompts) k = some s) : s.Isolated 1 := by
  by_cases hk : k < prompts.length
  · obtain ⟨s', hs', hturn⟩ := turn_run isEos sampled hfits hk
    rw [hs] at hs'
    injection hs' with hs'
    rw [← hs'] at hturn
    have htokens := List.getElem?_eq_getElem hk
    have hpick := (hturn.step hfits hk).1
    have hpos := (hturn.untouched hfits htokens (Nat.le_refl k)).2
    intro idx hidx row hrow
    rw [hpick] at hidx ⊢
    have he := List.mem_singleton.mp hidx
    rw [he] at hrow ⊢
    rw [forwardCache_single]
    have hle : row < s.position k + 1 := List.mem_range.mp hrow
    by_cases hlast : row = s.position k
    · rw [if_pos hlast]
    · rw [if_neg hlast]
      cases k with
      | zero =>
        rw [decodeRun] at hs
        split at hs
        · injection hs with hs
          rw [← hs]
          exact startState_cache hfits h.single htokens (by omega)
        · cases hs
      | succ k =>
        have hone := h.single (k + 1) _ (Nat.succ_pos k) htokens
        omega
  · have hprev : prompts.length - 1 < prompts.length := by omega
    obtain ⟨s₁, hs₁, hturn⟩ := turn_run isEos sampled hfits hprev
    have hstep := hturn.step hfits hprev
    have hcount : prompts.length - 1 + 1 = prompts.length := by omega
    have htokens := List.getElem?_eq_getElem hprev
    have hone := h.single _ _ (by omega) htokens
    refine (sole_run 1 (prompts.length - 1) (j := prompts.length) ?_ (by omega) hs).isolated
    intro s₂ hs₂
    rw [← hcount, decodeRun, hs₁] at hs₂
    simp only [Option.bind_some] at hs₂
    split at hs₂
    · injection hs₂ with hs₂
      rw [← hs₂]
      have hnext := hstep.2.2
      constructor
      · intro idx hwait
        have hlt := lt_of_waiting hwait
        rw [hnext.length] at hlt
        have hidx := List.getElem?_eq_getElem hlt
        by_cases he : idx = prompts.length - 1
        · exact he
        · have hended := h.ends idx _ (by omega) hidx
          have hlen := (hfits _ (List.mem_of_getElem? hidx)).1
          have hgo := (hnext.waiting_iff_of_lt hidx (by omega)).mp hwait
          rw [Nat.sub_add_cancel hlen] at hgo
          exact absurd hended hgo
      · intro row hrow
        rw [hnext.position_pos htokens (by omega), hone] at hrow
        obtain ⟨req, hreq, _⟩ := (waiting_iff s₁ _).mp
          (hturn.untouched hfits htokens (Nat.le_refl _)).1
        rw [(decodeRound_single isEos _ hstep.1 hreq).2.1, forwardCache_single,
          (hturn.untouched hfits htokens (Nat.le_refl _)).2, hone, if_pos (by omega)]
    · cases hs₂

/-- Two requests in a round share row 0. -/
theorem not_isolated_of_two (limit : ℕ) (hfits : Fits args prompts) (htwo : 2 ≤ prompts.length)
    (hlimit : 2 ≤ limit) : (startState args prompts).continues limit ∧
      ¬(startState args prompts).Isolated limit := by
  have hturn := turn_startState args (fun _ => false) (fun _ _ => 0) prompts
  have hw : ∀ j, j < prompts.length → (startState args prompts).waiting j = true := fun j hj =>
    (hturn.untouched hfits (List.getElem?_eq_getElem hj) (Nat.zero_le j)).1
  have hmem : 0 ∈ (startState args prompts).picked limit ∧
      1 ∈ (startState args prompts).picked limit := by
    unfold CbState.picked
    rw [order_of_cursor_zero rfl, hturn.length]
    obtain ⟨n, hn⟩ := Nat.exists_eq_add_of_le htwo
    obtain ⟨m, hm⟩ := Nat.exists_eq_add_of_le hlimit
    have hrange : List.range prompts.length =
        0 :: 1 :: (List.range n).map fun i => i + 1 + 1 := by
      rw [hn, Nat.add_comm 2 n, List.range_succ_eq_map, List.range_succ_eq_map]
      simp [Function.comp_def]
    rw [hrange, List.filter_cons_of_pos (hw 0 (by omega)), List.filter_cons_of_pos (hw 1 (by omega)),
      hm, Nat.add_comm 2 m, List.take_succ_cons, List.take_succ_cons]
    simp
  constructor
  · exact ⟨by simp only [startState]; omega, List.ne_nil_of_mem hmem.1⟩
  · intro hiso
    have hzero := hiso 0 hmem.1 0 (List.mem_range.mpr (Nat.succ_pos _))
    have hone := hiso 1 hmem.2 0 (List.mem_range.mpr (Nat.succ_pos _))
    rw [hzero] at hone
    cases hone

/-- If rounds of one request are isolated, requests are run one by one. -/
theorem oneByOne_of_isolated (hfits : Fits args prompts) (hlimit : maxActive args = 1)
    (h : ∀ k s, decodeRun isEos sampled 1 (startState args prompts) k = some s → s.Isolated 1) :
    OneByOne args isEos sampled prompts := by
  have hrow : ∀ k, k < prompts.length → ∀ s,
      decodeRun isEos sampled 1 (startState args prompts) k = some s →
        (decodeRound isEos (sampled k) 1 s).cache 0 = some k := by
    intro k hk s hs
    obtain ⟨s', hs', hturn⟩ := turn_run isEos sampled hfits hk
    rw [hs] at hs'
    injection hs' with hs'
    rw [← hs'] at hturn
    have hpick := (hturn.step hfits hk).1
    obtain ⟨req, hreq, _⟩ := (waiting_iff s k).mp
      (hturn.untouched hfits (List.getElem?_eq_getElem hk) (Nat.le_refl k)).1
    have hiso := h k s hs k (by rw [hpick]; simp) 0 (List.mem_range.mpr (Nat.succ_pos _))
    rw [(decodeRound_single isEos _ hpick hreq).2.1]
    rw [hpick] at hiso
    exact hiso
  refine ⟨hlimit, ?_, ?_⟩
  · intro i tokens hi htokens
    have hlt := (List.getElem?_eq_some_iff.mp htokens).1
    obtain ⟨k, hk⟩ := Nat.exists_eq_succ_of_ne_zero hi.ne'
    rw [hk] at hlt htokens
    obtain ⟨s, hs, hturn⟩ := turn_run isEos sampled hfits
      (Nat.lt_of_succ_lt hlt)
    have hnext := (hturn.step hfits (Nat.lt_of_succ_lt hlt)).2.2
    have hstep := hnext.step hfits hlt
    have hrun : decodeRun isEos sampled 1 (startState args prompts) (k + 1) =
        some (decodeRound isEos (sampled k) 1 s) := by
      rw [decodeRun, hs]
      exact if_pos hstep.2.1
    have hiso := h (k + 1) _ hrun (k + 1) (by rw [hstep.1]; simp) 0
      (List.mem_range.mpr (Nat.succ_pos _))
    rw [hstep.1, forwardCache_single, (hnext.untouched hfits htokens (Nat.le_refl _)).2,
      hrow k (Nat.lt_of_succ_lt hlt) s hs] at hiso
    have hlen := (hfits tokens (List.mem_of_getElem? htokens)).1
    split at hiso
    · omega
    · injection hiso with hiso
      omega
  · intro i tokens hi htokens
    by_contra hgo
    have hprev : prompts.length - 1 < prompts.length := by omega
    obtain ⟨s, hs, hturn⟩ := turn_run isEos sampled hfits hprev
    have hnext := (hturn.step hfits hprev).2.2
    have hcount : prompts.length - 1 + 1 = prompts.length := by omega
    have hlen := (hfits tokens (List.mem_of_getElem? htokens)).1
    have hwait : (decodeRound isEos (sampled (prompts.length - 1)) 1 s).waiting i = true := by
      apply (hnext.waiting_iff_of_lt htokens (by omega)).mpr
      rw [Nat.sub_add_cancel hlen]
      exact hgo
    have hcursor : (decodeRound isEos (sampled (prompts.length - 1)) 1 s).rrCursor = 0 := by
      rw [hnext.rrCursor, hcount, Nat.mod_self]
    obtain ⟨low, hlow, hpick⟩ := picked_one_of_cursor_zero hcursor hwait
    obtain ⟨req, hreq, hfin, _⟩ := (waiting_iff _ i).mp hwait
    have hrun : decodeRun isEos sampled 1 (startState args prompts) (prompts.length - 1 + 1) =
        some (decodeRound isEos (sampled (prompts.length - 1)) 1 s) := by
      rw [decodeRun, hs]
      refine if_pos ⟨?_, by rw [hpick]; simp⟩
      rw [hnext.counted]
      apply List.countP_pos_iff.mpr
      exact ⟨req, List.mem_of_getElem? hreq, by simp [hfin]⟩
    have hiso := h _ _ hrun low (by rw [hpick]; simp) 0 (List.mem_range.mpr (Nat.succ_pos _))
    have hlowlt : low < prompts.length := by omega
    rw [hpick, forwardCache_single,
      hnext.position_pos (List.getElem?_eq_getElem hlowlt) (by omega), if_neg (by omega),
      hrow _ hprev s hs] at hiso
    injection hiso with hiso
    omega

end Turns

/-- Attention of a decode round reads only rows of the request it runs for, in
every round, exactly when there is one prompt or requests are run one by one. -/
theorem isolated_iff {args : AppCliArgs} {encode : String → List ℤ} {lines : List String}
    (isEos : ℤ → Bool) (sampled : ℕ → ℕ → ℤ) {s₀ : CbState}
    (hstart : startDecode args encode lines = .ok s₀) :
    (∀ k s, decodeRun isEos sampled (maxActive args) s₀ k = some s →
      s.Isolated (maxActive args)) ↔
    (promptTokens encode lines).length = 1 ∨
      OneByOne args isEos sampled (promptTokens encode lines) := by
  obtain ⟨hs₀, hne, hactive, hfits⟩ := startDecode_ok hstart
  have hpos := List.length_pos_of_ne_nil hne
  rw [hs₀]
  constructor
  · intro h
    by_cases hone : (promptTokens encode lines).length = 1
    · exact .inl hone
    · right
      by_cases hlimit : maxActive args = 1
      · rw [hlimit] at h
        exact oneByOne_of_isolated hfits hlimit h
      · have htwo := not_isolated_of_two (maxActive args) hfits (by omega) (by omega)
        exact absurd (h 0 _ (if_pos htwo.1)) htwo.2
  · intro h k s hs
    by_cases hone : (promptTokens encode lines).length = 1
    · obtain ⟨tokens, htokens⟩ := List.length_eq_one_iff.mp hone
      rw [htokens] at hs hfits
      exact isolated_of_single hfits hs
    · have hby := h.resolve_left hone
      rw [hby.limit] at hs ⊢
      exact isolated_of_oneByOne hfits hby (by omega) hs

/-- Rounds of up to two requests. -/
def twoActive : AppCliArgs := ⟨32, 2, 64, 1, 128, 0, 128⟩

/-- Two prompts of two tokens, whose requests end with their first token. -/
theorem isolated_iff_two_prompts :
    (∀ k s, decodeRun (fun _ => true) (fun _ _ => 2) (maxActive twoActive)
      (startState twoActive [[1, 7], [1, 8]]) k = some s → s.Isolated (maxActive twoActive)) ↔
    (promptTokens (fun prompt => if prompt = "a" then [1, 7] else [1, 8]) ["a", "", "b"]).length =
        1 ∨
      OneByOne twoActive (fun _ => true) (fun _ _ => 2)
        (promptTokens (fun prompt => if prompt = "a" then [1, 7] else [1, 8])
          ["a", "", "b"]) := by
  have hstart : startDecode twoActive (fun prompt => if prompt = "a" then [1, 7] else [1, 8])
      ["a", "", "b"] = .ok (startState twoActive [[1, 7], [1, 8]]) := rfl
  exact isolated_iff (fun _ => true) (fun _ _ => 2) hstart

/-- Both requests of the first round read the row that the second one wrote. -/
theorem not_isolated_two_prompts : ¬∀ (args : AppCliArgs) (encode : String → List ℤ)
    (lines : List String) (isEos : ℤ → Bool) (sampled : ℕ → ℕ → ℤ) (s₀ : CbState),
    startDecode args encode lines = .ok s₀ →
      ∀ k s, decodeRun isEos sampled (maxActive args) s₀ k = some s →
        s.Isolated (maxActive args) := by
  intro h
  have hfits : Fits twoActive [[1, 7], [1, 8]] := by
    unfold Fits
    decide
  have htwo := not_isolated_of_two (maxActive twoActive) hfits (by decide) (by decide)
  have hiso := h twoActive (fun prompt => if prompt = "a" then [1, 7] else [1, 8]) ["a", "b"]
    (fun _ => true) (fun _ _ => 2) _ rfl 0 _ (if_pos htwo.1)
  exact htwo.2 hiso

end LayerSkip.ContinuousBatching
