import LayerSkip.NaiveCacheRuns

/-!
# The prompt as the model sees it

A chat turn and an API request feed the prompt in two parts: the prefill loop all of it but
the last token, and the first decode step that one. The token of the first decode step is a
variable that the prefill loop sets from the array of the prompt after each batch.
-/

namespace LayerSkip.PromptFeeding

open NaiveCache

/-- Tokens with their positions. -/
def pairs (pos : ℕ) : List Token → List (ℕ × Token)
  | [] => []
  | token :: tokens => (pos, token) :: pairs (pos + 1) tokens

/-- What the forwards among the operations feed, in order. -/
def fed : List Op → List (ℕ × Token)
  | [] => []
  | .forward pos tokens :: ops => pairs pos tokens ++ fed ops
  | _ :: ops => fed ops

/-- A turn of the chat. -/
structure ChatTurn where
  /-- The encoded messages. -/
  prompt : PromptTokens
  /-- Token sampled in each step. -/
  sample : ℕ → Token
  /-- Answer of the detector in each step. -/
  eosType : ℕ → EosDetectorType

/-- The prefill loop of a request, and of a chat turn that begins within the context. -/
def prefill (ctx : ApiContext) (prompt : PromptTokens) (startPos : ℕ) : List Op :=
  prefillOps prompt (resolvePrefillChunkBatchSize ctx (promptEnd ctx startPos prompt - startPos))
    (promptEnd ctx startPos prompt) startPos 0

/-- The prefill loop of the chat. Its count of remaining tokens is an `int`, so that a position
behind the prompt ends the loop. -/
def chatPrefill (ctx : ApiContext) (turn : ChatTurn) (pos : ℕ) : List Op :=
  if promptEnd ctx pos turn.prompt < pos then [] else prefill ctx turn.prompt pos

/-- The decode loop of the chat. -/
def chatDecodeLoop (seqLen : ℕ) (turn : ChatTurn) (k pos : ℕ) (token : Token) : List Op :=
  if pos < seqLen then
    .forward pos [token] ::
      if turn.eosType k = .eos then []
      else chatDecodeLoop seqLen turn (k + 1) (pos + 1) (turn.sample k)
  else []
termination_by seqLen - pos

/-- The variable of the first decode step: the prefill loop, if it ran, has set it from the
array of the prompt; else it is what it was before. -/
def tokenAfter (prompt : PromptTokens) (startPos promptEndPos : ℕ) (token : Token) : Token :=
  if startPos < promptEndPos then prompt.cell (promptEndPos - startPos + 1) else token

/-- The decode loop of a turn that begins at a position. -/
def chatDecode (ctx : ApiContext) (turn : ChatTurn) (pos : ℕ) (token : Token) : List Op :=
  chatDecodeLoop ctx.seqLen turn 0 (max pos (promptEnd ctx pos turn.prompt))
    (tokenAfter turn.prompt pos (promptEnd ctx pos turn.prompt) token)

/-- A prompt is fed as it is: all tokens but the last by the prefill loop, in order and each
once, and the last by the first decode step. -/
structure Feeds (prefill decode : List Op) (startPos : ℕ) (tokens : List Token) : Prop where
  /-- What the prefill loop feeds. -/
  prefill : fed prefill = pairs startPos tokens.dropLast
  /-- The first decode step. -/
  first : ∃ token rest, tokens.getLast? = some token ∧
    decode = .forward (startPos + (tokens.length - 1)) [token] :: rest

section Prefill

theorem pairs_append (pos : ℕ) (tokens more : List Token) :
    pairs pos (tokens ++ more) = pairs pos tokens ++ pairs (pos + tokens.length) more := by
  induction tokens generalizing pos with
  | nil => exact Eq.refl _
  | cons token tokens ih =>
    have hshift : pos + 1 + tokens.length = pos + (tokens.length + 1) := by omega
    rw [List.cons_append, pairs, pairs, ih, List.length_cons, hshift]
    exact Eq.refl _

/-- The batches of the prefill loop together feed the cells up to the end of the prompt. -/
theorem fed_prefillOps (prompt : PromptTokens) {cap promptEndPos pos i : ℕ} (hcap : 0 < cap)
    (hpos : pos ≤ promptEndPos) :
    fed (prefillOps prompt cap promptEndPos pos i) =
      pairs pos ((List.range (promptEndPos - pos)).map fun j => prompt.cell (i + j)) := by
  fun_induction prefillOps prompt cap promptEndPos pos i with
  | case1 pos i hlt => omega
  | case2 pos i hle hmore batchSize ih =>
    have hbatch : batchSize ≤ promptEndPos - pos := Nat.min_le_left _ _
    rw [prompt.cells_split i hbatch, pairs_append, List.length_map, List.length_range,
      Nat.sub_sub, ← ih (by omega)]
    exact Eq.refl _
  | case3 pos i hle hend =>
    have hzero : promptEndPos - pos = 0 := by omega
    rw [hzero]
    exact Eq.refl _

/-- The cells before the last token are the tokens before it. -/
theorem cells_dropLast (prompt : PromptTokens) :
    ((List.range (prompt.tokens.length - 1)).map fun j => prompt.cell (0 + j)) =
      prompt.tokens.dropLast := by
  refine List.ext_getElem ?_ ?_
  · rw [List.length_map, List.length_range, List.length_dropLast]
  · intro i hi hi'
    have hlt : i < prompt.tokens.length := by
      rw [List.length_dropLast] at hi'
      omega
    rw [List.getElem_map, List.getElem_range, Nat.zero_add, List.getElem_dropLast,
      PromptTokens.cell, List.getD_eq_getElem?_getD, List.getElem?_eq_getElem hlt, Option.getD_some]

/-- A prompt with room in the context ends at its last token. -/
theorem promptEnd_of_room (ctx : ApiContext) {startPos : ℕ} {prompt : PromptTokens}
    (hsome : prompt.tokens ≠ []) (hroom : startPos + prompt.tokens.length ≤ ctx.seqLen) :
    promptEnd ctx startPos prompt = startPos + (prompt.tokens.length - 1) := by
  have hlength := List.length_pos_of_ne_nil hsome
  have hseq := ctx.seqLen_lt
  unfold promptEnd
  omega

/-- The prefill loop feeds all tokens of the prompt but the last. -/
theorem fed_prefill (ctx : ApiContext) {startPos : ℕ} {prompt : PromptTokens}
    (hsome : prompt.tokens ≠ []) (hroom : startPos + prompt.tokens.length ≤ ctx.seqLen) :
    fed (prefill ctx prompt startPos) = pairs startPos prompt.tokens.dropLast := by
  rw [prefill, promptEnd_of_room ctx hsome hroom,
    fed_prefillOps prompt (resolvePrefillChunkBatchSize_pos _ _) (Nat.le_add_right _ _),
    Nat.add_sub_cancel_left, cells_dropLast]

end Prefill

section First

variable {ctx : ApiContext} {startPos : ℕ}

/-- After the prefill loop the variable holds the cell behind the prompt. -/
theorem tokenAfter_eq {prompt : PromptTokens} (hsome : prompt.tokens ≠ []) (token : Token) :
    tokenAfter prompt startPos (startPos + (prompt.tokens.length - 1)) token =
      if 1 < prompt.tokens.length then prompt.behind 0 else token := by
  have hlength := List.length_pos_of_ne_nil hsome
  unfold tokenAfter
  by_cases hmany : 1 < prompt.tokens.length
  · have hcell : startPos + (prompt.tokens.length - 1) - startPos + 1 = prompt.tokens.length := by
      omega
    rw [if_pos (by omega), if_pos hmany, hcell, PromptTokens.cell, Nat.sub_self,
      List.getD_eq_getElem?_getD, List.getElem?_eq_none (Nat.le_refl _), Option.getD_none]
  · rw [if_neg (by omega), if_neg hmany]

/-- How the decode loop of a request begins. -/
theorem decode_first (r : Request) (maxPredPos k pos : ℕ) (token : Token) (buffer : String) :
    ∃ rest, (decode r maxPredPos k pos token buffer).ops =
      if pos < maxPredPos then .forward pos [token] :: rest else [] := by
  unfold decode
  by_cases hlt : pos < maxPredPos
  · simp only [hlt, if_true]
    split
    · exact ⟨_, Eq.refl _⟩
    · exact ⟨_, Eq.refl _⟩
  · simp only [hlt, if_false]
    exact ⟨[], trivial⟩

/-- The request decodes from the last token on, if its limit lets it. -/
theorem decoded_first (r : Request) {prompt : PromptTokens} (hsome : prompt.tokens ≠ [])
    (hroom : startPos + prompt.tokens.length ≤ ctx.seqLen) (buffer : String) :
    ∃ rest, (decoded ctx r startPos prompt buffer).ops =
      if startPos + (prompt.tokens.length - 1) <
          maxPred ctx r (startPos + (prompt.tokens.length - 1)) then
        .forward (startPos + (prompt.tokens.length - 1))
          [if 1 < prompt.tokens.length then prompt.behind 0 else r.token] :: rest
      else [] := by
  have htoken : firstToken r prompt startPos (startPos + (prompt.tokens.length - 1)) = _ :=
    tokenAfter_eq hsome r.token
  rw [decoded, promptEnd_of_room ctx hsome hroom, htoken]
  exact decode_first r _ 0 _ _ buffer

/-- The turn decodes from the last token on. -/
theorem chatDecode_first {turn : ChatTurn} (token : Token) (hsome : turn.prompt.tokens ≠ [])
    (hroom : startPos + turn.prompt.tokens.length ≤ ctx.seqLen) :
    ∃ rest, chatDecode ctx turn startPos token =
      .forward (startPos + (turn.prompt.tokens.length - 1))
        [if 1 < turn.prompt.tokens.length then turn.prompt.behind 0 else token] :: rest := by
  have hlength := List.length_pos_of_ne_nil hsome
  rw [chatDecode, promptEnd_of_room ctx hsome hroom, tokenAfter_eq hsome,
    Nat.max_eq_right (Nat.le_add_right _ _), chatDecodeLoop, if_pos (by omega)]
  exact ⟨_, Eq.refl _⟩

/-- A decode loop that begins with some token begins with the prompt's last if these agree. -/
theorem first_iff {tokens : List Token} {decode rest : List Op} {pos : ℕ} {token : Token}
    (h : decode = .forward pos [token] :: rest) :
    (∃ last rest, tokens.getLast? = some last ∧ decode = .forward pos [last] :: rest) ↔
      tokens.getLast? = some token := by
  rw [h]
  constructor
  · intro hfirst
    obtain ⟨last, rest', hlast, hsame⟩ := hfirst
    injection hsame with hop _
    injection hop with _ htokens
    injection htokens with htoken _
    rw [hlast, htoken]
  · intro hlast
    exact ⟨token, rest, hlast, Eq.refl _⟩

/-- The limit of a request lets decoding begin: it is absent or does not wrap around. -/
def LimitOpens (r : Request) (promptEndPos : ℕ) : Prop :=
  0 < r.maxTokens → promptEndPos < (promptEndPos + r.maxTokens.toNat) % 2 ^ 32

theorem lt_maxPred_iff (r : Request) {promptEndPos : ℕ} (hlt : promptEndPos < ctx.seqLen) :
    promptEndPos < maxPred ctx r promptEndPos ↔ LimitOpens r promptEndPos := by
  unfold maxPred LimitOpens
  rw [Nat.lt_min]
  by_cases hpos : 0 < r.maxTokens
  · rw [if_pos hpos]
    exact ⟨fun h _ => h.1, fun h => ⟨h hpos, hlt⟩⟩
  · rw [if_neg hpos]
    exact ⟨fun _ h => absurd h hpos, fun _ => ⟨hlt, hlt⟩⟩

end First

/-- The first token of the decode loop is the last of the prompt: the cell behind the prompt, or
for a prompt of one token the variable of the decode loop before, happens to hold it. -/
def LastHeld (prompt : PromptTokens) (token : Token) : Prop :=
  prompt.tokens.getLast? = some (if 1 < prompt.tokens.length then prompt.behind 0 else token)

instance (prompt : PromptTokens) (token : Token) : Decidable (LastHeld prompt token) :=
  inferInstanceAs (Decidable (_ = _))

/-- A request feeds a prompt as it is exactly if its limit lets decoding begin and the first
token of the decode loop happens to be the last of the prompt; a chat turn exactly if the
latter holds. -/
theorem prompt_fed_iff (ctx : ApiContext) (startPos : ℕ) (prompt : PromptTokens)
    (hsome : prompt.tokens ≠ []) (hroom : startPos + prompt.tokens.length ≤ ctx.seqLen) :
    (∀ (r : Request) (buffer : String),
      Feeds (prefill ctx prompt startPos) (decoded ctx r startPos prompt buffer).ops startPos
          prompt.tokens ↔
        LimitOpens r (startPos + (prompt.tokens.length - 1)) ∧ LastHeld prompt r.token) ∧
    ∀ (turn : ChatTurn) (token : Token), turn.prompt = prompt →
      (Feeds (chatPrefill ctx turn startPos) (chatDecode ctx turn startPos token) startPos
          prompt.tokens ↔ LastHeld prompt token) := by
  have hlength := List.length_pos_of_ne_nil hsome
  have hprefill := fed_prefill ctx hsome hroom
  constructor
  · intro r buffer
    obtain ⟨rest, hdecode⟩ := decoded_first r hsome hroom buffer
    have hlimit : startPos + (prompt.tokens.length - 1) <
        maxPred ctx r (startPos + (prompt.tokens.length - 1)) ↔
          LimitOpens r (startPos + (prompt.tokens.length - 1)) := lt_maxPred_iff r (by omega)
    rw [← hlimit]
    split at hdecode
    · rename_i hopens
      constructor
      · intro h
        exact ⟨hopens, (first_iff hdecode).mp h.first⟩
      · intro h
        exact ⟨hprefill, (first_iff hdecode).mpr h.2⟩
    · rename_i hclosed
      constructor
      · intro h
        obtain ⟨last, rest', _, hfirst⟩ := h.first
        rw [hdecode] at hfirst
        cases hfirst
      · intro h
        exact absurd h.1 hclosed
  · intro turn token hturn
    have hend := promptEnd_of_room ctx hsome hroom
    have hchat : chatPrefill ctx turn startPos = prefill ctx prompt startPos := by
      rw [chatPrefill, hturn, hend, if_neg (by omega)]
    rw [← hturn] at hsome hroom
    obtain ⟨rest, hdecode⟩ := chatDecode_first token hsome hroom
    rw [hturn] at hdecode
    rw [hchat]
    constructor
    · intro h
      exact (first_iff hdecode).mp h.first
    · intro h
      exact ⟨hprefill, (first_iff hdecode).mpr h⟩

/-- A request with this prompt and no limit. -/
def openRequest (token : Token) : Request where
  messages := []
  stream := false
  maxTokens := 0
  token := token
  sample _ := 5
  eosType _ := .notEos
  delta _ := none
  fault _ := none
  torn _ := []

/-- A prompt whose last token also stands behind it is fed as it is. -/
theorem prompt_fed_twice_held :
    Feeds (prefill smallContext ⟨[1, 2, 3], by decide, fun _ => 3⟩ 2)
      (decoded smallContext (openRequest 0) 2 ⟨[1, 2, 3], by decide, fun _ => 3⟩ "").ops 2 [1, 2, 3] :=
  ((prompt_fed_iff smallContext 2 ⟨[1, 2, 3], by decide, fun _ => 3⟩ (by decide) (by decide)).1
    (openRequest 0) "").mpr ⟨fun h => absurd h (by decide), by decide⟩

/-- What encoding the text of three letters leaves in a vocabulary that has the last two as one
token: the third letter stays behind the two tokens. -/
def mergedEnd : PromptTokens := ⟨[0, 3], by decide, fun _ => 2⟩

/-- A chat turn with this prompt. -/
def mergedTurn : ChatTurn := ⟨mergedEnd, fun _ => 5, fun _ => .notEos⟩

/-- Both decode loops begin with the third letter. -/
theorem merged_end_not_fed :
    ¬Feeds (prefill smallContext mergedEnd 0)
        (decoded smallContext (openRequest 0) 0 mergedEnd "").ops 0 mergedEnd.tokens ∧
      ¬Feeds (chatPrefill smallContext mergedTurn 0) (chatDecode smallContext mergedTurn 0 0) 0
        mergedEnd.tokens := by
  have hsome : mergedEnd.tokens ≠ [] := by decide
  have hroom : 0 + mergedEnd.tokens.length ≤ smallContext.seqLen := by decide
  have hopens : 0 + (mergedEnd.tokens.length - 1) <
      maxPred smallContext (openRequest 0) (0 + (mergedEnd.tokens.length - 1)) :=
    (lt_maxPred_iff (openRequest 0) (by decide)).mpr fun hpos => absurd hpos (by decide)
  constructor
  · intro h
    obtain ⟨rest, hdecode⟩ := decoded_first (openRequest 0) hsome hroom ""
    rw [if_pos hopens] at hdecode
    exact absurd ((first_iff hdecode).mp h.first) (by decide)
  · intro h
    have hdecode : ∃ rest, chatDecode smallContext mergedTurn 0 0 = _ :: rest :=
      chatDecode_first 0 hsome hroom
    obtain ⟨rest, hdecode⟩ := hdecode
    exact absurd ((first_iff hdecode).mp h.first) (by decide)

end LayerSkip.PromptFeeding
