import LayerSkip.DeltaLink
import LayerSkip.NodeMemory
import Mathlib.Logic.Nontrivial.Basic
import Mathlib.Order.MinMax

/-!
# What a driver takes from a forward

In decode of a single token the last stage may send the root a token or the best
logits in place of all of them, and the root stores these apart from its logits
pipe. The drivers differ in what they read. What is taken is fresh when it is
determined by the row that the last stage computed in the same forward, whatever
the root and the link hold from earlier ones.
-/

namespace LayerSkip.LogitsFreshness

open NnTopology NnNetwork NnPipeline WorkerLlmInference NodeMemory PipelineLink DeltaLink

/-- Programs that take something from a forward. -/
inductive Driver
  | inference
  | continuousBatching
  | chat
  | perplexity
  | api
  deriving DecidableEq, Repr

/-- Phase and batch size of the forwards from which a driver takes something. -/
def Driver.Takes : Driver → NnUint → NnUint → Prop
  | .inference, phase, batchSize => phase = 1 ∧ batchSize = 1
  | .continuousBatching, phase, batchSize => phase = 1 ∧ 0 < batchSize.toNat
  | .chat, phase, batchSize => phase = 1 ∧ batchSize = 1
  | .perplexity, phase, batchSize => phase = 1 ∧ batchSize = 1
  | .api, phase, batchSize => phase = 0 ∧ batchSize = 1

/-- Options about what the last stage sends in decode. -/
structure AppCliArgs where
  /-- Send a token. -/
  ppTokenOnly : Bool
  /-- Number of best logits to send, 0 for all. -/
  ppTopK : NnUint
  deriving DecidableEq, Repr

/-- What the last stage sends in decode: 0 for all logits, 1 for a token, 2 for
the best logits. -/
def decodeLogitsMode (args : AppCliArgs) (topology : NnParallelTopology) (driver : Driver) :
    NnUint :=
  let ppTokenOnlyActive := args.ppTokenOnly && decide (1 < topology.ppSize) &&
    decide (topology.spSize = 1) && decide (topology.tpSize = 1)
  let ppTopKActive := decide (0 < args.ppTopK) && decide (1 < topology.ppSize) &&
    decide (topology.spSize = 1) && decide (topology.tpSize = 1) && decide (driver ≠ .perplexity)
  if ppTopKActive then 2 else if ppTokenOnlyActive then 1 else 0

section Root

variable {F : Type}

/-- The root's ends of its links and what it keeps of a forward. -/
structure RootLlmInference (F : Type) where
  /-- Links to the other stages, absent with one stage. -/
  pipeline : Option (NnPipelineCommunicator F)
  /-- Memory from the start of the logits pipe. -/
  logitsPipe : ℕ → F
  /-- Token of the last stage. -/
  tokenFromWorker : F
  /-- Indices and values of the best logits of the last stage. -/
  topKPacked : List F
  /-- 0 for prefill, 1 for decode. -/
  phase : NnUint
  /-- Rows of the batch. -/
  batchSize : NnUint

/-- How the root asks for logits. -/
structure LogitsFormat where
  /-- 0 for all logits, 1 for a token, 2 for the best logits. -/
  decodeLogitsMode : NnUint
  /-- Number of best logits. -/
  topKCount : NnUint
  /-- Logits of a row. -/
  vocabSize : NnUint

/-- A token is asked for. -/
def LogitsFormat.TokenOnly (format : LogitsFormat) (phase batchSize : NnUint) : Prop :=
  format.decodeLogitsMode = 1 ∧ phase = 1 ∧ batchSize = 1

/-- The best logits are asked for. -/
def LogitsFormat.TopK (format : LogitsFormat) (phase batchSize : NnUint) : Prop :=
  format.decodeLogitsMode = 2 ∧ phase = 1 ∧ batchSize = 1

instance (format : LogitsFormat) (phase batchSize : NnUint) :
    Decidable (format.TokenOnly phase batchSize) := inferInstanceAs (Decidable (_ ∧ _ ∧ _))

instance (format : LogitsFormat) (phase batchSize : NnUint) :
    Decidable (format.TopK phase batchSize) := inferInstanceAs (Decidable (_ ∧ _ ∧ _))

/-- Floats that the root receives. -/
def LogitsFormat.bufferElems (format : LogitsFormat) (phase batchSize : NnUint) : ℕ :=
  if format.TokenOnly phase batchSize then 1
  else if format.TopK phase batchSize then format.topKCount.toNat * 2
  else format.vocabSize.toNat * batchSize.toNat

/-- Store what was received where the root asked for it. -/
def RootLlmInference.store (format : LogitsFormat) (root : RootLlmInference F) (values : List F) :
    RootLlmInference F :=
  if format.TokenOnly root.phase root.batchSize then
    { root with tokenFromWorker := values.getD 0 root.tokenFromWorker }
  else if format.TopK root.phase root.batchSize then
    { root with topKPacked := values ++ root.topKPacked.drop values.length }
  else { root with logitsPipe := writeCells root.logitsPipe 0 values }

/-- Receive what the last stage has sent. -/
def RootLlmInference.recvLogits [Add F] (codec : FloatCodec F) (format : LogitsFormat)
    (source : ℕ) (root : RootLlmInference F) (frame : Frame) : Option (RootLlmInference F) :=
  match root.pipeline with
  | none => some root
  | some c =>
    match c.recvSocket source with
    | .error _ => none
    | .ok socket =>
      (c.acceptFrame codec socket frame (format.bufferElems root.phase root.batchSize)).map
        fun r => { root.store format r.1 with pipeline := some r.2 }

/-- What a driver takes from the root. The sampler gets logits or the best ones,
a probability is that of a target in a row. -/
inductive Taken (F : Type)
  /-- Logits for `Sampler::sample`. -/
  | logits (cells : List F)
  /-- The token of the last stage. -/
  | token (value : F)
  /-- Pairs for `Sampler::sampleTopK`. -/
  | topK (packed : List F)
  /-- A row for `softmax_F32`, and the cell of the target when it is not in the row. -/
  | probability (row : List F) (outside : Option F)

/-- `sampleToken`. -/
def RootLlmInference.sampleToken (format : LogitsFormat) (samplerVocabSize : ℕ)
    (root : RootLlmInference F) : Taken F :=
  if format.TokenOnly root.phase root.batchSize then .token root.tokenFromWorker
  else if format.TopK root.phase root.batchSize then
    .topK (root.topKPacked.take (format.topKCount.toNat * 2))
  else .logits (readCells root.logitsPipe 0 samplerVocabSize)

/-- `sampleTokenAtBatch`. -/
def RootLlmInference.sampleTokenAtBatch (format : LogitsFormat) (samplerVocabSize batchIndex : ℕ)
    (root : RootLlmInference F) : Taken F :=
  .logits (readCells root.logitsPipe (batchIndex * format.vocabSize.toNat) samplerVocabSize)

/-- What a driver takes for a row of the batch, the perplexity for a target token. -/
def Driver.takes (driver : Driver) (format : LogitsFormat) (samplerVocabSize : ℕ)
    (root : RootLlmInference F) (batchIndex target : ℕ) : Taken F :=
  match driver with
  | .inference => root.sampleToken format samplerVocabSize
  | .chat => root.sampleToken format samplerVocabSize
  | .continuousBatching => root.sampleTokenAtBatch format samplerVocabSize batchIndex
  | .perplexity => .probability (readCells root.logitsPipe 0 format.vocabSize.toNat)
      (if target < format.vocabSize.toNat then none else some (root.logitsPipe target))
  | .api => .logits (readCells root.logitsPipe 0 samplerVocabSize)

end Root

section System

variable {F E : Type} [Add F] [Sub F] [LE F] [DecidableLE F] [LT F] [DecidableLT F]

/-- The last stage and its link to the root. -/
structure LogitsLink (F E : Type) [Add F] [Sub F] where
  /-- The link. -/
  ends : Ends F
  /-- The last stage. -/
  last : WorkerConfig F E
  /-- State of its executor at the start. -/
  engine : E
  /-- It sends to the first stage. -/
  target_eq : ends.target = 0
  /-- No stage follows. -/
  sender_last : ends.sender.shouldSendActivations = false
  /-- It is not the first stage. -/
  ppRank_pos : 0 < last.nodeConfig.ppRank
  /-- It is the node of the stage that sends logits. -/
  rank_zero : last.nodeConfig.spRank = 0 ∧ last.nodeConfig.tpRank = 0

/-- A program as it is started. -/
structure Setup (F E : Type) [Add F] [Sub F] where
  /-- Options. -/
  args : AppCliArgs
  /-- Program. -/
  driver : Driver
  /-- Ranks of all nodes. -/
  topology : NnParallelTopology
  /-- Tokens of the model. -/
  vocabSize : NnUint
  /-- Tokens of the tokenizer, which the sampler assumes. -/
  samplerVocabSize : ℕ
  /-- The last stage when it is not the root. -/
  link : Option (LogitsLink F E)
  /-- The root is not the last of several stages. -/
  link_isSome : link.isSome = true ↔ 1 < topology.ppSize
  /-- Rows of the last stage have a cell for every token of the model. -/
  link_row : ∀ l, link = some l → l.last.logitsPipeRow = vocabSize.toNat

/-- How logits are asked for. -/
def Setup.format (u : Setup F E) : LogitsFormat :=
  let mode := decodeLogitsMode u.args u.topology u.driver
  ⟨mode, if mode = 2 then min u.args.ppTopK u.vocabSize else 0, u.vocabSize⟩

/-- The root and the last stage's end of their link. -/
structure Situation (F : Type) where
  /-- The root. -/
  root : RootLlmInference F
  /-- The last stage's end of the link. -/
  sender : Option (NnPipelineCommunicator F)

/-- A forward with the logits that its last stage computed for all rows. -/
inductive Setup.Forward (u : Setup F E) (phase batchSize : NnUint) :
    List F → Situation F → Situation F → Prop
  /-- The root is the last stage. -/
  | here {rows : List F} {x : Situation F} (hlink : u.link = none)
      (hrows : rows.length = u.vocabSize.toNat * batchSize.toNat) :
      u.Forward phase batchSize rows x
        { x with root := { x.root with
          phase := phase, batchSize := batchSize
          logitsPipe := writeCells x.root.logitsPipe 0 rows } }
  /-- The last stage has run its executor and sends, the root receives. -/
  | sent {x : Situation F} {l : LogitsLink F E} {s s' : WorkerState F E} {socket : ℕ}
      {frame : Frame} {root : RootLlmInference F} (hlink : u.link = some l)
      (hsender : s.pipeline = x.sender)
      (hmode : s.controlPacket.tokenOnlyMode = u.format.decodeLogitsMode)
      (htopK : s.controlPacket.topKCount = u.format.topKCount)
      (hphase : s.decodePhase = decide (phase = 1)) (hbatch : s.batchSize = batchSize)
      (hsend : s.afterForward l.last = .ok (s', [(socket, frame)]))
      (hrecv : ({ x.root with phase := phase, batchSize := batchSize } :
        RootLlmInference F).recvLogits l.last.codec u.format l.ends.source frame = some root) :
      u.Forward phase batchSize
        (l.last.engine.logitsPipe s.engine (u.vocabSize.toNat * batchSize.toNat)) x
        ⟨root, s'.pipeline⟩

/-- What earlier forwards can leave. Drivers also change the logits pipe in place. -/
inductive Setup.Reached (u : Setup F E) : Situation F → Prop
  /-- At the start nothing has gone over the link. -/
  | start (root : RootLlmInference F)
      (hpipeline : root.pipeline = u.link.map fun l => l.ends.receiver) :
      u.Reached ⟨root, u.link.map fun l => l.ends.sender⟩
  /-- A forward. -/
  | forward {phase batchSize : NnUint} {rows : List F} {x y : Situation F} (hx : u.Reached x)
      (hbatch : 0 < batchSize.toNat) (hforward : u.Forward phase batchSize rows x y) : u.Reached y
  /-- Cells of the logits pipe are scaled or normalised. -/
  | inPlace {x : Situation F} (hx : u.Reached x) (cells : ℕ → F) :
      u.Reached { x with root := { x.root with logitsPipe := cells } }

/-- A row of the logits of a forward. -/
def Setup.row (u : Setup F E) (rows : List F) (batchIndex : ℕ) : List F :=
  (rows.drop (batchIndex * u.vocabSize.toNat)).take u.vocabSize.toNat

/-- What the driver takes for a row is determined by that row: after forwards
that computed the same row it is the same, whatever came before. -/
def Setup.Fresh (u : Setup F E) (phase batchSize : NnUint) : Prop :=
  ∀ (x x' y y' : Situation F) (rows rows' : List F) (batchIndex target : ℕ),
    u.Reached x → u.Forward phase batchSize rows x y →
    u.Reached x' → u.Forward phase batchSize rows' x' y' →
    batchIndex < batchSize.toNat → target < u.samplerVocabSize →
    u.row rows batchIndex = u.row rows' batchIndex →
      u.driver.takes u.format u.samplerVocabSize y.root batchIndex target =
        u.driver.takes u.format u.samplerVocabSize y'.root batchIndex target

/-- The driver reads the logits pipe. -/
def Setup.ReadsPipe (u : Setup F E) : Prop :=
  u.format.decodeLogitsMode = 0 ∨ (u.driver ≠ .inference ∧ u.driver ≠ .chat)

/-- All logits are sent. -/
def Setup.SendsAll (u : Setup F E) (phase batchSize : NnUint) : Prop :=
  ¬(u.format.decodeLogitsMode ≠ 0 ∧ phase = 1 ∧ batchSize = 1)

end System

section Sending

variable {F E : Type} [LE F] [DecidableLE F] [LT F] [DecidableLT F]

/-- What the last stage sends of the logits of all rows. -/
def sentLogits (w : WorkerConfig F E) (format : LogitsFormat) (phase batchSize : NnUint)
    (rows : List F) : List F :=
  if format.TokenOnly phase batchSize then
    if w.fusedLmHeadArgmax then rows.take 1 else [w.ofUint (sampleArgmaxToken rows)]
  else if format.TopK phase batchSize then
    packTopKLogits w.ofUint rows (min format.topKCount.toNat w.logitsPipeRow)
  else rows

omit [LE F] [DecidableLE F] in
theorem length_insertTop (x : NnUint × F) (top : List (NnUint × F)) :
    (insertTop x top).length = top.length + 1 := by
  have hsplit := congrArg List.length
    (List.takeWhile_append_dropWhile (p := fun y : NnUint × F => y.2 < x.2) (l := top.reverse))
  rw [List.length_append, List.length_reverse] at hsplit
  simp only [insertTop, List.length_append, List.length_reverse, List.length_cons]
  omega

theorem length_topKRound {k : ℕ} {top : List (NnUint × F)} (htop : top.length ≤ k)
    (x : NnUint × F) : (topKRound k top x).length = min k (top.length + 1) := by
  unfold topKRound
  split
  · rw [length_insertTop]
    omega
  · split
    · rename_i hnone
      have hnil := List.getLast?_eq_none_iff.mp hnone
      rw [hnil]
      rw [hnil] at htop
      simp_all
    · rename_i last hlast
      have hpos : 0 < top.length := by
        cases top with
        | nil => cases hlast
        | cons y top => exact Nat.succ_pos _
      split
      · omega
      · rw [length_insertTop, List.length_dropLast]
        omega

theorem length_foldl_topKRound {k : ℕ} (xs top : List (NnUint × F)) (htop : top.length ≤ k) :
    (xs.foldl (topKRound k) top).length = min k (top.length + xs.length) := by
  induction xs generalizing top with
  | nil =>
    rw [List.foldl_nil, List.length_nil]
    omega
  | cons x xs ih =>
    have hlen := length_topKRound htop x
    rw [List.foldl_cons, ih _ (by omega), hlen, List.length_cons]
    omega

/-- As many pairs are sent as are asked for. -/
theorem length_packTopKLogits (ofUint : NnUint → F) (logits : List F) (k : ℕ) :
    (packTopKLogits ofUint logits k).length = min k logits.length * 2 := by
  unfold packTopKLogits
  have hlen := length_foldl_topKRound (k := min k logits.length)
    (logits.zipIdx.map fun x => (x.2.toUInt32, x.1)) [] (Nat.zero_le _)
  rw [List.length_flatMap]
  simp only [List.length_cons, List.length_nil, List.map_const', List.sum_replicate_nat, hlen]
  simp

/-- The root receives as many floats as are sent. -/
theorem length_sentLogits {w : WorkerConfig F E} {format : LogitsFormat}
    (hrow : w.logitsPipeRow = format.vocabSize.toNat)
    (htopK : format.topKCount.toNat ≤ format.vocabSize.toNat) (hvocab : 0 < format.vocabSize.toNat)
    {phase batchSize : NnUint} {rows : List F}
    (hrows : rows.length = format.vocabSize.toNat * batchSize.toNat) :
    (sentLogits w format phase batchSize rows).length = format.bufferElems phase batchSize := by
  unfold sentLogits LogitsFormat.bufferElems
  split
  · rename_i htoken
    rw [htoken.2.2] at hrows
    split
    · have hlen : rows.length = format.vocabSize.toNat := by simpa using hrows
      rw [List.length_take, hlen]
      exact Nat.min_eq_left hvocab
    · rfl
  · split
    · rename_i hbest
      rw [hbest.2.2] at hrows
      have hone : rows.length = format.vocabSize.toNat := by simpa using hrows
      rw [length_packTopKLogits, hone, hrow]
      omega
    · exact hrows

variable {w : WorkerConfig F E} {s s' : WorkerState F E} {format : LogitsFormat}
  {phase batchSize : NnUint}

theorem logitsPayload_eq (hmode : s.controlPacket.tokenOnlyMode = format.decodeLogitsMode)
    (htopK : s.controlPacket.topKCount = format.topKCount)
    (hphase : s.decodePhase = decide (phase = 1)) (hbatch : s.batchSize = batchSize) :
    s.logitsPayload w = sentLogits w format phase batchSize
      (w.engine.logitsPipe s.engine (w.logitsPipeRow * batchSize.toNat)) := by
  have hsingle : s.decodeSingle = true ↔ phase = 1 ∧ batchSize = 1 := by
    unfold WorkerState.decodeSingle
    rw [hphase, hbatch, Bool.and_eq_true, decide_eq_true_eq, decide_eq_true_eq]
  have htoken : (decide (s.controlPacket.tokenOnlyMode = 1) && s.decodeSingle) = true ↔
      format.TokenOnly phase batchSize := by
    rw [Bool.and_eq_true, decide_eq_true_eq, hmode, hsingle]
    rfl
  have hbest : (decide (s.controlPacket.tokenOnlyMode = 2) && s.decodeSingle) = true ↔
      format.TopK phase batchSize := by
    rw [Bool.and_eq_true, decide_eq_true_eq, hmode, hsingle]
    rfl
  have hone (h : batchSize = 1) : w.logitsPipeRow * batchSize.toNat = w.logitsPipeRow := by
    rw [h]
    exact Nat.mul_one _
  unfold WorkerState.logitsPayload sentLogits
  simp only [htoken, hbest, htopK, hbatch]
  by_cases htok : format.TokenOnly phase batchSize
  · rw [if_pos htok, if_pos htok, hone htok.2.2]
  · rw [if_neg htok, if_neg htok]
    by_cases htop : format.TopK phase batchSize
    · rw [if_pos htop, if_pos htop, hone htop.2.2]
    · rw [if_neg htop, if_neg htop]

/-- A decision changes nothing that is sent. -/
theorem evaluateStageSkipDecision_sends :
    (s.evaluateStageSkipDecision w).logitsPayload w = s.logitsPayload w ∧
      (s.evaluateStageSkipDecision w).controlPacket = s.controlPacket := by
  rcases WorkerState.evaluateStageSkipDecision_cases (w := w) (s := s) with
    h | ⟨-, -, -, h⟩ | ⟨-, h⟩ | ⟨-, -, h⟩ <;>
    exact ⟨by rw [h]; rfl, by rw [h]⟩

/-- The last stage sends one frame of logits to the root. -/
theorem afterForward_last [Sub F] {c : NnPipelineCommunicator F} {socket : ℕ} {frame : Frame}
    (hpipeline : s.pipeline = some c) (hlast : c.shouldSendActivations = false)
    (hpp : 0 < w.nodeConfig.ppRank) (hrank : w.nodeConfig.spRank = 0 ∧ w.nodeConfig.tpRank = 0)
    (h : s.afterForward w = .ok (s', [(socket, frame)])) :
    ∃ c', c.sendActivation w.codec 0 s.controlPacket.position 0 w.nodeConfig.tpRank
      (s.logitsPayload w) .f32 0 = .ok (socket, frame, c') ∧ s'.pipeline = some c' := by
  have hsends := evaluateStageSkipDecision_sends (w := w) (s := s)
  have hsame := WorkerState.evaluateStageSkipDecision_pipeline (w := w) (s := s)
  unfold WorkerState.afterForward at h
  rw [hpipeline] at h hsame
  simp only at h
  split at h
  · injection h with h
    injection h with _ h
    cases h
  · rw [hlast, if_neg Bool.false_ne_true, if_pos ⟨hpp, hrank⟩] at h
    obtain ⟨r, hr, h⟩ := bind_eq_ok h
    unfold WorkerState.send at hr
    rw [hsame] at hr
    simp only at hr
    obtain ⟨t, ht, hr⟩ := bind_eq_ok hr
    rw [hsends.1, hsends.2] at ht
    injection hr with hr
    injection h with h
    rw [← hr] at h
    injection h with hstate hframes
    injection hframes with hframes
    injection hframes with hsocket hframe
    refine ⟨t.2.2, ?_, ?_⟩
    · rw [ht, ← hsocket, ← hframe]
    · rw [← hstate]

/-- Without stage skip the last stage sends when its link does. -/
theorem exists_afterForward [Sub F] {c c' : NnPipelineCommunicator F} {socket : ℕ} {frame : Frame}
    (hpipeline : s.pipeline = some c) (hskip : s.controlPacket.stageSkipEnabled = 0)
    (hlast : c.shouldSendActivations = false) (hpp : 0 < w.nodeConfig.ppRank)
    (hrank : w.nodeConfig.spRank = 0 ∧ w.nodeConfig.tpRank = 0)
    (h : c.sendActivation w.codec 0 s.controlPacket.position 0 w.nodeConfig.tpRank
      (s.logitsPayload w) .f32 0 = .ok (socket, frame, c')) :
    ∃ s', s.afterForward w = .ok (s', [(socket, frame)]) := by
  have hsends := evaluateStageSkipDecision_sends (w := w) (s := s)
  have hsame := WorkerState.evaluateStageSkipDecision_pipeline (w := w) (s := s)
  have hexecute : (s.evaluateStageSkipDecision w).stageSkipExecute = false := by
    unfold WorkerState.stageSkipExecute
    rw [hsends.2, hskip]
    rfl
  refine ⟨{ s.evaluateStageSkipDecision w with pipeline := some c' }, ?_⟩
  unfold WorkerState.afterForward
  rw [hpipeline]
  simp only
  rw [hexecute, hlast, Bool.false_and, Bool.false_and, Bool.false_and, if_neg Bool.false_ne_true,
    if_neg Bool.false_ne_true, if_pos ⟨hpp, hrank⟩]
  unfold WorkerState.send
  rw [hsame, hpipeline]
  simp only
  rw [hsends.1, hsends.2, h]
  rfl

end Sending

section Transport

variable {F E : Type} [Add F] [Sub F] {u : Setup F E} {l : LogitsLink F E}

/-- The link carries floats as they are: they are copied, and a difference, when
differences are sent, gives the value back. -/
structure LogitsLink.Exact (l : LogitsLink F E) : Prop where
  /-- Floats are copied. -/
  f32 : ∀ xs, l.last.codec.decode .f32 (l.last.codec.encode .f32 xs) = xs
  /-- A difference gives the value back. -/
  delta : l.ends.sender.deltaEnabled = false ∨ ∀ base x : F, base + (x - base) = x

theorem zipWith_add_sub (h : ∀ base x : F, base + (x - base) = x) (bases xs : List F)
    (hlen : bases.length = xs.length) :
    List.zipWith (· + ·) bases (List.zipWith (· - ·) xs bases) = xs := by
  induction bases generalizing xs with
  | nil =>
    cases xs with
    | nil => rfl
    | cons x xs => cases hlen
  | cons base bases ih =>
    cases xs with
    | nil => cases hlen
    | cons x xs =>
      rw [List.zipWith_cons_cons, List.zipWith_cons_cons, h, ih xs (Nat.succ.inj hlen)]

/-- What is received over an exact link is what was sent. -/
theorem reconstructed_of_exact (h : l.Exact) {c : NnPipelineCommunicator F}
    (hdelta : c.deltaEnabled = l.ends.sender.deltaEnabled) (socket : ℕ) (data : List F) :
    c.reconstructed l.last.codec socket (c.prevSendBySocket socket) data .f32 = data := by
  have hwire : selectWireDtype .f32 data.length = .f32 := rfl
  have hdecoded : c.decodedWire l.last.codec socket data .f32 = c.wireValues socket data := by
    unfold NnPipelineCommunicator.decodedWire
    rw [hwire, h.f32]
  unfold NnPipelineCommunicator.reconstructed
  rw [hdecoded]
  unfold NnPipelineCommunicator.wireValues
  by_cases huses : c.UsesDelta socket data
  · rw [if_pos huses]
    have hsame : c.deltaEnabled = true ∧ c.deltaMinBytes ≤ 4 * data.length ∧
        (c.prevSendBySocket socket).length = data.length := huses
    rw [if_pos hsame]
    cases h.delta with
    | inl hoff =>
      have hon := huses.1
      rw [hdelta, hoff] at hon
      exact absurd hon Bool.false_ne_true
    | inr hexact => exact zipWith_add_sub hexact _ _ huses.2.2
  · have hsame : ¬(c.deltaEnabled = true ∧ c.deltaMinBytes ≤ 4 * data.length ∧
        (c.prevSendBySocket socket).length = data.length) := huses
    rw [if_neg huses, if_neg hsame]

/-- Both ends of the link hold the same base. -/
structure InSync (l : LogitsLink F E) (x : Situation F) (c c' : NnPipelineCommunicator F) :
    Prop where
  /-- The last stage's end. -/
  sender : x.sender = some c
  /-- It is the last stage's. -/
  sender_node : SameNode l.ends.sender c
  /-- It has the options of the start. -/
  delta : c.deltaEnabled = l.ends.sender.deltaEnabled
  /-- The root's end. -/
  receiver : x.root.pipeline = some c'
  /-- It is the root's. -/
  receiver_node : SameNode l.ends.receiver c'
  /-- The bases. -/
  base : c'.prevRecvBySocket l.ends.recvSocket = c.prevSendBySocket l.ends.sendSocket

/-- The last stage can always send. -/
theorem InSync.sendActivation {x : Situation F} {c c' : NnPipelineCommunicator F}
    (h : InSync l x c c') (position : NnUint) (sliceId : ℕ) (data : List F) :
    c.sendActivation l.last.codec 0 position 0 sliceId data .f32 0 = .ok (l.ends.sendSocket,
      c.makeFrame l.last.codec l.ends.sendSocket position 0 sliceId data .f32 0,
      c.noteSent l.ends.sendSocket data) := by
  rw [← l.target_eq]
  exact sendActivation_of_sameNode (s := { Link.start l.ends with sender := c }) h.sender_node
    position 0 sliceId data .f32 0

/-- The root stores what was sent, and both ends hold it as their base. -/
theorem InSync.recvLogits {x : Situation F} {c c' : NnPipelineCommunicator F}
    (h : InSync l x c c') (hexact : l.Exact) {format : LogitsFormat} (phase batchSize : NnUint)
    {data : List F} (hdata : data.length = format.bufferElems phase batchSize)
    (hpos : 0 < data.length) (position : NnUint) (sliceId : ℕ) :
    ∃ c₁', ({ x.root with phase := phase, batchSize := batchSize } :
        RootLlmInference F).recvLogits l.last.codec format l.ends.source
          (c.makeFrame l.last.codec l.ends.sendSocket position 0 sliceId data .f32 0) =
        some { ({ x.root with phase := phase, batchSize := batchSize } :
          RootLlmInference F).store format data with pipeline := some c₁' } ∧
      ∀ y : Situation F, y.sender = some (c.noteSent l.ends.sendSocket data) →
        y.root.pipeline = some c₁' →
          InSync l y (c.noteSent l.ends.sendSocket data) c₁' := by
  have hsocket : c'.recvSocket l.ends.source = .ok l.ends.recvSocket :=
    recvSocket_of_sameNode (s := { Link.start l.ends with receiver := c' }) h.receiver_node
  have hplain : (0 : NnUint) = 0 ∨ (0 : NnUint) = pipelineFlagStageSkipBypass := .inl rfl
  have haccept := c.acceptFrame_makeFrame_eq l.last.codec c' (congrArg List.length h.base) position
    0 sliceId hpos.ne' (Nat.le_of_eq hdata) .f32 hplain
  rw [h.base, reconstructed_of_exact hexact h.delta] at haccept
  have hnote : c.noteSent l.ends.sendSocket data = { c with
      prevSendBySocket := Function.update c.prevSendBySocket l.ends.sendSocket data } :=
    if_neg hpos.ne'
  refine ⟨c'.noteReceived l.ends.recvSocket data, ?_, ?_⟩
  · unfold RootLlmInference.recvLogits
    simp only [h.receiver, hsocket, haccept, Option.map_some]
  · intro y hsender hreceiver
    refine ⟨hsender, ?_, ?_, hreceiver, ?_, ?_⟩
    · rw [hnote]
      exact h.sender_node.trans ⟨rfl, rfl, rfl, rfl, rfl⟩
    · rw [hnote]
      exact h.delta
    · exact h.receiver_node.trans ⟨rfl, rfl, rfl, rfl, rfl⟩
    · rw [hnote]
      unfold NnPipelineCommunicator.noteReceived
      simp only [Function.update_self]

end Transport

section Freshness

variable {F E : Type} [Add F] [Sub F] [LE F] [DecidableLE F] [LT F] [DecidableLT F] {u : Setup F E} {phase batchSize : NnUint}

/-- The numbers of the link are exact, if there is one. -/
def Setup.Exact (u : Setup F E) : Prop := ∀ l, u.link = some l → l.Exact

section

omit [LE F] [DecidableLE F] [LT F] [DecidableLT F]

theorem topKCount_le (u : Setup F E) :
    u.format.topKCount.toNat ≤ u.format.vocabSize.toNat := by
  unfold Setup.format
  dsimp only
  split
  · change (if u.args.ppTopK ≤ u.vocabSize then u.args.ppTopK else u.vocabSize).toNat ≤ _
    split
    · rename_i hle
      exact UInt32.le_iff_toNat_le.mp hle
    · exact Nat.le_refl _
  · exact Nat.zero_le _

theorem mode_cases (u : Setup F E) : u.format.decodeLogitsMode = 0 ∨
    u.format.decodeLogitsMode = 1 ∨ u.format.decodeLogitsMode = 2 := by
  unfold Setup.format decodeLogitsMode
  dsimp only
  split
  · exact .inr (.inr rfl)
  · split
    · exact .inr (.inl rfl)
    · exact .inl rfl

/-- Something is always asked for. -/
theorem bufferElems_pos (u : Setup F E) (hvocab : 0 < u.vocabSize.toNat)
    (hbatch : 0 < batchSize.toNat) : 0 < u.format.bufferElems phase batchSize := by
  unfold LogitsFormat.bufferElems
  split
  · exact Nat.one_pos
  · split
    · rename_i hbest
      have hmode := hbest.1
      unfold Setup.format at hmode ⊢
      dsimp only at hmode ⊢
      rw [if_pos hmode]
      have hactive : 0 < u.args.ppTopK := by
        unfold decodeLogitsMode at hmode
        dsimp only at hmode
        split at hmode
        · rename_i htop
          simp only [Bool.and_eq_true, decide_eq_true_eq] at htop
          exact htop.1.1.1.1
        · split at hmode
          · cases hmode
          · cases hmode
      have hpos : 0 < u.args.ppTopK.toNat := UInt32.lt_iff_toNat_lt.mp hactive
      change 0 < (if u.args.ppTopK ≤ u.vocabSize then u.args.ppTopK else u.vocabSize).toNat * 2
      split
      · omega
      · omega
    · exact Nat.mul_pos hvocab hbatch

/-- With one stage all logits are asked for. -/
theorem mode_of_none (h : u.link = none) : u.format.decodeLogitsMode = 0 := by
  have hone : ¬1 < u.topology.ppSize := by
    intro hlt
    have hsome := u.link_isSome.mpr hlt
    rw [h] at hsome
    cases hsome
  unfold Setup.format decodeLogitsMode
  simp [hone]

theorem sendsAll_of_none (h : u.link = none) (phase batchSize : NnUint) :
    u.SendsAll phase batchSize := by
  intro hsingle
  exact hsingle.1 (mode_of_none h)

/-- Neither a token nor the best logits are asked for. -/
theorem Setup.SendsAll.not_asked (h : u.SendsAll phase batchSize) :
    ¬u.format.TokenOnly phase batchSize ∧ ¬u.format.TopK phase batchSize := by
  constructor
  · intro htoken
    refine h ⟨?_, htoken.2⟩
    rw [htoken.1]
    decide
  · intro hbest
    refine h ⟨?_, hbest.2⟩
    rw [hbest.1]
    decide

end

/-- What arrives of the logits of all rows. -/
def Setup.arriving (u : Setup F E) (phase batchSize : NnUint) (rows : List F) : List F :=
  match u.link with
  | none => rows
  | some l => sentLogits l.last u.format phase batchSize rows

omit [LE F] [DecidableLE F] [LT F] [DecidableLT F] in
theorem inSync_start {l : LogitsLink F E} (hlink : u.link = some l) (root : RootLlmInference F)
    (hpipeline : root.pipeline = u.link.map fun l => l.ends.receiver) :
    InSync l ⟨root, u.link.map fun l => l.ends.sender⟩ l.ends.sender l.ends.receiver := by
  refine ⟨by rw [hlink]; rfl, SameNode.refl _, rfl, by rw [hpipeline, hlink]; rfl,
    SameNode.refl _, ?_⟩
  rw [l.ends.recv_fresh, l.ends.send_fresh]

/-- A forward over the link stores what arrives and leaves the ends in step. -/
theorem InSync.forward (hexact : u.Exact) (hvocab : 0 < u.vocabSize.toNat) {l : LogitsLink F E}
    (hlink : u.link = some l) (hbatch : 0 < batchSize.toNat) {x y : Situation F} {rows : List F}
    {c c' : NnPipelineCommunicator F} (h : InSync l x c c')
    (hforward : u.Forward phase batchSize rows x y) :
    rows.length = u.vocabSize.toNat * batchSize.toNat ∧ ∃ c₁ c₁', InSync l y c₁ c₁' ∧
      y.root = { ({ x.root with phase := phase, batchSize := batchSize } :
        RootLlmInference F).store u.format (u.arriving phase batchSize rows) with
          pipeline := some c₁' } := by
  cases hforward with
  | here hnone hrows =>
    rw [hnone] at hlink
    cases hlink
  | sent hlink' hsender hmode htopK hphase hsize hsend hrecv =>
    rename_i l' s s' socket frame root
    rw [hlink] at hlink'
    injection hlink' with hsame
    rw [← hsame] at hsend hrecv ⊢
    have hrow := u.link_row l hlink
    have hrows := l.last.engine.logitsPipe_length s.engine (u.vocabSize.toNat * batchSize.toNat)
    have hlast : c.shouldSendActivations = false := by
      have hold := l.sender_last
      unfold NnPipelineCommunicator.shouldSendActivations at hold ⊢
      rw [h.sender_node.ppRank, h.sender_node.topology]
      exact hold
    have ⟨c₁, hsent, hstate⟩ := afterForward_last (hsender.trans h.sender) hlast l.ppRank_pos
      l.rank_zero hsend
    have hpayload := logitsPayload_eq (w := l.last) hmode htopK hphase hsize
    rw [hrow] at hpayload
    have hlen : (s.logitsPayload l.last).length = u.format.bufferElems phase batchSize := by
      rw [hpayload]
      exact length_sentLogits hrow (topKCount_le u) hvocab hrows
    have hpos : 0 < (s.logitsPayload l.last).length := by
      rw [hlen]
      exact bufferElems_pos u hvocab hbatch
    rw [h.sendActivation] at hsent
    injection hsent with hsent
    injection hsent with _ hsent
    injection hsent with hframe hc₁
    have ⟨c₁', hstored, hsync⟩ := h.recvLogits (hexact l hlink) phase batchSize hlen hpos
      s.controlPacket.position l.last.nodeConfig.tpRank
    rw [← hframe, hstored] at hrecv
    injection hrecv with hroot
    refine ⟨hrows, c₁, c₁', ?_, ?_⟩
    · rw [← hc₁]
      apply hsync
      · rw [hstate, hc₁]
      · rw [← hroot]
    · rw [← hroot, hpayload]
      unfold Setup.arriving
      rw [hlink]

/-- The ends of the link are in step in every situation. -/
theorem exists_inSync (hexact : u.Exact) (hvocab : 0 < u.vocabSize.toNat) {l : LogitsLink F E}
    (hlink : u.link = some l) {x : Situation F} (h : u.Reached x) : ∃ c c', InSync l x c c' := by
  induction h with
  | start root hpipeline => exact ⟨_, _, inSync_start hlink root hpipeline⟩
  | forward _ hbatch hforward ih =>
    have ⟨c, c', hsync⟩ := ih
    have ⟨_, c₁, c₁', hnext, _⟩ := hsync.forward hexact hvocab hlink hbatch hforward
    exact ⟨c₁, c₁', hnext⟩
  | inPlace _ cells ih =>
    have ⟨c, c', hsync⟩ := ih
    exact ⟨c, c', hsync.sender, hsync.sender_node, hsync.delta, hsync.receiver,
      hsync.receiver_node, hsync.base⟩

/-- A forward stores what arrives where the root has asked for it. -/
theorem root_of_forward (hexact : u.Exact) (hvocab : 0 < u.vocabSize.toNat)
    (hbatch : 0 < batchSize.toNat) {x y : Situation F} {rows : List F} (hx : u.Reached x)
    (h : u.Forward phase batchSize rows x y) :
    rows.length = u.vocabSize.toNat * batchSize.toNat ∧ ∃ pipeline,
      y.root = { ({ x.root with phase := phase, batchSize := batchSize } :
        RootLlmInference F).store u.format (u.arriving phase batchSize rows) with
          pipeline := pipeline } := by
  cases hlink : u.link with
  | none =>
    have hasked := (sendsAll_of_none hlink phase batchSize).not_asked
    cases h with
    | here hnone hrows =>
      refine ⟨hrows, x.root.pipeline, ?_⟩
      simp only [RootLlmInference.store, Setup.arriving, hlink]
      rw [if_neg hasked.1, if_neg hasked.2]
    | sent hsome =>
      rw [hlink] at hsome
      cases hsome
  | some l =>
    have ⟨c, c', hsync⟩ := exists_inSync hexact hvocab hlink hx
    have ⟨hrows, _, c₁', _, hroot⟩ := hsync.forward hexact hvocab hlink hbatch h
    exact ⟨hrows, some c₁', hroot⟩

theorem arriving_of_sendsAll (h : u.SendsAll phase batchSize) (rows : List F) :
    u.arriving phase batchSize rows = rows := by
  unfold Setup.arriving
  cases u.link with
  | none => rfl
  | some l =>
    simp only [sentLogits]
    rw [if_neg h.not_asked.1, if_neg h.not_asked.2]

/-- A forward that sends all logits fills the pipe with them. -/
theorem pipe_of_sendsAll (hexact : u.Exact) (hvocab : 0 < u.vocabSize.toNat)
    (hbatch : 0 < batchSize.toNat) {x y : Situation F} {rows : List F} (hx : u.Reached x)
    (h : u.Forward phase batchSize rows x y) (hall : u.SendsAll phase batchSize) :
    y.root.logitsPipe = writeCells x.root.logitsPipe 0 rows := by
  have ⟨_, pipeline, hroot⟩ := root_of_forward hexact hvocab hbatch hx h
  rw [hroot, arriving_of_sendsAll hall]
  simp only [RootLlmInference.store]
  rw [if_neg hall.not_asked.1, if_neg hall.not_asked.2]

/-- A forward that does not send all logits leaves the pipe. -/
theorem pipe_of_not_sendsAll (hexact : u.Exact) (hvocab : 0 < u.vocabSize.toNat)
    (hbatch : 0 < batchSize.toNat) {x y : Situation F} {rows : List F} (hx : u.Reached x)
    (h : u.Forward phase batchSize rows x y) (hnot : ¬u.SendsAll phase batchSize) :
    y.root.logitsPipe = x.root.logitsPipe := by
  have ⟨_, pipeline, hroot⟩ := root_of_forward hexact hvocab hbatch hx h
  have hsingle := not_not.mp hnot
  rw [hroot]
  simp only [RootLlmInference.store]
  by_cases htoken : u.format.TokenOnly phase batchSize
  · rw [if_pos htoken]
  · have hbest : u.format.TopK phase batchSize := by
      cases mode_cases u with
      | inl h0 => exact absurd h0 hsingle.1
      | inr h12 =>
        cases h12 with
        | inl h1 => exact absurd ⟨h1, hsingle.2⟩ htoken
        | inr h2 => exact ⟨h2, hsingle.2⟩
    rw [if_neg htoken, if_pos hbest]

omit [LE F] [DecidableLE F] [LT F] [DecidableLT F] in
/-- Cells of a row that was sent. -/
theorem readCells_row (u : Setup F E) {rows : List F} {batchIndex samplerVocabSize : ℕ}
    (hrows : rows.length = u.vocabSize.toNat * batchSize.toNat)
    (hindex : batchIndex < batchSize.toNat) (hle : samplerVocabSize ≤ u.vocabSize.toNat)
    (pipe : ℕ → F) :
    readCells (writeCells pipe 0 rows) (batchIndex * u.vocabSize.toNat) samplerVocabSize =
      (u.row rows batchIndex).take samplerVocabSize := by
  apply List.ext_getElem?
  intro i
  have hend : batchIndex * u.vocabSize.toNat + u.vocabSize.toNat ≤ rows.length := by
    have hmul := Nat.mul_le_mul_right u.vocabSize.toNat hindex
    rw [Nat.succ_mul, Nat.mul_comm batchSize.toNat] at hmul
    omega
  unfold Setup.row
  rw [List.getElem?_take, List.getElem?_take, List.getElem?_drop]
  by_cases hi : i < samplerVocabSize
  · have hin : batchIndex * u.vocabSize.toNat + i < rows.length := by omega
    rw [readCells_getElem? _ hi, if_pos hi, if_pos (by omega)]
    have hcell : writeCells pipe 0 rows (0 + (batchIndex * u.vocabSize.toNat + i)) =
        rows[batchIndex * u.vocabSize.toNat + i] :=
      writeCells_inside pipe (List.getElem?_eq_getElem hin)
    rw [Nat.zero_add] at hcell
    rw [hcell, List.getElem?_eq_getElem hin]
  · rw [if_neg hi, List.getElem?_eq_none (by rw [readCells_length]; omega)]

omit [LE F] [DecidableLE F] [LT F] [DecidableLT F] in
/-- With one row in the batch the row is all there is. -/
theorem row_single (u : Setup F E) {rows : List F} (hbatch : batchSize = 1)
    (hrows : rows.length = u.vocabSize.toNat * batchSize.toNat) : u.row rows 0 = rows := by
  have hone : rows.length = u.vocabSize.toNat := by
    rw [hrows, hbatch]
    exact Nat.mul_one _
  unfold Setup.row
  rw [Nat.zero_mul, List.drop_zero, ← hone, List.take_length]

/-- What `sampleToken` takes from a single decode token is fresh. -/
theorem sampleToken_fresh (hexact : u.Exact) (hvocab : 0 < u.vocabSize.toNat)
    (hcond : u.format.decodeLogitsMode = 0 → u.samplerVocabSize ≤ u.vocabSize.toNat)
    {x x' y y' : Situation F} {rows rows' : List F} (hx : u.Reached x)
    (h : u.Forward 1 1 rows x y) (hx' : u.Reached x') (h' : u.Forward 1 1 rows' x' y')
    (hrow : u.row rows 0 = u.row rows' 0) :
    y.root.sampleToken u.format u.samplerVocabSize =
      y'.root.sampleToken u.format u.samplerVocabSize := by
  have hbatch : 0 < (1 : NnUint).toNat := Nat.one_pos
  have ⟨hrows, pipeline, hroot⟩ := root_of_forward hexact hvocab hbatch hx h
  have ⟨hrows', pipeline', hroot'⟩ := root_of_forward hexact hvocab hbatch hx' h'
  rw [row_single u rfl hrows, row_single u rfl hrows'] at hrow
  rw [← hrow] at hroot'
  have hlen : (u.arriving 1 1 rows).length = u.format.bufferElems 1 1 := by
    unfold Setup.arriving
    cases hlink : u.link with
    | none =>
      have hasked := (sendsAll_of_none hlink 1 1).not_asked
      unfold LogitsFormat.bufferElems
      rw [if_neg hasked.1, if_neg hasked.2]
      exact hrows
    | some l => exact length_sentLogits (u.link_row l hlink) (topKCount_le u) hvocab hrows
  rw [hroot, hroot']
  simp only [RootLlmInference.sampleToken, RootLlmInference.store]
  unfold LogitsFormat.bufferElems at hlen
  by_cases htoken : u.format.TokenOnly 1 1
  · rw [if_pos htoken] at hlen
    simp only [if_pos htoken]
    rw [List.getD_eq_getElem?_getD, List.getD_eq_getElem?_getD,
      List.getElem?_eq_getElem (by omega)]
    rfl
  · rw [if_neg htoken] at hlen
    simp only [if_neg htoken]
    by_cases hbest : u.format.TopK 1 1
    · rw [if_pos hbest] at hlen
      simp only [if_pos hbest]
      rw [← hlen, List.take_left, List.take_left, if_neg htoken, if_neg htoken]
    · have hmode : u.format.decodeLogitsMode = 0 := by
        cases mode_cases u with
        | inl h0 => exact h0
        | inr h12 =>
          cases h12 with
          | inl h1 => exact absurd ⟨h1, rfl, rfl⟩ htoken
          | inr h2 => exact absurd ⟨h2, rfl, rfl⟩ hbest
      have hall : u.SendsAll 1 1 := fun hsingle => hsingle.1 hmode
      simp only [if_neg hbest, arriving_of_sendsAll hall]
      have hread := readCells_row u hrows hbatch (hcond hmode)
      rw [Nat.zero_mul] at hread
      rw [hread, hread, if_neg htoken, if_neg htoken]

/-- A driver that reads the logits pipe takes what is fresh when all logits are
sent and the sampler stays within a row. -/
theorem fresh_of_sendsAll (hexact : u.Exact) (hvocab : 0 < u.vocabSize.toNat)
    (htakes : u.driver.Takes phase batchSize) (hall : u.SendsAll phase batchSize)
    (hle : u.samplerVocabSize ≤ u.vocabSize.toNat) (hdriver : u.driver ≠ .inference)
    (hdriver' : u.driver ≠ .chat) : u.Fresh phase batchSize := by
  intro x x' y y' rows rows' batchIndex target hx h hx' h' hindex htarget hrow
  have hbatch : 0 < batchSize.toNat := Nat.lt_of_le_of_lt (Nat.zero_le _) hindex
  have hpipe := pipe_of_sendsAll hexact hvocab hbatch hx h hall
  have hpipe' := pipe_of_sendsAll hexact hvocab hbatch hx' h' hall
  have hrows := (root_of_forward hexact hvocab hbatch hx h).1
  have hrows' := (root_of_forward hexact hvocab hbatch hx' h').1
  have hread (n : ℕ) (hn : n ≤ u.vocabSize.toNat) :
      readCells y.root.logitsPipe (batchIndex * u.vocabSize.toNat) n =
        readCells y'.root.logitsPipe (batchIndex * u.vocabSize.toNat) n := by
    rw [hpipe, hpipe', readCells_row u hrows hindex hn, readCells_row u hrows' hindex hn, hrow]
  have hzero (hone : batchSize = 1) : batchIndex * u.vocabSize.toNat = 0 := by
    rw [hone] at hindex
    have hfirst : batchIndex = 0 := Nat.lt_one_iff.mp hindex
    rw [hfirst, Nat.zero_mul]
  cases hd : u.driver with
  | inference => exact absurd hd hdriver
  | chat => exact absurd hd hdriver'
  | continuousBatching => exact congrArg Taken.logits (hread _ hle)
  | api =>
    rw [hd] at htakes
    have hcells := hread _ hle
    rw [hzero htakes.2] at hcells
    exact congrArg Taken.logits hcells
  | perplexity =>
    rw [hd] at htakes
    have hcells := hread _ (Nat.le_refl _)
    rw [hzero htakes.2] at hcells
    have htarget' : target < u.format.vocabSize.toNat := Nat.lt_of_lt_of_le htarget hle
    simp only [Driver.takes]
    rw [if_pos htarget', if_pos htarget']
    exact congrArg (Taken.probability · none) hcells

omit [Add F] [Sub F] [LE F] [DecidableLE F] [LT F] [DecidableLT F] in
theorem readCells_ne {mem mem' : ℕ → F} {at0 len i : ℕ} (hi : i < len)
    (h : mem (at0 + i) ≠ mem' (at0 + i)) : readCells mem at0 len ≠ readCells mem' at0 len := by
  intro he
  have hget := congrArg (fun cells : List F => cells[i]?) he
  simp only [readCells_getElem? _ hi] at hget
  injection hget with hget
  exact h hget

/-- A root that has just started, with a logits pipe of one value. -/
def Setup.startFilled (u : Setup F E) (value : F) : Situation F where
  root := ⟨u.link.map fun l => l.ends.receiver, fun _ => value, value, [], 0, 0⟩
  sender := u.link.map fun l => l.ends.sender

theorem reached_startFilled (u : Setup F E) (value : F) :
    u.Reached (u.startFilled value) := .start _ rfl

/-- A packet of a root without stage skip. -/
def plainPacket (format : LogitsFormat) (value : F) : LlmControlPacket F where
  position := 0
  batchSize := 1
  phase := 1
  positionMode := 0
  tokenOnlyMode := format.decodeLogitsMode
  topKCount := format.topKCount
  activationType := 0
  pipelineDelta := 0
  pipelineDeltaMinBytes := 0
  pipelineChunkBytes := 0
  stageSkipShadow := 0
  stageSkipEnabled := 0
  stageSkipTarget := 0
  stageSkipTheta := value
  stageSkipMaxConsecutive := 1
  stageSkipMaxRejectStreak := 1
  batchPositions := []
  spGroups := []

/-- The last stage can compute logits and send them to any root that has just started. -/
theorem exists_forward (phase : NnUint) (hexact : u.Exact) (hvocab : 0 < u.vocabSize.toNat)
    (hbatch : 0 < batchSize.toNat) (value : F) :
    ∃ rows : List F, ∀ other : F, ∃ y, u.Forward phase batchSize rows (u.startFilled other) y := by
  cases hlink : u.link with
  | none =>
    exact ⟨List.replicate (u.vocabSize.toNat * batchSize.toNat) value, fun other =>
      ⟨_, .here hlink List.length_replicate⟩⟩
  | some l =>
    refine ⟨l.last.engine.logitsPipe l.engine (u.vocabSize.toNat * batchSize.toNat), fun other => ?_⟩
    have hsync := inSync_start hlink (u.startFilled other).root rfl
    have hrow := u.link_row l hlink
    have hrows := l.last.engine.logitsPipe_length l.engine (u.vocabSize.toNat * batchSize.toNat)
    set s : WorkerState F E :=
      { WorkerState.create (some l.ends.sender) (plainPacket u.format value) .f32 l.engine with
        decodePhase := decide (phase = 1), batchSize := batchSize }
    have hpayload : s.logitsPayload l.last = sentLogits l.last u.format phase batchSize
        (l.last.engine.logitsPipe l.engine (u.vocabSize.toNat * batchSize.toNat)) := by
      rw [← hrow]
      exact logitsPayload_eq rfl rfl rfl rfl
    have hlen : (s.logitsPayload l.last).length = u.format.bufferElems phase batchSize := by
      rw [hpayload]
      exact length_sentLogits hrow (topKCount_le u) hvocab hrows
    have hpos : 0 < (s.logitsPayload l.last).length := by
      rw [hlen]
      exact bufferElems_pos u hvocab hbatch
    have hsend := hsync.sendActivation s.controlPacket.position l.last.nodeConfig.tpRank
      (s.logitsPayload l.last)
    have ⟨s', hafter⟩ := exists_afterForward (w := l.last) (s := s) rfl rfl l.sender_last
      l.ppRank_pos l.rank_zero hsend
    have ⟨c₁', hstored, _⟩ := hsync.recvLogits (hexact l hlink) phase batchSize hlen hpos
      s.controlPacket.position l.last.nodeConfig.tpRank
    have hsender : s.pipeline = (u.startFilled other).sender := by
      unfold Setup.startFilled
      rw [hlink]
      rfl
    exact ⟨_, .sent hlink hsender rfl rfl rfl rfl hafter hstored⟩

theorem Driver.Takes.batchSize_pos {driver : Driver} (h : driver.Takes phase batchSize) :
    0 < batchSize.toNat := by
  cases driver with
  | continuousBatching => exact h.2
  | inference | chat | perplexity | api =>
    rw [h.2]
    exact Nat.one_pos

variable [Nontrivial F]

/-- A driver that reads the logits pipe takes what is not fresh when a token or the
best logits are sent. -/
theorem not_fresh_of_stale (hexact : u.Exact) (hvocab : 0 < u.vocabSize.toNat)
    (hsampler : 0 < u.samplerVocabSize) (htakes : u.driver.Takes phase batchSize)
    (hreads : u.ReadsPipe) (hnot : ¬u.SendsAll phase batchSize) : ¬u.Fresh phase batchSize := by
  intro hfresh
  have hbatch := htakes.batchSize_pos
  have hsingle := not_not.mp hnot
  obtain ⟨a, b, hab⟩ := exists_pair_ne F
  obtain ⟨rows, hrows⟩ := exists_forward phase hexact hvocab hbatch a
  obtain ⟨y, hy⟩ := hrows a
  obtain ⟨y', hy'⟩ := hrows b
  have hpipe := pipe_of_not_sendsAll hexact hvocab hbatch (reached_startFilled u a) hy hnot
  have hpipe' := pipe_of_not_sendsAll hexact hvocab hbatch (reached_startFilled u b) hy' hnot
  have hsame := hfresh _ _ y y' rows rows 0 0 (reached_startFilled u a) hy
    (reached_startFilled u b) hy' hbatch hsampler rfl
  have hcells (at0 n : ℕ) (hn : 0 < n) :
      readCells y.root.logitsPipe at0 n ≠ readCells y'.root.logitsPipe at0 n := by
    apply readCells_ne hn
    rw [hpipe, hpipe']
    exact hab
  have hdriver : u.driver ≠ .inference ∧ u.driver ≠ .chat := by
    cases hreads with
    | inl hmode => exact absurd hmode hsingle.1
    | inr hdriver => exact hdriver
  cases hd : u.driver with
  | inference => exact hdriver.1 hd
  | chat => exact hdriver.2 hd
  | continuousBatching =>
    rw [hd] at hsame
    injection hsame with hsame
    exact hcells _ _ hsampler hsame
  | perplexity =>
    rw [hd] at hsame
    injection hsame with hsame _
    exact hcells _ _ hvocab hsame
  | api =>
    rw [hd] at htakes
    have hphase : (0 : NnUint) = 1 := htakes.1.symm.trans hsingle.2.1
    cases hphase

/-- A driver that reads past a row takes what is not fresh. -/
theorem not_fresh_of_overread (hexact : u.Exact) (hvocab : 0 < u.vocabSize.toNat)
    (htakes : u.driver.Takes phase batchSize) (hall : u.SendsAll phase batchSize) (hover : u.vocabSize.toNat < u.samplerVocabSize) :
    ¬u.Fresh phase batchSize := by
  intro hfresh
  have hbatch := htakes.batchSize_pos
  obtain ⟨a, b, hab⟩ := exists_pair_ne F
  obtain ⟨rows, hrows⟩ := exists_forward phase hexact hvocab hbatch a
  obtain ⟨y, hy⟩ := hrows a
  obtain ⟨y', hy'⟩ := hrows b
  have hpipe := pipe_of_sendsAll hexact hvocab hbatch (reached_startFilled u a) hy hall
  have hpipe' := pipe_of_sendsAll hexact hvocab hbatch (reached_startFilled u b) hy' hall
  have hlen := (root_of_forward hexact hvocab hbatch (reached_startFilled u a) hy).1
  have hsame := hfresh _ _ y y' rows rows (batchSize.toNat - 1) u.vocabSize.toNat
    (reached_startFilled u a) hy (reached_startFilled u b) hy' (by omega) hover rfl
  have hend : (batchSize.toNat - 1) * u.vocabSize.toNat + u.vocabSize.toNat = rows.length := by
    rw [hlen, ← Nat.succ_mul, Nat.succ_eq_add_one, Nat.sub_add_cancel hbatch, Nat.mul_comm]
  have hcell : y.root.logitsPipe rows.length ≠ y'.root.logitsPipe rows.length := by
    rw [hpipe, hpipe', writeCells_outside _ (.inr (by omega)), writeCells_outside _ (.inr (by omega))]
    exact hab
  have hcells : readCells y.root.logitsPipe ((batchSize.toNat - 1) * u.vocabSize.toNat)
      u.samplerVocabSize ≠ readCells y'.root.logitsPipe
        ((batchSize.toNat - 1) * u.vocabSize.toNat) u.samplerVocabSize := by
    apply readCells_ne hover
    rw [hend]
    exact hcell
  have hfirst (hone : batchSize = 1) : (batchSize.toNat - 1) * u.vocabSize.toNat = 0 := by
    rw [hone]
    exact Nat.zero_mul _
  have hroots : y.root.phase = phase ∧ y.root.batchSize = batchSize ∧ y'.root.phase = phase ∧
      y'.root.batchSize = batchSize := by
    have ⟨_, pipeline, hroot⟩ := root_of_forward hexact hvocab hbatch (reached_startFilled u a) hy
    have ⟨_, pipeline', hroot'⟩ :=
      root_of_forward hexact hvocab hbatch (reached_startFilled u b) hy'
    rw [hroot, hroot']
    simp only [RootLlmInference.store]
    rw [if_neg hall.not_asked.1, if_neg hall.not_asked.2, if_neg hall.not_asked.1,
      if_neg hall.not_asked.2]
    exact ⟨rfl, rfl, rfl, rfl⟩
  have hsampled (hone : batchSize = 1) (h : y.root.sampleToken u.format u.samplerVocabSize =
      y'.root.sampleToken u.format u.samplerVocabSize) : False := by
    unfold RootLlmInference.sampleToken at h
    rw [hroots.1, hroots.2.1, hroots.2.2.1, hroots.2.2.2, if_neg hall.not_asked.1,
      if_neg hall.not_asked.2, if_neg hall.not_asked.1, if_neg hall.not_asked.2] at h
    injection h with h
    rw [hfirst hone] at hcells
    exact hcells h
  cases hd : u.driver with
  | inference =>
    rw [hd] at hsame htakes
    exact hsampled htakes.2 hsame
  | chat =>
    rw [hd] at hsame htakes
    exact hsampled htakes.2 hsame
  | continuousBatching =>
    rw [hd] at hsame
    injection hsame with hsame
    exact hcells hsame
  | perplexity =>
    rw [hd] at hsame htakes
    injection hsame with _ hsame
    have hself : ¬u.vocabSize.toNat < u.format.vocabSize.toNat := Nat.lt_irrefl _
    rw [if_neg hself, if_neg hself] at hsame
    injection hsame with hsame
    rw [hfirst htakes.2, Nat.zero_add] at hend
    rw [hend] at hsame
    exact hcell hsame
  | api =>
    rw [hd] at hsame htakes
    injection hsame with hsame
    rw [hfirst htakes.2] at hcells
    exact hcells hsame

/-- What a driver takes is determined by the row that the last stage computed in
the same forward exactly when, in case the driver reads the logits pipe, all
logits were sent and the tokenizer has no more tokens than the model. -/
theorem fresh_iff (u : Setup F E) (hexact : u.Exact) (hvocab : 0 < u.vocabSize.toNat)
    (hsampler : 0 < u.samplerVocabSize) {phase batchSize : NnUint}
    (htakes : u.driver.Takes phase batchSize) :
    u.Fresh phase batchSize ↔
      (u.ReadsPipe → u.SendsAll phase batchSize ∧ u.samplerVocabSize ≤ u.vocabSize.toNat) := by
  constructor
  · intro hfresh hreads
    have hall : u.SendsAll phase batchSize := by
      by_contra hnot
      exact not_fresh_of_stale hexact hvocab hsampler htakes hreads hnot hfresh
    refine ⟨hall, ?_⟩
    by_contra hover
    exact not_fresh_of_overread hexact hvocab htakes hall (Nat.lt_of_not_le hover) hfresh
  · intro hcond
    by_cases hdriver : u.driver ≠ .inference ∧ u.driver ≠ .chat
    · have hsent := hcond (.inr hdriver)
      exact fresh_of_sendsAll hexact hvocab htakes hsent.1 hsent.2 hdriver.1 hdriver.2
    · intro x x' y y' rows rows' batchIndex target hx h hx' h' hindex htarget hrow
      have hmode (hzero : u.format.decodeLogitsMode = 0) :
          u.samplerVocabSize ≤ u.vocabSize.toNat := (hcond (.inl hzero)).2
      cases hd : u.driver with
      | inference =>
        rw [hd] at htakes
        rw [htakes.1, htakes.2] at h h'
        rw [htakes.2] at hindex
        have hfirst : batchIndex = 0 := Nat.lt_one_iff.mp hindex
        rw [hfirst] at hrow
        exact sampleToken_fresh hexact hvocab hmode hx h hx' h' hrow
      | chat =>
        rw [hd] at htakes
        rw [htakes.1, htakes.2] at h h'
        rw [htakes.2] at hindex
        have hfirst : batchIndex = 0 := Nat.lt_one_iff.mp hindex
        rw [hfirst] at hrow
        exact sampleToken_fresh hexact hvocab hmode hx h hx' h' hrow
      | continuousBatching | perplexity | api =>
        rw [hd] at hdriver
        exact absurd ⟨by decide, by decide⟩ hdriver

end Freshness

section Words

/-- The last of two stages with rows of one word, and its link to the root. -/
def wordLink : LogitsLink NnUint (List NnUint) where
  ends :=
    { sender := .create ⟨2, 2, 1, 1⟩ ⟨1, 1, 0, 0, 1, 2, 1, 2⟩ true 0 0
      receiver := .create ⟨2, 2, 1, 1⟩ ⟨0, 0, 0, 0, 0, 1, 0, 1⟩ true 0 0
      target := 0
      source := 1
      sendSocket := 0
      recvSocket := 0
      target_lt := by decide
      send_ok := by decide
      source_lt := Nat.one_lt_two
      recv_ok := Eq.refl (Except.ok 0)
      send_fresh := rfl
      recv_fresh := rfl }
  last := WorkerRun.wordWorker 1
  engine := [7]
  target_eq := rfl
  sender_last := rfl
  ppRank_pos := by decide
  rank_zero := ⟨rfl, rfl⟩

/-- Two stages of which the last one sends tokens in decode. -/
def wordSetup (driver : Driver) : Setup NnUint (List NnUint) where
  args := ⟨true, 0⟩
  driver := driver
  topology := ⟨2, 2, 1, 1⟩
  vocabSize := 1
  samplerVocabSize := 1
  link := some wordLink
  link_isSome := by decide
  link_row := by
    intro l hl
    injection hl with hl
    rw [← hl]
    rfl

theorem wordSetup_exact (driver : Driver) : (wordSetup driver).Exact := by
  intro l hl
  injection hl with hl
  rw [← hl]
  constructor
  · exact WorkerRun.wordCodec_f32
  · right
    intro base x
    grind

theorem fresh_iff_words :
    (wordSetup .chat).Fresh 1 1 ↔ ((wordSetup .chat).ReadsPipe →
      (wordSetup .chat).SendsAll 1 1 ∧
        (wordSetup .chat).samplerVocabSize ≤ (wordSetup .chat).vocabSize.toNat) := by
  have hwords : Nontrivial NnUint := ⟨0, 1, by decide⟩
  exact fresh_iff (wordSetup .chat) (wordSetup_exact .chat) (by decide) (by decide) ⟨rfl, rfl⟩

/-- Decoding one request in a round, continuous batching reads the logits pipe while
the last stage has sent a token. -/
theorem not_fresh_continuousBatching :
    Driver.Takes (wordSetup .continuousBatching).driver 1 1 ∧
      ¬(wordSetup .continuousBatching).Fresh 1 1 := by
  have hwords : Nontrivial NnUint := ⟨0, 1, by decide⟩
  have htakes : (wordSetup .continuousBatching).driver.Takes 1 1 := ⟨rfl, by decide⟩
  have hreads : (wordSetup .continuousBatching).ReadsPipe := .inr ⟨by decide, by decide⟩
  have hsingle : ¬(wordSetup .continuousBatching).SendsAll 1 1 :=
    fun hall => hall ⟨by decide, rfl, rfl⟩
  exact ⟨htakes, not_fresh_of_stale (wordSetup_exact _) (by decide) (by decide) htakes hreads
    hsingle⟩

end Words

end LayerSkip.LogitsFreshness
