import Mathlib.Algebra.Group.Nat.Defs
import Mathlib.Data.List.Basic
import Mathlib.Data.Nat.Notation
import Mathlib.Logic.Function.Basic
import Mathlib.Tactic.Common

/-!
# Cached conversations of the API server

The server keeps the messages of the last conversation and the position at which each ends.
A request that continues these messages starts after them and leaves the key and value rows
before that position as they are. A request is the list of its operations; writes to the
client and forwards can throw. The server goes on after a socket error and starts anew after
any other one.
-/

namespace LayerSkip.NaiveCache

/-- Tokens. -/
abbrev Token := ℕ

/-- A message. -/
structure ChatMessage where
  /-- Role. -/
  role : String
  /-- Text. -/
  content : String
  deriving DecidableEq, Repr

/-- A message in the cache. -/
structure NaiveCacheItem where
  /-- Position after the message. -/
  endPos : ℕ
  /-- Message. -/
  message : ChatMessage
  /-- Tokens that the message stands for. The program does not store them. The tokens of a
  prompt stand with its first message, or with the answer if there is none. -/
  tokens : List Token
  deriving DecidableEq, Repr

/-- Messages that agree before the first that does not. -/
def matchedItems : List NaiveCacheItem → List ChatMessage → ℕ
  | item :: cache, message :: messages =>
    if item.message.role ≠ message.role ∨ item.message.content ≠ message.content then 0
    else matchedItems cache messages + 1
  | _, _ => 0

/-- The cache afterwards and, if its messages are the first of the request, where they end and
the messages that follow. -/
def resolveDeltaPrompt (cache : List NaiveCacheItem) (messages : List ChatMessage) :
    List NaiveCacheItem × Option (ℕ × List ChatMessage) :=
  match cache.getLast? with
  | none => (cache, none)
  | some last =>
    if cache.length < messages.length ∧ matchedItems cache messages = cache.length then
      (cache, some (last.endPos, messages.drop cache.length))
    else ([], none)

/-- An encoded prompt: its tokens and what the array holds behind them. -/
structure PromptTokens where
  /-- Tokens. -/
  tokens : List Token
  /-- Their number is an `int`. -/
  length_lt : tokens.length < 2 ^ 31
  /-- Cells after the last token. -/
  behind : ℕ → Token

/-- Cell of the array. -/
def PromptTokens.cell (p : PromptTokens) (i : ℕ) : Token :=
  p.tokens.getD i (p.behind (i - p.tokens.length))

/-- Options of the program, the model and the templates. -/
structure ApiContext where
  /-- Length of the context. -/
  seqLen : ℕ
  /-- There is a context. -/
  seqLen_pos : 0 < seqLen
  /-- It is a word. -/
  seqLen_lt : seqLen < 2 ^ 32
  /-- Rows of a batch. -/
  nBatches : ℕ
  /-- Pipeline stages. -/
  ppSize : ℕ
  /-- Prompts from here on are cut. -/
  prefillChunkThreshold : ℕ
  /-- Size of the pieces, zero for an automatic one. -/
  prefillChunkSize : ℕ
  /-- Tokens of messages, at the start of a context or not. -/
  encode : List ChatMessage → Bool → PromptTokens
  /-- Part of the prompt that belongs to the answer. -/
  publicPrompt : List ChatMessage → Option String

/-- Rows of a prefill batch. -/
def resolvePrefillChunkBatchSize (ctx : ApiContext) (nPrefillTokens : ℕ) : ℕ :=
  if ctx.nBatches < 1 then 1
  else if ctx.ppSize ≤ 1 then ctx.nBatches
  else if nPrefillTokens < ctx.prefillChunkThreshold then ctx.nBatches
  else if 0 < ctx.prefillChunkSize then min ctx.nBatches ctx.prefillChunkSize
  else
    let autoChunk := max 1 (ctx.nBatches / ctx.ppSize)
    let autoChunk := if 4 ≤ ctx.ppSize then max 1 (autoChunk / 2) else autoChunk
    let pressure := nPrefillTokens / max 1 ctx.prefillChunkThreshold
    if 16 ≤ pressure then max 1 (autoChunk / 4)
    else if 8 ≤ pressure then max 1 (autoChunk / 2)
    else autoChunk

/-- Answers of the detector. -/
inductive EosDetectorType
  | maybeEos
  | eos
  | notEos
  deriving DecidableEq, Repr

/-- How an operation can fail. -/
inductive Fault
  /-- `NnTransferSocketException`. -/
  | transfer
  /-- Any other exception, and a failed assertion. -/
  | fatal
  deriving DecidableEq, Repr

/-- A key and value row: the tokens of the rows it was computed from, its own one last. -/
abbrev Row := List Token

/-- A request, with what its run meets. -/
structure Request where
  /-- Messages. -/
  messages : List ChatMessage
  /-- Answer piece by piece. -/
  stream : Bool
  /-- Largest number of tokens, none if not positive. -/
  maxTokens : ℤ
  /-- Token before any was set. -/
  token : Token
  /-- Token sampled in each step. -/
  sample : ℕ → Token
  /-- Answer of the detector in each step. -/
  eosType : ℕ → EosDetectorType
  /-- Text that the detector lets out in each step. -/
  delta : ℕ → Option String
  /-- What the write or forward of this number throws. -/
  fault : ℕ → Option Fault
  /-- Rows that a failed forward leaves. -/
  torn : ℕ → Row

/-- The server. -/
structure Server where
  /-- Key and value rows. -/
  kv : ℕ → Row
  /-- Cached messages. -/
  naiveCache : List NaiveCacheItem

/-- A server that has just started. -/
def Server.init : Server := ⟨fun _ => [], []⟩

/-- Operations of a request. -/
inductive Op
  /-- Write to the client. -/
  | write
  /-- Forward of the tokens from a position on. -/
  | forward (pos : ℕ) (tokens : List Token)
  /-- `naiveCache.push`. -/
  | push (item : NaiveCacheItem)
  /-- `naiveCache.clear`. -/
  | clear
  /-- A failed assertion. -/
  | fail
  deriving DecidableEq, Repr

/-- Tokens of the rows before a position. -/
def context (kv : ℕ → Row) (pos : ℕ) : List Token :=
  (List.range pos).flatMap fun p => (kv p).getLast?.toList

/-- Rows after a forward. A row sees the rows before it, those of the same batch included. -/
def forward (kv : ℕ → Row) (pos : ℕ) : List Token → ℕ → Row
  | [] => kv
  | token :: tokens => forward (Function.update kv pos (context kv pos ++ [token])) (pos + 1) tokens

/-- Run operations. The number counts writes and forwards. -/
def runOps (r : Request) : ℕ → List Op → Server → Server × Option Fault
  | _, [], s => (s, none)
  | k, .push item :: ops, s => runOps r k ops { s with naiveCache := s.naiveCache ++ [item] }
  | k, .clear :: ops, s => runOps r k ops { s with naiveCache := [] }
  | _, .fail :: _, s => (s, some .fatal)
  | k, .write :: ops, s =>
    match r.fault k with
    | some fault => (s, some fault)
    | none => runOps r (k + 1) ops s
  | k, .forward pos tokens :: ops, s =>
    match r.fault k with
    | some fault =>
      ({ s with kv := fun p => if pos ≤ p ∧ p < pos + tokens.length then r.torn p else s.kv p },
        some fault)
    | none => runOps r (k + 1) ops { s with kv := forward s.kv pos tokens }

/-- The prefill loop with its variables `pos` and `i`: forwards of at most the batch size until
the end of the prompt. Positions behind the end of the context fail. -/
def prefillOps (prompt : PromptTokens) (prefillBatchCap promptEndPos pos i : ℕ) : List Op :=
  if promptEndPos < pos then [.fail]
  else if _h : 0 < promptEndPos - pos ∧ 0 < prefillBatchCap then
    let batchSize := min (promptEndPos - pos) prefillBatchCap
    .forward pos ((List.range batchSize).map fun j => prompt.cell (i + j)) ::
      prefillOps prompt prefillBatchCap promptEndPos (pos + batchSize) (i + batchSize)
  else []
termination_by promptEndPos - pos
decreasing_by omega

/-- What the decode loop does and where it ends. -/
structure Decoded where
  /-- Operations. -/
  ops : List Op
  /-- Position at the end. -/
  pos : ℕ
  /-- Text of the answer. -/
  buffer : String
  /-- Tokens of the answer: all sampled ones but that of the stop. -/
  tokens : List Token

/-- The decode loop. -/
def decode (r : Request) (maxPredPos : ℕ) (k pos : ℕ) (token : Token) (buffer : String) : Decoded :=
  if pos < maxPredPos then
    let next := r.sample k
    let delta := if r.eosType k = .maybeEos then none else r.delta k
    let ops := .forward pos [token] :: if delta.isSome ∧ r.stream then [.write] else []
    let buffer := buffer ++ delta.getD ""
    if r.eosType k = .eos then ⟨ops, pos + 1, buffer, []⟩
    else
      let rest := decode r maxPredPos (k + 1) (pos + 1) next buffer
      ⟨ops ++ rest.ops, rest.pos, rest.buffer, next :: rest.tokens⟩
  else ⟨[], pos, buffer, []⟩
termination_by maxPredPos - pos

/-- Position of the last token of the prompt. -/
def promptEnd (ctx : ApiContext) (startPos : ℕ) (prompt : PromptTokens) : ℕ :=
  min ((startPos + prompt.tokens.length + (2 ^ 32 - 1)) % 2 ^ 32) ctx.seqLen

/-- Position at which the answer ends at the latest. -/
def maxPred (ctx : ApiContext) (r : Request) (promptEndPos : ℕ) : ℕ :=
  min (if 0 < r.maxTokens then (promptEndPos + r.maxTokens.toNat) % 2 ^ 32 else ctx.seqLen) ctx.seqLen

/-- The messages of a request as they are cached. -/
def messageItems (endPos : ℕ) (tokens : List Token) : List ChatMessage → List NaiveCacheItem
  | [] => []
  | message :: messages => ⟨endPos, message, tokens⟩ :: messages.map fun m => ⟨endPos, m, []⟩

/-- The parts of `complete` after `resolveDeltaPrompt`. -/
structure Completion where
  /-- Messages to be cached. -/
  items : List NaiveCacheItem
  /-- Writes, prefill and decode. -/
  body : List Op
  /-- Caching the answer. -/
  cacheAnswer : Op
  /-- Last writes. -/
  finish : List Op

/-- Token of the first decode step: the prefill loop sets it after each batch. -/
def firstToken (r : Request) (prompt : PromptTokens) (startPos promptEndPos : ℕ) : Token :=
  if startPos < promptEndPos then prompt.cell (promptEndPos - startPos + 1) else r.token

/-- A request that starts at a position with these messages. -/
def completion (ctx : ApiContext) (r : Request) (startPos : ℕ) (deltaPrompt : List ChatMessage) :
    Completion :=
  let prompt := ctx.encode deltaPrompt (startPos = 0)
  let promptEndPos := promptEnd ctx startPos prompt
  let publicPrompt := ctx.publicPrompt deltaPrompt
  let opening := (if r.stream then [.write] else []) ++
    if publicPrompt.isSome ∧ r.stream then [.write] else []
  let prefillBatchCap := resolvePrefillChunkBatchSize ctx (promptEndPos - startPos)
  let prefill := prefillOps prompt prefillBatchCap promptEndPos startPos 0
  let decoded := decode r (maxPred ctx r promptEndPos) 0 promptEndPos
    (firstToken r prompt startPos promptEndPos) (publicPrompt.getD "")
  let answer : NaiveCacheItem := ⟨decoded.pos, ⟨"assistant", decoded.buffer⟩,
    (if deltaPrompt = [] then prompt.tokens else []) ++ decoded.tokens⟩
  { items := messageItems promptEndPos prompt.tokens deltaPrompt
    body := opening ++ (prefill ++ decoded.ops)
    cacheAnswer := if decoded.pos = ctx.seqLen then .clear else .push answer
    finish := if r.stream then [.write, .write, .write] else [.write] }

/-- Where a request starts and the messages that are new. -/
def delta (s : Server) (r : Request) : ℕ × List ChatMessage :=
  (resolveDeltaPrompt s.naiveCache r.messages).2.getD (0, r.messages)

/-- `ApiServer::complete` on a server. -/
def complete (ctx : ApiContext) (s : Server) (r : Request) : Server × Option Fault :=
  let c := completion ctx r (delta s r).1 (delta s r).2
  runOps r 0 (c.items.map .push ++ (c.body ++ c.cacheAnswer :: c.finish))
    { s with naiveCache := (resolveDeltaPrompt s.naiveCache r.messages).1 }

/-- One turn of the loop of `server`, and of `main` around it: after a socket error the server
goes on as it is. -/
def serve (ctx : ApiContext) (s : Server) (r : Request) : Server :=
  match complete ctx s r with
  | (_, some .fatal) => .init
  | (s', _) => s'

/-- The server before the request of a number. -/
def serverAt (ctx : ApiContext) (requests : ℕ → Request) : ℕ → Server
  | 0 => .init
  | i + 1 => serve ctx (serverAt ctx requests i) (requests i)

end LayerSkip.NaiveCache
