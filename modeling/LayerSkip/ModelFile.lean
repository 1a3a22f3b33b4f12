import LayerSkip.KeyValueHeader
import LayerSkip.LlmGraph

/-!
# Header of a model file

The converter makes a header from the configuration of a checkpoint: keys and values in the
order of a dictionary, with keys that may be missing. The loader reads the keys in any order
and has defaults for those that are missing.
-/

namespace LayerSkip.ModelFile

open NnTopology NnPipeline NnCore LlmGraph KeyValueHeader

/-! ### The converter -/

/-- Scaling of the rotary embedding in `config.json`, as whole numbers. -/
structure RopeScaling where
  /-- `factor`. -/
  factor : ℤ
  /-- `low_freq_factor`. -/
  lowFreqFactor : ℤ
  /-- `high_freq_factor`. -/
  highFreqFactor : ℤ
  /-- `original_max_position_embeddings`. -/
  originalMaxPositionEmbeddings : ℤ
  /-- `rope_type`. -/
  ropeType : String
  deriving DecidableEq, Repr

/-- Values of `rms_norm_eps`. -/
inductive RmsNormEps
  /-- `1e-05`. -/
  | e5
  /-- `1e-06`. -/
  | e6
  /-- Any other one, as it is printed. -/
  | other (epsilon : String)
  deriving DecidableEq, Repr

/-- What the converter reads of `config.json`. -/
structure HfConfig where
  /-- `model_type`. -/
  modelType : String
  /-- `hidden_act`. -/
  hiddenAct : String
  /-- `hidden_size`. -/
  hiddenSize : ℕ
  /-- `intermediate_size`. -/
  intermediateSize : ℕ
  /-- `num_hidden_layers`. -/
  numHiddenLayers : ℕ
  /-- `num_attention_heads`. -/
  numAttentionHeads : ℕ
  /-- `num_key_value_heads`. -/
  numKeyValueHeads : ℕ
  /-- `max_position_embeddings`. -/
  maxPositionEmbeddings : ℕ
  /-- `vocab_size`. -/
  vocabSize : ℕ
  /-- `num_experts`. -/
  numExperts : Option ℕ
  /-- `num_experts_per_tok`. -/
  numExpertsPerTok : Option ℕ
  /-- `rope_theta` as a whole number. -/
  ropeTheta : Option ℤ
  /-- `rope_scaling`. -/
  ropeScaling : Option RopeScaling
  /-- `head_dim`. -/
  headDim : Option ℕ
  /-- `rms_norm_eps`. -/
  rmsNormEps : Option RmsNormEps
  /-- `moe_intermediate_size`. -/
  moeIntermediateSize : Option ℕ
  deriving DecidableEq, Repr

/-- Activations. -/
inductive LlmHiddenAct
  | gelu
  | silu
  deriving DecidableEq, Repr

/-- Keys of the scaling of the rotary embedding. -/
structure RopeScalingParams where
  /-- `rope_scaling_factor`. -/
  factor : ℤ
  /-- `rope_scaling_low_freq_factor`. -/
  lowFreqFactor : ℤ
  /-- `rope_scaling_high_freq_factory`. -/
  highFreqFactory : ℤ
  /-- `rope_scaling_orig_max_seq_len`. -/
  origMaxSeqLen : ℤ
  /-- `rope_type`. -/
  ropeType : NnRopeType
  deriving DecidableEq, Repr

/-- The configuration that `loadConfig` returns. -/
structure Config where
  /-- `arch_type`. -/
  archType : LlmArchType
  /-- `hidden_act`. -/
  hiddenAct : LlmHiddenAct
  /-- `dim`. -/
  dim : ℕ
  /-- `hidden_dim`. -/
  hiddenDim : ℕ
  /-- `n_layers`. -/
  nLayers : ℕ
  /-- `n_heads`. -/
  nHeads : ℕ
  /-- `n_kv_heads`. -/
  nKvHeads : ℕ
  /-- `weights_float_type`. -/
  weightsFloatType : NnFloatType
  /-- `max_seq_len`. -/
  maxSeqLen : ℕ
  /-- `vocab_size`. -/
  vocabSize : ℕ
  /-- `n_experts`. -/
  nExperts : ℕ
  /-- `n_active_experts`. -/
  nActiveExperts : ℕ
  /-- `rope_theta`. -/
  ropeTheta : Option ℤ
  /-- `rope_scaling_factor` and the keys after it. -/
  ropeScaling : Option RopeScalingParams
  /-- `head_dim`. -/
  headDim : Option ℕ
  /-- `norm_epsilon`. -/
  normEpsilon : Option ℕ
  /-- `moe_hidden_dim`. -/
  moeHiddenDim : Option ℕ
  deriving DecidableEq, Repr

/-- Number of an architecture. -/
def archNumber : LlmArchType → ℤ
  | .llama => 0xABCD00
  | .qwen3 => 0xABCD01
  | .qwen3Moe => 0xABCD02

/-- Number of an activation. -/
def actNumber : LlmHiddenAct → ℤ
  | .gelu => 0
  | .silu => 1

/-- Number of a rotary embedding. -/
def ropeNumber : NnRopeType → ℤ
  | .llama => 0
  | .falcon => 1
  | .llama3_1 => 2

/-- Number of a float type. -/
def floatNumber : NnFloatType → ℤ
  | .f32 => 0
  | .f16 => 1
  | .q40 => 2
  | .q80 => 3

/-- Float type of a name. -/
def parseFloatType (type : String) : Except String NnFloatType :=
  if type = "f32" then .ok .f32
  else if type = "f16" then .ok .f16
  else if type = "q40" then .ok .q40
  else if type = "q80" then .ok .q80
  else .error (type ++ " is not supported")

/-- Architecture of a name. -/
def parseArchType (type : String) : Except String LlmArchType :=
  if type = "llama" ∨ type = "mistral" then .ok .llama
  else if type = "qwen3" then .ok .qwen3
  else if type = "qwen3_moe" then .ok .qwen3Moe
  else .error ("Unsupported arch type: " ++ type)

/-- Activation of a name. -/
def parseHiddenAct (act : String) : Except String LlmHiddenAct :=
  if act = "gelu" then .ok .gelu
  else if act = "silu" then .ok .silu
  else .error ("Unsupported hidden act: " ++ act)

/-- Rotary embedding of a name. -/
def parseRopeType (rt : String) : Except String NnRopeType :=
  if rt = "llama3" then .ok .llama3_1 else .error "Unsupported rope type: None"

/-- Number of an epsilon. -/
def parseRmsNormEpsilon : RmsNormEps → Except String ℕ
  | .e5 => .ok 5
  | .e6 => .ok 6
  | .other epsilon => .error ("Unsupported epsilon: " ++ epsilon)

/-- Run a parser on a key that may be missing. -/
def parseOption {α β : Type} (parse : α → Except String β) : Option α → Except String (Option β)
  | none => .ok none
  | some a => (parse a).map some

/-- The configuration of a checkpoint. -/
def loadConfig (config : HfConfig) (weightsFloatType : NnFloatType) : Except String Config := do
  let archType ← parseArchType config.modelType
  let hiddenAct ← parseHiddenAct config.hiddenAct
  let ropeScaling ← parseOption (fun ropeScaling : RopeScaling => do
    let ropeType ← parseRopeType ropeScaling.ropeType
    return (⟨ropeScaling.factor, ropeScaling.lowFreqFactor, ropeScaling.highFreqFactor,
      ropeScaling.originalMaxPositionEmbeddings, ropeType⟩ : RopeScalingParams)) config.ropeScaling
  let normEpsilon ← parseOption parseRmsNormEpsilon config.rmsNormEps
  return {
    archType := archType
    hiddenAct := hiddenAct
    dim := config.hiddenSize
    hiddenDim := config.intermediateSize
    nLayers := config.numHiddenLayers
    nHeads := config.numAttentionHeads
    nKvHeads := config.numKeyValueHeads
    weightsFloatType := weightsFloatType
    maxSeqLen := config.maxPositionEmbeddings
    vocabSize := config.vocabSize
    nExperts := config.numExperts.getD 0
    nActiveExperts := config.numExpertsPerTok.getD 0
    ropeTheta := config.ropeTheta
    ropeScaling := ropeScaling
    headDim := config.headDim
    normEpsilon := normEpsilon
    moeHiddenDim := config.moeIntermediateSize }

/-- Keys of the header. -/
def headerKeys : List (String × ℤ) :=
  [("version", 0), ("arch_type", 1), ("dim", 2), ("hidden_dim", 3), ("n_layers", 4), ("n_heads", 5),
    ("n_kv_heads", 6), ("n_experts", 7), ("n_active_experts", 8), ("vocab_size", 9),
    ("max_seq_len", 10), ("hidden_act", 11), ("rope_theta", 12), ("weights_float_type", 13),
    ("rope_scaling_factor", 14), ("rope_scaling_low_freq_factor", 15),
    ("rope_scaling_high_freq_factory", 16), ("rope_scaling_orig_max_seq_len", 17),
    ("rope_type", 18), ("head_dim", 19), ("norm_epsilon", 20), ("moe_hidden_dim", 21)]

/-- The dictionary of a configuration, without the names of the files, which have no key. -/
def params (c : Config) : List (String × ℤ) :=
  [("version", 0), ("arch_type", archNumber c.archType), ("hidden_act", actNumber c.hiddenAct),
    ("dim", c.dim), ("hidden_dim", c.hiddenDim), ("n_layers", c.nLayers), ("n_heads", c.nHeads),
    ("n_kv_heads", c.nKvHeads), ("weights_float_type", floatNumber c.weightsFloatType),
    ("max_seq_len", c.maxSeqLen), ("vocab_size", c.vocabSize), ("n_experts", c.nExperts),
    ("n_active_experts", c.nActiveExperts)] ++
  (c.ropeTheta.map fun ropeTheta => ("rope_theta", ropeTheta)).toList ++
  (match c.ropeScaling with
    | none => []
    | some s => [("rope_scaling_factor", s.factor), ("rope_scaling_low_freq_factor", s.lowFreqFactor),
      ("rope_scaling_high_freq_factory", s.highFreqFactory),
      ("rope_scaling_orig_max_seq_len", s.origMaxSeqLen), ("rope_type", ropeNumber s.ropeType)]) ++
  (c.headDim.map fun headDim => ("head_dim", (headDim : ℤ))).toList ++
  (c.normEpsilon.map fun normEpsilon => ("norm_epsilon", (normEpsilon : ℤ))).toList ++
  (c.moeHiddenDim.map fun moeHiddenDim => ("moe_hidden_dim", (moeHiddenDim : ℤ))).toList

/-- Keys and values of the header. -/
def headerPairs (params : List (String × ℤ)) : List (ℤ × ℤ) :=
  params.filterMap fun param => (headerKeys.lookup param.1).map fun key => (key, param.2)

/-- Bytes of the header. -/
def writeHeader (params : List (String × ℤ)) : Except String (List UInt8) :=
  packHeader 0xA00ABCD (headerPairs params)

/-! ### The loader -/

/-- A word made of a signed number. -/
def toUint (number : ℤ) : ℕ := (number % 4294967296).toNat

/-- Header as the keys set it. Floats are kept as the numbers they are made from. -/
structure LlmHeaderKeys where
  /-- Version. -/
  version : ℤ
  /-- Architecture. -/
  archType : ℤ
  /-- Values of a row. -/
  dim : ℕ
  /-- Values inside the feed-forward block. -/
  hiddenDim : ℕ
  /-- Layers. -/
  nLayers : ℕ
  /-- Query heads. -/
  nHeads : ℕ
  /-- Key heads. -/
  nKvHeads : ℕ
  /-- Experts. -/
  nExperts : ℕ
  /-- Experts used for a token. -/
  nActiveExperts : ℕ
  /-- Tokens. -/
  vocabSize : ℕ
  /-- Length of the context. -/
  seqLen : ℕ
  /-- Activation. -/
  hiddenAct : ℤ
  /-- Base of the rotary embedding. -/
  ropeTheta : ℤ
  /-- Format of the weights. -/
  weightType : ℤ
  /-- Scaling of the rotary embedding. -/
  ropeScalingFactor : ℤ
  /-- Factor for low frequencies. -/
  ropeScalingLowFreqFactor : ℤ
  /-- Factor for high frequencies. -/
  ropeScalingHighFreqFactory : ℤ
  /-- Context before the scaling. -/
  ropeScalingOrigMaxSeqLen : ℕ
  /-- Rotary embedding. -/
  ropeType : ℤ
  /-- Values of a head. -/
  headDim : ℕ
  /-- Exponent of the epsilon of the norms. -/
  normEpsilon : ℤ
  /-- Values inside the feed-forward block of an expert. -/
  moeHiddenDim : ℕ
  deriving DecidableEq, Repr

/-- The header before any key is read. -/
def LlmHeaderKeys.default : LlmHeaderKeys :=
  ⟨0, 0, 0, 0, 0, 0, 0, 0, 0, 0, 0, 1, 10000, -1, 1, 0, 0, 0, 0, 0, 5, 0⟩

/-- Set what a key stands for. -/
def LlmHeaderKeys.set (h : LlmHeaderKeys) (key number : ℤ) : Except String LlmHeaderKeys :=
  match key with
  | 0 => .ok { h with version := number }
  | 1 => .ok { h with archType := number }
  | 2 => .ok { h with dim := toUint number }
  | 3 => .ok { h with hiddenDim := toUint number }
  | 4 => .ok { h with nLayers := toUint number }
  | 5 => .ok { h with nHeads := toUint number }
  | 6 => .ok { h with nKvHeads := toUint number }
  | 7 => .ok { h with nExperts := toUint number }
  | 8 => .ok { h with nActiveExperts := toUint number }
  | 9 => .ok { h with vocabSize := toUint number }
  | 10 => .ok { h with seqLen := toUint number }
  | 11 => .ok { h with hiddenAct := number }
  | 12 => .ok { h with ropeTheta := number }
  | 13 => .ok { h with weightType := number }
  | 14 => .ok { h with ropeScalingFactor := number }
  | 15 => .ok { h with ropeScalingLowFreqFactor := number }
  | 16 => .ok { h with ropeScalingHighFreqFactory := number }
  | 17 => .ok { h with ropeScalingOrigMaxSeqLen := toUint number }
  | 18 => .ok { h with ropeType := number }
  | 19 => .ok { h with headDim := toUint number }
  | 20 =>
    if number = 5 ∨ number = 6 then .ok { h with normEpsilon := number }
    else .error "Unsupported norm epsilon"
  | 21 => .ok { h with moeHiddenDim := toUint number }
  | _ => .error "Unsupported header key"

/-- Set what pairs stand for. -/
def LlmHeaderKeys.setAll (h : LlmHeaderKeys) : List (ℤ × ℤ) → Except String LlmHeaderKeys
  | [] => .ok h
  | pair :: pairs => do
    let h ← h.set pair.1 pair.2
    h.setAll pairs

/-- A header of a file. -/
structure LlmFileHeader where
  /-- Bytes before the first tensor. -/
  headerSize : ℕ
  /-- Bytes of the file. -/
  fileSize : ℕ
  /-- What the keys say. -/
  keys : LlmHeaderKeys
  /-- Length of the context in the file. -/
  origSeqLen : ℕ
  /-- Activation. -/
  hiddenAct : LlmHiddenAct
  /-- What the graph is built from. -/
  header : LlmHeader
  deriving DecidableEq, Repr

/-- Architecture of a number. -/
def archOfNumber (number : ℤ) : Except String LlmArchType :=
  if number = 0xABCD00 then .ok .llama
  else if number = 0xABCD01 then .ok .qwen3
  else if number = 0xABCD02 then .ok .qwen3Moe
  else .error "Unsupported architecture"

/-- Activation of a number. -/
def actOfNumber (number : ℤ) : Except String LlmHiddenAct :=
  if number = 0 then .ok .gelu
  else if number = 1 then .ok .silu
  else .error "Unsupported hidden act"

/-- Rotary embedding of a number. -/
def ropeOfNumber (number : ℤ) : Except String NnRopeType :=
  if number = 0 then .ok .llama
  else if number = 1 then .ok .falcon
  else if number = 2 then .ok .llama3_1
  else .error "Unsupported rope type"

/-- Float type of a number. -/
def floatOfNumber (number : ℤ) : Except String NnFloatType :=
  if number = -1 then .error "Model does not specify weight type"
  else if number = 0 then .ok .f32
  else if number = 1 then .ok .f16
  else if number = 2 then .ok .q40
  else if number = 3 then .ok .q80
  else .error "Unsupported float type"

/-- Header made of what the keys say. Products are 32-bit words. -/
def LlmHeaderKeys.finish (k : LlmHeaderKeys) (maxSeqLen : ℕ) (syncType : NnFloatType)
    (headerSize fileSize : ℕ) : Except String LlmFileHeader := do
  let weightType ← floatOfNumber k.weightType
  let archType ← archOfNumber k.archType
  let hiddenAct ← actOfNumber k.hiddenAct
  let ropeType ← ropeOfNumber k.ropeType
  require (k.headDim = 0 → k.nHeads ≠ 0) "Floating point exception"
  let headDim := if k.headDim = 0 then k.dim / k.nHeads else k.headDim
  return {
    headerSize := headerSize
    fileSize := fileSize
    keys := k
    origSeqLen := k.seqLen
    hiddenAct := hiddenAct
    header := {
      archType := archType
      dim := k.dim
      nLayers := k.nLayers
      nHeads := k.nHeads
      headDim := headDim
      nKvHeads := k.nKvHeads
      nExperts := k.nExperts
      nActiveExperts := k.nActiveExperts
      seqLen := if 0 < maxSeqLen ∧ maxSeqLen < k.seqLen then maxSeqLen else k.seqLen
      hiddenDim := k.hiddenDim
      moeHiddenDim := k.moeHiddenDim
      qDim := headDim * k.nHeads % 2 ^ 32
      kvDim := headDim * k.nKvHeads % 2 ^ 32
      vocabSize := k.vocabSize
      ropeType := if archType = .qwen3 ∨ archType = .qwen3Moe then .falcon else ropeType
      weightType := weightType
      syncType := syncType } }

/-- Read the header of a file. The loader reads as many bytes after the size as the header has
with the mark and the size, and looks at the pairs only. -/
def loadLlmHeader (file : List UInt8) (maxSeqLen : ℕ) (syncType : NnFloatType) :
    Except String LlmFileHeader := do
  let (magic, rest) ← fread 4 "Cannot read magic value" file
  require (unpack magic ≠ 0xABCD00 ∧ unpack magic ≠ 0xABCD01) "Old model format is not supported"
  require (unpack magic = 0xA00ABCD) "Unsupported magic number"
  let (size, rest) ← fread 4 "Cannot read header size" rest
  let headerSize := toUint (unpack size)
  require (0 < headerSize) "Cannot read header values"
  let (buffer, _) ← fread headerSize "Cannot read header values" rest
  let nKv := (headerSize - 8) / 4
  let keys ← LlmHeaderKeys.default.setAll (unpackPairs ((nKv + 1) / 2) buffer)
  keys.finish maxSeqLen syncType headerSize file.length

end LayerSkip.ModelFile
