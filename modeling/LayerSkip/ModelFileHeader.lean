import LayerSkip.ModelFileWriter

/-!
# The header is read back

What the loader reads from the header of a converted checkpoint is the configuration of the
checkpoint, with the defaults of the loader for keys that it does not have.
-/

namespace LayerSkip.ModelFile

open NnTopology NnPipeline NnCore LlmGraph KeyValueHeader

/-- What the keys of a configuration stand for. -/
def expectedKeys (c : Config) : LlmHeaderKeys where
  version := 0
  archType := archNumber c.archType
  dim := c.dim
  hiddenDim := c.hiddenDim
  nLayers := c.nLayers
  nHeads := c.nHeads
  nKvHeads := c.nKvHeads
  nExperts := c.nExperts
  nActiveExperts := c.nActiveExperts
  vocabSize := c.vocabSize
  seqLen := c.maxSeqLen
  hiddenAct := actNumber c.hiddenAct
  ropeTheta := c.ropeTheta.getD 10000
  weightType := floatNumber c.weightsFloatType
  ropeScalingFactor := (c.ropeScaling.map RopeScalingParams.factor).getD 1
  ropeScalingLowFreqFactor := (c.ropeScaling.map RopeScalingParams.lowFreqFactor).getD 0
  ropeScalingHighFreqFactory := (c.ropeScaling.map RopeScalingParams.highFreqFactory).getD 0
  ropeScalingOrigMaxSeqLen := (c.ropeScaling.map fun s => toUint s.origMaxSeqLen).getD 0
  ropeType := (c.ropeScaling.map fun s => ropeNumber s.ropeType).getD 0
  headDim := c.headDim.getD 0
  normEpsilon := (c.normEpsilon.map fun e => (e : ℤ)).getD 5
  moeHiddenDim := c.moeHiddenDim.getD 0

/-- Values of a head. -/
def Config.headSize (c : Config) : ℕ := c.headDim.getD (c.dim / c.nHeads)

/-- The header that a configuration stands for. Products are 32-bit words. -/
def expectedHeader (c : Config) (maxSeqLen : ℕ) (syncType : NnFloatType) (headerSize fileSize : ℕ) :
    LlmFileHeader where
  headerSize := headerSize
  fileSize := fileSize
  keys := expectedKeys c
  origSeqLen := c.maxSeqLen
  hiddenAct := c.hiddenAct
  header := {
    archType := c.archType
    dim := c.dim
    nLayers := c.nLayers
    nHeads := c.nHeads
    headDim := c.headSize
    nKvHeads := c.nKvHeads
    nExperts := c.nExperts
    nActiveExperts := c.nActiveExperts
    seqLen := if 0 < maxSeqLen ∧ maxSeqLen < c.maxSeqLen then maxSeqLen else c.maxSeqLen
    hiddenDim := c.hiddenDim
    moeHiddenDim := c.moeHiddenDim.getD 0
    qDim := c.headSize * c.nHeads % 2 ^ 32
    kvDim := c.headSize * c.nKvHeads % 2 ^ 32
    vocabSize := c.vocabSize
    ropeType :=
      if c.archType = .qwen3 ∨ c.archType = .qwen3Moe then .falcon
      else (c.ropeScaling.map RopeScalingParams.ropeType).getD .llama
    weightType := c.weightsFloatType
    syncType := syncType }

/-! ### Keys -/

theorem setAll_append (h : LlmHeaderKeys) (pairs more : List (ℤ × ℤ)) :
    h.setAll (pairs ++ more) = (h.setAll pairs).bind fun h => h.setAll more := by
  induction pairs generalizing h with
  | nil => exact Eq.refl _
  | cons pair pairs ih =>
    rw [List.cons_append, LlmHeaderKeys.setAll, LlmHeaderKeys.setAll]
    cases h.set pair.1 pair.2 with
    | error text => exact Eq.refl _
    | ok h' => exact ih h'

theorem headerPairs_append (params more : List (String × ℤ)) :
    headerPairs (params ++ more) = headerPairs params ++ headerPairs more := List.filterMap_append

theorem toUint_of_lt {n : ℕ} (h : (n : ℤ) < 2147483648) : toUint n = n := by
  unfold toUint
  omega

/-- Keys that every configuration has. -/
def baseParams (c : Config) : List (String × ℤ) :=
  [("version", 0), ("arch_type", archNumber c.archType), ("hidden_act", actNumber c.hiddenAct),
    ("dim", c.dim), ("hidden_dim", c.hiddenDim), ("n_layers", c.nLayers), ("n_heads", c.nHeads),
    ("n_kv_heads", c.nKvHeads), ("weights_float_type", floatNumber c.weightsFloatType),
    ("max_seq_len", c.maxSeqLen), ("vocab_size", c.vocabSize), ("n_experts", c.nExperts),
    ("n_active_experts", c.nActiveExperts)]

/-- Keys of the scaling of the rotary embedding. -/
def ropeScalingParams : Option RopeScalingParams → List (String × ℤ)
  | none => []
  | some s => [("rope_scaling_factor", s.factor), ("rope_scaling_low_freq_factor", s.lowFreqFactor),
      ("rope_scaling_high_freq_factory", s.highFreqFactory),
      ("rope_scaling_orig_max_seq_len", s.origMaxSeqLen), ("rope_type", ropeNumber s.ropeType)]

/-- A key that may be missing. -/
def optionParam (name : String) (number : Option ℤ) : List (String × ℤ) :=
  (number.map fun number => (name, number)).toList

theorem params_eq (c : Config) : params c =
    baseParams c ++ optionParam "rope_theta" c.ropeTheta ++ ropeScalingParams c.ropeScaling ++
      optionParam "head_dim" (c.headDim.map fun n => (n : ℤ)) ++
      optionParam "norm_epsilon" (c.normEpsilon.map fun n => (n : ℤ)) ++
      optionParam "moe_hidden_dim" (c.moeHiddenDim.map fun n => (n : ℤ)) := by
  unfold params optionParam
  rw [Option.map_map, Option.map_map, Option.map_map]
  cases c.ropeScaling with
  | none => exact Eq.refl _
  | some s => exact Eq.refl _

section Keys

variable (h : LlmHeaderKeys)

theorem setAll_baseParams (c : Config) : LlmHeaderKeys.default.setAll (headerPairs (baseParams c)) =
    .ok { LlmHeaderKeys.default with
      version := 0
      archType := archNumber c.archType
      hiddenAct := actNumber c.hiddenAct
      dim := toUint c.dim
      hiddenDim := toUint c.hiddenDim
      nLayers := toUint c.nLayers
      nHeads := toUint c.nHeads
      nKvHeads := toUint c.nKvHeads
      weightType := floatNumber c.weightsFloatType
      seqLen := toUint c.maxSeqLen
      vocabSize := toUint c.vocabSize
      nExperts := toUint c.nExperts
      nActiveExperts := toUint c.nActiveExperts } := Eq.refl _

theorem setAll_ropeTheta (number : Option ℤ) :
    h.setAll (headerPairs (optionParam "rope_theta" number)) =
      .ok { h with ropeTheta := number.getD h.ropeTheta } := by
  cases number with
  | none => exact Eq.refl _
  | some number => exact Eq.refl _

theorem setAll_ropeScaling (scaling : Option RopeScalingParams) :
    h.setAll (headerPairs (ropeScalingParams scaling)) =
      .ok { h with
        ropeScalingFactor := (scaling.map RopeScalingParams.factor).getD h.ropeScalingFactor
        ropeScalingLowFreqFactor :=
          (scaling.map RopeScalingParams.lowFreqFactor).getD h.ropeScalingLowFreqFactor
        ropeScalingHighFreqFactory :=
          (scaling.map RopeScalingParams.highFreqFactory).getD h.ropeScalingHighFreqFactory
        ropeScalingOrigMaxSeqLen :=
          (scaling.map fun s => toUint s.origMaxSeqLen).getD h.ropeScalingOrigMaxSeqLen
        ropeType := (scaling.map fun s => ropeNumber s.ropeType).getD h.ropeType } := by
  cases scaling with
  | none => exact Eq.refl _
  | some s => exact Eq.refl _

theorem setAll_headDim (n : Option ℕ) :
    h.setAll (headerPairs (optionParam "head_dim" (n.map fun n => (n : ℤ)))) =
      .ok { h with headDim := (n.map fun n => toUint n).getD h.headDim } := by
  cases n with
  | none => exact Eq.refl _
  | some n => exact Eq.refl _

theorem setAll_normEpsilon {n : Option ℕ} (hn : ∀ e ∈ n, e = 5 ∨ e = 6) :
    h.setAll (headerPairs (optionParam "norm_epsilon" (n.map fun n => (n : ℤ)))) =
      .ok { h with normEpsilon := (n.map fun n => (n : ℤ)).getD h.normEpsilon } := by
  cases n with
  | none => exact Eq.refl _
  | some n =>
    cases hn n (Eq.refl _) with
    | inl hfive =>
      rw [hfive]
      exact Eq.refl _
    | inr hsix =>
      rw [hsix]
      exact Eq.refl _

theorem setAll_moeHiddenDim (n : Option ℕ) :
    h.setAll (headerPairs (optionParam "moe_hidden_dim" (n.map fun n => (n : ℤ)))) =
      .ok { h with moeHiddenDim := (n.map fun n => toUint n).getD h.moeHiddenDim } := by
  cases n with
  | none => exact Eq.refl _
  | some n => exact Eq.refl _

end Keys

/-- Sizes of a configuration that a header can hold. -/
structure Storable (c : Config) : Prop where
  /-- Sizes that every configuration has. -/
  base : ∀ n ∈ [c.dim, c.hiddenDim, c.nLayers, c.nHeads, c.nKvHeads, c.maxSeqLen, c.vocabSize,
    c.nExperts, c.nActiveExperts], (n : ℤ) < 2147483648
  /-- Values of a head. -/
  headDim : ∀ n ∈ c.headDim, (n : ℤ) < 2147483648
  /-- Values inside the feed-forward block of an expert. -/
  moeHiddenDim : ∀ n ∈ c.moeHiddenDim, (n : ℤ) < 2147483648

theorem toUint_option {n : Option ℕ} (h : ∀ m ∈ n, (m : ℤ) < 2147483648) (d : ℕ) :
    (n.map fun n => toUint n).getD d = n.getD d := by
  cases n with
  | none => exact Eq.refl _
  | some n => exact toUint_of_lt (h n (Eq.refl _))

/-- Pairs of a configuration are read as what they stand for. -/
theorem setAll_params {c : Config} (hs : Storable c) (hn : ∀ e ∈ c.normEpsilon, e = 5 ∨ e = 6) :
    LlmHeaderKeys.default.setAll (headerPairs (params c)) = .ok (expectedKeys c) := by
  rw [params_eq, headerPairs_append, headerPairs_append, headerPairs_append, headerPairs_append,
    headerPairs_append, setAll_append, setAll_append, setAll_append, setAll_append, setAll_append,
    setAll_baseParams]
  dsimp only [Except.bind]
  rw [setAll_ropeTheta]
  dsimp only
  rw [setAll_ropeScaling]
  dsimp only
  rw [setAll_headDim]
  dsimp only
  rw [setAll_normEpsilon _ hn]
  dsimp only
  rw [setAll_moeHiddenDim]
  have hbase := hs.base
  simp only [List.forall_mem_cons] at hbase
  obtain ⟨hdim, hhidden, hlayers, hheads, hkvHeads, hseq, hvocab, hexperts, hactive, _⟩ := hbase
  unfold expectedKeys
  dsimp only [LlmHeaderKeys.default]
  rw [toUint_of_lt hdim, toUint_of_lt hhidden, toUint_of_lt hlayers, toUint_of_lt hheads,
    toUint_of_lt hkvHeads, toUint_of_lt hseq, toUint_of_lt hvocab, toUint_of_lt hexperts,
    toUint_of_lt hactive, toUint_option hs.headDim, toUint_option hs.moeHiddenDim]

/-! ### The header -/

theorem pairs_baseParams (c : Config) : headerPairs (baseParams c) =
    [(0, 0), (1, archNumber c.archType), (11, actNumber c.hiddenAct), (2, (c.dim : ℤ)),
      (3, (c.hiddenDim : ℤ)), (4, (c.nLayers : ℤ)), (5, (c.nHeads : ℤ)), (6, (c.nKvHeads : ℤ)),
      (13, floatNumber c.weightsFloatType), (10, (c.maxSeqLen : ℤ)), (9, (c.vocabSize : ℤ)),
      (7, (c.nExperts : ℤ)), (8, (c.nActiveExperts : ℤ))] := Eq.refl _

/-- A header that was written holds all sizes. -/
theorem storable_of_write {c : Config} {header : List UInt8} (h : writeHeader (params c) = .ok header) :
    Storable c := by
  obtain ⟨start, size, data, _, hdata, _, _⟩ := packHeader_eq_ok h
  have hrange := packPairs_range hdata
  rw [params_eq, headerPairs_append, headerPairs_append, headerPairs_append, headerPairs_append,
    headerPairs_append, pairs_baseParams] at hrange
  constructor
  · have hbase := fun pair hmem => (hrange pair (List.mem_append_left _ (List.mem_append_left _
      (List.mem_append_left _ (List.mem_append_left _ (List.mem_append_left _ hmem)))))).2
    simp only [List.forall_mem_cons] at hbase ⊢
    simp_all
  · intro n hn
    cases hhead : c.headDim with
    | none =>
      rw [hhead] at hn
      cases hn
    | some m =>
      rw [hhead] at hn hrange
      cases hn
      exact (hrange (19, (n : ℤ)) (List.mem_append_left _ (List.mem_append_left _
        (List.mem_append_right _ List.mem_cons_self)))).2
  · intro n hn
    cases hmoe : c.moeHiddenDim with
    | none =>
      rw [hmoe] at hn
      cases hn
    | some m =>
      rw [hmoe] at hn hrange
      cases hn
      exact (hrange (21, (n : ℤ)) (List.mem_append_right _ List.mem_cons_self)).2

/-- A header of bytes ends where it says. -/
theorem writeHeader_length {c : Config} {header : List UInt8}
    (h : writeHeader (params c) = .ok header) :
    header.length = 8 + 8 * (headerPairs (params c)).length := by
  obtain ⟨start, size, data, hstart, hdata, hsize, hheader⟩ := packHeader_eq_ok h
  rw [hheader, List.length_append, List.length_append, pack_length hstart, pack_length hsize,
    packPairs_length hdata]
  omega

theorem floatOfNumber_floatNumber (type : NnFloatType) : floatOfNumber (floatNumber type) = .ok type := by
  cases type with
  | f32 => exact Eq.refl _
  | f16 => exact Eq.refl _
  | q40 => exact Eq.refl _
  | q80 => exact Eq.refl _

theorem archOfNumber_archNumber (type : LlmArchType) : archOfNumber (archNumber type) = .ok type := by
  cases type with
  | llama => exact Eq.refl _
  | qwen3 => exact Eq.refl _
  | qwen3Moe => exact Eq.refl _

theorem actOfNumber_actNumber (act : LlmHiddenAct) : actOfNumber (actNumber act) = .ok act := by
  cases act with
  | gelu => exact Eq.refl _
  | silu => exact Eq.refl _

theorem ropeOfNumber_ropeNumber (scaling : Option RopeScalingParams) :
    ropeOfNumber ((scaling.map fun s => ropeNumber s.ropeType).getD 0) =
      .ok ((scaling.map RopeScalingParams.ropeType).getD .llama) := by
  cases scaling with
  | none => exact Eq.refl _
  | some s =>
    rw [Option.map_some, Option.map_some, Option.getD_some, Option.getD_some]
    cases s.ropeType with
    | llama => exact Eq.refl _
    | falcon => exact Eq.refl _
    | llama3_1 => exact Eq.refl _

theorem finish_expectedKeys {c : Config} (hhead : 0 < c.headSize) (maxSeqLen : ℕ)
    (syncType : NnFloatType) (headerSize fileSize : ℕ) :
    (expectedKeys c).finish maxSeqLen syncType headerSize fileSize =
      .ok (expectedHeader c maxSeqLen syncType headerSize fileSize) := by
  have hdefined : (expectedKeys c).headDim = 0 → (expectedKeys c).nHeads ≠ 0 := by
    intro hzero hnone
    unfold Config.headSize at hhead
    cases hdim : c.headDim with
    | none =>
      have hheads : c.nHeads = 0 := hnone
      rw [hdim, hheads, Option.getD_none, Nat.div_zero] at hhead
      exact absurd hhead (Nat.lt_irrefl 0)
    | some n =>
      have hn : c.headDim.getD 0 = 0 := hzero
      rw [hdim] at hn hhead
      exact absurd hhead (Nat.not_lt.mpr (Nat.le_of_eq hn))
  have hsize : (if (expectedKeys c).headDim = 0 then (expectedKeys c).dim / (expectedKeys c).nHeads
      else (expectedKeys c).headDim) = c.headSize := by
    unfold expectedKeys Config.headSize at *
    cases hdim : c.headDim with
    | none => exact if_pos (Eq.refl _)
    | some n =>
      rw [hdim] at hhead
      exact if_neg (Nat.ne_of_gt hhead)
  unfold LlmHeaderKeys.finish
  rw [hsize]
  unfold expectedKeys at *
  dsimp only at *
  rw [floatOfNumber_floatNumber, archOfNumber_archNumber, actOfNumber_actNumber,
    ropeOfNumber_ropeNumber]
  dsimp only [bind, Except.bind]
  rw [require, if_pos hdefined]
  exact Eq.refl _

/-- The loader reads the header of a configuration, if tensors follow. -/
theorem loadLlmHeader_written {c : Config} {header : List UInt8}
    (h : writeHeader (params c) = .ok header) (hn : ∀ e ∈ c.normEpsilon, e = 5 ∨ e = 6)
    (hhead : 0 < c.headSize) (maxSeqLen : ℕ) (syncType : NnFloatType) {rest : List UInt8}
    (hrest : 8 ≤ rest.length) : loadLlmHeader (header ++ rest) maxSeqLen syncType =
      .ok (expectedHeader c maxSeqLen syncType header.length (header ++ rest).length) := by
  have hlength := writeHeader_length h
  obtain ⟨start, size, data, hstart, hdata, hsize, hheader⟩ := packHeader_eq_ok h
  have hkeys := setAll_params (storable_of_write h) hn
  have hpairs := packPairs_length hdata
  have hnumber : start.length * 2 + data.length = header.length := by
    rw [pack_length hstart, hpairs, hlength]
  rw [hnumber] at hsize
  have hword : toUint (unpack size) = header.length := by
    rw [unpack_pack hsize]
    exact toUint_of_lt (pack_eq_ok hsize).1.2
  have hfile : header ++ rest = start ++ (size ++ (data ++ rest)) := by
    rw [hheader, List.append_assoc, List.append_assoc]
  have hroom : header.length ≤ (data ++ rest).length := by
    rw [List.length_append, hpairs]
    omega
  have hcount : ((header.length - 8) / 4 + 1) / 2 = (headerPairs (params c)).length := by omega
  have hbuffer : (data ++ rest).take header.length = data ++ rest.take (header.length - data.length) := by
    rw [List.take_append, List.take_of_length_le (by omega)]
  unfold loadLlmHeader
  generalize (header ++ rest).length = fileSize
  rw [hfile, fread_append (pack_length hstart)]
  dsimp only [bind, Except.bind]
  rw [unpack_pack hstart]
  have hold : require ((0xA00ABCD : ℤ) ≠ 0xABCD00 ∧ (0xA00ABCD : ℤ) ≠ 0xABCD01)
      "Old model format is not supported" = .ok () := by decide
  have hmagic : require ((0xA00ABCD : ℤ) = 0xA00ABCD) "Unsupported magic number" = .ok () := by decide
  rw [hold]
  dsimp only
  rw [hmagic]
  dsimp only
  rw [fread_append (pack_length hsize)]
  dsimp only
  rw [hword, require, if_pos (by omega)]
  dsimp only
  rw [fread, if_pos hroom]
  dsimp only
  rw [hcount, hbuffer, unpackPairs_packPairs hdata, hkeys]
  dsimp only
  exact finish_expectedKeys hhead maxSeqLen syncType header.length fileSize

end LayerSkip.ModelFile
