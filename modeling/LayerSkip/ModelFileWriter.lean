import LayerSkip.ModelFile
import Mathlib.Data.Vector.Basic

/-!
# Tensors of a model file

The converter makes a plan of tensors from the configuration and looks for each of them in the
files of the checkpoint. It knows the names of a file once it has loaded it; it loads the last
file before all others. A tensor is written value by value or block by block.
-/

namespace LayerSkip.ModelFile

open NnPipeline NnCore LlmGraph KeyValueHeader

/-- A tensor with the value at each place of its rows one after the other. -/
structure Tensor (Value : Type) where
  /-- Extents. -/
  shape : List ℕ
  /-- Values. -/
  data : ℕ → Value

/-- Number of values. -/
def Tensor.numel {Value : Type} (t : Tensor Value) : ℕ := t.shape.prod

/-- How values are written: one by one, or 32 in a block. -/
structure Numbers (Value : Type) where
  /-- `struct.pack('f')`. -/
  f32 : Value → List.Vector UInt8 4
  /-- `struct.pack('e')`. -/
  f16 : Value → List.Vector UInt8 2
  /-- A scale and 16 pairs. -/
  q40 : (ℕ → Value) → List.Vector UInt8 18
  /-- A scale and 32 numbers. -/
  q80 : (ℕ → Value) → List.Vector UInt8 34

section Tensors

variable {Value : Type} (numbers : Numbers Value)

/-- Values from a place on, in pieces of so many. -/
def chunks (chunkSize count : ℕ) : List (List ℕ) :=
  (List.range ((count + (chunkSize - 1)) / chunkSize)).map fun i =>
    ((List.range count).drop (i * chunkSize)).take chunkSize

/-- Write values as floats, 10000 at a time. -/
def writeF32Tensor (t : Tensor Value) : List UInt8 :=
  (chunks 10000 t.numel).flatMap fun chunk => chunk.flatMap fun i => (numbers.f32 (t.data i)).toList

/-- Write values as half floats. -/
def writeF16Tensor (t : Tensor Value) : List UInt8 :=
  (List.range t.numel).flatMap fun i => (numbers.f16 (t.data i)).toList

/-- Write blocks of 32 values. -/
def writeQuantizedTensor {size : ℕ} (block : (ℕ → Value) → List.Vector UInt8 size)
    (t : Tensor Value) : Except String (List UInt8) := do
  require (t.numel % q80BlockSize = 0) "AssertionError"
  return (List.range (t.numel / q80BlockSize)).flatMap fun group =>
    (block fun i => t.data (group * q80BlockSize + i)).toList

/-- Write a tensor. -/
def writeTensor (t : Tensor Value) : NnFloatType → Except String (List UInt8)
  | .f16 => .ok (writeF16Tensor numbers t)
  | .f32 => .ok (writeF32Tensor numbers t)
  | .q40 => writeQuantizedTensor numbers.q40 t
  | .q80 => writeQuantizedTensor numbers.q80 t

/-- The rows of each head, the first half in between the second. -/
def permute (t : Tensor Value) (nHeads nKvHeads : ℕ) : Except String (Tensor Value) := do
  let nHeads := if nHeads ≠ nKvHeads then nKvHeads else nHeads
  match t.shape with
  | [] => .error "tuple index out of range"
  | rows :: extents => do
    require (nHeads ≠ 0) "integer division or modulo by zero"
    let half := rows / nHeads / 2
    require (nHeads * 2 * half * extents.prod = t.numel) "shape is invalid for input"
    let columns := extents.prod
    return ⟨t.shape, fun i =>
      let row := i / columns
      t.data ((row / (2 * half) * (2 * half) + row % 2 * half + row % (2 * half) / 2) * columns +
        i % columns)⟩

end Tensors

/-- What is done with a tensor before it is written. -/
inductive Transform
  | q
  | k
  deriving DecidableEq, Repr

/-- An entry of the plan. -/
structure PlanItem where
  /-- Format in the file. -/
  floatType : NnFloatType
  /-- Transformation, if any. -/
  transform : Option Transform
  /-- Names that are looked for, the first one first. -/
  lookup : List String
  deriving DecidableEq, Repr

/-- Entries of the experts of a layer. -/
def planExperts (wt : NnFloatType) (l nExperts : ℕ) : List PlanItem :=
  ⟨.f32, none, [s!"model.layers.{l}.mlp.gate.weight"]⟩ ::
    (List.range nExperts).flatMap fun e =>
      [⟨wt, none, [s!"model.layers.{l}.mlp.experts.{e}.gate_proj.weight"]⟩,
        ⟨wt, none, [s!"model.layers.{l}.mlp.experts.{e}.down_proj.weight"]⟩,
        ⟨wt, none, [s!"model.layers.{l}.mlp.experts.{e}.up_proj.weight"]⟩]

/-- Entries of a layer. -/
def planLayer (c : Config) (l : ℕ) : List PlanItem :=
  [⟨c.weightsFloatType, some .q, [s!"model.layers.{l}.self_attn.q_proj.weight"]⟩,
    ⟨c.weightsFloatType, some .k, [s!"model.layers.{l}.self_attn.k_proj.weight"]⟩,
    ⟨c.weightsFloatType, none, [s!"model.layers.{l}.self_attn.v_proj.weight"]⟩,
    ⟨c.weightsFloatType, none, [s!"model.layers.{l}.self_attn.o_proj.weight"]⟩] ++
  (if 0 < c.nExperts then planExperts c.weightsFloatType l c.nExperts
  else
    [⟨c.weightsFloatType, none, [s!"model.layers.{l}.mlp.gate_proj.weight"]⟩,
      ⟨c.weightsFloatType, none, [s!"model.layers.{l}.mlp.down_proj.weight"]⟩,
      ⟨c.weightsFloatType, none, [s!"model.layers.{l}.mlp.up_proj.weight"]⟩]) ++
  (if c.archType = .qwen3 ∨ c.archType = .qwen3Moe then
    [⟨.f32, none, [s!"model.layers.{l}.self_attn.q_norm.weight"]⟩,
      ⟨.f32, none, [s!"model.layers.{l}.self_attn.k_norm.weight"]⟩]
  else []) ++
  [⟨.f32, none, [s!"model.layers.{l}.input_layernorm.weight"]⟩,
    ⟨.f32, none, [s!"model.layers.{l}.post_attention_layernorm.weight"]⟩]

/-- Entries before the last one. -/
def planBody (c : Config) : List PlanItem :=
  [⟨.f32, none, ["model.embed_tokens.weight"]⟩] ++ (List.range c.nLayers).flatMap (planLayer c) ++
    [⟨.f32, none, ["model.norm.weight"]⟩]

/-- The entry of the logits. -/
def planLogits (c : Config) : PlanItem :=
  ⟨c.weightsFloatType, none, ["lm_head.weight", "model.embed_tokens.weight"]⟩

/-- The plan. -/
def preparePlan (c : Config) : List PlanItem := planBody c ++ [planLogits c]

/-- A file of the checkpoint. -/
abbrev SafetensorsFile (Value : Type) : Type := String → Option (Tensor Value)

/-- State of the converter. -/
structure Processor where
  /-- The loaded file. -/
  currentModelIndex : Option ℕ
  /-- File of each name that is known. -/
  layerMap : String → Option ℕ

/-- A tensor in the file. -/
structure Written where
  /-- Name in the checkpoint. -/
  layerName : String
  /-- Format. -/
  floatType : NnFloatType
  /-- Bytes. -/
  bytes : List UInt8
  deriving DecidableEq, Repr

section Processors

variable {Value : Type} (numbers : Numbers Value) (c : Config) (files : List (SafetensorsFile Value))

/-- Load a file and learn its names. -/
def loadModel (p : Processor) (index : ℕ) : Except String Processor :=
  if p.currentModelIndex = some index then .ok p
  else
    match files[index]? with
    | none => .error "list index out of range"
    | some file => .ok ⟨some index, fun layerName =>
        if (file layerName).isSome then some index else p.layerMap layerName⟩

/-- Rearrange the rows of queries and keys of a llama. -/
def applyTransform (t : Tensor Value) : Option Transform → Except String (Tensor Value)
  | none => .ok t
  | some .q => if c.archType = .llama then permute t c.nHeads c.nHeads else .ok t
  | some .k => if c.archType = .llama then permute t c.nHeads c.nKvHeads else .ok t

/-- The file in which the converter looks for an entry. -/
def modelIndexOf (p : Processor) (item : PlanItem) : ℕ :=
  match p.currentModelIndex with
  | none => 0
  | some currentModelIndex =>
    match item.lookup.findSome? p.layerMap with
    | none => currentModelIndex + 1
    | some modelIndex => modelIndex

/-- The tensor of the first name that the loaded file has. -/
def findTensor (file : SafetensorsFile Value) (lookup : List String) :
    Option (String × Tensor Value) :=
  lookup.findSome? fun layerName => (file layerName).map fun tensor => (layerName, tensor)

/-- Write one entry. -/
def writeItem (p : Processor) (item : PlanItem) : Except String (Processor × Written) := do
  let modelIndex := modelIndexOf p item
  let p ← loadModel files p modelIndex
  match files[modelIndex]?.bind fun file => findTensor file item.lookup with
  | none => .error ("Layer " ++ item.lookup.headD "" ++ " not found")
  | some (layerName, tensor) => do
    let tensor ← applyTransform c tensor item.transform
    let bytes ← writeTensor numbers tensor item.floatType
    return (p, ⟨layerName, item.floatType, bytes⟩)

/-- Write entries one after the other. -/
def writeItems (p : Processor) : List PlanItem → Except String (Processor × List Written)
  | [] => .ok (p, [])
  | item :: items => do
    let (p, written) ← writeItem numbers c files p item
    let (p, rest) ← writeItems p items
    return (p, written :: rest)

/-- Write all tensors. The last file is loaded for its names and given back. -/
def Processor.write : Except String (List Written) := do
  require (files ≠ []) "Not found any model file"
  let p ← loadModel files ⟨none, fun _ => none⟩ (files.length - 1)
  let (_, written) ← writeItems numbers c files ⟨none, p.layerMap⟩ (preparePlan c)
  return written

end Processors

/-- What the converter makes of a checkpoint. -/
structure Converted where
  /-- Configuration. -/
  config : Config
  /-- Bytes of the header. -/
  header : List UInt8
  /-- Tensors after it. -/
  written : List Written
  deriving DecidableEq, Repr

/-- The model file. -/
def Converted.file (c : Converted) : List UInt8 := c.header ++ c.written.flatMap Written.bytes

/-- Convert a checkpoint. -/
def convert {Value : Type} (numbers : Numbers Value) (hf : HfConfig) (weightsFloatType : String)
    (files : List (SafetensorsFile Value)) : Except String Converted := do
  let weightsFloatType ← parseFloatType weightsFloatType
  let config ← loadConfig hf weightsFloatType
  let header ← writeHeader (params config)
  let written ← Processor.write numbers config files
  return ⟨config, header, written⟩

end LayerSkip.ModelFile
