import LayerSkip.LittleEndian
import LayerSkip.WeightDelivery
import Mathlib.Data.List.TakeWhile

/-!
# The stream of parts to a worker

The root writes a part as its name, its numbers and its data; a size of zero for the name
ends the stream. The worker reads one part after the other into a buffer that grows. Sizes
and offsets are words of 32 or of 64 bits, and the stream is right as long as no number is
cut off by the narrower ones.
-/

namespace LayerSkip.WeightStream

open NnTopology NnPipeline NnCore WeightLoader ByteCover LittleEndian

/-- Characters of a name before its terminator. -/
def chars (opName : String) : List UInt8 := opName.toUTF8.data.toList.takeWhile (· ≠ 0)

/-- What the root writes for a part. -/
def writeWeight (record : WeightRecord) : List UInt8 :=
  bytes 4 ((chars record.opName).length + 1) ++ ((chars record.opName ++ [0]) ++
    (bytes 4 record.opIndex ++ (bytes 8 record.offset ++ (bytes 8 record.weight.length ++
      record.weight))))

/-- What the root writes after the last part. -/
def finish : List UInt8 := bytes 4 0

/-- What the executor is asked to load. -/
structure WeightCall where
  /-- Name of the operation. -/
  opName : List UInt8
  /-- Index of the operation. -/
  opIndex : ℕ
  /-- First byte in the weight. -/
  offset : ℕ
  /-- Number of bytes. -/
  nBytes : ℕ
  /-- The bytes. -/
  weight : List UInt8
  deriving DecidableEq, Repr

/-- A part that the worker has read. -/
structure ReadWeight extends WeightCall where
  /-- Size of the buffer that its data were read into. -/
  room : ℕ
  deriving DecidableEq, Repr

/-- Take so many bytes from a socket. -/
def receive (size : ℕ) (input : List UInt8) : Except String (List UInt8 × List UInt8) :=
  if size ≤ input.length then .ok (input.take size, input.drop size) else .error "Socket closed"

/-- Read one part, none at the end. The size of the buffer is a 32-bit word and reading past
its end is an error here. -/
def readWeight (tempSize : ℕ) (input : List UInt8) :
    Except String (Option ReadWeight × List UInt8) := do
  let (nameSize, input) ← receive 4 input
  if value nameSize = 0 then
    return (none, input)
  else
    let (opName, input) ← receive (value nameSize) input
    let (opIndex, input) ← receive 4 input
    let (offset, input) ← receive 8 input
    let (nBytes, input) ← receive 8 input
    let room := allocate tempSize (value nBytes % 2 ^ 32)
    require (value nBytes ≤ room) "heap-buffer-overflow"
    let (temp, input) ← receive (value nBytes) input
    return (some ⟨⟨opName.takeWhile (· ≠ 0), value opIndex, value offset, value nBytes, temp⟩,
      room⟩, input)

theorem receive_eq_ok {size : ℕ} {input : List UInt8} {got : List UInt8 × List UInt8}
    (h : receive size input = .ok got) : got.2.length + size = input.length := by
  unfold receive at h
  split at h
  · injection h with h
    rw [← h, List.length_drop]
    omega
  · cases h

/-- A part takes bytes from the socket. -/
theorem readWeight_length {tempSize : ℕ} {input rest : List UInt8} {part : Option ReadWeight}
    (h : readWeight tempSize input = .ok (part, rest)) : rest.length < input.length := by
  obtain ⟨nameSize, hname, h⟩ := bind_eq_ok h
  have hfirst := receive_eq_ok hname
  dsimp only at h
  split at h
  · injection h with h
    injection h with _ h
    rw [← h]
    omega
  · obtain ⟨opName, hopName, h⟩ := bind_eq_ok h
    obtain ⟨opIndex, hopIndex, h⟩ := bind_eq_ok h
    obtain ⟨offset, hoffset, h⟩ := bind_eq_ok h
    obtain ⟨nBytes, hnBytes, h⟩ := bind_eq_ok h
    obtain ⟨u, _, h⟩ := bind_eq_ok h
    obtain ⟨temp, htemp, h⟩ := bind_eq_ok h
    injection h with h
    injection h with _ h
    have h1 := receive_eq_ok hopName
    have h2 := receive_eq_ok hopIndex
    have h3 := receive_eq_ok hoffset
    have h4 := receive_eq_ok hnBytes
    have h5 := receive_eq_ok htemp
    rw [← h]
    omega

/-- Read all parts. -/
def read (tempSize : ℕ) (input : List UInt8) : Except String (List ReadWeight) :=
  match _ : readWeight tempSize input with
  | .error text => .error text
  | .ok (none, _) => .ok []
  | .ok (some part, rest) => (read part.room rest).map (part :: ·)
termination_by input.length
decreasing_by exact readWeight_length (by assumption)

/-! ### What is read of what is written -/

/-- Numbers of a part fit the words they are written as. -/
structure Fits (record : WeightRecord) : Prop where
  /-- Size of the name with its terminator. -/
  name : (chars record.opName).length + 1 < 2 ^ 32
  /-- Index. -/
  index : record.opIndex < 2 ^ 32
  /-- Offset. -/
  offset : record.offset < 2 ^ 64
  /-- Number of bytes. -/
  size : record.weight.length < 2 ^ 64

/-- The call that a part is meant for. -/
def call (record : WeightRecord) : WeightCall :=
  ⟨chars record.opName, record.opIndex, record.offset, record.weight.length, record.weight⟩

theorem takeWhile_chars (opName : String) :
    (chars opName ++ [0]).takeWhile (· ≠ 0) = chars opName := by
  have hchars : ∀ c ∈ chars opName, decide (c ≠ 0) = true := by
    intro c hc
    unfold chars at hc
    have hne := List.mem_takeWhile_imp hc
    exact hne
  rw [List.takeWhile_append_of_pos hchars]
  exact List.append_nil _

theorem receive_append {size : ℕ} {data : List UInt8} (h : data.length = size) (rest : List UInt8) :
    receive size (data ++ rest) = .ok (data, rest) := by
  have hsize : size ≤ (data ++ rest).length := by
    rw [List.length_append]
    omega
  unfold receive
  rw [if_pos hsize, List.take_left' h, List.drop_left' h]

/-- A part is read back as it was written, if the buffer has room for it. -/
theorem readWeight_writeWeight {record : WeightRecord} (h : Fits record) (tempSize : ℕ)
    (rest : List UInt8) : readWeight tempSize (writeWeight record ++ rest) =
      if record.weight.length ≤ allocate tempSize (record.weight.length % 2 ^ 32) then
        .ok (some ⟨call record, allocate tempSize (record.weight.length % 2 ^ 32)⟩, rest)
      else .error "heap-buffer-overflow" := by
  have hname : value (bytes 4 ((chars record.opName).length + 1)) =
      (chars record.opName).length + 1 := value_bytes h.name
  have hchars : (chars record.opName ++ [0]).length = (chars record.opName).length + 1 :=
    List.length_append
  have hindex : value (bytes 4 record.opIndex) = record.opIndex := value_bytes h.index
  have hoffset : value (bytes 8 record.offset) = record.offset := value_bytes h.offset
  have hsize : value (bytes 8 record.weight.length) = record.weight.length := value_bytes h.size
  unfold readWeight writeWeight
  rw [List.append_assoc, receive_append (bytes_length _ _)]
  dsimp only [bind, Except.bind]
  rw [hname, if_neg (Nat.succ_ne_zero _), List.append_assoc, receive_append hchars]
  dsimp only
  rw [List.append_assoc, receive_append (bytes_length _ _)]
  dsimp only
  rw [List.append_assoc, receive_append (bytes_length _ _)]
  dsimp only
  rw [List.append_assoc, receive_append (bytes_length _ _)]
  dsimp only
  rw [hindex, hoffset, hsize, takeWhile_chars]
  unfold require
  by_cases hle : record.weight.length ≤ allocate tempSize (record.weight.length % 2 ^ 32)
  · rw [if_pos hle, if_pos hle]
    dsimp only
    rw [receive_append (Eq.refl _)]
    exact Eq.refl _
  · rw [if_neg hle, if_neg hle]

theorem readWeight_finish (tempSize : ℕ) : readWeight tempSize finish = .ok (none, []) := by
  exact Eq.refl _

/-- A 32-bit size is enough for a buffer exactly when the data are not longer than it can say. -/
theorem le_allocate_iff {tempSize nBytes : ℕ} (h : tempSize < 2 ^ 32) :
    nBytes ≤ allocate tempSize (nBytes % 2 ^ 32) ↔ nBytes < 2 ^ 32 := by
  have hword := Nat.mod_lt nBytes (Nat.two_pow_pos 32)
  unfold allocate
  constructor
  · intro hle
    split at hle
    · omega
    · omega
  · intro hlt
    rw [Nat.mod_eq_of_lt hlt]
    split
    · omega
    · omega

theorem allocate_lt {tempSize : ℕ} (h : tempSize < 2 ^ 32) (nBytes : ℕ) :
    allocate tempSize (nBytes % 2 ^ 32) < 2 ^ 32 := by
  have hword := Nat.mod_lt nBytes (Nat.two_pow_pos 32)
  unfold allocate
  split
  · exact hword
  · exact h

/-- Parts as they are read one after the other. -/
def readParts : ℕ → List WeightRecord → List ReadWeight
  | _, [] => []
  | tempSize, record :: records =>
    let room := allocate tempSize (record.weight.length % 2 ^ 32)
    ⟨call record, room⟩ :: readParts room records

theorem map_readParts (tempSize : ℕ) (records : List WeightRecord) :
    (readParts tempSize records).map ReadWeight.toWeightCall = records.map call := by
  induction records generalizing tempSize with
  | nil => exact Eq.refl _
  | cons record records ih =>
    unfold readParts
    rw [List.map_cons, List.map_cons, ih]

theorem read_of_part {tempSize : ℕ} {input rest : List UInt8} {part : ReadWeight}
    (h : readWeight tempSize input = .ok (some part, rest)) :
    read tempSize input = (read part.room rest).map (part :: ·) := by
  rw [read]
  split
  · simp_all
  · simp_all
  · simp_all

theorem read_of_error {tempSize : ℕ} {input : List UInt8} {text : String}
    (h : readWeight tempSize input = .error text) : read tempSize input = .error text := by
  rw [read]
  split
  · simp_all
  · simp_all
  · simp_all

/-- All parts are read just when a word can count the bytes of each. -/
theorem read_eq_ok_iff {records : List WeightRecord} (h : ∀ record ∈ records, Fits record)
    {tempSize : ℕ} (hroom : tempSize < 2 ^ 32) (parts : List ReadWeight) :
    read tempSize (records.flatMap writeWeight ++ finish) = .ok parts ↔
      (∀ record ∈ records, record.weight.length < 2 ^ 32) ∧ parts = readParts tempSize records := by
  induction records generalizing tempSize parts with
  | nil =>
    have hread : read tempSize finish = .ok [] := by
      rw [read, readWeight_finish]
    rw [List.flatMap_nil, List.nil_append, hread]
    constructor
    · intro hparts
      injection hparts with hparts
      exact ⟨fun _ hmem => absurd hmem List.not_mem_nil, hparts.symm⟩
    · intro hparts
      rw [hparts.2]
      exact Eq.refl _
  | cons record records ih =>
    have hfits := h record List.mem_cons_self
    have hrest (parts : List ReadWeight) := ih (fun r hr => h r (List.mem_cons_of_mem record hr))
      (allocate_lt hroom record.weight.length) parts
    have hread := readWeight_writeWeight hfits tempSize (records.flatMap writeWeight ++ finish)
    rw [List.flatMap_cons, List.append_assoc, List.forall_mem_cons]
    by_cases hlt : record.weight.length < 2 ^ 32
    · rw [if_pos ((le_allocate_iff hroom).mpr hlt)] at hread
      rw [read_of_part hread, readParts]
      dsimp only
      cases hrecords : read (allocate tempSize (record.weight.length % 2 ^ 32))
          (records.flatMap writeWeight ++ finish) with
      | error text =>
        have hnone := hrest (readParts (allocate tempSize (record.weight.length % 2 ^ 32)) records)
        rw [hrecords] at hnone
        constructor
        · intro hok
          cases hok
        · intro hok
          cases hnone.mpr ⟨hok.1.2, Eq.refl _⟩
      | ok rest =>
        have hall := (hrest rest).mp hrecords
        rw [← hall.2]
        constructor
        · intro hok
          injection hok with hok
          exact ⟨⟨hlt, hall.1⟩, hok.symm⟩
        · intro hok
          rw [hok.2]
          exact Eq.refl _
    · rw [if_neg (fun hle => hlt ((le_allocate_iff hroom).mp hle))] at hread
      rw [read_of_error hread]
      constructor
      · intro hok
        cases hok
      · intro hok
        exact absurd hok.1.1 hlt

/-! ### Weights that a slicer cuts -/

/-- A weight that a slicer cuts for the tensor ranks, one for each expert. A weight without
experts is that of a single one. -/
structure SlicedWeight (tpSize : ℕ) where
  /-- Number format. -/
  type : NnFloatType
  /-- Values of a row. -/
  n : ℕ
  /-- Rows. -/
  d : ℕ
  /-- Experts. -/
  nExperts : ℕ
  /-- What the slicer makes of it. -/
  slice : NnWeightSlice
  /-- Extents are words. -/
  words : n < 2 ^ 32 ∧ d < 2 ^ 32 ∧ nExperts < 2 ^ 32 ∧ tpSize < 2 ^ 32
  /-- There is a tensor rank. -/
  tpSize_pos : 0 < tpSize
  /-- There is an expert. -/
  nExperts_pos : 0 < nExperts
  /-- A slicer has accepted it. -/
  cut : (sliceRowMatmul type tpSize n d).map NnWeightSlice.row = .ok slice ∨
    (sliceColMatmul type tpSize n d).map NnWeightSlice.column = .ok slice
  /-- A 64-bit word can count its bytes. -/
  fits : getBytes type (nExperts * (n * d)) < 2 ^ 64

namespace SlicedWeight

variable {tpSize : ℕ} (w : SlicedWeight tpSize)

/-- Size of the weight of all experts on a node. -/
def weightSize : NnSize3D :=
  match w.slice with
  | .row slice => size3D w.type w.nExperts slice.n slice.d0
  | .column slice => size3D w.type w.nExperts slice.n0 slice.d

/-- Bytes of the part of a rank. -/
def partBytes : ℕ := fileBytes w.slice.sliceSize

/-- Where a byte of the part of a rank stands in the weight of an expert. -/
def partByte (tpRank i : ℕ) : ℕ :=
  match w.slice with
  | .row _ => tpRank * w.partBytes + i
  | .column slice => (NnWeightSlice.column slice).shardByte tpRank i

theorem cut_tpSize : w.slice.Cut ∧ w.slice.tpSize = tpSize := by
  cases w.cut with
  | inl hrow =>
    cases hslice : sliceRowMatmul w.type tpSize w.n w.d with
    | error text =>
      rw [hslice] at hrow
      cases hrow
    | ok slice =>
      rw [hslice] at hrow
      injection hrow with hrow
      have hfields := (sliceRowMatmul_ok hslice).2.2.2
      rw [← hrow]
      refine ⟨⟨w.type, tpSize, w.n, w.d, hslice⟩, ?_⟩
      rw [hfields]
      exact Eq.refl _
  | inr hcolumn =>
    cases hslice : sliceColMatmul w.type tpSize w.n w.d with
    | error text =>
      rw [hslice] at hcolumn
      cases hcolumn
    | ok slice =>
      rw [hslice] at hcolumn
      injection hcolumn with hcolumn
      have hfields := (sliceColMatmul_ok hslice).2.2.2
      rw [← hcolumn]
      refine ⟨⟨w.type, tpSize, w.n, w.d, hslice⟩, ?_⟩
      rw [hfields]
      exact Eq.refl _

theorem weightSize_sized : Sized w.weightSize := by
  unfold weightSize
  cases w.slice with
  | row slice => exact ⟨w.type, w.nExperts, slice.n, slice.d0, Eq.refl _⟩
  | column slice => exact ⟨w.type, w.nExperts, slice.n0, slice.d, Eq.refl _⟩

end SlicedWeight

/-- A call that hands out the part of an expert. Only a weight that is cut by columns can be
meant for another stage than that of its layer. -/
structure SlicedLoad (tpSize : ℕ) where
  /-- The weight. -/
  weight : SlicedWeight tpSize
  /-- Name of the operation. -/
  opName : String
  /-- The size of the name is a word. -/
  shortName : (chars opName).length + 1 < 2 ^ 32
  /-- Index of the operation. -/
  opIndex : ℕ
  /-- The index is a word. -/
  opIndex_lt : opIndex < 2 ^ 32
  /-- The expert. -/
  expertIndex : ℕ
  /-- There is such an expert. -/
  expertIndex_lt : expertIndex < weight.nExperts
  /-- The stage it is for, if not that of the layer. -/
  overridePpRank : Option ℕ

/-- First byte of the part of an expert as the root computes it. -/
def expertOffset (slice : NnWeightSlice) (expertIndex : ℕ) : ℕ :=
  expertIndex * slice.sliceSize.nBytes % 2 ^ 32

namespace SlicedLoad

variable {tpSize : ℕ} (l : SlicedLoad tpSize)

/-- The load. -/
def toLoad : WeightLoad :=
  ⟨l.opName, l.opIndex, l.expertIndex, .slices l.weight.slice l.overridePpRank⟩

/-- What the root intends for a tensor rank. -/
def intended (tpRank : ℕ) (data : ℕ → UInt8) : WeightCall where
  opName := chars l.opName
  opIndex := l.opIndex
  offset := l.expertIndex * l.weight.partBytes
  nBytes := l.weight.partBytes
  weight := (List.range l.weight.partBytes).map fun i => data (l.weight.partByte tpRank i)

/-- The root hands a part to a worker. -/
def Reaches (loader : NnRootWeightLoader) (nodeIndex : ℕ) : Prop :=
  l.toLoad.source.Reaches loader l.opIndex nodeIndex

instance (loader : NnRootWeightLoader) : DecidablePred (l.Reaches loader) := fun nodeIndex =>
  inferInstanceAs (Decidable (l.toLoad.source.Reaches loader l.opIndex nodeIndex))

end SlicedLoad

section Streams

variable {tpSize : ℕ} (loader : NnRootWeightLoader) (data : ℕ → UInt8)

/-- What the root intends for a node, from a byte of the file on. -/
def intendedCalls (nodeIndex : ℕ) : List (SlicedLoad tpSize) → ℕ → List WeightCall
  | [], _ => []
  | l :: stream, b =>
    (if l.Reaches loader nodeIndex then
      [l.intended (nodeIndex % tpSize) fun i => data (b + i)]
    else []) ++ intendedCalls nodeIndex stream (b + fileBytes l.weight.slice.size)

/-- All sizes, offsets and parts are what they should be. -/
structure Exact (stream : List (SlicedLoad tpSize)) (b : ℕ) : Prop where
  /-- Sizes of the weights, of their parts and of those on the nodes. -/
  sizes : ∀ l ∈ stream,
    ∀ size ∈ [l.weight.slice.size, l.weight.slice.sliceSize, l.weight.weightSize],
      size.length = values size ∧ size.nBytes = fileBytes size
  /-- Offsets of the experts. -/
  offsets : ∀ l ∈ stream,
    expertOffset l.weight.slice l.expertIndex = l.expertIndex * l.weight.partBytes
  /-- What the worker reads when the root has written all parts. -/
  parts : ∀ records last nodeIndex,
    loadTensors loader data (stream.map SlicedLoad.toLoad) b 0 = .ok (records, last) →
    0 < nodeIndex → nodeIndex < loader.nNodes →
    ∃ parts, read 0 ((recordsOf nodeIndex records).flatMap writeWeight ++ finish) = .ok parts ∧
      parts.map ReadWeight.toWeightCall = intendedCalls loader data nodeIndex stream b ∧
      ∀ part ∈ parts, part.nBytes ≤ part.room

/-- No number is cut off. -/
structure WithinWords (stream : List (SlicedLoad tpSize)) : Prop where
  /-- A 32-bit word can count the values of a weight and of those of all experts on a node. -/
  tensors : ∀ l ∈ stream, values l.weight.slice.size < 2 ^ 32 ∧ values l.weight.weightSize < 2 ^ 32
  /-- A 32-bit word can hold the offset of an expert. -/
  offsets : ∀ l ∈ stream, l.expertIndex * l.weight.partBytes < 2 ^ 32
  /-- A 32-bit word can count the bytes of a part for a worker, if parts can be copied. -/
  parts : (∀ l ∈ stream, l.toLoad.CanSplit loader) → ∀ l ∈ stream, ∀ nodeIndex, 0 < nodeIndex →
    nodeIndex < loader.nNodes → l.Reaches loader nodeIndex → l.weight.partBytes < 2 ^ 32

end Streams

/-! ### When the stream is right -/

/-- A size is right exactly when a word can count the values. -/
theorem sized_exact_iff {size : NnSize3D} (h : Sized size) :
    (size.length = values size ∧ size.nBytes = fileBytes size) ↔ values size < 2 ^ 32 := by
  constructor
  · intro hexact
    exact h.nBytes_eq_iff.mp hexact.2
  · intro hlt
    have hbytes := h.nBytes_eq_iff.mpr hlt
    obtain ⟨floatType, z, y, x, hsize⟩ := h
    rw [hsize] at hlt hbytes ⊢
    exact ⟨Nat.mod_eq_of_lt hlt, hbytes⟩

theorem getBytes_le (floatType : NnFloatType) (v : ℕ) : getBytes floatType v ≤ 4 * v := by
  cases floatType with
  | f32 | f16 | q40 | q80 =>
    simp only [getBytes, q80BlockSize]
    omega

theorem fileBytes_le (size : NnSize3D) : fileBytes size ≤ 4 * values size := by
  unfold fileBytes
  cases size.floatType with
  | none => exact Nat.zero_le _
  | some floatType => exact getBytes_le floatType _

section Loads

variable {tpSize : ℕ} {l : SlicedLoad tpSize}

theorem toLoad_proper (l : SlicedLoad tpSize) :
    l.toLoad.Proper tpSize ∧ Sized l.toLoad.source.size :=
  ⟨l.weight.cut_tpSize, l.weight.cut_tpSize.1.sized.1⟩

/-- Bytes of a part are counted right in a weight whose values a word can count. -/
theorem nBytes_eq_partBytes (h : values l.weight.slice.size < 2 ^ 32) :
    l.weight.slice.sliceSize.nBytes = l.weight.partBytes := by
  have hcut := l.weight.cut_tpSize.1
  exact hcut.sized.2.nBytes_eq_iff.mpr (Nat.lt_of_le_of_lt hcut.values_le h)

theorem shardByte_eq_partByte (h : values l.weight.slice.size < 2 ^ 32) (tpRank i : ℕ) :
    l.weight.slice.shardByte tpRank i = l.weight.partByte tpRank i := by
  have hbytes := nBytes_eq_partBytes h
  unfold SlicedWeight.partByte
  cases hslice : l.weight.slice with
  | row slice =>
    rw [hslice] at hbytes
    dsimp only
    rw [← hbytes]
    exact Eq.refl _
  | column slice => exact Eq.refl _

/-- The root hands out the part that it intends. -/
theorem call_record (h : values l.weight.slice.size < 2 ^ 32)
    (hoffset : l.expertIndex * l.weight.partBytes < 2 ^ 32) (tpRank : ℕ) (data : ℕ → UInt8) :
    call (l.toLoad.record tpRank data) = l.intended tpRank data := by
  have hbytes := nBytes_eq_partBytes h
  have hstart : pieceStart l.weight.slice.sliceSize.nBytes (2 ^ 32) l.expertIndex =
      l.expertIndex * l.weight.partBytes := by
    rw [hbytes]
    exact Nat.mod_eq_of_lt hoffset
  have hdata : ((List.range l.weight.slice.sliceSize.nBytes).map fun i =>
      data (l.weight.slice.shardByte tpRank i)) =
        (List.range l.weight.partBytes).map fun i => data (l.weight.partByte tpRank i) := by
    rw [hbytes]
    exact List.map_congr_left fun i _ => congrArg data (shardByte_eq_partByte h tpRank i)
  unfold call WeightLoad.record SlicedLoad.intended SlicedLoad.toLoad WeightSource.partSize
    WeightSource.shardByte
  dsimp only
  rw [hstart, hdata, List.length_map, List.length_range]

theorem record_fits (h : values l.weight.slice.size < 2 ^ 32)
    (hoffset : l.expertIndex * l.weight.partBytes < 2 ^ 32) (tpRank : ℕ) (data : ℕ → UInt8) :
    Fits (l.toLoad.record tpRank data) := by
  have hcall := call_record h hoffset tpRank data
  have hvalues := Nat.lt_of_le_of_lt l.weight.cut_tpSize.1.values_le h
  have hbytes : l.weight.partBytes ≤ 4 * values l.weight.slice.sliceSize := fileBytes_le _
  have hsize : (l.toLoad.record tpRank data).weight.length = l.weight.partBytes :=
    congrArg WeightCall.nBytes hcall
  have hstart : (l.toLoad.record tpRank data).offset = l.expertIndex * l.weight.partBytes :=
    congrArg WeightCall.offset hcall
  constructor
  · exact l.shortName
  · exact l.opIndex_lt
  · omega
  · omega

end Loads

section Streams

variable {tpSize : ℕ} {loader : NnRootWeightLoader} {data : ℕ → UInt8}
  {stream : List (SlicedLoad tpSize)}

/-- Parts for a node when no number of the root is cut off. -/
theorem records_intended (h : ∀ l ∈ stream, values l.weight.slice.size < 2 ^ 32 ∧
      l.expertIndex * l.weight.partBytes < 2 ^ 32) (nodeIndex b : ℕ) :
    let records := ((placed b (stream.map SlicedLoad.toLoad)).filter fun at0 =>
      at0.2.source.Reaches loader at0.2.opIndex nodeIndex).map fun at0 =>
        at0.2.record (nodeIndex % tpSize) fun i => data (at0.1 + i)
    records.map call = intendedCalls loader data nodeIndex stream b ∧
      ∀ record ∈ records, Fits record := by
  induction stream generalizing b with
  | nil => exact ⟨Eq.refl _, fun _ hmem => absurd hmem List.not_mem_nil⟩
  | cons l stream ih =>
    have hhead := h l List.mem_cons_self
    have hcall := call_record hhead.1 hhead.2 (nodeIndex % tpSize) fun i => data (b + i)
    have hfits := record_fits hhead.1 hhead.2 (nodeIndex % tpSize) fun i => data (b + i)
    have hrest := ih (fun l' hl' => h l' (List.mem_cons_of_mem l hl'))
      (b + fileBytes l.weight.slice.size)
    dsimp only at hrest ⊢
    rw [List.map_cons, placed, intendedCalls]
    by_cases hreach : l.Reaches loader nodeIndex
    · rw [List.filter_cons_of_pos (by exact decide_eq_true hreach), if_pos hreach, List.map_cons,
        List.map_cons]
      constructor
      · exact congrArg₂ List.cons hcall hrest.1
      · exact List.forall_mem_cons.mpr ⟨hfits, hrest.2⟩
    · have hskip : ¬ decide (l.Reaches loader nodeIndex) = true := fun hyes =>
        hreach (of_decide_eq_true hyes)
      rw [List.filter_cons_of_neg (by exact hskip), if_neg hreach]
      exact hrest

theorem mem_intendedCalls (data : ℕ → UInt8) {l : SlicedLoad tpSize} (hl : l ∈ stream)
    {nodeIndex : ℕ} (hreach : l.Reaches loader nodeIndex) (b : ℕ) :
    ∃ c ∈ intendedCalls loader data nodeIndex stream b, c.nBytes = l.weight.partBytes := by
  induction stream generalizing b with
  | nil => exact absurd hl List.not_mem_nil
  | cons l' stream ih =>
    rw [intendedCalls]
    cases List.mem_cons.mp hl with
    | inl heq =>
      rw [← heq, if_pos hreach]
      exact ⟨_, List.mem_append_left _ List.mem_cons_self, Eq.refl _⟩
    | inr hmem =>
      obtain ⟨c, hc, hbytes⟩ := ih hmem (b + fileBytes l'.weight.slice.size)
      exact ⟨c, List.mem_append_right _ hc, hbytes⟩

theorem of_mem_intendedCalls {nodeIndex b : ℕ} {c : WeightCall}
    (h : c ∈ intendedCalls loader data nodeIndex stream b) :
    ∃ l ∈ stream, l.Reaches loader nodeIndex ∧ c.nBytes = l.weight.partBytes := by
  induction stream generalizing b with
  | nil => exact absurd h List.not_mem_nil
  | cons l stream ih =>
    rw [intendedCalls] at h
    cases List.mem_append.mp h with
    | inl hhead =>
      by_cases hreach : l.Reaches loader nodeIndex
      · rw [if_pos hreach] at hhead
        rw [List.mem_singleton.mp hhead]
        exact ⟨l, List.mem_cons_self, hreach, Eq.refl _⟩
      · rw [if_neg hreach] at hhead
        exact absurd hhead List.not_mem_nil
    | inr hrest =>
      obtain ⟨l', hl', hcall⟩ := ih hrest
      exact ⟨l', List.mem_cons_of_mem l hl', hcall⟩

/-- Parts for a worker, when all of them can be copied and no number of the root is cut off. -/
theorem records_of_worker (data : ℕ → UInt8) (h : ∀ l ∈ stream,
      values l.weight.slice.size < 2 ^ 32 ∧ l.expertIndex * l.weight.partBytes < 2 ^ 32)
    (hsplit : ∀ l ∈ stream, l.toLoad.CanSplit loader) (b : ℕ) {nodeIndex : ℕ}
    (hworker : 0 < nodeIndex) (hlt : nodeIndex < loader.nNodes) :
    ∃ records last, loadTensors loader data (stream.map SlicedLoad.toLoad) b 0 = .ok (records, last) ∧
      (recordsOf nodeIndex records).map call = intendedCalls loader data nodeIndex stream b ∧
      ∀ record ∈ recordsOf nodeIndex records, Fits record := by
  have hproper : ∀ load ∈ stream.map SlicedLoad.toLoad,
      load.Proper tpSize ∧ Sized load.source.size := List.forall_mem_map.mpr fun l _ => toLoad_proper l
  have hvalues : ∀ load ∈ stream.map SlicedLoad.toLoad, values load.source.size < 2 ^ 32 :=
    List.forall_mem_map.mpr fun l hl => (h l hl).1
  have hsplit' : ∀ load ∈ stream.map SlicedLoad.toLoad, load.CanSplit loader :=
    List.forall_mem_map.mpr hsplit
  obtain ⟨last, hload⟩ := loadTensors_of_canSplit data (by omega) (by omega) hproper hvalues hsplit'
    b 0
  have hrecords : recordsOf nodeIndex (allParts loader tpSize ⟨b, 0, data⟩
      (stream.map SlicedLoad.toLoad)) = _ := recordsOf_allParts hlt _
  refine ⟨_, last, hload, ?_⟩
  unfold allParts at hrecords
  dsimp only at hrecords
  rw [hrecords]
  exact records_intended h nodeIndex b

/-- Parts that are read fit the buffer. -/
theorem nBytes_le_room {records : List WeightRecord} {tempSize : ℕ} (hroom : tempSize < 2 ^ 32)
    (h : ∀ record ∈ records, record.weight.length < 2 ^ 32) :
    ∀ part ∈ readParts tempSize records, part.nBytes ≤ part.room := by
  induction records generalizing tempSize with
  | nil => exact fun _ hmem => absurd hmem List.not_mem_nil
  | cons record records ih =>
    have hrest := ih (allocate_lt hroom record.weight.length)
      fun r hr => h r (List.mem_cons_of_mem record hr)
    rw [readParts]
    intro part hpart
    cases List.mem_cons.mp hpart with
    | inl heq =>
      rw [heq]
      exact (le_allocate_iff hroom).mpr (h record List.mem_cons_self)
    | inr hmem => exact hrest part hmem

end Streams

/-- A weight of 128 experts on two tensor ranks. -/
def expertsWeight : SlicedWeight 2 where
  type := .f32
  n := 4096
  d := 8192
  nExperts := 128
  slice := .row ⟨.f32, 2, 4096, 4096, size2D .f32 4096 8192, size2D .f32 4096 4096⟩
  words := by decide
  tpSize_pos := by decide
  nExperts_pos := by decide
  cut := Or.inl (Eq.refl _)
  fits := by decide

/-- The call for the 65th expert. -/
def expertLoad : SlicedLoad 2 where
  weight := expertsWeight
  opName := "block_matmul_w1"
  shortName := by decide
  opIndex := 0
  opIndex_lt := by decide
  expertIndex := 64
  expertIndex_lt := by decide
  overridePpRank := none

end LayerSkip.WeightStream
