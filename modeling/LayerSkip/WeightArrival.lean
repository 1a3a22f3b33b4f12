import LayerSkip.WeightDelivery

/-!
# What a node does with its parts

A node finds the operation of a part by name and index, which no two operations
share. The bytes of a weight are covered once when the parts that arrive for its
operation fill it.
-/

namespace LayerSkip.WeightLoader

open NnTopology NnPipeline NnCore LlmGraph ByteCover

section Apply

variable {ops : List NnOpConfig}

/-- Name and index of an operation. -/
def opKey (op : NnOpConfig) : String × ℕ := (op.name, op.index)

/-- Name and index of the operation of a part. -/
def recordKey (record : WeightRecord) : String × ℕ := (record.opName, record.opIndex)

/-- Name and index of the operation of a tensor. -/
def loadKey (load : WeightLoad) : String × ℕ := (load.opName, load.opIndex)

/-- A part as it is copied. -/
def applied (ops : List NnOpConfig) (record : WeightRecord) : Option Applied :=
  (locate ops record).map fun op => ⟨op.2, record.offset, record.weight⟩

/-- Names and indices lead to one operation. -/
theorem locate_eq_some_iff (hkeys : (ops.map opKey).Nodup) {record : WeightRecord}
    {op : NnOpConfig} {position : ℕ} : locate ops record = some (op, position) ↔
      ops[position]? = some op ∧ opKey op = recordKey record := by
  unfold locate
  constructor
  · intro h
    have hmem := List.mem_zipIdx_iff_getElem?.mp (List.mem_of_find?_eq_some h)
    have hhit := List.find?_some h
    have hkey := of_decide_eq_true hhit
    exact ⟨hmem, Prod.ext hkey.2 hkey.1⟩
  · intro hboth
    obtain ⟨hop, hkey⟩ := hboth
    have hmem : (op, position) ∈ ops.zipIdx := List.mem_zipIdx_iff_getElem?.mpr hop
    have hhit : op.index = record.opIndex ∧ op.name = record.opName :=
      ⟨congrArg Prod.snd hkey, congrArg Prod.fst hkey⟩
    cases hfind : ops.zipIdx.find? fun op =>
        op.1.index = record.opIndex ∧ op.1.name = record.opName with
    | none => exact absurd (decide_eq_true hhit) (List.find?_eq_none.mp hfind _ hmem)
    | some other =>
      have hother := List.mem_zipIdx_iff_getElem?.mp (List.mem_of_find?_eq_some hfind)
      have hhit' := List.find?_some hfind
      have hkey' := of_decide_eq_true hhit'
      have hsame : (ops.map opKey)[other.2]? = (ops.map opKey)[position]? := by
        rw [List.getElem?_map, List.getElem?_map, hother, hop, Option.map_some, Option.map_some, hkey]
        exact congrArg some (Prod.ext hkey'.2 hkey'.1)
      have hlt : other.2 < (ops.map opKey).length := by
        rw [List.length_map]
        exact (List.getElem?_eq_some_iff.mp hother).1
      have hposition : other.2 = position := (List.getElem?_inj hlt hkeys).mp hsame
      rw [hposition, hop] at hother
      injection hother with hother
      exact congrArg some (Prod.ext hother.symm hposition)

/-- Parts of operations the node has end inside their weights. -/
def EndInside (ops : List NnOpConfig) (records : List WeightRecord) : Prop :=
  ∀ record ∈ records, ∀ op ∈ ops, opKey op = recordKey record →
    record.offset + record.weight.length ≤ op.weightSize.nBytes

/-- A part is copied when it ends inside the weight. -/
theorem loadWeight_eq_ok_iff (hkeys : (ops.map opKey).Nodup) {record : WeightRecord}
    {result : Option Applied} : loadWeight ops record = .ok result ↔
      EndInside ops [record] ∧ result = applied ops record := by
  have hinside : EndInside ops [record] ↔ ∀ op position, locate ops record = some (op, position) →
      record.offset + record.weight.length ≤ op.weightSize.nBytes := by
    constructor
    · intro h op position hop
      have hfound := (locate_eq_some_iff hkeys).mp hop
      exact h record (List.mem_singleton_self record) op (List.mem_of_getElem? hfound.1) hfound.2
    · intro h r hr op hop hkey
      have heq := List.mem_singleton.mp hr
      rw [heq] at hkey ⊢
      obtain ⟨position, hposition⟩ := List.getElem?_of_mem hop
      exact h op position ((locate_eq_some_iff hkeys).mpr ⟨hposition, hkey⟩)
  rw [hinside]
  unfold loadWeight applied
  cases hlocate : locate ops record with
  | none =>
    dsimp only [Option.map_none]
    constructor
    · intro h
      injection h with h
      refine ⟨?_, h.symm⟩
      intro op position hop
      cases hop
    · intro hboth
      obtain ⟨_, h⟩ := hboth
      rw [h]
  | some found =>
    obtain ⟨op, position⟩ := found
    dsimp only [Option.map_some]
    constructor
    · intro h
      obtain ⟨u, hcheck, h⟩ := bind_eq_ok h
      injection h with h
      refine ⟨?_, h.symm⟩
      intro op' position' hsame
      injection hsame with hsame
      injection hsame with hop _
      exact hop ▸ require_eq_ok hcheck
    · intro hboth
      obtain ⟨hend, h⟩ := hboth
      rw [require, if_pos (hend op position (Eq.refl _)), h]
      exact Eq.refl _

theorem endInside_cons {record : WeightRecord} {records : List WeightRecord} :
    EndInside ops (record :: records) ↔ EndInside ops [record] ∧ EndInside ops records := by
  unfold EndInside
  rw [List.forall_mem_cons, List.forall_mem_singleton]

/-- Parts are copied one after the other. -/
theorem loadWeights_cons (record : WeightRecord) (records : List WeightRecord) :
    loadWeights ops (record :: records) = do
      let first ← loadWeight ops record
      let rest ← loadWeights ops records
      return first.toList ++ rest := by
  unfold loadWeights
  rw [List.mapM_cons]
  cases loadWeight ops record with
  | error text => exact Eq.refl _
  | ok first =>
    cases hrest : records.mapM (loadWeight ops) with
    | error text =>
      dsimp only [bind, Except.bind]
    | ok rest => exact Eq.refl _

/-- Parts are copied when all of them end inside their weights. -/
theorem loadWeights_eq_ok_iff (hkeys : (ops.map opKey).Nodup) {records : List WeightRecord}
    {result : List Applied} : loadWeights ops records = .ok result ↔
      EndInside ops records ∧ result = records.filterMap (applied ops) := by
  induction records generalizing result with
  | nil =>
    constructor
    · intro h
      injection h with h
      exact ⟨fun _ hmem => absurd hmem List.not_mem_nil, h.symm⟩
    · intro hboth
      obtain ⟨_, h⟩ := hboth
      rw [h]
      exact Eq.refl _
  | cons record records ih =>
    rw [loadWeights_cons, endInside_cons]
    constructor
    · intro h
      obtain ⟨first, hfirst, h⟩ := bind_eq_ok h
      obtain ⟨rest, hrest, h⟩ := bind_eq_ok h
      injection h with h
      obtain ⟨hone, hresult⟩ := (loadWeight_eq_ok_iff hkeys).mp hfirst
      obtain ⟨hall, hresults⟩ := ih.mp hrest
      refine ⟨⟨hone, hall⟩, ?_⟩
      rw [← h, hresult, hresults, List.filterMap_cons]
      cases applied ops record <;> exact Eq.refl _
    · intro hboth
      obtain ⟨⟨hone, hall⟩, h⟩ := hboth
      rw [(loadWeight_eq_ok_iff hkeys).mpr ⟨hone, Eq.refl _⟩, ih.mpr ⟨hall, Eq.refl _⟩, h,
        List.filterMap_cons]
      cases applied ops record <;> exact Eq.refl _

/-- A worker has room for every part that a word can count. -/
theorem readWeights_eq_ok_iff {records : List WeightRecord} {tempSize : ℕ} {result : List Applied}
    (htemp : tempSize < 2 ^ 32) : readWeights ops records tempSize = .ok result ↔
      (∀ record ∈ records, record.weight.length < 2 ^ 32) ∧
      loadWeights ops records = .ok result := by
  induction records generalizing tempSize result with
  | nil =>
    constructor
    · intro h
      exact ⟨fun _ hmem => absurd hmem List.not_mem_nil, h⟩
    · intro h
      exact h.2
  | cons record records ih =>
    have hmod : record.weight.length % 2 ^ 32 < 2 ^ 32 := Nat.mod_lt _ (by omega)
    have hroom : allocate tempSize (record.weight.length % 2 ^ 32) < 2 ^ 32 := by
      unfold allocate
      split <;> omega
    have hfits : record.weight.length ≤ allocate tempSize (record.weight.length % 2 ^ 32) ↔
        record.weight.length < 2 ^ 32 := by
      constructor
      · intro h
        omega
      · intro h
        have hle := le_allocate tempSize (record.weight.length % 2 ^ 32)
        rw [Nat.mod_eq_of_lt h] at hle ⊢
        exact hle
    rw [readWeights, loadWeights_cons, List.forall_mem_cons]
    constructor
    · intro h
      obtain ⟨u, hcheck, h⟩ := bind_eq_ok h
      obtain ⟨first, hfirst, h⟩ := bind_eq_ok h
      obtain ⟨rest, hrest, h⟩ := bind_eq_ok h
      obtain ⟨hsmall, hloads⟩ := (ih hroom).mp hrest
      refine ⟨⟨hfits.mp (require_eq_ok hcheck), hsmall⟩, ?_⟩
      rw [hfirst, hloads]
      exact h
    · intro hboth
      obtain ⟨⟨hone, hsmall⟩, h⟩ := hboth
      obtain ⟨first, hfirst, h⟩ := bind_eq_ok h
      obtain ⟨rest, hrest, h⟩ := bind_eq_ok h
      rw [require, if_pos (hfits.mpr hone), hfirst, (ih hroom).mpr ⟨hsmall, hrest⟩]
      exact h

/-- A part holds a byte of the weight. -/
def WeightRecord.Holds (record : WeightRecord) (byte : ℕ) : Prop :=
  record.offset ≤ byte ∧ byte < record.offset + record.weight.length

instance (record : WeightRecord) : DecidablePred record.Holds := fun _ =>
  inferInstanceAs (Decidable (_ ∧ _))

/-- A copied part holds a byte of the weight of an operation. -/
def Applied.Covers (part : Applied) (position byte : ℕ) : Prop :=
  part.position = position ∧ part.offset ≤ byte ∧ byte < part.offset + part.weight.length

instance (part : Applied) (position : ℕ) : DecidablePred (part.Covers position) := fun _ =>
  inferInstanceAs (Decidable (_ ∧ _))

/-- The copied parts that hold a byte come from the parts with the operation's name and
index that hold it. -/
theorem filter_covers (hkeys : (ops.map opKey).Nodup) {op : NnOpConfig} {position : ℕ}
    (hop : ops[position]? = some op) (byte : ℕ) (records : List WeightRecord) :
    (records.filterMap (applied ops)).filter (fun part => part.Covers position byte) =
      (records.filter fun record => opKey op = recordKey record ∧ record.Holds byte).map
        fun record => ⟨position, record.offset, record.weight⟩ := by
  induction records with
  | nil => rfl
  | cons record records ih =>
    by_cases hkey : opKey op = recordKey record
    · have happlied : applied ops record = some ⟨position, record.offset, record.weight⟩ := by
        rw [applied, (locate_eq_some_iff hkeys).mpr ⟨hop, hkey⟩, Option.map_some]
      rw [List.filterMap_cons_some happlied]
      have hcovers : Applied.Covers ⟨position, record.offset, record.weight⟩ position byte ↔
          record.Holds byte := and_iff_right (Eq.refl _)
      by_cases hholds : record.Holds byte
      · rw [List.filter_cons, if_pos (decide_eq_true (hcovers.mpr hholds)), ih, List.filter_cons,
          if_pos (decide_eq_true ⟨hkey, hholds⟩), List.map_cons]
      · rw [List.filter_cons, if_neg fun h => hholds (hcovers.mp (of_decide_eq_true h)), ih,
          List.filter_cons, if_neg fun h => hholds (of_decide_eq_true h).2]
    · rw [List.filter_cons, if_neg fun h => hkey (of_decide_eq_true h).1, ← ih]
      cases happlied : applied ops record with
      | none => rw [List.filterMap_cons_none happlied]
      | some part =>
        rw [List.filterMap_cons_some happlied, List.filter_cons]
        refine if_neg fun h => ?_
        have hposition := (of_decide_eq_true h).1
        obtain ⟨found, hfound, hpart⟩ := Option.map_eq_some_iff.mp happlied
        have hlocated := (locate_eq_some_iff hkeys).mp hfound
        rw [← hpart] at hposition
        dsimp only at hposition
        rw [hposition, hop] at hlocated
        have hsame := Option.some.inj hlocated.1
        exact hkey (hsame ▸ hlocated.2)

end Apply

section Coverage

variable {loader : NnRootWeightLoader} {tpSize nodeIndex : ℕ} {file : MmapFile}
  {loads : List WeightLoad} {op : NnOpConfig} {experts : ℕ} {source : WeightSource}

/-- The tensors for an operation are so many experts of one kind. -/
def Fed (loads : List WeightLoad) (op : NnOpConfig) (experts : ℕ) (source : WeightSource) : Prop :=
  loads.filter (fun load => opKey op = loadKey load) =
    (List.range experts).map fun expertIndex => ⟨op.name, op.index, expertIndex, source⟩

/-- Parts for a node. -/
def nodeRecords (loader : NnRootWeightLoader) (tpSize : ℕ) (file : MmapFile)
    (loads : List WeightLoad) (nodeIndex : ℕ) : List WeightRecord :=
  ((placed file.headerSize loads).filter fun at0 =>
    at0.2.source.Reaches loader at0.2.opIndex nodeIndex).map fun at0 =>
      at0.2.record (nodeIndex % tpSize) fun i => file.data (at0.1 + i)

theorem record_holds {load : WeightLoad} {tpRank byte : ℕ} {weight : ℕ → UInt8} :
    (load.record tpRank weight).Holds byte ↔
      InPiece load.source.partSize.nBytes (2 ^ 32) byte load.expertIndex := by
  unfold WeightRecord.Holds WeightLoad.record InPiece
  dsimp only
  rw [List.length_map, List.length_range]

/-- The parts of a node that hold a byte of an operation's weight, with the tensors they
are cut from. -/
theorem holding_parts (loader : NnRootWeightLoader) (tpSize nodeIndex : ℕ) (file : MmapFile)
    (hfed : Fed loads op experts source) (byte : ℕ) :
    ∃ tensors : List (ℕ × WeightLoad), (∀ at0 ∈ tensors, at0 ∈ placed file.headerSize loads) ∧
      tensors.map Prod.snd =
        (if source.Reaches loader op.index nodeIndex then
          piecesAt experts source.partSize.nBytes (2 ^ 32) byte else []).map
            (fun expertIndex => ⟨op.name, op.index, expertIndex, source⟩) ∧
      ((nodeRecords loader tpSize file loads nodeIndex).filter fun record =>
        opKey op = recordKey record ∧ record.Holds byte) =
        tensors.map fun at0 => at0.2.record (nodeIndex % tpSize) fun i => file.data (at0.1 + i) := by
  refine ⟨(placed file.headerSize loads).filter fun at0 =>
    (opKey op = loadKey at0.2 ∧ InPiece at0.2.source.partSize.nBytes (2 ^ 32) byte
      at0.2.expertIndex) ∧ at0.2.source.Reaches loader at0.2.opIndex nodeIndex,
    fun at0 h => (List.mem_filter.mp h).1, ?_, ?_⟩
  · have hsnd : ((placed file.headerSize loads).filter fun at0 =>
        decide ((opKey op = loadKey at0.2 ∧ InPiece at0.2.source.partSize.nBytes (2 ^ 32) byte
          at0.2.expertIndex) ∧ at0.2.source.Reaches loader at0.2.opIndex nodeIndex)).map Prod.snd =
        loads.filter fun load => decide ((opKey op = loadKey load ∧
          InPiece load.source.partSize.nBytes (2 ^ 32) byte load.expertIndex) ∧
          load.source.Reaches loader load.opIndex nodeIndex) := by
      have hmap := List.filter_map (f := Prod.snd) (l := placed file.headerSize loads)
        (p := fun load => decide ((opKey op = loadKey load ∧
          InPiece load.source.partSize.nBytes (2 ^ 32) byte load.expertIndex) ∧
          load.source.Reaches loader load.opIndex nodeIndex))
      rw [map_snd_placed] at hmap
      exact hmap.symm
    have hsplit : (loads.filter fun load => decide ((opKey op = loadKey load ∧
          InPiece load.source.partSize.nBytes (2 ^ 32) byte load.expertIndex) ∧
          load.source.Reaches loader load.opIndex nodeIndex)) =
        (loads.filter fun load => opKey op = loadKey load).filter fun load =>
          InPiece load.source.partSize.nBytes (2 ^ 32) byte load.expertIndex ∧
          load.source.Reaches loader load.opIndex nodeIndex := by
      rw [List.filter_filter]
      refine List.filter_congr fun load _ => ?_
      rw [← Bool.decide_and]
      exact decide_eq_decide.mpr (by tauto)
    rw [hsnd, hsplit, hfed, List.filter_map]
    congr 1
    by_cases hreach : source.Reaches loader op.index nodeIndex
    · rw [if_pos hreach]
      refine List.filter_congr fun expertIndex _ => ?_
      exact decide_eq_decide.mpr (and_iff_left hreach)
    · rw [if_neg hreach, List.filter_eq_nil_iff]
      intro expertIndex _ h
      exact hreach (of_decide_eq_true h).2
  · unfold nodeRecords
    rw [List.filter_map, List.filter_filter]
    congr 1
    refine List.filter_congr fun at0 _ => ?_
    dsimp only [Function.comp]
    rw [← Bool.decide_and]
    exact decide_eq_decide.mpr (and_congr_left fun _ => and_congr_right fun _ => record_holds)

/-- Parts for an operation end inside its weight when all experts do. -/
theorem ends_iff (hfed : Fed loads op experts source) :
    (∀ record ∈ nodeRecords loader tpSize file loads nodeIndex, opKey op = recordKey record →
      record.offset + record.weight.length ≤ op.weightSize.nBytes) ↔
    (source.Reaches loader op.index nodeIndex → ∀ expertIndex < experts,
      pieceStart source.partSize.nBytes (2 ^ 32) expertIndex + source.partSize.nBytes ≤
        op.weightSize.nBytes) := by
  have hlength (load : WeightLoad) (tpRank : ℕ) (weight : ℕ → UInt8) :
      (load.record tpRank weight).weight.length = load.source.partSize.nBytes := by
    unfold WeightLoad.record
    rw [List.length_map, List.length_range]
  constructor
  · intro h hreach expertIndex hlt
    have hload : (⟨op.name, op.index, expertIndex, source⟩ : WeightLoad) ∈ loads := by
      have hmem := List.mem_map_of_mem (f := fun expertIndex =>
        (⟨op.name, op.index, expertIndex, source⟩ : WeightLoad)) (List.mem_range.mpr hlt)
      rw [← hfed] at hmem
      exact (List.mem_filter.mp hmem).1
    rw [← map_snd_placed file.headerSize loads] at hload
    obtain ⟨at0, hat0, hsnd⟩ := List.mem_map.mp hload
    have hend := h (at0.2.record (nodeIndex % tpSize) fun i => file.data (at0.1 + i))
      (List.mem_map_of_mem (List.mem_filter.mpr
        ⟨hat0, decide_eq_true (by rw [hsnd]; exact hreach)⟩)) (by rw [hsnd]; exact Eq.refl _)
    rw [hlength, hsnd] at hend
    exact hend
  · intro h record hrecord hkey
    obtain ⟨at0, hat0, hmade⟩ := List.mem_map.mp hrecord
    have hin := List.mem_filter.mp hat0
    have hload : at0.2 ∈ loads.filter fun load => opKey op = loadKey load := by
      rw [← hmade] at hkey
      exact List.mem_filter.mpr ⟨mem_of_mem_placed hin.1, decide_eq_true hkey⟩
    rw [hfed] at hload
    obtain ⟨expertIndex, hexpert, hsnd⟩ := List.mem_map.mp hload
    have hreach := of_decide_eq_true hin.2
    rw [← hsnd] at hreach
    have hend := h hreach expertIndex (List.mem_range.mp hexpert)
    rw [← hmade, hlength, ← hsnd]
    exact hend

/-- A byte of the part of a tensor that an operation's weight has to hold: the tensor
with its name and index, the expert of the plane in which the byte stands. -/
def IsShardByte (file : MmapFile) (loads : List WeightLoad) (tpRank : ℕ) (op : NnOpConfig)
    (byte : ℕ) (value : UInt8) : Prop :=
  ∃ at0 ∈ placed file.headerSize loads, at0.2.opName = op.name ∧ at0.2.opIndex = op.index ∧
    at0.2.expertIndex = byte / op.weightSize.nBytesXY ∧
    value = file.data (at0.1 + at0.2.source.shardByte tpRank (byte % op.weightSize.nBytesXY))

/-- Every byte of a weight has been copied once, and it is the right one. -/
def Complete (file : MmapFile) (loads : List WeightLoad) (tpRank : ℕ) (op : NnOpConfig)
    (position : ℕ) (parts : List Applied) : Prop :=
  ∀ byte < op.weightSize.nBytes, ∃ part value,
    parts.filter (fun part => part.Covers position byte) = [part] ∧
    part.weight[byte - part.offset]? = some value ∧ IsShardByte file loads tpRank op byte value

/-- Parts arrive if there is something to load, and those that arrive fill the weight. -/
def PartsFill (loader : NnRootWeightLoader) (nodeIndex opIndex : ℕ) (weightSize : NnSize3D)
    (experts : ℕ) (source : WeightSource) : Prop :=
  (0 < weightSize.nBytes →
    0 < experts ∧ source.Reaches loader opIndex nodeIndex ∧ 0 < source.partSize.nBytes) ∧
  (0 < experts → source.Reaches loader opIndex nodeIndex → 0 < source.partSize.nBytes →
    experts * source.partSize.nBytes = weightSize.nBytes ∧
      (experts - 1) * source.partSize.nBytes < 2 ^ 32)

/-- A weight whose parts arrive and fill it is complete. -/
theorem complete_of_partsFill {ops : List NnOpConfig} (hkeys : (ops.map opKey).Nodup) {position : ℕ}
    (hop : ops[position]? = some op) (hfed : Fed loads op experts source)
    (hplane : 0 < op.weightSize.nBytes → op.weightSize.nBytesXY = source.partSize.nBytes)
    (h : PartsFill loader nodeIndex op.index op.weightSize experts source) :
    Complete file loads (nodeIndex % tpSize) op position
      ((nodeRecords loader tpSize file loads nodeIndex).filterMap (applied ops)) := by
  intro byte hbyte
  have hbytes : 0 < op.weightSize.nBytes := by omega
  obtain ⟨hexperts, hreach, hsize⟩ := h.1 hbytes
  obtain ⟨hfill, hmod⟩ := h.2 hexperts hreach hsize
  have hpieces := piecesAt_eq hfill hmod hbyte
  obtain ⟨tensors, hplaced, hsnd, hparts⟩ := holding_parts loader tpSize nodeIndex file
    hfed byte
  rw [if_pos hreach, hpieces, List.map_singleton] at hsnd
  obtain ⟨at0, htensors, hload⟩ := List.map_eq_singleton_iff.mp hsnd
  have hexpert : byte / source.partSize.nBytes < experts :=
    Nat.div_lt_of_lt_mul (by rw [Nat.mul_comm, hfill]; exact hbyte)
  have hstart : pieceStart source.partSize.nBytes (2 ^ 32) (byte / source.partSize.nBytes) = _ :=
    pieceStart_eq hmod hexpert
  have hplace : byte - byte / source.partSize.nBytes * source.partSize.nBytes =
      byte % source.partSize.nBytes := by
    have hdiv := Nat.div_add_mod' byte source.partSize.nBytes
    omega
  refine ⟨⟨position, (at0.2.record (nodeIndex % tpSize) fun i => file.data (at0.1 + i)).offset,
    (at0.2.record (nodeIndex % tpSize) fun i => file.data (at0.1 + i)).weight⟩,
    file.data (at0.1 + source.shardByte (nodeIndex % tpSize) (byte % source.partSize.nBytes)),
    ?_, ?_, ?_⟩
  · rw [filter_covers hkeys hop, hparts, htensors, List.map_singleton, List.map_singleton]
  · rw [hload]
    unfold WeightLoad.record
    dsimp only
    rw [hstart, hplace, List.getElem?_map, List.getElem?_range (Nat.mod_lt byte hsize),
      Option.map_some]
  · refine ⟨at0, hplaced at0 (by rw [htensors]; exact List.mem_singleton_self at0), ?_⟩
    rw [hload, hplane hbytes]
    exact ⟨Eq.refl _, Eq.refl _, Eq.refl _, Eq.refl _⟩

/-- A weight is complete and no part of it ends outside exactly when its parts arrive
and fill it. -/
theorem complete_iff {ops : List NnOpConfig} (hkeys : (ops.map opKey).Nodup) {position : ℕ}
    (hop : ops[position]? = some op) (hfed : Fed loads op experts source)
    (hplane : 0 < op.weightSize.nBytes → op.weightSize.nBytesXY = source.partSize.nBytes) :
    ((∀ record ∈ nodeRecords loader tpSize file loads nodeIndex, opKey op = recordKey record →
      record.offset + record.weight.length ≤ op.weightSize.nBytes) ∧
    Complete file loads (nodeIndex % tpSize) op position
      ((nodeRecords loader tpSize file loads nodeIndex).filterMap (applied ops))) ↔
    PartsFill loader nodeIndex op.index op.weightSize experts source := by
  rw [ends_iff hfed]
  constructor
  · intro hboth
    obtain ⟨hends, hcomplete⟩ := hboth
    have honce (byte : ℕ) (hbyte : byte < op.weightSize.nBytes) :
        source.Reaches loader op.index nodeIndex ∧
          (piecesAt experts source.partSize.nBytes (2 ^ 32) byte).length = 1 := by
      obtain ⟨part, _, hpart, _⟩ := hcomplete byte hbyte
      obtain ⟨tensors, _, hsnd, hparts⟩ := holding_parts loader tpSize nodeIndex file
        hfed byte
      rw [filter_covers hkeys hop, hparts] at hpart
      have hone := congrArg List.length hpart
      have hlength := congrArg List.length hsnd
      rw [List.length_map, List.length_map, List.length_singleton] at hone
      rw [List.length_map, List.length_map, hone] at hlength
      by_cases hreach : source.Reaches loader op.index nodeIndex
      · rw [if_pos hreach] at hlength
        exact ⟨hreach, hlength.symm⟩
      · rw [if_neg hreach] at hlength
        cases hlength
    constructor
    · intro hbytes
      obtain ⟨hreach, hpiece⟩ := honce 0 hbytes
      obtain ⟨piece, hpiece⟩ := List.length_eq_one_iff.mp hpiece
      have hmem : piece ∈ piecesAt experts source.partSize.nBytes (2 ^ 32) 0 := by
        rw [hpiece]
        exact List.mem_singleton_self piece
      have hin := List.mem_filter.mp hmem
      have hlt := List.mem_range.mp hin.1
      have hbetween := of_decide_eq_true hin.2
      unfold InPiece at hbetween
      exact ⟨by omega, hreach, by omega⟩
    · intro hexperts hreach hsize
      have hfirst := hends hreach 0 hexperts
      exact fills_of_piecesAt (by omega) (by omega) (hends hreach) fun byte hbyte =>
        (honce byte hbyte).2
  · intro h
    refine ⟨?_, complete_of_partsFill hkeys hop hfed hplane h⟩
    intro hreach expertIndex hlt
    rcases Nat.eq_zero_or_pos source.partSize.nBytes with hzero | hsize
    · rw [hzero, pieceStart, Nat.mul_zero, Nat.zero_mod]
      omega
    · obtain ⟨hfill, hmod⟩ := h.2 (by omega) hreach hsize
      rw [pieceStart_eq hmod hlt, ← hfill, ← Nat.succ_mul]
      exact Nat.mul_le_mul_right _ hlt

end Coverage

end LayerSkip.WeightLoader
