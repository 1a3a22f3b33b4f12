import LayerSkip.PolledReceive

/-!
# The checksum of an activation

A frame carries a checksum of its payload, and the receiver prints a warning when the payload that
arrives has another one. For floats the checksum loop looks at the first four words, but each round
overwrites what the rounds before have found, so only the fourth word counts.
-/

namespace LayerSkip.ActivationChecksum

open NnTopology NnPipeline NnNetwork WorkerRun PolledReceive

/-- A payload with another word at a place. -/
def setWord (payload : List UInt8) (w : ℕ) (word : NnUint) : List UInt8 :=
  payload.take (4 * w) ++ wordBytes word ++ payload.drop (4 * w + 4)

/-- The warning that a checksum is another one. -/
structure ChecksumWarning where
  /-- Checksum of the header. -/
  expected : NnUint
  /-- Checksum of what has arrived. -/
  got : NnUint
  deriving DecidableEq, Repr

/-- Verify the checksum of a payload. A word that is no format counts as a format other than that of
floats. -/
def verifyChecksum (machine : Machine) (headerData payload : List UInt8) :
    Option ChecksumWarning :=
  let header := machine.decodeHeader headerData
  let receivedChecksum :=
    if machine.knownDtype headerData then calculateChecksum payload header.dtype
    else wordAt (payload.take 4) 0
  if receivedChecksum ≠ header.checksum then some ⟨header.checksum, receivedChecksum⟩ else none

/-- The warning that `recvActivation` prints, on its way from the header over the payload. -/
def recvWarning (machine : Machine) (mode : SocketMode) (headerMaxAttempts : ℕ)
    (events : List LinkEvent) : Option ChecksumWarning :=
  match tryReadSocket mode events headerMaxAttempts [] machine.headerBytes with
  | ⟨.done headerData, rest, _⟩ =>
    let header := machine.decodeHeader headerData
    if sizesOk machine header then
      match readPayload mode header rest with
      | ⟨.done payload, _, _⟩ =>
        if header.payloadBytes = 0 then none else verifyChecksum machine headerData payload
      | _ => none
    else none
  | _ => none

/-- A frame as it is sent: its checksum is that of its payload. -/
def Sent (frame : Frame) : Prop :=
  frame.header.checksum = calculateChecksum frame.payload frame.header.dtype

/-- Every frame of a communicator is one. -/
theorem sent_makeFrame {F : Type} [Add F] [Sub F] (codec : FloatCodec F)
    (c : NnPipelineCommunicator F) (socket : ℕ) (seqPosition batchIndex : NnUint) (sliceId : ℕ)
    (data : List F) (dtype : NnFloatType) (extraFlags : NnUint) :
    Sent (c.makeFrame codec socket seqPosition batchIndex sliceId data dtype extraFlags) :=
  Eq.refl _

/-- A header of a frame arrives, and its payload with another word at a place. -/
structure Corrupted (machine : Machine) (mode : SocketMode) (frame : Frame) (w : ℕ)
    (word : NnUint) (headerMaxAttempts : ℕ) (events : List LinkEvent) : Prop where
  /-- The header arrives. -/
  header : ∃ headerData rest waited,
    tryReadSocket mode events headerMaxAttempts [] machine.headerBytes =
      ⟨.done headerData, rest, waited⟩ ∧ machine.knownDtype headerData = true ∧
    machine.decodeHeader headerData = frame.header ∧
    (readPayload mode frame.header rest).outcome = .done (setWord frame.payload w word)
  /-- Its sizes are accepted. -/
  sizes : sizesOk machine frame.header

/-- Another word at a place changes the checksum, and the receiver of a frame warns of it. -/
structure Noticed (machine : Machine) (mode : SocketMode) (payload : List UInt8) (w : ℕ)
    (word : NnUint) : Prop where
  /-- The checksum changes. -/
  changes : calculateChecksum (setWord payload w word) .f32 ≠ calculateChecksum payload .f32
  /-- The receiver warns. -/
  reported : ∀ frame : Frame, frame.payload = payload → frame.header.dtype = .f32 → Sent frame →
    ∀ headerMaxAttempts events, Corrupted machine mode frame w word headerMaxAttempts events →
      (recvWarning machine mode headerMaxAttempts events).isSome

theorem length_wordBytes (word : NnUint) : (wordBytes word).length = 4 := Eq.refl _

theorem length_setWord {payload : List UInt8} {w : ℕ} (h : 4 * w + 4 ≤ payload.length)
    (word : NnUint) : (setWord payload w word).length = payload.length := by
  simp only [setWord, List.length_append, List.length_take, length_wordBytes, List.length_drop]
  omega

/-- A word is that of its four bytes. -/
theorem wordAt_congr {data data' : List UInt8} {offset offset' : ℕ}
    (h : ∀ i < 4, data.getD (offset + i) 0 = data'.getD (offset' + i) 0) :
    wordAt data offset = wordAt data' offset' := by
  unfold wordAt
  congr 1
  apply List.map_congr_left
  intro i hi
  rw [h i (List.mem_range.mp hi)]

theorem wordAt_setWord_self {payload : List UInt8} {w : ℕ} (h : 4 * w + 4 ≤ payload.length)
    (word : NnUint) : wordAt (setWord payload w word) (4 * w) = word := by
  have hfront : (payload.take (4 * w)).length = 4 * w := by
    rw [List.length_take]
    omega
  refine Eq.trans (wordAt_congr ?_) (wordAt_zero word (payload.drop (4 * w + 4)))
  intro i _
  simp only [List.getD_eq_getElem?_getD]
  rw [setWord, List.append_assoc, List.getElem?_append_right (by omega), hfront]
  congr 2
  omega

theorem wordAt_setWord_of_ne {payload : List UInt8} {w w' : ℕ} (h : 4 * w + 4 ≤ payload.length)
    (word : NnUint) (hne : w' ≠ w) :
    wordAt (setWord payload w word) (4 * w') = wordAt payload (4 * w') := by
  apply wordAt_congr
  intro i hi
  have hfront : (payload.take (4 * w)).length = 4 * w := by
    rw [List.length_take]
    omega
  simp only [List.getD_eq_getElem?_getD]
  congr 1
  rw [setWord, List.append_assoc]
  by_cases hbefore : w' < w
  · rw [List.getElem?_append_left (by omega), List.getElem?_take, if_pos (by omega)]
  · rw [List.getElem?_append_right (by omega), hfront,
      List.getElem?_append_right (by rw [length_wordBytes]; omega), length_wordBytes,
      List.getElem?_drop]
    congr 1
    omega

/-- The checksum of floats is that of the fourth word alone. -/
theorem calculateChecksum_f32 {payload : List UInt8} (h : 16 ≤ payload.length) :
    calculateChecksum payload .f32 = wordAt payload 12 ^^^ 4 := by
  rw [calculateChecksum, if_pos ⟨Eq.refl _, h⟩]
  exact Eq.refl _

/-- Another word at a place changes the checksum exactly when the place is that of the fourth. -/
theorem calculateChecksum_setWord_iff {payload : List UInt8} (h : 16 ≤ payload.length) {w : ℕ}
    (hw : w < 4) {word : NnUint} (hword : word ≠ wordAt payload (4 * w)) :
    calculateChecksum (setWord payload w word) .f32 ≠ calculateChecksum payload .f32 ↔ w = 3 := by
  have hplace : 4 * w + 4 ≤ payload.length := by omega
  have hlong : 16 ≤ (setWord payload w word).length := by
    rw [length_setWord hplace]
    exact h
  rw [calculateChecksum_f32 h, calculateChecksum_f32 hlong]
  have htwelve : 12 = 4 * 3 := Eq.refl _
  rw [htwelve]
  by_cases hlast : w = 3
  · have hself := wordAt_setWord_self hplace word
    rw [hlast] at hself hword ⊢
    rw [hself]
    constructor
    · intro _
      exact Eq.refl _
    · intro _ heq
      exact hword ((UInt32.xor_left_inj 4).mp heq)
  · rw [wordAt_setWord_of_ne hplace word (Ne.symm hlast)]
    simp [hlast]

/-- A frame with a payload that has another checksum is warned of. -/
theorem recvWarning_corrupted {machine : Machine} {mode : SocketMode} {frame : Frame} {w : ℕ}
    {word : NnUint} {headerMaxAttempts : ℕ} {events : List LinkEvent} (hsent : Sent frame)
    (hpayload : frame.payload ≠ [])
    (h : Corrupted machine mode frame w word headerMaxAttempts events)
    (hchanges : calculateChecksum (setWord frame.payload w word) frame.header.dtype ≠
      calculateChecksum frame.payload frame.header.dtype) :
    (recvWarning machine mode headerMaxAttempts events).isSome := by
  obtain ⟨headerData, rest, waited, hread, hknown, hdecode, hrest⟩ := h.header
  have hsizes := h.sizes
  have hbytes : frame.header.payloadBytes ≠ 0 := by
    rw [← frame.payload_length]
    exact fun hzero => hpayload (List.length_eq_zero_iff.mp hzero)
  rw [recvWarning, hread]
  dsimp only
  rw [hdecode, if_pos hsizes]
  generalize readPayload mode frame.header rest = result at hrest
  obtain ⟨outcome, rest', waited'⟩ := result
  dsimp only at hrest
  rw [hrest]
  dsimp only
  rw [if_neg hbytes, verifyChecksum]
  rw [hdecode, if_pos hknown, if_pos (by rw [hsent]; exact hchanges)]
  exact Eq.refl _

/-- A change of one of the first four words of floats is noticed exactly when it is that of the
fourth. -/
theorem noticed_iff (machine : Machine) (mode : SocketMode) {payload : List UInt8}
    (h : 16 ≤ payload.length) {w : ℕ} (hw : w < 4) {word : NnUint}
    (hword : word ≠ wordAt payload (4 * w)) : Noticed machine mode payload w word ↔ w = 3 := by
  have hiff := calculateChecksum_setWord_iff h hw hword
  constructor
  · intro hnoticed
    exact hiff.mp hnoticed.changes
  · intro hlast
    have hchanges := hiff.mpr hlast
    refine ⟨hchanges, ?_⟩
    intro frame hpayload hdtype hsent headerMaxAttempts events hcorrupted
    apply recvWarning_corrupted hsent _ hcorrupted
    · rw [hpayload, hdtype]
      exact hchanges
    · rw [hpayload]
      intro hempty
      rw [hempty] at h
      exact absurd h (by decide)

/-- Four zeros, the fourth of which becomes another word. -/
theorem noticed_fourth :
    Noticed wordMachine .blocking (List.replicate 16 0) 3 1 :=
  (noticed_iff wordMachine .blocking (by decide) (by decide) (by decide)).mpr (Eq.refl _)

/-- Four zeros, the first of which becomes another word: the checksum is the same. -/
theorem not_noticed_first :
    ¬ ∀ (machine : Machine) (mode : SocketMode) (payload : List UInt8), 16 ≤ payload.length →
      ∀ w < 4, ∀ word, word ≠ wordAt payload (4 * w) → Noticed machine mode payload w word := by
  intro h
  have hnoticed := h wordMachine .blocking (List.replicate 16 0) (by decide) 0 (by decide) 1
    (by decide)
  exact hnoticed.changes (by decide)

end LayerSkip.ActivationChecksum
