import LayerSkip.WorkerRun

/-!
# Polling a pipeline link

A receive with a number of attempts reads a header and then, without a bound on attempts, the payload.
A link is what the socket gives in turn: bytes, moments with nothing, the end; after all of it the
peer stays silent. On a socket that blocks, a receive waits through moments with nothing.
-/

namespace LayerSkip.PolledReceive

open NnTopology NnNetwork NnPipeline WorkerRun

/-- How a socket behaves when there is nothing to receive. -/
inductive SocketMode
  | blocking
  | nonBlocking
  deriving DecidableEq, Repr

/-- What a socket gives. A moment with nothing may be the one when the clock for stalls runs out. -/
inductive LinkEvent
  | bytes (first : UInt8) (more : List UInt8)
  | quiet (expired : Bool)
  | closed
  deriving DecidableEq, Repr

/-- What becomes of a read. -/
inductive ReadOutcome
  | done (data : List UInt8)
  | notYet
  | threw
  | blocked
  deriving DecidableEq, Repr

/-- What a read leaves. -/
structure ReadResult where
  /-- What becomes of it. -/
  outcome : ReadOutcome
  /-- What the link still gives. -/
  link : List LinkEvent
  /-- Whether it waited for the peer with no byte there. -/
  waited : Bool
  deriving DecidableEq, Repr

/-- Put back what was not asked for. -/
def pushBack (data : List UInt8) (events : List LinkEvent) : List LinkEvent :=
  match data with
  | [] => events
  | b :: more => .bytes b more :: events

/-- The loop of `tryReadSocket`, from the bytes it has and those it misses. No attempts stand for no
bound. -/
def tryReadSocket (mode : SocketMode) : List LinkEvent → ℕ → List UInt8 → ℕ → ReadResult
  | events, _, data, 0 => ⟨.done data, events, false⟩
  | [], maxAttempts, data, _ + 1 =>
    match mode with
    | .blocking => ⟨.blocked, [], data.isEmpty⟩
    | .nonBlocking =>
      if data = [] ∧ 0 < maxAttempts then ⟨.notYet, [], false⟩ else ⟨.threw, [], false⟩
  | .bytes first more :: events, maxAttempts, data, s + 1 =>
    let piece := first :: more
    if piece.length ≤ s + 1 then
      tryReadSocket mode events maxAttempts (data ++ piece) (s + 1 - piece.length)
    else ⟨.done (data ++ piece.take (s + 1)), pushBack (piece.drop (s + 1)) events, false⟩
  | .quiet expired :: events, maxAttempts, data, s + 1 =>
    match mode with
    | .blocking =>
      let read := tryReadSocket mode events maxAttempts data (s + 1)
      ⟨read.outcome, read.link, data.isEmpty || read.waited⟩
    | .nonBlocking =>
      if data = [] ∧ maxAttempts = 1 then ⟨.notYet, events, false⟩
      else if expired then ⟨.threw, events, false⟩
      else tryReadSocket mode events (if data = [] then maxAttempts - 1 else maxAttempts) data (s + 1)
  | .closed :: events, _, _, _ + 1 => ⟨.threw, .closed :: events, false⟩

/-- Read a payload chunk by chunk. -/
def readChunks (mode : SocketMode) (streamChunkBytes : ℕ) : ℕ → ℕ → List LinkEvent → ReadResult
  | 0, _, events => ⟨.done [], events, false⟩
  | fuel + 1, missing, events =>
    if missing = 0 then ⟨.done [], events, false⟩
    else
      match tryReadSocket mode events 0 [] (min streamChunkBytes missing) with
      | ⟨.done chunk, rest, waited⟩ =>
        match readChunks mode streamChunkBytes fuel (missing - min streamChunkBytes missing) rest with
        | ⟨.done more, rest, waited'⟩ => ⟨.done (chunk ++ more), rest, waited || waited'⟩
        | ⟨other, rest, waited'⟩ => ⟨other, rest, waited || waited'⟩
      | other => other

/-- What the machine makes of the bytes of a header, and of memory. -/
structure Machine where
  /-- Bytes of a header. -/
  headerBytes : ℕ
  /-- There are some. -/
  headerBytes_pos : 0 < headerBytes
  /-- The header they are. -/
  decodeHeader : List UInt8 → NnPipelineActivationHeader
  /-- Whether the word for the format is one of a format. -/
  knownDtype : List UInt8 → Bool
  /-- Largest payload that memory can be had for. -/
  allocatable : ℕ

/-- Figures of the last receive. -/
structure TransferStats where
  /-- Bytes of the values. -/
  payloadBytes : ℕ
  /-- Bytes of the payload. -/
  wireBytes : ℕ
  /-- Bytes of a chunk. -/
  streamChunkBytes : ℕ
  /-- Flags of the header. -/
  flags : NnUint
  deriving DecidableEq, Repr

/-- What a call leaves. -/
structure Receipt (F : Type) where
  /-- What it returns, none when it waits for ever. -/
  result : Option Bool
  /-- Whether it waited for the peer with no byte there. -/
  waited : Bool
  /-- What the link still gives. -/
  link : List LinkEvent
  /-- The communicator. -/
  communicator : NnPipelineCommunicator F
  /-- The figures. -/
  stats : TransferStats
  /-- Header and values that were received. -/
  received : Option (NnPipelineActivationHeader × List F)

/-- No byte is there. -/
def idle : List LinkEvent → Bool
  | [] => true
  | .quiet _ :: _ => true
  | _ => false

/-- Bytes of a chunk, zero for a payload in one piece. -/
def chunkOf (header : NnPipelineActivationHeader) : ℕ :=
  if header.flags &&& pipelineFlagChunked ≠ 0 then header.streamChunkBytes else 0

/-- Read a payload. -/
def readPayload (mode : SocketMode) (header : NnPipelineActivationHeader) (events : List LinkEvent) :
    ReadResult :=
  if chunkOf header = 0 then tryReadSocket mode events 0 [] header.payloadBytes
  else readChunks mode (chunkOf header) header.payloadBytes header.payloadBytes events

/-- Sizes of a header agree and memory can be had. -/
def sizesOk (machine : Machine) (header : NnPipelineActivationHeader) : Prop :=
  (header.totalPayloadBytes = 0 ∨ header.totalPayloadBytes = header.payloadBytes) ∧
    header.payloadBytes ≤ machine.allocatable

instance (machine : Machine) (header : NnPipelineActivationHeader) :
    Decidable (sizesOk machine header) := inferInstanceAs (Decidable (_ ∧ _))

section Receive

variable {F : Type} [Add F] (codec : FloatCodec F) (machine : Machine) (mode : SocketMode)
  (socket bufferElems : ℕ)

/-- Take in what was read: the values and the communicator, or nothing. -/
def takeIn (c : NnPipelineCommunicator F) (headerData payload : List UInt8) :
    Option (List F × NnPipelineCommunicator F) :=
  let header := machine.decodeHeader headerData
  if h : payload.length = header.payloadBytes then
    if header.payloadBytes = 0 ∨ machine.knownDtype headerData then
      c.acceptFrame codec socket ⟨header, payload, h⟩ bufferElems
    else none
  else none

/-- Receive a frame with a bound on the attempts for its first byte. -/
def recvActivation (c : NnPipelineCommunicator F) (stats : TransferStats) (headerMaxAttempts : ℕ)
    (events : List LinkEvent) : Receipt F :=
  let failed (waited : Bool) (rest : List LinkEvent) : Receipt F :=
    ⟨some false, waited, rest, c, stats, none⟩
  match tryReadSocket mode events headerMaxAttempts [] machine.headerBytes with
  | ⟨.blocked, rest, waited⟩ => ⟨none, waited, rest, c, stats, none⟩
  | ⟨.notYet, rest, waited⟩ => failed waited rest
  | ⟨.threw, rest, waited⟩ => failed waited rest
  | ⟨.done headerData, rest, waited⟩ =>
    let header := machine.decodeHeader headerData
    if sizesOk machine header then
      match readPayload mode header rest with
      | ⟨.blocked, rest, _⟩ => ⟨none, waited, rest, c, stats, none⟩
      | ⟨.notYet, rest, _⟩ => failed waited rest
      | ⟨.threw, rest, _⟩ => failed waited rest
      | ⟨.done payload, rest, _⟩ =>
        match takeIn codec machine socket bufferElems c headerData payload with
        | none => failed waited rest
        | some (values, c') =>
          ⟨some true, waited, rest, c',
            ⟨4 * values.length, header.payloadBytes,
              if header.payloadBytes = 0 then 0 else chunkOf header, header.flags⟩,
            some (header, values)⟩
    else failed waited rest

/-- The bytes of a link. -/
def bytesOf (events : List LinkEvent) : List UInt8 :=
  events.flatMap fun event =>
    match event with
    | .bytes first more => first :: more
    | _ => []

/-- A call that does not wait for the peer with no byte there, and that leaves the bytes of the link,
the communicator and the figures when it returns false. -/
structure NonConsuming (c : NnPipelineCommunicator F) (stats : TransferStats)
    (events : List LinkEvent) (receipt : Receipt F) : Prop where
  /-- It does not wait. -/
  waits : receipt.waited = false
  /-- When it returns false the link is as it was. -/
  link : receipt.result = some false → bytesOf receipt.link = bytesOf events
  /-- And so is the base of differences. -/
  base : receipt.result = some false → receipt.communicator = c
  /-- And the figures. -/
  stats_eq : receipt.result = some false → receipt.stats = stats

/-- Bytes that a link gives before it fails or stays silent, and whether that makes a read fail. -/
def stream (mode : SocketMode) : List LinkEvent → List UInt8 × Bool
  | [] => ([], decide (mode = .nonBlocking))
  | .bytes first more :: events => (first :: more ++ (stream mode events).1, (stream mode events).2)
  | .quiet expired :: events =>
    if mode = .nonBlocking ∧ expired then ([], true) else stream mode events
  | .closed :: _ => ([], true)

/-- Bytes come before the attempts are used up. -/
def arrives (mode : SocketMode) : ℕ → List LinkEvent → Bool
  | _, [] => false
  | _, .bytes _ _ :: _ => true
  | attempts, .quiet expired :: events =>
    match mode with
    | .blocking => arrives mode attempts events
    | .nonBlocking =>
      if attempts = 1 ∨ expired then false else arrives mode (attempts - 1) events
  | _, .closed :: _ => false

/-- What a link gives is a frame that is taken in, or its beginning on a link that does not fail. -/
structure FrameComes (c : NnPipelineCommunicator F) (data : List UInt8) (fails : Bool) : Prop where
  /-- The header comes, or the link does not fail. -/
  header : data.length < machine.headerBytes → fails = false
  /-- Its sizes agree. -/
  sizes : machine.headerBytes ≤ data.length →
    sizesOk machine (machine.decodeHeader (data.take machine.headerBytes))
  /-- The payload comes, or the link does not fail. -/
  payload : machine.headerBytes ≤ data.length → data.length < machine.headerBytes +
    (machine.decodeHeader (data.take machine.headerBytes)).payloadBytes → fails = false
  /-- It is taken in. -/
  takenIn : machine.headerBytes ≤ data.length → machine.headerBytes +
    (machine.decodeHeader (data.take machine.headerBytes)).payloadBytes ≤ data.length →
    (takeIn codec machine socket bufferElems c (data.take machine.headerBytes)
      ((data.drop machine.headerBytes).take
        (machine.decodeHeader (data.take machine.headerBytes)).payloadBytes)).isSome

end Receive

section Reads

variable {mode : SocketMode}

theorem bytesOf_pushBack (data : List UInt8) (events : List LinkEvent) :
    bytesOf (pushBack data events) = data ++ bytesOf events := by
  cases data with
  | nil => exact Eq.refl _
  | cons b more => exact List.flatMap_cons

theorem stream_pushBack (data : List UInt8) (events : List LinkEvent) :
    stream mode (pushBack data events) =
      (data ++ (stream mode events).1, (stream mode events).2) := by
  cases data with
  | nil => exact Eq.refl _
  | cons b more => exact Eq.refl _

/-- What a read gives of what a link gives. -/
structure Reads (mode : SocketMode) (events : List LinkEvent) (before : List UInt8) (size : ℕ)
    (result : ReadResult) : Prop where
  /-- All that is asked for, or a failure, or it waits. -/
  outcome : result.outcome = if size ≤ (stream mode events).1.length then
      .done (before ++ (stream mode events).1.take size)
    else if (stream mode events).2 then .threw else .blocked
  /-- The bytes that it takes are the first ones. -/
  taken : bytesOf events = (stream mode events).1.take size ++ bytesOf result.link
  /-- What the link gives after it. -/
  after : size ≤ (stream mode events).1.length → stream mode result.link =
    ((stream mode events).1.drop size, (stream mode events).2)

theorem reads_zero (events : List LinkEvent) (before : List UInt8) :
    Reads mode events before 0 ⟨.done before, events, false⟩ := by
  constructor
  · rw [if_pos (Nat.zero_le _), List.take_zero, List.append_nil]
  · rw [List.take_zero, List.nil_append]
  · intro _
    exact Eq.refl _

/-- A read that has bytes already, or that has no bound on attempts, gives what the link gives. -/
theorem reads_tryReadSocket {events : List LinkEvent} {attempts size : ℕ} {before : List UInt8}
    (h : before ≠ [] ∨ attempts = 0) :
    Reads mode events before size (tryReadSocket mode events attempts before size) := by
  induction events generalizing attempts size before with
  | nil =>
    cases size with
    | zero => exact reads_zero _ _
    | succ s =>
      have hlong : ¬s + 1 ≤ (stream mode []).1.length := Nat.not_succ_le_zero s
      have hbound : ¬(before = [] ∧ 0 < attempts) := by
        intro hboth
        cases h with
        | inl hsome => exact hsome hboth.1
        | inr hzero => omega
      constructor
      · rw [if_neg hlong]
        unfold tryReadSocket
        cases mode with
        | blocking => exact Eq.refl _
        | nonBlocking =>
          dsimp only
          rw [if_neg hbound]
          exact Eq.refl _
      · unfold tryReadSocket
        cases mode with
        | blocking => exact Eq.refl _
        | nonBlocking =>
          dsimp only
          rw [if_neg hbound]
          exact Eq.refl _
      · intro hle
        exact absurd hle hlong
  | cons event events ih =>
    cases size with
    | zero => exact reads_zero _ _
    | succ s =>
      cases event with
      | bytes first more =>
        unfold tryReadSocket
        dsimp only
        have hstream : stream mode (.bytes first more :: events) =
          (first :: more ++ (stream mode events).1, (stream mode events).2) := Eq.refl _
        have hbytes : bytesOf (.bytes first more :: events) = first :: more ++ bytesOf events :=
          List.flatMap_cons
        by_cases hfits : (first :: more).length ≤ s + 1
        · rw [if_pos hfits]
          have hrest : Reads mode events (before ++ first :: more) (s + 1 - (first :: more).length)
              (tryReadSocket mode events attempts (before ++ first :: more)
                (s + 1 - (first :: more).length)) := ih (.inl (by simp))
          constructor
          · rw [hrest.outcome, hstream, List.length_append, List.take_append,
              List.take_of_length_le hfits, List.append_assoc]
            by_cases hle : s + 1 ≤ (first :: more).length + (stream mode events).1.length
            · rw [if_pos hle, if_pos (by omega)]
            · rw [if_neg hle, if_neg (by omega)]
          · rw [hbytes, hstream, List.take_append, List.take_of_length_le hfits, List.append_assoc,
              hrest.taken]
          · intro hle
            rw [hstream, List.length_append] at hle
            rw [hrest.after (by omega), hstream, List.drop_append,
              List.drop_of_length_le hfits, List.nil_append]
        · rw [if_neg hfits]
          have hlong : s + 1 ≤ (first :: more).length := by omega
          constructor
          · rw [hstream, List.length_append, if_pos (by omega),
              List.take_append_of_le_length hlong]
          · rw [hbytes, hstream, bytesOf_pushBack, List.take_append_of_le_length hlong,
              ← List.append_assoc, List.take_append_drop]
          · intro _
            rw [stream_pushBack, hstream, List.drop_append_of_le_length hlong]
      | quiet expired =>
        have hbytes : bytesOf (.quiet expired :: events) = bytesOf events := Eq.refl _
        unfold tryReadSocket
        cases mode with
        | blocking =>
          dsimp only
          have hrest : Reads .blocking events before (s + 1)
              (tryReadSocket .blocking events attempts before (s + 1)) := ih h
          exact ⟨hrest.outcome, hbytes ▸ hrest.taken, hrest.after⟩
        | nonBlocking =>
          dsimp only
          have hbound : ¬(before = [] ∧ attempts = 1) := by
            intro hboth
            cases h with
            | inl hsome => exact hsome hboth.1
            | inr hzero => omega
          rw [if_neg hbound]
          cases expired with
          | true =>
            have hstream : stream .nonBlocking (.quiet true :: events) = ([], true) := Eq.refl _
            constructor
            · rw [hstream]
              exact Eq.refl _
            · rw [hstream]
              exact hbytes
            · intro hle
              rw [hstream] at hle
              exact absurd hle (Nat.not_succ_le_zero s)
          | false =>
            have hstream : stream .nonBlocking (.quiet false :: events) =
              stream .nonBlocking events := Eq.refl _
            have hnext : before ≠ [] ∨ (if before = [] then attempts - 1 else attempts) = 0 := by
              cases h with
              | inl hsome => exact .inl hsome
              | inr hzero =>
                right
                rw [hzero, Nat.zero_sub, ite_self]
            have hrest : Reads .nonBlocking events before (s + 1) (tryReadSocket .nonBlocking events
                (if before = [] then attempts - 1 else attempts) before (s + 1)) := ih hnext
            exact ⟨hstream ▸ hrest.outcome, hstream ▸ hbytes ▸ hrest.taken, hstream ▸ hrest.after⟩
      | closed =>
        have hstream : stream mode (.closed :: events) = ([], true) := Eq.refl _
        unfold tryReadSocket
        constructor
        · rw [hstream]
          exact Eq.refl _
        · rw [hstream]
          exact Eq.refl _
        · intro hle
          rw [hstream] at hle
          exact absurd hle (Nat.not_succ_le_zero s)

/-- Reading chunk by chunk gives what one read gives. -/
theorem reads_readChunks {streamChunkBytes : ℕ} (hchunk : 0 < streamChunkBytes) {fuel missing : ℕ}
    (hfuel : missing ≤ fuel) (events : List LinkEvent) :
    Reads mode events [] missing (readChunks mode streamChunkBytes fuel missing events) := by
  induction fuel generalizing missing events with
  | zero =>
    have hzero : missing = 0 := Nat.le_zero.mp hfuel
    rw [hzero]
    exact reads_zero _ _
  | succ fuel ih =>
    unfold readChunks
    by_cases hmissing : missing = 0
    · rw [if_pos hmissing, hmissing]
      exact reads_zero _ _
    · rw [if_neg hmissing]
      have hsome : 0 < min streamChunkBytes missing := by omega
      have hle : min streamChunkBytes missing ≤ missing := Nat.min_le_right _ _
      generalize min streamChunkBytes missing = chunk at hsome hle
      have hfirst : Reads mode events [] chunk (tryReadSocket mode events 0 [] chunk) :=
        reads_tryReadSocket (.inr (Eq.refl _))
      generalize tryReadSocket mode events 0 [] chunk = result at hfirst
      obtain ⟨outcome, rest, waited⟩ := result
      have houtcome := hfirst.outcome
      have htaken := hfirst.taken
      dsimp only at houtcome htaken
      by_cases hcount : chunk ≤ (stream mode events).1.length
      · rw [if_pos hcount, List.nil_append] at houtcome
        rw [houtcome]
        dsimp only
        have hrest := ih (by omega : missing - chunk ≤ fuel) rest
        have hafter : stream mode rest = ((stream mode events).1.drop chunk, (stream mode events).2) :=
          hfirst.after hcount
        generalize readChunks mode streamChunkBytes fuel (missing - chunk) rest = later at hrest
        obtain ⟨outcome', rest', waited'⟩ := later
        have houtcome' := hrest.outcome
        have htaken' := hrest.taken
        have hafter' := hrest.after
        rw [hafter] at houtcome' htaken' hafter'
        rw [List.length_drop] at houtcome' hafter'
        dsimp only at houtcome' htaken' hafter'
        have hbytes : bytesOf events = (stream mode events).1.take missing ++ bytesOf rest' := by
          rw [htaken, htaken', ← List.append_assoc, ← List.take_add, Nat.add_sub_cancel' hle]
        by_cases hall : missing ≤ (stream mode events).1.length
        · rw [if_pos (by omega), List.nil_append] at houtcome'
          rw [houtcome']
          constructor
          · dsimp only
            rw [if_pos hall, List.nil_append, ← List.take_add, Nat.add_sub_cancel' hle]
          · exact hbytes
          · intro _
            rw [hafter' (by omega), List.drop_drop, Nat.add_sub_cancel' hle]
        · rw [if_neg (by omega)] at houtcome'
          have hother : (match (⟨outcome', rest', waited'⟩ : ReadResult) with
              | ⟨.done more, rest, waited'⟩ =>
                ⟨.done ((stream mode events).1.take chunk ++ more), rest, waited || waited'⟩
              | ⟨other, rest, waited'⟩ => ⟨other, rest, waited || waited'⟩ : ReadResult) =
              ⟨outcome', rest', waited || waited'⟩ := by
            rw [houtcome']
            cases (stream mode events).2 with
            | true => exact Eq.refl _
            | false => exact Eq.refl _
          rw [hother]
          constructor
          · rw [if_neg hall]
            exact houtcome'
          · exact hbytes
          · intro hle'
            exact absurd hle' hall
      · rw [if_neg hcount] at houtcome
        have hother : outcome = .threw ∨ outcome = .blocked := by
          rw [houtcome]
          cases (stream mode events).2 with
          | true => exact .inl (Eq.refl _)
          | false => exact .inr (Eq.refl _)
        have hall : ¬missing ≤ (stream mode events).1.length := by omega
        have hbytes : bytesOf events = (stream mode events).1.take missing ++ bytesOf rest := by
          rw [htaken, List.take_of_length_le (by omega), List.take_of_length_le (by omega)]
        have hresult : Reads mode events [] missing ⟨outcome, rest, waited⟩ := by
          constructor
          · rw [if_neg hall]
            exact houtcome
          · exact hbytes
          · intro hle'
            exact absurd hle' hall
        cases hother with
        | inl hthrew =>
          rw [hthrew] at hresult ⊢
          exact hresult
        | inr hblocked =>
          rw [hblocked] at hresult ⊢
          exact hresult

theorem reads_readPayload (header : NnPipelineActivationHeader) (events : List LinkEvent) :
    Reads mode events [] header.payloadBytes (readPayload mode header events) := by
  unfold readPayload
  by_cases hchunk : chunkOf header = 0
  · rw [if_pos hchunk]
    exact reads_tryReadSocket (.inr (Eq.refl _))
  · rw [if_neg hchunk]
    exact reads_readChunks (Nat.pos_of_ne_zero hchunk) (Nat.le_refl _) events

/-- With bytes read already, attempts do not count. -/
theorem tryReadSocket_attempts {events : List LinkEvent} {before : List UInt8}
    (h : before ≠ []) (attempts attempts' size : ℕ) :
    tryReadSocket mode events attempts before size =
      tryReadSocket mode events attempts' before size := by
  induction events generalizing before size with
  | nil =>
    cases size with
    | zero => exact Eq.refl _
    | succ s =>
      cases mode with
      | blocking => exact Eq.refl _
      | nonBlocking =>
        unfold tryReadSocket
        dsimp only
        rw [if_neg fun hboth => h hboth.1, if_neg fun hboth => h hboth.1]
  | cons event events ih =>
    cases size with
    | zero => exact Eq.refl _
    | succ s =>
      cases event with
      | bytes first more =>
        unfold tryReadSocket
        dsimp only
        rw [ih (List.append_ne_nil_of_left_ne_nil h _)]
      | quiet expired =>
        unfold tryReadSocket
        cases mode with
        | blocking =>
          dsimp only
          rw [ih h]
        | nonBlocking =>
          dsimp only
          have hbound (n : ℕ) : ¬(before = [] ∧ n = 1) := fun hboth => h hboth.1
          rw [if_neg (hbound attempts), if_neg (hbound attempts'), if_neg h, if_neg h, ih h]
      | closed => exact Eq.refl _

/-- A first byte that comes in time makes a bounded read one without a bound. -/
theorem reads_of_arrives {events : List LinkEvent} {attempts size : ℕ}
    (h : arrives mode attempts events = true) (hsize : 0 < size) :
    Reads mode events [] size (tryReadSocket mode events attempts [] size) ∧
      (stream mode events).1 ≠ [] := by
  obtain ⟨s, hs⟩ := Nat.exists_eq_succ_of_ne_zero (Nat.ne_of_gt hsize)
  rw [hs, Nat.succ_eq_add_one]
  induction events generalizing attempts with
  | nil => cases h
  | cons event events ih =>
    cases event with
    | bytes first more =>
      have hunbounded : tryReadSocket mode (.bytes first more :: events) attempts [] (s + 1) =
          tryReadSocket mode (.bytes first more :: events) 0 [] (s + 1) := by
        unfold tryReadSocket
        dsimp only
        rw [tryReadSocket_attempts (List.append_ne_nil_of_right_ne_nil _ (List.cons_ne_nil _ _)) _ 0]
      rw [hunbounded]
      exact ⟨reads_tryReadSocket (.inr (Eq.refl _)), List.cons_ne_nil _ _⟩
    | quiet expired =>
      have hbytes : bytesOf (.quiet expired :: events) = bytesOf events := Eq.refl _
      cases mode with
      | blocking =>
        obtain ⟨hreads, hsome⟩ := ih h
        exact ⟨⟨hreads.outcome, hbytes ▸ hreads.taken, hreads.after⟩, hsome⟩
      | nonBlocking =>
        unfold arrives at h
        dsimp only at h
        by_cases hgives : attempts = 1 ∨ expired = true
        · rw [if_pos hgives] at h
          cases h
        · rw [if_neg hgives] at h
          obtain ⟨hmany, hclock⟩ := not_or.mp hgives
          obtain ⟨hreads, hsome⟩ := ih h
          have hstream : stream .nonBlocking (.quiet expired :: events) =
              stream .nonBlocking events := if_neg fun hboth => hclock hboth.2
          have hstep : tryReadSocket .nonBlocking (.quiet expired :: events) attempts [] (s + 1) =
              tryReadSocket .nonBlocking events (attempts - 1) [] (s + 1) := by
            rw [tryReadSocket]
            rw [if_neg fun hboth => hmany hboth.2, if_neg hclock, if_pos (Eq.refl _)]
          rw [hstep]
          constructor
          · constructor
            · rw [hstream]
              exact hreads.outcome
            · rw [hstream, hbytes]
              exact hreads.taken
            · intro hle
              rw [hstream] at hle ⊢
              exact hreads.after hle
          · rw [hstream]
            exact hsome
    | closed => cases h

/-- Without a first byte in time a bounded read takes nothing, and it is not done. -/
theorem tryReadSocket_of_not_arrives {events : List LinkEvent} {attempts size : ℕ}
    (h : arrives mode attempts events = false) (hattempts : 0 < attempts) (hsize : 0 < size) :
    bytesOf (tryReadSocket mode events attempts [] size).link = bytesOf events ∧
      ∀ data, (tryReadSocket mode events attempts [] size).outcome ≠ .done data := by
  obtain ⟨s, hs⟩ := Nat.exists_eq_succ_of_ne_zero (Nat.ne_of_gt hsize)
  rw [hs, Nat.succ_eq_add_one]
  induction events generalizing attempts with
  | nil =>
    unfold tryReadSocket
    cases mode with
    | blocking => exact ⟨Eq.refl _, fun _ => ReadOutcome.noConfusion⟩
    | nonBlocking =>
      dsimp only
      rw [if_pos ⟨Eq.refl _, hattempts⟩]
      exact ⟨Eq.refl _, fun _ => ReadOutcome.noConfusion⟩
  | cons event events ih =>
    cases event with
    | bytes first more => cases h
    | quiet expired =>
      unfold tryReadSocket
      cases mode with
      | blocking => exact ih h hattempts
      | nonBlocking =>
        dsimp only
        unfold arrives at h
        dsimp only at h
        by_cases hlast : attempts = 1
        · rw [if_pos ⟨Eq.refl _, hlast⟩]
          exact ⟨Eq.refl _, fun _ => ReadOutcome.noConfusion⟩
        · rw [if_neg fun hboth => hlast hboth.2]
          by_cases hclock : expired = true
          · rw [if_pos hclock]
            exact ⟨Eq.refl _, fun _ => ReadOutcome.noConfusion⟩
          · rw [if_neg (not_or.mpr ⟨hlast, hclock⟩)] at h
            rw [if_neg hclock, if_pos (Eq.refl _)]
            exact ih h (by omega)
    | closed => exact ⟨Eq.refl _, fun _ => ReadOutcome.noConfusion⟩

/-- A read that does not block, or that has bytes already, does not wait for the first one. -/
theorem tryReadSocket_waited_false {events : List LinkEvent} {attempts size : ℕ} {before : List UInt8}
    (h : mode = .nonBlocking ∨ before ≠ []) :
    (tryReadSocket mode events attempts before size).waited = false := by
  induction events generalizing attempts before size with
  | nil =>
    cases size with
    | zero => exact Eq.refl _
    | succ s =>
      cases h with
      | inl hmode =>
        unfold tryReadSocket
        rw [hmode]
        dsimp only
        split
        · exact Eq.refl _
        · exact Eq.refl _
      | inr hsome =>
        unfold tryReadSocket
        cases mode with
        | blocking => exact List.isEmpty_eq_false_iff.mpr hsome
        | nonBlocking =>
          dsimp only
          rw [if_neg fun hboth => hsome hboth.1]
  | cons event events ih =>
    cases size with
    | zero => exact Eq.refl _
    | succ s =>
      cases event with
      | bytes first more =>
        unfold tryReadSocket
        dsimp only
        split
        · exact ih (.inr (List.append_ne_nil_of_right_ne_nil _ (List.cons_ne_nil _ _)))
        · exact Eq.refl _
      | quiet expired =>
        unfold tryReadSocket
        cases mode with
        | blocking =>
          have hsome : before ≠ [] := h.resolve_left SocketMode.noConfusion
          dsimp only
          rw [ih h, List.isEmpty_eq_false_iff.mpr hsome]
          exact Eq.refl _
        | nonBlocking =>
          dsimp only
          split
          · exact Eq.refl _
          · split
            · exact Eq.refl _
            · exact ih (.inl (Eq.refl _))
      | closed => exact Eq.refl _

/-- A read waits for its first byte when it blocks and none is there. -/
theorem tryReadSocket_waited (events : List LinkEvent) (attempts : ℕ) {size : ℕ} (hsize : 0 < size) :
    (tryReadSocket mode events attempts [] size).waited =
      (decide (mode = .blocking) && idle events) := by
  obtain ⟨s, hs⟩ := Nat.exists_eq_succ_of_ne_zero (Nat.ne_of_gt hsize)
  rw [hs, Nat.succ_eq_add_one]
  cases mode with
  | nonBlocking => exact tryReadSocket_waited_false (.inl (Eq.refl _))
  | blocking =>
    cases events with
    | nil => exact Eq.refl _
    | cons event events =>
      cases event with
      | bytes first more =>
        unfold tryReadSocket
        dsimp only
        split
        · exact tryReadSocket_waited_false
            (.inr (List.append_ne_nil_of_right_ne_nil _ (List.cons_ne_nil _ _)))
        · exact Eq.refl _
      | quiet expired => exact Eq.refl _
      | closed => exact Eq.refl _

end Reads

section Calls

variable {F : Type} [Add F] {codec : FloatCodec F} {machine : Machine} {mode : SocketMode}
  {socket bufferElems : ℕ} {c : NnPipelineCommunicator F} {stats : TransferStats}
  {headerMaxAttempts : ℕ} {events : List LinkEvent}

/-- A call that returns false leaves the communicator and the figures, whatever it took. -/
theorem recvActivation_false
    (h : (recvActivation codec machine mode socket bufferElems c stats headerMaxAttempts
      events).result = some false) :
    (recvActivation codec machine mode socket bufferElems c stats headerMaxAttempts
        events).communicator = c ∧
      (recvActivation codec machine mode socket bufferElems c stats headerMaxAttempts
        events).stats = stats := by
  unfold recvActivation at h ⊢
  dsimp only at h ⊢
  split
  · exact ⟨Eq.refl _, Eq.refl _⟩
  · exact ⟨Eq.refl _, Eq.refl _⟩
  · exact ⟨Eq.refl _, Eq.refl _⟩
  · rename_i headerData rest hread
    rw [hread] at h
    dsimp only at h
    split
    · rename_i hsizes
      rw [if_pos hsizes] at h
      split
      · exact ⟨Eq.refl _, Eq.refl _⟩
      · exact ⟨Eq.refl _, Eq.refl _⟩
      · exact ⟨Eq.refl _, Eq.refl _⟩
      · rename_i payload rest' hpayload
        rw [hpayload] at h
        dsimp only at h
        split
        · exact ⟨Eq.refl _, Eq.refl _⟩
        · rename_i values c' htake
          rw [htake] at h
          cases h
    · exact ⟨Eq.refl _, Eq.refl _⟩

theorem recvActivation_waited :
    (recvActivation codec machine mode socket bufferElems c stats headerMaxAttempts
      events).waited = (decide (mode = .blocking) && idle events) := by
  rw [← tryReadSocket_waited events headerMaxAttempts machine.headerBytes_pos]
  unfold recvActivation
  dsimp only
  split
  · rename_i hread
    rw [hread]
  · rename_i hread
    rw [hread]
  · rename_i hread
    rw [hread]
  · rename_i hread
    rw [hread]
    split
    · split
      · exact Eq.refl _
      · exact Eq.refl _
      · exact Eq.refl _
      · split
        · exact Eq.refl _
        · exact Eq.refl _
    · exact Eq.refl _

/-- What is left after bytes were taken is not all there was. -/
theorem bytesOf_ne {taken : List UInt8} {rest : List LinkEvent} (htaken : taken ≠ [])
    (h : bytesOf events = taken ++ bytesOf rest) : bytesOf rest ≠ bytesOf events := by
  intro hsame
  have hlength := congrArg List.length h
  rw [hsame, List.length_append] at hlength
  have hpos := List.length_pos_iff.mpr htaken
  omega

variable (codec socket bufferElems c stats) in
/-- A call whose header does not come in full. -/
theorem recvActivation_short {outcome : ReadOutcome} {rest : List LinkEvent} {waited : Bool}
    (hread : tryReadSocket mode events headerMaxAttempts [] machine.headerBytes =
      ⟨outcome, rest, waited⟩) (hshort : ∀ data, outcome ≠ .done data) :
    (recvActivation codec machine mode socket bufferElems c stats headerMaxAttempts events).result =
        (if outcome = .blocked then none else some false) ∧
      (recvActivation codec machine mode socket bufferElems c stats headerMaxAttempts events).link =
        rest := by
  unfold recvActivation
  rw [hread]
  cases outcome with
  | done data => exact absurd (Eq.refl _) (hshort data)
  | notYet => exact ⟨Eq.refl _, Eq.refl _⟩
  | threw => exact ⟨Eq.refl _, Eq.refl _⟩
  | blocked => exact ⟨Eq.refl _, Eq.refl _⟩

variable (codec socket bufferElems c stats) in
/-- A call whose header comes, with sizes that do not agree. -/
theorem recvActivation_sizes {headerData : List UInt8} {rest : List LinkEvent} {waited : Bool}
    (hread : tryReadSocket mode events headerMaxAttempts [] machine.headerBytes =
      ⟨.done headerData, rest, waited⟩) (hsizes : ¬sizesOk machine (machine.decodeHeader headerData)) :
    (recvActivation codec machine mode socket bufferElems c stats headerMaxAttempts events).result =
        some false ∧
      (recvActivation codec machine mode socket bufferElems c stats headerMaxAttempts events).link =
        rest := by
  unfold recvActivation
  rw [hread]
  dsimp only
  rw [if_neg hsizes]
  exact ⟨Eq.refl _, Eq.refl _⟩

variable (codec socket bufferElems c stats) in
/-- A call whose payload does not come in full. -/
theorem recvActivation_cut {headerData : List UInt8} {rest rest' : List LinkEvent}
    {outcome : ReadOutcome} {waited waited' : Bool}
    (hread : tryReadSocket mode events headerMaxAttempts [] machine.headerBytes =
      ⟨.done headerData, rest, waited⟩) (hsizes : sizesOk machine (machine.decodeHeader headerData))
    (hpayload : readPayload mode (machine.decodeHeader headerData) rest = ⟨outcome, rest', waited'⟩)
    (hshort : ∀ data, outcome ≠ .done data) :
    (recvActivation codec machine mode socket bufferElems c stats headerMaxAttempts events).result =
        (if outcome = .blocked then none else some false) ∧
      (recvActivation codec machine mode socket bufferElems c stats headerMaxAttempts events).link =
        rest' := by
  unfold recvActivation
  rw [hread]
  dsimp only
  rw [if_pos hsizes, hpayload]
  cases outcome with
  | done data => exact absurd (Eq.refl _) (hshort data)
  | notYet => exact ⟨Eq.refl _, Eq.refl _⟩
  | threw => exact ⟨Eq.refl _, Eq.refl _⟩
  | blocked => exact ⟨Eq.refl _, Eq.refl _⟩

variable (codec socket bufferElems c stats) in
/-- A call whose frame comes. -/
theorem recvActivation_full {headerData payload : List UInt8} {rest rest' : List LinkEvent}
    {waited waited' : Bool}
    (hread : tryReadSocket mode events headerMaxAttempts [] machine.headerBytes =
      ⟨.done headerData, rest, waited⟩) (hsizes : sizesOk machine (machine.decodeHeader headerData))
    (hpayload : readPayload mode (machine.decodeHeader headerData) rest =
      ⟨.done payload, rest', waited'⟩) :
    (recvActivation codec machine mode socket bufferElems c stats headerMaxAttempts events).result =
        some (takeIn codec machine socket bufferElems c headerData payload).isSome ∧
      (recvActivation codec machine mode socket bufferElems c stats headerMaxAttempts events).link =
        rest' := by
  unfold recvActivation
  rw [hread]
  dsimp only
  rw [if_pos hsizes, hpayload]
  dsimp only
  cases takeIn codec machine socket bufferElems c headerData payload with
  | none => exact ⟨Eq.refl _, Eq.refl _⟩
  | some taken => exact ⟨Eq.refl _, Eq.refl _⟩

/-- When a read does not get all it asks for, the link fails or the read waits for ever. -/
theorem Reads.short {before : List UInt8} {size : ℕ} {result : ReadResult}
    (h : Reads mode events before size result) (hshort : ¬size ≤ (stream mode events).1.length) :
    result.outcome = (if (stream mode events).2 then .threw else .blocked) ∧
      ∀ data, result.outcome ≠ .done data := by
  have houtcome := h.outcome
  rw [if_neg hshort] at houtcome
  refine ⟨houtcome, ?_⟩
  intro data
  rw [houtcome]
  cases (stream mode events).2 with
  | true => exact ReadOutcome.noConfusion
  | false => exact ReadOutcome.noConfusion

/-- A call that gets a first byte leaves the link as it was when it returns false exactly when what
comes is a frame that is taken in, or its beginning on a link that does not fail. -/
theorem link_iff_of_arrives (harrives : arrives mode headerMaxAttempts events = true) :
    ((recvActivation codec machine mode socket bufferElems c stats headerMaxAttempts
          events).result = some false →
        bytesOf (recvActivation codec machine mode socket bufferElems c stats headerMaxAttempts
          events).link = bytesOf events) ↔
      FrameComes codec machine socket bufferElems c (stream mode events).1
        (stream mode events).2 := by
  obtain ⟨hheader, hsome⟩ := reads_of_arrives harrives machine.headerBytes_pos
  have hpos : 0 < (stream mode events).1.length := List.length_pos_iff.mpr hsome
  have hbytes := machine.headerBytes_pos
  have htaken := hheader.taken
  have hnonempty : (stream mode events).1.take machine.headerBytes ≠ [] := by
    rw [← List.length_pos_iff, List.length_take]
    omega
  generalize hread : tryReadSocket mode events headerMaxAttempts [] machine.headerBytes = result
    at hheader htaken
  obtain ⟨outcome, rest, waited⟩ := result
  dsimp only at htaken
  by_cases hcomes : machine.headerBytes ≤ (stream mode events).1.length
  · have houtcome := hheader.outcome
    have hafter := hheader.after hcomes
    rw [if_pos hcomes, List.nil_append] at houtcome
    dsimp only at houtcome hafter
    rw [houtcome] at hread
    by_cases hsizes : sizesOk machine
        (machine.decodeHeader ((stream mode events).1.take machine.headerBytes))
    · have hpayload : Reads mode rest [] _ (readPayload mode
          (machine.decodeHeader ((stream mode events).1.take machine.headerBytes)) rest) :=
        reads_readPayload _ rest
      generalize hread' : readPayload mode
        (machine.decodeHeader ((stream mode events).1.take machine.headerBytes)) rest = result'
        at hpayload
      obtain ⟨outcome', rest', waited'⟩ := result'
      have htaken' := hpayload.taken
      have hstream : (stream mode rest).1 = (stream mode events).1.drop machine.headerBytes := by
        rw [hafter]
      have hfails : (stream mode rest).2 = (stream mode events).2 := by
        rw [hafter]
      have hall : bytesOf rest' ≠ bytesOf events := by
        have hboth : bytesOf events = ((stream mode events).1.take machine.headerBytes ++
            (stream mode rest).1.take (machine.decodeHeader
              ((stream mode events).1.take machine.headerBytes)).payloadBytes) ++
            bytesOf rest' := by
          rw [htaken, htaken', List.append_assoc]
        exact bytesOf_ne (List.append_ne_nil_of_left_ne_nil hnonempty _) hboth
      by_cases hfull : (machine.decodeHeader
          ((stream mode events).1.take machine.headerBytes)).payloadBytes ≤
          (stream mode rest).1.length
      · have houtcome' := hpayload.outcome
        rw [if_pos hfull, List.nil_append] at houtcome'
        dsimp only at houtcome'
        rw [houtcome'] at hread'
        obtain ⟨hresult, hlink⟩ := recvActivation_full codec socket bufferElems c stats hread hsizes hread'
        rw [hresult, hlink]
        rw [hstream, List.length_drop] at hfull
        rw [hstream]
        constructor
        · intro h
          refine ⟨fun hshort => absurd hcomes (by omega), fun _ => hsizes,
            fun _ hshort => absurd hfull (by omega), fun _ _ => ?_⟩
          cases htake : takeIn codec machine socket bufferElems c
              ((stream mode events).1.take machine.headerBytes)
              (((stream mode events).1.drop machine.headerBytes).take
                (machine.decodeHeader
                  ((stream mode events).1.take machine.headerBytes)).payloadBytes) with
          | none =>
            rw [htake] at h
            exact absurd (h (Eq.refl _)) hall
          | some taken => exact Eq.refl _
        · intro h hfalse
          have htake := h.takenIn hcomes (by omega)
          rw [htake] at hfalse
          cases hfalse
      · obtain ⟨houtcome', hshort⟩ := hpayload.short hfull
        obtain ⟨hresult, hlink⟩ := recvActivation_cut codec socket bufferElems c stats hread hsizes hread' hshort
        dsimp only at houtcome'
        rw [hresult, hlink, houtcome', hfails]
        rw [hstream, List.length_drop] at hfull
        cases hlinkFails : (stream mode events).2 with
        | true =>
          constructor
          · intro h
            exact absurd (h (Eq.refl _)) hall
          · intro h
            have hopen := h.payload hcomes (by omega)
            cases hopen
        | false =>
          constructor
          · intro _
            exact ⟨fun _ => Eq.refl _, fun _ => hsizes, fun _ _ => Eq.refl _,
              fun _ hlong => absurd hlong (by omega)⟩
          · intro _ hfalse
            cases hfalse
    · obtain ⟨hresult, hlink⟩ := recvActivation_sizes codec socket bufferElems c stats hread hsizes
      rw [hresult, hlink]
      constructor
      · intro h
        exact absurd (h (Eq.refl _)) (bytesOf_ne hnonempty htaken)
      · intro h
        exact absurd (h.sizes hcomes) hsizes
  · obtain ⟨houtcome, hshort⟩ := hheader.short hcomes
    obtain ⟨hresult, hlink⟩ := recvActivation_short codec socket bufferElems c stats hread hshort
    dsimp only at houtcome
    rw [hresult, hlink, houtcome]
    cases hlinkFails : (stream mode events).2 with
    | true =>
      constructor
      · intro h
        exact absurd (h (Eq.refl _)) (bytesOf_ne hnonempty htaken)
      · intro h
        have hopen := h.header (by omega)
        cases hopen
    | false =>
      constructor
      · intro _
        exact ⟨fun _ => Eq.refl _, fun hlong => absurd hlong hcomes,
          fun hlong => absurd hlong hcomes, fun hlong => absurd hlong hcomes⟩
      · intro _ hfalse
        cases hfalse

/-- A polled receive takes nothing that it does not return, and does not wait on an idle link,
exactly when a socket that blocks has something to give and what comes after a first byte is a frame
that is taken in, or its beginning on a link that does not fail. -/
theorem recvActivation_nonConsuming_iff (hattempts : 0 < headerMaxAttempts) :
    NonConsuming c stats events
        (recvActivation codec machine mode socket bufferElems c stats headerMaxAttempts events) ↔
      (mode = .blocking → idle events = false) ∧
        (arrives mode headerMaxAttempts events = true →
          FrameComes codec machine socket bufferElems c (stream mode events).1
            (stream mode events).2) := by
  have hwaits : (recvActivation codec machine mode socket bufferElems c stats headerMaxAttempts
      events).waited = false ↔ (mode = .blocking → idle events = false) := by
    rw [recvActivation_waited]
    cases mode with
    | blocking =>
      constructor
      · intro h _
        exact h
      · intro h
        exact h (Eq.refl _)
    | nonBlocking =>
      constructor
      · intro _ h
        cases h
      · intro _
        exact Eq.refl _
  constructor
  · intro h
    exact ⟨hwaits.mp h.waits, fun harrives => (link_iff_of_arrives harrives).mp h.link⟩
  · intro h
    refine ⟨hwaits.mpr h.1, ?_, fun hfalse => (recvActivation_false hfalse).1,
      fun hfalse => (recvActivation_false hfalse).2⟩
    cases harrives : arrives mode headerMaxAttempts events with
    | true => exact (link_iff_of_arrives harrives).mpr (h.2 harrives)
    | false =>
      intro _
      obtain ⟨hbytes, hshort⟩ :=
        tryReadSocket_of_not_arrives harrives hattempts machine.headerBytes_pos
      generalize hread : tryReadSocket mode events headerMaxAttempts [] machine.headerBytes = result
        at hbytes hshort
      obtain ⟨outcome, rest, waited⟩ := result
      rw [(recvActivation_short codec socket bufferElems c stats hread hshort).2]
      exact hbytes

end Calls

/-- A machine with eight bytes to a size, low byte first. -/
def wordMachine : Machine where
  headerBytes := 48
  headerBytes_pos := by decide
  decodeHeader data :=
    let sizeAt (offset : ℕ) : ℕ :=
      (wordAt data offset).toNat + 4294967296 * (wordAt data (offset + 4)).toNat
    { seqPosition := wordAt data 0
      batchIndex := wordAt data 4
      sliceId := (wordAt data 8).toNat
      dtype := (NnFloatType.ofUint (wordAt data 12)).getD .f32
      payloadBytes := sizeAt 16
      totalPayloadBytes := sizeAt 24
      streamChunkBytes := sizeAt 32
      flags := wordAt data 40
      checksum := wordAt data 44 }
  knownDtype data := (NnFloatType.ofUint (wordAt data 12)).isSome
  allocatable := 4294967296

/-- The second of two stages before its first frame. -/
def secondStage : NnPipelineCommunicator NnUint :=
  .create ⟨2, 2, 1, 1⟩ ⟨1, 1, 0, 0, 1, 2, 1, 2⟩ false 0 0

/-- Header and payload of one value, without flags or as a difference. -/
def oneValue (flags : UInt8) : LinkEvent :=
  .bytes 0 (List.replicate 15 0 ++ [4, 0, 0, 0, 0, 0, 0, 0, 4, 0, 0, 0, 0, 0, 0, 0] ++
    List.replicate 8 0 ++ [flags, 0, 0, 0] ++ List.replicate 4 0 ++ [7, 0, 0, 0])

theorem recvActivation_nonConsuming_value :
    NonConsuming secondStage ⟨0, 0, 0, 0⟩ [.quiet false, oneValue 0]
      (recvActivation wordCodec wordMachine .nonBlocking 0 1 secondStage ⟨0, 0, 0, 0⟩ 2
        [.quiet false, oneValue 0]) := by
  have hcomes : FrameComes wordCodec wordMachine 0 1 secondStage
      (stream .nonBlocking [.quiet false, oneValue 0]).1
      (stream .nonBlocking [.quiet false, oneValue 0]).2 := by
    constructor
    · decide +kernel
    · decide +kernel
    · decide +kernel
    · decide +kernel
  apply (recvActivation_nonConsuming_iff (by decide)).mpr
  constructor
  · decide
  · intro _
    exact hcomes

/-- A poll waits on an idle link that blocks, and takes a difference that has no base. -/
theorem poll_waits_and_loses :
    ¬NonConsuming secondStage ⟨0, 0, 0, 0⟩ []
        (recvActivation wordCodec wordMachine .blocking 0 1 secondStage ⟨0, 0, 0, 0⟩ 1 []) ∧
      ¬NonConsuming secondStage ⟨0, 0, 0, 0⟩ [oneValue 2]
        (recvActivation wordCodec wordMachine .nonBlocking 0 1 secondStage ⟨0, 0, 0, 0⟩ 1
          [oneValue 2]) := by
  constructor
  · intro h
    have hwaits := h.waits
    revert hwaits
    decide
  · intro h
    have hlink := h.link
    revert hlink
    decide +kernel

end LayerSkip.PolledReceive
