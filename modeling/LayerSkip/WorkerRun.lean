import LayerSkip.WorkerLlmInference

/-!
# Runs of a worker

A run handles control packets one after the other. The frames that will come in
on each socket are given in advance; a read of an empty socket waits forever.
Everything the outside sees of a run is its list of receives, forwards and sends.
-/

namespace LayerSkip.WorkerRun

open NnTopology NnPipeline WorkerLlmInference WorkerState

variable {F E : Type} [Add F] [Sub F] [LE F] [DecidableLE F] [LT F] [DecidableLT F]

/-- What the outside sees of a worker. -/
inductive Event
  /-- A frame is read from a socket. -/
  | recv (socket : ℕ) (frame : Frame)
  /-- The executor runs. -/
  | forward (decodePhase : Bool) (batchSize : NnUint)
  /-- A frame is written to a socket. -/
  | send (socket : ℕ) (frame : Frame)

/-- Why a run ends before its packets do. -/
inductive Stop
  /-- The stop packet. -/
  | finished
  /-- No more frames where one is awaited. -/
  | blocked
  /-- An exception with its text. -/
  | failed (text : String)

/-- Frames still to come, by socket. -/
abbrev Inbox := ℕ → List Frame

/-- Read the next frame of a socket. -/
def readFrame (inbox : Inbox) (socket : ℕ) : Option (Frame × Inbox) :=
  match inbox socket with
  | [] => none
  | frame :: frames => some (frame, Function.update inbox socket frames)

variable (w : WorkerConfig F E)

/-- Outcome of a part of a run: the state, the frames left and the frame read. -/
abbrev Received (F E : Type) := WorkerState F E × Inbox × Frame

/-- A blocking receive from one stage. -/
def recvBlocking (s : WorkerState F E) (inbox : Inbox) (c : NnPipelineCommunicator F)
    (sourcePpRank : ℕ) : List Event × Except Stop (Received F E) :=
  match c.recvSocket sourcePpRank with
  | .error text => ([], .error (.failed text))
  | .ok socket =>
    match readFrame inbox socket with
    | none => ([], .error .blocked)
    | some (frame, inbox) =>
      match s.recvActivation w socket frame with
      | none => ([.recv socket frame], .error (.failed "Failed to receive pipeline activation"))
      | some s => ([.recv socket frame], .ok (s, inbox, frame))

/-- One poll of a socket. A frame that is not accepted is gone. -/
def pollOnce (s : WorkerState F E) (inbox : Inbox) (socket : ℕ) :
    List Event × Inbox × Option (Received F E) :=
  match readFrame inbox socket with
  | none => ([], inbox, none)
  | some (frame, inbox) =>
    ([.recv socket frame], inbox, (s.recvActivation w socket frame).map fun s => (s, inbox, frame))

/-- The polling loop over two sockets, for at most so many rounds. -/
def pollLoop (s : WorkerState F E) (bypassSocket normalSocket : ℕ) :
    ℕ → Inbox → List Event × Except Stop (Received F E)
  | 0, _ => ([], .error .blocked)
  | rounds + 1, inbox =>
    match pollOnce w s inbox bypassSocket with
    | (events, _, some received) => (events, .ok received)
    | (events, inbox, none) =>
      match pollOnce w s inbox normalSocket with
      | (events', _, some received) => (events ++ events', .ok received)
      | (events', inbox, none) =>
        let (later, result) := pollLoop s bypassSocket normalSocket rounds inbox
        (events ++ events' ++ later, result)

/-- The receive of `beforeForward`. Every round of the polling loop that is not
the last takes a frame, so the frames in the two sockets bound the rounds. -/
def recvAny (s : WorkerState F E) (inbox : Inbox) (c : NnPipelineCommunicator F)
    (bypassSource normalSource : ℕ) : List Event × Except Stop (Received F E) :=
  match c.recvSocket bypassSource with
  | .error text => ([], .error (.failed text))
  | .ok bypassSocket =>
    match c.recvSocket normalSource with
    | .error text => ([], .error (.failed text))
    | .ok normalSocket =>
      pollLoop w s bypassSocket normalSocket
        ((inbox bypassSocket).length + (inbox normalSocket).length + 1) inbox

/-- `beforeForward`. -/
def beforeForward (s : WorkerState F E) (inbox : Inbox) :
    List Event × Except Stop (WorkerState F E × Inbox) :=
  let s := s.beginForward
  let received := match s.recvFrom w, s.pipeline with
    | .source ppRank, some c => some (recvBlocking w s inbox c ppRank)
    | .poll bypassSource normalSource, some c => some (recvAny w s inbox c bypassSource normalSource)
    | _, _ => none
  match received with
  | none => ([], .ok (s, inbox))
  | some (events, .error stop) => (events, .error stop)
  | some (events, .ok (s, inbox, frame)) =>
    match s.afterRecv w frame.header with
    | .error text => (events, .error (.failed text))
    | .ok s => (events, .ok (s, inbox))

/-- The forward of one round of the loop. -/
def forwardEvents (s : WorkerState F E) : List Event :=
  if s.skipForwardThisToken then [] else [.forward s.decodePhase s.batchSize]

/-- One round of the loop of `runWorkerApp`. -/
def handlePacket (s : WorkerState F E) (inbox : Inbox) (p : LlmControlPacket F) :
    List Event × Except Stop (WorkerState F E × Inbox) :=
  match s.tryReadControlPacket w p with
  | .error text => ([], .error (.failed text))
  | .ok s =>
    if s.isFinished then ([], .error .finished)
    else
      match beforeForward w s inbox with
      | (events, .error stop) => (events, .error stop)
      | (events, .ok (s, inbox)) =>
        let events := events ++ forwardEvents s
        match (s.forward w).afterForward w with
        | .error text => (events, .error (.failed text))
        | .ok (s, frames) => (events ++ frames.map fun f => .send f.1 f.2, .ok (s, inbox))

/-- A whole run: what the outside sees, and how it ends. -/
def run (s : WorkerState F E) (inbox : Inbox) :
    List (LlmControlPacket F) → List Event × Except Stop Unit
  | [] => ([], .ok ())
  | p :: ps =>
    match handlePacket w s inbox p with
    | (events, .error stop) => (events, .error stop)
    | (events, .ok (s, inbox)) =>
      let (later, result) := run s inbox ps
      (events ++ later, result)

/-- States after each packet that was handled to its end. -/
def runStates (s : WorkerState F E) (inbox : Inbox) :
    List (LlmControlPacket F) → List (WorkerState F E)
  | [] => []
  | p :: ps =>
    match (handlePacket w s inbox p).2 with
    | .error _ => []
    | .ok (s, inbox) => s :: runStates s inbox ps

section Words

/-- Numbers that are 32-bit words, sent as their four bytes. Only this format
is meant to be used; the others carry zeros. -/
def wordCodec : FloatCodec NnUint where
  encode dtype xs := match dtype with
    | .f32 => xs.flatMap fun x => (List.range 4).map fun i => (x >>> (8 * i).toUInt32).toUInt8
    | dtype => List.replicate (getBytes dtype xs.length) 0
  decode dtype bytes := match dtype with
    | .f32 => (List.range (bytes.length / 4)).map fun i => wordAt bytes (4 * i)
    | dtype => List.replicate ((decodedElems dtype bytes.length).getD 0) 0
  encode_length dtype xs := by
    cases dtype with
    | f32 => simp [getBytes, List.length_flatMap, Nat.mul_comm]
    | f16 | q40 | q80 => exact List.length_replicate
  decode_length dtype bytes n h := by
    cases dtype with
    | f32 => simpa [decodedElems] using h
    | f16 | q40 | q80 => simp [h]

theorem testBit_low_byte (x : NnUint) (i : ℕ) :
    (x % (256 : NnUint)).toNat.testBit i = (decide (i < 8) && x.toNat.testBit i) := by
  have hmask : (x % (256 : NnUint)).toNat = x.toNat % 2 ^ 8 := rfl
  rw [hmask, Nat.testBit_mod_two_pow]

theorem testBit_byte (x n : NnUint) (hn : n.toNat < 32) {i : ℕ} (hi : i < 32) :
    ((x >>> n % (256 : NnUint)) <<< n).toNat.testBit i =
      (decide (n.toNat ≤ i ∧ i < n.toNat + 8) && x.toNat.testBit i) := by
  rw [UInt32.toNat_shiftLeft, Nat.testBit_mod_two_pow, Nat.testBit_shiftLeft, testBit_low_byte,
    UInt32.toNat_shiftRight, Nat.testBit_shiftRight, Nat.mod_eq_of_lt hn]
  by_cases h : n.toNat ≤ i
  · have hback : n.toNat + (i - n.toNat) = i := by omega
    have hwindow : (i - n.toNat < 8) = (i < n.toNat + 8) := by
      apply propext
      omega
    rw [hback]
    simp [hi, h, hwindow]
  · simp [h]

/-- A word is put together from its bytes. -/
theorem word_of_bytes (x : NnUint) :
    x % (256 : NnUint) ||| (x >>> 8 % (256 : NnUint)) <<< 8 |||
      (x >>> 16 % (256 : NnUint)) <<< 16 ||| (x >>> 24 % (256 : NnUint)) <<< 24 = x := by
  apply UInt32.toNat_inj.mp
  apply Nat.eq_of_testBit_eq
  intro i
  rw [UInt32.toNat_or, UInt32.toNat_or, UInt32.toNat_or, Nat.testBit_or, Nat.testBit_or,
    Nat.testBit_or]
  by_cases hi : i < 32
  · have h8 : (8 : NnUint).toNat = 8 := rfl
    have h16 : (16 : NnUint).toNat = 16 := rfl
    have h24 : (24 : NnUint).toNat = 24 := rfl
    rw [testBit_low_byte, testBit_byte x 8 (by decide) hi, testBit_byte x 16 (by decide) hi,
      testBit_byte x 24 (by decide) hi, h8, h16, h24]
    cases x.toNat.testBit i with
    | false => simp
    | true =>
      simp
      omega
  · have hout (y : NnUint) : y.toNat.testBit i = false :=
      Nat.testBit_lt_two_pow
        (Nat.lt_of_lt_of_le y.toNat_lt (Nat.pow_le_pow_right (by decide) (by omega)))
    simp only [hout]
    rfl

/-- Bytes of a word. -/
def wordBytes (x : NnUint) : List UInt8 :=
  (List.range 4).map fun i => (x >>> (8 * i).toUInt32).toUInt8

theorem wordAt_zero (x : NnUint) (rest : List UInt8) : wordAt (wordBytes x ++ rest) 0 = x := by
  have hrange : List.range 4 = [0, 1, 2, 3] := rfl
  unfold wordBytes wordAt
  rw [hrange]
  simpa using word_of_bytes x

theorem wordAt_add_four (x : NnUint) (rest : List UInt8) (offset : ℕ) :
    wordAt (wordBytes x ++ rest) (4 + offset) = wordAt rest offset := by
  unfold wordAt
  congr 1
  apply List.map_congr_left
  intro i _
  have hget : (wordBytes x ++ rest).getD (4 + offset + i) 0 = rest.getD (offset + i) 0 := by
    have hlen : (wordBytes x).length = 4 := rfl
    rw [List.getD_eq_getElem?_getD, List.getD_eq_getElem?_getD,
      List.getElem?_append_right (by omega), hlen]
    congr 2
    omega
  rw [hget]

/-- Words are copied. -/
theorem wordCodec_f32 (xs : List NnUint) :
    wordCodec.decode .f32 (wordCodec.encode .f32 xs) = xs := by
  induction xs with
  | nil => rfl
  | cons x xs ih =>
    have hbytes : wordCodec.encode .f32 (x :: xs) =
        wordBytes x ++ wordCodec.encode .f32 xs := rfl
    have hlen : (wordBytes x ++ wordCodec.encode .f32 xs).length / 4 =
        (wordCodec.encode .f32 xs).length / 4 + 1 := by
      have hfour : (wordBytes x).length = 4 := rfl
      rw [List.length_append, hfour]
      omega
    have hdecode (bytes : List UInt8) : wordCodec.decode .f32 bytes =
        (List.range (bytes.length / 4)).map fun i => wordAt bytes (4 * i) := rfl
    rw [hdecode] at ih
    rw [hbytes, hdecode, hlen, List.range_succ_eq_map, List.map_cons, List.map_map, Nat.mul_zero,
      wordAt_zero]
    refine congrArg (x :: ·) (Eq.trans (List.map_congr_left fun i _ => ?_) ih)
    change wordAt (wordBytes x ++ wordCodec.encode .f32 xs) (4 * (i + 1)) = _
    rw [Nat.mul_succ, Nat.add_comm (4 * i), wordAt_add_four]

/-- An executor whose X pipe is its state and whose forward changes nothing. -/
def wordEngine : Engine NnUint (List NnUint) where
  xPipe e n := (List.range n).map fun i => e.getD i 0
  writeXPipe e xs := xs ++ e.drop xs.length
  setPositions e _ := e
  forward _ _ e := e
  logitsPipe _ n := List.replicate n 0
  xPipe_length _ n := by simp
  logitsPipe_length _ n := by simp

/-- A worker of one stage of a chain with rows of one word. -/
def wordWorker (ppRank : ℕ) : WorkerConfig NnUint (List NnUint) where
  codec := wordCodec
  engine := wordEngine
  nodeConfig := ⟨ppRank, ppRank, 0, 0, ppRank, ppRank + 1, ppRank, ppRank + 1⟩
  maxBatchSize := 1
  xPipeRow := 1
  logitsPipeRow := 1
  fusedLmHeadArgmax := false
  computeDeltaNormEncoded curr prev := some (curr.headD 0 - prev.headD 0)
  ofUint x := x

/-- A decode packet with stage 2 as the stage to leave out. -/
def decodePacket (position shadow enabled maxConsecutive maxRejectStreak : NnUint) :
    LlmControlPacket NnUint where
  position := position
  batchSize := 1
  phase := 1
  positionMode := 0
  tokenOnlyMode := 0
  topKCount := 0
  activationType := 0
  pipelineDelta := 0
  pipelineDeltaMinBytes := 0
  pipelineChunkBytes := 0
  stageSkipShadow := shadow
  stageSkipEnabled := enabled
  stageSkipTarget := 2
  stageSkipTheta := 10
  stageSkipMaxConsecutive := maxConsecutive
  stageSkipMaxRejectStreak := maxRejectStreak
  batchPositions := []
  spGroups := []

/-- The links of a stage of a chain before any packet. -/
def chainLinks (nStages ppRank : ℕ) : NnPipelineCommunicator NnUint :=
  .create ⟨nStages, nStages, 1, 1⟩
    ⟨ppRank, ppRank, 0, 0, ppRank, ppRank + 1, ppRank, ppRank + 1⟩ false 0 0

/-- A fresh worker of a chain. -/
def chainWorker (nStages ppRank : ℕ) : WorkerState NnUint (List NnUint) :=
  .create (some (chainLinks nStages ppRank)) (decodePacket 0 0 0 0 0) .f32 []

/-- A frame with one word at a position. -/
def wordFrame (position x : NnUint) : Frame :=
  (chainLinks 4 0).makeFrame wordCodec 0 position 0 0 [x] .f32 0

end Words

variable {w}

section

omit [Sub F] [LE F] [DecidableLE F] [LT F] [DecidableLT F]

theorem recvBlocking_received {s : WorkerState F E} {inbox : Inbox} {c : NnPipelineCommunicator F}
    {sourcePpRank : ℕ} {r : Received F E}
    (h : (recvBlocking w s inbox c sourcePpRank).2 = .ok r) :
    ∃ socket, s.recvActivation w socket r.2.2 = some r.1 := by
  unfold recvBlocking at h
  split at h
  · cases h
  · rename_i socket _
    split at h
    · cases h
    · split at h
      · cases h
      · rename_i hr
        cases h
        exact ⟨socket, hr⟩

theorem pollOnce_received {s : WorkerState F E} {inbox : Inbox} {socket : ℕ} {r : Received F E}
    (h : (pollOnce w s inbox socket).2.2 = some r) :
    s.recvActivation w socket r.2.2 = some r.1 := by
  unfold pollOnce at h
  split at h
  · cases h
  · obtain ⟨s', hs, he⟩ := Option.map_eq_some_iff.mp h
    rw [← he]
    exact hs

theorem pollLoop_received {s : WorkerState F E} {bypassSocket normalSocket rounds : ℕ}
    {inbox : Inbox} {r : Received F E}
    (h : (pollLoop w s bypassSocket normalSocket rounds inbox).2 = .ok r) :
    ∃ socket, s.recvActivation w socket r.2.2 = some r.1 := by
  induction rounds generalizing inbox with
  | zero => cases h
  | succ rounds ih =>
    unfold pollLoop at h
    split at h
    · rename_i hb
      cases h
      exact ⟨bypassSocket, pollOnce_received (by rw [hb])⟩
    · split at h
      · rename_i hn
        cases h
        exact ⟨normalSocket, pollOnce_received (by rw [hn])⟩
      · exact ih h

/-- A worker that awaits no row goes on as it is; any other one ends with the row of a frame. -/
theorem beforeForward_split {s s' : WorkerState F E} {inbox inbox' : Inbox}
    (h : (beforeForward w s inbox).2 = .ok (s', inbox')) :
    (s.recvFrom w = .nothing ∧ s' = s.beginForward) ∨ ∃ socket frame s₁,
      s.beginForward.recvActivation w socket frame = some s₁ ∧
        s₁.afterRecv w frame.header = .ok s' := by
  unfold beforeForward at h
  dsimp only at h
  split at h
  · rename_i hnone
    left
    have hidle : s.recvFrom w = .nothing := by
      split at hnone
      · cases hnone
      · cases hnone
      · rename_i hsource hpoll
        have hsame : s.beginForward.recvFrom w = s.recvFrom w := rfl
        cases hpipe : s.pipeline with
        | none =>
          unfold recvFrom
          rw [hpipe]
        | some c =>
          cases hfrom : s.recvFrom w with
          | nothing => rfl
          | source ppRank => exact (hsource ppRank c (hsame.trans hfrom) hpipe).elim
          | poll bypassSource normalSource =>
            exact (hpoll bypassSource normalSource c (hsame.trans hfrom) hpipe).elim
    cases h
    exact ⟨hidle, rfl⟩
  · cases h
  · rename_i events s₁ inbox₁ frame hrecv
    right
    have hone : ∃ socket, s.beginForward.recvActivation w socket frame = some s₁ := by
      split at hrecv
      · exact recvBlocking_received (r := (s₁, inbox₁, frame)) (by injection hrecv with hr; rw [hr])
      · unfold recvAny at hrecv
        split at hrecv
        · simp at hrecv
        · split at hrecv
          · simp at hrecv
          · exact pollLoop_received (r := (s₁, inbox₁, frame)) (by injection hrecv with hr; rw [hr])
      · cases hrecv
    obtain ⟨socket, hs⟩ := hone
    split at h
    · cases h
    · rename_i hafter
      cases h
      exact ⟨socket, frame, s₁, hs, hafter⟩

/-- `beforeForward` receives nothing, or one frame that it goes on with. -/
theorem beforeForward_cases {s s' : WorkerState F E} {inbox inbox' : Inbox}
    (h : (beforeForward w s inbox).2 = .ok (s', inbox')) :
    s' = s.beginForward ∨ ∃ socket frame s₁,
      s.beginForward.recvActivation w socket frame = some s₁ ∧
        s₁.afterRecv w frame.header = .ok s' := by
  rcases beforeForward_split h with ⟨-, hidle⟩ | hrecv
  · exact .inl hidle
  · exact .inr hrecv

end

/-- A packet handled to its end went through all four parts of a round. -/
theorem handlePacket_cases {s s' : WorkerState F E} {inbox inbox' : Inbox}
    {p : LlmControlPacket F} (h : (handlePacket w s inbox p).2 = .ok (s', inbox')) :
    ∃ s₁ s₂ frames, s.tryReadControlPacket w p = .ok s₁ ∧ s₁.isFinished = false ∧
      (beforeForward w s₁ inbox).2 = .ok (s₂, inbox') ∧
      (s₂.forward w).afterForward w = .ok (s', frames) := by
  unfold handlePacket at h
  split at h
  · cases h
  · rename_i s₁ hread
    split at h
    · cases h
    · rename_i hfin
      split at h
      · cases h
      · rename_i events s₂ inbox₂ hbefore
        dsimp only at h
        split at h
        · cases h
        · rename_i s₃ frames hafter
          cases h
          exact ⟨s₁, s₂, frames, hread, by simpa using hfin, by rw [hbefore], hafter⟩

end LayerSkip.WorkerRun
