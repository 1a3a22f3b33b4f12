import LayerSkip.WorkerRun
import Mathlib.Analysis.Real.Sqrt

/-!
# Relative change of the activation

At a single decode token a worker compares the row that came into its X pipe with the row of
the token before. Rows are floats; the comparison reads their bytes in the format that the
command line of the worker names for its buffers.
-/

namespace LayerSkip.DeltaNorm

open NnTopology NnPipeline WorkerLlmInference WorkerState WorkerRun

section Formats

/-- Number that a pattern of sign, exponent and mantissa stands for, without the patterns for
infinities and for no number. -/
def ieeeValue (exponentBits mantissaBits bits : ℕ) : ℚ :=
  let sign : ℚ := if bits / 2 ^ (exponentBits + mantissaBits) % 2 = 1 then -1 else 1
  let exponent := bits / 2 ^ mantissaBits % 2 ^ exponentBits
  let mantissa := bits % 2 ^ mantissaBits
  let scaled := if exponent = 0 then mantissa else (2 ^ mantissaBits + mantissa) * 2 ^ (exponent - 1)
  sign * scaled / 2 ^ (2 ^ (exponentBits - 1) + mantissaBits - 2)

/-- Number of a float. -/
def f32Value (bits : NnUint) : ℚ := ieeeValue 8 23 bits.toNat

/-- Number of a half float. -/
def f16Value (bits : ℕ) : ℚ := ieeeValue 5 10 bits

/-- Byte at an offset. -/
def byteAt (data : List UInt8) (offset : ℕ) : ℕ := (data.getD offset 0).toNat

/-- Half float at an offset. -/
def halfAt (data : List UInt8) (offset : ℕ) : ℚ :=
  f16Value (byteAt data offset + 256 * byteAt data (offset + 1))

/-- Numbers of the block at an offset: a half float times 32 signed bytes. -/
def blockQ80 (data : List UInt8) (offset : ℕ) : List ℚ :=
  (List.range q80BlockSize).map fun k =>
    halfAt data offset * ((data.getD (offset + 2 + k) 0).toInt8.toInt : ℚ)

/-- Numbers of the block at an offset: a half float times 32 signed halves of bytes. -/
def blockQ40 (data : List UInt8) (offset : ℕ) : List ℚ :=
  (List.range (q80BlockSize / 2)).flatMap fun k =>
    [halfAt data offset * ((byteAt data (offset + 2 + k) % 16 : ℕ) - 8 : ℚ),
      halfAt data offset * ((byteAt data (offset + 2 + k) / 16 : ℕ) - 8 : ℚ)]

/-- Numbers of a row of bytes, if these are whole numbers or blocks. -/
def rowValues (dtype : NnFloatType) (row : List UInt8) : Option (List ℚ) :=
  match dtype with
  | .f32 =>
    if row.length % 4 ≠ 0 then none
    else some ((List.range (row.length / 4)).map fun i => f32Value (wordAt row (4 * i)))
  | .f16 =>
    if row.length % 2 ≠ 0 then none
    else some ((List.range (row.length / 2)).map fun i => halfAt row (2 * i))
  | .q80 =>
    if row.length % 34 ≠ 0 then none
    else some ((List.range (row.length / 34)).flatMap fun i => blockQ80 row (34 * i))
  | .q40 =>
    if row.length % 18 ≠ 0 then none
    else some ((List.range (row.length / 18)).flatMap fun i => blockQ40 row (18 * i))

/-- Squares of the change and of the row before, added up. -/
def squares (curr prev : List ℚ) : ℚ × ℚ :=
  ((List.zipWith (fun c p => (c - p) * (c - p)) curr prev).sum, (prev.map fun p => p * p).sum)

/-- The quotient of the two lengths, its divisor kept from zero. -/
noncomputable def relativeChange (sums : ℚ × ℚ) : ℝ :=
  Real.sqrt (sums.1 : ℝ) / (Real.sqrt (sums.2 : ℝ) + 1 / 10 ^ 12)

/-- `computeDeltaNormEncoded` in exact arithmetic. -/
noncomputable def computeDeltaNormEncoded (dtype : NnFloatType) (curr prev : List UInt8) : Option ℝ :=
  match rowValues dtype curr, rowValues dtype prev with
  | some curr, some prev => some (relativeChange (squares curr prev))
  | _, _ => none

end Formats

section CommandLine

/-- Command line of a worker. Its other float type, that of activations between stages, is the
format in which frames arrive, which may be any. -/
structure AppCliArgs where
  /-- Value of `--buffer-float-type`, if given. -/
  bufferFloatType : Option String

/-- `parseFloatType`. -/
def parseFloatType (val : String) : Except String NnFloatType :=
  if val = "f32" then .ok .f32
  else if val = "f16" then .ok .f16
  else if val = "q40" then .ok .q40
  else if val = "q80" then .ok .q80
  else .error ("Invalid float type: " ++ val)

/-- `args.syncType`. -/
def AppCliArgs.syncType (args : AppCliArgs) : Except String NnFloatType :=
  match args.bufferFloatType with
  | none => .ok .f32
  | some val => parseFloatType val

end CommandLine

variable {F E : Type} [Add F] [Sub F] [LE F] [DecidableLE F] [LT F] [DecidableLT F]

section Worker

variable (bits : F → NnUint) (round : ℝ → F)

/-- Bytes of a row of floats. -/
def rowBytes (row : List F) : List UInt8 := row.flatMap fun x => wordBytes (bits x)

/-- A worker that compares rows in a format. Floats are words, and the result is rounded to one. -/
noncomputable def trackingWorker (xPipeBufferType : NnFloatType) (w : WorkerConfig F E) :
    WorkerConfig F E :=
  { w with
    computeDeltaNormEncoded := fun curr prev =>
      (computeDeltaNormEncoded xPipeBufferType (rowBytes bits curr) (rowBytes bits prev)).map round }

/-- The relative change of two rows of floats. -/
noncomputable def floatChange (curr prev : List F) : ℝ :=
  relativeChange (squares (curr.map fun x => f32Value (bits x)) (prev.map fun x => f32Value (bits x)))

end Worker

/-- States and frames left of a worker after any number of packets. -/
inductive Reach (w : WorkerConfig F E) (s₀ : WorkerState F E) (inbox₀ : Inbox) :
    WorkerState F E → Inbox → Prop
  | start : Reach w s₀ inbox₀ s₀ inbox₀
  | packet {s s' : WorkerState F E} {inbox inbox' : Inbox} {p : LlmControlPacket F} :
      Reach w s₀ inbox₀ s inbox → (handlePacket w s inbox p).2 = .ok (s', inbox') →
      Reach w s₀ inbox₀ s' inbox'

/-- A packet makes the worker take in the row of a single decode token, with tracking on. The
state is that after `beforeForward`. -/
structure TrackedToken (w : WorkerConfig F E) (s : WorkerState F E) (inbox : Inbox)
    (p : LlmControlPacket F) (r : WorkerState F E) (inbox' : Inbox) : Prop where
  /-- The packet is read, a row is awaited and comes. -/
  received : ∃ s₁, s.tryReadControlPacket w p = .ok s₁ ∧ s₁.isFinished = false ∧
    s₁.recvFrom w ≠ .nothing ∧ (beforeForward w s₁ inbox).2 = .ok (r, inbox')
  /-- It is one row of the decode phase. -/
  single : r.decodeSingle = true
  /-- The packet asks for tracking. -/
  tracking : r.stageSkipTrackingEnabled = true
  /-- It is a row and not the marker of a skip. -/
  unmarked : r.skipForwardThisToken = false

/-- With this command line every worker, of any width of rows, knows at every second of two
successive single decode tokens how much its row changed. -/
def TracksDelta (args : AppCliArgs) : Prop :=
  ∀ syncType, args.syncType = .ok syncType →
  ∀ (F E : Type) [Add F] [Sub F] [LE F] [DecidableLE F] [LT F] [DecidableLT F]
    (bits : F → NnUint) (round : ℝ → F) (w : WorkerConfig F E)
    (pipeline : Option (NnPipelineCommunicator F)) (packet : LlmControlPacket F)
    (activationType : NnFloatType) (engine : E) (inbox₀ : Inbox) (s : WorkerState F E) (inbox : Inbox)
    (p₁ : LlmControlPacket F) (r₁ : WorkerState F E) (inbox₁ : Inbox) (s₁ : WorkerState F E)
    (frames : List (ℕ × Frame)) (p₂ : LlmControlPacket F) (r₂ : WorkerState F E) (inbox₂ : Inbox),
    Reach (trackingWorker bits round syncType w) (.create pipeline packet activationType engine) inbox₀
      s inbox →
    TrackedToken (trackingWorker bits round syncType w) s inbox p₁ r₁ inbox₁ →
    (r₁.forward (trackingWorker bits round syncType w)).afterForward
      (trackingWorker bits round syncType w) = .ok (s₁, frames) →
    TrackedToken (trackingWorker bits round syncType w) s₁ inbox₁ p₂ r₂ inbox₂ →
    r₂.lastDeltaNorm = some (round (floatChange bits (w.engine.xPipe r₂.engine w.xPipeRow)
      (w.engine.xPipe r₁.engine w.xPipeRow)))

section Tracking

variable {w : WorkerConfig F E} {s r : WorkerState F E} {inbox inbox' : Inbox}
  {p : LlmControlPacket F}

omit [Add F] [Sub F] [LE F] [DecidableLE F] [LT F] [DecidableLT F] in
/-- A row that was taken in and is no marker is followed. -/
theorem afterRecv_tracked {header : NnPipelineActivationHeader} (h : s.afterRecv w header = .ok r)
    (hsingle : r.decodeSingle = true) (htracking : r.stageSkipTrackingEnabled = true)
    (hunmarked : r.skipForwardThisToken = false) :
    r = { s with
      lastDeltaNorm := s.prevXPipeRow.bind fun prev =>
        w.computeDeltaNormEncoded (w.engine.xPipe s.engine w.xPipeRow) prev
      prevXPipeRow := some (w.engine.xPipe s.engine w.xPipeRow) } := by
  unfold afterRecv at h
  split_ifs at h with hmark hpos htrack
  · injection h with h
    rw [← h] at hunmarked
    cases hunmarked
  · injection h with h
    exact h.symm
  · injection h with h
    rw [h, hsingle, htracking] at htrack
    exact absurd (Eq.refl _) htrack

omit [Sub F] [LE F] [DecidableLE F] [LT F] [DecidableLT F] in
/-- What a tracked token leaves: its row, and its change against the row remembered before. -/
theorem TrackedToken.follows (h : TrackedToken w s inbox p r inbox') :
    ∃ s₁, s.tryReadControlPacket w p = .ok s₁ ∧ s₁.isFinished = false ∧
      r.decodePhase = s₁.decodePhase ∧
      r.prevXPipeRow = some (w.engine.xPipe r.engine w.xPipeRow) ∧
      r.lastDeltaNorm = s₁.prevXPipeRow.bind fun prev =>
        w.computeDeltaNormEncoded (w.engine.xPipe r.engine w.xPipeRow) prev := by
  obtain ⟨s₁, hread, hfinished, hfrom, hbefore⟩ := h.received
  refine ⟨s₁, hread, hfinished, ?_⟩
  rcases beforeForward_split hbefore with ⟨hnothing, _⟩ | ⟨socket, frame, s₂, hrecv, hafter⟩
  · exact absurd hnothing hfrom
  · obtain ⟨c, row, hpipe, hframe, hs₂⟩ := recvActivation_cases hrecv
    have hr := afterRecv_tracked hafter h.single h.tracking h.unmarked
    rw [hr, hs₂]
    exact ⟨Eq.refl _, Eq.refl _, Eq.refl _⟩

omit [Add F] in
/-- Between two packets a worker keeps the row that it remembers and its phase. -/
theorem afterForward_keeps {s' : WorkerState F E} {frames : List (ℕ × Frame)}
    (h : (s.forward w).afterForward w = .ok (s', frames)) :
    s'.prevXPipeRow = s.prevXPipeRow ∧ s'.decodePhase = s.decodePhase := by
  obtain ⟨engine, hforward⟩ := forward_cases (w := w) (s := s)
  rcases afterForward_cases h with ⟨_, hs⟩ | ⟨c, hs⟩
  · have hs : s' = s.forward w := hs
    rw [hs, hforward]
    exact ⟨Eq.refl _, Eq.refl _⟩
  · have hs : s' = { (s.forward w).evaluateStageSkipDecision w with pipeline := some c } := hs
    rw [hs, hforward]
    rcases evaluateStageSkipDecision_cases (w := w) (s := { s with engine }) with
      heq | ⟨_, _, _, heq⟩ | ⟨_, heq⟩ | ⟨_, _, heq⟩
    · rw [heq]
      exact ⟨Eq.refl _, Eq.refl _⟩
    · rw [heq]
      exact ⟨Eq.refl _, Eq.refl _⟩
    · rw [heq]
      exact ⟨Eq.refl _, Eq.refl _⟩
    · rw [heq]
      exact ⟨Eq.refl _, Eq.refl _⟩

omit [Add F] [Sub F] [LE F] [DecidableLE F] [LT F] [DecidableLT F] in
/-- A packet that goes on with the decode phase leaves the remembered row. -/
theorem tryReadControlPacket_keeps {s' : WorkerState F E} (h : s.tryReadControlPacket w p = .ok s')
    (hfinished : s'.isFinished = false) (hbefore : s.decodePhase = true)
    (hafter : s'.decodePhase = true) : s'.prevXPipeRow = s.prevXPipeRow := by
  rcases tryReadControlPacket_cases h with ⟨_, hs⟩ | ⟨engine, batchSize, activationType, hs⟩
  · rw [hs] at hfinished
    cases hfinished
  · have hphase : p.phase = 1 := by
      rw [hs] at hafter
      rcases enterPhase_cases (s := { s with controlPacket := p }) p.phase with ⟨heq, _⟩ | heq
      · exact of_decide_eq_true (heq.symm.trans hbefore)
      · rw [heq] at hafter
        exact of_decide_eq_true hafter
    have hsame : ({ s with controlPacket := p } : WorkerState F E).enterPhase p.phase =
        { s with controlPacket := p } := by
      rcases enterPhase_cases (s := { s with controlPacket := p }) p.phase with ⟨_, heq⟩ | heq
      · exact heq
      · unfold enterPhase
        simp only [hphase, hbefore, decide_true, Bool.not_true, Bool.false_and, Bool.and_false,
          Bool.false_eq_true, if_false]
    rw [hs, hsame]

/-- At the second of two successive tracked tokens the change is that between their rows. -/
theorem second_token {s₁ r₂ : WorkerState F E} {inbox₁ inbox₂ : Inbox} {frames : List (ℕ × Frame)}
    {p₂ : LlmControlPacket F} (hfirst : TrackedToken w s inbox p r inbox₁)
    (hforward : (r.forward w).afterForward w = .ok (s₁, frames))
    (hsecond : TrackedToken w s₁ inbox₁ p₂ r₂ inbox₂) :
    r₂.lastDeltaNorm = w.computeDeltaNormEncoded (w.engine.xPipe r₂.engine w.xPipeRow)
      (w.engine.xPipe r.engine w.xPipeRow) := by
  obtain ⟨_, _, _, _, hrow, _⟩ := hfirst.follows
  obtain ⟨s₂, hread, hfinished, hphase, _, hnorm⟩ := hsecond.follows
  obtain ⟨hkept, hkeptPhase⟩ := afterForward_keeps hforward
  have hone : r.decodePhase = true := by
    have hsingle := hfirst.single
    unfold decodeSingle at hsingle
    exact (Bool.and_eq_true_iff.mp hsingle).1
  have htwo : s₂.decodePhase = true := by
    have hsingle := hsecond.single
    unfold decodeSingle at hsingle
    exact hphase.symm.trans (Bool.and_eq_true_iff.mp hsingle).1
  have hprev := tryReadControlPacket_keeps hread hfinished (hkeptPhase.trans hone) htwo
  rw [hnorm, hprev, hkept, hrow]
  exact Eq.refl _

end Tracking

omit [Add F] [Sub F] [LE F] [DecidableLE F] [LT F] [DecidableLT F] in
/-- The bytes of floats are read back as these floats. -/
theorem rowValues_f32 (bits : F → NnUint) (row : List F) :
    rowValues .f32 (rowBytes bits row) = some (row.map fun x => f32Value (bits x)) := by
  have hbytes : rowBytes bits row = wordCodec.encode .f32 (row.map bits) := by
    rw [rowBytes, ← List.flatMap_map]
    exact Eq.refl _
  have hlength := wordCodec.encode_length .f32 (row.map bits)
  have hback := wordCodec_f32 (row.map bits)
  have hdecode : wordCodec.decode .f32 (wordCodec.encode .f32 (row.map bits)) =
      (List.range ((wordCodec.encode .f32 (row.map bits)).length / 4)).map fun i =>
        wordAt (wordCodec.encode .f32 (row.map bits)) (4 * i) := Eq.refl _
  rw [hdecode] at hback
  have hwhole : (wordCodec.encode .f32 (row.map bits)).length % 4 = 0 := by
    rw [hlength, getBytes]
    exact Nat.mul_mod_right 4 _
  have hvalues : ((List.range ((wordCodec.encode .f32 (row.map bits)).length / 4)).map fun i =>
      f32Value (wordAt (wordCodec.encode .f32 (row.map bits)) (4 * i))) =
        (row.map bits).map f32Value := by
    conv_rhs => rw [← hback, List.map_map]
    exact Eq.refl _
  rw [hbytes, rowValues, hvalues, hwhole, List.map_map]
  exact Eq.refl _

section Tokens

/-- Value of a result, or another one if it is an error. -/
def valueOr {ε α : Type} (other : α) : Except ε α → α
  | .ok value => value
  | .error _ => other

/-- Whether a result is no error. -/
def succeeded {ε α : Type} : Except ε α → Bool
  | .ok _ => true
  | .error _ => false

theorem eq_ok {ε α : Type} {result : Except ε α} (other : α) (h : succeeded result = true) :
    result = .ok (valueOr other result) := by
  cases result with
  | ok value => exact Eq.refl _
  | error text => cases h

/-- Whether a row is awaited. -/
def awaits : RecvFrom → Bool
  | .nothing => false
  | _ => true

variable (w : WorkerConfig F E) (s : WorkerState F E) (inbox : Inbox) (p : LlmControlPacket F)

/-- State after a packet was read. -/
def readState : WorkerState F E := valueOr s (s.tryReadControlPacket w p)

/-- State before the forward of a packet, and the frames left. -/
def tokenState : WorkerState F E × Inbox :=
  valueOr (s, inbox) (beforeForward w (readState w s p) inbox).2

/-- State after a packet, and what was sent. -/
def nextState : WorkerState F E × List (ℕ × Frame) :=
  valueOr (s, []) (((tokenState w s inbox p).1.forward w).afterForward w)

/-- The conditions of a tracked token. -/
def isTracked : Bool :=
  succeeded (s.tryReadControlPacket w p) && !(readState w s p).isFinished &&
    awaits ((readState w s p).recvFrom w) && succeeded (beforeForward w (readState w s p) inbox).2 &&
    (tokenState w s inbox p).1.decodeSingle && (tokenState w s inbox p).1.stageSkipTrackingEnabled &&
    !(tokenState w s inbox p).1.skipForwardThisToken

variable {w s inbox p}

omit [Sub F] [LE F] [DecidableLE F] [LT F] [DecidableLT F] in
theorem trackedToken_of_isTracked (h : isTracked w s inbox p = true) :
    TrackedToken w s inbox p (tokenState w s inbox p).1 (tokenState w s inbox p).2 := by
  unfold isTracked at h
  simp only [Bool.and_eq_true, Bool.not_eq_true'] at h
  obtain ⟨⟨⟨⟨⟨⟨hread, hfinished⟩, hawaits⟩, hrow⟩, hsingle⟩, htracking⟩, hunmarked⟩ := h
  refine ⟨⟨readState w s p, eq_ok s hread, hfinished, ?_, eq_ok (s, inbox) hrow⟩, hsingle, htracking,
    hunmarked⟩
  intro hnothing
  rw [hnothing] at hawaits
  cases hawaits

end Tokens

section Refusal

/-- A float 1. -/
def one : NnUint := 1065353216

/-- Whether a change is that from zero to one. -/
noncomputable def fromZero (change : ℝ) : NnUint :=
  open Classical in if change = 10 ^ 12 then 1 else 0

/-- The worker of the second stage of four with rows of one float. -/
noncomputable def secondStage (syncType : NnFloatType) : WorkerConfig NnUint (List NnUint) :=
  trackingWorker id fromZero syncType (wordWorker 1)

/-- The rows that come: a zero and a one. -/
def twoRows : Inbox := fun _ => [wordFrame 0 0, wordFrame 1 one]

/-- A decode packet with shadow tracking. -/
def trackingPacket (position : NnUint) : LlmControlPacket NnUint := decodePacket position 1 0 1 3

/-- Its first token. -/
noncomputable def firstToken (syncType : NnFloatType) : WorkerState NnUint (List NnUint) × Inbox :=
  tokenState (secondStage syncType) (chainWorker 4 1) twoRows (trackingPacket 0)

/-- The stage after its first token. -/
noncomputable def afterFirst (syncType : NnFloatType) :
    WorkerState NnUint (List NnUint) × List (ℕ × Frame) :=
  nextState (secondStage syncType) (chainWorker 4 1) twoRows (trackingPacket 0)

/-- Its second token. -/
noncomputable def secondToken (syncType : NnFloatType) : WorkerState NnUint (List NnUint) × Inbox :=
  tokenState (secondStage syncType) (afterFirst syncType).1 (firstToken syncType).2 (trackingPacket 1)

theorem tokens_tracked (syncType : NnFloatType) :
    isTracked (secondStage syncType) (chainWorker 4 1) twoRows (trackingPacket 0) = true ∧
      succeeded (((firstToken syncType).1.forward (secondStage syncType)).afterForward
        (secondStage syncType)) = true ∧
      isTracked (secondStage syncType) (afterFirst syncType).1 (firstToken syncType).2
        (trackingPacket 1) = true ∧
      (firstToken syncType).1.engine = [0] ∧ (secondToken syncType).1.engine = [one] := by
  cases syncType <;> decide +kernel

theorem rows (syncType : NnFloatType) :
    wordEngine.xPipe (secondToken syncType).1.engine 1 = [one] ∧
      wordEngine.xPipe (firstToken syncType).1.engine 1 = [0] := by
  obtain ⟨_, _, _, hfirst, hsecond⟩ := tokens_tracked syncType
  rw [hfirst, hsecond]
  exact ⟨Eq.refl _, Eq.refl _⟩

/-- If workers with a format know their change, then the format sees this change. -/
theorem sees_change {args : AppCliArgs} {syncType : NnFloatType} (hargs : args.syncType = .ok syncType)
    (h : TracksDelta args) :
    (computeDeltaNormEncoded syncType (rowBytes id [one]) (rowBytes id [0])).map fromZero =
      some (fromZero (floatChange id [one] [0])) := by
  obtain ⟨hfirst, hforward, hsecond, _, _⟩ := tokens_tracked syncType
  obtain ⟨hrow₂, hrow₁⟩ := rows syncType
  have htwo := trackedToken_of_isTracked hsecond
  have hone := trackedToken_of_isTracked hfirst
  have hnext := eq_ok (chainWorker 4 1, []) hforward
  have hseen := second_token hone hnext htwo
  have hknown := h syncType hargs NnUint (List NnUint) id fromZero (wordWorker 1)
    (some (chainLinks 4 1)) (decodePacket 0 0 0 0 0) .f32 [] twoRows (chainWorker 4 1) twoRows _ _ _ _ _
    _ _ _ .start hone hnext htwo
  have hboth : (computeDeltaNormEncoded syncType
      (rowBytes id (wordEngine.xPipe (secondToken syncType).1.engine 1))
      (rowBytes id (wordEngine.xPipe (firstToken syncType).1.engine 1))).map fromZero =
        some (fromZero (floatChange id (wordEngine.xPipe (secondToken syncType).1.engine 1)
          (wordEngine.xPipe (firstToken syncType).1.engine 1))) := hseen.symm.trans hknown
  rw [hrow₂, hrow₁] at hboth
  exact hboth

/-- The change from nothing to a number. -/
theorem relativeChange_zero {x : ℚ} (hx : 0 ≤ x) : relativeChange (x * x, 0) = x * 10 ^ 12 := by
  have hreal : (0 : ℝ) ≤ (x : ℝ) := by exact_mod_cast hx
  unfold relativeChange
  dsimp only
  rw [Rat.cast_mul, Real.sqrt_mul_self hreal, Rat.cast_zero, Real.sqrt_zero, zero_add, div_div_eq_mul_div,
    div_one]

theorem floatChange_one : floatChange id [one] [0] = 10 ^ 12 := by
  have hsums : squares ([one].map fun x => f32Value (id x)) ([0].map fun x => f32Value (id x)) =
      (1 * 1, 0) := by decide +kernel
  rw [floatChange, hsums, relativeChange_zero (by decide), Rat.cast_one, one_mul]

/-- Half floats see another change. -/
theorem f16_change : computeDeltaNormEncoded .f16 (rowBytes id [one]) (rowBytes id [0]) =
    some (((15 / 8 : ℚ) : ℝ) * 10 ^ 12) := by
  have hcurr : rowValues .f16 (rowBytes id [one]) = some [0, 15 / 8] := by decide +kernel
  have hprev : rowValues .f16 (rowBytes id [0]) = some [0, 0] := by decide +kernel
  have hsums : squares [0, 15 / 8] [0, 0] = (15 / 8 * (15 / 8), 0) := by decide +kernel
  rw [computeDeltaNormEncoded, hcurr, hprev]
  dsimp only
  rw [hsums, relativeChange_zero (by decide +kernel)]

/-- Only workers with 32-bit floats for their buffers can know their change. -/
theorem syncType_of_tracksDelta {args : AppCliArgs} {syncType : NnFloatType}
    (hargs : args.syncType = .ok syncType) (h : TracksDelta args) : syncType = .f32 := by
  have hseen := sees_change hargs h
  rw [floatChange_one] at hseen
  cases syncType with
  | f32 => exact Eq.refl _
  | f16 =>
    rw [f16_change, Option.map_some, fromZero, fromZero, if_pos (Eq.refl _), if_neg] at hseen
    · cases hseen
    · intro hsame
      have hfactor : (((15 / 8 : ℚ) : ℝ) - 1) * 10 ^ 12 = 0 := by
        rw [sub_mul, hsame, one_mul, sub_self]
      norm_num at hfactor
  | q40 =>
    have hnone : rowValues .q40 (rowBytes id [one]) = none := by decide +kernel
    rw [computeDeltaNormEncoded, hnone] at hseen
    cases hseen
  | q80 =>
    have hnone : rowValues .q80 (rowBytes id [one]) = none := by decide +kernel
    rw [computeDeltaNormEncoded, hnone] at hseen
    cases hseen

end Refusal

/-- 32-bit floats see the change of the rows. -/
theorem tracksDelta_of_f32 {args : AppCliArgs} (hargs : args.syncType = .ok .f32) :
    TracksDelta args := by
  intro syncType hsync F E _ _ _ _ _ _ bits round w pipeline packet activationType engine inbox₀ s inbox
    p₁ r₁ inbox₁ s₁ frames p₂ r₂ inbox₂ hreach hfirst hforward hsecond
  have htype : syncType = .f32 := by
    rw [hargs] at hsync
    injection hsync with hsame
    exact hsame.symm
  have hseen : r₂.lastDeltaNorm = (computeDeltaNormEncoded syncType
      (rowBytes bits (w.engine.xPipe r₂.engine w.xPipeRow))
      (rowBytes bits (w.engine.xPipe r₁.engine w.xPipeRow))).map round :=
    second_token hfirst hforward hsecond
  rw [hseen, htype, computeDeltaNormEncoded, rowValues_f32, rowValues_f32]
  exact Eq.refl _

theorem syncType_f32_iff (args : AppCliArgs) :
    args.syncType = .ok .f32 ↔ args.bufferFloatType = none ∨ args.bufferFloatType = some "f32" := by
  unfold AppCliArgs.syncType
  cases args.bufferFloatType with
  | none => simp
  | some val =>
    dsimp only
    unfold parseFloatType
    by_cases hf32 : val = "f32"
    · rw [if_pos hf32, hf32]
      simp
    · have hother : ¬(none = some val ∨ some val = some "f32") := by simpa using hf32
      rw [if_neg hf32]
      constructor
      · intro h
        split_ifs at h
        all_goals cases h
      · intro h
        simp [hf32] at h

/-- Workers know at every second of two successive single decode tokens how much their row changed
exactly if their command line has no `--buffer-float-type` or `f32` for it. -/
theorem delta_norm_known_iff (args : AppCliArgs) (haccepted : ∃ syncType, args.syncType = .ok syncType) :
    TracksDelta args ↔ args.bufferFloatType = none ∨ args.bufferFloatType = some "f32" := by
  rw [← syncType_f32_iff]
  obtain ⟨syncType, hsync⟩ := haccepted
  constructor
  · intro h
    rw [← syncType_of_tracksDelta hsync h]
    exact hsync
  · exact tracksDelta_of_f32

/-- A worker without options knows its change. -/
theorem delta_norm_known_default : TracksDelta ⟨none⟩ :=
  (delta_norm_known_iff ⟨none⟩ ⟨.f32, Eq.refl _⟩).mpr (Or.inl (Eq.refl _))

/-- A worker with Q80 buffers does not. -/
theorem delta_norm_unknown_q80 : ¬TracksDelta ⟨some "q80"⟩ := by
  intro h
  have hq80 : AppCliArgs.syncType ⟨some "q80"⟩ = .ok .q80 := by decide
  exact absurd (syncType_of_tracksDelta hq80 h) (by decide)

end LayerSkip.DeltaNorm
