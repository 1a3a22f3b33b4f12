import LayerSkip.WorkerRun

/-!
# Shadow mode only observes

With stage skip off a worker follows the change of its activation and counts
decisions in shadow mode only. Forgetting that state commutes with every part
of a round, so both modes receive, forward and send the same.
-/

namespace LayerSkip.ShadowMode

open NnTopology NnPipeline WorkerLlmInference WorkerState WorkerRun

variable {F E : Type}

/-- The packet with shadow mode and stage skip set. -/
def withSkip (shadow enabled : NnUint) (p : LlmControlPacket F) : LlmControlPacket F :=
  { p with stageSkipShadow := shadow, stageSkipEnabled := enabled }

/-- The packet with shadow mode off. -/
def withoutShadow (p : LlmControlPacket F) : LlmControlPacket F := { p with stageSkipShadow := 0 }

/-- A state in which nothing of the decisions is remembered. -/
def forget (s : WorkerState F E) : WorkerState F E :=
  { s with
    controlPacket := withoutShadow s.controlPacket
    prevXPipeRow := none
    lastSkipDecision := none
    lastDeltaNorm := none
    skipConsecutiveAccepts := 0
    skipRejectStreak := 0
    skipForcedFullByRejectStreak := 0 }

/-- Decisions are not acted on. -/
def SkipOff (s : WorkerState F E) : Prop := s.controlPacket.stageSkipEnabled ≠ 1

variable {w : WorkerConfig F E} {s : WorkerState F E}

theorem SkipOff.execute (h : SkipOff s) : s.stageSkipExecute = false := by
  unfold SkipOff at h
  simp [stageSkipExecute, h]

theorem SkipOff.tracking_forget (h : SkipOff s) : (forget s).stageSkipTrackingEnabled = false := by
  have hoff : (forget s).controlPacket.stageSkipEnabled ≠ 1 := h
  have hshadow : (forget s).controlPacket.stageSkipShadow = 0 := rfl
  simp [stageSkipTrackingEnabled, hoff, hshadow]

theorem forget_enterPhase (phase : NnUint) :
    forget (s.enterPhase phase) = (forget s).enterPhase phase := by
  unfold enterPhase
  have hd : (forget s).decodePhase = s.decodePhase := rfl
  rw [hd]
  by_cases hp : phase = 1
  · cases hs : s.decodePhase <;> simp [hp] <;> rfl
  · cases hs : s.decodePhase <;> simp [hp] <;> rfl

theorem forget_tryReadControlPacket (p : LlmControlPacket F) :
    (s.tryReadControlPacket w p).map forget =
      (forget s).tryReadControlPacket w (withoutShadow p) := by
  have hwork : activeWork w (withoutShadow p) = activeWork w p := rfl
  have htransport : packetTransport (F := F) (withoutShadow p) = packetTransport p := rfl
  have henter : ({ forget s with controlPacket := withoutShadow p } :
      WorkerState F E).enterPhase (withoutShadow p).phase =
        forget (({ s with controlPacket := p } : WorkerState F E).enterPhase p.phase) :=
    (forget_enterPhase (s := { s with controlPacket := p }) p.phase).symm
  unfold tryReadControlPacket
  dsimp only
  rw [henter, hwork, htransport]
  generalize ({ s with controlPacket := p } : WorkerState F E).enterPhase p.phase = q
  have hbatch : (withoutShadow p).batchSize = p.batchSize := rfl
  have hmode : (withoutShadow p).positionMode = p.positionMode := rfl
  have htype : (withoutShadow p).activationType = p.activationType := rfl
  have hpositions : (withoutShadow p).batchPositions = p.batchPositions := rfl
  rw [hbatch, hmode, htype, hpositions]
  cases NnFloatType.ofUint p.activationType <;> split_ifs <;> rfl

theorem forget_recvActivation [Add F] (socket : ℕ) (frame : Frame) :
    (s.recvActivation w socket frame).map forget = (forget s).recvActivation w socket frame := by
  have hp : (forget s).pipeline = s.pipeline := rfl
  unfold recvActivation
  rw [hp]
  cases s.pipeline with
  | none => rfl
  | some c =>
    dsimp only
    rw [Option.map_map]
    rfl

theorem SkipOff.forget_afterRecv (h : SkipOff s) (header : NnPipelineActivationHeader) :
    (s.afterRecv w header).map forget = (forget s).afterRecv w header := by
  have hexec : (forget s).stageSkipExecute = false := SkipOff.execute (s := forget s) h
  unfold afterRecv
  rw [h.execute, hexec, h.tracking_forget]
  simp only [Bool.false_and, Bool.false_eq_true, if_false]
  have hpos : (forget s).controlPacket.position = s.controlPacket.position := rfl
  rw [hpos]
  by_cases hne : header.seqPosition ≠ s.controlPacket.position
  · rw [if_pos hne, if_pos hne]
    rfl
  · rw [if_neg hne, if_neg hne]
    split
    · rfl
    · rfl

theorem forget_forward : forget (s.forward w) = (forget s).forward w := by
  have hskip : (forget s).skipForwardThisToken = s.skipForwardThisToken := rfl
  unfold WorkerState.forward
  rw [hskip]
  split <;> rfl

theorem forget_evaluateStageSkipDecision [LE F] [DecidableLE F]
    : forget (s.evaluateStageSkipDecision w) = forget s := by
  rcases evaluateStageSkipDecision_cases (w := w) (s := s) with
    h | ⟨-, -, -, h⟩ | ⟨-, h⟩ | ⟨-, -, h⟩ <;> rw [h] <;> rfl

theorem SkipOff.evaluate_forget [LE F] [DecidableLE F] (h : SkipOff s) :
    (forget s).evaluateStageSkipDecision w = forget s := by
  have htrack : ({ forget s with lastSkipDecision := none } :
      WorkerState F E).stageSkipTrackingEnabled = false := h.tracking_forget
  unfold evaluateStageSkipDecision
  dsimp only
  rw [htrack]
  rfl

/-- Forget in what comes out of a part of a round. -/
abbrev forgetIn {α : Type} : WorkerState F E × α → WorkerState F E × α := Prod.map forget id

theorem forget_send [Sub F]
    (targetPpRank : ℕ) (data : List F) (dtype : NnFloatType) (flags : NnUint) :
    (s.send w targetPpRank data dtype flags).map forgetIn =
      (forget s).send w targetPpRank data dtype flags := by
  have hp : (forget s).pipeline = s.pipeline := rfl
  have hpos : (forget s).controlPacket.position = s.controlPacket.position := rfl
  unfold WorkerState.send
  rw [hp, hpos]
  cases s.pipeline with
  | none => rfl
  | some c =>
    dsimp only
    cases c.sendActivation w.codec targetPpRank s.controlPacket.position 0 w.nodeConfig.tpRank data
        dtype flags with
    | error text => rfl
    | ok x => rfl

/-- The one send of a round without a skip. -/
theorem forget_send_one [Sub F] (targetPpRank : ℕ) (data : List F) (dtype : NnFloatType) :
    (do let (s, frame) ← s.send w targetPpRank data dtype 0; return (s, [frame]) :
        Except String _).map forgetIn =
      (do let (s, frame) ← (forget s).send w targetPpRank data dtype 0; return (s, [frame])) := by
  rw [← forget_send]
  cases s.send w targetPpRank data dtype 0 with
  | error text => rfl
  | ok r => rfl

theorem SkipOff.forget_afterForward [LE F] [DecidableLE F] [Sub F] [LT F] [DecidableLT F]
    (h : SkipOff s) :
    (s.afterForward w).map forgetIn = (forget s).afterForward w := by
  have hp : (forget s).pipeline = s.pipeline := rfl
  have hforget := forget_evaluateStageSkipDecision (w := w) (s := s)
  unfold afterForward
  rw [hp, h.evaluate_forget]
  cases s.pipeline with
  | none => rfl
  | some c =>
    dsimp only
    rw [← hforget]
    have hoff : SkipOff (s.evaluateStageSkipDecision w) := by
      have hsame : (forget (s.evaluateStageSkipDecision w)).controlPacket.stageSkipEnabled =
          (forget s).controlPacket.stageSkipEnabled := by rw [hforget]
      intro hone
      exact h (hsame ▸ hone)
    generalize s.evaluateStageSkipDecision w = q at hoff ⊢
    have hexec : (forget q).stageSkipExecute = false := SkipOff.execute (s := forget q) hoff
    rw [hoff.execute, hexec]
    simp only [Bool.false_and, Bool.false_eq_true, if_false]
    split_ifs
    · exact forget_send_one _ _ _
    · exact forget_send_one _ _ _
    · rfl

/-- Forget in the state that a part of a run ends with. -/
abbrev forgetEnd {α : Type} :
    List Event × Except Stop (WorkerState F E × α) → List Event × Except Stop (WorkerState F E × α) :=
  Prod.map id (Except.map forgetIn)

theorem forget_recvBlocking [Add F]
    (inbox : Inbox) (c : NnPipelineCommunicator F) (sourcePpRank : ℕ) :
    forgetEnd (recvBlocking w s inbox c sourcePpRank) =
      recvBlocking w (forget s) inbox c sourcePpRank := by
  unfold recvBlocking
  cases c.recvSocket sourcePpRank with
  | error text => rfl
  | ok socket =>
    dsimp only
    cases readFrame inbox socket with
    | none => rfl
    | some r =>
      dsimp only
      rw [← forget_recvActivation]
      cases s.recvActivation w socket r.1 with
      | none => rfl
      | some t => rfl

/-- With skips off the stage to receive from is the one before. -/
theorem SkipOff.recvFrom_forget (h : SkipOff s) : (forget s).recvFrom w = s.recvFrom w := by
  have hp : (forget s).pipeline = s.pipeline := rfl
  have hexec : (forget s).stageSkipExecute = false := SkipOff.execute (s := forget s) h
  unfold recvFrom
  rw [hp, h.execute, hexec]
  rfl

theorem SkipOff.recvFrom_ne_poll (h : SkipOff s) (bypassSource normalSource : ℕ) :
    s.recvFrom w ≠ .poll bypassSource normalSource := by
  unfold recvFrom
  rw [h.execute]
  cases s.pipeline with
  | none => nofun
  | some c =>
    dsimp only
    simp only [Bool.false_and, Bool.false_eq_true, if_false]
    split_ifs <;> nofun

theorem SkipOff.recvActivation [Add F]
    {socket : ℕ} {frame : Frame} {s' : WorkerState F E} (h : SkipOff s)
    (hr : s.recvActivation w socket frame = some s') : SkipOff s' := by
  obtain ⟨c, r, -, -, hs⟩ := recvActivation_cases hr
  rw [hs]
  exact h

theorem SkipOff.forget_beforeForward [Add F] (h : SkipOff s) (inbox : Inbox) :
    forgetEnd (beforeForward w s inbox) = beforeForward w (forget s) inbox := by
  have hbegin : (forget s).beginForward = forget s.beginForward := rfl
  have hoff : SkipOff s.beginForward := h
  unfold beforeForward
  rw [hbegin]
  generalize s.beginForward = q at hoff ⊢
  have hp : (forget q).pipeline = q.pipeline := rfl
  dsimp only
  rw [hoff.recvFrom_forget, hp]
  cases hfrom : q.recvFrom w with
  | nothing => rfl
  | poll a b => exact absurd hfrom (hoff.recvFrom_ne_poll a b)
  | source ppRank =>
    cases q.pipeline with
    | none => rfl
    | some c =>
      dsimp only
      rw [← forget_recvBlocking]
      have hrecv (r) (hr : (recvBlocking w q inbox c ppRank).2 = .ok r) :
          ∃ socket, q.recvActivation w socket r.2.2 = some r.1 := recvBlocking_received hr
      generalize recvBlocking w q inbox c ppRank = received at hrecv ⊢
      obtain ⟨events, end'⟩ := received
      cases end' with
      | error stop => rfl
      | ok r =>
        obtain ⟨socket, hs⟩ := hrecv r rfl
        have hafter := (hoff.recvActivation hs).forget_afterRecv (w := w) r.2.2.header
        cases hcase : r.1.afterRecv w r.2.2.header with
        | error text =>
          rw [hcase] at hafter
          dsimp only [forgetEnd, Prod.map, Except.map, id] at hafter ⊢
          rw [← hafter, hcase]
        | ok t =>
          rw [hcase] at hafter
          dsimp only [forgetEnd, Prod.map, Except.map, id] at hafter ⊢
          rw [← hafter, hcase]
          rfl

/-- Reading a packet with skips off leaves them off. -/
theorem SkipOff.tryReadControlPacket {p : LlmControlPacket F} {s' : WorkerState F E}
    (hp : p.stageSkipEnabled ≠ 1) (h : s.tryReadControlPacket w p = .ok s') : SkipOff s' := by
  rcases tryReadControlPacket_cases h with ⟨-, hs⟩ | ⟨engine, batchSize, dtype, hs⟩
  · rw [hs]
    exact hp
  · rw [hs]
    rcases enterPhase_cases (s := { s with controlPacket := p }) p.phase with ⟨-, he⟩ | he <;>
      rw [he] <;> exact hp

theorem SkipOff.beforeForward [Add F] {s' : WorkerState F E} {inbox inbox' : Inbox} (h : SkipOff s)
    (hb : (beforeForward w s inbox).2 = .ok (s', inbox')) : SkipOff s' := by
  rcases beforeForward_cases hb with hs | ⟨socket, frame, t, hrecv, hafter⟩
  · rw [hs]
    exact h
  · have hoff : SkipOff s.beginForward := h
    have ht : SkipOff t := hoff.recvActivation hrecv
    rcases afterRecv_cases hafter with hs | ⟨-, hs⟩ | hs <;> rw [hs] <;> exact ht

/-- A whole round with skips off is the same on the forgetful state. -/
theorem forget_handlePacket [LE F] [DecidableLE F] [Add F] [Sub F] [LT F] [DecidableLT F]
    {p : LlmControlPacket F} (hp : p.stageSkipEnabled ≠ 1)
    (inbox : Inbox) :
    forgetEnd (handlePacket w s inbox p) = handlePacket w (forget s) inbox (withoutShadow p) := by
  unfold handlePacket
  rw [← forget_tryReadControlPacket]
  cases hread : s.tryReadControlPacket w p with
  | error text => rfl
  | ok q =>
    have hoff : SkipOff q := SkipOff.tryReadControlPacket hp hread
    dsimp only [Except.map]
    have hfin : (forget q).isFinished = q.isFinished := rfl
    rw [hfin]
    split_ifs
    · rfl
    · rw [← hoff.forget_beforeForward]
      have hkeep (t i) (hb : (WorkerRun.beforeForward w q inbox).2 = .ok (t, i)) : SkipOff t :=
        hoff.beforeForward hb
      generalize WorkerRun.beforeForward w q inbox = received at hkeep ⊢
      obtain ⟨events, end'⟩ := received
      cases end' with
      | error stop => rfl
      | ok r =>
        have hforward : SkipOff (r.1.forward w) := by
          obtain ⟨engine, he⟩ := forward_cases (w := w) (s := r.1)
          rw [he]
          exact hkeep r.1 r.2 rfl
        dsimp only [forgetEnd, Prod.map, Except.map, id]
        rw [← forget_forward, ← hforward.forget_afterForward]
        cases (r.1.forward w).afterForward w with
        | error text => rfl
        | ok t => rfl

/-- Runs over packets with skips off depend on what is left after forgetting. -/
theorem forget_run [LE F] [DecidableLE F] [Add F] [Sub F] [LT F] [DecidableLT F]
    {ps : List (LlmControlPacket F)} (hp : ∀ p ∈ ps, p.stageSkipEnabled ≠ 1)
    (inbox : Inbox) : run w s inbox ps = run w (forget s) inbox (ps.map withoutShadow) := by
  induction ps generalizing s inbox with
  | nil => rfl
  | cons p ps ih =>
    have hone := forget_handlePacket (w := w) (s := s) (hp p List.mem_cons_self) inbox
    rw [List.map_cons]
    unfold run
    rw [← hone]
    generalize handlePacket w s inbox p = round
    obtain ⟨events, end'⟩ := round
    cases end' with
    | error stop => rfl
    | ok r =>
      dsimp only [forgetEnd, Prod.map, Except.map, id]
      rw [ih fun q hq => hp q (List.mem_cons_of_mem _ hq)]

/-- The same packets and the same incoming frames give the same receives,
forwards and sends, and the same end, with shadow mode on and off. -/
theorem shadow_observes [LE F] [DecidableLE F] [Add F] [Sub F] [LT F] [DecidableLT F]
    (w : WorkerConfig F E) (s : WorkerState F E) (inbox : Inbox)
    (ps : List (LlmControlPacket F)) :
    run w s inbox (ps.map (withSkip 1 0)) = run w s inbox (ps.map (withSkip 0 0)) := by
  have hoff : ∀ shadow, ∀ p ∈ ps.map (withSkip shadow 0), p.stageSkipEnabled ≠ 1 := by
    intro shadow p hp
    obtain ⟨q, -, hq⟩ := List.mem_map.mp hp
    rw [← hq]
    exact nofun
  have hsame : (ps.map (withSkip 1 0)).map withoutShadow =
      (ps.map (withSkip 0 0)).map withoutShadow := by
    simp only [List.map_map]
    rfl
  rw [forget_run (hoff 1), forget_run (hoff 0), hsame]

/-- Shadow mode does take decisions: stage 1 of four accepts the second token. -/
example :
    (runStates (wordWorker 1) (chainWorker 4 1)
      (fun _ => (List.range 2).map fun i => wordFrame i.toUInt32 7)
      ((List.range 2).map fun i => withSkip 1 0 (decodePacket i.toUInt32 0 0 1 3))).map
        (fun s => s.lastSkipDecision) = [none, some true] := by
  decide

end LayerSkip.ShadowMode
