import LayerSkip.PipelineRounds
import LayerSkip.StageRound

/-!
# Every run of a pipeline

One order of all sends and receives takes the pipeline through a call: the packets go out, every
stage runs on the rows of the stage before, and the logits go back. The network has random descent,
so every run ends there, whatever the links hold.
-/

namespace LayerSkip.PipelineSchedule

open NnTopology NnNetwork NnPipeline WorkerLlmInference StreamNetwork RandomDescent RestingNetwork
open StageExecutor PipelineNetwork PipelineRounds Relation
open StageNetwork (Message)
open PipelineNetwork.Pipeline (one)
open RoundFlow (toParty toParty_nil toParty_cons_self toParty_cons_ne)

variable {V : Type} [Add V] [Sub V] [LE V] [DecidableLE V] [LT V] [DecidableLT V]
  {p : Pipeline V}

/-- The memory of a stage after its forward. -/
def stageMemory (p : Pipeline V) (call : Call) (memories : ℕ → Memory V) : ℕ → Memory V
  | 0 => (p.nodes 0).forward call.batchSize.toNat
      ((p.nodes 0).setTokens call.tokens ((p.nodes 0).setPositions call.positions (memories 0)))
  | i + 1 => (p.nodes (i + 1)).forward call.batchSize.toNat
      (writePipe .x (p.nodes (i + 1)).node.header.dim
        (readPipe .x p.xPipeRow (p.xPipeRow * call.batchSize.toNat) (stageMemory p call memories i))
        ((p.nodes (i + 1)).setPositions call.positions (memories (i + 1))))

/-- The memories after a call. The root of several stages has the logits of the last one. -/
def callMemories (p : Pipeline V) (call : Call) (memories : ℕ → Memory V) (i : ℕ) : Memory V :=
  if i = 0 ∧ 1 < p.ppSize.toNat then
    writePipe .lg p.logitsPipeRow
      (readPipe .lg p.logitsPipeRow (p.logitsPipeRow * call.batchSize.toNat)
        (stageMemory p call memories (p.ppSize.toNat - 1))) (stageMemory p call memories 0)
  else stageMemory p call memories i

/-- The rows of logits of the root after a call. -/
def callLogits (p : Pipeline V) (call : Call) (memories : ℕ → Memory V) : List V :=
  readPipe .lg p.logitsPipeRow (p.logitsPipeRow * call.batchSize.toNat)
    (callMemories p call memories 0)

/-- The rows of logits of the root after every call. -/
def runLogits (p : Pipeline V) : List Call → (ℕ → Memory V) → List (List V)
  | [], _ => []
  | call :: calls, memories =>
    callLogits p call memories :: runLogits p calls (callMemories p call memories)

/-- The nodes between two calls. -/
structure Resting (p : Pipeline V) (memories : ℕ → Memory V) (held : List (List V))
    (mem : ℕ → Station V) : Prop where
  /-- The root. -/
  root : ∃ c outgoing, mem 0 = .root (memories 0) c outgoing held ∧ Lane p 0 c ∧
    c.deltaEnabled = false
  /-- The workers. -/
  workers : ∀ i, 0 < i → i < p.ppSize.toNat →
    ∃ s outgoing, mem i = .worker s outgoing ∧ Waiting p i (memories i) s

/-- What is left of a program when the activation has been sent on. -/
def afterSend (p : Pipeline V) (call : Call) (calls : List Call) (i : ℕ) :
    List (Block ℕ (Station V) (Message V)) :=
  if i = 0 then .read (fun station => one (p.logitsSource station)) (p.takeLogits call) ::
    p.program calls 0
  else p.program calls i

/-- The activation has come to a stage, which has not sent on what it computed. -/
structure Progress (p : Pipeline V) (call : Call) (calls : List Call) (memories : ℕ → Memory V)
    (held : List (List V)) (k : ℕ) (mem : ℕ → Station V)
    (prog : ℕ → List (Block ℕ (Station V) (Message V))) : Prop where
  /-- The root has run. -/
  root : ∃ c outgoing, mem 0 = .root (stageMemory p call memories 0) c outgoing held ∧ Lane p 0 c ∧
    c.deltaEnabled = false
  /-- Workers that have run. -/
  ran : ∀ i, 0 < i → i ≤ k →
    ∃ s outgoing, mem i = .worker s outgoing ∧ Waiting p i (stageMemory p call memories i) s
  /-- Workers that wait for the activation. -/
  ahead : ∀ i, k < i → i < p.ppSize.toNat → ∃ s, mem i = .worker s [] ∧
    Ready p i call ((p.nodes i).setPositions call.positions (memories i)) s
  /-- What the stage sends. -/
  sends : ∃ frame, (∀ q, (mem k).data q =
      if q = nextStage p k then [.activation frame] else []) ∧
    Delivers p.codec frame (stagePayload p k call (stageMemory p call memories k)) ∧
    frame.header.seqPosition = call.position
  /-- Programs of nodes that have sent. -/
  progBefore : ∀ i < k, prog i = afterSend p call calls i
  /-- The program of the stage. -/
  progAt : prog k = .write Station.data :: afterSend p call calls k
  /-- Programs of nodes that wait. -/
  progAhead : ∀ i, k < i → i < p.ppSize.toNat →
    prog i = .read (fun station => one (p.activationSource i station)) (p.takeActivation i) ::
      .write Station.data :: afterSend p call calls i
  /-- There are no other nodes. -/
  progOut : ∀ i, p.ppSize.toNat ≤ i → prog i = []

omit [Add V] [Sub V] [LE V] [DecidableLE V] [LT V] [DecidableLT V] in
theorem toParty_one (q j : ℕ) (m : Message V) :
    toParty q [(j, m)] = if q = j then [m] else [] := by
  by_cases h : q = j
  · rw [if_pos h, h, toParty_cons_self, toParty_nil]
  · rw [if_neg h, toParty_cons_ne (Ne.symm h), toParty_nil]

theorem one_self (source : ℕ) : one (some source) source = 1 := if_pos (Eq.refl _)

theorem one_of_ne {source q : ℕ} (h : q ≠ source) : one (some source) q = 0 :=
  if_neg fun heq => h (Option.some.inj heq).symm

/-- The activation goes on to the next stage. -/
theorem Progress.step {cap : ℕ} (hcap : 0 < cap) {call : Call} {calls : List Call}
    {memories : ℕ → Memory V} {held : List (List V)} {k : ℕ} {mem : ℕ → Station V}
    {prog : ℕ → List (Block ℕ (Station V) (Message V))}
    (h : Progress p call calls memories held k mem prog) (hnext : k + 1 < p.ppSize.toNat) :
    ∃ mem' prog', ReflTransGen (Step cap) (atRest mem prog) (atRest mem' prog') ∧
      Progress p call calls memories held (k + 1) mem' prog' := by
  obtain ⟨frame, hdata, hdelivers, hposition⟩ := h.sends
  obtain ⟨s, hs, hready⟩ := h.ahead (k + 1) (Nat.lt_succ_self k) hnext
  have hto : nextStage p k = k + 1 := if_pos hnext
  have hpayload : stagePayload p k call (stageMemory p call memories k) =
      readPipe .x p.xPipeRow (p.xPipeRow * call.batchSize.toNat) (stageMemory p call memories k) :=
    if_pos hnext
  rw [hpayload] at hdelivers
  have hsource : p.activationSource (k + 1) (.worker s []) = some k :=
    hready.activationSource (Nat.succ_pos k) hnext []
  have hrun := reach_exchange hcap (Nat.ne_of_lt (Nat.lt_succ_self k)) h.progAt
    (h.progAhead (k + 1) (Nat.lt_succ_self k) hnext)
    (fun q hq => by rw [hdata, if_neg (hto ▸ hq)])
    (fun q hq => by
      rw [hs, hsource]
      exact one_of_ne hq)
    (by
      rw [hs, hsource, hdata, hto, if_pos (Eq.refl _)]
      exact one_self k)
  rw [hdata, hto, if_pos (Eq.refl _), hs] at hrun
  have hgot : (Function.update (fun _ => []) k [Message.activation frame] :
      ℕ → List (Message V)) (k + 1 - 1) = [.activation frame] := Function.update_self _ _ _
  obtain ⟨s', frame', htake, hwaiting, hdelivers', hposition'⟩ :=
    takeActivation_ok (Nat.succ_pos k) hnext hready [] hgot hdelivers hposition
      (length_readPipe _ _ _ _)
  rw [htake] at hrun
  refine ⟨_, _, hrun, ?_⟩
  constructor
  · obtain ⟨c, outgoing, hroot, hlane⟩ := h.root
    refine ⟨c, outgoing, ?_, hlane⟩
    rw [Function.update_of_ne (Nat.succ_ne_zero k).symm, hroot]
  · intro i hpos hle
    by_cases hi : i = k + 1
    · rw [hi, Function.update_self]
      exact ⟨s', _, Eq.refl _, hwaiting⟩
    · rw [Function.update_of_ne hi]
      exact h.ran i hpos (by omega)
  · intro i hlt hsize
    rw [Function.update_of_ne (by omega)]
    exact h.ahead i (by omega) hsize
  · refine ⟨frame', ?_, hdelivers', hposition'⟩
    intro q
    rw [Function.update_self]
    exact toParty_one q _ _
  · intro i hlt
    rw [Function.update_of_ne (by omega)]
    by_cases hi : i = k
    · rw [hi, Function.update_self]
    · rw [Function.update_of_ne hi]
      exact h.progBefore i (by omega)
  · rw [Function.update_self]
  · intro i hlt hsize
    rw [Function.update_of_ne (by omega), Function.update_of_ne (by omega)]
    exact h.progAhead i (by omega) hsize
  · intro i hle
    rw [Function.update_of_ne (by omega), Function.update_of_ne (by omega)]
    exact h.progOut i hle

/-- The activation comes to every stage. -/
theorem Progress.run {cap : ℕ} (hcap : 0 < cap) {call : Call} {calls : List Call}
    {memories : ℕ → Memory V} {held : List (List V)} {mem : ℕ → Station V}
    {prog : ℕ → List (Block ℕ (Station V) (Message V))}
    (h : Progress p call calls memories held 0 mem prog) (k : ℕ) (hk : k < p.ppSize.toNat) :
    ∃ mem' prog', ReflTransGen (Step cap) (atRest mem prog) (atRest mem' prog') ∧
      Progress p call calls memories held k mem' prog' := by
  induction k with
  | zero => exact ⟨mem, prog, .refl, h⟩
  | succ k ih =>
    obtain ⟨mem₁, prog₁, hrun₁, hprogress₁⟩ := ih (Nat.lt_of_succ_lt hk)
    obtain ⟨mem₂, prog₂, hrun₂, hprogress₂⟩ := hprogress₁.step hcap hk
    exact ⟨mem₂, prog₂, hrun₁.trans hrun₂, hprogress₂⟩

omit [Add V] [Sub V] [LE V] [DecidableLE V] [LT V] [DecidableLT V] in
/-- The node that the root of several stages takes the logits of. -/
theorem logitsSource_eq {c : NnPipelineCommunicator V} (hlane : Lane p 0 c)
    (hmany : 1 < p.ppSize.toNat) (m : Memory V) (outgoing : List (ℕ × Message V))
    (held : List (List V)) :
    p.logitsSource (.root m c outgoing held) = some (p.ppSize.toNat - 1) := by
  have hsocket := hlane.recvSocket (show p.ppSize.toNat - 1 < p.ppSize.toNat by omega)
    (show p.ppSize.toNat - 1 ≠ 0 by omega)
  rw [Pipeline.logitsSource, if_pos hmany, hsocket]
  simp only
  rw [connectedPeer_getSocketIndexForNode (by omega)]

omit [Sub V] [LE V] [DecidableLE V] [LT V] [DecidableLT V] in
/-- The root stores the logits that it takes. -/
theorem takeLogits_ok {call : Call} {c : NnPipelineCommunicator V} (hlane : Lane p 0 c)
    (hdelta : c.deltaEnabled = false) (hmany : 1 < p.ppSize.toNat) (m : Memory V)
    (outgoing : List (ℕ × Message V)) (held : List (List V))
    {got : ℕ → List (Message V)} {frame : Frame} {values : List V}
    (hgot : got (p.ppSize.toNat - 1) = [.activation frame])
    (hdelivers : Delivers p.codec frame values)
    (hfits : values.length = p.logitsPipeRow * call.batchSize.toNat) :
    ∃ c', p.takeLogits call (.root m c outgoing held) got =
        .root (writePipe .lg p.logitsPipeRow values m) c' [] (held ++
          [readPipe .lg p.logitsPipeRow (p.logitsPipeRow * call.batchSize.toNat)
            (writePipe .lg p.logitsPipeRow values m)]) ∧
      Lane p 0 c' ∧ c'.deltaEnabled = false := by
  have hsocket := hlane.recvSocket (show p.ppSize.toNat - 1 < p.ppSize.toNat by omega)
    (show p.ppSize.toNat - 1 ≠ 0 by omega)
  have hpeer : connectedPeer 0 (getSocketIndexForNode 0 (p.ppSize.toNat - 1)) =
      p.ppSize.toNat - 1 := connectedPeer_getSocketIndexForNode (by omega)
  obtain ⟨c', haccept, hnode, hsame⟩ := hdelivers c (getSocketIndexForNode 0 (p.ppSize.toNat - 1))
    (p.logitsPipeRow * call.batchSize.toNat) (Nat.le_of_eq hfits)
  refine ⟨c', ?_, hlane.of_sameNode hnode, hsame.trans hdelta⟩
  simp only [Pipeline.takeLogits, if_pos hmany, hsocket, hpeer, hgot, haccept]

/-- The logits of the last stage end the call. -/
theorem Progress.finish {cap : ℕ} (hcap : 0 < cap) {call : Call} {calls : List Call}
    {memories : ℕ → Memory V} {held : List (List V)} {mem : ℕ → Station V}
    {prog : ℕ → List (Block ℕ (Station V) (Message V))}
    (h : Progress p call calls memories held (p.ppSize.toNat - 1) mem prog)
    (hmany : 1 < p.ppSize.toNat) :
    ∃ mem', ReflTransGen (Step cap) (atRest mem prog) (atRest mem' (p.program calls)) ∧
      Resting p (callMemories p call memories) (held ++ [callLogits p call memories]) mem' := by
  obtain ⟨frame, hdata, hdelivers, _⟩ := h.sends
  obtain ⟨c, outgoing, hroot, hlane, hdelta⟩ := h.root
  have hto : nextStage p (p.ppSize.toNat - 1) = 0 := if_neg (by omega)
  have hpayload : stagePayload p (p.ppSize.toNat - 1) call
      (stageMemory p call memories (p.ppSize.toNat - 1)) =
        readPipe .lg p.logitsPipeRow (p.logitsPipeRow * call.batchSize.toNat)
          (stageMemory p call memories (p.ppSize.toNat - 1)) := if_neg (by omega)
  rw [hpayload] at hdelivers
  have hsource := logitsSource_eq hlane hmany (stageMemory p call memories 0) outgoing held
  have hlast : p.ppSize.toNat - 1 ≠ 0 := by
    omega
  have hprog : prog 0 = afterSend p call calls 0 := h.progBefore 0 (by omega)
  rw [afterSend, if_pos (Eq.refl _)] at hprog
  have hrun := reach_exchange hcap hlast h.progAt hprog
    (fun q hq => by rw [hdata, if_neg (hto ▸ hq)])
    (fun q hq => by
      rw [hroot, hsource]
      exact one_of_ne hq)
    (by
      rw [hroot, hsource, hdata, hto, if_pos (Eq.refl _)]
      exact one_self _)
  rw [hdata, hto, if_pos (Eq.refl _), hroot] at hrun
  have hgot : (Function.update (fun _ => []) (p.ppSize.toNat - 1) [Message.activation frame] :
      ℕ → List (Message V)) (p.ppSize.toNat - 1) = [.activation frame] :=
    Function.update_self _ _ _
  obtain ⟨c', htake, hlane', hdelta'⟩ := takeLogits_ok hlane hdelta hmany
    (stageMemory p call memories 0) outgoing held hgot hdelivers (length_readPipe _ _ _ _)
  rw [htake] at hrun
  have hwhole : callMemories p call memories 0 = writePipe .lg p.logitsPipeRow
      (readPipe .lg p.logitsPipeRow (p.logitsPipeRow * call.batchSize.toNat)
        (stageMemory p call memories (p.ppSize.toNat - 1))) (stageMemory p call memories 0) :=
    if_pos ⟨Eq.refl _, hmany⟩
  have hprograms : Function.update (Function.update prog (p.ppSize.toNat - 1)
      (afterSend p call calls (p.ppSize.toNat - 1))) 0 (p.program calls 0) = p.program calls := by
    funext i
    by_cases hzero : i = 0
    · rw [hzero, Function.update_self]
    · rw [Function.update_of_ne hzero]
      by_cases hi : i = p.ppSize.toNat - 1
      · rw [hi, Function.update_self, afterSend, if_neg hlast]
      · rw [Function.update_of_ne hi]
        by_cases hlt : i < p.ppSize.toNat
        · rw [h.progBefore i (by omega), afterSend, if_neg hzero]
        · rw [h.progOut i (by omega), Pipeline.program, if_neg hzero, if_neg hlt]
  rw [hprograms] at hrun
  refine ⟨_, hrun, ?_, ?_⟩
  · refine ⟨c', [], ?_, hlane', hdelta'⟩
    rw [Function.update_self, callLogits, hwhole]
  · intro i hpos hlt
    have hne : i ≠ 0 := Nat.ne_of_gt hpos
    rw [Function.update_of_ne hne]
    have hsame : callMemories p call memories i = stageMemory p call memories i :=
      if_neg fun hi => hne hi.1
    rw [hsame]
    exact h.ran i hpos (by omega)

omit [LE V] [DecidableLE V] [LT V] [DecidableLT V] in
/-- The root after its setters and its forward. -/
theorem runRoot_ok (hmany : 1 < p.ppSize.toNat) {c : NnPipelineCommunicator V}
    (hlane : Lane p 0 c) (hdelta : c.deltaEnabled = false) (call : Call) (memories : ℕ → Memory V)
    (outgoing : List (ℕ × Message V)) (held : List (List V)) :
    ∃ frame c', p.runRoot call (.root ((call.toForwardCall (p.nodes 0)).fill (memories 0)) c outgoing
        held) =
        .root (stageMemory p call memories 0) c' [(nextStage p 0, .activation frame)] held ∧
      Delivers p.codec frame (stagePayload p 0 call (stageMemory p call memories 0)) ∧
      frame.header.seqPosition = call.position ∧ Lane p 0 c' ∧ c'.deltaEnabled = false := by
  have hshould : c.shouldSendActivations = true := by
    have hsize : p.topology.ppSize = p.ppSize.toNat := Eq.refl _
    rw [NnPipelineCommunicator.shouldSendActivations, hlane.ppRank, hlane.topology, hsize]
    exact decide_eq_true (by omega)
  have htarget : c.getTargetPpRank = .ok 1 := by
    rw [NnPipelineCommunicator.getTargetPpRank, hshould, hlane.ppRank]
    exact Eq.refl _
  have hnext : nextStage p 0 = 1 := if_pos hmany
  have hpayload : stagePayload p 0 call (stageMemory p call memories 0) =
      readPipe .x p.xPipeRow (p.xPipeRow * call.batchSize.toNat) (stageMemory p call memories 0) :=
    if_pos hmany
  obtain ⟨frame, c', hsend, hdelivers, hposition, hlane', hdelta'⟩ :=
    hlane.sendActivation hdelta hmany Nat.one_ne_zero call.position
      (readPipe .x p.xPipeRow (p.xPipeRow * call.batchSize.toNat) (stageMemory p call memories 0))
  refine ⟨frame, c', ?_, hpayload ▸ hdelivers, hposition, hlane', hdelta'⟩
  have hmemory : (p.nodes 0).forward call.batchSize.toNat
      ((call.toForwardCall (p.nodes 0)).fill (memories 0)) = stageMemory p call memories 0 := Eq.refl _
  have hbind : (Except.ok 1 : Except String ℕ).bind (fun target =>
      c.sendActivation p.codec target call.position 0 0
        (readPipe .x p.xPipeRow (p.xPipeRow * call.batchSize.toNat) (stageMemory p call memories 0))
        .f32 0) = .ok (getSocketIndexForNode 0 1, frame, c') := hsend
  simp only [Pipeline.runRoot, hshould, if_true, hmemory, htarget, p.plainType, hbind]
  rw [connectedPeer_getSocketIndexForNode Nat.one_ne_zero, hnext]

/-- A call begins: the packets go out and the root runs. -/
theorem Resting.begin {cap : ℕ} (hcap : 0 < cap) {call : Call} {seqLen : ℕ}
    (hcall : call.Valid p.maxBatchSize seqLen) {calls : List Call} {memories : ℕ → Memory V}
    {held : List (List V)} {mem : ℕ → Station V} (h : Resting p memories held mem)
    (hmany : 1 < p.ppSize.toNat) :
    ∃ mem' prog', ReflTransGen (Step cap) (atRest mem (p.program (call :: calls)))
        (atRest mem' prog') ∧ Progress p call calls memories held 0 mem' prog' := by
  obtain ⟨c, outgoing, hroot, hlane, hdelta⟩ := h.root
  set packet : Message V := .control (p.options.controlPacket (call.toForwardCall (p.nodes 0)))
    with hpacket
  set ws := List.range' 1 (p.ppSize.toNat - 1) with hws
  have hmem {i : ℕ} : i ∈ ws ↔ 0 < i ∧ i < p.ppSize.toNat := by
    rw [hws, List.mem_range'_1]
    omega
  have hzero : 0 ∉ ws := fun hin => absurd (hmem.mp hin).1 (Nat.lt_irrefl 0)
  have hnodup : ws.Nodup := List.nodup_range'
  set filled : Station V := .root ((call.toForwardCall (p.nodes 0)).fill (memories 0)) c
    (ws.map fun i => (i, packet)) held with hfilled
  have hdata (q : ℕ) : filled.data q = if q ∈ ws then [packet] else [] := by
    have hsent : filled.data q = toParty q (ws.map fun i => (i, packet)) := Eq.refl _
    rw [hsent, StageRound.toParty_map_const, hnodup.count]
    split <;> exact Eq.refl _
  have hprogram {i : ℕ} (hpos : 0 < i) (hlt : i < p.ppSize.toNat) :
      p.program (call :: calls) i = .read (fun _ => one (some 0)) (p.takeControl i) ::
        .read (fun station => one (p.activationSource i station)) (p.takeActivation i) ::
        .write Station.data :: afterSend p call calls i := by
    rw [Pipeline.program, if_neg (Nat.ne_of_gt hpos), if_pos hlt, afterSend,
      if_neg (Nat.ne_of_gt hpos), Pipeline.program, if_neg (Nat.ne_of_gt hpos), if_pos hlt]
    exact Eq.refl _
  set ran : List (Block ℕ (Station V) (Message V)) := .write Station.data :: afterSend p call calls 0
    with hran
  set packed : List (Block ℕ (Station V) (Message V)) := .write Station.data ::
    .read (fun _ _ => 0) (fun station _ => p.runRoot call station) :: ran with hpacked
  set begun : ℕ → List (Block ℕ (Station V) (Message V)) :=
    Function.update (p.program (call :: calls)) 0 packed with hbegun
  set taken : ℕ → Station V := fun q => if q ∈ ws then p.takeControl q
      (Function.update mem 0 filled q)
      (Function.update (fun _ => []) 0 ((Function.update mem 0 filled 0).data q))
    else Function.update mem 0 filled q with htaken
  set served : ℕ → List (Block ℕ (Station V) (Message V)) := fun q =>
    if q = 0 then .read (fun _ _ => 0) (fun station _ => p.runRoot call station) :: ran
    else if q ∈ ws then
      .read (fun station => one (p.activationSource q station)) (p.takeActivation q) ::
        .write Station.data :: afterSend p call calls q
    else begun q with hserved
  have hfill : p.beginCall call (mem 0) = filled := by
    rw [hroot]
    exact Eq.refl _
  have hbegin : ReflTransGen (Step cap) (atRest mem (p.program (call :: calls)))
      (atRest (Function.update mem 0 filled) begun) := by
    have hfirst : p.program (call :: calls) 0 =
        .read (fun _ _ => 0) (fun station _ => p.beginCall call station) :: packed := Eq.refl _
    rw [← hfill]
    exact reach_compute cap hfirst fun _ => Eq.refl _
  have hworkers : ∀ w ∈ ws, begun w = .read (fun _ => one (some 0)) (p.takeControl w) ::
      .read (fun station => one (p.activationSource w station)) (p.takeActivation w) ::
        .write Station.data :: afterSend p call calls w := by
    intro w hw
    rw [hbegun, Function.update_of_ne (Nat.ne_of_gt (hmem.mp hw).1)]
    exact hprogram (hmem.mp hw).1 (hmem.mp hw).2
  have hscatter : ReflTransGen (Step cap) (atRest (Function.update mem 0 filled) begun)
      (atRest taken served) := by
    refine reach_scatter hcap hnodup hzero (Function.update_self _ _ _) ?_ hworkers ?_ ?_
    · intro q hq
      rw [Function.update_self, hdata, if_neg hq]
    · intro w hw q hq
      exact one_of_ne hq
    · intro w hw
      rw [Function.update_self, hdata, if_pos hw]
      exact one_self 0
  have hrun : ReflTransGen (Step cap) (atRest taken served)
      (atRest (Function.update taken 0 (p.runRoot call (taken 0)))
        (Function.update served 0 ran)) := by
    have hready : served 0 =
        .read (fun _ _ => 0) (fun station _ => p.runRoot call station) :: ran := if_pos (Eq.refl _)
    exact reach_compute cap hready fun _ => Eq.refl _
  refine ⟨_, _, (hbegin.trans hscatter).trans hrun, ?_⟩
  obtain ⟨frame, c', hrunRoot, hdelivers, hposition, hlane', hdelta'⟩ :=
    runRoot_ok hmany hlane hdelta call memories (ws.map fun i => (i, packet)) held
  have hrootTaken : p.runRoot call (taken 0) =
      .root (stageMemory p call memories 0) c' [(nextStage p 0, .activation frame)] held := by
    rw [htaken]
    simp only [if_neg hzero, Function.update_self]
    exact hrunRoot
  rw [hrootTaken]
  constructor
  · exact ⟨c', _, Function.update_self _ _ _, hlane', hdelta'⟩
  · intro i hpos hle
    exact absurd hpos (Nat.not_lt.mpr hle)
  · intro i hpos hlt
    obtain ⟨s, outgoing', hs, hwaiting⟩ := h.workers i hpos hlt
    have hne : i ≠ 0 := Nat.ne_of_gt hpos
    have htook : taken i = p.takeControl i (mem i) (Function.update (fun _ => []) 0 [packet]) := by
      rw [htaken]
      simp only [if_pos (hmem.mpr ⟨hpos, hlt⟩), Function.update_of_ne hne, Function.update_self,
        hdata]
    rw [Function.update_of_ne hne, htook, hs]
    exact takeControl_ok hcall hwaiting outgoing' (Function.update_self _ _ _)
  · refine ⟨frame, ?_, hdelivers, hposition⟩
    intro q
    rw [Function.update_self]
    exact toParty_one q _ _
  · intro i hlt
    exact absurd hlt (Nat.not_lt_zero i)
  · exact Function.update_self _ _ _
  · intro i hpos hlt
    have hne : i ≠ 0 := Nat.ne_of_gt hpos
    rw [Function.update_of_ne hne, hserved]
    simp only [if_neg hne, if_pos (hmem.mpr ⟨hpos, hlt⟩)]
  · intro i hle
    have hpos := p.ppSize_pos
    have hne : i ≠ 0 := by
      omega
    have hout : i ∉ ws := fun hin => absurd (hmem.mp hin).2 (Nat.not_lt.mpr hle)
    rw [Function.update_of_ne hne, hserved]
    simp only [if_neg hne, if_neg hout, hbegun, Function.update_of_ne hne]
    rw [Pipeline.program, if_neg hne, if_neg (Nat.not_lt.mpr hle)]

/-- A root of one stage makes the call by itself. -/
theorem Resting.alone (cap : ℕ) (call : Call) (calls : List Call) {memories : ℕ → Memory V}
    {held : List (List V)} {mem : ℕ → Station V} (h : Resting p memories held mem)
    (hone : p.ppSize.toNat = 1) :
    ∃ mem', ReflTransGen (Step cap) (atRest mem (p.program (call :: calls)))
        (atRest mem' (p.program calls)) ∧
      Resting p (callMemories p call memories) (held ++ [callLogits p call memories]) mem' := by
  obtain ⟨c, outgoing, hroot, hlane, hdelta⟩ := h.root
  have hfew : ¬1 < p.ppSize.toNat := by
    omega
  have hmemory : callMemories p call memories 0 = stageMemory p call memories 0 :=
    if_neg fun hmany => hfew hmany.2
  set filled : Station V := .root ((call.toForwardCall (p.nodes 0)).fill (memories 0)) c [] held
    with hfilled
  set computed : Station V := .root (stageMemory p call memories 0) c [] held with hcomputed
  have hfill : p.beginCall call (mem 0) = filled := by
    rw [hroot, hfilled]
    simp only [Pipeline.beginCall, hone, Nat.sub_self, List.range'_zero, List.map_nil]
  have hshould : c.shouldSendActivations = false := by
    have hsize : p.topology.ppSize = p.ppSize.toNat := Eq.refl _
    rw [NnPipelineCommunicator.shouldSendActivations, hlane.ppRank, hlane.topology, hsize, hone]
    exact Eq.refl _
  have hran : p.runRoot call filled = computed := by
    simp only [hfilled, Pipeline.runRoot, hshould, Bool.false_eq_true, if_false]
    exact Eq.refl _
  have hsource (q : ℕ) : one (p.logitsSource computed) q = 0 := by
    rw [hcomputed, Pipeline.logitsSource, if_neg hfew]
    exact Eq.refl _
  have htake : p.takeLogits call computed (fun _ => []) = .root (stageMemory p call memories 0) c []
      (held ++ [callLogits p call memories]) := by
    simp only [hcomputed, Pipeline.takeLogits, if_neg hfew, callLogits, hmemory]
  have hsolo : Solo (mem 0) (p.rootBlocks call) (.root (stageMemory p call memories 0) c []
      (held ++ [callLogits p call memories])) := by
    apply Solo.compute (fun _ => Eq.refl _)
    rw [hfill]
    apply Solo.silent (fun q => toParty_nil q)
    apply Solo.compute (fun _ => Eq.refl _)
    rw [hran]
    apply Solo.silent (fun q => toParty_nil q)
    refine Solo.compute ?_ ?_
    · exact hsource
    · rw [htake]
      exact Solo.nil _
  have hprograms : Function.update (p.program (call :: calls)) 0 (p.program calls 0) =
      p.program calls := by
    funext i
    by_cases hzero : i = 0
    · rw [hzero, Function.update_self]
    · have hlt : ¬i < p.ppSize.toNat := by
        omega
      rw [Function.update_of_ne hzero, Pipeline.program, Pipeline.program, if_neg hzero,
        if_neg hzero, if_neg hlt, if_neg hlt]
  have hrun := reach_solo cap hsolo (Eq.refl _) (show p.program (call :: calls) 0 =
    p.rootBlocks call ++ p.program calls 0 from Eq.refl _)
  rw [hprograms] at hrun
  refine ⟨_, hrun, ?_, ?_⟩
  · exact ⟨c, [], by rw [Function.update_self, hmemory], hlane, hdelta⟩
  · intro i hpos hlt
    omega

/-- A call takes the pipeline from one rest to the next. -/
theorem Resting.call {cap : ℕ} (hcap : 0 < cap) {call : Call} {seqLen : ℕ}
    (hcall : call.Valid p.maxBatchSize seqLen) (calls : List Call) {memories : ℕ → Memory V}
    {held : List (List V)} {mem : ℕ → Station V} (h : Resting p memories held mem) :
    ∃ mem', ReflTransGen (Step cap) (atRest mem (p.program (call :: calls)))
        (atRest mem' (p.program calls)) ∧
      Resting p (callMemories p call memories) (held ++ [callLogits p call memories]) mem' := by
  by_cases hone : p.ppSize.toNat = 1
  · exact h.alone cap call calls hone
  · have hpos := p.ppSize_pos
    have hmany : 1 < p.ppSize.toNat := by
      omega
    obtain ⟨mem₁, prog₁, hrun₁, hprogress₁⟩ := h.begin hcap hcall hmany
    obtain ⟨mem₂, prog₂, hrun₂, hprogress₂⟩ := hprogress₁.run hcap (p.ppSize.toNat - 1) (by omega)
    obtain ⟨mem₃, hrun₃, hresting⟩ := hprogress₂.finish hcap hmany
    exact ⟨mem₃, (hrun₁.trans hrun₂).trans hrun₃, hresting⟩

/-- The memories after some calls. -/
def runMemories (p : Pipeline V) : List Call → (ℕ → Memory V) → ℕ → Memory V
  | [], memories => memories
  | call :: calls, memories => runMemories p calls (callMemories p call memories)

/-- Calls take the pipeline from one rest to the next. -/
theorem Resting.run {cap : ℕ} (hcap : 0 < cap) {seqLen : ℕ} {calls : List Call}
    (hcalls : ∀ call ∈ calls, call.Valid p.maxBatchSize seqLen) {memories : ℕ → Memory V}
    {held : List (List V)} {mem : ℕ → Station V} (h : Resting p memories held mem) :
    ∃ mem', ReflTransGen (Step cap) (atRest mem (p.program calls)) (atRest mem' (p.program [])) ∧
      Resting p (runMemories p calls memories) (held ++ runLogits p calls memories) mem' := by
  induction calls generalizing memories held mem with
  | nil => exact ⟨mem, .refl, by rw [runLogits, List.append_nil]; exact h⟩
  | cons call calls ih =>
    obtain ⟨mem₁, hrun₁, hresting₁⟩ := h.call hcap (hcalls call List.mem_cons_self) calls
    obtain ⟨mem₂, hrun₂, hresting₂⟩ :=
      ih (fun call hmem => hcalls call (List.mem_cons_of_mem _ hmem)) hresting₁
    rw [List.append_assoc] at hresting₂
    exact ⟨mem₂, hrun₁.trans hrun₂, hresting₂⟩

omit [Add V] [Sub V] [LE V] [DecidableLE V] [LT V] [DecidableLT V] in
theorem resting_station (p : Pipeline V) (memories : ℕ → Memory V)
    (args : ℕ → Pipeline.WorkerArgs V) : Resting p memories [] (p.station memories args) := by
  constructor
  · exact ⟨_, [], if_pos (Eq.refl _), ⟨Eq.refl _, Eq.refl _, Eq.refl _, Eq.refl _, Eq.refl _⟩,
      p.noDelta⟩
  · intro i hpos _
    exact ⟨_, [], if_neg (Nat.ne_of_gt hpos), Eq.refl _, Eq.refl _, _, Eq.refl _,
      ⟨Eq.refl _, Eq.refl _, Eq.refl _, Eq.refl _, Eq.refl _⟩⟩

/-- Every run ends, and the root has the logits of all calls. -/
theorem outcome_initial {cap : ℕ} (hcap : 0 < cap) (p : Pipeline V) (memories : ℕ → Memory V)
    (args : ℕ → Pipeline.WorkerArgs V) {seqLen : ℕ} {calls : List Call}
    (hcalls : ∀ call ∈ calls, call.Valid p.maxBatchSize seqLen) :
    ∃ f memory c outgoing, Outcome (Step cap) (p.initial memories args calls) f ∧
      (f.party 0).mem = .root memory c outgoing (runLogits p calls memories) := by
  obtain ⟨mem, hrun, hresting⟩ := (resting_station p memories args).run hcap hcalls
  obtain ⟨c, outgoing, hroot, _⟩ := hresting.root
  refine ⟨_, _, c, outgoing, outcome_of_schedule hrun ?_, hroot⟩
  · intro i
    have hempty : p.program [] i = [] := by
      rw [Pipeline.program]
      split
      · exact Eq.refl _
      · split <;> exact Eq.refl _
    exact ⟨mem i, atRest_party hempty⟩

omit [LE V] [DecidableLE V] [LT V] [DecidableLT V] in
/-- Only the last step of a call adds rows, and none takes one away. -/
theorem rootBlocks_changes (p : Pipeline V) (call : Call) :
    ∀ b ∈ p.rootBlocks call, b.Changes KeepsRows := by
  intro b hb
  simp only [Pipeline.rootBlocks, List.mem_cons, List.not_mem_nil, or_false] at hb
  rcases hb with rfl | rfl | rfl | rfl | rfl
  · intro station got _
    cases station with
    | root memory c outgoing held => exact keepsRows_of_root (List.prefix_refl held)
    | worker | failed => exact KeepsRows.refl _
  · trivial
  · intro station got _
    cases station with
    | root memory c outgoing held =>
      simp only [Pipeline.runRoot]
      split
      · split
        · exact .inl ⟨_, Eq.refl _⟩
        · exact keepsRows_of_root (List.prefix_refl held)
      · exact keepsRows_of_root (List.prefix_refl held)
    | worker | failed => exact KeepsRows.refl _
  · trivial
  · intro station got _
    cases station with
    | root memory c outgoing held =>
      simp only [Pipeline.takeLogits]
      split
      · split
        · exact .inl ⟨_, Eq.refl _⟩
        · split
          · split
            · exact .inl ⟨_, Eq.refl _⟩
            · exact keepsRows_of_root (List.prefix_append held _)
          · exact .inl ⟨_, Eq.refl _⟩
      · exact keepsRows_of_root (List.prefix_append held _)
    | worker | failed => exact KeepsRows.refl _

/-- In every state of a run the root has the first of the rows that it ends with. -/
theorem held_prefix {cap : ℕ} {p : Pipeline V} {memories : ℕ → Memory V}
    {args : ℕ → Pipeline.WorkerArgs V} {calls : List Call} {f s : Net ℕ (Station V) (Message V)}
    (hf : Outcome (Step cap) (p.initial memories args calls) f)
    (hroot : ∀ text, (f.party 0).mem ≠ .failed text)
    (hs : Relation.ReflTransGen (Step cap) (p.initial memories args calls) s) :
    (s.party 0).mem.held <+: (f.party 0).mem.held := by
  have hinitial : ((p.initial memories args calls).party 0).Changes KeepsRows := by
    constructor
    · intro b hb
      obtain ⟨call, _, hb⟩ := List.mem_flatMap.mp hb
      exact rootBlocks_changes p call b hb
    · intro need got use hio
      cases hio
  obtain ⟨hnow, _⟩ := changes_of_reachable KeepsRows.refl KeepsRows.trans hs hinitial
  cases (changes_of_reachable KeepsRows.refl KeepsRows.trans (hf.reaches s hs) hnow).2 with
  | inl hfailed =>
    obtain ⟨text, hfailed⟩ := hfailed
    exact absurd hfailed (hroot text)
  | inr hkept => exact hkept.2

end LayerSkip.PipelineSchedule
