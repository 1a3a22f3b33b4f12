import LayerSkip.StageRound

/-!
# Invariant of a chain of stages

Every link holds what its sender has decided and its receiver has not taken.
The root waits for the logits, so all stages but the target are within one
packet of each other, and the stage after the target never has two frames to
choose from. The target alone may fall behind, by markers.
-/

namespace LayerSkip.StageRouting

open NnTopology NnNetwork NnPipeline WorkerLlmInference WorkerState RoundFlow StageNetwork
  PipelineLink StageRound

variable {F E : Type} [Add F]

/-- What a node has decided to send, round by round. -/
def rounds (s : System F E) (i : ℕ) : List (List (ℕ × Message F)) :=
  if i = 0 then s.root.calls.map fun r => r.sent else (s.workers i).log.map fun e => e.sent

/-- The messages of the system. -/
def flow (s : System F E) : Flow (Message F) := ⟨s.links, s.pending, rounds s⟩

/-- Rounds a node has taken in fully. -/
def done (s : System F E) (j : ℕ) : ℕ :=
  if j = 0 then s.root.results.length else (s.workers j).log.length

/-- A worker that is ready has taken its control packet. -/
def taken (s : System F E) (i j : ℕ) : ℕ :=
  if i = 0 ∧ j ≠ 0 ∧ (s.workers j).phase = .ready then 1 else 0

/-- The links of a node. -/
def comm (s : System F E) (i : ℕ) : Option (NnPipelineCommunicator F) :=
  if i = 0 then some s.root.pipeline else (s.workers i).state.pipeline

/-- The bases of differences are in step on every link. -/
def LinksInStep (codec : FloatCodec F) (f : Flow (Message F))
    (cm : ℕ → Option (NnPipelineCommunicator F)) : Prop :=
  ∀ i j pli plj, i ≠ j → cm i = some pli → cm j = some plj →
    InStep codec (plj.prevRecvBySocket (getSocketIndexForNode j i)).length (frames (f.inflight i j))
      (pli.prevSendBySocket (getSocketIndexForNode i j)).length

section LinksInStep

variable {codec : FloatCodec F} {f : Flow (Message F)}
  {cm : ℕ → Option (NnPipelineCommunicator F)} {pl pl' : NnPipelineCommunicator F} {i : ℕ}

/-- A node's options do not matter. -/
theorem LinksInStep.update (h : LinksInStep codec f cm) (hi : cm i = some pl)
    (hsend : pl'.prevSendBySocket = pl.prevSendBySocket)
    (hrecv : pl'.prevRecvBySocket = pl.prevRecvBySocket) :
    LinksInStep codec f (Function.update cm i (some pl')) := by
  intro a b pla plb hab ha hb
  by_cases hai : a = i
  · have hbi : b ≠ i := fun he => hab (hai.trans he.symm)
    rw [hai, Function.update_self] at ha
    rw [Function.update_of_ne hbi] at hb
    injection ha with ha
    rw [← ha, hsend, hai]
    exact h i b pl plb (hai ▸ hab) hi hb
  · rw [Function.update_of_ne hai] at ha
    by_cases hbi : b = i
    · rw [hbi, Function.update_self] at hb
      injection hb with hb
      rw [← hb, hrecv, hbi]
      exact h a i pla pl hai ha hi
    · rw [Function.update_of_ne hbi] at hb
      exact h a b pla plb hab ha hb

/-- A node that decides what to send stays in step with every other. -/
theorem LinksInStep.begin (h : LinksInStep codec f cm) (hp : f.pending i = [])
    (hi : cm i = some pl) {sent : List (ℕ × Message F)} (he : Emits codec i pl pl' sent) :
    LinksInStep codec (f.begin i sent) (Function.update cm i (some pl')) := by
  intro a b pla plb hab ha hb
  rw [Flow.inflight_begin hp, frames_append]
  by_cases hai : a = i
  · have hbi : b ≠ i := fun he => hab (hai.trans he.symm)
    rw [hai, Function.update_self] at ha
    rw [Function.update_of_ne hbi] at hb
    injection ha with ha
    have hold := h i b pl plb (hai ▸ hab) hi hb
    rw [← ha, hai, if_pos rfl]
    rcases he.each b hbi with ⟨hnone, hsame⟩ | ⟨frame, hone, hacc, hbase⟩
    · rw [hnone, hsame, List.append_nil]
      exact hold
    · rw [hone, hbase]
      exact hold.append hacc
  · rw [Function.update_of_ne hai] at ha
    rw [if_neg hai]
    have hempty : frames ([] : List (Message F)) = [] := rfl
    rw [hempty, List.append_nil]
    by_cases hbi : b = i
    · rw [hbi, Function.update_self] at hb
      injection hb with hb
      rw [← hb, he.received, hbi]
      exact h a i pla pl hai ha hi
    · rw [Function.update_of_ne hbi] at hb
      exact h a b pla plb hab ha hb

/-- Control packets do not count. -/
theorem LinksInStep.take_control (h : LinksInStep codec f cm) {j : ℕ} {p : LlmControlPacket F}
    {rest : List (Message F)} (hl : f.links i j = .control p :: rest) :
    LinksInStep codec (f.take i j rest) cm := by
  intro a b pla plb hab ha hb
  by_cases hij : a = i ∧ b = j
  · have hold := h a b pla plb hab ha hb
    rw [hij.1, hij.2, Flow.inflight_take hl] at hold
    rw [hij.1, hij.2]
    exact hold
  · rw [Flow.inflight_take_ne hij]
    exact h a b pla plb hab ha hb

/-- The next frame on a link is accepted. -/
theorem LinksInStep.accepted (h : LinksInStep codec f cm) {src : ℕ} (hsrc : src ≠ i)
    {frame : Frame} {rest : List (Message F)} (hl : f.links src i = .activation frame :: rest)
    (hi : cm i = some pl) {plsrc : NnPipelineCommunicator F} (hcs : cm src = some plsrc) :
    Accepted codec frame (pl.prevRecvBySocket (getSocketIndexForNode i src)).length := by
  have hhead := h src i plsrc pl hsrc hcs hi
  rw [Flow.inflight_take hl] at hhead
  exact hhead.1

/-- Once it is taken the frame after it is next. -/
theorem LinksInStep.take_activation (h : LinksInStep codec f cm) {src : ℕ} (hsrc : src ≠ i)
    {frame : Frame} {rest : List (Message F)} (hl : f.links src i = .activation frame :: rest)
    (hi : cm i = some pl) {plsrc : NnPipelineCommunicator F} (hcs : cm src = some plsrc)
    (hr : Receives pl (getSocketIndexForNode i src) frame pl') :
    LinksInStep codec (f.take src i rest) (Function.update cm i (some pl')) := by
  have hhead := h src i plsrc pl hsrc hcs hi
  rw [Flow.inflight_take hl] at hhead
  intro a b pla plb hab ha hb
  by_cases hbi : b = i
  · have hai : a ≠ i := fun he => hab (he.trans hbi.symm)
    rw [hbi, Function.update_self] at hb
    rw [Function.update_of_ne hai] at ha
    injection hb with hb
    rw [← hb, hbi]
    by_cases has : a = src
    · rw [has] at ha ⊢
      rw [hcs] at ha
      injection ha with ha
      rw [← ha, hr.base]
      exact hhead.2
    · have hne : ¬(a = src ∧ i = i) := fun hall => has hall.1
      have hsocket : getSocketIndexForNode i a ≠ getSocketIndexForNode i src :=
        fun heq => has (socket_inj hai hsrc heq)
      rw [Flow.inflight_take_ne hne, hr.others _ hsocket]
      exact h a i pla pl hai ha hi
  · have hne : ¬(a = src ∧ b = i) := fun hall => hbi hall.2
    rw [Function.update_of_ne hbi] at hb
    rw [Flow.inflight_take_ne hne]
    by_cases hai : a = i
    · rw [hai, Function.update_self] at ha
      injection ha with ha
      rw [← ha, hr.sent, hai]
      exact h i b pl plb (hai ▸ hab) hi hb
    · rw [Function.update_of_ne hai] at ha
      exact h a b pla plb hab ha hb

end LinksInStep

/-- A value that the decision on a packet can still have. The root takes none. -/
def Decided (c : StageChain F E) (s : System F E) (k : ℕ) (a : Bool) : Prop :=
  (c.options.stageSkipTarget.toNat = 1 → a = false) ∧
    (c.options.stageSkipTarget.toNat ≠ 1 →
      ∀ d, (s.workers (c.options.stageSkipTarget.toNat - 1)).log[k]? = some d → a = d.accepted)

/-- What a worker did for a packet agrees with what the others did. -/
structure EntryOk (c : StageChain F E) (s : System F E) (i k : ℕ) (e : Entry F)
    (p : LlmControlPacket F) : Prop where
  round : ∀ a, Decided c s k a → RoundOk c p a i e.sent
  source : ∀ a, Decided c s k a → e.source = sender c p a i
  forwarded : ∀ a, Decided c s k a →
    e.forwarded = !(decide (i = c.options.stageSkipTarget.toNat) && acts p && a)
  frame : roundTo (rounds s e.source) i k = controls e.source p ++ [.activation e.frame]
  /-- Every stage before it, but the target, has done the packet. -/
  order : ∀ j, 0 < j → j < i → j ≠ c.options.stageSkipTarget.toNat → k < (s.workers j).log.length
  single : e.accepted = true → p.phase = 1 ∧ p.batchSize = 1

/-- A worker between two packets, or ready for the activation of the next. -/
structure WorkerOk (c : StageChain F E) (s : System F E) (i : ℕ) : Prop where
  running : (s.workers i).state.isFinished = false
  pipeline : ∃ pl, (s.workers i).state.pipeline = some pl ∧ ChainEnd c i pl
  phase : (s.workers i).phase = .idle ∨ ((s.workers i).phase = .ready ∧ s.pending i = [] ∧
    ∃ r, s.root.calls[(s.workers i).log.length]? = some r ∧ Ready r.packet (s.workers i).state ∧
      (s.workers i).state.skipForwardThisToken = false)
  reads : (s.workers i).reads = (s.workers i).log.map fun e => (e.source, e.frame)

/-- What holds of every reachable system. -/
structure RoutingInv (c : StageChain F E) (s : System F E) : Prop where
  rootEnd : ChainEnd c 0 s.root.pipeline
  rootPhase : (s.root.phase = .idle ∧ s.root.results.length = s.root.calls.length) ∨
    (s.root.phase = .ready ∧ s.root.results.length + 1 = s.root.calls.length)
  calls : ∀ (k : ℕ) (r : RootCall F), s.root.calls[k]? = some r → PacketOk c r.packet ∧
    ∀ a, (c.options.stageSkipTarget.toNat = 1 → a = false) → RoundOk c r.packet a 0 r.sent
  results : ∀ (k : ℕ) frame, s.root.results[k]? = some frame →
    roundTo (rounds s (c.ppSize.toNat - 1)) 0 k = [.activation frame]
  workers : ∀ i, 0 < i → i < c.ppSize.toNat → WorkerOk c s i
  outside : ∀ i, i = 0 ∨ c.ppSize.toNat ≤ i → (s.workers i).log = []
  entries : ∀ i, 0 < i → i < c.ppSize.toNat → ∀ (k : ℕ) e, (s.workers i).log[k]? = some e →
    ∃ r, s.root.calls[k]? = some r ∧ EntryOk c s i k e r.packet
  balanced : (flow s).Balanced (done s) (taken s)
  inStep : LinksInStep c.codec (flow s) (comm s)

variable {c : StageChain F E} {s s' : System F E}

/-- A round that has messages has taken place. -/
theorem lt_of_roundTo_ne_nil {M : Type} {rs : List (List (ℕ × M))} {j k : ℕ}
    (h : roundTo rs j k ≠ []) : k < rs.length := by
  by_contra hge
  apply h
  rw [roundTo, List.getD_eq_getElem?_getD, List.getElem?_eq_none (Nat.not_lt.mp hge)]
  rfl

/-- Later rounds do not change earlier ones. -/
theorem roundTo_mono {M : Type} {rs rs' : List (List (ℕ × M))} (hp : rs <+: rs') {j k : ℕ}
    (h : k < rs.length) : roundTo rs' j k = roundTo rs j k := by
  have hget : rs'[k]? = rs[k]? := by
    rw [List.prefix_iff_getElem?.mp hp k h, List.getElem?_eq_getElem h]
  unfold roundTo
  rw [List.getD_eq_getElem?_getD, List.getD_eq_getElem?_getD, hget]

omit [Add F] in
theorem rounds_zero (s : System F E) : rounds s 0 = s.root.calls.map fun r => r.sent := if_pos rfl

omit [Add F] in
theorem rounds_pos (s : System F E) {i : ℕ} (h : 0 < i) :
    rounds s i = (s.workers i).log.map fun e => e.sent := if_neg (by omega)

/-- Nothing that was done is forgotten. -/
structure Grows (s s' : System F E) : Prop where
  calls : s.root.calls <+: s'.root.calls
  logs : ∀ i, (s.workers i).log <+: (s'.workers i).log

omit [Add F] in
theorem grows_of_eq (hcalls : s'.root.calls = s.root.calls)
    (hlogs : ∀ i, (s'.workers i).log = (s.workers i).log) : Grows s s' :=
  ⟨hcalls ▸ List.prefix_rfl, fun i => hlogs i ▸ List.prefix_rfl⟩

omit [Add F] in
theorem Grows.rounds (h : Grows s s') (i : ℕ) : rounds s i <+: rounds s' i := by
  unfold StageRouting.rounds
  split
  · exact h.calls.map _
  · exact (h.logs i).map _

theorem getElem?_mono {α : Type} {xs ys : List α} (hp : xs <+: ys) {k : ℕ} {x : α}
    (h : xs[k]? = some x) : ys[k]? = some x := by
  obtain ⟨hk, hx⟩ := List.getElem?_eq_some_iff.mp h
  rw [List.prefix_iff_getElem?.mp hp k hk, hx]

section

omit [Add F]

theorem Grows.decided (h : Grows s s') {k : ℕ} {a : Bool} (hd : Decided c s' k a) :
    Decided c s k a :=
  ⟨hd.1, fun hne d hk => hd.2 hne d (getElem?_mono (h.logs _) hk)⟩

/-- What a worker did stays right. -/
theorem EntryOk.of_grows (hg : Grows s s') {i k : ℕ} {e : Entry F} {p : LlmControlPacket F}
    (h : EntryOk c s i k e p) : EntryOk c s' i k e p := by
  refine ⟨fun a ha => h.round a (hg.decided ha), fun a ha => h.source a (hg.decided ha),
    fun a ha => h.forwarded a (hg.decided ha), ?_, fun j hj hji hne => ?_, h.single⟩
  · have hlt : k < (rounds s e.source).length := lt_of_roundTo_ne_nil (j := i) (by
      rw [h.frame]
      simp)
    rw [roundTo_mono (hg.rounds _) hlt, h.frame]
  · exact Nat.lt_of_lt_of_le (h.order j hj hji hne) (hg.logs j).length_le

/-- Every packet has a value its decision can have. -/
theorem exists_decided (c : StageChain F E) (s : System F E) (k : ℕ) : ∃ a, Decided c s k a := by
  by_cases hone : c.options.stageSkipTarget.toNat = 1
  · exact ⟨false, fun _ => rfl, fun hne => absurd hone hne⟩
  · cases hd : (s.workers (c.options.stageSkipTarget.toNat - 1)).log[k]? with
    | none => exact ⟨false, fun he => absurd he hone, fun _ d hk => absurd (hd.symm.trans hk) nofun⟩
    | some d =>
      refine ⟨d.accepted, fun he => absurd he hone, fun _ d' hk => ?_⟩
      rw [hd] at hk
      injection hk with hk
      rw [hk]

end

/-- A node's round for a packet that has taken place. -/
theorem RoutingInv.round (h : RoutingInv c s) {i k : ℕ} (hi : i < c.ppSize.toNat) (hk : k < (rounds s i).length)
    {r : RootCall F} (hr : s.root.calls[k]? = some r) {a : Bool} (ha : Decided c s k a) :
    RoundOk c r.packet a i ((rounds s i).getD k []) := by
  rcases Nat.eq_zero_or_pos i with hz | hpos
  · have hget : (rounds s i).getD k [] = r.sent := by
      rw [hz, rounds_zero, List.getD_eq_getElem?_getD, List.getElem?_map, hr]
      rfl
    rw [hget, hz]
    exact (h.calls k r hr).2 a ha.1
  · rw [rounds_pos s hpos] at hk ⊢
    rw [List.length_map] at hk
    have hentry := List.getElem?_eq_getElem hk
    obtain ⟨r', hr', he⟩ := h.entries i hpos hi k _ hentry
    rw [hr] at hr'
    injection hr' with hr'
    have hget : ((s.workers i).log.map fun e => e.sent).getD k [] = ((s.workers i).log[k]).sent := by
      rw [List.getD_eq_getElem?_getD, List.getElem?_map, hentry]
      rfl
    rw [hget, hr']
    exact he.round a ha

/-- A worker has not done more packets than the root has started. -/
theorem RoutingInv.log_le_calls (h : RoutingInv c s) {i : ℕ} (hi : 0 < i) (hlt : i < c.ppSize.toNat) :
    (s.workers i).log.length ≤ s.root.calls.length := by
  by_contra hgt
  have hk : s.root.calls.length < (s.workers i).log.length := by omega
  obtain ⟨r, hr, -⟩ := h.entries i hi hlt _ _ (List.getElem?_eq_getElem hk)
  rw [List.getElem?_eq_none (Nat.le_refl _)] at hr
  cases hr

theorem RoutingInv.results_lt (h : RoutingInv c s) {k : ℕ} {frame : Frame}
    (hk : s.root.results[k]? = some frame) : k < (rounds s (c.ppSize.toNat - 1)).length := by
  apply lt_of_roundTo_ne_nil (j := 0)
  rw [h.results k frame hk]
  simp

/-- The root has not taken more logits than the last stage has sent. -/
theorem RoutingInv.results_le_log (h : RoutingInv c s) :
    s.root.results.length ≤ (s.workers (c.ppSize.toNat - 1)).log.length := by
  by_contra hgt
  have hlt := c.target_lt
  have hpos : 0 < c.ppSize.toNat - 1 := by omega
  have hk : (s.workers (c.ppSize.toNat - 1)).log.length < s.root.results.length := by omega
  have hlen := h.results_lt (List.getElem?_eq_getElem hk)
  rw [rounds_pos s hpos, List.length_map] at hlen
  exact Nat.lt_irrefl _ hlen

/-- A stage is at most one packet behind any other, unless one is the target. -/
theorem RoutingInv.log_le_succ (h : RoutingInv c s) {i : ℕ} (hi : 0 < i) (hlt : i < c.ppSize.toNat)
    (hne : i ≠ c.options.stageSkipTarget.toNat) :
    s.root.calls.length ≤ (s.workers i).log.length + 1 := by
  have hresults : s.root.calls.length ≤ s.root.results.length + 1 := by
    rcases h.rootPhase with ⟨-, he⟩ | ⟨-, he⟩ <;> omega
  have hlast := h.results_le_log
  rcases Nat.lt_or_ge i (c.ppSize.toNat - 1) with hbefore | hge
  · rcases Nat.eq_zero_or_pos (s.workers (c.ppSize.toNat - 1)).log.length with hz | hpos
    · omega
    · have hk : (s.workers (c.ppSize.toNat - 1)).log.length - 1 <
          (s.workers (c.ppSize.toNat - 1)).log.length := by omega
      obtain ⟨r, -, he⟩ := h.entries _ (by omega) (by omega) _ _ (List.getElem?_eq_getElem hk)
      have horder := he.order i hi hbefore hne
      omega
  · have heq : i = c.ppSize.toNat - 1 := by omega
    rw [heq]
    omega

section

omit [Add F]

/-- What a worker reads after its control packet. -/
theorem recvFrom_worker {i : ℕ} {st : WorkerState F E} {p : LlmControlPacket F}
    {pl : NnPipelineCommunicator F} (hi : 0 < i) (h : Ready p st) (hp : PacketOk c p)
    (hpl : st.pipeline = some pl) (hend : ChainEnd c i pl) :
    st.recvFrom (c.worker i) =
      if (acts p && decide (i = c.options.stageSkipTarget.toNat + 1)) = true then
        .poll (c.options.stageSkipTarget.toNat - 1) c.options.stageSkipTarget.toNat
      else .source (i - 1) := by
  have hrecv : pl.shouldRecvActivations = true := by
    unfold NnPipelineCommunicator.shouldRecvActivations
    rw [hend.ppRank]
    exact decide_eq_true hi
  unfold WorkerState.recvFrom
  rw [hpl]
  dsimp only
  rw [hrecv, h.executeSingle, isStageSkipPostTargetStage_worker h hp, h.packet, hp.target,
    target_sub_one, hend.ppRank]
  rfl

theorem done_pos (s : System F E) {j : ℕ} (hj : 0 < j) : done s j = (s.workers j).log.length :=
  if_neg (by omega)

theorem taken_ready {i j : ℕ} (hj : 0 < j) (h : (s.workers j).phase = .ready) :
    taken s i j = if i = 0 then 1 else 0 := by
  unfold taken
  by_cases hi : i = 0
  · rw [if_pos ⟨hi, by omega, h⟩, if_pos hi]
  · rw [if_neg fun hall => hi hall.1, if_neg hi]

theorem taken_idle {i j : ℕ} (h : (s.workers j).phase = .idle) : taken s i j = 0 := by
  unfold taken
  rw [h]
  exact if_neg fun hall => Phase.noConfusion hall.2.2

theorem taken_root (s : System F E) (i : ℕ) : taken s i 0 = 0 := if_neg fun h => h.2.1 rfl

end

/-- A worker between packets finds its next control packet first. -/
theorem RoutingInv.control_head (h : RoutingInv c s) {i : ℕ} (hi : 0 < i)
    (hlt : i < c.ppSize.toNat) (hidle : (s.workers i).phase = .idle) {m : Message F}
    {rest : List (Message F)} (hl : s.links 0 i = m :: rest) :
    ∃ r, s.root.calls[(s.workers i).log.length]? = some r ∧ m = .control r.packet := by
  have hhead := h.balanced.head (f := flow s) hl
  rw [taken_idle hidle, done_pos s hi] at hhead
  change (stream (rounds s 0) i (s.workers i).log.length)[0]? = some m at hhead
  have hk : (s.workers i).log.length < (rounds s 0).length := by
    by_contra hge
    rw [stream_of_le (Nat.not_lt.mp hge)] at hhead
    cases hhead
  have hcalls : (s.workers i).log.length < s.root.calls.length := by
    rw [rounds_zero, List.length_map] at hk
    exact hk
  have hr := List.getElem?_eq_getElem hcalls
  obtain ⟨a, ha⟩ := exists_decided c s (s.workers i).log.length
  have hround := h.round (by omega) hk hr ha
  refine ⟨_, hr, ?_⟩
  have hfirst : ∃ later, roundTo (rounds s 0) i (s.workers i).log.length =
      .control (s.root.calls[(s.workers i).log.length]).packet :: later := by
    by_cases hs : 0 = sender c (s.root.calls[(s.workers i).log.length]).packet a i
    · obtain ⟨frame, hto, -⟩ := hround.next i hi hlt hs
      exact ⟨_, hto⟩
    · exact ⟨[], hround.others i hi hlt hs⟩
  obtain ⟨later, hto⟩ := hfirst
  rw [stream_succ, hto] at hhead
  injection hhead with hhead
  exact hhead.symm

/-- A worker that is ready finds the frame meant for it, and no other. -/
theorem RoutingInv.activation_head (h : RoutingInv c s) {i : ℕ} (hi : 0 < i)
    (hlt : i < c.ppSize.toNat) (hphase : (s.workers i).phase = .ready) {r : RootCall F}
    (hr : s.root.calls[(s.workers i).log.length]? = some r)
    (hready : Ready r.packet (s.workers i).state) {src : ℕ}
    (hsrc : src ∈ (RecvFrom.sources ((s.workers i).state.recvFrom (c.worker i))).1)
    {m : Message F} {rest : List (Message F)} (hl : s.links src i = m :: rest) {a : Bool}
    (ha : Decided c s (s.workers i).log.length a) :
    src < i ∧ src = sender c r.packet a i ∧ (s.workers i).log.length < (rounds s src).length ∧
      ∃ frame, m = .activation frame ∧
        roundTo (rounds s src) i (s.workers i).log.length =
          controls src r.packet ++ [.activation frame] ∧ FrameFor c r.packet a i frame := by
  have hhead := h.balanced.head (f := flow s) hl
  rw [taken_ready hi hphase, done_pos s hi] at hhead
  change (stream (rounds s src) i (s.workers i).log.length)[_]? = some m at hhead
  have hpk := (h.calls _ _ hr).1
  obtain ⟨pl, hpl, hend⟩ := (h.workers i hi hlt).pipeline
  have hpos := c.target_pos
  have htlt := c.target_lt
  rw [recvFrom_worker hi hready hpk hpl hend] at hsrc
  have hlen : (s.workers i).log.length < (rounds s src).length := by
    by_contra hge
    rw [stream_of_le (Nat.not_lt.mp hge)] at hhead
    cases hhead
  have hsrclt : src < i := by
    split at hsrc
    · rename_i hpoll
      simp only [Bool.and_eq_true, decide_eq_true_eq] at hpoll
      rcases List.mem_pair.mp hsrc with he | he <;> omega
    · rw [List.mem_singleton.mp hsrc]
      omega
  have hround := h.round (show src < c.ppSize.toNat by omega) hlen hr ha
  have hsender : src = sender c r.packet a i := by
    by_contra hne
    split at hsrc
    · rename_i hpoll
      simp only [Bool.and_eq_true, decide_eq_true_eq] at hpoll
      have hcalls := h.log_le_succ hi hlt (by omega)
      have hshort : (rounds s src).length ≤ (s.workers i).log.length + 1 := by
        rcases Nat.eq_zero_or_pos src with hz | hspos
        · rw [hz, rounds_zero, List.length_map]
          exact hcalls
        · have hle := h.log_le_calls hspos (by omega)
          rw [rounds_pos s hspos, List.length_map]
          omega
      have hto : roundTo (rounds s src) i (s.workers i).log.length = controls src r.packet :=
        hround.others i hi hlt hne
      rw [stream_succ, stream_of_le hshort, List.append_nil, hto, ← controls_length src r.packet,
        List.getElem?_eq_none (Nat.le_refl _)] at hhead
      cases hhead
    · rename_i hpoll
      apply hne
      rw [List.mem_singleton.mp hsrc]
      unfold sender
      rw [if_neg]
      intro hskip
      apply hpoll
      simp only [Bool.and_eq_true] at hskip ⊢
      exact ⟨hskip.1.1, hskip.2⟩
  obtain ⟨frame, hto, hframe⟩ := hround.next i hi hlt hsender
  have hto' : roundTo (rounds s src) i (s.workers i).log.length =
      controls src r.packet ++ [.activation frame] := hto
  refine ⟨hsrclt, hsender, hlen, frame, ?_, hto', hframe⟩
  rw [stream_succ, hto', ← controls_length src r.packet, List.append_assoc,
    List.getElem?_append_right (Nat.le_refl _), Nat.sub_self] at hhead
  injection hhead with hhead
  exact hhead.symm

/-- The root finds the logits of its last forward. -/
theorem RoutingInv.logits_head (h : RoutingInv c s) (hphase : s.root.phase = .ready)
    {m : Message F} {rest : List (Message F)}
    (hl : s.links (c.ppSize.toNat - 1) 0 = m :: rest) :
    ∃ r frame, s.root.calls[s.root.results.length]? = some r ∧ s.root.calls.getLast? = some r ∧
      m = .activation frame ∧ FitsBuffer frame (c.logitsElems r.packet) ∧
      roundTo (rounds s (c.ppSize.toNat - 1)) 0 s.root.results.length = [.activation frame] := by
  have hcalls : s.root.results.length + 1 = s.root.calls.length := by
    rcases h.rootPhase with ⟨hidle, -⟩ | ⟨-, he⟩
    · rw [hphase] at hidle
      cases hidle
    · exact he
  have hhead := h.balanced.head (f := flow s) hl
  rw [taken_root] at hhead
  change (stream (rounds s (c.ppSize.toNat - 1)) 0 s.root.results.length)[0]? = some m at hhead
  have htlt := c.target_lt
  have hlen : s.root.results.length < (rounds s (c.ppSize.toNat - 1)).length := by
    by_contra hge
    rw [stream_of_le (Nat.not_lt.mp hge)] at hhead
    cases hhead
  have hlast : s.root.results.length < s.root.calls.length := by omega
  have hr := List.getElem?_eq_getElem hlast
  obtain ⟨a, ha⟩ := exists_decided c s s.root.results.length
  have hround := h.round (by omega) hlen hr ha
  obtain ⟨frame, hto, hfits⟩ := hround.logits (by omega)
  have hto' : roundTo (rounds s (c.ppSize.toNat - 1)) 0 s.root.results.length =
      [.activation frame] := hto
  refine ⟨_, frame, hr, ?_, ?_, hfits, hto'⟩
  · rw [List.getLast?_eq_getElem?, ← hcalls, Nat.add_sub_cancel, hr]
  · rw [stream_succ, hto'] at hhead
    injection hhead with hhead
    exact hhead.symm

end LayerSkip.StageRouting
