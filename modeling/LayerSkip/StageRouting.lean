import LayerSkip.RoutingSteps

/-!
# Routing of a stage skip

Over any forwards of the root and any order of reads and writes no node fails,
the target is skipped exactly when the stage before it has accepted the packet,
the stage after it takes the output that goes with the decision, and nothing is
left on a link once all stages are idle.
-/

namespace LayerSkip.StageRouting

open NnTopology NnNetwork NnPipeline WorkerLlmInference WorkerState RoundFlow StageNetwork
  PipelineLink StageRound

variable {F E : Type} [Add F] [Sub F] [LE F] [DecidableLE F] [LT F] [DecidableLT F]

variable {c : StageChain F E} {s s' : System F E}

/-- The decision stage has accepted a packet. -/
def accepted (c : StageChain F E) (s : System F E) (k : ℕ) : Bool :=
  ((s.workers (c.options.stageSkipTarget.toNat - 1)).log[k]?).any fun d => d.accepted

/-- What a stage did for a packet is as it should be. -/
structure EntryRouted (c : StageChain F E) (s : System F E) (i k : ℕ) (e : Entry F) : Prop where
  /-- The frame it took is the one of this packet. -/
  position : ∃ r, s.root.calls[k]? = some r ∧ e.frame.header.seqPosition = r.packet.position
  /-- It is the one frame that its source sent it for this packet. -/
  delivered : ∃ sent, (rounds s e.source)[k]? = some sent ∧ frames (toParty i sent) = [e.frame]
  /-- From the target on the decision has been taken before. -/
  decided : 1 < c.options.stageSkipTarget.toNat → c.options.stageSkipTarget.toNat ≤ i →
    k < (s.workers (c.options.stageSkipTarget.toNat - 1)).log.length
  /-- The stage after the target takes the output of the decision stage after
  an accepted decision; every other frame comes from the stage before. -/
  source : e.source =
    if c.options.stageSkipEnabled = true ∧ accepted c s k = true ∧
      i = c.options.stageSkipTarget.toNat + 1 then c.options.stageSkipTarget.toNat - 1 else i - 1
  /-- The target is skipped after an accepted decision, and nothing else is. -/
  skipped : e.forwarded = false ↔ i = c.options.stageSkipTarget.toNat ∧
    c.options.stageSkipEnabled = true ∧ accepted c s k = true

/-- All stages are idle: they wait for a control packet, and none is coming. -/
structure AllIdle (c : StageChain F E) (s : System F E) : Prop where
  root : s.root.phase = .idle
  pending : ∀ i, i < c.ppSize.toNat → s.pending i = []
  workers : ∀ i, 0 < i → i < c.ppSize.toNat → (s.workers i).phase = .idle
  controls : ∀ i p, 0 < i → i < c.ppSize.toNat → .control p ∉ s.links 0 i

/-- The routing of a system is as it should be. -/
structure Routed (c : StageChain F E) (s : System F E) : Prop where
  /-- No node has ended by an exception. -/
  root_running : ∀ text, s.root.phase ≠ .failed text
  running : ∀ i text, 0 < i → i < c.ppSize.toNat → (s.workers i).phase ≠ .failed text
  /-- A stage has read one frame for each packet it has done, and no other. -/
  reads : ∀ i, 0 < i → i < c.ppSize.toNat →
    (s.workers i).reads = (s.workers i).log.map fun e => (e.source, e.frame)
  entries : ∀ i (k : ℕ) e, 0 < i → i < c.ppSize.toNat → (s.workers i).log[k]? = some e →
    EntryRouted c s i k e
  /-- With all stages idle no link holds anything. -/
  drained : AllIdle c s → ∀ i j, i < c.ppSize.toNat → j < c.ppSize.toNat → s.links i j = []
  /-- Only when every stage has done every packet can no node go on by itself. -/
  complete : (∀ label, (∀ call order, label ≠ .start call order) → s.step c label = none) →
    AllIdle c s ∧ ∀ i, 0 < i → i < c.ppSize.toNat →
      (s.workers i).log.length = s.root.calls.length

section

omit [Sub F] [LE F] [DecidableLE F] [LT F] [DecidableLT F]

/-- The invariant's decision is the one of the decision stage. -/
theorem RoutingInv.accepted_of_decided (h : RoutingInv c s) {k : ℕ} {r : RootCall F}
    (hr : s.root.calls[k]? = some r) {a : Bool} (ha : Decided c s k a)
    (hd : c.options.stageSkipTarget.toNat ≠ 1 →
      k < (s.workers (c.options.stageSkipTarget.toNat - 1)).log.length) :
    (acts r.packet && a) = (c.options.stageSkipEnabled && accepted c s k) := by
  have hpk := (h.calls k r hr).1
  have htlt := c.target_lt
  have htpos := c.target_pos
  unfold accepted
  by_cases hone : c.options.stageSkipTarget.toNat = 1
  · have hroot : (s.workers (c.options.stageSkipTarget.toNat - 1)).log = [] := by
      rw [hone]
      exact h.outside 0 (.inl rfl)
    rw [hroot, ha.1 hone]
    simp
  · have hlen := hd hone
    have hentry := List.getElem?_eq_getElem hlen
    obtain ⟨r', hr', he⟩ := h.entries _ (by omega) (by omega) _ _ hentry
    rw [hr] at hr'
    injection hr' with hr'
    have hsingle := he.single
    rw [hentry, ha.2 hone _ hentry, hpk.acts]
    generalize (s.workers (c.options.stageSkipTarget.toNat - 1)).log[k] = d at hsingle ⊢
    cases hacc : d.accepted with
    | false => simp [hacc]
    | true =>
      have hp := hsingle hacc
      rw [← hr'] at hp
      simp [hacc, hp.1, hp.2]

/-- What a stage did is as it should be. -/
theorem RoutingInv.entryRouted (h : RoutingInv c s) {i k : ℕ} {e : Entry F} (hi : 0 < i)
    (hlt : i < c.ppSize.toNat) (hk : (s.workers i).log[k]? = some e) : EntryRouted c s i k e := by
  obtain ⟨r, hr, he⟩ := h.entries i hi hlt k e hk
  obtain ⟨a, ha⟩ := exists_decided c s k
  have htpos := c.target_pos
  have hlen : k < (rounds s e.source).length := by
    apply lt_of_roundTo_ne_nil (j := i)
    rw [he.frame]
    simp
  have hsource := he.source a ha
  have hround := h.round (show e.source < c.ppSize.toNat by
    have hbefore : sender c r.packet a i < i := sender_lt hi
    omega) hlen hr ha
  obtain ⟨frame, hto, hframe⟩ := hround.next i hi hlt hsource
  have hsame : frame = e.frame := by
    have hboth := he.frame
    unfold roundTo at hboth
    rw [hto] at hboth
    have htail := List.append_cancel_left hboth
    injection htail with hmsg
    injection hmsg
  have hdecided (hge : c.options.stageSkipTarget.toNat ≤ i)
      (hne : c.options.stageSkipTarget.toNat ≠ 1) :
      k < (s.workers (c.options.stageSkipTarget.toNat - 1)).log.length :=
    he.order _ (by omega) (by omega) (by omega)
  constructor
  · exact ⟨r, hr, hsame ▸ hframe.position⟩
  · refine ⟨_, List.getElem?_eq_getElem hlen, ?_⟩
    have hget : (rounds s e.source)[k] = (rounds s e.source).getD k [] := by
      rw [List.getD_eq_getElem?_getD, List.getElem?_eq_getElem hlen]
      rfl
    rw [hget, hto, frames_append, frames_controls, hsame]
    rfl
  · intro hone hge
    exact hdecided hge (by omega)
  · by_cases hafter : i = c.options.stageSkipTarget.toNat + 1
    · have hacc := h.accepted_of_decided hr ha (hdecided (by omega))
      rw [hsource, sender, hacc]
      simp only [Bool.and_eq_true, decide_eq_true_eq, and_assoc]
    · rw [hsource, sender_of_ne hafter, if_neg fun hall => hafter hall.2.2]
  · rw [he.forwarded a ha]
    by_cases htarget : i = c.options.stageSkipTarget.toNat
    · have hacc := h.accepted_of_decided hr ha (hdecided (by omega))
      rw [decide_eq_true htarget, Bool.true_and, hacc]
      simp [htarget]
    · simp [htarget]

/-- The first message for a worker in a round of the root is the control packet. -/
theorem RoutingInv.control_first (h : RoutingInv c s) {i k : ℕ} (hi : 0 < i)
    (hlt : i < c.ppSize.toNat) {r : RootCall F} (hr : s.root.calls[k]? = some r) :
    ∃ later, stream (rounds s 0) i k = .control r.packet :: later := by
  obtain ⟨a, ha⟩ := exists_decided c s k
  have hlen : k < (rounds s 0).length := by
    rw [rounds_zero, List.length_map]
    exact (List.getElem?_eq_some_iff.mp hr).1
  have hround := h.round (by omega) hlen hr ha
  rw [stream_succ, roundTo]
  by_cases hs : 0 = sender c r.packet a i
  · obtain ⟨frame, hto, -⟩ := hround.next i hi hlt hs
    rw [hto]
    exact ⟨_, rfl⟩
  · rw [hround.others i hi hlt hs]
    exact ⟨_, rfl⟩

/-- A worker that is idle and has no control packet to take has done all. -/
theorem RoutingInv.log_eq_calls (h : RoutingInv c s) {i : ℕ} (hi : 0 < i)
    (hlt : i < c.ppSize.toNat) (hidle : (s.workers i).phase = .idle) (hpending : s.pending 0 = [])
    (hcontrol : ∀ p, .control p ∉ s.links 0 i) :
    (s.workers i).log.length = s.root.calls.length := by
  have hle := h.log_le_calls hi hlt
  by_contra hne
  have hk : (s.workers i).log.length < s.root.calls.length := by omega
  obtain ⟨later, hstream⟩ := h.control_first hi hlt (List.getElem?_eq_getElem hk)
  have hbal := h.balanced 0 i
  rw [taken_idle hidle, done_pos s hi, List.drop_zero] at hbal
  change s.links 0 i ++ toParty i (s.pending 0) =
    stream (rounds s 0) i (s.workers i).log.length at hbal
  rw [hpending, toParty_nil, List.append_nil, hstream] at hbal
  apply hcontrol (s.root.calls[(s.workers i).log.length]).packet
  rw [hbal]
  exact List.mem_cons_self

/-- With all stages idle no link holds anything. -/
theorem RoutingInv.drained (h : RoutingInv c s) (hidle : AllIdle c s) {i j : ℕ}
    (hi : i < c.ppSize.toNat) (hj : j < c.ppSize.toNat) : s.links i j = [] := by
  have hlog (x : ℕ) (hx : 0 < x) (hxp : x < c.ppSize.toNat) :
      (s.workers x).log.length = s.root.calls.length :=
    h.log_eq_calls hx hxp (hidle.workers x hx hxp) (hidle.pending 0 (by omega))
      fun p => hidle.controls x p hx hxp
  have hresults : s.root.results.length = s.root.calls.length := by
    rcases h.rootPhase with ⟨-, he⟩ | ⟨hready, -⟩
    · exact he
    · rw [hidle.root] at hready
      cases hready
  have hrounds : (rounds s i).length = s.root.calls.length := by
    rcases Nat.eq_zero_or_pos i with hz | hpos
    · rw [hz, rounds_zero, List.length_map]
    · rw [rounds_pos s hpos, List.length_map, hlog i hpos hi]
  have hdone : done s j = s.root.calls.length := by
    rcases Nat.eq_zero_or_pos j with hz | hpos
    · rw [hz]
      exact hresults
    · rw [done_pos s hpos, hlog j hpos hj]
  have hbal := h.balanced i j
  rw [hdone] at hbal
  change s.links i j ++ toParty j (s.pending i) = (stream (rounds s i) j _).drop _ at hbal
  rw [hidle.pending i hi, toParty_nil, List.append_nil, stream_of_le (Nat.le_of_eq hrounds),
    List.drop_nil] at hbal
  exact hbal

/-- What a node has been sent and nobody still has to write is on the link. -/
theorem RoutingInv.link_ne_nil (h : RoutingInv c s) {i j : ℕ} (hpending : s.pending i = [])
    (hmore : taken s i j < (roundTo (rounds s i) j (done s j)).length) : s.links i j ≠ [] := by
  have hbal := h.balanced i j
  change s.links i j ++ toParty j (s.pending i) = (stream (rounds s i) j _).drop _ at hbal
  rw [hpending, toParty_nil, List.append_nil, stream_succ] at hbal
  intro hnil
  have hlen := congrArg List.length hbal
  rw [hnil, List.length_drop, List.length_append, List.length_nil] at hlen
  omega

end

/-- A worker that is ready can go on once every stage before it has done all. -/
theorem RoutingInv.activation_enabled (h : RoutingInv c s) {i : ℕ} (hi : 0 < i)
    (hlt : i < c.ppSize.toNat) (hpending : ∀ j, j < c.ppSize.toNat → s.pending j = [])
    (hready : (s.workers i).phase = .ready)
    (hbefore : ∀ j, 0 < j → j < i → (s.workers j).log.length = s.root.calls.length) :
    ∃ src, s.activation c i src ≠ none := by
  obtain ⟨-, ⟨pl, hpl, hend⟩, hphase, -⟩ := h.workers i hi hlt
  rcases hphase with hidle | ⟨-, -, r, hr, hst, -⟩
  · rw [hready] at hidle
    cases hidle
  obtain ⟨a, ha⟩ := exists_decided c s (s.workers i).log.length
  have hsrc : sender c r.packet a i < i := sender_lt hi
  have hk := (List.getElem?_eq_some_iff.mp hr).1
  have hlen : (s.workers i).log.length < (rounds s (sender c r.packet a i)).length := by
    rcases Nat.eq_zero_or_pos (sender c r.packet a i) with hz | hpos
    · rw [hz, rounds_zero, List.length_map]
      exact hk
    · rw [rounds_pos s hpos, List.length_map, hbefore _ hpos hsrc]
      exact hk
  obtain ⟨frame, hto, -⟩ := (h.round (by omega) hlen hr ha).next i hi hlt rfl
  have hmore : s.links (sender c r.packet a i) i ≠ [] := by
    apply h.link_ne_nil (hpending _ (by omega))
    rw [taken_ready hi hready, done_pos s hi, roundTo, hto, List.length_append, controls_length]
    exact Nat.lt_succ_self _
  have hmem : sender c r.packet a i ∈
      (RecvFrom.sources ((s.workers i).state.recvFrom (c.worker i))).1 := by
    rw [recvFrom_worker hi hst (h.calls _ _ hr).1 hpl hend]
    split
    · rename_i hpoll
      simp only [Bool.and_eq_true, decide_eq_true_eq] at hpoll
      unfold sender
      split
      · exact List.mem_pair.mpr (.inl rfl)
      · exact List.mem_pair.mpr (.inr (by omega))
    · rename_i hpoll
      refine List.mem_singleton.mpr ?_
      unfold sender
      rw [if_neg]
      intro hskip
      apply hpoll
      simp only [Bool.and_eq_true] at hskip ⊢
      exact ⟨hskip.1.1, hskip.2⟩
  refine ⟨sender c r.packet a i, ?_⟩
  have hne : sender c r.packet a i ≠ i := by omega
  unfold System.activation
  dsimp only
  rw [if_pos ⟨hi, hlt, hready, hpending i hlt, hmem⟩, hpl]
  dsimp only
  rw [hend.recvSocket (by omega) hne]
  dsimp only
  rw [connectedPeer_getSocketIndexForNode hne]
  cases hl : s.links (sender c r.packet a i) i with
  | nil => exact absurd hl hmore
  | cons m rest => exact Option.some_ne_none _

omit [Sub F] [LE F] [DecidableLE F] [LT F] [DecidableLT F] in
/-- The root can take the logits once the last stage has done all. -/
theorem RoutingInv.logits_enabled (h : RoutingInv c s)
    (hpending : ∀ j, j < c.ppSize.toNat → s.pending j = []) (hready : s.root.phase = .ready)
    (hlast : (s.workers (c.ppSize.toNat - 1)).log.length = s.root.calls.length) :
    s.logits c ≠ none := by
  have htlt := c.target_lt
  have hpos : 0 < c.ppSize.toNat - 1 := by omega
  have hbelow : c.ppSize.toNat - 1 < c.ppSize.toNat := by omega
  have hne : c.ppSize.toNat - 1 ≠ 0 := by omega
  have hk : s.root.results.length < s.root.calls.length := by
    rcases h.rootPhase with ⟨hidle, -⟩ | ⟨-, he⟩
    · rw [hready] at hidle
      cases hidle
    · omega
  obtain ⟨a, ha⟩ := exists_decided c s s.root.results.length
  have hlen : s.root.results.length < (rounds s (c.ppSize.toNat - 1)).length := by
    rw [rounds_pos s hpos, List.length_map, hlast]
    exact hk
  obtain ⟨frame, hto, -⟩ :=
    (h.round (by omega) hlen (List.getElem?_eq_getElem hk) ha).logits (by omega)
  have hmore : s.links (c.ppSize.toNat - 1) 0 ≠ [] := by
    apply h.link_ne_nil (hpending _ (by omega))
    have hdone : done s 0 = s.root.results.length := if_pos rfl
    rw [taken_root, hdone, roundTo, hto]
    exact Nat.one_pos
  have hsocket : s.root.pipeline.recvSocket (c.topology.ppSize - 1) =
      .ok (getSocketIndexForNode 0 (c.ppSize.toNat - 1)) := h.rootEnd.recvSocket hbelow hne
  unfold System.logits
  rw [if_pos ⟨hready, hpending 0 (by omega)⟩, hsocket]
  dsimp only
  rw [connectedPeer_getSocketIndexForNode hne]
  cases hl : s.links (c.ppSize.toNat - 1) 0 with
  | nil => exact absurd hl hmore
  | cons m rest => exact Option.some_ne_none _

/-- Only when every stage has done every packet can no node go on by itself. -/
theorem RoutingInv.complete (h : RoutingInv c s)
    (hstop : ∀ label, (∀ call order, label ≠ Label.start call order) → s.step c label = none) :
    AllIdle c s ∧ ∀ i, 0 < i → i < c.ppSize.toNat →
      (s.workers i).log.length = s.root.calls.length := by
  have hpending (i : ℕ) : s.pending i = [] := by
    have hwrite : s.write i = none := hstop (.write i) nofun
    unfold System.write at hwrite
    split at hwrite
    · assumption
    · cases hwrite
  have hlinks (i : ℕ) (hi : 0 < i) (hlt : i < c.ppSize.toNat)
      (hidle : (s.workers i).phase = .idle) : s.links 0 i = [] := by
    have hcontrol : s.control c i = none := hstop (.control i) nofun
    unfold System.control at hcontrol
    rw [if_pos ⟨hi, hlt, hidle, hpending i⟩] at hcontrol
    split at hcontrol
    · assumption
    · cases hcontrol
  have hlog (i : ℕ) (hi : 0 < i) (hlt : i < c.ppSize.toNat)
      (hidle : (s.workers i).phase = .idle) :
      (s.workers i).log.length = s.root.calls.length := by
    refine h.log_eq_calls hi hlt hidle (hpending 0) fun p => ?_
    rw [hlinks i hi hlt hidle]
    exact List.not_mem_nil
  have hworkers (i : ℕ) (hi : 0 < i) (hlt : i < c.ppSize.toNat) :
      (s.workers i).phase = .idle := by
    induction i using Nat.strongRecOn with
    | _ i ih =>
      rcases (h.workers i hi hlt).phase with hidle | ⟨hready, -⟩
      · exact hidle
      · obtain ⟨src, hsome⟩ := h.activation_enabled hi hlt (fun j _ => hpending j) hready
          fun j hj hji => hlog j hj (by omega) (ih j hji hj (by omega))
        exact absurd (hstop (.activation i src) nofun) hsome
  have hall (i : ℕ) (hi : 0 < i) (hlt : i < c.ppSize.toNat) := hlog i hi hlt (hworkers i hi hlt)
  have htlt := c.target_lt
  refine ⟨⟨?_, fun i _ => hpending i, hworkers, fun i p hi hlt => ?_⟩, hall⟩
  · rcases h.rootPhase with ⟨hidle, -⟩ | ⟨hready, -⟩
    · exact hidle
    · have hsome := h.logits_enabled (fun j _ => hpending j) hready (hall _ (by omega) (by omega))
      exact absurd (hstop .logits nofun) hsome
  · rw [hlinks i hi hlt (hworkers i hi hlt)]
    exact List.not_mem_nil

section Words

open WorkerRun

/-- Four stages on words, with skips of stage 2 enabled. -/
def wordChain : StageChain NnUint (List NnUint) where
  ppSize := 4
  codec := wordCodec
  engine _ := wordEngine
  maxBatchSize := 1
  xPipeRow := 1
  logitsPipeRow := 1
  fusedLmHeadArgmax := false
  computeDeltaNormEncoded curr prev := some (curr.headD 0 - prev.headD 0)
  ofUint x := x
  options := ⟨0, 0, .f32, false, 0, 0, false, true, 2, 10, 1, 3⟩
  target_pos := by decide
  target_lt := by decide

/-- The nodes as they start. -/
def wordArgs (_ : ℕ) : System.NodeArgs NnUint (List NnUint) :=
  ⟨[], decodePacket 0 0 0 0 0, .f32, false, 0, 0⟩

/-- One decode token with the same activation every time. -/
def wordStart (position : NnUint) : List (Label (List NnUint)) :=
  [.start ⟨position, 1, true, none, fun _ => [7]⟩ [1, 2, 3], .write 0, .write 0, .write 0, .write 0,
    .control 1, .activation 1 0]

/-- A token through all stages, and one that stage 1 sends past stage 2, which
has not yet taken its marker. -/
def twoTokens : List (Label (List NnUint)) :=
  wordStart 0 ++ [.write 1, .control 2, .activation 2 1, .write 2, .control 3, .activation 3 2,
    .write 3, .logits] ++
  wordStart 1 ++ [.write 1, .write 1, .control 3, .activation 3 1, .write 3, .logits]

end Words

end LayerSkip.StageRouting
