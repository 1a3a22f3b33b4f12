import LayerSkip.RoutingInvariant

/-!
# Every step of a chain keeps its invariant

Writes move a message from a node to a link. A control packet, an activation
or the logits are taken from the head of a link, and an activation ends the
round of a worker with the messages of the next stages.
-/

namespace LayerSkip.StageRouting

open NnTopology NnNetwork NnPipeline WorkerLlmInference WorkerState RoundFlow StageNetwork
  PipelineLink StageRound

variable {F E : Type} [Add F]

variable {c : StageChain F E} {s s' : System F E}

/-- Nothing has happened yet. -/
theorem routingInv_initial (c : StageChain F E) (args : ℕ → System.NodeArgs F E) :
    RoutingInv c (System.initial c args) := by
  have hrounds (i : ℕ) : rounds (System.initial c args) i = [] := by
    unfold rounds
    split <;> rfl
  have hend (i : ℕ) : ChainEnd c i ((args i).pipeline c i) := ⟨rfl, rfl, rfl, rfl, rfl⟩
  have hcomm (i : ℕ) {pl : NnPipelineCommunicator F} (h : comm (System.initial c args) i = some pl) :
      pl.prevSendBySocket = (fun _ => []) ∧ pl.prevRecvBySocket = fun _ => [] := by
    unfold comm at h
    split at h <;> injection h with h <;> rw [← h] <;> exact ⟨rfl, rfl⟩
  constructor
  · exact hend 0
  · exact .inl ⟨rfl, rfl⟩
  · exact nofun
  · exact nofun
  · exact fun i _ _ => ⟨rfl, ⟨_, rfl, hend i⟩, .inl rfl, rfl⟩
  · exact fun _ _ => rfl
  · exact fun _ _ _ _ _ he => nomatch he
  · intro i j
    have hstream : stream ((flow (System.initial c args)).rounds i) j
        (done (System.initial c args) j) = [] := by
      change stream (rounds (System.initial c args) i) j _ = []
      rw [hrounds i]
      exact stream_of_le (Nat.zero_le _)
    rw [hstream, List.drop_nil]
    rfl
  · intro i j pli plj _ hi hj
    rw [(hcomm i hi).1, (hcomm j hj).2]
    rfl

/-- Writing a message keeps the invariant. -/
theorem RoutingInv.write (h : RoutingInv c s) {i : ℕ} (hs : s.write i = some s') :
    RoutingInv c s' := by
  unfold System.write at hs
  split at hs
  · cases hs
  · rename_i j m rest hp
    injection hs with hs
    have hflow : flow s' = (flow s).deliver i j m rest := by
      rw [← hs]
      rfl
    have hgrows : Grows s s' := grows_of_eq (by rw [← hs]) fun _ => by rw [← hs]
    subst hs
    refine ⟨h.rootEnd, h.rootPhase, h.calls, h.results, fun x hx hxp => ?_, h.outside,
      fun x hx hxp k e hk => ?_, ?_, ?_⟩
    · obtain ⟨hrun, hpl, hphase, hreads⟩ := h.workers x hx hxp
      refine ⟨hrun, hpl, ?_, hreads⟩
      rcases hphase with hidle | ⟨hready, hpending, hr⟩
      · exact .inl hidle
      · refine .inr ⟨hready, ?_, hr⟩
        have hxi : x ≠ i := by
          intro he
          rw [he, hp] at hpending
          cases hpending
        exact (Function.update_of_ne hxi _ _).trans hpending
    · obtain ⟨r, hr, he⟩ := h.entries x hx hxp k e hk
      exact ⟨r, hr, he.of_grows hgrows⟩
    · rw [hflow]
      exact h.balanced.deliver hp
    · rw [hflow]
      intro x y plx ply hxy hcx hcy
      rw [Flow.inflight_deliver hp]
      exact h.inStep x y plx ply hxy hcx hcy

omit [Add F] in
/-- A node that decides on the messages of a round, seen on the links. -/
theorem flow_begin {i : ℕ} {sent : List (ℕ × Message F)} (hl : s'.links = s.links)
    (hp : s'.pending = Function.update s.pending i sent)
    (hr : ∀ j, rounds s' j = if j = i then rounds s i ++ [sent] else rounds s j) :
    flow s' = (flow s).begin i sent := by
  have hrounds : rounds s' = Function.update (rounds s) i (rounds s i ++ [sent]) := by
    funext j
    rw [hr j]
    by_cases hj : j = i
    · rw [if_pos hj, hj, Function.update_self]
    · rw [if_neg hj, Function.update_of_ne hj]
  unfold flow
  rw [hl, hp, hrounds]
  rfl

/-- A worker that has its control packet still has messages of this round. -/
theorem RoutingInv.taken_le (h : RoutingInv c s) {j : ℕ} (hj : 0 < j) (hlt : j < c.ppSize.toNat) :
    taken s 0 j ≤ (stream (rounds s 0) j (done s j)).length := by
  rcases (h.workers j hj hlt).phase with hidle | ⟨hready, -, r, hr, -, -⟩
  · rw [taken_idle hidle]
    exact Nat.zero_le _
  · rw [taken_ready hj hready, if_pos rfl, done_pos s hj]
    obtain ⟨a, ha⟩ := exists_decided c s (s.workers j).log.length
    have hlen : (s.workers j).log.length < (rounds s 0).length := by
      rw [rounds_zero, List.length_map]
      exact (List.getElem?_eq_some_iff.mp hr).1
    have hround := h.round (by omega) hlen hr ha
    have hone : 1 ≤ (roundTo (rounds s 0) j (s.workers j).log.length).length := by
      by_cases hs : 0 = sender c r.packet a j
      · obtain ⟨frame, hto, -⟩ := hround.next j hj hlt hs
        rw [roundTo, hto]
        simp [controls]
      · have hto := hround.others j hj hlt hs
        rw [roundTo, hto]
        simp [controls]
    rw [stream_succ, List.length_append]
    omega

/-- Starting a forward keeps the invariant. -/
theorem RoutingInv.start [Sub F] (h : RoutingInv c s) {call : ForwardCall E} {order : List ℕ}
    (hs : s.start c call order = some s') : RoutingInv c s' := by
  unfold System.start at hs
  split at hs
  · rename_i hcond
    obtain ⟨hidle, hpending, hvalid, horder⟩ := hcond
    obtain ⟨r', sent, hforward, hphase, hcalls, hresults, hemits, hround⟩ :=
      forward_ok h.rootEnd call horder
    rw [hforward] at hs
    injection hs with hs
    have hcount : s.root.results.length = s.root.calls.length := by
      rcases h.rootPhase with ⟨-, he⟩ | ⟨hready, -⟩
      · exact he
      · rw [hidle] at hready
        cases hready
    have hroot : s'.root = r' := by rw [← hs]
    have hworkers : s'.workers = s.workers := by rw [← hs]
    have hgrows : Grows s s' := by
      constructor
      · rw [hroot, hcalls]
        exact List.prefix_append _ _
      · intro i
        exact hworkers ▸ List.prefix_rfl
    have hrounds (j : ℕ) : rounds s' j = if j = 0 then rounds s 0 ++ [sent] else rounds s j := by
      unfold rounds
      rw [hroot, hworkers, hcalls]
      split
      · simp
      · rfl
    have hflow : flow s' = (flow s).begin 0 sent := by
      refine flow_begin ?_ ?_ hrounds
      · rw [← hs]
      · rw [← hs]
    have hcomm : comm s' = Function.update (comm s) 0 (some r'.pipeline) := by
      funext j
      unfold comm
      rw [hroot, hworkers]
      by_cases hj : j = 0
      · rw [if_pos hj, hj, Function.update_self]
      · rw [if_neg hj, Function.update_of_ne hj, if_neg hj]
    have htlt := c.target_lt
    constructor
    · rw [hroot]
      exact h.rootEnd.of_sameNode hemits.node
    · right
      rw [hroot, hcalls, hresults, List.length_append, List.length_singleton, hcount]
      exact ⟨hphase, rfl⟩
    · intro k r hr
      rw [hroot, hcalls] at hr
      rcases Nat.lt_or_ge k s.root.calls.length with hk | hk
      · rw [List.getElem?_append_left hk] at hr
        exact h.calls k r hr
      · rw [List.getElem?_append_right hk] at hr
        rw [List.mem_singleton.mp (List.mem_of_getElem? hr)]
        exact ⟨packetOk_controlPacket hvalid, hround⟩
    · intro k frame hk
      rw [hroot, hresults] at hk
      have hto := h.results k frame hk
      rw [roundTo_mono (hgrows.rounds _) (h.results_lt hk), hto]
    · intro i hi hlt
      obtain ⟨hrun, hpl, hphase', hreads⟩ := h.workers i hi hlt
      rw [← hworkers] at hrun hpl hphase' hreads
      refine ⟨hrun, hpl, ?_, hreads⟩
      rcases hphase' with hidle' | ⟨hready, hp, r, hr, hst⟩
      · exact .inl hidle'
      · refine .inr ⟨hready, ?_, r, getElem?_mono hgrows.calls hr, hst⟩
        rw [← hs]
        exact (Function.update_of_ne (by omega) _ _).trans hp
    · intro i hi
      rw [hworkers]
      exact h.outside i hi
    · intro i hi hlt k e hk
      rw [hworkers] at hk
      obtain ⟨r, hr, he⟩ := h.entries i hi hlt k e hk
      exact ⟨r, getElem?_mono hgrows.calls hr, he.of_grows hgrows⟩
    · rw [hflow]
      obtain ⟨a, ha⟩ := exists_decided c s 0
      have hok := hround a ha.1
      have hbegin : ((flow s).begin 0 sent).Balanced (done s) (taken s) := by
        refine h.balanced.begin hpending fun j => ?_
        rcases Nat.eq_zero_or_pos j with hz | hpos
        · left
          rw [hz]
          exact hok.noLogits (by omega)
        · rcases Nat.lt_or_ge j c.ppSize.toNat with hj | hj
          · right
            have hle := h.log_le_calls hpos hj
            have htaken := h.taken_le hpos hj
            refine ⟨?_, htaken⟩
            change done s j ≤ (rounds s 0).length
            rw [done_pos s hpos, rounds_zero, List.length_map]
            exact hle
          · exact .inl (hok.outside j hj)
      refine hbegin.congr (fun j => ?_) fun i j => ?_
      · unfold done
        rw [hroot, hworkers, hresults]
      · unfold taken
        rw [hworkers]
    · rw [hflow, hcomm]
      exact h.inStep.begin hpending (if_pos rfl) hemits
  · cases hs

/-- Taking a control packet keeps the invariant. -/
theorem RoutingInv.control (h : RoutingInv c s) {i : ℕ} (hs : s.control c i = some s') :
    RoutingInv c s' := by
  unfold System.control at hs
  split at hs
  · rename_i hcond
    obtain ⟨hi, hlt, hidle, hpending⟩ := hcond
    split at hs
    · cases hs
    · rename_i m rest hl
      injection hs with hs
      obtain ⟨r, hr, hm⟩ := h.control_head hi hlt hidle hl
      obtain ⟨hrun, ⟨pl, hpl, hend⟩, -, hreads⟩ := h.workers i hi hlt
      obtain ⟨st, pl', hnode, hready, hnoskip, hpl', hsame, hsend, hrecv⟩ :=
        takeControl_ok (i := i) hrun hpl (h.calls _ _ hr).1
      rw [hm, hnode] at hs
      have hself : s'.workers i = { s.workers i with state := st, phase := .ready } := by
        rw [← hs]
        exact Function.update_self _ _ _
      have hother (j : ℕ) (hj : j ≠ i) : s'.workers j = s.workers j := by
        rw [← hs]
        exact Function.update_of_ne hj _ _
      have hlog (j : ℕ) : (s'.workers j).log = (s.workers j).log := by
        by_cases hj : j = i
        · rw [hj, hself]
        · rw [hother j hj]
      have hroot : s'.root = s.root := by rw [← hs]
      have hpend : s'.pending = s.pending := by rw [← hs]
      have hgrows : Grows s s' := grows_of_eq (by rw [hroot]) hlog
      have hrounds : rounds s' = rounds s := by
        funext j
        unfold rounds
        rw [hroot, hlog j]
      have hflow : flow s' = (flow s).take 0 i rest := by
        unfold flow
        rw [hrounds, ← hs]
        rfl
      have hcomm : comm s' = Function.update (comm s) i (some pl') := by
        funext j
        unfold comm
        by_cases hj : j = i
        · rw [hj, Function.update_self, if_neg (by omega), hself]
          exact hpl'
        · rw [Function.update_of_ne hj, hroot, hother j hj]
      have hcommi : comm s i = some pl := (if_neg (by omega)).trans hpl
      constructor
      · rw [hroot]
        exact h.rootEnd
      · rw [hroot]
        exact h.rootPhase
      · rw [hroot]
        exact h.calls
      · rw [hroot, hrounds]
        exact h.results
      · intro j hj hjlt
        by_cases hji : j = i
        · subst hji
          constructor
          · rw [hself]
            exact hready.running
          · rw [hself]
            exact ⟨pl', hpl', hend.of_sameNode hsame⟩
          · right
            rw [hself, hpend, hroot]
            exact ⟨rfl, hpending, r, hr, hready, hnoskip⟩
          · rw [hself]
            exact hreads
        · obtain ⟨hrun', hplj, hphase, hreads'⟩ := h.workers j hj hjlt
          rw [← hother j hji] at hrun' hplj hphase hreads'
          rw [← hpend, ← hroot] at hphase
          exact ⟨hrun', hplj, hphase, hreads'⟩
      · intro j hj
        rw [hlog j]
        exact h.outside j hj
      · intro j hj hjlt k e hk
        rw [hlog j] at hk
        obtain ⟨r', hr', he⟩ := h.entries j hj hjlt k e hk
        refine ⟨r', ?_, he.of_grows hgrows⟩
        rw [hroot]
        exact hr'
      · rw [hflow]
        refine (h.balanced.take hl).congr (fun j => ?_) fun a b => ?_
        · unfold done
          rw [hroot, hlog j]
        · unfold taken
          by_cases hb : b = i
          · rw [hb, hself]
            by_cases ha : a = 0
            · have hne : i ≠ 0 := by omega
              simp [ha, hidle, hne]
            · simp [ha]
          · rw [if_neg fun hall => hb hall.2, hother b hb]
      · rw [hflow, hcomm]
        rw [hm] at hl
        exact (h.inStep.take_control hl).update hcommi hsend hrecv
  · cases hs

/-- Taking the logits keeps the invariant. -/
theorem RoutingInv.logits (h : RoutingInv c s) (hs : s.logits c = some s') : RoutingInv c s' := by
  have htlt := c.target_lt
  have hlast : c.ppSize.toNat - 1 < c.ppSize.toNat := by omega
  have hne : c.ppSize.toNat - 1 ≠ 0 := by omega
  unfold System.logits at hs
  split at hs
  · rename_i hcond
    obtain ⟨hready, hpending⟩ := hcond
    have hsocket : s.root.pipeline.recvSocket (c.topology.ppSize - 1) =
        .ok (getSocketIndexForNode 0 (c.ppSize.toNat - 1)) := h.rootEnd.recvSocket hlast hne
    rw [hsocket] at hs
    dsimp only at hs
    rw [connectedPeer_getSocketIndexForNode hne] at hs
    split at hs
    · cases hs
    · rename_i m rest hl
      injection hs with hs
      obtain ⟨r, frame, hr, hcall, hm, hfits, hto⟩ := h.logits_head hready hl
      obtain ⟨pll, hpll, hendl⟩ := (h.workers _ (by omega) hlast).pipeline
      have hcommr : comm s 0 = some s.root.pipeline := if_pos rfl
      have hcomml : comm s (c.ppSize.toNat - 1) = some pll := (if_neg hne).trans hpll
      rw [hm] at hl
      obtain ⟨logits, pl', hnode, hreceives⟩ :=
        takeLogits_ok hcall hfits (h.inStep.accepted hne hl hcommr hcomml)
      rw [hm, hnode] at hs
      have hworkers : s'.workers = s.workers := by rw [← hs]
      have hpend : s'.pending = s.pending := by rw [← hs]
      have hcalls : s'.root.calls = s.root.calls := by rw [← hs]
      have hresults : s'.root.results = s.root.results ++ [frame] := by rw [← hs]
      have hgrows : Grows s s' := grows_of_eq hcalls fun _ => by rw [hworkers]
      have hrounds : rounds s' = rounds s := by
        funext j
        unfold rounds
        rw [hcalls, hworkers]
      have hflow : flow s' = (flow s).take (c.ppSize.toNat - 1) 0 rest := by
        unfold flow
        rw [hrounds, ← hs]
        rfl
      have hcomm : comm s' = Function.update (comm s) 0 (some pl') := by
        funext j
        unfold comm
        by_cases hj : j = 0
        · rw [hj, Function.update_self, if_pos rfl, ← hs]
        · rw [Function.update_of_ne hj, if_neg hj, if_neg hj, hworkers]
      constructor
      · rw [← hs]
        exact h.rootEnd.of_sameNode hreceives.node
      · left
        rw [hresults, hcalls, ← hs, List.length_append, List.length_singleton]
        rcases h.rootPhase with ⟨hidle, -⟩ | ⟨-, he⟩
        · rw [hready] at hidle
          cases hidle
        · exact ⟨rfl, he⟩
      · rw [hcalls]
        exact h.calls
      · intro k f hk
        rw [hrounds]
        rw [hresults] at hk
        rcases Nat.lt_or_ge k s.root.results.length with hlt | hge
        · rw [List.getElem?_append_left hlt] at hk
          exact h.results k f hk
        · have hfk := (List.getElem?_eq_some_iff.mp hk).1
          rw [List.length_append, List.length_singleton] at hfk
          have heq : k = s.root.results.length := by omega
          rw [List.getElem?_append_right hge] at hk
          rw [List.mem_singleton.mp (List.mem_of_getElem? hk), heq]
          exact hto
      · intro i hi hlt
        obtain ⟨hrun, hpl, hphase, hreads⟩ := h.workers i hi hlt
        rw [← hworkers] at hrun hpl hphase hreads
        rw [← hpend, ← hcalls] at hphase
        exact ⟨hrun, hpl, hphase, hreads⟩
      · intro i hi
        rw [hworkers]
        exact h.outside i hi
      · intro i hi hlt k e hk
        rw [hworkers] at hk
        obtain ⟨r', hr', he⟩ := h.entries i hi hlt k e hk
        refine ⟨r', ?_, he.of_grows hgrows⟩
        rw [hcalls]
        exact hr'
      · rw [hflow]
        have htake := h.balanced.take hl
        have hdone : done s 0 = s.root.results.length := if_pos rfl
        have hfinish := htake.finishRound (j := 0) fun i => by
          change _ = (roundTo (rounds s i) 0 (done s 0)).length
          rw [hdone]
          by_cases hi : i = c.ppSize.toNat - 1
          · rw [if_pos ⟨hi, rfl⟩, hi, hto, taken_root]
            rfl
          · rw [if_neg fun hall => hi hall.1, taken_root]
            have hnone : roundTo (rounds s i) 0 s.root.results.length = [] := by
              by_contra hsome
              have hlen := lt_of_roundTo_ne_nil hsome
              rcases Nat.lt_or_ge i c.ppSize.toNat with hlt | hge
              · obtain ⟨a, ha⟩ := exists_decided c s s.root.results.length
                exact hsome ((h.round hlt hlen hr ha).noLogits (by omega))
              · rw [rounds_pos s (by omega), List.length_map, h.outside i (.inr hge)] at hlen
                exact Nat.not_lt_zero _ hlen
            rw [hnone]
            rfl
        refine hfinish.congr (fun j => ?_) fun a b => ?_
        · by_cases hj : j = 0
          · rw [hj, Function.update_self, hdone]
            unfold done
            rw [if_pos rfl, hresults, List.length_append, List.length_singleton]
          · rw [Function.update_of_ne hj]
            unfold done
            rw [if_neg hj, if_neg hj, hworkers]
        · by_cases hb : b = 0
          · rw [if_pos hb, hb, taken_root]
          · rw [if_neg hb, if_neg fun hall => hb hall.2]
            unfold taken
            rw [hworkers]
      · rw [hflow, hcomm]
        exact h.inStep.take_activation hne hl hcommr hcomml hreceives
  · cases hs

section

omit [Add F]

/-- Once the stage before the target has done a packet its decision is fixed. -/
theorem Decided.unique {k : ℕ} {a b : Bool} (ha : Decided c s k a) (hb : Decided c s k b)
    (hd : c.options.stageSkipTarget.toNat ≠ 1 →
      k < (s.workers (c.options.stageSkipTarget.toNat - 1)).log.length) : a = b := by
  by_cases hone : c.options.stageSkipTarget.toNat = 1
  · rw [ha.1 hone, hb.1 hone]
  · have hentry := List.getElem?_eq_getElem (hd hone)
    rw [ha.2 hone _ hentry, hb.2 hone _ hentry]

/-- Away from the stage after the target the decision does not matter. -/
theorem sender_of_ne {p : LlmControlPacket F} {a : Bool} {j : ℕ}
    (h : j ≠ c.options.stageSkipTarget.toNat + 1) : sender c p a j = j - 1 := by
  unfold sender
  rw [if_neg]
  intro hall
  simp only [Bool.and_eq_true, decide_eq_true_eq] at hall
  exact h hall.2

theorem sender_lt {p : LlmControlPacket F} {a : Bool} {j : ℕ} (hj : 0 < j) :
    sender c p a j < j := by
  unfold sender
  split
  · rename_i hall
    simp only [Bool.and_eq_true, decide_eq_true_eq] at hall
    omega
  · omega

end

/-- A stage whose sender has done a packet comes after every other that
precedes it, but the target. -/
theorem RoutingInv.order_of_sender (h : RoutingInv c s) {i k : ℕ} (hi : 0 < i)
    (hlt : i < c.ppSize.toNat) {p : LlmControlPacket F} {a : Bool}
    (hk : k < (rounds s (sender c p a i)).length) (j : ℕ) (hj : 0 < j) (hji : j < i)
    (hne : j ≠ c.options.stageSkipTarget.toNat) : k < (s.workers j).log.length := by
  have hpos := c.target_pos
  have hwithin : sender c p a i < i ∧ (j ≤ sender c p a i) := by
    unfold sender
    split
    · rename_i hall
      simp only [Bool.and_eq_true, decide_eq_true_eq] at hall
      omega
    · omega
  have hspos : 0 < sender c p a i := by omega
  rw [rounds_pos s hspos, List.length_map] at hk
  rcases Nat.lt_or_ge j (sender c p a i) with hjs | hjs
  · obtain ⟨r, -, he⟩ := h.entries _ hspos (by omega) _ _ (List.getElem?_eq_getElem hk)
    exact he.order j hj hjs hne
  · have heq : j = sender c p a i := by omega
    rw [heq]
    exact hk

/-- What changes when a worker ends its round for a packet. -/
structure RoundEnds (s s' : System F E) (i src : ℕ) (rest : List (Message F)) (e : Entry F) :
    Prop where
  self : ∃ st, s'.workers i =
    ⟨st, .idle, (s.workers i).log ++ [e], (s.workers i).reads ++ [(e.source, e.frame)]⟩
  others : ∀ j, j ≠ i → s'.workers j = s.workers j
  root : s'.root = s.root
  links : s'.links = setLink s.links src i rest
  pending : s'.pending = Function.update s.pending i e.sent

section RoundEnds

variable {i src k : ℕ} {rest : List (Message F)} {e : Entry F}

section

omit [Add F]

theorem RoundEnds.log (h : RoundEnds s s' i src rest e) (j : ℕ) :
    (s'.workers j).log = if j = i then (s.workers i).log ++ [e] else (s.workers j).log := by
  by_cases hj : j = i
  · obtain ⟨st, hst⟩ := h.self
    rw [if_pos hj, hj, hst]
  · rw [if_neg hj, h.others j hj]

theorem RoundEnds.grows (h : RoundEnds s s' i src rest e) : Grows s s' := by
  constructor
  · exact h.root ▸ List.prefix_rfl
  · intro j
    have hlog := h.log j
    by_cases hj : j = i
    · rw [hlog, if_pos hj, hj]
      exact List.prefix_append _ _
    · rw [if_neg hj] at hlog
      exact hlog ▸ List.prefix_rfl

theorem RoundEnds.flow (h : RoundEnds s s' i src rest e) (hi : 0 < i) :
    flow s' = ((flow s).take src i rest).begin i e.sent := by
  have hrounds : rounds s' = Function.update (rounds s) i (rounds s i ++ [e.sent]) := by
    funext j
    by_cases hj : j = i
    · rw [hj, Function.update_self, rounds_pos s' hi, rounds_pos s hi, h.log, if_pos rfl]
      simp
    · rw [Function.update_of_ne hj]
      unfold rounds
      rw [h.root, h.log, if_neg hj]
  unfold StageRouting.flow
  rw [h.links, h.pending, hrounds]
  rfl

end

/-- The entry of the ended round agrees with those of the other stages. -/
theorem RoundEnds.entryOk (he : RoundEnds s s' i src rest e) (h : RoutingInv c s) (hi : 0 < i)
    (hlt : i < c.ppSize.toNat) (hk : (s.workers i).log.length = k) {p : LlmControlPacket F}
    {a : Bool} (ha : Decided c s k a) (hsource : e.source = sender c p a i)
    (hlen : k < (rounds s e.source).length)
    (hto : roundTo (rounds s e.source) i k = controls e.source p ++ [.activation e.frame])
    (hforwarded : e.forwarded =
      !(decide (i = c.options.stageSkipTarget.toNat) && acts p && a))
    (hsingle : e.accepted = true → p.phase = 1 ∧ p.batchSize = 1)
    (hround : ∀ b, (i = c.options.stageSkipTarget.toNat → b = a) →
      (i + 1 = c.options.stageSkipTarget.toNat → acts p = true → b = e.accepted) →
        RoundOk c p b i e.sent) : EntryOk c s' i k e p := by
  have horder := h.order_of_sender hi hlt (hsource ▸ hlen)
  have hunique (b : Bool) (hb : Decided c s' k b) (hge : c.options.stageSkipTarget.toNat ≤ i) :
      b = a := by
    have htpos := c.target_pos
    exact (he.grows.decided hb).unique ha fun hne =>
      horder _ (by omega) (by omega) (by omega)
  refine ⟨fun b hb => hround b (fun heq => hunique b hb (Nat.le_of_eq heq.symm)) fun hdec _ => ?_,
    fun b hb => ?_, fun b hb => ?_, ?_, fun j hj hji hne => ?_, hsingle⟩
  · have hne : c.options.stageSkipTarget.toNat ≠ 1 := by omega
    refine hb.2 hne e ?_
    have hstage : c.options.stageSkipTarget.toNat - 1 = i := by omega
    rw [hstage, he.log, if_pos rfl, ← hk, List.getElem?_append_right (Nat.le_refl _), Nat.sub_self]
    rfl
  · rw [hsource]
    by_cases hafter : i = c.options.stageSkipTarget.toNat + 1
    · rw [hunique b hb (by omega)]
    · rw [sender_of_ne hafter, sender_of_ne hafter]
  · rw [hforwarded]
    by_cases htarget : i = c.options.stageSkipTarget.toNat
    · rw [hunique b hb (Nat.le_of_eq htarget.symm)]
    · rw [decide_eq_false htarget, Bool.false_and, Bool.false_and, Bool.false_and]
  · rw [roundTo_mono (he.grows.rounds _) hlen, hto]
  · exact Nat.lt_of_lt_of_le (horder j hj hji hne) (he.grows.logs j).length_le

/-- The receivers of a round have not counted it yet. -/
theorem RoundEnds.notAhead (he : RoundEnds s s' i src rest e) (h : RoutingInv c s) (hi : 0 < i)
    (hk : (s.workers i).log.length = k) {r : RootCall F} (hr : s.root.calls[k]? = some r)
    {b : Bool} (hb : Decided c s' k b) (hround : RoundOk c r.packet b i e.sent) (j : ℕ) :
    toParty j e.sent = [] ∨ (j ≠ i ∧ done s j ≤ (s.workers i).log.length) := by
  have hctrl : controls i r.packet = [] := if_neg (by omega)
  rcases Nat.eq_zero_or_pos j with hz | hj
  · by_cases hlast : i + 1 = c.ppSize.toNat
    · right
      have hle := h.results_le_log
      have heq : c.ppSize.toNat - 1 = i := by omega
      rw [heq] at hle
      refine ⟨by omega, ?_⟩
      rw [hz]
      exact hle
    · left
      rw [hz]
      exact hround.noLogits hlast
  · rcases Nat.lt_or_ge j c.ppSize.toNat with hjlt | hge
    · by_cases hs : i = sender c r.packet b j
      · right
        have hji : j ≠ i := by
          intro heq
          have hbefore : sender c r.packet b j < j := sender_lt hj
          omega
        refine ⟨hji, ?_⟩
        rw [done_pos s hj]
        by_contra hgt
        rw [hk] at hgt
        have hkj : k < (s.workers j).log.length := by omega
        obtain ⟨r', hr', hej⟩ := h.entries j hj hjlt k _ (List.getElem?_eq_getElem hkj)
        rw [hr] at hr'
        injection hr' with hr'
        obtain ⟨a, ha⟩ := exists_decided c s k
        have hsource := hej.source a ha
        have hlen : k < (rounds s (s.workers j).log[k].source).length := by
          apply lt_of_roundTo_ne_nil (j := j)
          rw [hej.frame]
          simp
        have hsame : sender c r.packet a j = sender c r.packet b j := by
          by_cases hafter : j = c.options.stageSkipTarget.toNat + 1
          · have htpos := c.target_pos
            have heq := ha.unique (he.grows.decided hb) fun hne =>
              hej.order _ (by omega) (by omega) (by omega)
            rw [heq]
          · rw [sender_of_ne hafter, sender_of_ne hafter]
        rw [hsource, ← hr', hsame, ← hs, rounds_pos s hi, List.length_map, hk] at hlen
        exact Nat.lt_irrefl _ hlen
      · left
        rw [← hctrl]
        exact hround.others j hj hjlt hs
    · left
      exact hround.outside j hge

/-- Every link holds what is left after the round. -/
theorem RoundEnds.balanced (he : RoundEnds s s' i src rest e) (h : RoutingInv c s) (hi : 0 < i)
    (hlt : i < c.ppSize.toNat) (hphase : (s.workers i).phase = .ready)
    (hpending : s.pending i = []) (hk : (s.workers i).log.length = k) {r : RootCall F}
    (hr : s.root.calls[k]? = some r) {a : Bool} (ha : Decided c s k a)
    (hsource : src = sender c r.packet a i) {frame : Frame}
    (hl : s.links src i = .activation frame :: rest)
    (hto : roundTo (rounds s src) i k = controls src r.packet ++ [.activation frame]) {b : Bool}
    (hb : Decided c s' k b) (hround : RoundOk c r.packet b i e.sent) :
    (StageRouting.flow s').Balanced (done s') (taken s') := by
  have htake := h.balanced.take hl
  have hdone : done s i = k := (done_pos s hi).trans hk
  have hfinish := htake.finishRound (j := i) fun x => by
    change _ = (roundTo (rounds s x) i (done s i)).length
    rw [hdone]
    by_cases hx : x = src
    · rw [if_pos ⟨hx, rfl⟩, hx, hto, taken_ready hi hphase, List.length_append, controls_length]
      rfl
    · rw [if_neg fun hall => hx hall.1, taken_ready hi hphase, ← controls_length x r.packet]
      by_cases hlen : k < (rounds s x).length
      · have hxlt : x < c.ppSize.toNat := by
          by_contra hge
          rw [rounds_pos s (by omega), List.length_map, h.outside x (.inr (Nat.not_lt.mp hge))] at hlen
          exact Nat.not_lt_zero _ hlen
        have hothers := (h.round hxlt hlen hr ha).others i hi hlt (hsource ▸ hx)
        exact congrArg List.length hothers.symm
      · have hxpos : x ≠ 0 := by
          intro hz
          rw [hz, rounds_zero, List.length_map] at hlen
          exact hlen (List.getElem?_eq_some_iff.mp hr).1
        have hnone : roundTo (rounds s x) i k = [] := by
          by_contra hsome
          exact hlen (lt_of_roundTo_ne_nil hsome)
        rw [hnone, controls_length, if_neg hxpos]
        rfl
  rw [he.flow hi]
  refine (hfinish.begin hpending fun j => ?_).congr (fun j => ?_) fun x y => ?_
  · rcases he.notAhead h hi hk hr hb hround j with hnone | ⟨hji, hle⟩
    · exact .inl hnone
    · right
      rw [Function.update_of_ne hji, if_neg hji, if_neg fun hall => hji hall.2]
      constructor
      · change done s j ≤ (rounds s i).length
        rw [rounds_pos s hi, List.length_map]
        exact hle
      · have hzero : taken s i j = 0 := if_neg fun hall => by omega
        rw [hzero]
        exact Nat.zero_le _
  · by_cases hj : j = i
    · rw [hj, Function.update_self, hdone, done_pos s' hi, he.log, if_pos rfl, List.length_append,
        hk]
      rfl
    · rw [Function.update_of_ne hj]
      unfold done
      rw [he.root, he.log, if_neg hj]
  · by_cases hy : y = i
    · obtain ⟨st, hst⟩ := he.self
      rw [if_pos hy, taken_idle (by rw [hy, hst])]
    · rw [if_neg hy, if_neg fun hall => hy hall.2]
      unfold taken
      rw [he.others y hy]

end RoundEnds

/-- Taking an activation keeps the invariant. -/
theorem RoutingInv.activation [Sub F] [LE F] [DecidableLE F] [LT F] [DecidableLT F]
    (h : RoutingInv c s) {i src : ℕ}
    (hs : s.activation c i src = some s') : RoutingInv c s' := by
  unfold System.activation at hs
  dsimp only at hs
  split at hs
  · rename_i hcond
    obtain ⟨hi, hlt, hphase, hpending, hsrc⟩ := hcond
    have htlt := c.target_lt
    have htpos := c.target_pos
    obtain ⟨hrun, ⟨pl, hpl, hend⟩, hphase', hreads⟩ := h.workers i hi hlt
    obtain ⟨r, hr, hready, hnoskip⟩ : ∃ r, s.root.calls[(s.workers i).log.length]? = some r ∧
        Ready r.packet (s.workers i).state ∧ (s.workers i).state.skipForwardThisToken = false := by
      rcases hphase' with hidle | ⟨-, -, hall⟩
      · rw [hphase] at hidle
        cases hidle
      · exact hall
    generalize hk : (s.workers i).log.length = k at hr
    have hpk := (h.calls _ _ hr).1
    have hsrclt : src < i := by
      rw [recvFrom_worker hi hready hpk hpl hend] at hsrc
      split at hsrc
      · rename_i hpoll
        simp only [Bool.and_eq_true, decide_eq_true_eq] at hpoll
        rcases List.mem_pair.mp hsrc with he | he <;> omega
      · rw [List.mem_singleton.mp hsrc]
        omega
    have hsrcne : src ≠ i := by omega
    rw [hpl] at hs
    dsimp only at hs
    rw [hend.recvSocket (by omega) hsrcne] at hs
    dsimp only at hs
    rw [connectedPeer_getSocketIndexForNode hsrcne] at hs
    split at hs
    · cases hs
    · rename_i m rest hl
      obtain ⟨accepted, hacc⟩ := exists_decided c s k
      rw [← hk] at hr hacc
      obtain ⟨-, hsender, hlen, frame, hm, hto, hframe⟩ :=
        h.activation_head hi hlt hphase hr hready hsrc hl hacc
      rw [hk] at hr hacc hlen hto
      rw [hm] at hl
      have hcommi : comm s i = some pl := (if_neg (by omega)).trans hpl
      obtain ⟨plsrc, hcommsrc⟩ : ∃ plsrc, comm s src = some plsrc := by
        rcases Nat.eq_zero_or_pos src with hz | hspos
        · exact ⟨s.root.pipeline, if_pos hz⟩
        · obtain ⟨pls, hpls, -⟩ := (h.workers src hspos (by omega)).pipeline
          exact ⟨pls, (if_neg (by omega)).trans hpls⟩
      obtain ⟨st, pl₁, pl', sent, hnode, hrun', hpl', hsingle, hreceives, hemits, hround⟩ :=
        takeActivation_ok hi hlt hready hnoskip hpk hpl hend hframe src
          (RecvFrom.sources ((s.workers i).state.recvFrom (c.worker i))).2
          (h.inStep.accepted hsrcne hl hcommi hcommsrc)
      rw [hm, hnode] at hs
      injection hs with hs
      generalize hentry : (⟨src, frame, _, _, sent⟩ : Entry F) = e at hs
      have hself : s'.workers i =
          ⟨st, .idle, (s.workers i).log ++ [e], (s.workers i).reads ++ [(src, frame)]⟩ := by
        rw [← hs]
        exact Function.update_self _ _ _
      have hsent : e.sent = sent := by rw [← hentry]
      have hends : RoundEnds s s' i src rest e := by
        constructor
        · refine ⟨st, ?_⟩
          rw [hself, ← hentry]
        · intro j hj
          rw [← hs]
          exact Function.update_of_ne hj _ _
        · rw [← hs]
        · rw [← hs]
        · rw [← hs, hsent]
      have hok : EntryOk c s' i k e r.packet := by
        refine hends.entryOk h hi hlt hk hacc ?_ ?_ ?_ ?_ ?_ ?_
        · rw [← hentry]
          exact hsender
        · rw [← hentry]
          exact hlen
        · rw [← hentry]
          exact hto
        · rw [← hentry]
        · intro hyes
          apply hsingle
          rw [← hentry] at hyes
          simpa using hyes
        · intro b hbt hbd
          rw [← hentry] at hbd
          rw [hsent]
          exact hround b hbt hbd
      obtain ⟨b, hb⟩ := exists_decided c s' k
      have hflow := hends.flow hi
      have hcomm : comm s' = Function.update (Function.update (comm s) i (some pl₁)) i (some pl') := by
        funext j
        unfold comm
        by_cases hj : j = i
        · rw [hj, Function.update_self, if_neg (by omega), hself]
          exact hpl'
        · rw [Function.update_of_ne hj, Function.update_of_ne hj, hends.root, hends.others j hj]
      constructor
      · rw [hends.root]
        exact h.rootEnd
      · rw [hends.root]
        exact h.rootPhase
      · rw [hends.root]
        exact h.calls
      · intro x f hx
        rw [hends.root] at hx
        have hold := h.results x f hx
        rw [roundTo_mono (hends.grows.rounds _) (h.results_lt hx), hold]
      · intro j hj hjlt
        by_cases hji : j = i
        · subst hji
          constructor
          · rw [hself]
            exact hrun'
          · rw [hself]
            exact ⟨pl', hpl', (hend.of_sameNode hreceives.node).of_sameNode hemits.node⟩
          · left
            rw [hself]
          · rw [hself]
            dsimp only
            rw [hreads, List.map_append, ← hentry]
            rfl
        · obtain ⟨hrunj, hplj, hphasej, hreadsj⟩ := h.workers j hj hjlt
          rw [← hends.others j hji] at hrunj hplj hphasej hreadsj
          refine ⟨hrunj, hplj, ?_, hreadsj⟩
          rw [hends.pending, Function.update_of_ne hji, hends.root]
          exact hphasej
      · intro j hj
        rw [hends.log, if_neg (by omega)]
        exact h.outside j hj
      · intro j hj hjlt x ex hx
        rw [hends.root]
        rw [hends.log] at hx
        split at hx
        · rename_i hji
          rcases Nat.lt_or_ge x (s.workers i).log.length with hxlt | hxge
          · rw [List.getElem?_append_left hxlt, ← hji] at hx
            obtain ⟨r', hr', he⟩ := h.entries j hj hjlt x ex hx
            exact ⟨r', hr', he.of_grows hends.grows⟩
          · have hlast := (List.getElem?_eq_some_iff.mp hx).1
            rw [List.length_append, List.length_singleton] at hlast
            have hxk : x = k := by omega
            rw [List.getElem?_append_right hxge] at hx
            rw [List.mem_singleton.mp (List.mem_of_getElem? hx), hji, hxk]
            exact ⟨r, hr, hok⟩
        · obtain ⟨r', hr', he⟩ := h.entries j hj hjlt x ex hx
          exact ⟨r', hr', he.of_grows hends.grows⟩
      · exact hends.balanced h hi hlt hphase hpending hk hr hacc hsender hl hto hb (hok.round b hb)
      · rw [hflow, hcomm, hsent]
        have htake := h.inStep.take_activation hsrcne hl hcommi hcommsrc hreceives
        exact htake.begin hpending (Function.update_self _ _ _) hemits
  · cases hs

/-- Every step keeps the invariant. -/
theorem RoutingInv.step [Sub F] [LE F] [DecidableLE F] [LT F] [DecidableLT F]
    (h : RoutingInv c s) {label : Label E} (hs : s.step c label = some s') :
    RoutingInv c s' := by
  cases label with
  | start call order => exact h.start hs
  | write i => exact h.write hs
  | control i => exact h.control hs
  | activation i source => exact h.activation hs
  | logits => exact h.logits hs

theorem RoutingInv.steps [Sub F] [LE F] [DecidableLE F] [LT F] [DecidableLT F]
    {labels : List (Label E)} (h : RoutingInv c s)
    (hs : s.steps c labels = some s') : RoutingInv c s' := by
  induction labels generalizing s with
  | nil =>
    injection hs with hs
    exact hs ▸ h
  | cons label labels ih =>
    obtain ⟨t, ht, hlater⟩ := Option.bind_eq_some_iff.mp hs
    exact ih (h.step ht) hlater

/-- Every reachable system has the invariant. -/
theorem routingInv_of_reachable [Sub F] [LE F] [DecidableLE F] [LT F] [DecidableLT F]
    (h : s.Reachable c) : RoutingInv c s := by
  obtain ⟨args, labels, hs⟩ := h
  exact (routingInv_initial c args).steps hs

end LayerSkip.StageRouting
