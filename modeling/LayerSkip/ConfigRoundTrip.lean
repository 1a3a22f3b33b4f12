import LayerSkip.ConfigProtocol

/-!
# The workers get the configuration of the root

Writer and reader are compared field by field as talks of two parties. From the talks of the
root with each worker follows what any order of the single sends and receives ends with.
-/

namespace LayerSkip.ConfigProtocol

open NnTopology NnNetwork ByteSession RandomDescent Relation

section Talks

variable {cap x y : ℕ} (hcap : 0 < cap) (hne : x ≠ y)
include hcap hne

theorem talk_ack : Talk cap x y (writeAck y) (readAck x) () () := by
  have hpacket := Talk.value hcap hne uint ack
  exact hpacket.andThen (Eq.refl _)

theorem talk_ackBack : Talk cap x y (readAck y) (writeAck x) () () :=
  (talk_ack hcap (Ne.symm hne)).swap hne

theorem talk_string (str : CString) : Talk cap x y (writeString y str) (readString x) () str := by
  have hbytes : (UInt32.ofNat (str.chars.length + 1)).toNat = str.chars.length + 1 :=
    UInt32.toNat_ofNat_of_lt' str.fits
  have hall : (str.chars ++ [0]).take (UInt32.ofNat (str.chars.length + 1)).toNat =
      str.chars ++ [0] := by
    rw [hbytes]
    apply List.take_of_length_le
    rw [List.length_append, List.length_singleton]
  have hchars := Talk.bytes hcap hne (⟨str.chars ++ [0], by
    rw [hbytes, List.length_append, List.length_singleton]⟩ :
    List.Vector NnByte (UInt32.ofNat (str.chars.length + 1)).toNat)
  have hfound : ofDecoded (CString.ofBuffer (str.chars ++ [0])) =
      (.done str : Proc ℕ NnByte CString) := by
    rw [CString.ofBuffer_chars]
    exact Eq.refl _
  refine Talk.bind hne (Talk.value hcap hne uint _) ?_
  rw [hall]
  exact hchars.andThen hfound

theorem talk_sync (syncConfig : NnSyncConfig) :
    Talk cap x y (writeSync y syncConfig) (readSync x) () syncConfig := by
  have hvalue (a : NnUint) := Talk.value hcap hne uint a
  refine Talk.bind hne (hvalue _) ?_
  refine Talk.bind hne (Talk.value hcap hne (enumerator NnSyncType) _) ?_
  refine Talk.bind hne (hvalue _) ?_
  refine Talk.bind hne (hvalue _) ?_
  refine Talk.bind hne (hvalue _) ?_
  refine Talk.bind hne (hvalue _) ?_
  refine Talk.bind hne (hvalue _) ?_
  exact (hvalue _).andThen (Eq.refl _)

theorem talk_config (configSize : NnUint) (config : List.Vector NnByte configSize.toNat) :
    Talk cap x y (if 0 < configSize then writeBytes y config.toList else .done ())
      (readConfig x configSize) () config := by
  unfold readConfig
  by_cases hpos : 0 < configSize
  · rw [if_pos hpos, dif_pos hpos]
    exact Talk.bytes hcap hne config
  · rw [if_neg hpos, dif_neg hpos]
    have hempty : noConfig hpos = config := by
      apply Subtype.ext
      exact (List.eq_nil_of_length_eq_zero
        (config.2.trans (noConfig hpos).2.symm)).symm
    rw [hempty]
    exact Talk.done () config

theorem talk_op (opConfig : NnOpConfig) :
    Talk cap x y (writeOp y opConfig) (readOp x) () opConfig := by
  have hvalue (a : NnUint) := Talk.value hcap hne uint a
  refine Talk.bind hne (Talk.value hcap hne (enumerator NnOpCode) _) ?_
  refine Talk.bind hne (hvalue _) ?_
  refine Talk.bind hne (Talk.value hcap hne size3D _) ?_
  refine Talk.bind hne (hvalue _) ?_
  refine Talk.bind hne (talk_string hcap hne _) ?_
  refine Talk.bind hne (Talk.value hcap hne pointerConfig _) ?_
  refine Talk.bind hne (Talk.value hcap hne pointerConfig _) ?_
  exact (talk_config hcap hne _ opConfig.config).andThen (Eq.refl _)

/-- Nothing of the network is lost, and both sides get their acknowledgement. -/
theorem talk_net (config : NnNetConfig) :
    Talk cap x y (writeNet y config) (readNet x) () config := by
  have hvalue (a : NnUint) := Talk.value hcap hne uint a
  refine Talk.bind hne (talk_ack hcap hne) ?_
  refine Talk.bind hne (hvalue _) ?_
  refine Talk.bind hne (hvalue _) ?_
  refine Talk.bind hne (hvalue _) ?_
  refine Talk.bind hne (Talk.forEach hne config.pipes fun pipeConfig _ => ?_) ?_
  · refine Talk.bind hne (Talk.value hcap hne size3D _) ?_
    exact (talk_string hcap hne _).andThen (Eq.refl _)
  refine Talk.bind hne (hvalue _) ?_
  refine Talk.bind hne (Talk.forEach hne config.preSyncs fun preSyncConfig _ => ?_) ?_
  · exact (hvalue _).andThen (Eq.refl _)
  exact (talk_ackBack hcap hne).andThen (Eq.refl _)

/-- Nothing of a node is lost. -/
theorem talk_node (config : NnNodeConfig) :
    Talk cap x y (writeNode y config) (readNode x) () config := by
  have hvalue (a : NnUint) := Talk.value hcap hne uint a
  refine Talk.bind hne (talk_ack hcap hne) ?_
  refine Talk.bind hne (hvalue _) ?_
  refine Talk.bind hne (hvalue _) ?_
  refine Talk.bind hne (hvalue _) ?_
  refine Talk.bind hne (hvalue _) ?_
  refine Talk.bind hne (hvalue _) ?_
  refine Talk.bind hne (hvalue _) ?_
  refine Talk.bind hne (hvalue _) ?_
  refine Talk.bind hne (hvalue _) ?_
  refine Talk.bind hne (hvalue _) ?_
  refine Talk.bind hne (hvalue _) ?_
  refine Talk.bind hne (hvalue _) ?_
  refine Talk.bind hne (hvalue _) ?_
  refine Talk.bind hne (hvalue _) ?_
  refine Talk.bind hne (hvalue _) ?_
  refine Talk.bind hne (Talk.forEach hne config.buffers fun bufferConfig _ => ?_) ?_
  · refine Talk.bind hne (Talk.value hcap hne size3D _) ?_
    exact (talk_string hcap hne _).andThen (Eq.refl _)
  refine Talk.bind hne (Talk.forEach hne config.segments fun segmentConfig _ => ?_) ?_
  · refine Talk.bind hne (hvalue _) ?_
    refine Talk.bind hne (hvalue _) ?_
    refine Talk.bind hne (Talk.forEach hne segmentConfig.syncs fun syncConfig _ =>
      talk_sync hcap hne syncConfig) ?_
    exact (Talk.forEach hne segmentConfig.ops fun opConfig _ =>
      talk_op hcap hne opConfig).andThen (Eq.refl _)
  exact (talk_ackBack hcap hne).andThen (Eq.refl _)

end Talks

/-- Root and workers before the configuration is sent. A worker ends with what it has read. -/
def start (netConfig : NnNetConfig) (nodeConfigs : ℕ → NnNodeConfig) :
    Net ℕ NnByte (Option (NnNetConfig × NnNodeConfig)) where
  proc node :=
    if node = 0 then (writeToWorkers netConfig nodeConfigs).bind fun _ => .done none
    else if node < netConfig.nNodes.toNat then (readFromRoot node).bind fun c => .done (some c)
    else .done none
  link _ := []

theorem talk_worker {cap nodeIndex : ℕ} (hcap : 0 < cap) (hworker : nodeIndex ≠ 0)
    (netConfig : NnNetConfig) (nodeConfigs : ℕ → NnNodeConfig) :
    Talk cap 0 nodeIndex (writeToWorker netConfig nodeConfigs nodeIndex) (readFromRoot nodeIndex) ()
      (netConfig, nodeConfigs nodeIndex) := by
  have hroot : connectedPeer 0 (nodeIndex - 1) = nodeIndex := by
    unfold connectedPeer
    rw [if_pos (Eq.refl _)]
    omega
  have hworkerPeer : connectedPeer nodeIndex rootSocketIndex = 0 := by
    unfold connectedPeer
    rw [if_neg hworker]
    exact if_pos (Eq.refl _)
  unfold writeToWorker readFromRoot
  dsimp only
  rw [hroot, hworkerPeer]
  refine Talk.bind (Ne.symm hworker) (talk_net hcap (Ne.symm hworker) netConfig) ?_
  exact (talk_node hcap (Ne.symm hworker) (nodeConfigs nodeIndex)).andThen (Eq.refl _)

/-- The root serves a list of workers. -/
theorem serve_run {cap : ℕ} (hcap : 0 < cap) (netConfig : NnNetConfig)
    (nodeConfigs : ℕ → NnNodeConfig) (workers : List ℕ) (hnodup : workers.Nodup)
    (hworkers : ∀ w ∈ workers, w ≠ 0) {ρ : Type} (k : Unit → Proc ℕ NnByte ρ)
    (k' : NnNetConfig × NnNodeConfig → Proc ℕ NnByte ρ) (n : Net ℕ NnByte ρ)
    (hroot : n.proc 0 = (forEach workers (writeToWorker netConfig nodeConfigs)).bind k)
    (hreaders : ∀ w ∈ workers, n.proc w = (readFromRoot w).bind k') (hlink : ∀ e, n.link e = []) :
    ∃ n', ReflTransGen (Step cap) n n' ∧ n'.proc 0 = k () ∧
      (∀ w ∈ workers, n'.proc w = k' (netConfig, nodeConfigs w)) ∧
      (∀ other, other ≠ 0 → other ∉ workers → n'.proc other = n.proc other) ∧
      ∀ e, n'.link e = [] := by
  induction workers generalizing n with
  | nil => exact ⟨n, .refl, hroot, fun w hw => absurd hw List.not_mem_nil, fun _ _ _ => Eq.refl _, hlink⟩
  | cons w workers ih =>
    have hw : w ≠ 0 := hworkers w List.mem_cons_self
    have hfresh : w ∉ workers := (List.nodup_cons.mp hnodup).1
    unfold forEach at hroot
    rw [Proc.bind_assoc] at hroot
    have hfirst := (talk_worker hcap hw netConfig nodeConfigs).run n _ _ hroot
      (hreaders w List.mem_cons_self) (hlink _) (hlink _)
    generalize hserved : (⟨Function.update (Function.update n.proc 0 _) w _, n.link⟩ :
      Net ℕ NnByte ρ) = served at hfirst
    have hproc : served.proc = Function.update (Function.update n.proc 0
        ((forEach workers (writeToWorker netConfig nodeConfigs)).bind k)) w
        (k' (netConfig, nodeConfigs w)) := by
      rw [← hserved]
    have hroot' : served.proc 0 =
        (forEach workers (writeToWorker netConfig nodeConfigs)).bind k := by
      rw [hproc, Function.update_of_ne (Ne.symm hw), Function.update_self]
    have hreaders' : ∀ w' ∈ workers, served.proc w' = (readFromRoot w').bind k' := by
      intro w' hw'
      have hne : w' ≠ w := fun heq => hfresh (heq ▸ hw')
      rw [hproc, Function.update_of_ne hne,
        Function.update_of_ne (hworkers w' (List.mem_cons_of_mem w hw'))]
      exact hreaders w' (List.mem_cons_of_mem w hw')
    have hlink' : ∀ e, served.link e = [] := by
      intro e
      rw [← hserved]
      exact hlink e
    obtain ⟨n', hrun, hrootEnd, hdone, hother, hlinkEnd⟩ := ih (List.nodup_cons.mp hnodup).2
      (fun w' hw' => hworkers w' (List.mem_cons_of_mem w hw')) served hroot' hreaders' hlink'
    refine ⟨n', hfirst.trans hrun, hrootEnd, ?_, ?_, hlinkEnd⟩
    · intro w' hw'
      cases List.mem_cons.mp hw' with
      | inl heq =>
        rw [heq, hother w hw hfresh, hproc, Function.update_self]
      | inr hmem => exact hdone w' hmem
    · intro other hzero hout
      have hne : other ≠ w := fun heq => hout (heq ▸ List.mem_cons_self)
      rw [hother other hzero fun hmem => hout (List.mem_cons_of_mem w hmem), hproc,
        Function.update_of_ne hne, Function.update_of_ne hzero]

/-- However the sends and receives on links of any capacity are ordered, no node is left
waiting, every worker ends with the configuration that the root has for it and no byte is left
over. -/
theorem config_round_trip (capacity : ℕ) (netConfig : NnNetConfig)
    (nodeConfigs : ℕ → NnNodeConfig) :
    ∃ final, Outcome (Step (capacity + 1)) (start netConfig nodeConfigs) final ∧ Done final ∧
      (∀ nodeIndex, 0 < nodeIndex → nodeIndex < netConfig.nNodes.toNat →
        final.proc nodeIndex = .done (some (netConfig, nodeConfigs nodeIndex))) ∧
      ∀ e, final.link e = [] := by
  have hmem (w : ℕ) : w ∈ List.range' 1 (netConfig.nNodes.toNat - 1) ↔
      0 < w ∧ w < netConfig.nNodes.toNat := by
    rw [List.mem_range'_1]
    omega
  have hstart : (start netConfig nodeConfigs).proc 0 =
      (writeToWorkers netConfig nodeConfigs).bind fun _ => .done none := by
    unfold start
    dsimp only
    rw [if_pos (Eq.refl _)]
  have hreaders : ∀ w ∈ List.range' 1 (netConfig.nNodes.toNat - 1),
      (start netConfig nodeConfigs).proc w = (readFromRoot w).bind fun c => .done (some c) := by
    intro w hw
    have hlt := (hmem w).mp hw
    unfold start
    dsimp only
    rw [if_neg (by omega), if_pos hlt.2]
  obtain ⟨final, hrun, hroot, hworkers, hother, hlink⟩ := serve_run (Nat.succ_pos capacity) netConfig
    nodeConfigs _ (List.nodup_range' 1) (fun w hw => Nat.ne_of_gt ((hmem w).mp hw).1) _ _ _ hstart
    hreaders (fun _ => Eq.refl _)
  have hdone : Done final := by
    intro p
    by_cases hp : p ∈ List.range' 1 (netConfig.nNodes.toNat - 1)
    · exact ⟨_, hworkers p hp⟩
    · by_cases hzero : p = 0
      · rw [hzero]
        exact ⟨_, hroot⟩
      · refine ⟨none, (hother p hzero hp).trans ?_⟩
        have hout : ¬p < netConfig.nNodes.toNat := fun hlt => hp ((hmem p).mpr (by omega))
        unfold start
        dsimp only
        rw [if_neg hzero, if_neg hout]
  exact ⟨final, outcome_of_schedule hrun hdone, hdone, fun w hpos hlt =>
    hworkers w ((hmem w).mpr ⟨hpos, hlt⟩), hlink⟩

end LayerSkip.ConfigProtocol
