import LayerSkip.SocketThreads
import LayerSkip.NnNetwork

/-!
# The root's row for every node

Before a segment reads a pipe, the root sends its rows to all workers: its threads
divide the sockets among themselves, and the first thread of every worker receives.
Every node decides from its index, passed as a byte, which of the two it does.
-/

namespace LayerSkip.RootBroadcast

open RandomDescent SocketThreads NnNetwork Relation

/-- Settings of the nodes that take part in a synchronisation with the root. -/
structure Cluster where
  /-- Sockets of every node, one per other node. -/
  nSockets : ℕ
  /-- Threads of every node. -/
  nThreads : ℕ → ℕ
  /-- Every node runs at least one thread. -/
  nThreads_pos : ∀ node, 0 < nThreads node
  /-- Rows of the pipe that are in use. -/
  batchSize : ℕ
  /-- A forward has at least one row. -/
  batchSize_pos : 0 < batchSize
  /-- Bytes of a row. -/
  batchBytes : ℕ
  /-- First member of the tensor-parallel group of every node. -/
  tpGroupStart : ℕ → ℕ
  /-- First node after the tensor-parallel group of every node. -/
  tpGroupEnd : ℕ → ℕ
  /-- Whether the environment of the node sets `DLLAMA_KEEP_TP1_SYNCS` to 1. -/
  keepTp1Syncs : ℕ → Bool

/-- Sockets that a thread of the root serves. -/
def threadSockets (nSockets nThreads threadIndex : ℕ) : List ℕ :=
  let nSocketsPerThread :=
    nSockets / nThreads + if nSockets % nThreads > threadIndex then 1 else 0
  (List.range nSocketsPerThread).map fun i => threadIndex + i * nThreads

/-- The call that a thread makes for one row; the node index arrives as a byte. -/
def syncWithRoot (nSockets : ℕ) (nodeIndex : UInt8) (buffer nBytes nThreads threadIndex : ℕ) :
    Option IoCall :=
  if nodeIndex = 0 then
    let sockets := threadSockets nSockets nThreads threadIndex
    if sockets.length = 0 then none
    else some (.writeMany (sockets.map fun s => ⟨s, buffer, nBytes⟩))
  else if threadIndex ≠ 0 then none
  else some (.readMany [⟨0, buffer, nBytes⟩])

/-- A node whose tensor-parallel group has no other member leaves the synchronisation
out, unless its environment keeps it. -/
def Cluster.skips (c : Cluster) (node : ℕ) : Bool :=
  let declaredTpSize :=
    if c.tpGroupEnd node > c.tpGroupStart node then c.tpGroupEnd node - c.tpGroupStart node else 0
  !c.keepTp1Syncs node && decide (declaredTpSize ≤ 1)

/-- The call of a thread for a row of the batch. -/
def Cluster.rowCall (c : Cluster) (node threadIndex batchIndex : ℕ) : Option IoCall :=
  if c.skips node then none
  else syncWithRoot c.nSockets (UInt8.ofNat node) (batchIndex * c.batchBytes) c.batchBytes
    (c.nThreads node) threadIndex

/-- `NnNetworkNodeSynchronizer::sync` for one synchronisation with the root: the calls of a
thread, row after row. -/
def Cluster.sync (c : Cluster) (node threadIndex : ℕ) : List IoCall :=
  (List.range c.batchSize).filterMap (c.rowCall node threadIndex)

/-- All nodes at the beginning of the synchronisation, with the contents of their pipes. -/
def Cluster.start {α : Type*} (c : Cluster) (pipe : ℕ → ℕ → α) : World α where
  mem := pipe
  calls := fun x => if x.1 ≤ c.nSockets ∧ x.2 < c.nThreads x.1 then c.sync x.1 x.2 else []
  wire := fun _ => []

/-- Entries that the threads of a node send for a row. -/
def Cluster.rowWrites (c : Cluster) (node batchIndex : ℕ) : List IoEntry :=
  (List.range (c.nThreads node)).flatMap fun t =>
    match c.rowCall node t batchIndex with
    | some (.writeMany ios) => ios
    | _ => []

/-- Entries that the threads of a node receive for a row. -/
def Cluster.rowReads (c : Cluster) (node batchIndex : ℕ) : List IoEntry :=
  (List.range (c.nThreads node)).flatMap fun t =>
    match c.rowCall node t batchIndex with
    | some (.readMany ios) => ios
    | _ => []

/-- The entry that moves a whole row through a socket. -/
def Cluster.rowEntry (c : Cluster) (batchIndex socketIndex : ℕ) : IoEntry :=
  ⟨socketIndex, batchIndex * c.batchBytes, c.batchBytes⟩

/-- The synchronisation brings the root's rows to all nodes. -/
structure Broadcasts {α : Type*} (c : Cluster) (cap : ℕ) (pipe : ℕ → ℕ → α) : Prop where
  /-- The root's threads together send every row once on every socket. -/
  rootSends : ∀ b < c.batchSize,
    (c.rowWrites 0 b).Perm ((List.range c.nSockets).map (c.rowEntry b))
  /-- The root receives nothing. -/
  rootSilent : ∀ b < c.batchSize, c.rowReads 0 b = []
  /-- A worker receives every row once, from the root. -/
  workerReceives : ∀ worker, 0 < worker → worker ≤ c.nSockets → ∀ b < c.batchSize,
    c.rowReads worker b = [c.rowEntry b 0] ∧ connectedPeer worker 0 = 0
  /-- A worker is never a sender. -/
  workerSilent : ∀ worker, 0 < worker → worker ≤ c.nSockets → ∀ b < c.batchSize,
    c.rowWrites worker b = []
  /-- No run goes on for ever. -/
  bounded : ∃ n, ∀ k now, Steps (Step connectedPeer cap) k (c.start pipe) now → k ≤ n
  /-- A run that cannot go on has returned in all threads, has nothing in flight and has
  brought the rows to every node. -/
  delivered : ∀ now, ReflTransGen (Step connectedPeer cap) (c.start pipe) now →
    Terminal (Step connectedPeer cap) now →
    (∀ x, now.calls x = []) ∧ (∀ e, now.wire e = []) ∧
      ∀ node ≤ c.nSockets, ∀ a < c.batchSize * c.batchBytes, now.mem node a = pipe 0 a

section Partition

variable {nSockets nThreads threadIndex s : ℕ}

/-- The threads divide the sockets by the remainder of their number. -/
theorem mem_threadSockets (hthread : threadIndex < nThreads) :
    s ∈ threadSockets nSockets nThreads threadIndex ↔ s < nSockets ∧ s % nThreads = threadIndex := by
  have hdiv := Nat.div_add_mod nSockets nThreads
  have hmod := Nat.mod_lt nSockets (Nat.zero_lt_of_lt hthread)
  unfold threadSockets
  rw [List.mem_map]
  constructor
  · intro h
    obtain ⟨i, hi, hs⟩ := h
    have hi := List.mem_range.mp hi
    have hrem : s % nThreads = threadIndex := by
      rw [← hs, Nat.add_mul_mod_self_right, Nat.mod_eq_of_lt hthread]
    refine ⟨?_, hrem⟩
    rw [← hs]
    rcases Nat.lt_or_ge i (nSockets / nThreads) with hlt | hge
    · have hblock : (i + 1) * nThreads ≤ nThreads * (nSockets / nThreads) := by
        rw [Nat.mul_comm nThreads]
        exact Nat.mul_le_mul_right nThreads hlt
      rw [Nat.add_mul, Nat.one_mul] at hblock
      omega
    · have hlast : i = nSockets / nThreads ∧ threadIndex < nSockets % nThreads := by
        split at hi <;> omega
      rw [hlast.1, Nat.mul_comm]
      omega
  · intro h
    obtain ⟨hlt, hrem⟩ := h
    have hsplit := Nat.div_add_mod s nThreads
    refine ⟨s / nThreads, List.mem_range.mpr ?_, ?_⟩
    · have hle : s / nThreads ≤ nSockets / nThreads := Nat.div_le_div_right (Nat.le_of_lt hlt)
      rcases Nat.lt_or_eq_of_le hle with hless | hsame
      · omega
      · rw [hsame] at hsplit
        rw [if_pos (by omega)]
        omega
    · rw [Nat.mul_comm] at hsplit
      omega

theorem threadSockets_nodup (hthread : threadIndex < nThreads) :
    (threadSockets nSockets nThreads threadIndex).Nodup := by
  refine List.Nodup.map ?_ List.nodup_range
  intro i j hsame
  dsimp only at hsame
  exact Nat.eq_of_mul_eq_mul_right (Nat.zero_lt_of_lt hthread) (Nat.add_left_cancel hsame)

end Partition

section Calls

variable {c : Cluster}

/-- The root's index arrives as it is. -/
theorem rowCall_root (hruns : c.skips 0 = false) (t b : ℕ) :
    c.rowCall 0 t b =
      if (threadSockets c.nSockets (c.nThreads 0) t).length = 0 then none
      else some (.writeMany
        ((threadSockets c.nSockets (c.nThreads 0) t).map (c.rowEntry b))) := by
  unfold Cluster.rowCall syncWithRoot
  rw [hruns]
  exact Eq.refl _

/-- Which node indices arrive as the root's. -/
theorem ofNat_eq_zero_iff (node : ℕ) : UInt8.ofNat node = 0 ↔ node % 256 = 0 := by
  have hbyte : (UInt8.ofNat node).toNat = node % 256 := UInt8.toNat_ofNat'
  constructor
  · intro h
    rw [← hbyte, h]
    exact Eq.refl _
  · intro h
    refine UInt8.toNat_inj.mp ?_
    rw [hbyte, h]
    exact Eq.refl _

theorem ofNat_ne_zero {worker : ℕ} (hpos : 0 < worker) (hbyte : worker ≤ 255) :
    UInt8.ofNat worker ≠ 0 := by
  intro h
  have hmod := (ofNat_eq_zero_iff worker).mp h
  omega

theorem rowCall_worker {worker : ℕ} (hruns : c.skips worker = false) (hpos : 0 < worker)
    (hbyte : worker ≤ 255) (t b : ℕ) :
    c.rowCall worker t b = if t = 0 then some (.readMany [c.rowEntry b 0]) else none := by
  unfold Cluster.rowCall syncWithRoot
  rw [hruns, if_neg (by decide), if_neg (ofNat_ne_zero hpos hbyte)]
  by_cases ht : t = 0
  · rw [if_neg (not_not_intro ht), if_pos ht]
    exact Eq.refl _
  · rw [if_pos ht, if_neg ht]

/-- A worker whose index is a multiple of 256 makes the root's call. -/
theorem rowCall_wrapped {worker : ℕ} (hruns : c.skips worker = false) (hwrap : worker % 256 = 0)
    (t b : ℕ) :
    c.rowCall worker t b =
      if (threadSockets c.nSockets (c.nThreads worker) t).length = 0 then none
      else some (.writeMany
        ((threadSockets c.nSockets (c.nThreads worker) t).map (c.rowEntry b))) := by
  have hbyte : UInt8.ofNat worker = 0 := (ofNat_eq_zero_iff worker).mpr hwrap
  unfold Cluster.rowCall syncWithRoot
  rw [hruns, hbyte]
  exact Eq.refl _

/-- What the root's threads send for a row, thread after thread. -/
theorem rowWrites_root (hruns : c.skips 0 = false) (b : ℕ) :
    c.rowWrites 0 b = ((List.range (c.nThreads 0)).flatMap
      (threadSockets c.nSockets (c.nThreads 0))).map (c.rowEntry b) := by
  unfold Cluster.rowWrites
  rw [List.map_flatMap]
  refine List.flatMap_congr fun t _ => ?_
  rw [rowCall_root hruns]
  by_cases hnone : (threadSockets c.nSockets (c.nThreads 0) t).length = 0
  · rw [if_pos hnone, List.length_eq_zero_iff.mp hnone]
    exact Eq.refl _
  · rw [if_neg hnone]

theorem rowReads_root (hruns : c.skips 0 = false) (b : ℕ) : c.rowReads 0 b = [] := by
  unfold Cluster.rowReads
  rw [List.flatMap_eq_nil_iff]
  intro t _
  rw [rowCall_root hruns]
  split
  · rename_i hcall
    split at hcall
    · cases hcall
    · cases hcall
  · exact Eq.refl _

/-- Every socket belongs to one of the root's threads. -/
theorem flatMap_threadSockets (nSockets : ℕ) {nThreads : ℕ} (hpos : 0 < nThreads) :
    ((List.range nThreads).flatMap (threadSockets nSockets nThreads)).Perm (List.range nSockets) := by
  refine (List.perm_ext_iff_of_nodup ?_ List.nodup_range).mpr ?_
  · refine List.nodup_flatMap.mpr ⟨fun t ht => threadSockets_nodup (List.mem_range.mp ht), ?_⟩
    refine List.Nodup.pairwise_of_forall_ne List.nodup_range ?_
    intro t ht t' ht' hne s hs hs'
    have ht := (mem_threadSockets (List.mem_range.mp ht)).mp hs
    have ht' := (mem_threadSockets (List.mem_range.mp ht')).mp hs'
    exact hne (ht.2.symm.trans ht'.2)
  · intro s
    rw [List.mem_flatMap, List.mem_range]
    constructor
    · intro h
      obtain ⟨t, ht, hs⟩ := h
      exact ((mem_threadSockets (List.mem_range.mp ht)).mp hs).1
    · intro h
      have hrem := Nat.mod_lt s hpos
      exact ⟨s % nThreads, List.mem_range.mpr hrem,
        (mem_threadSockets hrem).mpr ⟨h, Eq.refl _⟩⟩

theorem rowReads_worker {worker : ℕ} (hruns : c.skips worker = false) (hpos : 0 < worker)
    (hbyte : worker ≤ 255) (b : ℕ) : c.rowReads worker b = [c.rowEntry b 0] := by
  have hthreads : List.range (c.nThreads worker) =
      0 :: (List.range (c.nThreads worker - 1)).map Nat.succ := by
    have hsucc : c.nThreads worker = c.nThreads worker - 1 + 1 := by
      have := c.nThreads_pos worker
      omega
    conv_lhs => rw [hsucc]
    exact List.range_succ_eq_map
  unfold Cluster.rowReads
  rw [hthreads, List.flatMap_cons, rowCall_worker hruns hpos hbyte, if_pos rfl]
  have hrest : ((List.range (c.nThreads worker - 1)).map Nat.succ).flatMap (fun t =>
      match c.rowCall worker t b with
      | some (.readMany ios) => ios
      | _ => []) = [] := by
    rw [List.flatMap_eq_nil_iff]
    intro t ht
    obtain ⟨i, _, hi⟩ := List.mem_map.mp ht
    have hne : t ≠ 0 := by omega
    rw [rowCall_worker hruns hpos hbyte, if_neg hne]
  rw [hrest]
  exact Eq.refl _

theorem rowWrites_worker {worker : ℕ} (hruns : c.skips worker = false) (hpos : 0 < worker)
    (hbyte : worker ≤ 255) (b : ℕ) : c.rowWrites worker b = [] := by
  unfold Cluster.rowWrites
  rw [List.flatMap_eq_nil_iff]
  intro t _
  rw [rowCall_worker hruns hpos hbyte]
  split
  · rename_i hcall
    split at hcall
    · cases hcall
    · cases hcall
  · exact Eq.refl _

/-- A worker whose index is a multiple of 256 sends. -/
theorem rowWrites_wrapped {worker : ℕ} (hruns : c.skips worker = false)
    (hwrap : worker % 256 = 0) (hsockets : 0 < c.nSockets) (b : ℕ) : c.rowWrites worker b ≠ [] := by
  have hpos := c.nThreads_pos worker
  have hmem : 0 ∈ threadSockets c.nSockets (c.nThreads worker) 0 :=
    (mem_threadSockets hpos).mpr ⟨hsockets, Nat.zero_mod _⟩
  have hsome : (threadSockets c.nSockets (c.nThreads worker) 0).length ≠ 0 :=
    Nat.ne_of_gt (List.length_pos_of_mem hmem)
  intro hnil
  unfold Cluster.rowWrites at hnil
  have hthread := List.flatMap_eq_nil_iff.mp hnil 0 (List.mem_range.mpr hpos)
  rw [rowCall_wrapped hruns hwrap, if_neg hsome] at hthread
  have hempty : (threadSockets c.nSockets (c.nThreads worker) 0).map (c.rowEntry b) = [] := hthread
  exact hsome (List.length_eq_zero_iff.mpr (List.map_eq_nil_iff.mp hempty))

end Calls

section Runs

variable {α : Type*}

/-- What holds at every point of a run in which only the root sends: how many cells of
the root's rows each socket of the root has carried and each worker has stored. -/
structure Progress (c : Cluster) (pipe : ℕ → ℕ → α) (now : World α) (sent recvd : ℕ → ℕ) :
    Prop where
  /-- The threads of the root are as far as their sockets. -/
  root : ∀ t < c.nThreads 0, InRows .writeMany (threadSockets c.nSockets (c.nThreads 0) t)
    c.batchBytes c.batchSize sent (now.calls (0, t))
  /-- The first thread of each worker is as far as the worker. -/
  worker : ∀ s < c.nSockets, InRows .readMany [0] c.batchBytes c.batchSize (fun _ => recvd s)
    (now.calls (s + 1, 0))
  /-- No other thread has a call. -/
  idle : ∀ p t, ¬(p = 0 ∧ t < c.nThreads 0) → ¬(0 < p ∧ p ≤ c.nSockets ∧ t = 0) →
    now.calls (p, t) = []
  /-- A worker has at most what was sent. -/
  ahead : ∀ s < c.nSockets, recvd s ≤ sent s
  /-- In flight is what was sent and not received. -/
  wire : ∀ s < c.nSockets,
    now.wire (0, s + 1) = (List.range' (recvd s) (sent s - recvd s)).map (pipe 0)
  /-- The other directions carry nothing. -/
  quiet : ∀ e, (∀ s < c.nSockets, e ≠ (0, s + 1)) → now.wire e = []
  /-- The root keeps its rows. -/
  memRoot : now.mem 0 = pipe 0
  /-- A worker has stored what it received. -/
  memWorker : ∀ s < c.nSockets, ∀ a,
    now.mem (s + 1) a = if a < recvd s then pipe 0 a else pipe (s + 1) a

variable {c : Cluster} {pipe : ℕ → ℕ → α} {now : World α} {sent recvd : ℕ → ℕ}

theorem writeMany_injective : Function.Injective IoCall.writeMany := by
  intro ios ios' h
  injection h

theorem readMany_injective : Function.Injective IoCall.readMany := by
  intro ios ios' h
  injection h

/-- A thread with a call in progress belongs to the root or is the first of a worker. -/
theorem Progress.actor (h : Progress c pipe now sent recvd) {p t : ℕ} {call : IoCall}
    {rest : List IoCall} (hcalls : now.calls (p, t) = call :: rest) :
    (p = 0 ∧ t < c.nThreads 0) ∨ ∃ s, s < c.nSockets ∧ p = s + 1 ∧ t = 0 := by
  by_cases hroot : p = 0 ∧ t < c.nThreads 0
  · exact .inl hroot
  · by_cases hworker : 0 < p ∧ p ≤ c.nSockets ∧ t = 0
    · exact .inr ⟨p - 1, by omega, by omega, hworker.2.2⟩
    · have hnone := h.idle p t hroot hworker
      rw [hcalls] at hnone
      cases hnone

/-- A sending thread belongs to the root. -/
theorem Progress.sender (h : Progress c pipe now sent recvd) {p t : ℕ} {ios : List IoEntry}
    {rest : List IoCall} (hcalls : now.calls (p, t) = .writeMany ios :: rest) :
    p = 0 ∧ t < c.nThreads 0 := by
  rcases h.actor hcalls with hroot | ⟨s, hs, hp, ht⟩
  · exact hroot
  · have hrows := h.worker s hs
    rw [← hp, ← ht, hcalls] at hrows
    obtain ⟨ios', hcall, _⟩ := hrows.next
    cases hcall

/-- A receiving thread is the first of a worker. -/
theorem Progress.receiver (h : Progress c pipe now sent recvd) {p t : ℕ} {ios : List IoEntry}
    {rest : List IoCall} (hcalls : now.calls (p, t) = .readMany ios :: rest) :
    ∃ s, s < c.nSockets ∧ p = s + 1 ∧ t = 0 := by
  rcases h.actor hcalls with ⟨hp, ht⟩ | hworker
  · have hrows := h.root t ht
    rw [← hp, hcalls] at hrows
    obtain ⟨ios', hcall, _⟩ := hrows.next
    cases hcall
  · exact hworker

/-- The root hands a cell to a link. -/
theorem Progress.send (h : Progress c pipe now sent recvd) {p t i : ℕ} {ios : List IoEntry}
    {io : IoEntry} {rest : List IoCall} (hcalls : now.calls (p, t) = .writeMany ios :: rest)
    (hio : ios[i]? = some io) (hpos : 0 < io.size) :
    Progress c pipe
      { mem := now.mem
        calls := Function.update now.calls (p, t) (.writeMany (advance ios i) :: rest)
        wire := Function.update now.wire (p, connectedPeer p io.socketIndex)
          (now.wire (p, connectedPeer p io.socketIndex) ++ [now.mem p io.data]) }
      (Function.update sent io.socketIndex (sent io.socketIndex + 1)) recvd := by
  obtain ⟨hp, ht⟩ := h.sender hcalls
  rw [hp] at hcalls ⊢
  obtain ⟨hmem, hdata, hbound, hrows⟩ := (h.root t ht).advance (threadSockets_nodup ht)
    writeMany_injective hcalls hio hpos
  have hsocket := (mem_threadSockets ht).mp hmem
  have hpeer : connectedPeer 0 io.socketIndex = io.socketIndex + 1 := Eq.refl _
  rw [hpeer]
  constructor
  · intro t' ht'
    by_cases hsame : t' = t
    · dsimp only
      rw [hsame, Function.update_self]
      exact hrows
    · have hne : ((0, t') : ℕ × ℕ) ≠ (0, t) := fun he => hsame (congrArg Prod.snd he)
      dsimp only
      rw [Function.update_of_ne hne]
      refine (h.root t' ht').congr fun s hs => Function.update_of_ne ?_ _ _
      intro he
      have hother := (mem_threadSockets ht').mp hs
      rw [he] at hother
      exact hsame (hother.2.symm.trans hsocket.2)
  · intro s hs
    have hne : ((s + 1, 0) : ℕ × ℕ) ≠ (0, t) := fun he => absurd (congrArg Prod.fst he) (by simp)
    dsimp only
    rw [Function.update_of_ne hne]
    exact h.worker s hs
  · intro p' t' hroot hworker
    have hne : ((p', t') : ℕ × ℕ) ≠ (0, t) := by
      intro he
      injection he with hp' ht'
      exact hroot ⟨hp', ht' ▸ ht⟩
    dsimp only
    rw [Function.update_of_ne hne]
    exact h.idle p' t' hroot hworker
  · intro s hs
    have hold := h.ahead s hs
    by_cases hsame : s = io.socketIndex
    · rw [hsame, Function.update_self, ← hsame]
      omega
    · rw [Function.update_of_ne hsame]
      exact hold
  · intro s hs
    by_cases hsame : s = io.socketIndex
    · have hahead := h.ahead s hs
      have hcount : sent s + 1 - recvd s = sent s - recvd s + 1 := by omega
      have hlast : recvd s + 1 * (sent s - recvd s) = sent s := by omega
      dsimp only
      rw [← hsame, Function.update_self, Function.update_self, h.wire s hs, hcount,
        List.range'_concat, List.map_append, hlast, hdata, h.memRoot, ← hsame]
      exact Eq.refl _
    · have hne : ((0, s + 1) : ℕ × ℕ) ≠ (0, io.socketIndex + 1) := by
        intro he
        injection he with _ hsucc
        exact hsame (Nat.succ.inj hsucc)
      dsimp only
      rw [Function.update_of_ne hne, Function.update_of_ne hsame]
      exact h.wire s hs
  · intro e he
    dsimp only
    rw [Function.update_of_ne (he io.socketIndex hsocket.1)]
    exact h.quiet e he
  · exact h.memRoot
  · exact h.memWorker

/-- A worker stores a cell. -/
theorem Progress.recv (h : Progress c pipe now sent recvd) {p t i : ℕ} {ios : List IoEntry}
    {io : IoEntry} {rest : List IoCall} {a : α} {as : List α}
    (hcalls : now.calls (p, t) = .readMany ios :: rest) (hio : ios[i]? = some io)
    (hpos : 0 < io.size) (hwire : now.wire (connectedPeer p io.socketIndex, p) = a :: as) :
    Progress c pipe
      { mem := Function.update now.mem p (Function.update (now.mem p) io.data a)
        calls := Function.update now.calls (p, t) (.readMany (advance ios i) :: rest)
        wire := Function.update now.wire (connectedPeer p io.socketIndex, p) as }
      sent (Function.update recvd (p - 1) (recvd (p - 1) + 1)) := by
  obtain ⟨s, hs, hp, ht⟩ := h.receiver hcalls
  rw [hp, ht] at hcalls
  obtain ⟨hmem, hdata, hbound, hrows⟩ := (h.worker s hs).advance (List.nodup_singleton 0)
    readMany_injective hcalls hio hpos
  have hsocket : io.socketIndex = 0 := List.mem_singleton.mp hmem
  have hpeer : connectedPeer (s + 1) io.socketIndex = 0 := by
    rw [hsocket]
    exact Eq.refl _
  rw [hp, hpeer] at hwire
  rw [hp, ht, hpeer, Nat.add_sub_cancel]
  have hflight := h.wire s hs
  rw [hwire] at hflight
  -- something is in flight, so the worker is behind the root
  have hbehind : sent s - recvd s = (sent s - recvd s - 1) + 1 := by
    rcases Nat.eq_zero_or_pos (sent s - recvd s) with hzero | hsome
    · rw [hzero] at hflight
      cases hflight
    · omega
  rw [hbehind, List.range'_succ, List.map_cons] at hflight
  injection hflight with ha has
  constructor
  · intro t' ht'
    have hne : ((0, t') : ℕ × ℕ) ≠ (s + 1, 0) := fun he => absurd (congrArg Prod.fst he) (by simp)
    dsimp only
    rw [Function.update_of_ne hne]
    exact h.root t' ht'
  · intro s' hs'
    by_cases hsame : s' = s
    · dsimp only
      rw [hsame, Function.update_self, Function.update_self]
      refine hrows.congr fun x hx => ?_
      rw [List.mem_singleton.mp hx, hsocket, Function.update_self]
    · have hne : ((s' + 1, 0) : ℕ × ℕ) ≠ (s + 1, 0) := by
        intro he
        injection he with hsucc
        exact hsame (Nat.succ.inj hsucc)
      dsimp only
      rw [Function.update_of_ne hne, Function.update_of_ne hsame]
      exact h.worker s' hs'
  · intro p' t' hroot hworker
    have hne : ((p', t') : ℕ × ℕ) ≠ (s + 1, 0) := by
      intro he
      injection he with hp' ht'
      exact hworker ⟨by omega, by omega, ht'⟩
    dsimp only
    rw [Function.update_of_ne hne]
    exact h.idle p' t' hroot hworker
  · intro s' hs'
    have hold := h.ahead s' hs'
    by_cases hsame : s' = s
    · rw [hsame, Function.update_self]
      omega
    · rw [Function.update_of_ne hsame]
      exact hold
  · intro s' hs'
    by_cases hsame : s' = s
    · have hcount : sent s - (recvd s + 1) = sent s - recvd s - 1 := by omega
      dsimp only
      rw [hsame, Function.update_self, Function.update_self, has, hcount]
    · have hne : ((0, s' + 1) : ℕ × ℕ) ≠ (0, s + 1) := by
        intro he
        injection he with _ hsucc
        exact hsame (Nat.succ.inj hsucc)
      dsimp only
      rw [Function.update_of_ne hne, Function.update_of_ne hsame]
      exact h.wire s' hs'
  · intro e he
    dsimp only
    rw [Function.update_of_ne (he s hs)]
    exact h.quiet e he
  · dsimp only
    rw [Function.update_of_ne (Nat.succ_ne_zero s).symm]
    exact h.memRoot
  · intro s' hs' x
    by_cases hsame : s' = s
    · dsimp only
      rw [hsame, Function.update_self, Function.update_self, hdata, ha]
      by_cases hx : x = recvd s
      · rw [hx, Function.update_self, if_pos (Nat.lt_succ_self _)]
      · rw [Function.update_of_ne hx, h.memWorker s hs]
        exact if_congr (by omega) rfl rfl
    · have hne : s' + 1 ≠ s + 1 := fun he => hsame (Nat.succ.inj he)
      dsimp only
      rw [Function.update_of_ne hne, Function.update_of_ne hsame]
      exact h.memWorker s' hs' x

/-- A thread returns from a call. -/
theorem Progress.finish (h : Progress c pipe now sent recvd) {p t : ℕ} {call : IoCall}
    {rest : List IoCall} (hcalls : now.calls (p, t) = call :: rest)
    (hzero : ∀ io ∈ call.ios, io.size = 0) :
    Progress c pipe { now with calls := Function.update now.calls (p, t) rest } sent recvd := by
  refine ⟨?_, ?_, ?_, h.ahead, h.wire, h.quiet, h.memRoot, h.memWorker⟩
  · intro t' ht'
    dsimp only
    by_cases hsame : ((0, t') : ℕ × ℕ) = (p, t)
    · rw [hsame, Function.update_self]
      have hrows := h.root t' ht'
      rw [hsame] at hrows
      exact hrows.finish (fun _ => Eq.refl _) hcalls hzero
    · rw [Function.update_of_ne hsame]
      exact h.root t' ht'
  · intro s hs
    dsimp only
    by_cases hsame : ((s + 1, 0) : ℕ × ℕ) = (p, t)
    · rw [hsame, Function.update_self]
      have hrows := h.worker s hs
      rw [hsame] at hrows
      exact hrows.finish (fun _ => Eq.refl _) hcalls hzero
    · rw [Function.update_of_ne hsame]
      exact h.worker s hs
  · intro p' t' hroot hworker
    have hnone := h.idle p' t' hroot hworker
    have hne : ((p', t') : ℕ × ℕ) ≠ (p, t) := by
      intro he
      rw [he, hcalls] at hnone
      cases hnone
    dsimp only
    rw [Function.update_of_ne hne]
    exact hnone

/-- Every step keeps what holds of a run. -/
theorem Progress.step {cap : ℕ} (h : Progress c pipe now sent recvd) {next : World α}
    (hstep : Step connectedPeer cap now next) :
    ∃ sent' recvd', Progress c pipe next sent' recvd' := by
  cases hstep with
  | send hcalls hio hpos hroom => exact ⟨_, _, h.send hcalls hio hpos⟩
  | recv hcalls hio hpos hwire => exact ⟨_, _, h.recv hcalls hio hpos hwire⟩
  | finish hcalls hzero => exact ⟨_, _, h.finish hcalls hzero⟩

/-- A worker that is behind the root can go on. -/
theorem Progress.recv_enabled {cap : ℕ} (h : Progress c pipe now sent recvd) {s : ℕ}
    (hs : s < c.nSockets) (hbehind : recvd s < sent s) :
    ∃ next, Step connectedPeer cap now next := by
  have hthread := Nat.mod_lt s (c.nThreads_pos 0)
  have hsent := (h.root _ hthread).cursor_le ((mem_threadSockets hthread).mpr ⟨hs, Eq.refl _⟩)
  have hrows := h.worker s hs
  cases hcalls : now.calls (s + 1, 0) with
  | nil =>
    rw [hcalls] at hrows
    have hall := hrows.of_nil (List.mem_singleton_self 0)
    omega
  | cons call rest =>
    rw [hcalls] at hrows
    obtain ⟨ios, hcall, hzero | ⟨i, io, hio, hpos, hmem⟩⟩ := hrows.next
    · rw [hcall] at hcalls
      exact ⟨_, .finish hcalls hzero⟩
    · rw [hcall] at hcalls
      have hpeer : connectedPeer (s + 1) io.socketIndex = 0 := by
        rw [List.mem_singleton.mp hmem]
        exact Eq.refl _
      have hflight := h.wire s hs
      rw [show sent s - recvd s = (sent s - recvd s - 1) + 1 by omega, List.range'_succ,
        List.map_cons] at hflight
      exact ⟨_, .recv hcalls hio hpos (by rw [hpeer]; exact hflight)⟩

/-- A thread of the root with calls left is not stuck. -/
theorem Progress.root_enabled {cap : ℕ} (hc : 0 < cap) (h : Progress c pipe now sent recvd)
    {t : ℕ} (ht : t < c.nThreads 0) {call : IoCall} {rest : List IoCall}
    (hcalls : now.calls (0, t) = call :: rest) : ∃ next, Step connectedPeer cap now next := by
  have hrows := h.root t ht
  rw [hcalls] at hrows
  obtain ⟨ios, hcall, hzero | ⟨i, io, hio, hpos, hmem⟩⟩ := hrows.next
  · rw [hcall] at hcalls
    exact ⟨_, .finish hcalls hzero⟩
  · rw [hcall] at hcalls
    have hsocket := ((mem_threadSockets ht).mp hmem).1
    by_cases hroom : (now.wire (0, connectedPeer 0 io.socketIndex)).length < cap
    · exact ⟨_, .send hcalls hio hpos hroom⟩
    · -- the link is full, so its worker is behind
      have hflight := h.wire io.socketIndex hsocket
      have hpeer : connectedPeer 0 io.socketIndex = io.socketIndex + 1 := Eq.refl _
      rw [hpeer, hflight, List.length_map, List.length_range'] at hroom
      exact h.recv_enabled hsocket (by omega)

/-- A run that cannot go on is complete. -/
theorem Progress.terminal {cap : ℕ} (hc : 0 < cap) (h : Progress c pipe now sent recvd)
    (hterminal : Terminal (Step connectedPeer cap) now) :
    (∀ x, now.calls x = []) ∧ (∀ e, now.wire e = []) ∧
      ∀ node ≤ c.nSockets, ∀ a < c.batchSize * c.batchBytes, now.mem node a = pipe 0 a := by
  have hroot : ∀ t < c.nThreads 0, now.calls (0, t) = [] := by
    intro t ht
    cases hcalls : now.calls (0, t) with
    | nil => exact Eq.refl _
    | cons call rest =>
      obtain ⟨next, hnext⟩ := h.root_enabled hc ht hcalls
      exact absurd hnext (hterminal next)
  have hsent : ∀ s < c.nSockets, sent s = c.batchSize * c.batchBytes := by
    intro s hs
    have hthread := Nat.mod_lt s (c.nThreads_pos 0)
    have hrows := h.root _ hthread
    rw [hroot _ hthread] at hrows
    exact hrows.of_nil ((mem_threadSockets hthread).mpr ⟨hs, Eq.refl _⟩)
  have hrecvd : ∀ s < c.nSockets, recvd s = c.batchSize * c.batchBytes := by
    intro s hs
    have hahead := h.ahead s hs
    rcases Nat.lt_or_ge (recvd s) (sent s) with hbehind | hlevel
    · have henabled : ∃ next, Step connectedPeer cap now next := h.recv_enabled hs hbehind
      obtain ⟨next, hnext⟩ := henabled
      exact absurd hnext (hterminal next)
    · rw [← hsent s hs]
      omega
  have hworker : ∀ s < c.nSockets, now.calls (s + 1, 0) = [] := by
    intro s hs
    have hrows := h.worker s hs
    cases hcalls : now.calls (s + 1, 0) with
    | nil => exact Eq.refl _
    | cons call rest =>
      rw [hcalls] at hrows
      obtain ⟨ios, hcall, hzero | ⟨i, io, hio, hpos, hmem⟩⟩ := hrows.next
      · rw [hcall] at hcalls
        exact absurd (Step.finish hcalls hzero) (hterminal _)
      · rw [hcall] at hrows
        have hbound := (hrows.advance (List.nodup_singleton 0) readMany_injective
          (Eq.refl _) hio hpos).2.2.1
        rw [hrecvd s hs] at hbound
        exact absurd hbound (Nat.lt_irrefl _)
  refine ⟨?_, ?_, ?_⟩
  · intro x
    by_cases hxroot : x.1 = 0 ∧ x.2 < c.nThreads 0
    · have hx : x = (0, x.2) := Prod.ext hxroot.1 (Eq.refl _)
      rw [hx]
      exact hroot x.2 hxroot.2
    · by_cases hxworker : 0 < x.1 ∧ x.1 ≤ c.nSockets ∧ x.2 = 0
      · have hx : x = (x.1 - 1 + 1, 0) := Prod.ext (Nat.sub_add_cancel hxworker.1).symm hxworker.2.2
        rw [hx]
        exact hworker (x.1 - 1) (by omega)
      · exact h.idle x.1 x.2 hxroot hxworker
  · intro e
    by_cases he : ∃ s < c.nSockets, e = (0, s + 1)
    · obtain ⟨s, hs, he⟩ := he
      rw [he, h.wire s hs, hsent s hs, hrecvd s hs, Nat.sub_self]
      exact Eq.refl _
    · exact h.quiet e fun s hs hes => he ⟨s, hs, hes⟩
  · intro node hnode a ha
    rcases Nat.eq_zero_or_pos node with hzero | hpos
    · rw [hzero, h.memRoot]
    · have hs : node - 1 < c.nSockets := by omega
      have hnumber : node = node - 1 + 1 := (Nat.sub_add_cancel hpos).symm
      rw [hnumber, h.memWorker _ hs, hrecvd _ hs, if_pos ha]

/-- The calls of a thread of the root at the beginning. -/
theorem sync_root (hruns : c.skips 0 = false) (t : ℕ) :
    InRows .writeMany (threadSockets c.nSockets (c.nThreads 0) t) c.batchBytes c.batchSize
      (fun _ => 0) (c.sync 0 t) := by
  have hcall := funext (rowCall_root hruns t)
  unfold Cluster.sync
  rw [hcall]
  by_cases hnone : (threadSockets c.nSockets (c.nThreads 0) t).length = 0
  · have hcalls : (List.range c.batchSize).filterMap (fun b =>
        if (threadSockets c.nSockets (c.nThreads 0) t).length = 0 then none
        else some (IoCall.writeMany
          ((threadSockets c.nSockets (c.nThreads 0) t).map (c.rowEntry b)))) = [] := by
      refine List.filterMap_eq_nil_iff.mpr fun b _ => ?_
      rw [if_pos hnone]
    rw [hcalls, List.length_eq_zero_iff.mp hnone]
    exact .ended fun s hs => absurd hs List.not_mem_nil
  · simp only [hnone, if_false]
    rw [List.filterMap_eq_map']
    exact InRows.start _ _ _ _

/-- The calls of the first thread of a worker at the beginning. -/
theorem sync_worker {s : ℕ} (hruns : c.skips (s + 1) = false) (hbyte : s + 1 ≤ 255) :
    InRows .readMany [0] c.batchBytes c.batchSize (fun _ => 0) (c.sync (s + 1) 0) := by
  have hcall := funext (rowCall_worker hruns (Nat.succ_pos s) hbyte 0)
  unfold Cluster.sync
  rw [hcall]
  simp only [if_true]
  rw [List.filterMap_eq_map']
  exact InRows.start _ _ _ _

/-- The other threads of a worker do nothing. -/
theorem sync_idle {worker t : ℕ} (hruns : c.skips worker = false) (hpos : 0 < worker)
    (hbyte : worker ≤ 255) (ht : t ≠ 0) : c.sync worker t = [] := by
  unfold Cluster.sync
  refine List.filterMap_eq_nil_iff.mpr fun b _ => ?_
  rw [rowCall_worker hruns hpos hbyte, if_neg ht]

/-- What holds of a run holds at its start. -/
theorem Progress.start (hruns : ∀ node ≤ c.nSockets, c.skips node = false)
    (hbyte : c.nSockets ≤ 255) (pipe : ℕ → ℕ → α) :
    Progress c pipe (c.start pipe) (fun _ => 0) (fun _ => 0) := by
  refine ⟨?_, ?_, ?_, ?_, ?_, ?_, Eq.refl _, ?_⟩
  · intro t ht
    have hcalls : (c.start pipe).calls (0, t) = c.sync 0 t := if_pos ⟨Nat.zero_le _, ht⟩
    rw [hcalls]
    exact sync_root (hruns 0 (Nat.zero_le _)) t
  · intro s hs
    have hcalls : (c.start pipe).calls (s + 1, 0) = c.sync (s + 1) 0 :=
      if_pos ⟨hs, c.nThreads_pos (s + 1)⟩
    rw [hcalls]
    exact sync_worker (hruns _ hs) (by omega)
  · intro p t hroot hworker
    by_cases hthread : p ≤ c.nSockets ∧ t < c.nThreads p
    · have hcalls : (c.start pipe).calls (p, t) = c.sync p t := if_pos hthread
      have hpos : 0 < p := by
        rcases Nat.eq_zero_or_pos p with hzero | hpos
        · exact absurd ⟨hzero, hzero ▸ hthread.2⟩ hroot
        · exact hpos
      rw [hcalls]
      exact sync_idle (hruns p hthread.1) hpos (by omega) fun ht => hworker ⟨hpos, hthread.1, ht⟩
    · exact if_neg hthread
  · intro s _
    exact Nat.le_refl _
  · intro s _
    exact Eq.refl _
  · intro e _
    exact Eq.refl _
  · intro s _ a
    rw [if_neg (Nat.not_lt_zero a)]
    exact Eq.refl _

/-- What holds of a run holds in every state that it reaches. -/
theorem Progress.reachable {cap : ℕ} (hruns : ∀ node ≤ c.nSockets, c.skips node = false)
    (hbyte : c.nSockets ≤ 255) (pipe : ℕ → ℕ → α)
    (h : ReflTransGen (Step connectedPeer cap) (c.start pipe) now) :
    ∃ sent recvd, Progress c pipe now sent recvd := by
  induction h with
  | refl => exact ⟨_, _, Progress.start hruns hbyte pipe⟩
  | tail _ hstep ih =>
    obtain ⟨sent, recvd, hnow⟩ := ih
    exact hnow.step hstep

/-- The threads that have calls. -/
def Cluster.threads (c : Cluster) : Finset (ℕ × ℕ) :=
  (Finset.range (c.nSockets + 1)).biUnion fun node =>
    (Finset.range (c.nThreads node)).image fun t => (node, t)

theorem Progress.outside (h : Progress c pipe now sent recvd) (x : ℕ × ℕ)
    (hx : x ∉ c.threads) : now.calls x = [] := by
  have hnot : ∀ node t, node ≤ c.nSockets → t < c.nThreads node → x ≠ (node, t) := by
    intro node t hnode ht he
    refine hx (Finset.mem_biUnion.mpr ⟨node, Finset.mem_range.mpr (by omega), ?_⟩)
    exact Finset.mem_image.mpr ⟨t, Finset.mem_range.mpr ht, he.symm⟩
  refine h.idle x.1 x.2 ?_ ?_
  · intro hroot
    exact hnot 0 x.2 (Nat.zero_le _) hroot.2 (Prod.ext hroot.1 (Eq.refl _))
  · intro hworker
    exact hnot x.1 0 hworker.2.1 (c.nThreads_pos x.1) (Prod.ext (Eq.refl _) hworker.2.2)

end Runs

/-- When every node takes part, the synchronisation brings the root's rows to all nodes, in
every order of the transfers of all threads, exactly if no worker's index is beyond a byte:
there are at most 255 workers. -/
theorem syncWithRoot_broadcasts_iff {α : Type*} (c : Cluster) {cap : ℕ} (hc : 0 < cap)
    (hruns : ∀ node ≤ c.nSockets, c.skips node = false) (pipe : ℕ → ℕ → α) :
    Broadcasts c cap pipe ↔ c.nSockets ≤ 255 := by
  constructor
  · intro h
    by_contra hmany
    have hsilent := h.workerSilent 256 (by decide) (by omega) 0 c.batchSize_pos
    exact rowWrites_wrapped (hruns 256 (by omega)) (by decide) (by omega) 0 hsilent
  · intro hbyte
    have hroot := hruns 0 (Nat.zero_le _)
    refine ⟨?_, ?_, ?_, ?_, ?_, ?_⟩
    · intro b _
      rw [rowWrites_root hroot]
      exact (flatMap_threadSockets c.nSockets (c.nThreads_pos 0)).map _
    · intro b _
      exact rowReads_root hroot b
    · intro worker hpos hle b _
      exact ⟨rowReads_worker (hruns worker hle) hpos (by omega) b, by
        rw [connectedPeer, if_neg (Nat.ne_of_gt hpos), if_pos rfl]⟩
    · intro worker hpos hle b _
      exact rowWrites_worker (hruns worker hle) hpos (by omega) b
    · refine ⟨totalWork c.threads (c.start pipe), fun k now hrun => ?_⟩
      have hbound : k + totalWork c.threads now ≤ totalWork c.threads (c.start pipe) :=
        steps_le (fun w => ∃ sent recvd, Progress c pipe w sent recvd)
          (fun a b ha hab => by
            obtain ⟨sent, recvd, hnow⟩ := ha
            exact hnow.step hab)
          (fun a ha x hx => by
            obtain ⟨sent, recvd, hnow⟩ := ha
            exact hnow.outside x hx)
          hrun ⟨_, _, Progress.start hruns hbyte pipe⟩
      omega
    · intro now hnow hterminal
      obtain ⟨sent, recvd, hprogress⟩ := Progress.reachable hruns hbyte pipe hnow
      exact hprogress.terminal hc hterminal

/-- A cluster of equal nodes with one tensor-parallel group. -/
def Cluster.uniform (nSockets nThreads batchSize batchBytes : ℕ) (hthreads : 0 < nThreads)
    (hbatch : 0 < batchSize) : Cluster :=
  ⟨nSockets, fun _ => nThreads, fun _ => hthreads, batchSize, hbatch, batchBytes, fun _ => 0,
    fun _ => nSockets + 1, fun _ => false⟩

/-- Three nodes with two threads each and links of one byte. -/
theorem syncWithRoot_broadcasts_three :
    Broadcasts (Cluster.uniform 2 2 3 5 (by decide) (by decide)) 1 (fun node a => 10 * node + a) :=
  (syncWithRoot_broadcasts_iff (Cluster.uniform 2 2 3 5 (by decide) (by decide)) (by decide)
    (fun node _ => Eq.refl _) fun node a => 10 * node + a).mpr (by decide)

/-- Of 257 nodes the last takes itself for the root. -/
theorem last_of_257_sends : ¬Broadcasts (Cluster.uniform 256 1 1 1 (by decide) (by decide)) 1
    (fun node a => 10 * node + a) := by
  intro h
  have hsilent := h.workerSilent 256 (by decide) (by decide) 0 (by decide)
  exact rowWrites_wrapped (Eq.refl _) (by decide) (by decide) 0 hsilent

end LayerSkip.RootBroadcast
