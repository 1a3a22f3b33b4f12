import LayerSkip.NnNetwork

/-!
# Star all-reduce is correct under every schedule

A group of consecutive ranks runs the star collective on links of any positive
capacity. No order of the single sends and receives gets a member stuck, all of
them end with the root's buffer plus the other buffers in rank order, and
nothing outside the buffer and the group changes.
-/

namespace LayerSkip.StarAllReduce

open RandomDescent StreamNetwork NodeMemory NnNetwork Relation

variable {α : Type*} [Add α]

/-- Ranks of the group other than its first. -/
def workerRanks (tpGroupStart tpGroupEnd : ℕ) : List ℕ :=
  (List.range (tpGroupEnd - tpGroupStart - 1)).map fun w => tpGroupStart + 1 + w

theorem mem_workerRanks {tpGroupStart tpGroupEnd p : ℕ} :
    p ∈ workerRanks tpGroupStart tpGroupEnd ↔ tpGroupStart < p ∧ p < tpGroupEnd := by
  simp only [workerRanks, List.mem_map, List.mem_range]
  constructor
  · rintro ⟨w, hw, rfl⟩
    omega
  · intro h
    exact ⟨p - tpGroupStart - 1, by omega, by omega⟩

/-- The first member's buffer plus the others, added in rank order. -/
def rankOrderSum (tpGroupStart tpGroupEnd : ℕ) (bufferOf : ℕ → List α) : List α :=
  (workerRanks tpGroupStart tpGroupEnd).foldl
    (fun acc p => List.zipWith (· + ·) acc (bufferOf p)) (bufferOf tpGroupStart)

/-- Adding buffers of one length to each other keeps that length. -/
theorem foldl_sum_length {len : ℕ} (bufferOf : ℕ → List α) (h : ∀ p, (bufferOf p).length = len)
    (peers : List ℕ) (acc : List α) (hacc : acc.length = len) :
    (peers.foldl (fun acc p => List.zipWith (· + ·) acc (bufferOf p)) acc).length = len := by
  induction peers generalizing acc with
  | nil => simpa using hacc
  | cons p peers ih =>
    refine ih (List.zipWith (· + ·) acc (bufferOf p)) ?_
    rw [List.length_zipWith, hacc, h p, Nat.min_self]

/-- Reducing several inputs into a region one after the other writes their sum. -/
theorem foldl_reduceInto {len : ℕ} (mem : ℕ → α) (buffer : ℕ) (bufferOf : ℕ → List α)
    (h : ∀ p, (bufferOf p).length = len) (peers : List ℕ) (acc : List α) (hacc : acc.length = len) :
    peers.foldl (fun mem p => reduceInto mem buffer (bufferOf p) (sizeofFloat * len))
        (writeCells mem buffer acc) =
      writeCells mem buffer
        (peers.foldl (fun acc p => List.zipWith (· + ·) acc (bufferOf p)) acc) := by
  have hlen : sizeofFloat * len / sizeofFloat = len := Nat.mul_div_cancel_left len (by decide)
  induction peers generalizing acc with
  | nil => rfl
  | cons p peers ih =>
    have hread : readCells (writeCells mem buffer acc) buffer len = acc := by
      rw [← hacc, readCells_writeCells]
    have hsum : (List.zipWith (· + ·) acc (bufferOf p)).length = len := by
      rw [List.length_zipWith, hacc, h p, Nat.min_self]
    have hone : reduceInto (writeCells mem buffer acc) buffer (bufferOf p) (sizeofFloat * len) =
        writeCells mem buffer (List.zipWith (· + ·) acc (bufferOf p)) := by
      rw [reduceInto, hlen, hread, reduceSum_eq (by rw [hlen, h p]) (by rw [hlen, hacc]),
        writeCells_writeCells _ _ (by rw [hsum, hacc])]
    rw [List.foldl_cons, hone]
    exact ih _ hsum

section Schedule

variable (cap tpGroupStart tpGroupEnd buffer len : ℕ) (mem : ℕ → ℕ → α)

/-- Buffer of a node before the collective. -/
def bufferOf (node : ℕ) : List α := readCells (mem node) buffer len

/-- What every member's buffer holds afterwards. -/
def total : List α := rankOrderSum tpGroupStart tpGroupEnd (bufferOf buffer len mem)

/-- The program of each member in full mode. -/
def program (node : ℕ) : Program α :=
  syncNodeSlicesStarAllReduce false node tpGroupStart tpGroupEnd buffer (sizeofFloat * len) 0

/-- The receive of the root: all workers' buffers, then the reduction. -/
def gather : Block ℕ (ℕ → α) α :=
  .read (fun _ peer => if tpGroupStart < peer ∧ peer < tpGroupEnd then len else 0)
    fun mem got => (workerRanks tpGroupStart tpGroupEnd).foldl
      (fun mem p => reduceInto mem buffer (got p) (sizeofFloat * len)) mem

/-- The send of the root: its buffer to every worker. -/
def broadcast : Block ℕ (ℕ → α) α :=
  .write fun mem peer =>
    if tpGroupStart < peer ∧ peer < tpGroupEnd then readCells mem buffer len else []

/-- The send of a worker: its buffer to the root. -/
def send : Block ℕ (ℕ → α) α :=
  sendTo tpGroupStart fun mem => readCells mem buffer len

/-- The receive of a worker: the sum into its buffer. -/
def recv : Block ℕ (ℕ → α) α :=
  recvFrom tpGroupStart len fun mem got => writeCells mem buffer got

variable {cap tpGroupStart tpGroupEnd len}

theorem program_root (h : tpGroupStart + 1 < tpGroupEnd) :
    program tpGroupStart tpGroupEnd buffer len tpGroupStart =
      ([gather tpGroupStart tpGroupEnd buffer len, broadcast tpGroupStart tpGroupEnd buffer len] :
        Program α) := by
  have hlen : sizeofFloat * len / sizeofFloat = len := Nat.mul_div_cancel_left len (by decide)
  have hcond : ¬((0 : ℕ) ≠ 0 ∨ tpGroupEnd - tpGroupStart ≤ 1) := by omega
  have hnot : tpGroupStart ∉ workerRanks tpGroupStart tpGroupEnd := by
    rw [mem_workerRanks]
    omega
  have hios : ((List.range (tpGroupEnd - tpGroupStart - 1)).map fun w =>
      (⟨getSocketIndexForNode tpGroupStart (tpGroupStart + 1 + w), len⟩ : NnSocketIo)) =
      (workerRanks tpGroupStart tpGroupEnd).map fun p =>
        ⟨getSocketIndexForNode tpGroupStart p, len⟩ := by
    rw [workerRanks, List.map_map]
    rfl
  have hfold (got : ℕ → List α) (mem : ℕ → α) (peers : List ℕ) (hp : tpGroupStart ∉ peers) :
      (peers.map fun p => (⟨getSocketIndexForNode tpGroupStart p, len⟩ : NnSocketIo)).foldl
        (fun mem io => reduceInto mem buffer (got (connectedPeer tpGroupStart io.socketIndex))
          (sizeofFloat * len)) mem =
      peers.foldl (fun mem p => reduceInto mem buffer (got p) (sizeofFloat * len)) mem := by
    induction peers generalizing mem with
    | nil => rfl
    | cons p peers ih =>
      have hne : p ≠ tpGroupStart := fun he => hp (by rw [he]; exact List.mem_cons_self)
      rw [List.map_cons, List.foldl_cons, List.foldl_cons, connectedPeer_getSocketIndexForNode hne]
      exact ih _ fun hm => hp (List.mem_cons_of_mem _ hm)
  unfold program syncNodeSlicesStarAllReduce
  simp only [hcond, if_false, if_true, hlen, hios, readMany, writeMany, Bool.false_eq_true,
    ioSize_of_peers hnot, mem_workerRanks, gather, broadcast]
  congr 2
  · funext mem got
    exact hfold got mem _ hnot
  · congr 2
    funext mem peer
    split
    · exact List.take_of_length_le (Nat.le_of_eq (readCells_length _ _ _))
    · exact List.take_zero

theorem program_worker {node : ℕ} (h : tpGroupStart < node ∧ node < tpGroupEnd) :
    program tpGroupStart tpGroupEnd buffer len node =
      ([send tpGroupStart buffer len, recv tpGroupStart buffer len] : Program α) := by
  have hlen : sizeofFloat * len / sizeofFloat = len := Nat.mul_div_cancel_left len (by decide)
  have hcond : ¬((0 : ℕ) ≠ 0 ∨ tpGroupEnd - tpGroupStart ≤ 1) := by omega
  have hne : ¬node = tpGroupStart := by omega
  have hroot : tpGroupStart ≠ node := by omega
  have hsend := writeMany_single (α := α) hroot fun mem => readCells_length mem buffer len
  have hrecv := readMany_single (α := α) hroot len fun mem got => writeCells mem buffer got
  unfold program syncNodeSlicesStarAllReduce
  simp only [hcond, if_false, hne, hlen, Bool.false_eq_true, hsend, hrecv]
  rfl

variable (tpGroupStart tpGroupEnd len) (cap)

/-- The root's computation at the end of its receive. -/
def gatherUse (mem : ℕ → α) (got : ℕ → List α) : ℕ → α :=
  (workerRanks tpGroupStart tpGroupEnd).foldl
    (fun mem p => reduceInto mem buffer (got p) (sizeofFloat * len)) mem

/-- The root has everything from the first `k` workers. -/
def gatherNet (k : ℕ) : Net ℕ (ℕ → α) α where
  party node :=
    if node = tpGroupStart then
      ⟨mem node, .reading
        (fun q => if tpGroupStart + k < q ∧ q < tpGroupEnd then len else 0)
        (fun q => if tpGroupStart < q ∧ q ≤ tpGroupStart + k then bufferOf buffer len mem q else [])
        (gatherUse tpGroupStart tpGroupEnd buffer len),
        [broadcast tpGroupStart tpGroupEnd buffer len]⟩
    else if tpGroupStart < node ∧ node < tpGroupEnd then
      ⟨mem node, .idle, if node ≤ tpGroupStart + k then [recv tpGroupStart buffer len]
        else [send tpGroupStart buffer len, recv tpGroupStart buffer len]⟩
    else ⟨mem node, .idle, []⟩
  link _ := []

/-- The root has sent the sum to the first `k` workers. -/
def scatterNet (k : ℕ) : Net ℕ (ℕ → α) α where
  party node :=
    let sum := total tpGroupStart tpGroupEnd buffer len mem
    if node = tpGroupStart then
      ⟨writeCells (mem node) buffer sum, .writing
        (fun q => if tpGroupStart + k < q ∧ q < tpGroupEnd then sum else []), []⟩
    else if tpGroupStart < node ∧ node < tpGroupEnd then
      if node ≤ tpGroupStart + k then ⟨writeCells (mem node) buffer sum, .idle, []⟩
      else ⟨mem node, .idle, [recv tpGroupStart buffer len]⟩
    else ⟨mem node, .idle, []⟩
  link _ := []

/-- Every member is done and holds the sum. -/
def doneNet : Net ℕ (ℕ → α) α where
  party node :=
    if tpGroupStart ≤ node ∧ node < tpGroupEnd then
      ⟨writeCells (mem node) buffer (total tpGroupStart tpGroupEnd buffer len mem), .idle, []⟩
    else ⟨mem node, .idle, []⟩
  link _ := []

variable {tpGroupStart tpGroupEnd len cap}

theorem total_length : (total tpGroupStart tpGroupEnd buffer len mem).length = len :=
  foldl_sum_length _ (fun _ => readCells_length _ _ _) _ _ (readCells_length _ _ _)

/-- The root takes in the next worker's buffer. -/
theorem gatherNet_step (hc : 0 < cap) {k : ℕ} (hk : tpGroupStart + k + 1 < tpGroupEnd) :
    ReflTransGen (Step cap) (gatherNet tpGroupStart tpGroupEnd buffer len mem k)
      (gatherNet tpGroupStart tpGroupEnd buffer len mem (k + 1)) := by
  set n := gatherNet tpGroupStart tpGroupEnd buffer len mem k with hn
  have hne : tpGroupStart + k + 1 ≠ tpGroupStart := by omega
  have hworker : n.party (tpGroupStart + k + 1) = ⟨mem (tpGroupStart + k + 1), .idle,
      [send tpGroupStart buffer len, recv tpGroupStart buffer len]⟩ := by
    simp only [hn, gatherNet, hne, if_false]
    rw [if_pos (by omega), if_neg (by omega)]
  have hroot := show n.party tpGroupStart = _ by simp only [hn, gatherNet, if_true]; rfl
  have hrun := gather_one hc hne hworker hroot (fun q hq => if_neg hq)
    (by simp only [if_true, readCells_length]; exact if_pos (by omega)) rfl
  convert hrun using 1
  refine Net.ext (funext fun node => ?_) rfl
  by_cases hr : node = tpGroupStart
  · subst hr
    simp only [Net.setParty_party, Function.update_self, gatherNet, if_true]
    congr 2
    · funext q
      by_cases hq : q = node + k + 1
      · rw [hq, Function.update_self, if_neg (by omega)]
      · rw [Function.update_of_ne hq]
        exact if_congr (by omega) rfl rfl
    · funext q
      by_cases hq : q = node + k + 1
      · rw [hq, Function.update_self, if_pos (by omega), if_neg (by omega), List.nil_append]
        rfl
      · rw [Function.update_of_ne hq]
        exact if_congr (by omega) rfl rfl
  · by_cases hw : node = tpGroupStart + k + 1
    · subst hw
      rw [Net.setParty_party_of_ne _ hne, Net.setParty_party, Function.update_self]
      simp only [gatherNet, hne, if_false]
      rw [if_pos (by omega), if_pos (by omega)]
    · rw [Net.setParty_party_of_ne _ hr, Net.setParty_party_of_ne _ hw]
      simp only [hn, gatherNet, hr, if_false]
      congr 2
      exact if_congr (by omega) rfl rfl

/-- Once every worker's buffer is in, the root adds them up and starts to send. -/
theorem gatherNet_finish (h : tpGroupStart + 1 < tpGroupEnd) :
    ReflTransGen (Step cap)
      (gatherNet tpGroupStart tpGroupEnd buffer len mem (tpGroupEnd - tpGroupStart - 1))
      (scatterNet tpGroupStart tpGroupEnd buffer len mem 0) := by
  set k := tpGroupEnd - tpGroupStart - 1 with hk
  set n := gatherNet tpGroupStart tpGroupEnd buffer len mem k with hn
  have hroot := show n.party tpGroupStart = _ by simp only [hn, gatherNet, if_true]; rfl
  have hread : Fire cap n (.finish tpGroupStart) _ :=
    .finishRead hroot fun q => if_neg (by omega)
  have hstart := Fire.beginBlock cap n tpGroupStart
    (gatherUse tpGroupStart tpGroupEnd buffer len (mem tpGroupStart)
      (fun q => if tpGroupStart < q ∧ q ≤ tpGroupStart + k then bufferOf buffer len mem q else []))
    (broadcast tpGroupStart tpGroupEnd buffer len) []
  have hsum : gatherUse tpGroupStart tpGroupEnd buffer len (mem tpGroupStart)
      (fun q => if tpGroupStart < q ∧ q ≤ tpGroupStart + k then bufferOf buffer len mem q else []) =
      writeCells (mem tpGroupStart) buffer (total tpGroupStart tpGroupEnd buffer len mem) := by
    have hself : writeCells (mem tpGroupStart) buffer (bufferOf buffer len mem tpGroupStart) =
        mem tpGroupStart := writeCells_readCells _ _ _
    have hown := foldl_reduceInto (mem tpGroupStart) buffer (bufferOf buffer len mem)
      (fun _ => readCells_length _ _ _) (workerRanks tpGroupStart tpGroupEnd)
      (bufferOf buffer len mem tpGroupStart) (readCells_length _ _ _)
    rw [hself] at hown
    refine Eq.trans ?_ hown
    refine List.foldl_ext _ _ _ fun acc p hp => ?_
    rw [mem_workerRanks] at hp
    dsimp only
    rw [if_pos (by omega)]
  refine .head ⟨_, hread⟩ (.head ⟨_, hstart⟩ ?_)
  rw [hsum]
  convert ReflTransGen.refl using 1
  refine Net.ext (funext fun node => ?_) rfl
  by_cases hr : node = tpGroupStart
  · subst hr
    have hback : readCells (writeCells (mem node) buffer (total node tpGroupEnd buffer len mem))
        buffer len = total node tpGroupEnd buffer len mem := by
      have hr := readCells_writeCells (mem node) buffer (total node tpGroupEnd buffer len mem)
      rwa [total_length] at hr
    rw [Net.setParty_party, Function.update_self]
    simp only [scatterNet, if_true, Block.open, broadcast, hback, Nat.add_zero]
  · rw [Net.setParty_party_of_ne _ hr]
    simp only [hn, gatherNet, scatterNet, hr, if_false]
    by_cases hw : tpGroupStart < node ∧ node < tpGroupEnd
    · have hin : node ≤ tpGroupStart + k := by omega
      have hnot : ¬node ≤ tpGroupStart + 0 := by omega
      simp only [if_pos hw, hin, hnot, if_true, if_false]
    · simp only [if_neg hw]

/-- The root serves the next worker with the sum. -/
theorem scatterNet_step (hc : 0 < cap) {k : ℕ} (hk : tpGroupStart + k + 1 < tpGroupEnd) :
    ReflTransGen (Step cap) (scatterNet tpGroupStart tpGroupEnd buffer len mem k)
      (scatterNet tpGroupStart tpGroupEnd buffer len mem (k + 1)) := by
  set n := scatterNet tpGroupStart tpGroupEnd buffer len mem k with hn
  have hne : tpGroupStart + k + 1 ≠ tpGroupStart := by omega
  have hin : tpGroupStart + k < tpGroupStart + k + 1 ∧ tpGroupStart + k + 1 < tpGroupEnd := by omega
  have hworker : n.party (tpGroupStart + k + 1) = ⟨mem (tpGroupStart + k + 1), .idle,
      [recv tpGroupStart buffer len]⟩ := by
    simp only [hn, scatterNet, hne, if_false]
    rw [if_pos (by omega), if_neg (by omega)]
  have hroot := show n.party tpGroupStart = _ by simp only [hn, scatterNet, if_true]; rfl
  have hrun := scatter_one hc hne hworker hroot (fun q hq => if_neg hq)
    (by simp only [if_true, if_pos hin, total_length]) rfl
  convert hrun using 1
  refine Net.ext (funext fun node => ?_) rfl
  by_cases hr : node = tpGroupStart
  · subst hr
    simp only [Net.setParty_party, Function.update_self, scatterNet, if_true]
    congr 2
    funext q
    by_cases hq : q = node + k + 1
    · rw [hq, Function.update_self, if_neg (by omega)]
    · rw [Function.update_of_ne hq]
      exact if_congr (by omega) rfl rfl
  · by_cases hw : node = tpGroupStart + k + 1
    · subst hw
      rw [Net.setParty_party_of_ne _ hne, Net.setParty_party, Function.update_self]
      simp only [scatterNet, hne, if_false, Function.update_self, if_pos hin]
      rw [if_pos (by omega), if_pos (by omega)]
    · rw [Net.setParty_party_of_ne _ hr, Net.setParty_party_of_ne _ hw]
      simp only [hn, scatterNet, hr, if_false]
      congr 1
      exact if_congr (by omega) rfl rfl

/-- Once every worker is served the root is done. -/
theorem scatterNet_finish (h : tpGroupStart < tpGroupEnd) :
    ReflTransGen (Step cap)
      (scatterNet tpGroupStart tpGroupEnd buffer len mem (tpGroupEnd - tpGroupStart - 1))
      (doneNet tpGroupStart tpGroupEnd buffer len mem) := by
  set n := scatterNet tpGroupStart tpGroupEnd buffer len mem (tpGroupEnd - tpGroupStart - 1) with hn
  have hroot := show n.party tpGroupStart = _ by simp only [hn, scatterNet, if_true]; rfl
  have hfinish : Fire cap n (.finish tpGroupStart) _ :=
    .finishWrite hroot fun q => if_neg (by omega)
  convert ReflTransGen.single (show Step cap n _ from ⟨_, hfinish⟩) using 1
  refine Net.ext (funext fun node => ?_) rfl
  by_cases hr : node = tpGroupStart
  · subst hr
    rw [Net.setParty_party, Function.update_self]
    exact if_pos (by omega)
  · rw [Net.setParty_party_of_ne _ hr]
    simp only [hn, doneNet, scatterNet, hr, if_false]
    by_cases hw : tpGroupStart < node ∧ node < tpGroupEnd
    · rw [if_pos hw, if_pos (by omega), if_pos (by omega)]
    · rw [if_neg hw, if_neg (by omega)]

variable (tpGroupStart tpGroupEnd len) in
/-- The collective at its start, every member with its program. -/
def startNet : Net ℕ (ℕ → α) α :=
  groupNet tpGroupStart tpGroupEnd (program tpGroupStart tpGroupEnd buffer len) mem

/-- The root opens its receive. -/
theorem startNet_begin (h : tpGroupStart + 1 < tpGroupEnd) :
    ReflTransGen (Step cap) (startNet tpGroupStart tpGroupEnd buffer len mem)
      (gatherNet tpGroupStart tpGroupEnd buffer len mem 0) := by
  set n := startNet tpGroupStart tpGroupEnd buffer len mem with hn
  have hroot : n.party tpGroupStart = ⟨mem tpGroupStart, .idle,
      [gather tpGroupStart tpGroupEnd buffer len, broadcast tpGroupStart tpGroupEnd buffer len]⟩ := by
    simp only [hn, startNet, groupNet]
    rw [if_pos (by omega), program_root buffer h]
  have hstart : Fire cap n (.start tpGroupStart) _ := .start hroot
  convert ReflTransGen.single (show Step cap n _ from ⟨_, hstart⟩) using 1
  refine Net.ext (funext fun node => ?_) rfl
  by_cases hr : node = tpGroupStart
  · subst hr
    rw [Net.setParty_party, Function.update_self]
    simp only [gatherNet, if_true, Block.open, gather, Nat.add_zero]
    congr 2
    funext q
    exact if_neg (by omega)
  · rw [Net.setParty_party_of_ne _ hr]
    simp only [hn, startNet, groupNet, gatherNet, hr, if_false]
    by_cases hw : tpGroupStart < node ∧ node < tpGroupEnd
    · have hmember : tpGroupStart ≤ node ∧ node < tpGroupEnd := by omega
      have hnot : ¬node ≤ tpGroupStart + 0 := by omega
      simp only [if_pos hw, if_pos hmember, hnot, if_false, program_worker buffer hw]
    · have hmember : ¬(tpGroupStart ≤ node ∧ node < tpGroupEnd) := by omega
      simp only [if_neg hw, if_neg hmember]

/-- A group of one rank has no program and its buffer is the sum already. -/
theorem startNet_single (h : tpGroupEnd = tpGroupStart + 1) :
    startNet tpGroupStart tpGroupEnd buffer len mem =
      doneNet tpGroupStart tpGroupEnd buffer len mem := by
  have hworkers : workerRanks tpGroupStart tpGroupEnd = [] := by
    rw [workerRanks, h, Nat.add_sub_cancel_left, Nat.sub_self, List.range_zero, List.map_nil]
  have hsum : writeCells (mem tpGroupStart) buffer
      (total tpGroupStart tpGroupEnd buffer len mem) = mem tpGroupStart := by
    rw [total, rankOrderSum, hworkers, List.foldl_nil, bufferOf, writeCells_readCells]
  have hone : tpGroupEnd - tpGroupStart ≤ 1 := by omega
  refine Net.ext (funext fun node => ?_) rfl
  simp only [startNet, groupNet, doneNet, program, syncNodeSlicesStarAllReduce, hone, or_true,
    if_true]
  by_cases hn : tpGroupStart ≤ node ∧ node < tpGroupEnd
  · have he : node = tpGroupStart := by omega
    rw [if_pos hn, if_pos hn, he, hsum]
  · rw [if_neg hn, if_neg hn]

/-- One schedule that completes the collective. -/
theorem startNet_schedule (hc : 0 < cap) (h : tpGroupStart < tpGroupEnd) :
    ReflTransGen (Step cap) (startNet tpGroupStart tpGroupEnd buffer len mem)
      (doneNet tpGroupStart tpGroupEnd buffer len mem) := by
  by_cases hone : tpGroupEnd = tpGroupStart + 1
  · rw [startNet_single buffer mem hone]
  · have hgather := reach_of_steps (gatherNet tpGroupStart tpGroupEnd buffer len mem)
      (tpGroupEnd - tpGroupStart - 1) fun k hk => gatherNet_step buffer mem hc (by omega)
    have hscatter := reach_of_steps (scatterNet tpGroupStart tpGroupEnd buffer len mem)
      (tpGroupEnd - tpGroupStart - 1) fun k hk => scatterNet_step buffer mem hc (by omega)
    have hmany : tpGroupStart + 1 < tpGroupEnd := by omega
    exact (startNet_begin buffer mem hmany).trans (hgather.trans
      ((gatherNet_finish buffer mem hmany).trans (hscatter.trans (scatterNet_finish buffer mem h))))

theorem doneNet_done : (doneNet tpGroupStart tpGroupEnd buffer len mem).Done := by
  intro node
  simp only [doneNet]
  split
  · exact ⟨_, rfl⟩
  · exact ⟨_, rfl⟩

/-- Every schedule of the collective ends in the same network. -/
theorem startNet_outcome (hc : 0 < cap) (h : tpGroupStart < tpGroupEnd) :
    Outcome (Step cap) (startNet tpGroupStart tpGroupEnd buffer len mem)
      (doneNet tpGroupStart tpGroupEnd buffer len mem) :=
  outcome_of_schedule (startNet_schedule buffer mem hc h) (doneNet_done buffer mem)

/-- The reductions of the root stay inside the buffer. -/
theorem gather_keeps (before : ℕ → α) :
    (gather tpGroupStart tpGroupEnd buffer len : Block ℕ (ℕ → α) α).Keeps
      (SameOutside buffer len before) := by
  intro now got hnow hgot
  have hlen : sizeofFloat * len / sizeofFloat = len := Nat.mul_div_cancel_left len (by decide)
  have hfold (peers : List ℕ) (hp : ∀ p ∈ peers, (got p).length = len) :
      ∀ now, SameOutside buffer len before now → SameOutside buffer len before
        (peers.foldl (fun mem p => reduceInto mem buffer (got p) (sizeofFloat * len)) now) := by
    induction peers with
    | nil => exact fun now hnow => hnow
    | cons p peers ih =>
      intro now hnow
      refine ih (fun q hq => hp q (List.mem_cons_of_mem _ hq)) _ (hnow.write ?_)
      have hown := readCells_length now buffer len
      have hgp := hp p List.mem_cons_self
      rw [hlen, reduceSum_eq (by rw [hlen, hgp]) (by rw [hlen, hown]), List.length_zipWith, hown,
        hgp, Nat.min_self]
  refine hfold _ (fun p hp => ?_) now hnow
  exact (hgot p).trans (if_pos (mem_workerRanks.mp hp))

omit [Add α] in
theorem recv_keeps (before : ℕ → α) :
    (recv tpGroupStart buffer len : Block ℕ (ℕ → α) α).Keeps (SameOutside buffer len before) := by
  intro now got hnow hgot
  exact hnow.write ((hgot tpGroupStart).trans (if_pos rfl))

/-- Every party of the collective only ever changes its buffer. -/
theorem startNet_holds (node : ℕ) :
    ((startNet tpGroupStart tpGroupEnd buffer len mem).party node).Holds
      (SameOutside buffer len (mem node)) := by
  refine ⟨fun _ _ => rfl, ?_, rfl⟩
  intro b hb
  simp only [startNet, groupNet] at hb
  by_cases hmember : tpGroupStart ≤ node ∧ node < tpGroupEnd
  · rw [if_pos hmember] at hb
    by_cases hone : tpGroupEnd ≤ tpGroupStart + 1
    · have hcond : tpGroupEnd - tpGroupStart ≤ 1 := by omega
      simp only [program, syncNodeSlicesStarAllReduce, hcond, or_true, if_true,
        List.not_mem_nil] at hb
    · by_cases hr : node = tpGroupStart
      · rw [hr, program_root buffer (by omega), List.mem_pair] at hb
        rcases hb with hb | hb
        · rw [hb]
          exact gather_keeps buffer _
        · rw [hb]
          trivial
      · rw [program_worker buffer (by omega), List.mem_pair] at hb
        rcases hb with hb | hb
        · rw [hb]
          trivial
        · rw [hb]
          exact recv_keeps buffer _
  · rw [if_neg hmember] at hb
    exact absurd hb List.not_mem_nil

end Schedule

/-- In full mode the star collective of a group of consecutive ranks ends, for
every order of the single transfers, with every member's buffer equal to the
group root's buffer plus the other buffers in rank order. No run gets stuck,
and no reachable state differs outside the buffer or outside the group. -/
theorem syncNodeSlicesStarAllReduce_correct {cap tpGroupStart tpGroupEnd : ℕ} (hc : 0 < cap)
    (h : tpGroupStart < tpGroupEnd) (buffer len : ℕ) (mem : ℕ → ℕ → α) :
    ∃ final, Outcome (Step cap) (startNet tpGroupStart tpGroupEnd buffer len mem) final ∧
      final.Done ∧ (∀ e, final.link e = []) ∧
      (∀ node, tpGroupStart ≤ node → node < tpGroupEnd →
        readCells (final.party node).mem buffer len =
          rankOrderSum tpGroupStart tpGroupEnd fun p => readCells (mem p) buffer len) ∧
      ∀ now, ReflTransGen (Step cap) (startNet tpGroupStart tpGroupEnd buffer len mem) now →
        (∀ node a, a < buffer ∨ buffer + len ≤ a → (now.party node).mem a = mem node a) ∧
        ∀ node, node < tpGroupStart ∨ tpGroupEnd ≤ node → now.party node = ⟨mem node, .idle, []⟩ := by
  refine ⟨doneNet tpGroupStart tpGroupEnd buffer len mem, startNet_outcome buffer mem hc h,
    doneNet_done buffer mem, fun _ => rfl, ?_, ?_⟩
  · intro node hlo hhi
    have hread := readCells_writeCells (mem node) buffer
      (total tpGroupStart tpGroupEnd buffer len mem)
    rw [total_length] at hread
    simp only [doneNet, if_pos (And.intro hlo hhi)]
    exact hread
  · intro now hnow
    constructor
    · intro node
      exact holds_of_reachable hnow (startNet_holds buffer mem node)
    · intro node hout
      refine idle_of_reachable hnow ?_
      simp only [startNet, groupNet]
      rw [if_neg (by omega)]

/-- Ranks 1 to 3 on links of one cell: all of them end with the sum. -/
theorem syncNodeSlicesStarAllReduce_correct_three : ∃ final,
    Outcome (Step 1) (startNet 1 4 5 2 fun node a => 10 * node + a) final ∧
    readCells (final.party 2).mem 5 2 = [75, 78] ∧ (final.party 3).mem 4 = 34 := by
  obtain ⟨final, hend, -, -, hsum, hframe⟩ := syncNodeSlicesStarAllReduce_correct (show 0 < 1 by decide)
    (show 1 < 4 by decide) 5 2 fun node a => 10 * node + a
  refine ⟨final, hend, (hsum 2 (by decide) (by decide)).trans (by decide), ?_⟩
  exact ((hframe final (hend.reaches _ .refl)).1 3 4 (by decide)).trans (by decide)

end LayerSkip.StarAllReduce
