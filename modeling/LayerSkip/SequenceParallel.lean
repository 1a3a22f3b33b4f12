import LayerSkip.KvCache
import Mathlib.Algebra.Order.Group.Nat
import Mathlib.Data.Nat.Init

/-!
# Key and value rows with sequence parallelism

Each rank of a sequence group writes the rows of its own range. The exchange of
the rows of the other ranks is a sync of the attention segment, and the executor
runs all operations of a segment before its syncs. So attention reads the rows of
other ranks as an earlier exchange has left them.
-/

namespace LayerSkip.SequenceParallel

open KvCache

/-- The two caches of a layer. -/
inductive KvBuffer
  | k
  | v
  deriving DecidableEq, Repr

/-- Operations of the attention segment that use the caches. -/
inductive NnOp
  /-- `OP_SHIFT` into a cache. -/
  | shift (buffer : KvBuffer)
  /-- `OP_MULTIHEAD_ATT`. -/
  | multiheadAtt
  deriving DecidableEq, Repr

/-- Syncs of the attention segment. -/
inductive NnSyncType
  /-- `SYNC_SP_KV`. -/
  | spKv
  /-- `SYNC_NODE_SLICES`. -/
  | nodeSlices
  deriving DecidableEq, Repr

/-- A segment: its operations and its syncs, each in the order in which they were added. -/
structure NnSegmentConfig where
  /-- Operations. -/
  ops : List NnOp
  /-- Syncs. -/
  syncs : List NnSyncType
  deriving DecidableEq, Repr

/-- Add an operation. -/
def NnSegmentConfig.addOp (segment : NnSegmentConfig) (op : NnOp) : NnSegmentConfig :=
  { segment with ops := segment.ops ++ [op] }

/-- Add a sync. -/
def NnSegmentConfig.addSync (segment : NnSegmentConfig) (sync : NnSyncType) : NnSegmentConfig :=
  { segment with syncs := segment.syncs ++ [sync] }

/-- The attention segment of a layer, in the order of `buildLlmNet`. -/
def attSegment (spSize : ℕ) : NnSegmentConfig :=
  let att := ((NnSegmentConfig.mk [] []).addOp (.shift .k)).addOp (.shift .v)
  let att := if 1 < spSize then att.addSync .spKv else att
  (att.addOp .multiheadAtt).addSync .nodeSlices

/-- A step of the executor. -/
inductive NnExecutorStep
  /-- `STEP_EXECUTE_OP`. -/
  | executeOp (op : NnOp)
  /-- `STEP_SYNC_NODES`. -/
  | syncNodes (syncs : List NnSyncType)
  deriving DecidableEq, Repr

/-- Steps that the executor makes of a segment. -/
def executorSteps (nNodes : ℕ) (segment : NnSegmentConfig) : List NnExecutorStep :=
  segment.ops.map .executeOp ++
    if 1 < nNodes ∧ 0 < segment.syncs.length then [.syncNodes segment.syncs] else []

/-- Options of the exchange. -/
structure SpOptions where
  /-- No exchange in the decode phase. -/
  prefillSpOnly : Bool
  /-- The decode phase must not move rows. -/
  strictKvAffinity : Bool
  /-- It may all the same. -/
  allowKvMigration : Bool
  deriving DecidableEq, Repr

/-- One forward: positions of the batch and the phase. -/
structure Forward where
  /-- Position of each row of the batch. -/
  positions : List ℕ
  /-- Decode phase. -/
  decodePhase : Bool
  deriving DecidableEq, Repr

/-- A sequence group and the forwards it runs. -/
structure SequenceRun where
  /-- Number of nodes. -/
  nNodes : ℕ
  /-- Ranks of the sequence group. -/
  spSize : ℕ
  /-- The rows are spread over several ranks. -/
  two_le : 2 ≤ spSize
  /-- The ranks are nodes. -/
  spSize_le : spSize ≤ nNodes
  /-- Length of the context. -/
  seqLen : ℕ
  /-- Ranks have equal ranges. -/
  seqLen_mod : seqLen % spSize = 0
  /-- Options. -/
  options : SpOptions
  /-- Options that the program starts with. -/
  accepted : options.strictKvAffinity = true →
    options.prefillSpOnly = true ∨ options.allowKvMigration = true
  /-- Forwards in order. -/
  forwards : ℕ → Forward
  /-- Positions are in the context. -/
  inContext : ∀ k, ∀ p ∈ (forwards k).positions, p < seqLen

/-- Caches by buffer and rank. A row is marked with the rank and the forward that computed
it. -/
abbrev Caches := KvBuffer → ℕ → Rows (ℕ × ℕ)

/-- The caches, and for each attention so far its forward and the caches it has read. -/
structure SpState where
  /-- Caches. -/
  caches : Caches
  /-- What attention has read. -/
  attended : List (ℕ × Caches)

/-- What the exchange of a forward does. -/
inductive SpKvSync
  /-- Nothing. -/
  | skip
  /-- Throw. -/
  | violation
  /-- Send the own rows and receive those of the others. -/
  | exchange
  deriving DecidableEq, Repr

/-- Overwrite a range of rows. -/
def copyRows {α : Type*} (start stop : ℕ) (source cache : Rows α) : Rows α := fun row =>
  if start ≤ row ∧ row < stop then source row else cache row

/-- Largest position of a batch. -/
def maxPos (positions : List ℕ) : ℕ := positions.foldl (fun m p => if m < p then p else m) 0

namespace SequenceRun

variable (run : SequenceRun)

/-- Rows of a rank's range. -/
def localSeqLen : ℕ := run.seqLen / run.spSize

/-- Range of a rank, from `sliceKvCache`. -/
def sliceKvCache (spRank : ℕ) : LocalRange := ⟨spRank * run.localSeqLen, run.localSeqLen⟩

/-- What the synchronizer decides for `SYNC_SP_KV`. -/
def spKvSync (isDecode : Bool) : SpKvSync :=
  if run.options.prefillSpOnly = true ∧ isDecode = true then .skip
  else if isDecode = true ∧ run.options.strictKvAffinity = true ∧
    run.options.allowKvMigration = false then .violation
  else if run.spSize ≤ 1 then .skip
  else .exchange

/-- Rows of a rank after it has received those of each other rank. A rank sends rows of its
own range only, which the exchange does not change. -/
def exchange (positions : List ℕ) (rows : ℕ → Rows (ℕ × ℕ)) (rank : ℕ) : Rows (ℕ × ℕ) :=
  (List.range run.spSize).foldl (fun cache peer =>
    if peer = rank then cache
    else
      let peerStart := peer * run.localSeqLen
      let peerEnd := peerStart + run.localSeqLen
      let peerActive := if maxPos positions + 1 < peerEnd then maxPos positions + 1 else peerEnd
      copyRows peerStart peerActive (rows peer) cache) (rows rank)

/-- An operation on all ranks. -/
def executeOp (k : ℕ) (s : SpState) : NnOp → SpState
  | .shift buffer =>
    let indexes := (run.forwards k).positions
    let rows := fun rank =>
      shiftForward (run.sliceKvCache rank) indexes (rank, k) (s.caches buffer rank)
    { s with caches := Function.update s.caches buffer rows }
  | .multiheadAtt => { s with attended := s.attended ++ [(k, s.caches)] }

/-- A sync of all ranks. -/
def executeSync (k : ℕ) (s : SpState) : NnSyncType → Except String SpState
  | .nodeSlices => .ok s
  | .spKv =>
    match run.spKvSync (run.forwards k).decodePhase with
    | .skip => .ok s
    | .violation =>
      .error "KV_MIGRATION_VIOLATION: decode-path KV sync is disabled by --strict-kv-affinity=1"
    | .exchange =>
      .ok { s with caches := fun buffer =>
        run.exchange (run.forwards k).positions (s.caches buffer) }

/-- A step of the executors of all ranks. -/
def executeStep (k : ℕ) (s : SpState) : NnExecutorStep → Except String SpState
  | .executeOp op => .ok (run.executeOp k s op)
  | .syncNodes syncs => syncs.foldlM (run.executeSync k) s

/-- The attention segment of a forward. -/
def forward (k : ℕ) (s : SpState) : Except String SpState :=
  (executorSteps run.nNodes (attSegment run.spSize)).foldlM (run.executeStep k) s

/-- The first forwards of the run. -/
def exec : ℕ → Except String SpState
  | 0 => .ok ⟨fun _ _ _ => none, []⟩
  | k + 1 => exec k >>= run.forward k

/-- Rank whose range a row is in. -/
def owner (row : ℕ) : ℕ := row / run.localSeqLen

/-- Positions of a forward. -/
def batch (k : ℕ) : List ℕ := (run.forwards k).positions

/-- The rows up to a position hold on a rank what the owner of each has computed for it, in
the last forward up to this one that has its position. -/
def Complete (caches : Caches) (k rank p : ℕ) : Prop :=
  ∀ buffer, ∀ row ∈ attentionRows p, ∃ i, cacheAfter run.batch (k + 1) row = some i ∧
    caches buffer rank row = some (run.owner row, i)

/-- A forward exchanges a row. -/
def Exchanges (k row : ℕ) : Prop :=
  run.spKvSync (run.forwards k).decodePhase = .exchange ∧ row ≤ maxPos (run.batch k)

/-- A row is at a rank when it attends in a forward: its position has been computed, and the
row is in the range of the rank or has been exchanged since, by an earlier forward. -/
def Present (k rank row : ℕ) : Prop :=
  ∃ i ≤ k, row ∈ run.batch i ∧ (∀ j, i < j → j ≤ k → row ∉ run.batch j) ∧
    (run.owner row = rank ∨ ∃ j, i ≤ j ∧ j < k ∧ run.Exchanges j row)

end SequenceRun

section LastWrite

variable {writes : ℕ → List ℕ} {row i : ℕ}

/-- A row names the last forward that wrote it. -/
theorem cacheAfter_eq_some_iff (m : ℕ) :
    cacheAfter writes m row = some i ↔
      i < m ∧ row ∈ writes i ∧ ∀ j, i < j → j < m → row ∉ writes j := by
  induction m with
  | zero =>
    constructor
    · intro h
      cases h
    · intro h
      exact absurd h.1 (Nat.not_lt_zero i)
  | succ m ih =>
    rw [cacheAfter_succ]
    by_cases hmem : row ∈ writes m
    · rw [if_pos hmem]
      constructor
      · intro h
        injection h with h
        rw [← h]
        refine ⟨Nat.lt_succ_self m, hmem, ?_⟩
        intro j hj hjm
        omega
      · intro h
        by_cases hi : i = m
        · rw [hi]
        · have hlt : i < m := by omega
          exact absurd hmem (h.2.2 m hlt (Nat.lt_succ_self m))
    · rw [if_neg hmem, ih]
      constructor
      · intro h
        refine ⟨by omega, h.2.1, ?_⟩
        intro j hj hjm
        by_cases heq : j = m
        · rw [heq]
          exact hmem
        · exact h.2.2 j hj (by omega)
      · intro h
        have hne : i ≠ m := by
          intro heq
          rw [heq] at h
          exact hmem h.2.1
        exact ⟨by omega, h.2.1, fun j hj hjm => h.2.2 j hj (by omega)⟩

end LastWrite

section Ranges

variable (run : SequenceRun) {row rank : ℕ}

theorem SequenceRun.localSeqLen_mul : run.localSeqLen * run.spSize = run.seqLen :=
  Nat.div_mul_cancel (Nat.dvd_of_mod_eq_zero run.seqLen_mod)

theorem SequenceRun.localSeqLen_pos (hrow : row < run.seqLen) : 0 < run.localSeqLen := by
  have hmul := run.localSeqLen_mul
  apply Nat.pos_of_ne_zero
  intro hzero
  rw [hzero, Nat.zero_mul] at hmul
  omega

theorem SequenceRun.owner_lt (hrow : row < run.seqLen) : run.owner row < run.spSize := by
  rw [← run.localSeqLen_mul] at hrow
  exact Nat.div_lt_of_lt_mul hrow

/-- A row belongs to the rank in whose range it is. -/
theorem SequenceRun.owner_eq_iff (rank : ℕ) (hrow : row < run.seqLen) :
    run.owner row = rank ↔
      rank * run.localSeqLen ≤ row ∧ row < rank * run.localSeqLen + run.localSeqLen := by
  unfold SequenceRun.owner
  rw [Nat.div_eq_iff (run.localSeqLen_pos hrow)]
  have hpos := run.localSeqLen_pos hrow
  constructor
  · intro h
    omega
  · intro h
    omega

/-- A rank may write the rows it owns. -/
theorem SequenceRun.allows_iff (rank : ℕ) (hrow : row < run.seqLen) :
    (run.sliceKvCache rank).Allows row ↔ run.owner row = rank := by
  rw [run.owner_eq_iff rank hrow]
  have hpos := run.localSeqLen_pos hrow
  unfold SequenceRun.sliceKvCache LocalRange.Allows
  dsimp only
  constructor
  · intro h
    omega
  · intro h hnot
    omega

/-- After the exchange a rank holds up to the largest position the rows of their owners. -/
theorem SequenceRun.exchange_apply (positions : List ℕ) (rows : ℕ → Rows (ℕ × ℕ))
    (hrow : row < run.seqLen) :
    run.exchange positions rows rank row =
      if run.owner row ≠ rank ∧ row ≤ maxPos positions then rows (run.owner row) row
      else rows rank row := by
  have hfold : ∀ (peers : List ℕ) (cache : Rows (ℕ × ℕ)),
      peers.foldl (fun cache peer =>
        if peer = rank then cache
        else
          let peerStart := peer * run.localSeqLen
          let peerEnd := peerStart + run.localSeqLen
          let peerActive :=
            if maxPos positions + 1 < peerEnd then maxPos positions + 1 else peerEnd
          copyRows peerStart peerActive (rows peer) cache) cache row =
        if run.owner row ∈ peers ∧ run.owner row ≠ rank ∧ row ≤ maxPos positions then
          rows (run.owner row) row
        else cache row := by
    intro peers
    induction peers with
    | nil =>
      intro cache
      exact (if_neg fun h => List.not_mem_nil h.1).symm
    | cons peer peers ih =>
      intro cache
      have howner := run.owner_eq_iff peer hrow
      rw [List.foldl_cons, ih]
      by_cases hlater :
          run.owner row ∈ peers ∧ run.owner row ≠ rank ∧ row ≤ maxPos positions
      · have hcons : run.owner row ∈ peer :: peers ∧ run.owner row ≠ rank ∧
            row ≤ maxPos positions := ⟨List.mem_cons_of_mem peer hlater.1, hlater.2⟩
        rw [if_pos hlater, if_pos hcons]
      · rw [if_neg hlater]
        by_cases hpeer : peer = rank
        · have hcons : ¬(run.owner row ∈ peer :: peers ∧ run.owner row ≠ rank ∧
              row ≤ maxPos positions) := by
            intro h
            cases List.mem_cons.mp h.1 with
            | inl heq => exact h.2.1 (heq.trans hpeer)
            | inr hmem => exact hlater ⟨hmem, h.2⟩
          rw [if_pos hpeer, if_neg hcons]
        · rw [if_neg hpeer]
          dsimp only [copyRows]
          by_cases hhere : run.owner row = peer ∧ row ≤ maxPos positions
          · have hbounds := howner.mp hhere.1
            have hcons : run.owner row ∈ peer :: peers ∧ run.owner row ≠ rank ∧
                row ≤ maxPos positions := by
              rw [hhere.1]
              exact ⟨List.mem_cons_self, hpeer, hhere.2⟩
            rw [if_pos hcons, if_pos (by split <;> omega), hhere.1]
          · have hcons : ¬(run.owner row ∈ peer :: peers ∧ run.owner row ≠ rank ∧
                row ≤ maxPos positions) := by
              intro h
              cases List.mem_cons.mp h.1 with
              | inl heq => exact hhere ⟨heq, h.2.2⟩
              | inr hmem => exact hlater ⟨hmem, h.2⟩
            have hout : ¬(peer * run.localSeqLen ≤ row ∧
                row < if maxPos positions + 1 < peer * run.localSeqLen + run.localSeqLen then
                  maxPos positions + 1 else peer * run.localSeqLen + run.localSeqLen) := by
              intro h
              apply hhere
              rw [howner]
              split at h
              · omega
              · omega
            rw [if_neg hcons, if_neg hout]
  have hmem : run.owner row ∈ List.range run.spSize := List.mem_range.mpr (run.owner_lt hrow)
  unfold SequenceRun.exchange
  rw [hfold]
  by_cases h : run.owner row ≠ rank ∧ row ≤ maxPos positions
  · rw [if_pos ⟨hmem, h⟩, if_pos h]
  · rw [if_neg (fun hall => h hall.2), if_neg h]

end Ranges

section Runs

variable (run : SequenceRun)

/-- Forward that computed what a rank holds of a row of another rank, before a forward. -/
def SequenceRun.mirrored (row : ℕ) : ℕ → Option ℕ
  | 0 => none
  | k + 1 =>
    if run.spKvSync (run.forwards k).decodePhase = .exchange ∧ row ≤ maxPos (run.batch k) then
      cacheAfter run.batch (k + 1) row
    else mirrored row k

/-- The rows of one buffer on all ranks: a rank has its own rows as one cache would have them
before forward `m`, and those of the others as they were exchanged before forward `k`. -/
def SequenceRun.Holds (m k : ℕ) (rows : ℕ → Rows (ℕ × ℕ)) : Prop :=
  ∀ rank < run.spSize, ∀ row < run.seqLen, rows rank row =
    ((if run.owner row = rank then cacheAfter run.batch m row else run.mirrored row k).map
      fun i => (run.owner row, i))

theorem SequenceRun.Holds.shift {run : SequenceRun} {k : ℕ} {rows : ℕ → Rows (ℕ × ℕ)}
    (h : run.Holds k k rows) :
    run.Holds (k + 1) k fun rank =>
      shiftForward (run.sliceKvCache rank) (run.forwards k).positions (rank, k) (rows rank) := by
  intro rank hrank row hrow
  dsimp only
  have hallows := run.allows_iff rank hrow
  rw [shiftForward_apply, h rank hrank row hrow]
  by_cases howner : run.owner row = rank
  · rw [if_pos howner, if_pos howner, cacheAfter_succ]
    by_cases hmem : row ∈ run.batch k
    · rw [if_pos ⟨hmem, hallows.mpr howner⟩, if_pos hmem, ← howner]
      exact Eq.refl _
    · rw [if_neg (fun hall => hmem hall.1), if_neg hmem]
  · rw [if_neg (fun hall => howner (hallows.mp hall.2)), if_neg howner, if_neg howner]

theorem SequenceRun.Holds.exchange {run : SequenceRun} {k : ℕ} {rows : ℕ → Rows (ℕ × ℕ)}
    (h : run.Holds (k + 1) k rows)
    (hsync : run.spKvSync (run.forwards k).decodePhase = .exchange) :
    run.Holds (k + 1) (k + 1) (run.exchange (run.forwards k).positions rows) := by
  intro rank hrank row hrow
  rw [run.exchange_apply _ _ hrow]
  unfold SequenceRun.mirrored
  by_cases howner : run.owner row = rank
  · rw [if_neg (fun hall => hall.1 howner), if_pos howner, h rank hrank row hrow, if_pos howner]
  · rw [if_neg howner]
    by_cases hmax : row ≤ maxPos (run.batch k)
    · rw [if_pos ⟨howner, hmax⟩, if_pos ⟨hsync, hmax⟩,
        h (run.owner row) (run.owner_lt hrow) row hrow, if_pos (Eq.refl _)]
    · rw [if_neg (fun hall => hmax hall.2), if_neg (fun hall => hmax hall.2),
        h rank hrank row hrow, if_neg howner]

theorem SequenceRun.Holds.skip {run : SequenceRun} {k : ℕ} {rows : ℕ → Rows (ℕ × ℕ)}
    (h : run.Holds (k + 1) k rows)
    (hsync : run.spKvSync (run.forwards k).decodePhase ≠ .exchange) :
    run.Holds (k + 1) (k + 1) rows := by
  intro rank hrank row hrow
  have hmirrored : run.mirrored row (k + 1) = run.mirrored row k :=
    if_neg fun hall => hsync hall.1
  rw [hmirrored]
  exact h rank hrank row hrow

/-- The accepted options exclude the violation. -/
theorem SequenceRun.spKvSync_ne_violation (isDecode : Bool) :
    run.spKvSync isDecode ≠ .violation := by
  have haccepted := run.accepted
  unfold SequenceRun.spKvSync
  by_cases hskip : run.options.prefillSpOnly = true ∧ isDecode = true
  · rw [if_pos hskip]
    exact nofun
  · rw [if_neg hskip]
    by_cases hviolation : isDecode = true ∧ run.options.strictKvAffinity = true ∧
        run.options.allowKvMigration = false
    · cases haccepted hviolation.2.1 with
      | inl honly => exact absurd ⟨honly, hviolation.1⟩ hskip
      | inr hallow =>
        rw [hallow] at hviolation
        exact absurd hviolation.2.2 nofun
    · rw [if_neg hviolation]
      split
      · exact nofun
      · exact nofun

/-- The executor shifts, attends and only then exchanges. -/
theorem SequenceRun.executorSteps_eq : executorSteps run.nNodes (attSegment run.spSize) =
    [.executeOp (.shift .k), .executeOp (.shift .v), .executeOp .multiheadAtt,
      .syncNodes [.spKv, .nodeSlices]] := by
  have htwo := run.two_le
  have hle := run.spSize_le
  have hsp : 1 < run.spSize := by omega
  have hnodes : 1 < run.nNodes := by omega
  simp only [executorSteps, attSegment, if_pos hsp, NnSegmentConfig.addOp, NnSegmentConfig.addSync,
    List.nil_append, List.cons_append, List.map_cons, List.map_nil, List.length_cons,
    List.length_nil, hnodes, true_and]
  exact Eq.refl _

/-- One forward: what attention reads, and what it leaves behind. -/
theorem SequenceRun.forward_ok {k : ℕ} {s : SpState} (h : ∀ buffer, run.Holds k k (s.caches buffer)) :
    ∃ s' seen, run.forward k s = .ok s' ∧ s'.attended = s.attended ++ [(k, seen)] ∧
      (∀ buffer, run.Holds (k + 1) k (seen buffer)) ∧
      ∀ buffer, run.Holds (k + 1) (k + 1) (s'.caches buffer) := by
  let seen := (run.executeOp k (run.executeOp k s (.shift .k)) (.shift .v)).caches
  have hseen : ∀ buffer, run.Holds (k + 1) k (seen buffer) := by
    intro buffer
    cases buffer with
    | k => exact (h .k).shift
    | v => exact (h .v).shift
  have hforward : run.forward k s =
      ((run.executeSync k ⟨seen, s.attended ++ [(k, seen)]⟩ .spKv >>=
        fun s' => run.executeSync k s' .nodeSlices >>= pure) >>= pure) := by
    unfold SequenceRun.forward
    rw [run.executorSteps_eq]
    exact Eq.refl _
  rw [hforward]
  unfold SequenceRun.executeSync
  cases hsync : run.spKvSync (run.forwards k).decodePhase with
  | skip =>
    refine ⟨⟨seen, s.attended ++ [(k, seen)]⟩, seen, Eq.refl _, Eq.refl _, hseen, ?_⟩
    intro buffer
    apply (hseen buffer).skip
    rw [hsync]
    exact nofun
  | violation => exact absurd hsync (run.spKvSync_ne_violation _)
  | exchange =>
    refine ⟨_, seen, Eq.refl _, Eq.refl _, hseen, ?_⟩
    intro buffer
    exact (hseen buffer).exchange hsync

/-- What attention has read in the first forwards of a run. -/
theorem SequenceRun.exec_ok (n : ℕ) :
    ∃ s, run.exec n = .ok s ∧ (∀ buffer, run.Holds n n (s.caches buffer)) ∧
      s.attended.map Prod.fst = List.range n ∧
      ∀ k seen, (k, seen) ∈ s.attended → ∀ buffer, run.Holds (k + 1) k (seen buffer) := by
  induction n with
  | zero =>
    refine ⟨⟨fun _ _ _ => none, []⟩, Eq.refl _, ?_, Eq.refl _, ?_⟩
    · intro buffer rank _ row _
      rw [SequenceRun.mirrored, cacheAfter, ite_self]
      exact Eq.refl _
    · intro k seen hmem
      exact absurd hmem List.not_mem_nil
  | succ n ih =>
    obtain ⟨s, hs, hcaches, hlog, hseen⟩ := ih
    obtain ⟨s', seen, hs', hattended, hnow, hafter⟩ := run.forward_ok hcaches
    refine ⟨s', ?_, hafter, ?_, ?_⟩
    · rw [SequenceRun.exec, hs]
      exact hs'
    · rw [hattended, List.map_append, hlog, List.range_succ]
      exact Eq.refl _
    · intro k seen' hmem
      rw [hattended] at hmem
      cases List.mem_append.mp hmem with
      | inl hold => exact hseen k seen' hold
      | inr hlast =>
        have heq := List.mem_singleton.mp hlast
        injection heq with hk hcache
        rw [hk, hcache]
        exact hnow

end Runs

section Completeness

variable {run : SequenceRun}

/-- The copy of a row is the last computed one exactly when the row has been exchanged since. -/
theorem SequenceRun.mirrored_eq_some_iff {row i : ℕ} (m k : ℕ) (hkm : k ≤ m)
    (hlast : cacheAfter run.batch m row = some i) :
    run.mirrored row k = some i ↔ ∃ j, i ≤ j ∧ j < k ∧ run.Exchanges j row := by
  have ⟨_, hmem, hnone⟩ := (cacheAfter_eq_some_iff m).mp hlast
  induction k with
  | zero =>
    constructor
    · intro h
      cases h
    · intro ⟨j, _, hj, _⟩
      exact absurd hj (Nat.not_lt_zero j)
  | succ k ih =>
    have hprev := ih (by omega)
    by_cases hexchange : run.Exchanges k row
    · have hmirrored : run.mirrored row (k + 1) = cacheAfter run.batch (k + 1) row :=
        if_pos hexchange
      rw [hmirrored, cacheAfter_eq_some_iff]
      constructor
      · intro h
        exact ⟨k, by omega, Nat.lt_succ_self k, hexchange⟩
      · intro ⟨j, hij, hjk, _⟩
        exact ⟨by omega, hmem, fun j' hj' hjk' => hnone j' hj' (by omega)⟩
    · have hmirrored : run.mirrored row (k + 1) = run.mirrored row k := if_neg hexchange
      rw [hmirrored]
      apply hprev.trans
      constructor
      · intro ⟨j, hij, hjk, hj⟩
        exact ⟨j, hij, by omega, hj⟩
      · intro ⟨j, hij, hjk, hj⟩
        have hne : j ≠ k := by
          intro heq
          rw [heq] at hj
          exact hexchange hj
        exact ⟨j, hij, by omega, hj⟩

/-- A row is complete at a rank exactly when it is present there. -/
theorem SequenceRun.Holds.row_iff {k rank row : ℕ} {rows : ℕ → Rows (ℕ × ℕ)}
    (h : run.Holds (k + 1) k rows) (hrank : rank < run.spSize) (hrow : row < run.seqLen) :
    (∃ i, cacheAfter run.batch (k + 1) row = some i ∧
        rows rank row = some (run.owner row, i)) ↔ run.Present k rank row := by
  have hmap : ∀ (x : Option ℕ) (i : ℕ),
      x.map (fun i => (run.owner row, i)) = some (run.owner row, i) ↔ x = some i := by
    intro x i
    cases x with
    | none => exact ⟨nofun, nofun⟩
    | some j =>
      constructor
      · intro heq
        injection heq with heq
        rw [(Prod.mk.inj heq).2]
      · intro heq
        rw [heq]
        exact Eq.refl _
  have hcache : ∀ i, rows rank row = some (run.owner row, i) ↔
      (if run.owner row = rank then cacheAfter run.batch (k + 1) row else run.mirrored row k) =
        some i := by
    intro i
    rw [h rank hrank row hrow, hmap]
  have hstep : ∀ i, cacheAfter run.batch (k + 1) row = some i →
      (rows rank row = some (run.owner row, i) ↔
        run.owner row = rank ∨ ∃ j, i ≤ j ∧ j < k ∧ run.Exchanges j row) := by
    intro i hi
    rw [hcache]
    by_cases howner : run.owner row = rank
    · rw [if_pos howner]
      exact ⟨fun _ => .inl howner, fun _ => hi⟩
    · rw [if_neg howner, run.mirrored_eq_some_iff (k + 1) k (Nat.le_succ k) hi]
      constructor
      · intro hj
        exact .inr hj
      · intro hj
        cases hj with
        | inl heq => exact absurd heq howner
        | inr hj => exact hj
  constructor
  · intro ⟨i, hi, hheld⟩
    have ⟨hik, hmem, hnone⟩ := (cacheAfter_eq_some_iff (k + 1)).mp hi
    exact ⟨i, by omega, hmem, fun j hj hjk => hnone j hj (by omega), (hstep i hi).mp hheld⟩
  · intro ⟨i, hik, hmem, hnone, hheld⟩
    have hi : cacheAfter run.batch (k + 1) row = some i :=
      (cacheAfter_eq_some_iff (k + 1)).mpr
        ⟨by omega, hmem, fun j hj hjk => hnone j hj (by omega)⟩
    exact ⟨i, hi, (hstep i hi).mpr hheld⟩

/-- Attention at a position of the batch finds its rows complete exactly when they are
present. -/
theorem SequenceRun.complete_iff {k rank p : ℕ} {seen : Caches}
    (h : ∀ buffer, run.Holds (k + 1) k (seen buffer)) (hrank : rank < run.spSize)
    (hp : p ∈ run.batch k) : run.Complete seen k rank p ↔ ∀ row ≤ p, run.Present k rank row := by
  have hcontext := run.inContext k p hp
  constructor
  · intro hcomplete row hrow
    have hmem : row ∈ attentionRows p := List.mem_range.mpr (by omega)
    exact ((h .k).row_iff hrank (by omega)).mp (hcomplete .k row hmem)
  · intro hpresent buffer row hmem
    have hrow : row ≤ p := Nat.le_of_lt_succ (List.mem_range.mp hmem)
    exact ((h buffer).row_iff hrank (by omega)).mpr (hpresent row hrow)

/-- The first forward that computes anything lacks row 0 on every rank but the first. -/
theorem SequenceRun.not_present_first {k : ℕ}
    (hfirst : ∀ j < k, run.batch j = []) : ¬run.Present k 1 0 := by
  intro ⟨i, hik, hmem, hnone, hheld⟩
  have hlast : i = k := by
    by_contra hne
    have hempty := hfirst i (by omega)
    rw [hempty] at hmem
    exact List.not_mem_nil hmem
  cases hheld with
  | inl howner =>
    unfold SequenceRun.owner at howner
    rw [Nat.zero_div] at howner
    omega
  | inr hexchanged =>
    have ⟨j, hij, hjk, _⟩ := hexchanged
    omega

end Completeness

/-- What attention finds. In every run each attention of a rank at a position finds all rows
up to it complete exactly when they are present, and this is so throughout a run exactly when
nothing at all is computed. -/
theorem complete_iff_present (run : SequenceRun) (n : ℕ) :
    ∃ s, run.exec n = .ok s ∧ s.attended.map Prod.fst = List.range n ∧
      (∀ k seen, (k, seen) ∈ s.attended → ∀ rank < run.spSize, ∀ p ∈ run.batch k,
        (run.Complete seen k rank p ↔ ∀ row ≤ p, run.Present k rank row)) ∧
      ((∀ k seen, (k, seen) ∈ s.attended → ∀ rank < run.spSize, ∀ p ∈ run.batch k,
        run.Complete seen k rank p) ↔ ∀ k < n, run.batch k = []) := by
  have ⟨s, hs, _, hlog, hseen⟩ := run.exec_ok n
  refine ⟨s, hs, hlog, ?_, ?_⟩
  · intro k seen hmem rank hrank p hp
    exact run.complete_iff (hseen k seen hmem) hrank hp
  · constructor
    · intro hall k
      induction k using Nat.strong_induction_on with
      | _ k ih =>
        intro hk
        by_contra hne
        have hmem : k ∈ s.attended.map Prod.fst := by
          rw [hlog]
          exact List.mem_range.mpr hk
        have ⟨⟨k', seen⟩, hin, heq⟩ := List.mem_map.mp hmem
        have hk' : k' = k := heq
        rw [hk'] at hin
        have ⟨p, hp⟩ := List.exists_mem_of_ne_nil _ hne
        have hone : 1 < run.spSize := run.two_le
        have hpresent := (run.complete_iff (hseen k seen hin) hone hp).mp
          (hall k seen hin 1 hone p hp) 0 (Nat.zero_le p)
        exact run.not_present_first (fun j hj => ih j hj (by omega)) hpresent
    · intro hempty k seen hin rank hrank p hp
      have hmem : k ∈ s.attended.map Prod.fst := List.mem_map.mpr ⟨(k, seen), hin, Eq.refl _⟩
      rw [hlog] at hmem
      rw [hempty k (List.mem_range.mp hmem)] at hp
      exact absurd hp List.not_mem_nil

/-- Two ranks with the default options that prefill two tokens at a time. -/
def prefillRun : SequenceRun where
  nNodes := 2
  spSize := 2
  two_le := by decide
  spSize_le := by decide
  seqLen := 128
  seqLen_mod := by decide
  options := ⟨true, false, true⟩
  accepted := by decide
  forwards _ := ⟨[0, 1], false⟩
  inContext _ := by decide

/-- In the first forward the second rank attends at position 0 without row 0. -/
theorem not_complete_prefill :
    ¬∀ (run : SequenceRun) (n : ℕ) (s : SpState), run.exec n = .ok s →
      ∀ k seen, (k, seen) ∈ s.attended → ∀ rank < run.spSize, ∀ p ∈ run.batch k,
        run.Complete seen k rank p := by
  intro h
  have ⟨s, hs, _, hlog, hseen⟩ := prefillRun.exec_ok 1
  have hmem : 0 ∈ s.attended.map Prod.fst := by
    rw [hlog]
    decide
  have ⟨⟨k, seen⟩, hin, heq⟩ := List.mem_map.mp hmem
  have hk : k = 0 := heq
  rw [hk] at hin
  have hp : 0 ∈ prefillRun.batch 0 := by decide
  have hone : 1 < prefillRun.spSize := by decide
  have hcomplete := h prefillRun 1 s hs 0 seen hin 1 hone 0 hp
  have hpresent := (prefillRun.complete_iff (hseen 0 seen hin) hone hp).mp hcomplete 0 (le_refl 0)
  exact prefillRun.not_present_first (fun j hj => absurd hj (Nat.not_lt_zero j)) hpresent

end LayerSkip.SequenceParallel
