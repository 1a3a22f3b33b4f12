import LayerSkip.StageRouting
import LayerSkip.KvCache
import Mathlib.Data.Nat.Init

/-!
# Rows of the caches under a stage skip

A stage that runs its executor writes the rows of the packet's positions in
every one of its layers. A skipped target writes none, and nothing writes them
later: after the first skip of a sequence every forward of the target reads a
row that this sequence has not written. All other stages have all rows.
-/

namespace LayerSkip.StageSkipKv

open NnTopology NnPipeline WorkerLlmInference StageNetwork StageRouting KvCache

variable {F E : Type} [Add F] [Sub F] [LE F] [DecidableLE F] [LT F] [DecidableLT F]

/-- Positions of the rows of a packet, as the position pipe is filled. -/
def positions (p : LlmControlPacket F) : List ℕ :=
  if p.positionMode = 1 then (p.batchPositions.take p.batchSize.toNat).map fun x => x.toNat
  else (List.range p.batchSize.toNat).map fun i => (p.position + i.toUInt32).toNat

/-- Positions of the packet of a forward of the root. -/
def callPositions (s : System F E) (k : ℕ) : List ℕ :=
  match s.root.calls[k]? with
  | none => []
  | some r => positions r.packet

/-- A stage has run its executor for a packet. The root always does. -/
def executed (s : System F E) (i k : ℕ) : Bool :=
  if i = 0 then decide (k < s.root.calls.length)
  else ((s.workers i).log[k]?).any fun e => e.forwarded

/-- Rows that a stage with these layers writes for a packet in a layer. -/
def writes (layers : ℕ → List ℕ) (s : System F E) (i layer k : ℕ) : List ℕ :=
  if layer ∈ layers i ∧ executed s i k then callPositions s k else []

/-- Packets `first` to `last` are one sequence: it starts at position 0 and
every packet goes on where the one before it ended. -/
structure Sequence (s : System F E) (first last : ℕ) : Prop where
  le : first ≤ last
  start : ∀ r, s.root.calls[first]? = some r → r.packet.position.toNat = 0
  word : ∀ (k : ℕ) r, first ≤ k → k ≤ last → s.root.calls[k]? = some r →
    r.packet.positionMode ≠ 1 ∧ r.packet.position.toNat + r.packet.batchSize.toNat < 2 ^ 32
  consecutive : ∀ (k : ℕ) r r', first ≤ k → k < last → s.root.calls[k]? = some r →
    s.root.calls[k + 1]? = some r' →
      r'.packet.position.toNat = r.packet.position.toNat + r.packet.batchSize.toNat

/-- Attention of a stage for a packet reads rows that this sequence has
written: in each of its layers, for each position of the packet, the rows up to
it were last written by forwards of the sequence at their positions. The copy
into the cache comes before attention in every layer. -/
def RowsComplete (layers : ℕ → List ℕ) (s : System F E) (i first k : ℕ) : Prop :=
  ∀ layer ∈ layers i, ∀ p ∈ callPositions s k, ∀ row ∈ attentionRows p,
    ∃ x, cacheAfter (writes layers s i layer) (k + 1) row = some x ∧ first ≤ x ∧ x ≤ k ∧
      row ∈ callPositions s x

variable {c : StageChain F E} {s : System F E} {layers : ℕ → List ℕ} {first last i k : ℕ}

section

omit [Add F] [Sub F] [LE F] [DecidableLE F] [LT F] [DecidableLT F]

theorem mem_positions {p : LlmControlPacket F} (hmode : p.positionMode ≠ 1)
    (hword : p.position.toNat + p.batchSize.toNat < 2 ^ 32) (row : ℕ) :
    row ∈ positions p ↔
      p.position.toNat ≤ row ∧ row < p.position.toNat + p.batchSize.toNat := by
  have hrow (x : ℕ) (hx : x < p.batchSize.toNat) :
      (p.position + x.toUInt32).toNat = p.position.toNat + x := by
    have hsmall : x.toUInt32.toNat = x := UInt32.toNat_ofNat_of_lt' (by
      change x < 2 ^ 32
      omega)
    rw [UInt32.toNat_add, hsmall, Nat.mod_eq_of_lt (by omega)]
  unfold positions
  rw [if_neg hmode]
  simp only [List.mem_map, List.mem_range]
  constructor
  · intro hmem
    obtain ⟨x, hx, hxr⟩ := hmem
    rw [hrow x hx] at hxr
    omega
  · intro hrange
    refine ⟨row - p.position.toNat, by omega, ?_⟩
    rw [hrow _ (by omega)]
    omega

theorem Sequence.mem_callPositions (h : Sequence s first last) (hf : first ≤ k) (hl : k ≤ last)
    {r : RootCall F} (hr : s.root.calls[k]? = some r) (row : ℕ) :
    row ∈ callPositions s k ↔ r.packet.position.toNat ≤ row ∧
      row < r.packet.position.toNat + r.packet.batchSize.toNat := by
  have hword := h.word k r hf hl hr
  unfold callPositions
  rw [hr]
  exact mem_positions hword.1 hword.2 row

/-- A packet of a sequence ends before a later one starts. -/
theorem Sequence.position_le (h : Sequence s first last) {x : ℕ} (hf : first ≤ x) (hx : x < k)
    (hl : k ≤ last) {r r' : RootCall F} (hr : s.root.calls[x]? = some r)
    (hr' : s.root.calls[k]? = some r') :
    r.packet.position.toNat + r.packet.batchSize.toNat ≤ r'.packet.position.toNat := by
  induction k, hx using Nat.le_induction generalizing r' with
  | base => exact Nat.le_of_eq (h.consecutive x r r' hf (by omega) hr hr').symm
  | succ k hk ih =>
    have hlen : k < s.root.calls.length := by
      have hbound := (List.getElem?_eq_some_iff.mp hr').1
      omega
    have hprev := List.getElem?_eq_getElem hlen
    have hone := ih (by omega) hprev
    have hnext := h.consecutive k _ r' (by omega) (by omega) hprev hr'
    omega

/-- Every row below the end of a packet belongs to a packet of the sequence. -/
theorem Sequence.covers (h : Sequence s first last) (hf : first ≤ k) (hl : k ≤ last)
    {r : RootCall F} (hr : s.root.calls[k]? = some r) {row : ℕ}
    (hrow : row < r.packet.position.toNat + r.packet.batchSize.toNat) :
    ∃ x, first ≤ x ∧ x ≤ k ∧ row ∈ callPositions s x := by
  induction k, hf using Nat.le_induction generalizing r with
  | base =>
    have hzero := h.start r hr
    refine ⟨first, Nat.le_refl _, Nat.le_refl _, ?_⟩
    rw [h.mem_callPositions (Nat.le_refl _) hl hr]
    omega
  | succ k hk ih =>
    by_cases hhere : r.packet.position.toNat ≤ row
    · refine ⟨k + 1, by omega, Nat.le_refl _, ?_⟩
      rw [h.mem_callPositions (by omega) hl hr]
      exact ⟨hhere, hrow⟩
    · have hlen : k < s.root.calls.length := by
        have hbound := (List.getElem?_eq_some_iff.mp hr).1
        omega
      have hprev := List.getElem?_eq_getElem hlen
      have hnext := h.consecutive k _ r hk (by omega) hprev hr
      obtain ⟨x, hx, hxk, hmem⟩ := ih (by omega) hprev (by omega)
      exact ⟨x, hx, by omega, hmem⟩

/-- A stage that has run for the whole sequence has all its rows. -/
theorem rowsComplete_of_executed (h : Sequence s first k) (hk : k < s.root.calls.length)
    (hall : ∀ x, first ≤ x → x ≤ k → executed s i x = true) : RowsComplete layers s i first k := by
  intro layer hlayer p hp row hrow
  have hr := List.getElem?_eq_getElem hk
  rw [h.mem_callPositions h.le (Nat.le_refl _) hr] at hp
  have hbelow : row < p + 1 := List.mem_range.mp hrow
  have hend : row < s.root.calls[k].packet.position.toNat +
      s.root.calls[k].packet.batchSize.toNat := by omega
  obtain ⟨x, hx, hxk, hmem⟩ := h.covers h.le (Nat.le_refl _) hr hend
  have hwrites : row ∈ writes layers s i layer x := by
    rw [writes, if_pos ⟨hlayer, hall x hx hxk⟩]
    exact hmem
  obtain ⟨y, hxy, hy⟩ := cacheAfter_written (k := k + 1) (by omega) hwrites
  obtain ⟨hyk, hin⟩ := cacheAfter_some hy
  refine ⟨y, hy, by omega, by omega, ?_⟩
  unfold writes at hin
  split at hin
  · exact hin
  · cases hin

/-- A stage that was skipped in the sequence lacks a row of every layer. -/
theorem not_rowsComplete (h : Sequence s first k) (hk : k < s.root.calls.length) {layer : ℕ}
    (hlayer : layer ∈ layers i)
    (hbatch : ∀ r ∈ s.root.calls, 0 < r.packet.batchSize.toNat) {x : ℕ} (hx : first ≤ x)
    (hxk : x < k) (hskip : executed s i x = false) : ¬RowsComplete layers s i first k := by
  intro hcomplete
  have hr := List.getElem?_eq_getElem hk
  have hlen : x < s.root.calls.length := by omega
  have hrx := List.getElem?_eq_getElem hlen
  have hpos := hbatch _ (List.getElem_mem hk)
  have hposx := hbatch _ (List.getElem_mem hlen)
  have hbefore := h.position_le hx hxk (Nat.le_refl _) hrx hr
  have hp : s.root.calls[k].packet.position.toNat ∈ callPositions s k := by
    rw [h.mem_callPositions h.le (Nat.le_refl _) hr]
    omega
  have hrow : s.root.calls[x].packet.position.toNat ∈
      attentionRows s.root.calls[k].packet.position.toNat := by
    rw [attentionRows, List.mem_range]
    omega
  obtain ⟨y, hy, hfy, hyk, hmem⟩ := hcomplete layer hlayer _ hp _ hrow
  have hleny : y < s.root.calls.length := by omega
  have hry := List.getElem?_eq_getElem hleny
  rw [h.mem_callPositions hfy hyk hry] at hmem
  have hsame : y = x := by
    rcases Nat.lt_trichotomy y x with hlt | heq | hgt
    · have hle := h.position_le hfy hlt (by omega) hry hrx
      omega
    · exact heq
    · have hle := h.position_le hx hgt hyk hrx hry
      omega
  have hin := (cacheAfter_some hy).2
  rw [hsame, writes, if_neg] at hin
  · cases hin
  · intro hall
    rw [hskip] at hall
    exact absurd hall.2 Bool.false_ne_true

end

/-- A stage that has come past a packet has run for it, unless it was skipped. -/
theorem executed_iff (h : s.Reachable c) {x : ℕ} (hi : i < c.ppSize.toNat)
    (hrun : executed s i k = true) (hx : x ≤ k) :
    executed s i x = true ↔ ¬(i = c.options.stageSkipTarget.toNat ∧
      c.options.stageSkipEnabled = true ∧ accepted c s x = true) := by
  have htpos := c.target_pos
  unfold executed at hrun ⊢
  rcases Nat.eq_zero_or_pos i with hz | hpos
  · rw [if_pos hz] at hrun ⊢
    have hlen := of_decide_eq_true hrun
    constructor
    · intro _ hall
      omega
    · intro _
      exact decide_eq_true (by omega)
  · have hne : ¬i = 0 := by omega
    rw [if_neg hne] at hrun ⊢
    have hk : k < (s.workers i).log.length := by
      by_contra hge
      rw [List.getElem?_eq_none (Nat.not_lt.mp hge)] at hrun
      cases hrun
    have hlen : x < (s.workers i).log.length := by omega
    have hentry := List.getElem?_eq_getElem hlen
    have hskipped := ((routingInv_of_reachable h).entryRouted hpos hi hentry).skipped
    rw [hentry, Option.any_some, ← hskipped, Bool.not_eq_false]

theorem batchSize_pos (h : s.Reachable c) (r : RootCall F) (hr : r ∈ s.root.calls) :
    0 < r.packet.batchSize.toNat := by
  obtain ⟨x, hx, hget⟩ := List.getElem_of_mem hr
  have hcall := (routingInv_of_reachable h).calls x r (by rw [List.getElem?_eq_getElem hx, hget])
  exact hcall.1.batch_pos

/-- A packet for which a stage has run is one of the root's. -/
theorem lt_calls_of_executed (h : s.Reachable c) (hi : i < c.ppSize.toNat)
    (hrun : executed s i k = true) : k < s.root.calls.length := by
  unfold executed at hrun
  split at hrun
  · exact of_decide_eq_true hrun
  · rename_i hne
    have hle := (routingInv_of_reachable h).log_le_calls (Nat.pos_of_ne_zero hne) hi
    by_contra hge
    rw [List.getElem?_eq_none (by omega)] at hrun
    cases hrun

/-- Over any run of a chain, whenever a stage runs its executor for a packet of
a sequence, its caches hold all rows of the sequence that attention reads,
exactly unless the stage is the target and an earlier packet of the sequence
was accepted for a skip. -/
theorem rowsComplete_iff (h : s.Reachable c) (layers : ℕ → List ℕ) (hi : i < c.ppSize.toNat)
    (hseq : Sequence s first k) (hrun : executed s i k = true) :
    RowsComplete layers s i first k ↔
      ¬(i = c.options.stageSkipTarget.toNat ∧ layers i ≠ [] ∧ c.options.stageSkipEnabled = true ∧
        ∃ x, first ≤ x ∧ x < k ∧ accepted c s x = true) := by
  have hk := lt_calls_of_executed h hi hrun
  constructor
  · intro hcomplete hskip
    obtain ⟨htarget, hlayers, henabled, x, hx, hxk, hacc⟩ := hskip
    obtain ⟨layer, hlayer⟩ := List.exists_mem_of_ne_nil _ hlayers
    have hno : executed s i x = false := by
      by_contra hyes
      rw [Bool.not_eq_false, executed_iff h hi hrun (by omega)] at hyes
      exact hyes ⟨htarget, henabled, hacc⟩
    exact not_rowsComplete hseq hk hlayer (batchSize_pos h) hx hxk hno hcomplete
  · intro hgood
    by_cases hlayers : layers i = []
    · intro layer hlayer
      rw [hlayers] at hlayer
      cases hlayer
    · refine rowsComplete_of_executed hseq hk fun x hx hxk => ?_
      rcases Nat.lt_or_eq_of_le hxk with hlt | heq
      · rw [executed_iff h hi hrun hxk]
        intro hskip
        exact hgood ⟨hskip.1, hlayers, hskip.2.1, x, hx, hlt, hskip.2.2⟩
      · rw [heq]
        exact hrun

/-- A third token after the two: skips in a row are limited to one, so stage 2
takes its marker for the second token and then runs for the third. -/
def threeTokens : List (Label (List NnUint)) :=
  twoTokens ++ [.control 2, .activation 2 1] ++ wordStart 2 ++
    [.write 1, .control 2, .activation 2 1]

/-- What has been run after the three tokens. -/
theorem threeTokens_run :
    ∃ s, (System.initial wordChain wordArgs).steps wordChain threeTokens = some s ∧
      Sequence s 0 2 ∧ s.root.calls.length = 3 ∧ (∀ r ∈ s.root.calls, 0 < r.packet.batchSize.toNat) ∧
        executed s 1 2 = true ∧ executed s 2 1 = false ∧ executed s 2 2 = true := by
  have hends : ((System.initial wordChain wordArgs).steps wordChain threeTokens).map (fun s =>
      (s.root.calls.map fun r => (r.packet.position, r.packet.batchSize, r.packet.positionMode),
        [executed s 1 2, executed s 2 1, executed s 2 2])) =
          some ([(0, 1, 0), (1, 1, 0), (2, 1, 0)], [true, false, true]) := by
    decide
  obtain ⟨s, hs, hfacts⟩ := Option.map_eq_some_iff.mp hends
  injection hfacts with hcalls hruns
  injection hruns with h₁ hruns
  injection hruns with h₂ hruns
  injection hruns with h₃
  have hlen : s.root.calls.length = 3 := by
    have hmap := congrArg List.length hcalls
    rwa [List.length_map] at hmap
  have hcall (k : ℕ) (r : RootCall NnUint) (hr : s.root.calls[k]? = some r) :
      r.packet.position.toNat = k ∧ r.packet.batchSize = 1 ∧ r.packet.positionMode = 0 := by
    have hk := congrArg (fun xs => xs[k]?) hcalls
    rw [List.getElem?_map, hr, Option.map_some] at hk
    have hbound := (List.getElem?_eq_some_iff.mp hr).1
    rw [hlen] at hbound
    match k with
    | 0 | 1 | 2 =>
      injection hk with hk
      injection hk with hposition hrest
      injection hrest with hbatch hmode
      exact ⟨by rw [hposition]; rfl, hbatch, hmode⟩
    | k + 3 => omega
  refine ⟨s, hs, ⟨by omega, fun r hr => (hcall 0 r hr).1, fun k r _ hk hr => ?_,
    fun k r r' _ _ hr hr' => ?_⟩, hlen, fun r hr => ?_, h₁, h₂, h₃⟩
  · obtain ⟨hposition, hbatch, hmode⟩ := hcall k r hr
    have hone : (1 : NnUint).toNat = 1 := rfl
    rw [hposition, hbatch, hmode, hone]
    exact ⟨by decide, by omega⟩
  · rw [(hcall k r hr).1, (hcall k r hr).2.1, (hcall (k + 1) r' hr').1]
    rfl
  · obtain ⟨k, hk, hget⟩ := List.getElem_of_mem hr
    rw [(hcall k r (by rw [List.getElem?_eq_getElem hk, hget])).2.1]
    exact Nat.one_pos

/-- Stage 1 has all rows for the third token. -/
theorem rowsComplete_iff_three :
    ∃ s, (System.initial wordChain wordArgs).steps wordChain threeTokens = some s ∧
      RowsComplete (fun _ => [0]) s 1 0 2 := by
  obtain ⟨s, hs, hseq, -, -, hrun, -⟩ := threeTokens_run
  refine ⟨s, hs, (rowsComplete_iff ⟨wordArgs, threeTokens, hs⟩ (fun _ => [0]) (by decide) hseq
    hrun).mpr ?_⟩
  intro hskip
  exact absurd hskip.1 (by decide)

/-- Stage 2 has not: not every run keeps all rows. -/
theorem not_rowsComplete_three :
    ¬∀ (s : System NnUint (List NnUint)), s.Reachable wordChain → ∀ layers i first k, i < 4 →
      Sequence s first k → executed s i k = true → RowsComplete layers s i first k := by
  intro hclaim
  obtain ⟨s, hs, hseq, hlen, hbatch, -, hskip, hrun⟩ := threeTokens_run
  have hcomplete := hclaim s ⟨wordArgs, threeTokens, hs⟩ (fun _ => [0]) 2 0 2 (by decide) hseq hrun
  have hlayer : 0 ∈ (fun _ : ℕ => [0]) 2 := List.mem_singleton.mpr rfl
  exact not_rowsComplete hseq (by omega) hlayer hbatch (Nat.zero_le 1) (by decide) hskip hcomplete

end LayerSkip.StageSkipKv
