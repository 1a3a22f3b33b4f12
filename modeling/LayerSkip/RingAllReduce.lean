import LayerSkip.StarAllReduce
import Mathlib.Algebra.BigOperators.Group.Finset.Basic

/-!
# What the ring all-reduce computes

The reduce-scatter loop leaves rank `r` with the full sum of chunk `r + 1`, but
the all-gather loop starts by sending chunk `r`. Chunk `c` of every rank ends as
what rank `c` started with, so the result is the sum exactly when the other
ranks' values of each chunk cancel. Every schedule ends there.
-/

namespace LayerSkip.RingAllReduce

open RandomDescent StreamNetwork NodeMemory NnNetwork StarAllReduce Relation

variable {α : Type*}

section Chunks

/-- Memory whose region from `base` on is `n` chunks of `m` cells each. -/
def chunkMem (base m n : ℕ) (v : ℕ → ℕ → α) (mem : ℕ → α) : ℕ → α := fun a =>
  if base ≤ a ∧ a < base + m * n then v ((a - base) / m) ((a - base) % m) else mem a

variable {base m n : ℕ} {mem : ℕ → α}

theorem chunkMem_at (v : ℕ → ℕ → α) {c i : ℕ} (hc : c < n) (hi : i < m) :
    chunkMem base m n v mem (base + m * c + i) = v c i := by
  have hle : m * c + m ≤ m * n := by
    calc m * c + m = m * (c + 1) := (Nat.mul_succ m c).symm
      _ ≤ m * n := Nat.mul_le_mul_left m hc
  have hin : base ≤ base + m * c + i ∧ base + m * c + i < base + m * n := by omega
  have hsub : base + m * c + i - base = i + m * c := by omega
  unfold chunkMem
  rw [if_pos hin, hsub, Nat.add_mul_div_left _ _ (by omega), Nat.add_mul_mod_self_left,
    Nat.div_eq_of_lt hi, Nat.mod_eq_of_lt hi, Nat.zero_add]

theorem readCells_chunkMem (v : ℕ → ℕ → α) {c : ℕ} (hc : c < n) :
    readCells (chunkMem base m n v mem) (base + m * c) m = (List.range m).map (v c) := by
  refine List.map_congr_left fun i hi => ?_
  exact chunkMem_at v hc (List.mem_range.mp hi)

theorem chunkMem_congr {v w : ℕ → ℕ → α} (h : ∀ c < n, ∀ i < m, v c i = w c i) :
    chunkMem base m n v mem = chunkMem base m n w mem := by
  funext a
  unfold chunkMem
  by_cases hin : base ≤ a ∧ a < base + m * n
  · have hm : 0 < m := by
      rcases Nat.eq_zero_or_pos m with hz | hp
      · rw [hz, Nat.zero_mul] at hin
        omega
      · exact hp
    have hdiv : (a - base) / m < n := Nat.div_lt_of_lt_mul (by omega)
    rw [if_pos hin, if_pos hin, h _ hdiv _ (Nat.mod_lt _ hm)]
  · rw [if_neg hin, if_neg hin]

theorem chunkMem_self : chunkMem base m n (fun c i => mem (base + m * c + i)) mem = mem := by
  funext a
  unfold chunkMem
  split
  · rename_i hin
    have hdiv := Nat.div_add_mod (a - base) m
    dsimp only
    rw [Nat.add_assoc, hdiv, Nat.add_sub_cancel' hin.1]
  · rfl

/-- Writing a whole chunk replaces that chunk. -/
theorem writeCells_chunkMem (v : ℕ → ℕ → α) (w : ℕ → α) {c : ℕ} (hc : c < n) :
    writeCells (chunkMem base m n v mem) (base + m * c) ((List.range m).map w) =
      chunkMem base m n (Function.update v c w) mem := by
  have hle : m * c + m ≤ m * n := by
    calc m * c + m = m * (c + 1) := (Nat.mul_succ m c).symm
      _ ≤ m * n := Nat.mul_le_mul_left m hc
  funext a
  by_cases hin : base + m * c ≤ a ∧ a < base + m * c + m
  · obtain ⟨i, rfl⟩ := Nat.exists_eq_add_of_le hin.1
    have hi : i < m := by omega
    rw [chunkMem_at _ hc hi, Function.update_self]
    exact writeCells_inside _ (by simp [hi])
  · rw [writeCells_outside _ (by simp; omega)]
    unfold chunkMem
    by_cases hreg : base ≤ a ∧ a < base + m * n
    · have hm : 0 < m := by
        rcases Nat.eq_zero_or_pos m with hz | hp
        · rw [hz, Nat.zero_mul] at hreg
          omega
        · exact hp
      have hne : (a - base) / m ≠ c := by
        rintro rfl
        have hdiv := Nat.div_add_mod (a - base) m
        have hmod := Nat.mod_lt (a - base) hm
        omega
      rw [if_pos hreg, if_pos hreg, Function.update_of_ne hne]
    · rw [if_neg hreg, if_neg hreg]

end Chunks

section Ranks

/-- A remainder below twice the modulus. -/
theorem mod_of_lt_two_mul {a n : ℕ} (h : a < 2 * n) : a % n = if a < n then a else a - n := by
  split
  · exact Nat.mod_eq_of_lt (by omega)
  · rw [Nat.mod_eq_sub_mod (by omega), Nat.mod_eq_of_lt (by omega)]

/-- The next rank around the ring. -/
def succRank (n r : ℕ) : ℕ := (r + 1) % n

/-- The previous rank around the ring. -/
def predRank (n r : ℕ) : ℕ := (r + n - 1) % n

variable {n r : ℕ}

theorem succRank_eq (h : r < n) : succRank n r = if r + 1 < n then r + 1 else 0 := by
  unfold succRank
  split
  · exact Nat.mod_eq_of_lt (by omega)
  · rw [show r + 1 = n by omega, Nat.mod_self]

theorem predRank_eq (h : r < n) : predRank n r = if r = 0 then n - 1 else r - 1 := by
  have hlt : r + n - 1 < 2 * n := by omega
  rw [predRank, mod_of_lt_two_mul hlt]
  split_ifs <;> omega

theorem succRank_lt (h : r < n) : succRank n r < n := Nat.mod_lt _ (by omega)

theorem predRank_lt (h : r < n) : predRank n r < n := Nat.mod_lt _ (by omega)

theorem predRank_succRank (h : r < n) : predRank n (succRank n r) = r := by
  by_cases hl : r + 1 < n
  · rw [succRank_eq h, if_pos hl, predRank_eq hl, if_neg (Nat.succ_ne_zero r)]
    exact Nat.add_sub_cancel r 1
  · rw [succRank_eq h, if_neg hl, predRank_eq (by omega), if_pos rfl]
    omega

theorem succRank_ne (hn : 2 ≤ n) (h : r < n) : succRank n r ≠ r := by
  rw [succRank_eq h]
  split_ifs <;> omega

theorem predRank_ne (hn : 2 ≤ n) (h : r < n) : predRank n r ≠ r := by
  rw [predRank_eq h]
  split_ifs <;> omega

theorem eq_succRank_of_predRank {q : ℕ} (hr : r < n) (hq : q < n) (h : predRank n q = r) :
    q = succRank n r := by
  rw [predRank_eq hq] at h
  rw [succRank_eq hr]
  split_ifs at h ⊢ <;> omega

end Ranks

section Round

variable {cap : ℕ} (start n base m step : ℕ) (mem : ℕ → ℕ → α)
  (store : ℕ → (ℕ → α) → List α → ℕ → α) (v w : ℕ → ℕ → ℕ → α) (rest : ℕ → Program α)
  (sent : ℕ → Bool)

/-- The send of a rank in one step. -/
def sendBlock (r : ℕ) : Block ℕ (ℕ → α) α :=
  sendTo (start + succRank n r) fun mem => readCells mem (base + m * sendChunkIndex r n step) m

/-- The receive of a rank in one step. -/
def recvBlock (r : ℕ) : Block ℕ (ℕ → α) α := recvFrom (start + predRank n r) m (store r)

/-- Blocks of the step that a rank has still to run when the ranks in `sent`
have sent. -/
def pending (r : ℕ) : Program α :=
  let send := if sent r then [] else [sendBlock start n base m step r]
  let recv := if sent (predRank n r) then [] else [recvBlock start n m store r]
  if r % 2 = 0 then send ++ recv else recv ++ send

/-- Memory of a rank whose chunks hold the given values. -/
def rankMem (r : ℕ) : ℕ → α := chunkMem base m n (v r) (mem (start + r))

/-- A step under way: the ranks in `sent` have sent, their successors have
received and hold the values `w`, all others still hold `v`. -/
def roundNet : Net ℕ (ℕ → α) α where
  party node :=
    if start ≤ node ∧ node < start + n then
      ⟨rankMem start n base m mem (if sent (predRank n (node - start)) then w else v) (node - start),
        .idle, pending start n base m step store sent (node - start) ++ rest (node - start)⟩
    else ⟨mem node, .idle, []⟩
  link _ := []

variable {start n base m step mem store v w rest sent}

theorem roundNet_party {r : ℕ} (h : r < n) :
    (roundNet start n base m step mem store v w rest sent).party (start + r) =
      ⟨rankMem start n base m mem (if sent (predRank n r) then w else v) r, .idle,
        pending start n base m step store sent r ++ rest r⟩ := by
  have hin : start ≤ start + r ∧ start + r < start + n := by omega
  simp only [roundNet, if_pos hin, Nat.add_sub_cancel_left]

/-- A rank whose turn it is to send opens with its send. -/
theorem pending_sender (hn : 2 ≤ n) {r : ℕ} (hr : r < n) (hs : sent r = false)
    (hturn : r % 2 = 0 ∨ sent (predRank n r) = true) :
    pending start n base m step store sent r = sendBlock start n base m step r ::
      pending start n base m step store (Function.update sent r true) r := by
  have hne := predRank_ne hn hr
  simp only [pending, Function.update_self, Function.update_of_ne hne, hs]
  rcases hturn with he | hp
  · simp [he]
  · simp [hp]

/-- A rank whose turn it is to receive opens with its receive. -/
theorem pending_receiver (hn : 2 ≤ n) {r : ℕ} (hr : r < n) (hs : sent r = false)
    (hturn : succRank n r % 2 ≠ 0 ∨ sent (succRank n r) = true) :
    pending start n base m step store sent (succRank n r) =
      recvBlock start n m store (succRank n r) ::
        pending start n base m step store (Function.update sent r true) (succRank n r) := by
  have hne := succRank_ne hn hr
  simp only [pending, predRank_succRank hr, Function.update_self, Function.update_of_ne hne, hs]
  rcases hturn with ho | hq
  · simp [ho]
  · simp [hq]

/-- A send that concerns neither the rank nor its predecessor leaves the rank's
pending blocks. -/
theorem pending_other {r q : ℕ} (hq : q ≠ r) (hp : predRank n q ≠ r) :
    pending start n base m step store (Function.update sent r true) q =
      pending start n base m step store sent q := by
  simp only [pending, Function.update_of_ne hq, Function.update_of_ne hp]

/-- One rank sends its chunk and its successor stores it. -/
theorem roundNet_serve (hc : 0 < cap) (hn : 2 ≤ n) {r : ℕ} (hr : r < n) (hs : sent r = false)
    (hsend : r % 2 = 0 ∨ sent (predRank n r) = true)
    (hrecv : succRank n r % 2 ≠ 0 ∨ sent (succRank n r) = true)
    (hchunk : sendChunkIndex r n step < n)
    (hkeep : w r (sendChunkIndex r n step) = v r (sendChunkIndex r n step))
    (hstore : store (succRank n r) (rankMem start n base m mem v (succRank n r))
      ((List.range m).map (v r (sendChunkIndex r n step))) =
        rankMem start n base m mem w (succRank n r)) :
    ReflTransGen (Step cap) (roundNet start n base m step mem store v w rest sent)
      (roundNet start n base m step mem store v w rest (Function.update sent r true)) := by
  have hq := succRank_lt hr
  have hqr := succRank_ne hn hr
  have hpr := predRank_ne hn hr
  set net := roundNet start n base m step mem store v w rest sent with hnet
  set after := pending start n base m step store (Function.update sent r true) with hafter
  have hsender : net.party (start + r) =
      ⟨rankMem start n base m mem (if sent (predRank n r) then w else v) r, .idle,
        sendBlock start n base m step r :: (after r ++ rest r)⟩ := by
    rw [hnet, roundNet_party hr, pending_sender hn hr hs hsend, List.cons_append]
  have hreceiver : net.party (start + succRank n r) =
      ⟨rankMem start n base m mem v (succRank n r), .idle,
        recvBlock start n m store (succRank n r) ::
          (after (succRank n r) ++ rest (succRank n r))⟩ := by
    rw [hnet, roundNet_party hq, pending_receiver hn hr hs hrecv, List.cons_append,
      predRank_succRank hr, hs]
    rfl
  have hdata : readCells (rankMem start n base m mem (if sent (predRank n r) then w else v) r)
      (base + m * sendChunkIndex r n step) m =
        (List.range m).map (v r (sendChunkIndex r n step)) := by
    rw [rankMem, readCells_chunkMem _ hchunk]
    split
    · rw [hkeep]
    · rfl
  have hrun := exchange hc (show start + r ≠ start + succRank n r by omega) hsender hreceiver
    (fun q hq => if_neg hq)
    (fun q hq => if_neg (by rw [predRank_succRank hr]; exact hq))
    (by rw [if_pos (by rw [predRank_succRank hr]), if_pos rfl, readCells_length]) rfl
  convert hrun using 1
  refine Net.ext (funext fun node => ?_) rfl
  by_cases hin : start ≤ node ∧ node < start + n
  · obtain ⟨p, rfl⟩ := Nat.exists_eq_add_of_le hin.1
    have hp : p < n := by omega
    rw [roundNet_party hp]
    by_cases hpq : p = succRank n r
    · subst hpq
      rw [Net.setParty_party, Function.update_self]
      simp only [predRank_succRank hr, Function.update_self, if_true, hdata]
      rw [hstore]
    · have hne : start + p ≠ start + succRank n r := by omega
      have hpp : predRank n p ≠ r := fun he => hpq (eq_succRank_of_predRank hr hp he)
      rw [Net.setParty_party_of_ne _ hne]
      by_cases hpr : p = r
      · subst hpr
        rw [Net.setParty_party, Function.update_self]
        rw [Function.update_of_ne hpp]
      · have hne' : start + p ≠ start + r := by omega
        rw [Net.setParty_party_of_ne _ hne', hnet, roundNet_party hp]
        simp only [Function.update_of_ne hpp, pending_other hpr hpp]
  · have hs : node ≠ start + succRank n r := by omega
    have hr : node ≠ start + r := by omega
    rw [Net.setParty_party_of_ne _ hs, Net.setParty_party_of_ne _ hr]
    simp only [hnet, roundNet, if_neg hin]

/-- A step under way depends on who of the group has sent. -/
theorem roundNet_congr {sent' : ℕ → Bool} (h : ∀ r < n, sent r = sent' r) :
    roundNet start n base m step mem store v w rest sent =
      roundNet start n base m step mem store v w rest sent' := by
  refine Net.ext (funext fun node => ?_) rfl
  simp only [roundNet]
  by_cases hin : start ≤ node ∧ node < start + n
  · have hr : node - start < n := by omega
    have hs := h _ hr
    have hp := h _ (predRank_lt hr)
    simp only [if_pos hin, pending, hs, hp]
  · simp only [if_neg hin]

variable (start n base m step mem store v w rest) in
/-- What one step needs of the values before and after it: ranks keep the
chunk they send, and storing the predecessor's chunk gives the new values. -/
structure StepValues : Prop where
  /-- The chunk sent exists. -/
  chunk : ∀ r < n, sendChunkIndex r n step < n
  /-- A rank keeps the chunk it sends. -/
  keep : ∀ r < n, w r (sendChunkIndex r n step) = v r (sendChunkIndex r n step)
  /-- The successor's memory after its receive. -/
  stored : ∀ r < n, store (succRank n r) (rankMem start n base m mem v (succRank n r))
    ((List.range m).map (v r (sendChunkIndex r n step))) =
      rankMem start n base m mem w (succRank n r)

/-- The even ranks below `k` have sent. -/
def evenSent (k r : ℕ) : Bool := decide (r % 2 = 0 ∧ r < k)

/-- The even ranks and the odd ranks below `k` have sent. -/
def oddSent (k r : ℕ) : Bool := decide (r % 2 = 0 ∨ r < k)

/-- Even ranks send in increasing order. With an odd number of ranks the last
one is even and its successor, rank 0, has already sent. -/
theorem round_even (hc : 0 < cap) (hn : 2 ≤ n)
    (hv : StepValues start n base m step mem store v w) {k : ℕ} (hk : k < n) :
    ReflTransGen (Step cap) (roundNet start n base m step mem store v w rest (evenSent k))
      (roundNet start n base m step mem store v w rest (evenSent (k + 1))) := by
  by_cases he : k % 2 = 0
  · have hnot : evenSent k k = false := by simp [evenSent]
    have hturn : succRank n k % 2 ≠ 0 ∨ evenSent k (succRank n k) = true := by
      rw [succRank_eq hk]
      by_cases hl : k + 1 < n
      · rw [if_pos hl]
        exact .inl (by omega)
      · have hpos : 0 < k := by omega
        rw [if_neg hl]
        exact .inr (by simp [evenSent, hpos])
    have hnext : Function.update (evenSent k) k true = evenSent (k + 1) := by
      funext r
      by_cases hr : r = k
      · simp [evenSent, hr, he]
      · have hiff : r < k + 1 ↔ r < k := by omega
        simp only [Function.update_of_ne hr, evenSent, hiff]
    rw [← hnext]
    exact roundNet_serve hc hn hk hnot (.inl he) hturn (hv.chunk k hk) (hv.keep k hk)
      (hv.stored k hk)
  · have hsame : evenSent (k + 1) = evenSent k := by
      funext r
      have hiff : (r % 2 = 0 ∧ r < k + 1) ↔ (r % 2 = 0 ∧ r < k) := by
        constructor
        · intro h
          have hne : r ≠ k := fun hr => he (hr ▸ h.1)
          omega
        · intro h
          omega
      simp only [evenSent, hiff]
    rw [hsame]

/-- Then odd ranks send: all even ranks are ready to receive. -/
theorem round_odd (hc : 0 < cap) (hn : 2 ≤ n)
    (hv : StepValues start n base m step mem store v w) {k : ℕ} (hk : k < n) :
    ReflTransGen (Step cap) (roundNet start n base m step mem store v w rest (oddSent k))
      (roundNet start n base m step mem store v w rest (oddSent (k + 1))) := by
  by_cases he : k % 2 = 0
  · have hsame : oddSent (k + 1) = oddSent k := by
      funext r
      have hiff : (r % 2 = 0 ∨ r < k + 1) ↔ (r % 2 = 0 ∨ r < k) := by omega
      simp only [oddSent, hiff]
    rw [hsame]
  · have hnot : oddSent k k = false := by simp [oddSent, he]
    have hready : oddSent k (predRank n k) = true := by
      have hpred : predRank n k % 2 = 0 := by
        rw [predRank_eq hk]
        split_ifs <;> omega
      simp [oddSent, hpred]
    have hturn : oddSent k (succRank n k) = true := by
      have hsucc : succRank n k % 2 = 0 := by
        rw [succRank_eq hk]
        split_ifs <;> omega
      simp [oddSent, hsucc]
    have hnext : Function.update (oddSent k) k true = oddSent (k + 1) := by
      funext r
      by_cases hr : r = k
      · simp [oddSent, hr]
      · have hiff : r < k + 1 ↔ r < k := by omega
        simp only [Function.update_of_ne hr, oddSent, hiff]
    rw [← hnext]
    exact roundNet_serve hc hn hk hnot (.inr hready) (.inr hturn) (hv.chunk k hk) (hv.keep k hk)
      (hv.stored k hk)

/-- A whole step of the ring. -/
theorem round (hc : 0 < cap) (hn : 2 ≤ n)
    (hv : StepValues start n base m step mem store v w) :
    ReflTransGen (Step cap) (roundNet start n base m step mem store v w rest fun _ => false)
      (roundNet start n base m step mem store v w rest fun _ => true) := by
  have heven := reach_of_steps (fun k => roundNet start n base m step mem store v w rest (evenSent k))
    n fun k hk => round_even hc hn hv hk
  have hodd := reach_of_steps (fun k => roundNet start n base m step mem store v w rest (oddSent k))
    n fun k hk => round_odd hc hn hv hk
  have hfirst : evenSent 0 = fun _ => false := by
    funext r
    simp [evenSent]
  have hmid : roundNet start n base m step mem store v w rest (evenSent n) =
      roundNet start n base m step mem store v w rest (oddSent 0) :=
    roundNet_congr fun r hr => by simp [evenSent, oddSent, hr]
  have hlast : roundNet start n base m step mem store v w rest (oddSent n) =
      roundNet start n base m step mem store v w rest fun _ => true :=
    roundNet_congr fun r hr => by simp [oddSent, hr]
  rw [hfirst, hmid] at heven
  rw [hlast] at hodd
  exact heven.trans hodd

variable (start n base m mem v) in
/-- All members idle between two steps. -/
def stateNet (prog : ℕ → Program α) : Net ℕ (ℕ → α) α :=
  groupNet start (start + n) (fun node => prog (node - start)) fun node =>
    if start ≤ node ∧ node < start + n then rankMem start n base m mem v (node - start) else mem node

variable (start n base m step store) in
/-- The blocks of a rank in one step. -/
def stepBlocks (r : ℕ) : Program α := pending start n base m step store (fun _ => false) r

/-- Running one step of every rank. -/
theorem stateNet_step (hc : 0 < cap) (hn : 2 ≤ n) (rest : ℕ → Program α)
    (hv : StepValues start n base m step mem store v w) :
    ReflTransGen (Step cap)
      (stateNet start n base m mem v fun r => stepBlocks start n base m step store r ++ rest r)
      (stateNet start n base m mem w rest) := by
  have hbefore : roundNet start n base m step mem store v w rest (fun _ => false) =
      stateNet start n base m mem v fun r => stepBlocks start n base m step store r ++ rest r := by
    refine Net.ext (funext fun node => ?_) rfl
    simp only [roundNet, stateNet, groupNet]
    by_cases hin : start ≤ node ∧ node < start + n
    · simp only [if_pos hin, stepBlocks, Bool.false_eq_true, if_false]
    · simp only [if_neg hin]
  have hafter : roundNet start n base m step mem store v w rest (fun _ => true) =
      stateNet start n base m mem w rest := by
    refine Net.ext (funext fun node => ?_) rfl
    simp only [roundNet, stateNet, groupNet]
    by_cases hin : start ≤ node ∧ node < start + n
    · simp only [if_pos hin, pending, if_true]
      split <;> rfl
    · simp only [if_neg hin]
  rw [← hbefore, ← hafter]
  exact round hc hn hv

/-- Running several steps of every rank. -/
theorem stateNet_steps (hc : 0 < cap) (hn : 2 ≤ n)
    (stores : ℕ → ℕ → (ℕ → α) → List α → ℕ → α) (values : ℕ → ℕ → ℕ → ℕ → α)
    (rest : ℕ → Program α) (k : ℕ)
    (hv : ∀ s < k, StepValues start n base m s mem (stores s) (values s) (values (s + 1))) :
    ReflTransGen (Step cap)
      (stateNet start n base m mem (values 0) fun r =>
        ((List.range k).flatMap fun s => stepBlocks start n base m s (stores s) r) ++ rest r)
      (stateNet start n base m mem (values k) rest) := by
  induction k generalizing rest with
  | zero => exact .refl
  | succ k ih =>
    have hfirst := ih (fun r => stepBlocks start n base m k (stores k) r ++ rest r)
      fun s hs => hv s (by omega)
    have hlast := stateNet_step hc hn rest (hv k (by omega))
    simp only [List.range_succ, List.flatMap_append, List.flatMap_singleton, List.append_assoc]
    exact hfirst.trans hlast

/-- One step of the source's loops is the step of the model. -/
theorem ringStep_eq (start base m s : ℕ) {r : ℕ} (hn : 2 ≤ n) (hr : r < n)
    (store : ℕ → (ℕ → α) → List α → ℕ → α) :
    ringStep (start + r) start n base (sizeofFloat * m) s (store r) =
      stepBlocks start n base m s store r := by
  have hlen : sizeofFloat * m / sizeofFloat = m := Nat.mul_div_cancel_left m (by decide)
  have hsucc : start + succRank n r ≠ start + r := by
    have := succRank_ne hn hr
    omega
  have hpred : start + predRank n r ≠ start + r := by
    have := predRank_ne hn hr
    omega
  have haddr : sizeofFloat * m * sendChunkIndex r n s / sizeofFloat = m * sendChunkIndex r n s := by
    rw [Nat.mul_assoc, Nat.mul_div_cancel_left _ (by decide)]
  have hsend := writeMany_single (α := α) hsucc fun mem =>
    readCells_length mem (base + m * sendChunkIndex r n s) m
  have hrecv := readMany_single (α := α) hpred m (store r)
  unfold succRank at hsend
  unfold predRank at hrecv
  simp only [ringStep, Nat.add_sub_cancel_left, hlen, haddr, hsend, hrecv, stepBlocks, pending,
    sendBlock, recvBlock, succRank, predRank, Bool.false_eq_true, if_false]
  rfl

end Round

section Distance

variable {n r c s : ℕ}

/-- How many ranks after a chunk's own rank a rank stands on the ring. -/
def behind (n r c : ℕ) : ℕ := (r + n - c) % n

theorem behind_lt (hr : r < n) : behind n r c < n := Nat.mod_lt _ (Nat.zero_lt_of_lt hr)

theorem add_behind (hr : r < n) (hc : c < n) : (c + behind n r c) % n = r := by
  have hlt : r + n - c < 2 * n := by omega
  have hb : behind n r c = if r + n - c < n then r + n - c else r + n - c - n :=
    mod_of_lt_two_mul hlt
  have hlt' : c + behind n r c < 2 * n := by
    have := behind_lt (c := c) hr
    omega
  rw [mod_of_lt_two_mul hlt', hb]
  split_ifs <;> omega

theorem sendChunkIndex_lt (hr : r < n) : sendChunkIndex r n s < n :=
  Nat.mod_lt _ (Nat.zero_lt_of_lt hr)

/-- At step `s` a rank sends the chunk whose rank is `s` before it. -/
theorem behind_sendChunkIndex (hr : r < n) (hs : s < n) : behind n r (sendChunkIndex r n s) = s := by
  have hlt : r + n - s < 2 * n := by omega
  have hc : sendChunkIndex r n s = if r + n - s < n then r + n - s else r + n - s - n :=
    mod_of_lt_two_mul hlt
  have hlt' : r + n - sendChunkIndex r n s < 2 * n := by
    have := sendChunkIndex_lt (s := s) hr
    split_ifs at hc <;> omega
  rw [behind, mod_of_lt_two_mul hlt', hc]
  split_ifs <;> omega

/-- A rank receives the chunk its predecessor sends. -/
theorem recvChunkIndex_succRank (hr : r < n) (hs : s + 1 < n) :
    recvChunkIndex (succRank n r) n s = sendChunkIndex r n s := by
  have hlt : r + n - s < 2 * n := by omega
  unfold recvChunkIndex sendChunkIndex
  rw [succRank_eq hr]
  by_cases hl : r + 1 < n
  · rw [if_pos hl, show r + 1 + n - s - 1 = r + n - s by omega]
  · rw [if_neg hl, mod_of_lt_two_mul hlt, Nat.mod_eq_of_lt (by omega)]
    split_ifs <;> omega

/-- The successor of a rank stands one rank further from every chunk but its own. -/
theorem behind_succRank (hr : r < n) (hc : c < n) (h : behind n r c + 1 < n) :
    behind n (succRank n r) c = behind n r c + 1 := by
  have hadd := add_behind hr hc
  have hlt : c + behind n r c < 2 * n := by omega
  have hlt' : succRank n r + n - c < 2 * n := by
    have := succRank_lt hr
    omega
  rw [mod_of_lt_two_mul hlt] at hadd
  rw [behind, mod_of_lt_two_mul hlt', succRank_eq hr]
  split_ifs at hadd ⊢ <;> omega

/-- One chunk stands at a given distance from a rank. -/
theorem eq_of_behind_eq {c' : ℕ} (hr : r < n) (hc : c < n) (hc' : c' < n)
    (h : behind n r c = behind n r c') : c = c' := by
  have hadd := add_behind hr hc
  have hadd' := add_behind hr hc'
  have hb := behind_lt (c := c') hr
  have hlt : c + behind n r c' < 2 * n := by omega
  have hlt' : c' + behind n r c' < 2 * n := by omega
  rw [h, mod_of_lt_two_mul hlt] at hadd
  rw [mod_of_lt_two_mul hlt'] at hadd'
  split_ifs at hadd hadd' <;> omega

end Distance

section Values

variable [AddCommMonoid α] {start n base m : ℕ} {mem : ℕ → ℕ → α}

variable (start base m mem) in
/-- Initial value of a float of a chunk at a rank. -/
def chunkOf (r c i : ℕ) : α := mem (start + r) (base + m * c + i)

variable (start n base m mem) in
/-- Sum of a chunk over its own rank and the `d` ranks after it. -/
def partialSum (c d i : ℕ) : α :=
  ∑ j ∈ Finset.range (d + 1), chunkOf start base m mem ((c + j) % n) c i

variable (start n base m mem) in
/-- Values after `k` steps of reduce-scatter: a rank at most `k` after the
chunk's own rank holds the sum up to itself. -/
def scatterValue (k r c i : ℕ) : α :=
  if behind n r c ≤ k then partialSum start n base m mem c (behind n r c) i
  else chunkOf start base m mem r c i

variable (start n base m mem) in
/-- Values after `k` steps of all-gather: a rank at most `k` after the chunk's
own rank holds what that rank started with. -/
def gatherValue (k r c i : ℕ) : α :=
  if behind n r c ≤ k then chunkOf start base m mem c c i
  else partialSum start n base m mem c (behind n r c) i

variable (n base m) in
/-- The reduction of a received chunk. -/
def reduceStore (s r : ℕ) (mem : ℕ → α) (got : List α) : ℕ → α :=
  reduceInto mem (base + m * recvChunkIndex r n s) got (sizeofFloat * m)

variable (n base m) in
/-- The copy of a received chunk. -/
def copyStore (s r : ℕ) (mem : ℕ → α) (got : List α) : ℕ → α :=
  writeCells mem (base + m * recvChunkIndex r n s) got

theorem partialSum_zero {c : ℕ} (hc : c < n) (i : ℕ) :
    partialSum start n base m mem c 0 i = chunkOf start base m mem c c i := by
  rw [partialSum, Finset.sum_range_one, Nat.add_zero, Nat.mod_eq_of_lt hc]

theorem partialSum_succ (c d i : ℕ) :
    partialSum start n base m mem c (d + 1) i =
      chunkOf start base m mem ((c + (d + 1)) % n) c i + partialSum start n base m mem c d i := by
  rw [partialSum, Finset.sum_range_succ, add_comm]
  rfl

/-- One step of reduce-scatter. -/
theorem scatterValue_step {s : ℕ} (hs : s < n - 1) :
    StepValues start n base m s mem (reduceStore n base m s) (scatterValue start n base m mem s)
      (scatterValue start n base m mem (s + 1)) where
  chunk r hr := sendChunkIndex_lt hr
  keep r hr := by
    have hb := behind_sendChunkIndex (s := s) hr (by omega)
    funext i
    simp only [scatterValue, hb, le_refl, Nat.le_succ, if_true]
  stored r hr := by
    have hlen : sizeofFloat * m / sizeofFloat = m := Nat.mul_div_cancel_left m (by decide)
    set q := succRank n r with hq
    set c := sendChunkIndex r n s with hcdef
    have hqn : q < n := succRank_lt hr
    have hcn : c < n := sendChunkIndex_lt hr
    have hbr : behind n r c = s := behind_sendChunkIndex hr (by omega)
    have hbq : behind n q c = s + 1 := by rw [hq, behind_succRank hr hcn (by omega), hbr]
    have hwrap : (c + (s + 1)) % n = q := by
      have hadd := add_behind hqn hcn
      rwa [hbq] at hadd
    have hrecv : recvChunkIndex q n s = c := recvChunkIndex_succRank hr (by omega)
    have hsum : List.zipWith (· + ·) ((List.range m).map (scatterValue start n base m mem s q c))
        ((List.range m).map (scatterValue start n base m mem s r c)) =
        (List.range m).map (scatterValue start n base m mem (s + 1) q c) := by
      rw [List.zipWith_map, List.zipWith_self]
      refine List.map_congr_left fun i _ => ?_
      have hnot : ¬s + 1 ≤ s := by omega
      simp only [scatterValue, hbq, hbr, le_refl, hnot, if_true, if_false, partialSum_succ, hwrap]
    rw [reduceStore, reduceInto, hrecv, hlen, rankMem, readCells_chunkMem _ hcn,
      reduceSum_eq (by simp [hlen]) (by simp [hlen]), hsum, writeCells_chunkMem _ _ hcn]
    refine chunkMem_congr fun c' hc' i _ => ?_
    by_cases he : c' = c
    · rw [he, Function.update_self]
    · rw [Function.update_of_ne he]
      have hne : behind n q c' ≠ s + 1 := fun hb => he (eq_of_behind_eq hqn hc' hcn (hb.trans hbq.symm))
      have hiff : behind n q c' ≤ s + 1 ↔ behind n q c' ≤ s := by omega
      simp only [scatterValue, hiff]

/-- One step of all-gather. -/
theorem gatherValue_step {s : ℕ} (hs : s < n - 1) :
    StepValues start n base m s mem (copyStore n base m s) (gatherValue start n base m mem s)
      (gatherValue start n base m mem (s + 1)) where
  chunk r hr := sendChunkIndex_lt hr
  keep r hr := by
    have hb := behind_sendChunkIndex (s := s) hr (by omega)
    funext i
    simp only [gatherValue, hb, le_refl, Nat.le_succ, if_true]
  stored r hr := by
    set q := succRank n r with hq
    set c := sendChunkIndex r n s with hcdef
    have hqn : q < n := succRank_lt hr
    have hcn : c < n := sendChunkIndex_lt hr
    have hbr : behind n r c = s := behind_sendChunkIndex hr (by omega)
    have hbq : behind n q c = s + 1 := by rw [hq, behind_succRank hr hcn (by omega), hbr]
    have hrecv : recvChunkIndex q n s = c := recvChunkIndex_succRank hr (by omega)
    rw [copyStore, hrecv, rankMem, writeCells_chunkMem _ _ hcn]
    refine chunkMem_congr fun c' hc' i _ => ?_
    by_cases he : c' = c
    · rw [he, Function.update_self]
      simp only [gatherValue, hbr, hbq, le_refl, if_true]
    · rw [Function.update_of_ne he]
      have hne : behind n q c' ≠ s + 1 := fun hb => he (eq_of_behind_eq hqn hc' hcn (hb.trans hbq.symm))
      have hiff : behind n q c' ≤ s + 1 ↔ behind n q c' ≤ s := by omega
      simp only [gatherValue, hiff]

variable (start n base m) in
/-- All blocks of a rank: reduce-scatter, then all-gather. -/
def ringProgram (r : ℕ) : Program α :=
  ((List.range (n - 1)).flatMap fun s => stepBlocks start n base m s (reduceStore n base m s) r) ++
    (List.range (n - 1)).flatMap fun s => stepBlocks start n base m s (copyStore n base m s) r

/-- A schedule that runs all blocks of all ranks. -/
theorem ringProgram_schedule {cap : ℕ} (hc : 0 < cap) (hn : 2 ≤ n) :
    ReflTransGen (Step cap)
      (groupNet start (start + n) (fun node => ringProgram start n base m (node - start)) mem)
      (stateNet start n base m mem (gatherValue start n base m mem (n - 1)) fun _ => []) := by
  have hreduce := stateNet_steps hc hn (reduceStore n base m) (scatterValue start n base m mem)
    (fun r => (List.range (n - 1)).flatMap fun s => stepBlocks start n base m s (copyStore n base m s) r)
    (n - 1) fun s hs => scatterValue_step hs
  have hgather := stateNet_steps hc hn (copyStore n base m) (gatherValue start n base m mem)
    (fun _ => []) (n - 1) fun s hs => gatherValue_step hs
  have hfirst : stateNet start n base m mem (scatterValue start n base m mem 0)
      (ringProgram start n base m) =
      groupNet start (start + n) (fun node => ringProgram start n base m (node - start)) mem := by
    refine Net.ext (funext fun node => ?_) rfl
    simp only [stateNet, groupNet]
    by_cases hin : start ≤ node ∧ node < start + n
    · obtain ⟨r, rfl⟩ := Nat.exists_eq_add_of_le hin.1
      have hr : r < n := by omega
      have hmem : rankMem start n base m mem (scatterValue start n base m mem 0) r =
          mem (start + r) := by
        refine Eq.trans (chunkMem_congr fun c hcn i _ => ?_) chunkMem_self
        by_cases hb : behind n r c ≤ 0
        · have hz : behind n r c = 0 := by omega
          have hrc : r = c := by
            have hadd := add_behind hr hcn
            rwa [hz, Nat.add_zero, Nat.mod_eq_of_lt hcn, eq_comm] at hadd
          rw [scatterValue, if_pos hb, hz, partialSum_zero hcn, hrc]
          rfl
        · rw [scatterValue, if_neg hb]
          rfl
      simp only [if_pos hin, Nat.add_sub_cancel_left, hmem]
    · simp only [if_neg hin]
  have hmid : stateNet start n base m mem (scatterValue start n base m mem (n - 1))
      (fun r => (List.range (n - 1)).flatMap fun s =>
        stepBlocks start n base m s (copyStore n base m s) r) =
      stateNet start n base m mem (gatherValue start n base m mem 0)
        (fun r => ((List.range (n - 1)).flatMap fun s =>
          stepBlocks start n base m s (copyStore n base m s) r) ++ []) := by
    refine Net.ext (funext fun node => ?_) rfl
    simp only [stateNet, groupNet, List.append_nil]
    by_cases hin : start ≤ node ∧ node < start + n
    · have hr : node - start < n := by omega
      have hmem : rankMem start n base m mem (scatterValue start n base m mem (n - 1)) (node - start) =
          rankMem start n base m mem (gatherValue start n base m mem 0) (node - start) := by
        refine chunkMem_congr fun c hcn i _ => ?_
        have hall : behind n (node - start) c ≤ n - 1 := by
          have hb := behind_lt (c := c) hr
          omega
        rw [scatterValue, if_pos hall, gatherValue]
        split
        · rename_i hb
          rw [Nat.le_zero.mp hb, partialSum_zero hcn]
        · rfl
      simp only [if_pos hin, hmem]
    · simp only [if_neg hin]
  rw [← hfirst]
  refine hreduce.trans ?_
  rw [hmid]
  exact hgather

/-- The program that `syncNodeSlices` chooses for a member is the ring. -/
theorem syncNodeSlices_ring {r : ℕ} (hn : 8 ≤ n) (hr : r < n) (hm : 0 < m)
    {collectiveType : CollectiveType} (ht : collectiveType ≠ .star) :
    syncNodeSlices false (start + r) start (start + n) base (sizeofFloat * (n * m)) collectiveType 0 =
      .ok (ringProgram start n base m r : Program α) := by
  have hin : ¬¬(start ≤ start + r ∧ start + r < start + n) := by omega
  have hn0 : 0 < n := by omega
  have hbytes : sizeofFloat * (n * m) = n * (sizeofFloat * m) := Nat.mul_left_comm _ _ _
  have hslice : sizeofFloat * (n * m) / n = sizeofFloat * m := by
    rw [hbytes, Nat.mul_div_cancel_left _ hn0]
  have hmod : sizeofFloat * (n * m) % n = 0 := by rw [hbytes, Nat.mul_mod_right]
  have hpos : sizeofFloat * (n * m) ≠ 0 := by
    have := Nat.mul_pos hn0 hm
    simp only [sizeofFloat]
    omega
  have heff : effectiveCollective collectiveType false n (sizeofFloat * (n * m)) = .ring := by
    cases collectiveType with
    | star => exact absurd rfl ht
    | auto => simp [effectiveCollective, hn, hmod]
    | ring => simp [effectiveCollective, hn, hmod]
  have hgroup : start + n - start = n := Nat.add_sub_cancel_left _ _
  have hsmall : ¬(n ≤ 1 ∨ sizeofFloat * (n * m) = 0) := by omega
  have hthread : ¬((0 : ℕ) ≠ 0 ∨ n ≤ 1) := by omega
  have hfits (s : ℕ) : sizeofFloat * m * recvChunkIndex r n s + sizeofFloat * m ≤
      sizeofFloat * (n * m) := by
    have hlt : recvChunkIndex r n s < n := Nat.mod_lt _ hn0
    calc sizeofFloat * m * recvChunkIndex r n s + sizeofFloat * m
        = sizeofFloat * m * (recvChunkIndex r n s + 1) := (Nat.mul_succ _ _).symm
      _ ≤ sizeofFloat * m * n := Nat.mul_le_mul_left _ hlt
      _ = sizeofFloat * (n * m) := by rw [Nat.mul_assoc, Nat.mul_comm m n]
  have haddr (s : ℕ) : sizeofFloat * m * recvChunkIndex r n s / sizeofFloat =
      m * recvChunkIndex r n s := by
    rw [Nat.mul_assoc, Nat.mul_div_cancel_left _ (by decide)]
  have hreduce (s : ℕ) := ringStep_eq start base m s (by omega) hr (reduceStore (α := α) n base m s)
  have hcopy (s : ℕ) := ringStep_eq start base m s (by omega) hr (copyStore (α := α) n base m s)
  simp only [syncNodeSlices, if_neg hin, hgroup, if_neg hsmall, heff, if_true,
    syncNodeSlicesRingAllReduce, if_neg hthread, Bool.false_eq_true, if_false,
    Nat.add_sub_cancel_left, hslice, hfits, haddr, ringProgram, ← hreduce, ← hcopy]
  rfl

variable (start) in
/-- In every schedule each chunk of every member ends as what the chunk's own
rank started with. -/
theorem syncNodeSlices_ring_outcome {cap : ℕ} (hc : 0 < cap) (hn : 8 ≤ n)
    {collectiveType : CollectiveType} (ht : collectiveType ≠ .star) (base m : ℕ)
    (mem : ℕ → ℕ → α) :
    ∃ program : ℕ → Program α, (∀ node, start ≤ node → node < start + n →
      syncNodeSlices false node start (start + n) base (sizeofFloat * (n * m)) collectiveType 0 =
        .ok (program node)) ∧
    ∃ final, Outcome (Step cap) (groupNet start (start + n) program mem) final ∧ final.Done ∧
      ∀ r < n, ∀ c < n, ∀ i < m,
        (final.party (start + r)).mem (base + m * c + i) = mem (start + c) (base + m * c + i) := by
  rcases Nat.eq_zero_or_pos m with hm | hm
  · -- empty buffers: nobody runs anything
    subst hm
    refine ⟨fun _ => [], fun node hlo hhi => ?_, groupNet start (start + n) (fun _ => []) mem, ?_, ?_,
      fun _ _ _ _ i hi => absurd hi (Nat.not_lt_zero i)⟩
    · have hin : ¬¬(start ≤ node ∧ node < start + n) := by omega
      simp only [syncNodeSlices, if_neg hin, Nat.mul_zero, or_true, if_true]
    · refine outcome_of_schedule .refl fun node => ⟨mem node, ?_⟩
      simp only [groupNet, ite_self]
    · intro node
      simp only [groupNet, ite_self]
      exact ⟨_, rfl⟩
  · have hdone : (stateNet start n base m mem (gatherValue start n base m mem (n - 1))
        fun _ => []).Done := by
      intro node
      simp only [stateNet, groupNet, ite_self]
      exact ⟨_, rfl⟩
    refine ⟨fun node => ringProgram start n base m (node - start), fun node hlo hhi => ?_, _,
      outcome_of_schedule (ringProgram_schedule hc (by omega)) hdone, hdone, ?_⟩
    · obtain ⟨r, rfl⟩ := Nat.exists_eq_add_of_le hlo
      dsimp only
      rw [Nat.add_sub_cancel_left]
      exact syncNodeSlices_ring hn (by omega) hm ht
    · intro r hr c hcn i hi
      have hin : start ≤ start + r ∧ start + r < start + n := by omega
      have hall : behind n r c ≤ n - 1 := by
        have hb := behind_lt (c := c) hr
        omega
      simp only [stateNet, groupNet, if_pos hin, Nat.add_sub_cancel_left]
      rw [rankMem, chunkMem_at _ hcn hi, gatherValue, if_pos hall]
      rfl

/-- The sum in rank order, float by float. -/
theorem rankOrderSum_eq (hn : 0 < n) (len : ℕ) (mem : ℕ → ℕ → α) :
    rankOrderSum start (start + n) (fun p => readCells (mem p) base len) =
      (List.range len).map fun i => ∑ q ∈ Finset.range n, mem (start + q) (base + i) := by
  obtain ⟨k, rfl⟩ := Nat.exists_eq_add_of_le' hn
  have hworkers : workerRanks start (start + (k + 1)) =
      (List.range k).map fun w => start + 1 + w := by
    rw [workerRanks, Nat.add_sub_cancel_left, Nat.add_sub_cancel]
  rw [rankOrderSum, hworkers, List.foldl_map]
  induction k with
  | zero =>
    simp only [List.range_zero, List.foldl_nil, Nat.zero_add, Finset.sum_range_one, Nat.add_zero]
    rfl
  | succ k ih =>
    have hprev := ih (Nat.succ_pos k) (by rw [workerRanks, Nat.add_sub_cancel_left, Nat.add_sub_cancel])
    rw [List.range_succ, List.foldl_append, hprev, List.foldl_cons, List.foldl_nil]
    rw [readCells, List.zipWith_map, List.zipWith_self]
    refine List.map_congr_left fun i _ => ?_
    rw [Finset.sum_range_succ _ (k + 1), show start + 1 + k = start + (k + 1) by omega]

end Values

section Result

variable [AddCommGroup α]

/-- The whole of every member's buffer is the sum, as star all-reduce leaves
it, exactly when in every chunk the values of the other ranks cancel. -/
theorem syncNodeSlices_ring_sum_iff {cap n : ℕ} (start : ℕ) (hc : 0 < cap) (hn : 8 ≤ n)
    {collectiveType : CollectiveType} (ht : collectiveType ≠ .star) (base m : ℕ)
    (mem : ℕ → ℕ → α) :
    ∃ program : ℕ → Program α, (∀ node, start ≤ node → node < start + n →
      syncNodeSlices false node start (start + n) base (sizeofFloat * (n * m)) collectiveType 0 =
        .ok (program node)) ∧
    ∃ final, Outcome (Step cap) (groupNet start (start + n) program mem) final ∧ final.Done ∧
      ((∀ node, start ≤ node → node < start + n → readCells (final.party node).mem base (n * m) =
          rankOrderSum start (start + n) fun p => readCells (mem p) base (n * m)) ↔
        ∀ c < n, ∀ i < m,
          ∑ q ∈ (Finset.range n).erase c, mem (start + q) (base + (m * c + i)) = 0) := by
  obtain ⟨program, hprogram, final, hend, hdone, hfinal⟩ :=
    syncNodeSlices_ring_outcome start hc hn ht base m mem
  refine ⟨program, hprogram, final, hend, hdone, ?_⟩
  -- one float of one member against the sum of that float
  have hcell : ∀ r < n, ∀ c < n, ∀ i < m, ((final.party (start + r)).mem (base + (m * c + i)) =
      ∑ q ∈ Finset.range n, mem (start + q) (base + (m * c + i)) ↔
      ∑ q ∈ (Finset.range n).erase c, mem (start + q) (base + (m * c + i)) = 0) := by
    intro r hr c hcn i hi
    have hsplit := Finset.add_sum_erase (Finset.range n)
      (fun q => mem (start + q) (base + (m * c + i))) (Finset.mem_range.mpr hcn)
    have hval := hfinal r hr c hcn i hi
    rw [Nat.add_assoc] at hval
    rw [hval, ← hsplit, eq_comm, add_eq_left]
  have hlist : ∀ r, readCells (final.party (start + r)).mem base (n * m) =
      rankOrderSum start (start + n) (fun p => readCells (mem p) base (n * m)) ↔
      ∀ a < n * m, (final.party (start + r)).mem (base + a) =
        ∑ q ∈ Finset.range n, mem (start + q) (base + a) := by
    intro r
    rw [rankOrderSum_eq (by omega), readCells, List.map_inj_left]
    simp only [List.mem_range]
  constructor
  · intro h c hcn i hi
    have hlt : m * c + i < n * m := by
      calc m * c + i < m * c + m := Nat.add_lt_add_left hi _
        _ = m * (c + 1) := (Nat.mul_succ m c).symm
        _ ≤ m * n := Nat.mul_le_mul_left m hcn
        _ = n * m := Nat.mul_comm m n
    have hn0 : 0 < n := by omega
    have hroot := (hlist 0).mp (h (start + 0) (by omega) (by omega)) (m * c + i) hlt
    exact (hcell 0 hn0 c hcn i hi).mp hroot
  · intro h node hlo hhi
    obtain ⟨r, rfl⟩ := Nat.exists_eq_add_of_le hlo
    refine (hlist r).mpr fun a ha => ?_
    have hm : 0 < m := Nat.pos_of_ne_zero fun hz => by simp [hz] at ha
    have hdiv : a / m < n := Nat.div_lt_of_lt_mul (by rwa [Nat.mul_comm])
    have hcells := (hcell r (by omega) (a / m) hdiv (a % m) (Nat.mod_lt _ hm)).mpr
      (h _ hdiv _ (Nat.mod_lt _ hm))
    rwa [Nat.div_add_mod] at hcells

/-- Floats of eight ranks with two to a chunk: what the others of a chunk hold adds up to nothing. -/
def cancelling (rank a : ℕ) : ℤ :=
  if rank = a / 2 then a + 5
  else if rank = (a / 2 + 1) % 8 then 3
  else if rank = (a / 2 + 2) % 8 then -3
  else 0

/-- Eight ranks whose values cancel in every chunk but for one rank end with the sum. -/
theorem syncNodeSlices_ring_sum_iff_cancelling : ∃ program : ℕ → Program ℤ,
    (∀ node, 0 ≤ node → node < 0 + 8 →
      syncNodeSlices false node 0 (0 + 8) 0 (sizeofFloat * (8 * 2)) .auto 0 = .ok (program node)) ∧
    ∃ final, Outcome (Step 1) (groupNet 0 (0 + 8) program cancelling) final ∧
    ∀ node, 0 ≤ node → node < 0 + 8 → readCells (final.party node).mem 0 (8 * 2) =
      rankOrderSum 0 (0 + 8) fun p => readCells (cancelling p) 0 (8 * 2) := by
  have hcancel : ∀ c < 8, ∀ i < 2,
      ∑ q ∈ (Finset.range 8).erase c, cancelling (0 + q) (0 + (2 * c + i)) = 0 := by
    decide
  obtain ⟨program, hprogram, final, hend, -, hiff⟩ := syncNodeSlices_ring_sum_iff 0
    (show 0 < 1 by decide) (show 8 ≤ 8 by decide) (show CollectiveType.auto ≠ .star by decide) 0 2
    cancelling
  exact ⟨program, hprogram, final, hend, hiff.mpr hcancel⟩

/-- Eight ranks that each start with a one in all eight floats: rank 0 ends
with ones where the sum is eight. -/
theorem syncNodeSlices_ring_ones : ∃ program : ℕ → Program ℤ,
    (∀ node, 0 ≤ node → node < 0 + 8 →
      syncNodeSlices false node 0 (0 + 8) 0 (sizeofFloat * (8 * 1)) .ring 0 = .ok (program node)) ∧
    ∃ final, Outcome (Step 1) (groupNet 0 (0 + 8) program fun _ _ => 1) final ∧ final.Done ∧
      readCells (final.party 0).mem 0 (8 * 1) ≠
        rankOrderSum 0 (0 + 8) fun _ => readCells (fun _ => 1) 0 (8 * 1) := by
  obtain ⟨program, hprogram, final, hend, hdone, hfinal⟩ := syncNodeSlices_ring_outcome 0
    (show 0 < 1 by decide) (show 8 ≤ 8 by decide) (show CollectiveType.ring ≠ .star by decide) 0 1
    fun _ _ => (1 : ℤ)
  refine ⟨program, hprogram, final, hend, hdone, fun h => ?_⟩
  have hone := hfinal 0 (by decide) 0 (by decide) 0 (by decide)
  have hhead := congrArg (fun xs => xs[0]?) h
  rw [readCells_getElem? _ (by decide), rankOrderSum_eq (by decide)] at hhead
  simp [hone] at hhead

end Result

end LayerSkip.RingAllReduce
