import LayerSkip.RandomDescent
import Mathlib.Data.List.Basic
import Mathlib.Logic.Function.Basic

/-!
# Parties with synchronous sends and receives

Every party runs a list of communications. A send and the receive that matches it
happen together. Two different matches that are possible at the same time concern four
different parties, so one complete schedule decides all of them.
-/

namespace LayerSkip.Rendezvous

open RandomDescent Relation

variable {Node Mem α : Type*} [DecidableEq Node]

/-- One communication of a party. -/
inductive Comm (Node Mem α : Type*)
  /-- Send data to a peer. -/
  | send (peer : Node) (data : Mem → List α)
  /-- Receive so much data from a peer and store it. -/
  | recv (peer : Node) (len : ℕ) (store : Mem → List α → Mem)

/-- A party. -/
structure Party (Node Mem α : Type*) where
  /-- Local memory. -/
  mem : Mem
  /-- What it has still to do. -/
  todo : List (Comm Node Mem α)

/-- All parties. -/
abbrev Net (Node Mem α : Type*) := Node → Party Node Mem α

/-- A send of `p` and a receive of `q` match. -/
inductive Fire (n : Net Node Mem α) (p q : Node) : Net Node Mem α → Prop
  | sync {mp mq : Mem} {data : Mem → List α} {len : ℕ} {store : Mem → List α → Mem}
      {rp rq : List (Comm Node Mem α)} :
      p ≠ q → n p = ⟨mp, .send q data :: rp⟩ → n q = ⟨mq, .recv p len store :: rq⟩ →
      (data mp).length = len →
      Fire n p q (Function.update (Function.update n p ⟨mp, rp⟩) q ⟨store mq (data mp), rq⟩)

/-- Some send and some receive match. -/
def Step (n n' : Net Node Mem α) : Prop := ∃ p q, Fire n p q n'

/-- All parties have done everything. -/
def Done (n : Net Node Mem α) : Prop := ∀ p, (n p).todo = []

theorem Done.terminal {n : Net Node Mem α} (h : Done n) : Terminal Step n := by
  intro n' ⟨p, q, hfire⟩
  cases hfire with
  | sync _ hp _ _ =>
    have hnil := h p
    rw [hp] at hnil
    cases hnil

/-- Two matches agree or meet again after the other one. -/
theorem diamond : Diamond (Step : Net Node Mem α → Net Node Mem α → Prop) := by
  intro n a b ⟨p, q, ha⟩ ⟨p', q', hb⟩
  cases ha with
  | @sync mp mq data len store rp rq hne hp hq hlen =>
    cases hb with
    | @sync mp' mq' data' len' store' rp' rq' hne' hp' hq' hlen' =>
      by_cases hpp : p = p'
      · rw [← hpp, hp] at hp'
        injection hp' with hmem htodo
        injection htodo with hcomm hrest
        injection hcomm with hpeer hdata
        rw [← hpp, ← hpeer, hq] at hq'
        injection hq' with hmem' htodo'
        injection htodo' with hcomm' hrest'
        injection hcomm' with _ hlen'' hstore
        subst hpp hpeer hmem hrest hdata hmem' hrest' hstore
        exact Or.inl (Eq.refl _)
      · have hqq : q ≠ q' := by
          intro heq
          rw [← heq, hq] at hq'
          injection hq' with _ htodo
          injection htodo with hcomm _
          injection hcomm with hpeer _ _
          exact hpp hpeer
        have hpq : p ≠ q' := by
          intro heq
          rw [← heq, hp] at hq'
          injection hq' with _ htodo
          injection htodo with hcomm _
          cases hcomm
        have hqp : q ≠ p' := by
          intro heq
          rw [← heq, hq] at hp'
          injection hp' with _ htodo
          injection htodo with hcomm _
          cases hcomm
        have hfirst : Fire (Function.update (Function.update n p ⟨mp, rp⟩) q ⟨store mq (data mp), rq⟩)
            p' q' (Function.update (Function.update (Function.update (Function.update n p ⟨mp, rp⟩) q
              ⟨store mq (data mp), rq⟩) p' ⟨mp', rp'⟩) q' ⟨store' mq' (data' mp'), rq'⟩) := by
          refine .sync hne' ?_ ?_ hlen'
          · rw [Function.update_of_ne (Ne.symm hqp), Function.update_of_ne (Ne.symm hpp)]
            exact hp'
          · rw [Function.update_of_ne (Ne.symm hqq), Function.update_of_ne (Ne.symm hpq)]
            exact hq'
        have hsecond : Fire (Function.update (Function.update n p' ⟨mp', rp'⟩) q'
            ⟨store' mq' (data' mp'), rq'⟩) p q (Function.update (Function.update (Function.update
              (Function.update n p' ⟨mp', rp'⟩) q' ⟨store' mq' (data' mp'), rq'⟩) p ⟨mp, rp⟩) q
              ⟨store mq (data mp), rq⟩) := by
          refine .sync hne ?_ ?_ hlen
          · rw [Function.update_of_ne hpq, Function.update_of_ne hpp]
            exact hp
          · rw [Function.update_of_ne hqq, Function.update_of_ne hqp]
            exact hq
        refine Or.inr ⟨_, ⟨p', q', hfirst⟩, ?_⟩
        have hsame : Function.update (Function.update (Function.update (Function.update n p
            ⟨mp, rp⟩) q ⟨store mq (data mp), rq⟩) p' ⟨mp', rp'⟩) q' ⟨store' mq' (data' mp'), rq'⟩ =
            Function.update (Function.update (Function.update (Function.update n p' ⟨mp', rp'⟩) q'
              ⟨store' mq' (data' mp'), rq'⟩) p ⟨mp, rp⟩) q ⟨store mq (data mp), rq⟩ := by
          rw [Function.update_comm hqp, Function.update_comm hpp, Function.update_comm hqq,
            Function.update_comm hpq]
        rw [hsame]
        exact ⟨p, q, hsecond⟩

/-- A schedule that runs all programs to their end decides every schedule. -/
theorem outcome_of_schedule {n f : Net Node Mem α} (h : ReflTransGen Step n f) (hf : Done f) :
    Outcome Step n f := by
  obtain ⟨k, hk⟩ := reflTransGen_iff_steps.mp h
  exact .of_steps diamond hk hf.terminal

/-- A send and a receive that match are carried out. -/
theorem transfer {n : Net Node Mem α} {p q : Node} (hne : p ≠ q) {mp mq : Mem}
    {data : Mem → List α} {len : ℕ} {store : Mem → List α → Mem} {rp rq : List (Comm Node Mem α)}
    (hp : n p = ⟨mp, .send q data :: rp⟩) (hq : n q = ⟨mq, .recv p len store :: rq⟩)
    (hlen : (data mp).length = len) :
    ∃ n', ReflTransGen Step n n' ∧ n' p = ⟨mp, rp⟩ ∧ n' q = ⟨store mq (data mp), rq⟩ ∧
      ∀ other, other ≠ p → other ≠ q → n' other = n other := by
  refine ⟨_, .single ⟨p, q, .sync hne hp hq hlen⟩, ?_, Function.update_self _ _ _, ?_⟩
  · rw [Function.update_of_ne hne]
    exact Function.update_self _ _ _
  · intro other hotherp hotherq
    rw [Function.update_of_ne hotherq, Function.update_of_ne hotherp]

section Pairs

/-! ### All pairs of ranks

Every rank talks to the others in the order of their ranks. Rank 0 can do so first, then
rank 1, and so on. -/

variable {S : ℕ} {node : ℕ → Node} {talk : ℕ → ℕ → List (Comm Node Mem α)}
  {put : ℕ → ℕ → Mem → Mem}

/-- What a rank has still to do after it has come so far in the list of ranks. -/
def remaining (S : ℕ) (talk : ℕ → ℕ → List (Comm Node Mem α)) (r k : ℕ) :
    List (Comm Node Mem α) :=
  ((List.range S).drop k).flatMap fun q => if q = r then [] else talk r q

/-- Memory of a rank that has come so far. -/
def received (S : ℕ) (put : ℕ → ℕ → Mem → Mem) (r k : ℕ) (mem : Mem) : Mem :=
  ((List.range S).take k).foldl (fun m q => if q = r then m else put r q m) mem

omit [DecidableEq Node] in
theorem remaining_step {r k : ℕ} (hk : k < S) :
    remaining S talk r k = (if k = r then [] else talk r k) ++ remaining S talk r (k + 1) := by
  have hlength : k < (List.range S).length := by
    rw [List.length_range]
    exact hk
  unfold remaining
  rw [List.drop_eq_getElem_cons hlength, List.flatMap_cons, List.getElem_range]

theorem received_step {r k : ℕ} (hk : k < S) (mem : Mem) : received S put r (k + 1) mem =
    if k = r then received S put r k mem else put r k (received S put r k mem) := by
  have hlength : k < (List.range S).length := by
    rw [List.length_range]
    exact hk
  unfold received
  rw [List.take_succ_eq_append_getElem hlength, List.foldl_append, List.foldl_cons, List.foldl_nil,
    List.getElem_range]

/-- How far the ranks have come: the first ranks are done, one is at rank `j`. -/
def progress (S i j r : ℕ) : ℕ :=
  if r < i then S else if r = i then j else if r < j then i + 1 else i

/-- Ranks that have come so far. -/
def Reached (S : ℕ) (node : ℕ → Node) (talk : ℕ → ℕ → List (Comm Node Mem α))
    (put : ℕ → ℕ → Mem → Mem) (mem : ℕ → Mem) (c : ℕ → ℕ) (n : Net Node Mem α) : Prop :=
  ∀ r < S, n (node r) = ⟨received S put r (c r) (mem r), remaining S talk r (c r)⟩

/-- What every pair of ranks can do: the two talk to each other and each has put away what
it got from the other. -/
structure Talks (S : ℕ) (node : ℕ → Node) (talk : ℕ → ℕ → List (Comm Node Mem α))
    (put : ℕ → ℕ → Mem → Mem) (Own : ℕ → Mem → Prop) : Prop where
  /-- Ranks are different nodes. -/
  inj : ∀ i < S, ∀ j < S, node i = node j → i = j
  /-- A pair talks. -/
  pair : ∀ i j, i < j → j < S → ∀ (n : Net Node Mem α) (mi mj : Mem) (ri rj : List (Comm Node Mem α)),
    Own i mi → Own j mj → n (node i) = ⟨mi, talk i j ++ ri⟩ → n (node j) = ⟨mj, talk j i ++ rj⟩ →
    ∃ n', ReflTransGen Step n n' ∧ n' (node i) = ⟨put i j mi, ri⟩ ∧ n' (node j) = ⟨put j i mj, rj⟩ ∧
      ∀ other, other ≠ node i → other ≠ node j → n' other = n other
  /-- A rank keeps what it sends. -/
  keep : ∀ r < S, ∀ q < S, q ≠ r → ∀ m, Own r m → Own r (put r q m)

variable {Own : ℕ → Mem → Prop} {mem : ℕ → Mem} {c : ℕ → ℕ} {n : Net Node Mem α}

theorem Talks.own_received (h : Talks S node talk put Own) {r : ℕ} (hr : r < S) {m : Mem} (hm : Own r m)
    {k : ℕ} (hk : k ≤ S) : Own r (received S put r k m) := by
  induction k with
  | zero => exact hm
  | succ k ih =>
    rw [received_step (by omega)]
    split
    · exact ih (by omega)
    · exact h.keep r hr k (by omega) ‹_› _ (ih (by omega))

/-- The next two ranks talk. -/
theorem Talks.step (h : Talks S node talk put Own) (hown : ∀ r < S, Own r (mem r)) {i j : ℕ}
    (hij : i < j) (hj : j < S) (hn : Reached S node talk put mem c n) (hci : c i = j) (hcj : c j = i) :
    ∃ n', ReflTransGen Step n n' ∧
      Reached S node talk put mem (Function.update (Function.update c i (j + 1)) j (i + 1)) n' ∧
      ∀ other, (∀ r < S, other ≠ node r) → n' other = n other := by
  have hi : i < S := by omega
  have hne : j ≠ i := by omega
  have hni := hn i hi
  have hnj := hn j hj
  rw [hci, remaining_step hj, if_neg hne] at hni
  rw [hcj, remaining_step hi, if_neg (Ne.symm hne)] at hnj
  obtain ⟨n', hrun, hi', hj', hother⟩ := h.pair i j hij hj n _ _ _ _
    (h.own_received hi (hown i hi) (by omega)) (h.own_received hj (hown j hj) (by omega)) hni hnj
  refine ⟨n', hrun, ?_, fun other hout => hother other (hout i hi) (hout j hj)⟩
  intro r hr
  by_cases hrj : r = j
  · rw [hrj, Function.update_self, hj', received_step hi, if_neg (Ne.symm hne)]
  · rw [Function.update_of_ne hrj]
    by_cases hri : r = i
    · rw [hri, Function.update_self, hi', received_step hj, if_neg hne]
    · rw [Function.update_of_ne hri, hother (node r) (fun heq => hri (h.inj r hr i hi heq))
        fun heq => hrj (h.inj r hr j hj heq)]
      exact hn r hr

omit [DecidableEq Node] in
/-- Only how far the ranks have come counts, and a rank passes over itself. -/
theorem Reached.congr (hn : Reached S node talk put mem c n) {c' : ℕ → ℕ}
    (hc : ∀ r < S, c' r = c r ∨ c r = r ∧ c' r = r + 1) : Reached S node talk put mem c' n := by
  intro r hr
  rw [hn r hr]
  cases hc r hr with
  | inl heq => rw [heq]
  | inr hself =>
    rw [hself.1, hself.2, remaining_step hr, if_pos (Eq.refl _), List.nil_append, received_step hr,
      if_pos (Eq.refl _)]

/-- One rank after the other talks to all ranks after it. -/
theorem Talks.round (h : Talks S node talk put Own) (hown : ∀ r < S, Own r (mem r)) {i j : ℕ}
    (hj : j < S) (hij : i ≤ j)
    (hn : Reached S node talk put mem (progress S i i) n) :
    ∃ n', ReflTransGen Step n n' ∧ Reached S node talk put mem (progress S i (j + 1)) n' ∧
      ∀ other, (∀ r < S, other ≠ node r) → n' other = n other := by
  induction j with
  | zero =>
    refine ⟨n, .refl, hn.congr fun r _ => ?_, fun _ _ => Eq.refl _⟩
    unfold progress
    split_ifs <;> omega
  | succ j ih =>
    by_cases heq : i = j + 1
    · refine ⟨n, .refl, hn.congr fun r _ => ?_, fun _ _ => Eq.refl _⟩
      unfold progress
      split_ifs <;> omega
    · obtain ⟨n', hrun, hn', hother⟩ := ih (by omega) (by omega)
      have hci : progress S i (j + 1) i = j + 1 := by
        unfold progress
        split_ifs <;> omega
      have hcj : progress S i (j + 1) (j + 1) = i := by
        unfold progress
        split_ifs <;> omega
      obtain ⟨n'', hrun', hn'', hother'⟩ := h.step hown (by omega) hj hn' hci hcj
      refine ⟨n'', hrun.trans hrun', hn''.congr fun r _ => Or.inl ?_, fun other hout =>
        (hother' other hout).trans (hother other hout)⟩
      by_cases hrj : r = j + 1
      · rw [hrj, Function.update_self]
        unfold progress
        split_ifs <;> omega
      · rw [Function.update_of_ne hrj]
        by_cases hri : r = i
        · rw [hri, Function.update_self]
          unfold progress
          split_ifs <;> omega
        · rw [Function.update_of_ne hri]
          unfold progress
          split_ifs <;> omega

/-- All ranks talk to all others. -/
theorem Talks.all (h : Talks S node talk put Own) (hown : ∀ r < S, Own r (mem r))
    (hn : ∀ r < S, n (node r) =
      ⟨mem r, (List.range S).flatMap fun q => if q = r then [] else talk r q⟩) :
    ∃ n', ReflTransGen Step n n' ∧ (∀ r < S, n' (node r) = ⟨received S put r S (mem r), []⟩) ∧
      ∀ other, (∀ r < S, other ≠ node r) → n' other = n other := by
  have hrounds (i : ℕ) (hi : i ≤ S) : ∃ n', ReflTransGen Step n n' ∧
      Reached S node talk put mem (progress S i i) n' ∧
      ∀ other, (∀ r < S, other ≠ node r) → n' other = n other := by
    induction i with
    | zero =>
      refine ⟨n, .refl, fun r hr => ?_, fun _ _ => Eq.refl _⟩
      have hzero : progress S 0 0 r = 0 := by
        unfold progress
        split_ifs <;> omega
      rw [hn r hr, hzero]
      exact Eq.refl _
    | succ i ih =>
      obtain ⟨n', hrun, hn', hother⟩ := ih (by omega)
      obtain ⟨n'', hrun', hn'', hother'⟩ := h.round hown (i := i) (j := S - 1) (by omega) (by omega)
        hn'
      refine ⟨n'', hrun.trans hrun', hn''.congr fun r hr => Or.inl ?_, fun other hout =>
        (hother' other hout).trans (hother other hout)⟩
      unfold progress
      split_ifs <;> omega
  obtain ⟨n', hrun, hn', hother⟩ := hrounds S (Nat.le_refl S)
  refine ⟨n', hrun, fun r hr => ?_, hother⟩
  have hdone : progress S S S r = S := by
    unfold progress
    split_ifs
    omega
  have hnil : remaining S talk r S = [] := by
    unfold remaining
    rw [List.drop_eq_nil_of_le (Nat.le_of_eq List.length_range), List.flatMap_nil]
  rw [hn' r hr, hdone, hnil]

end Pairs

end LayerSkip.Rendezvous
