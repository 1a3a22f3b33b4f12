import LayerSkip.ContinuousBatching
import Mathlib.Algebra.Order.BigOperators.Group.Finset
import Mathlib.Data.List.Rotate

/-!
# The rounds of continuous batching

A round picks waiting requests in the order of a cursor, which then stands behind the last one picked.
What a round does to the requests is stated once; that the loop ends, counts rightly and leaves no request
waiting for long follows from it.
-/

namespace LayerSkip.ContinuousBatching

open KvCache

section Round

variable {isEos : ℤ → Bool} {sampled : ℕ → ℤ} {limit : ℕ} {s : CbState}

/-- What tokens that are taken for some requests leave as it was or change. -/
structure Takes (isEos : ℤ → Bool) (sampled : ℕ → ℤ) (picks : List (ℕ × ℕ)) (s next : CbState) :
    Prop where
  /-- The requests for which a token is taken. -/
  taken : ∀ pick ∈ picks, next.reqs[pick.1]? =
    (s.reqs[pick.1]?).map (CbRequestState.taken isEos (sampled pick.2))
  /-- The others. -/
  kept : ∀ idx, idx ∉ picks.map Prod.fst → next.reqs[idx]? = s.reqs[idx]?
  /-- Number of requests. -/
  length : next.reqs.length = s.reqs.length
  /-- The cursor. -/
  rrCursor : next.rrCursor = s.rrCursor
  /-- The counter. -/
  counted : s.Counted → next.Counted

/-- A token taken for a waiting request. -/
theorem takes_one {pick : ℕ × ℕ} (hwait : s.waiting pick.1 = true) :
    Takes isEos sampled [pick] s (takeToken isEos sampled s pick) := by
  obtain ⟨req, hreq, hfin, _⟩ := (waiting_iff s pick.1).mp hwait
  obtain ⟨hlt, hget⟩ := List.getElem?_eq_some_iff.mp hreq
  have hactive : 0 < s.reqs.countP fun req => !req.finished := by
    apply List.countP_pos_iff.mpr
    exact ⟨req, List.mem_of_getElem? hreq, by simp [hfin]⟩
  have hreqs : (takeToken isEos sampled s pick).reqs =
      s.reqs.set pick.1 (req.taken isEos (sampled pick.2)) := by
    unfold takeToken
    simp only [hreq]
    split
    · rename_i hend
      unfold CbRequestState.taken
      cases hend with
      | inl h => simp [h]
      | inr h => simp [h]
    · rename_i hend
      have hnot := not_or.mp hend
      unfold CbRequestState.taken
      simp [hnot.1, hnot.2]
  constructor
  · intro p hp
    rw [List.mem_singleton.mp hp, hreqs, List.getElem?_set_self hlt, hreq, Option.map_some]
  · intro idx hidx
    have hne : pick.1 ≠ idx := fun h => hidx (by rw [← h]; exact List.mem_singleton_self _)
    rw [hreqs, List.getElem?_set_ne hne]
  · rw [hreqs, List.length_set]
  · unfold takeToken
    simp only [hreq]
    split <;> exact Eq.refl _
  · intro hcount
    unfold CbState.Counted at hcount ⊢
    rw [hreqs, List.countP_set hlt, hget, hfin]
    unfold takeToken
    simp only [hreq]
    split
    · rename_i hend
      have hfinished : (req.taken isEos (sampled pick.2)).finished = true := by
        unfold CbRequestState.taken
        cases hend with
        | inl h => simp [h]
        | inr h => simp [h]
      rw [hfinished]
      simp only [hcount]
      simp
    · rename_i hend
      have hnot := not_or.mp hend
      have hfinished : (req.taken isEos (sampled pick.2)).finished = false := by
        unfold CbRequestState.taken
        simp [hfin, hnot.1, hnot.2]
      rw [hfinished]
      simp only [hcount]
      simp
      omega

/-- Tokens taken for different waiting requests, one after the other. -/
theorem takes_all {picks : List (ℕ × ℕ)} (hwait : ∀ pick ∈ picks, s.waiting pick.1 = true)
    (hnodup : (picks.map Prod.fst).Nodup) :
    Takes isEos sampled picks s (picks.foldl (takeToken isEos sampled) s) := by
  induction picks generalizing s with
  | nil =>
    exact ⟨fun _ h => absurd h List.not_mem_nil, fun _ _ => Eq.refl _, Eq.refl _, Eq.refl _, id⟩
  | cons pick picks ih =>
    have hfirst : Takes isEos sampled [pick] s (takeToken isEos sampled s pick) :=
      takes_one (hwait pick List.mem_cons_self)
    rw [List.map_cons, List.nodup_cons] at hnodup
    have hother : ∀ p ∈ picks,
        (takeToken isEos sampled s pick).reqs[p.1]? = s.reqs[p.1]? := by
      intro p hp
      apply hfirst.kept
      intro h
      rw [List.map_singleton, List.mem_singleton] at h
      exact hnodup.1 (h ▸ List.mem_map_of_mem hp)
    have hrest := ih (s := takeToken isEos sampled s pick) (fun p hp => by
      have hw := hwait p (List.mem_cons_of_mem pick hp)
      unfold CbState.waiting at hw ⊢
      rw [hother p hp]
      exact hw) hnodup.2
    rw [List.foldl_cons]
    constructor
    · intro p hp
      cases List.mem_cons.mp hp with
      | inl heq =>
        rw [heq, hrest.kept pick.1 hnodup.1]
        exact hfirst.taken pick (List.mem_singleton_self pick)
      | inr hin => rw [hrest.taken p hin, hother p hin]
    · intro idx hidx
      rw [List.map_cons, List.mem_cons, not_or] at hidx
      rw [hrest.kept idx hidx.2]
      apply hfirst.kept
      rw [List.map_singleton, List.mem_singleton]
      exact hidx.1
    · rw [hrest.length, hfirst.length]
    · rw [hrest.rrCursor, hfirst.rrCursor]
    · exact fun h => hrest.counted (hfirst.counted h)

variable (isEos sampled limit s) in
/-- What a round does to the requests. -/
theorem decodeRound_takes : ∃ picks : List (ℕ × ℕ), picks.map Prod.fst = s.picked limit ∧
    Takes isEos sampled picks
      { s with
        cache := s.forwardCache (s.picked limit)
        rrCursor := ((s.picked limit).getLast?.elim 0 fun last => last + 1) % s.reqs.length }
      (decodeRound isEos sampled limit s) := by
  have hfst : ((s.picked limit).zipIdx).map Prod.fst = s.picked limit := List.zipIdx_map_fst 0 _
  refine ⟨(s.picked limit).zipIdx, hfst, takes_all ?_ ?_⟩
  · intro pick hpick
    have hmem : pick.1 ∈ s.picked limit := by
      rw [← hfst]
      exact List.mem_map_of_mem hpick
    have hwait : s.waiting pick.1 = true := waiting_of_picked hmem
    exact hwait
  · rw [hfst]
    exact nodup_picked limit s

variable (isEos sampled limit s) in
/-- A round picks no request twice and not too many, advances those by one position within their bound,
leaves the others, and counts. -/
structure RoundRight : Prop where
  /-- No request is picked twice. -/
  nodup : (s.picked limit).Nodup
  /-- Not more than the limit. -/
  atMost : (s.picked limit).length ≤ limit
  /-- Picked requests. -/
  advance : ∀ idx ∈ s.picked limit, ∃ req next, s.reqs[idx]? = some req ∧
    (decodeRound isEos sampled limit s).reqs[idx]? = some next ∧
    next.pos = req.pos + 1 ∧ next.pos ≤ next.maxPos ∧ next.maxPos = req.maxPos
  /-- Other requests. -/
  others : ∀ idx, idx ∉ s.picked limit →
    (decodeRound isEos sampled limit s).reqs[idx]? = s.reqs[idx]?
  /-- The counter before and after the round. -/
  counted : s.Counted ∧ (decodeRound isEos sampled limit s).Counted

theorem roundRight_of_counted (h : s.Counted) : RoundRight isEos sampled limit s := by
  obtain ⟨picks, hfst, htakes⟩ := decodeRound_takes isEos sampled limit s
  constructor
  · exact nodup_picked limit s
  · exact List.length_take_le limit _
  · intro idx hidx
    obtain ⟨req, hreq, _, hpos⟩ := (waiting_iff s idx).mp (waiting_of_picked hidx)
    rw [← hfst] at hidx
    obtain ⟨pick, hpick, heq⟩ := List.mem_map.mp hidx
    have hnext := htakes.taken pick hpick
    rw [heq] at hnext
    refine ⟨req, req.taken isEos (sampled pick.2), hreq, ?_, Eq.refl _, hpos, Eq.refl _⟩
    rw [hnext, hreq, Option.map_some]
  · intro idx hidx
    rw [← hfst] at hidx
    exact htakes.kept idx hidx
  · exact ⟨h, htakes.counted h⟩

/-- A request that is not finished is below its bound. -/
def CbState.Bounded (s : CbState) : Prop :=
  ∀ req ∈ s.reqs, req.finished = false → req.pos < req.maxPos

theorem bounded_step (h : s.Bounded) : (decodeRound isEos sampled limit s).Bounded := by
  obtain ⟨picks, hfst, htakes⟩ := decodeRound_takes isEos sampled limit s
  intro req hreq hfin
  obtain ⟨idx, hidx⟩ := List.mem_iff_getElem?.mp hreq
  by_cases hpicked : idx ∈ picks.map Prod.fst
  · obtain ⟨pick, hpick, heq⟩ := List.mem_map.mp hpicked
    have hnext := htakes.taken pick hpick
    rw [heq, hidx] at hnext
    obtain ⟨old, hold, htaken⟩ := Option.map_eq_some_iff.mp hnext.symm
    rw [← htaken] at hfin ⊢
    unfold CbRequestState.taken at hfin ⊢
    simp only [Bool.or_eq_false_iff, decide_eq_false_iff_not] at hfin ⊢
    omega
  · rw [htakes.kept idx hpicked] at hidx
    exact h req (List.mem_of_getElem? hidx) hfin

/-- The same order with the sums of cursor and counter as 32-bit words. -/
def CbState.wordOrder (s : CbState) : List ℕ :=
  (List.range s.reqs.length).map fun i => (s.rrCursor + i) % 2 ^ 32 % s.reqs.length

/-- The cursor stands at a request. -/
def CbState.CursorIn (s : CbState) : Prop := 0 < s.reqs.length → s.rrCursor < s.reqs.length

theorem cursorIn_step : (decodeRound isEos sampled limit s).CursorIn := by
  obtain ⟨picks, _, htakes⟩ := decodeRound_takes isEos sampled limit s
  intro hpos
  rw [htakes.length] at hpos ⊢
  rw [htakes.rrCursor]
  exact Nat.mod_lt _ hpos

/-- Up to `2 ^ 31` requests the sums do not wrap. -/
theorem wordOrder_eq (hcursor : s.CursorIn) (hfew : s.reqs.length ≤ 2 ^ 31) :
    s.wordOrder = s.order := by
  apply List.map_congr_left
  intro i hi
  have hlt := List.mem_range.mp hi
  have hin := hcursor (Nat.zero_lt_of_lt hlt)
  rw [Nat.mod_eq_of_lt (a := s.rrCursor + i) (by omega)]

/-- Requests that wait, in the order in which the round looks at them. -/
def CbState.queue (s : CbState) : List ℕ := s.order.filter s.waiting

theorem picked_eq_take (limit : ℕ) (s : CbState) : s.picked limit = s.queue.take limit := Eq.refl _

/-- The cursor turns the list of requests. -/
theorem order_eq_rotate (s : CbState) : s.order = (List.range s.reqs.length).rotate s.rrCursor := by
  apply List.ext_getElem
  · simp [CbState.order]
  · intro k hk hk'
    simp [CbState.order, List.getElem_rotate, Nat.add_comm]

/-- After a round that does not pick all waiting requests those that it left wait first. -/
theorem queue_step (hlong : limit < s.queue.length) (hpos : 0 < limit) :
    ∃ rest, (decodeRound isEos sampled limit s).queue = s.queue.drop limit ++ rest := by
  obtain ⟨picks, hfst, htakes⟩ := decodeRound_takes isEos sampled limit s
  have hpicked : s.picked limit ≠ [] := by
    intro h
    have hlength := congrArg List.length h
    rw [picked_eq_take, List.length_take, List.length_nil] at hlength
    omega
  -- The last request picked splits the order in two.
  obtain ⟨init, last, hinit⟩ : ∃ init last, s.picked limit = init ++ [last] :=
    ⟨_, _, (List.dropLast_append_getLast hpicked).symm⟩
  have hmem : last ∈ s.order := by
    have hlast : last ∈ s.picked limit := by
      rw [hinit]
      exact List.mem_append_right init (List.mem_singleton_self last)
    exact (List.mem_filter.mp (List.mem_of_mem_take hlast)).1
  obtain ⟨before, after, horder⟩ := List.append_of_mem hmem
  have hnodup := nodup_order s
  rw [horder] at hnodup
  have hlast : last ∉ before ∧ last ∉ after := by
    rw [List.nodup_middle, List.nodup_cons, List.mem_append, not_or] at hnodup
    exact hnodup.1
  have hwait : s.waiting last = true := by
    have hlast : last ∈ s.picked limit := by
      rw [hinit]
      exact List.mem_append_right init (List.mem_singleton_self last)
    exact waiting_of_picked hlast
  have hqueue : s.queue = before.filter s.waiting ++ last :: after.filter s.waiting := by
    rw [CbState.queue, horder, List.filter_append, List.filter_cons_of_pos hwait]
  have hparts : before.filter s.waiting = init ∧ after.filter s.waiting = s.queue.drop limit := by
    have hwhole : init ++ last :: s.queue.drop limit =
        before.filter s.waiting ++ last :: after.filter s.waiting := by
      rw [← hqueue]
      calc init ++ last :: s.queue.drop limit
          = (init ++ [last]) ++ s.queue.drop limit := by simp
        _ = s.queue.take limit ++ s.queue.drop limit := by rw [← hinit, picked_eq_take]
        _ = s.queue := List.take_append_drop limit _
    have hbefore : last ∉ before.filter s.waiting := fun h => hlast.1 (List.mem_filter.mp h).1
    have hafter : last ∉ after.filter s.waiting := fun h => hlast.2 (List.mem_filter.mp h).1
    have hequal := (List.append_cons_inj_of_notMem hbefore hafter).mp hwhole.symm
    exact ⟨hequal.1, hequal.2.2⟩
  -- The next round looks at the part after it first.
  have hturned : (decodeRound isEos sampled limit s).order = after ++ (before ++ [last]) := by
    have hcursor : (decodeRound isEos sampled limit s).rrCursor = (last + 1) % s.reqs.length := by
      rw [htakes.rrCursor, hinit]
      simp
    have hplace : last = (s.rrCursor + before.length) % s.reqs.length := by
      have hget : s.order[before.length]? = some last := by
        rw [horder, List.getElem?_append_right (Nat.le_refl _), Nat.sub_self]
        exact Eq.refl _
      unfold CbState.order at hget
      rw [List.getElem?_map] at hget
      obtain ⟨i, hi, heq⟩ := Option.map_eq_some_iff.mp hget
      rw [List.getElem?_eq_some_iff] at hi
      obtain ⟨_, hi⟩ := hi
      rw [List.getElem_range] at hi
      rw [← heq, hi]
    have hmod : (last + 1) % s.reqs.length = (s.rrCursor + (before.length + 1)) % s.reqs.length := by
      rw [hplace, Nat.mod_add_mod, Nat.add_assoc]
    have hrotate : ∀ k, (List.range s.reqs.length).rotate (k % s.reqs.length) =
        (List.range s.reqs.length).rotate k := by
      intro k
      have hmodulo := List.rotate_mod (List.range s.reqs.length) k
      rw [List.length_range] at hmodulo
      exact hmodulo
    have hcount : before.length + 1 = (before ++ [last]).length := by simp
    calc (decodeRound isEos sampled limit s).order
        = (List.range s.reqs.length).rotate (s.rrCursor + (before.length + 1)) := by
          rw [order_eq_rotate, htakes.length, hcursor, hmod, hrotate]
      _ = s.order.rotate (before ++ [last]).length := by
          rw [order_eq_rotate, List.rotate_rotate, hcount]
      _ = ((before ++ [last]) ++ after).rotate (before ++ [last]).length := by
          rw [horder, List.append_cons]
      _ = after ++ (before ++ [last]) := List.rotate_append_length_eq _ _
  have hsame : after.filter (decodeRound isEos sampled limit s).waiting = after.filter s.waiting := by
    apply List.filter_congr
    intro idx hidx
    have hother : idx ∉ picks.map Prod.fst := by
      rw [hfst, hinit, ← hparts.1]
      intro h
      cases List.mem_append.mp h with
      | inl hin =>
        have hdisjoint := (List.nodup_append.mp hnodup).2.2
        exact hdisjoint idx (List.mem_filter.mp hin).1 idx (List.mem_cons_of_mem last hidx) (Eq.refl _)
      | inr heq => exact hlast.2 (List.mem_singleton.mp heq ▸ hidx)
    unfold CbState.waiting
    rw [htakes.kept idx hother]
  refine ⟨(before ++ [last]).filter (decodeRound isEos sampled limit s).waiting, ?_⟩
  rw [CbState.queue, hturned, List.filter_append, hsame, hparts.2]

/-- Number of requests that are not finished. -/
def CbState.unfinished (s : CbState) : ℕ := s.reqs.countP fun req => !req.finished

/-- Elements counted by their indexes. -/
theorem countP_range {α : Type} (l : List α) (p : α → Bool) :
    (List.range l.length).countP (fun i => (l[i]?).any p) = l.countP p := by
  induction l using List.reverseRecOn with
  | nil => exact Eq.refl _
  | append_singleton l a ih =>
    have hfront : (List.range l.length).countP (fun i => ((l ++ [a])[i]?).any p) =
        (List.range l.length).countP fun i => (l[i]?).any p := by
      apply List.countP_congr
      intro i hi
      rw [List.getElem?_append_left (List.mem_range.mp hi)]
    rw [List.length_append, List.length_singleton, List.range_succ, List.countP_append,
      List.countP_append, hfront, ih]
    simp [List.countP_singleton]

/-- All unfinished requests wait. -/
theorem queue_length (h : s.Bounded) : s.queue.length = s.unfinished := by
  have hwaiting : ∀ i ∈ List.range s.reqs.length,
      s.waiting i = (s.reqs[i]?).any fun req => !req.finished := by
    intro i hi
    have hget := List.getElem?_eq_getElem (List.mem_range.mp hi)
    unfold CbState.waiting
    rw [hget]
    simp only [Option.any_some]
    have hmem := List.getElem_mem (List.mem_range.mp hi)
    cases hfin : (s.reqs.get ⟨i, List.mem_range.mp hi⟩).finished with
    | true => exact Eq.refl _
    | false => simp [h _ hmem hfin]
  have hperm : s.order.Perm (List.range s.reqs.length) := by
    rw [order_eq_rotate]
    exact List.rotate_perm _ _
  have hcount : (List.range s.reqs.length).countP s.waiting =
      (List.range s.reqs.length).countP fun i => (s.reqs[i]?).any fun req => !req.finished :=
    List.countP_congr fun i hi => by rw [hwaiting i hi]
  rw [CbState.queue, ← List.countP_eq_length_filter, hperm.countP_eq, hcount, countP_range,
    CbState.unfinished]

/-- Positions that are left to the requests. -/
def CbState.room (s : CbState) : ℕ :=
  ∑ i ∈ Finset.range s.reqs.length, (s.reqs[i]?).elim 0 fun req => req.maxPos - req.pos

/-- A round that picks requests takes of their positions. -/
theorem room_step (hpicked : s.picked limit ≠ []) (hcounted : s.Counted) :
    (decodeRound isEos sampled limit s).room < s.room := by
  have hround : RoundRight isEos sampled limit s := roundRight_of_counted hcounted
  obtain ⟨picks, _, htakes⟩ := decodeRound_takes isEos sampled limit s
  obtain ⟨idx, hidx⟩ := List.exists_mem_of_ne_nil _ hpicked
  unfold CbState.room
  rw [htakes.length]
  have hless : ∀ i ∈ s.picked limit,
      ((decodeRound isEos sampled limit s).reqs[i]?).elim 0 (fun req => req.maxPos - req.pos) <
        (s.reqs[i]?).elim 0 fun req => req.maxPos - req.pos := by
    intro i hi
    obtain ⟨req, next, hreq, hnext, hpos, hle, hmax⟩ := hround.advance i hi
    rw [hreq, hnext]
    simp only [Option.elim_some]
    omega
  apply Finset.sum_lt_sum
  · intro i _
    by_cases hi : i ∈ s.picked limit
    · exact le_of_lt (hless i hi)
    · rw [hround.others i hi]
  · have hlt := lt_of_waiting (waiting_of_picked hidx)
    exact ⟨idx, Finset.mem_range.mpr hlt, hless idx hidx⟩

end Round

section Run

variable {isEos : ℤ → Bool} {sampled : ℕ → ℕ → ℤ} {limit : ℕ} {s : CbState}

/-- A state in which a round starts. -/
theorem decodeRun_succ {k : ℕ} {next : CbState} (hrun : decodeRun isEos sampled limit s k = some next)
    (hcontinues : (decodeRound isEos (sampled k) limit next).continues limit) :
    decodeRun isEos sampled limit s (k + 1) = some (decodeRound isEos (sampled k) limit next) := by
  rw [decodeRun, hrun, Option.bind_some]
  exact if_pos hcontinues

/-- Every state in which a round starts is counted and bounded, and rounds take of the positions. -/
theorem decodeRun_counted (hcounted : s.Counted) (hbounded : s.Bounded) {k : ℕ} {next : CbState}
    (hrun : decodeRun isEos sampled limit s k = some next) :
    next.Counted ∧ next.Bounded ∧ next.continues limit ∧ next.room + k ≤ s.room := by
  induction k generalizing next with
  | zero =>
    rw [decodeRun] at hrun
    split at hrun
    · rename_i hcontinues
      injection hrun with hrun
      rw [← hrun]
      exact ⟨hcounted, hbounded, hcontinues, Nat.le_refl _⟩
    · cases hrun
  | succ k ih =>
    rw [decodeRun] at hrun
    obtain ⟨before, hbefore, hrun⟩ := Option.bind_eq_some_iff.mp hrun
    simp only at hrun
    split at hrun
    · rename_i hcontinues
      injection hrun with hrun
      obtain ⟨hcount, hbound, hgoes, hroom⟩ := ih hbefore
      have hless : (decodeRound isEos (sampled k) limit before).room < before.room :=
        room_step hgoes.2 hcount
      rw [← hrun]
      refine ⟨(roundRight_of_counted hcount).counted.2, bounded_step hbound, hcontinues, ?_⟩
      omega
    · cases hrun

/-- The cursor always stands at a request, of which there are as many as before. -/
theorem decodeRun_cursorIn (hcursor : s.CursorIn) {k : ℕ} {next : CbState}
    (hrun : decodeRun isEos sampled limit s k = some next) :
    next.CursorIn ∧ next.reqs.length = s.reqs.length := by
  induction k generalizing next with
  | zero =>
    rw [decodeRun] at hrun
    split at hrun
    · injection hrun with hrun
      rw [← hrun]
      exact ⟨hcursor, Eq.refl _⟩
    · cases hrun
  | succ k ih =>
    rw [decodeRun] at hrun
    obtain ⟨before, hbefore, hrun⟩ := Option.bind_eq_some_iff.mp hrun
    simp only at hrun
    split at hrun
    · injection hrun with hrun
      obtain ⟨picks, _, htakes⟩ := decodeRound_takes isEos (sampled k) limit before
      rw [← hrun]
      exact ⟨cursorIn_step, htakes.length.trans (ih hbefore).2⟩
    · cases hrun

/-- The loop ends. -/
theorem decodeRun_terminates (hcounted : s.Counted) (hbounded : s.Bounded) :
    ∃ k, decodeRun isEos sampled limit s k = none := by
  refine ⟨s.room + 1, ?_⟩
  cases hrun : decodeRun isEos sampled limit s (s.room + 1) with
  | none => exact Eq.refl _
  | some next =>
    obtain ⟨_, _, _, hroom⟩ := decodeRun_counted hcounted hbounded hrun
    omega

/-- A waiting request is picked once the requests before it have been. -/
theorem picked_after (hlimit : 0 < limit) {d k : ℕ} {next : CbState} (hcounted : next.Counted)
    (hrun : decodeRun isEos sampled limit s k = some next) {before after : List ℕ} {idx : ℕ}
    (hqueue : next.queue = before ++ idx :: after) (hd : before.length / limit = d) :
    ∃ later, decodeRun isEos sampled limit s (k + d) = some later ∧ idx ∈ later.picked limit := by
  induction d generalizing k next before after with
  | zero =>
    have hshort : before.length < limit := by
      by_contra hnot
      have hpos := Nat.div_pos (Nat.le_of_not_lt hnot) hlimit
      omega
    have hget : next.queue[before.length]? = some idx := by
      rw [hqueue, List.getElem?_append_right (Nat.le_refl _), Nat.sub_self]
      exact Eq.refl _
    refine ⟨next, hrun, ?_⟩
    rw [picked_eq_take]
    apply List.mem_iff_getElem?.mpr
    exact ⟨before.length, by rw [List.getElem?_take_of_lt hshort, hget]⟩
  | succ d ih =>
    have hlong : limit ≤ before.length := by
      by_contra hnot
      have hzero := Nat.div_eq_of_lt (Nat.lt_of_not_le hnot)
      omega
    have hlength : limit < next.queue.length := by
      rw [hqueue, List.length_append, List.length_cons]
      omega
    obtain ⟨rest, hstep⟩ : ∃ rest, (decodeRound isEos (sampled k) limit next).queue =
        next.queue.drop limit ++ rest := queue_step hlength hlimit
    have hnext : (decodeRound isEos (sampled k) limit next).queue =
        before.drop limit ++ idx :: (after ++ rest) := by
      rw [hstep, hqueue, List.drop_append_of_le_length hlong, List.append_assoc, List.cons_append]
    have hright : RoundRight isEos (sampled k) limit next := roundRight_of_counted hcounted
    have hcount := hright.counted.2
    have hcontinues : (decodeRound isEos (sampled k) limit next).continues limit := by
      have hmem : idx ∈ (decodeRound isEos (sampled k) limit next).queue := by
        rw [hnext]
        exact List.mem_append_right _ List.mem_cons_self
      have hwait := (List.mem_filter.mp hmem).2
      obtain ⟨req, hreq, hfin, _⟩ := (waiting_iff _ idx).mp hwait
      constructor
      · rw [hcount]
        apply List.countP_pos_iff.mpr
        exact ⟨req, List.mem_of_getElem? hreq, by simp [hfin]⟩
      · intro hnone
        rw [picked_eq_take] at hnone
        cases List.take_eq_nil_iff.mp hnone with
        | inl h => omega
        | inr h =>
          rw [h] at hmem
          cases hmem
    have hfewer : (before.drop limit).length / limit = d := by
      have hdiv := Nat.div_eq_sub_div hlimit hlong
      rw [List.length_drop]
      omega
    obtain ⟨later, hlater, hpicked⟩ := ih hcount (decodeRun_succ hrun hcontinues) hnext hfewer
    have hsum : k + 1 + d = k + (d + 1) := by omega
    rw [hsum] at hlater
    exact ⟨later, hlater, hpicked⟩

end Run

/-- What the rounds of a run keep. -/
structure Scheduled (isEos : ℤ → Bool) (sampled : ℕ → ℕ → ℤ) (limit : ℕ) (s : CbState) : Prop where
  /-- The loop ends. -/
  terminates : ∃ k, decodeRun isEos sampled limit s k = none
  /-- Every round is right. -/
  rounds : ∀ k next, decodeRun isEos sampled limit s k = some next →
    RoundRight isEos (sampled k) limit next
  /-- An unfinished request is picked in one of the next rounds, of which there are as many as it takes to
  pick all unfinished requests. -/
  fair : ∀ k next, decodeRun isEos sampled limit s k = some next →
    ∀ (idx : ℕ) req, next.reqs[idx]? = some req → req.finished = false →
      ∃ d < (next.unfinished + limit - 1) / limit, ∃ later,
        decodeRun isEos sampled limit s (k + d) = some later ∧ idx ∈ later.picked limit
  /-- For up to `2 ^ 31` prompts a round that adds up in 32-bit words looks at the requests in the same
  order. -/
  words : s.reqs.length ≤ 2 ^ 31 → ∀ k next, decodeRun isEos sampled limit s k = some next →
    next.wordOrder = next.order

/-- The rounds of the driver end, pick no request twice and none too late, and count the requests that are
left, for every file of prompts and whatever is sampled. -/
theorem continuous_batching_scheduled {args : AppCliArgs} {encode : String → List ℤ}
    {lines : List String} {s : CbState} (h : startDecode args encode lines = .ok s)
    (isEos : ℤ → Bool) (sampled : ℕ → ℕ → ℤ) :
    s.Counted ∧ Scheduled isEos sampled (maxActive args) s := by
  obtain ⟨hstart, _, hactive, hfits⟩ := startDecode_ok h
  have hcounted : s.Counted := by
    rw [hstart]
    exact (turn_startState args isEos sampled (promptTokens encode lines)).counted
  have hbounded : s.Bounded := by
    rw [hstart]
    intro req hreq _
    obtain ⟨tokens, htokens, heq⟩ := List.mem_map.mp hreq
    have hbounds := hfits tokens htokens
    rw [← heq]
    simp only [CbRequestState.prefilled, newRequest]
    omega
  have hcursor : s.CursorIn := by
    rw [hstart]
    exact fun hpos => hpos
  refine ⟨hcounted, decodeRun_terminates hcounted hbounded, ?_, ?_, ?_⟩
  · intro k next hrun
    exact roundRight_of_counted (decodeRun_counted hcounted hbounded hrun).1
  · intro k next hrun idx req hreq hfin
    obtain ⟨hcount, hbound, _, _⟩ := decodeRun_counted hcounted hbounded hrun
    have hwait : next.waiting idx = true :=
      (waiting_iff next idx).mpr ⟨req, hreq, hfin, hbound req (List.mem_of_getElem? hreq) hfin⟩
    have hmem : idx ∈ next.queue := by
      apply List.mem_filter.mpr
      refine ⟨?_, hwait⟩
      rw [order_eq_rotate]
      exact List.mem_rotate.mpr (List.mem_range.mpr (lt_of_waiting hwait))
    obtain ⟨before, after, hqueue⟩ := List.append_of_mem hmem
    have hlength : before.length < next.unfinished := by
      rw [← queue_length hbound, hqueue, List.length_append, List.length_cons]
      omega
    have hwithin : before.length / maxActive args <
        (next.unfinished + maxActive args - 1) / maxActive args := by
      rw [Nat.div_lt_iff_lt_mul hactive]
      have hceil : next.unfinished ≤
          (next.unfinished + maxActive args - 1) / maxActive args * maxActive args := by
        have hdiv := Nat.div_add_mod (next.unfinished + maxActive args - 1) (maxActive args)
        have hmod := Nat.mod_lt (next.unfinished + maxActive args - 1) hactive
        rw [Nat.mul_comm] at hdiv
        omega
      omega
    exact ⟨_, hwithin, picked_after hactive hcount hrun hqueue (Eq.refl _)⟩
  · intro hfew k next hrun
    obtain ⟨hin, hlength⟩ := decodeRun_cursorIn hcursor hrun
    exact wordOrder_eq hin (hlength ▸ hfew)

/-- Three prompts and rounds of up to two requests. -/
theorem continuous_batching_scheduled_three :
    (startState twoActive [[1, 7], [1, 8], [1, 9]]).Counted ∧
      Scheduled (fun _ => false) (fun _ _ => 2) (maxActive twoActive)
        (startState twoActive [[1, 7], [1, 8], [1, 9]]) := by
  have hstart : startDecode twoActive
      (fun prompt => if prompt = "a" then [1, 7] else if prompt = "b" then [1, 8] else [1, 9])
      ["a", "b", "c"] = .ok (startState twoActive [[1, 7], [1, 8], [1, 9]]) := Eq.refl _
  exact continuous_batching_scheduled hstart (fun _ => false) (fun _ _ => 2)

end LayerSkip.ContinuousBatching
