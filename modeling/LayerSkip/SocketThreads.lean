import LayerSkip.RandomDescent
import Mathlib.Algebra.BigOperators.Group.Finset.Basic
import Mathlib.Algebra.Order.BigOperators.Group.Finset
import Mathlib.Algebra.Ring.Nat
import Mathlib.Data.List.Basic

/-!
# Threads that share the sockets of their node

Every node holds a memory that all its threads read and write, and one socket per
peer. A thread runs a list of calls; a call moves the cells of several entries, each
through its own socket, in any order of progress. A step moves one cell, so sends and
receives of any size and any interleaving of the threads are sequences of steps.
-/

namespace LayerSkip.SocketThreads

open RandomDescent

/-- Entry of a call: its socket, the next address and the number of cells left. -/
structure IoEntry where
  /-- Slot of the socket. -/
  socketIndex : ℕ
  /-- Address of the next cell. -/
  data : ℕ
  /-- Cells left. -/
  size : ℕ
  deriving DecidableEq, Repr

/-- A blocking call of a thread. -/
inductive IoCall
  /-- Send the cells of every entry. -/
  | writeMany (ios : List IoEntry)
  /-- Receive the cells of every entry. -/
  | readMany (ios : List IoEntry)
  deriving DecidableEq, Repr

/-- The entries of a call. -/
def IoCall.ios : IoCall → List IoEntry
  | .writeMany ios => ios
  | .readMany ios => ios

/-- The list after one cell of the entry at an index moved. -/
def advance : List IoEntry → ℕ → List IoEntry
  | [], _ => []
  | io :: ios, 0 => ⟨io.socketIndex, io.data + 1, io.size - 1⟩ :: ios
  | io :: ios, i + 1 => io :: advance ios i

/-- Memories, the calls that each thread still has to make, and the cells in flight. -/
structure World (α : Type*) where
  /-- Memory of every node. -/
  mem : ℕ → ℕ → α
  /-- Calls of every thread, named by its node and its index; the first is in progress. -/
  calls : ℕ × ℕ → List IoCall
  /-- Cells sent by the first node and not yet received by the second. -/
  wire : ℕ × ℕ → List α

variable {α : Type*}

/-- One cell moves or one finished call returns. Links hold at most `cap` cells; `peer`
gives the node at the other end of a socket. -/
inductive Step (peer : ℕ → ℕ → ℕ) (cap : ℕ) (w : World α) : World α → Prop
  | send {p t i : ℕ} {ios : List IoEntry} {io : IoEntry} {rest : List IoCall} :
      w.calls (p, t) = .writeMany ios :: rest → ios[i]? = some io → 0 < io.size →
      (w.wire (p, peer p io.socketIndex)).length < cap →
      Step peer cap w
        { mem := w.mem
          calls := Function.update w.calls (p, t) (.writeMany (advance ios i) :: rest)
          wire := Function.update w.wire (p, peer p io.socketIndex)
            (w.wire (p, peer p io.socketIndex) ++ [w.mem p io.data]) }
  | recv {p t i : ℕ} {ios : List IoEntry} {io : IoEntry} {rest : List IoCall} {a : α}
      {as : List α} :
      w.calls (p, t) = .readMany ios :: rest → ios[i]? = some io → 0 < io.size →
      w.wire (peer p io.socketIndex, p) = a :: as →
      Step peer cap w
        { mem := Function.update w.mem p (Function.update (w.mem p) io.data a)
          calls := Function.update w.calls (p, t) (.readMany (advance ios i) :: rest)
          wire := Function.update w.wire (peer p io.socketIndex, p) as }
  | finish {p t : ℕ} {call : IoCall} {rest : List IoCall} :
      w.calls (p, t) = call :: rest → (∀ io ∈ call.ios, io.size = 0) →
      Step peer cap w { w with calls := Function.update w.calls (p, t) rest }

section Work

/-- Cells that the entries still have to move. -/
def cellsLeft (ios : List IoEntry) : ℕ := (ios.map IoEntry.size).sum

/-- Steps that a list of calls still takes. -/
def work (calls : List IoCall) : ℕ := (calls.map fun call => cellsLeft call.ios + 1).sum

theorem cellsLeft_advance {ios : List IoEntry} {i : ℕ} {io : IoEntry} (h : ios[i]? = some io)
    (hpos : 0 < io.size) : cellsLeft (advance ios i) + 1 = cellsLeft ios := by
  induction ios generalizing i with
  | nil => simp at h
  | cons first ios ih =>
    cases i with
    | zero =>
      have hfirst : first = io := by simpa using h
      simp only [advance, cellsLeft, List.map_cons, List.sum_cons, hfirst]
      omega
    | succ i =>
      have hrest := ih (by simpa using h)
      simp only [advance, cellsLeft, List.map_cons, List.sum_cons] at hrest ⊢
      omega

theorem work_cons (call : IoCall) (calls : List IoCall) :
    work (call :: calls) = cellsLeft call.ios + 1 + work calls := by
  simp only [work, List.map_cons, List.sum_cons]

/-- A step changes the calls of one thread, which has less work afterwards. -/
theorem Step.shape {peer : ℕ → ℕ → ℕ} {cap : ℕ} {w w' : World α} (h : Step peer cap w w') :
    ∃ thread calls, w'.calls = Function.update w.calls thread calls ∧
      work calls < work (w.calls thread) := by
  cases h with
  | send hcalls hio hpos hroom =>
    have hleft := cellsLeft_advance hio hpos
    refine ⟨_, _, rfl, ?_⟩
    rw [hcalls, work_cons, work_cons, IoCall.ios, IoCall.ios]
    omega
  | recv hcalls hio hpos hwire =>
    have hleft := cellsLeft_advance hio hpos
    refine ⟨_, _, rfl, ?_⟩
    rw [hcalls, work_cons, work_cons, IoCall.ios, IoCall.ios]
    omega
  | finish hcalls hzero =>
    refine ⟨_, _, rfl, ?_⟩
    rw [hcalls, work_cons]
    omega

/-- Steps that the given threads still take together. -/
def totalWork (threads : Finset (ℕ × ℕ)) (w : World α) : ℕ := ∑ x ∈ threads, work (w.calls x)

/-- When only the given threads have calls, a step lessens their work. -/
theorem Step.totalWork_lt {peer : ℕ → ℕ → ℕ} {cap : ℕ} {threads : Finset (ℕ × ℕ)}
    {w w' : World α} (h : Step peer cap w w') (hout : ∀ x, x ∉ threads → w.calls x = []) :
    totalWork threads w' < totalWork threads w := by
  obtain ⟨thread, calls, hcalls, hless⟩ := h.shape
  have hmem : thread ∈ threads := by
    by_contra hnot
    rw [hout thread hnot] at hless
    exact absurd hless (by simp [work])
  refine Finset.sum_lt_sum ?_ ⟨thread, hmem, ?_⟩
  · intro x _
    rw [hcalls]
    by_cases hx : x = thread
    · rw [hx, Function.update_self]
      omega
    · rw [Function.update_of_ne hx]
  · rw [hcalls, Function.update_self]
    exact hless

/-- A run takes at most as many steps as the work at its start. -/
theorem steps_le {peer : ℕ → ℕ → ℕ} {cap n : ℕ} {threads : Finset (ℕ × ℕ)} {w w' : World α}
    (P : World α → Prop) (hstep : ∀ a b, P a → Step peer cap a b → P b)
    (hout : ∀ a, P a → ∀ x, x ∉ threads → a.calls x = [])
    (h : Steps (Step peer cap) n w w') (hw : P w) : n + totalWork threads w' ≤ totalWork threads w := by
  induction h with
  | refl a => omega
  | head hab _ ih =>
    have hless := hab.totalWork_lt (hout _ hw)
    have hrest := ih (hstep _ _ hw hab)
    omega

end Work

section Rows

/-- The entries that move the row ending before `stop`, one per socket, when `cursor`
cells of the socket's stream have moved. -/
def rowIos (sockets : List ℕ) (stop : ℕ) (cursor : ℕ → ℕ) : List IoEntry :=
  sockets.map fun s => ⟨s, cursor s, stop - cursor s⟩

/-- A thread that moves `rows` rows of `len` cells through its sockets, each row by one
call, has moved `cursor` cells of the stream of each. -/
inductive InRows (mk : List IoEntry → IoCall) (sockets : List ℕ) (len rows : ℕ)
    (cursor : ℕ → ℕ) : List IoCall → Prop
  | within {b : ℕ} : b < rows → (∀ s ∈ sockets, b * len ≤ cursor s ∧ cursor s ≤ (b + 1) * len) →
      InRows mk sockets len rows cursor
        (mk (rowIos sockets ((b + 1) * len) cursor) ::
          (List.range' (b + 1) (rows - (b + 1))).map fun b =>
            mk (sockets.map fun s => ⟨s, b * len, len⟩))
  | ended : (∀ s ∈ sockets, cursor s = rows * len) → InRows mk sockets len rows cursor []

variable {mk : List IoEntry → IoCall} {sockets : List ℕ} {len rows : ℕ} {cursor : ℕ → ℕ}
  {calls : List IoCall}

/-- A row not yet begun is described by the cursor at its first cell. -/
theorem rowIos_first {b : ℕ} (h : ∀ s ∈ sockets, cursor s = b * len) :
    rowIos sockets ((b + 1) * len) cursor = sockets.map fun s => ⟨s, b * len, len⟩ := by
  refine List.map_congr_left fun s hs => ?_
  have hsize : (b + 1) * len - b * len = len := by
    rw [Nat.add_mul, Nat.one_mul]
    exact Nat.add_sub_cancel_left _ _
  rw [h s hs, hsize]

/-- The calls from some row on, none of whose cells have moved. -/
theorem InRows.of_first {b : ℕ} (hb : b ≤ rows) (h : ∀ s ∈ sockets, cursor s = b * len) :
    InRows mk sockets len rows cursor
      ((List.range' b (rows - b)).map fun b => mk (sockets.map fun s => ⟨s, b * len, len⟩)) := by
  rcases Nat.lt_or_ge b rows with hlt | hge
  · have hcount : rows - b = rows - (b + 1) + 1 := by omega
    have hrow : b * len ≤ (b + 1) * len := Nat.mul_le_mul_right len (Nat.le_succ b)
    rw [hcount, List.range'_succ, List.map_cons, ← rowIos_first h]
    exact .within hlt fun s hs => by rw [h s hs]; exact ⟨Nat.le_refl _, hrow⟩
  · have hall : b = rows := by omega
    rw [hall, Nat.sub_self, List.range'_zero, List.map_nil]
    exact .ended fun s hs => by rw [h s hs, hall]

/-- At the start no cell has moved. -/
theorem InRows.start (mk : List IoEntry → IoCall) (sockets : List ℕ) (len rows : ℕ) :
    InRows mk sockets len rows (fun _ => 0)
      ((List.range rows).map fun b => mk (sockets.map fun s => ⟨s, b * len, len⟩)) := by
  rw [List.range_eq_range']
  exact InRows.of_first (Nat.zero_le _) fun s _ => (Nat.zero_mul len).symm

/-- Only the cursors of the thread's own sockets matter. -/
theorem InRows.congr {cursor' : ℕ → ℕ} (h : InRows mk sockets len rows cursor calls)
    (hsame : ∀ s ∈ sockets, cursor' s = cursor s) : InRows mk sockets len rows cursor' calls := by
  cases h with
  | @within b hb hrow =>
    have hios : rowIos sockets ((b + 1) * len) cursor = rowIos sockets ((b + 1) * len) cursor' :=
      List.map_congr_left fun s hs => by rw [hsame s hs]
    rw [hios]
    exact .within hb fun s hs => by rw [hsame s hs]; exact hrow s hs
  | ended hall => exact .ended fun s hs => by rw [hsame s hs]; exact hall s hs

theorem rowIos_cons (s : ℕ) (sockets : List ℕ) (stop : ℕ) (cursor : ℕ → ℕ) :
    rowIos (s :: sockets) stop cursor = ⟨s, cursor s, stop - cursor s⟩ :: rowIos sockets stop cursor :=
  rfl

/-- Moving a cell of an entry moves the cursor of its socket. -/
theorem advance_rowIos {stop i s : ℕ} (hnodup : sockets.Nodup) (hs : sockets[i]? = some s) :
    advance (rowIos sockets stop cursor) i =
      rowIos sockets stop (Function.update cursor s (cursor s + 1)) := by
  induction sockets generalizing i with
  | nil => simp at hs
  | cons first sockets ih =>
    have hparts := List.nodup_cons.mp hnodup
    cases i with
    | zero =>
      have hfirst : first = s := by simpa using hs
      have hrest : rowIos sockets stop cursor =
          rowIos sockets stop (Function.update cursor s (cursor s + 1)) := by
        refine List.map_congr_left fun x hx => ?_
        have hne : x ≠ s := fun he => hparts.1 (hfirst ▸ he ▸ hx)
        rw [Function.update_of_ne hne]
      rw [rowIos_cons, rowIos_cons, advance, hfirst, Function.update_self, ← hrest]
      dsimp only
      rw [Nat.sub_sub]
    | succ i =>
      have hrest : sockets[i]? = some s := by simpa using hs
      have hne : first ≠ s := by
        intro he
        exact hparts.1 (he ▸ List.mem_of_getElem? hrest)
      rw [rowIos_cons, rowIos_cons, advance, ih hparts.2 hrest, Function.update_of_ne hne]

theorem rowIos_getElem? {stop i : ℕ} {io : IoEntry} (h : (rowIos sockets stop cursor)[i]? = some io) :
    ∃ s, sockets[i]? = some s ∧ io = ⟨s, cursor s, stop - cursor s⟩ := by
  unfold rowIos at h
  rw [List.getElem?_map, Option.map_eq_some_iff] at h
  obtain ⟨s, hs, hio⟩ := h
  exact ⟨s, hs, hio.symm⟩

/-- Moving a cell: it is the next one of the stream of the entry's socket, and the
thread goes on from there. -/
theorem InRows.advance {ios : List IoEntry} {rest : List IoCall} {i : ℕ} {io : IoEntry}
    (h : InRows mk sockets len rows cursor calls) (hnodup : sockets.Nodup)
    (hmk : Function.Injective mk) (hcalls : calls = mk ios :: rest) (hio : ios[i]? = some io)
    (hpos : 0 < io.size) :
    io.socketIndex ∈ sockets ∧ io.data = cursor io.socketIndex ∧
      cursor io.socketIndex < rows * len ∧
      InRows mk sockets len rows
        (Function.update cursor io.socketIndex (cursor io.socketIndex + 1))
        (mk (advance ios i) :: rest) := by
  cases h with
  | @within b hb hrow =>
    injection hcalls with hhead hrest
    have hios := hmk hhead
    rw [← hios] at hio
    obtain ⟨s, hs, hentry⟩ := rowIos_getElem? hio
    have hmem := List.mem_of_getElem? hs
    rw [hentry] at hpos
    have hless : cursor s < (b + 1) * len := Nat.lt_of_sub_pos hpos
    have hend : (b + 1) * len ≤ rows * len := Nat.mul_le_mul_right len hb
    rw [hentry]
    dsimp only
    refine ⟨hmem, rfl, Nat.lt_of_lt_of_le hless hend, ?_⟩
    rw [← hios, advance_rowIos hnodup hs, ← hrest]
    refine .within hb fun x hx => ?_
    by_cases hxs : x = s
    · rw [hxs, Function.update_self]
      have hx' := hrow s hmem
      omega
    · rw [Function.update_of_ne hxs]
      exact hrow x hx
  | ended _ => cases hcalls

/-- A finished call leaves the thread in front of its next row. -/
theorem InRows.finish {call : IoCall} {rest : List IoCall}
    (h : InRows mk sockets len rows cursor calls) (hmk : ∀ ios, (mk ios).ios = ios)
    (hcalls : calls = call :: rest) (hzero : ∀ io ∈ call.ios, io.size = 0) :
    InRows mk sockets len rows cursor rest := by
  cases h with
  | @within b hb hrow =>
    injection hcalls with hhead hrest
    rw [← hhead, hmk] at hzero
    rw [← hrest]
    refine InRows.of_first hb fun s hs => ?_
    have hsize := hzero _ (List.mem_map_of_mem hs)
    dsimp only at hsize
    have hrows := hrow s hs
    omega
  | ended _ => cases hcalls

/-- No stream is ahead of its end. -/
theorem InRows.cursor_le (h : InRows mk sockets len rows cursor calls) {s : ℕ} (hs : s ∈ sockets) :
    cursor s ≤ rows * len := by
  cases h with
  | within hb hrow =>
    have hend := Nat.mul_le_mul_right len (Nat.succ_le_of_lt hb)
    exact (hrow s hs).2.trans hend
  | ended hall => exact Nat.le_of_eq (hall s hs)

/-- A thread with no call left has moved every row. -/
theorem InRows.of_nil (h : InRows mk sockets len rows cursor []) {s : ℕ} (hs : s ∈ sockets) :
    cursor s = rows * len := by
  cases h with
  | ended hall => exact hall s hs

/-- A thread with calls left can return from one or has a cell to move. -/
theorem InRows.next {call : IoCall} {rest : List IoCall}
    (h : InRows mk sockets len rows cursor (call :: rest)) :
    ∃ ios, call = mk ios ∧ ((∀ io ∈ ios, io.size = 0) ∨
      ∃ (i : ℕ) (io : IoEntry), ios[i]? = some io ∧ 0 < io.size ∧ io.socketIndex ∈ sockets) := by
  generalize hcalls : call :: rest = calls at h
  cases h with
  | @within b hb hrow =>
    injection hcalls with hhead hrest
    refine ⟨_, hhead, ?_⟩
    by_cases hzero : ∀ io ∈ rowIos sockets ((b + 1) * len) cursor, io.size = 0
    · exact .inl hzero
    · push Not at hzero
      obtain ⟨io, hio, hsize⟩ := hzero
      obtain ⟨i, hi⟩ := List.mem_iff_getElem?.mp hio
      obtain ⟨s, hs, hentry⟩ := rowIos_getElem? hi
      refine .inr ⟨i, io, hi, Nat.pos_of_ne_zero hsize, ?_⟩
      rw [hentry]
      exact List.mem_of_getElem? hs
  | ended _ => cases hcalls

end Rows

end LayerSkip.SocketThreads
