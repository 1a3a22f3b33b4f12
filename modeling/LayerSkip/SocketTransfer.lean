import Mathlib.Algebra.GroupWithZero.Nat
import Mathlib.Data.List.Basic
import Mathlib.Logic.Function.Basic
import Mathlib.Order.Basic
import Mathlib.Tactic.Common

/-!
# Transfers on sockets that do not block

Every send and receive moves some of the bytes that are asked for, or none for now, or fails. Five
loops go on until all bytes have moved, chunk by chunk, with a bound on the first attempts, or for
many sockets in turn; a loop gives up when nothing has moved for too long. A schedule says what each
call does and what the clock shows before and after it.
-/

namespace LayerSkip.SocketTransfer

/-- What a call on a socket does: it has nothing to do for now, moves at most one more than a number
of bytes, finds the socket closed, or fails. -/
inductive Answer
  | again
  | moves (more : ℕ)
  | closed
  | error
  deriving DecidableEq, Repr

/-- Calls in their order, with the clock before and after each of them. -/
structure Schedule where
  /-- What calls do. -/
  answer : ℕ → Answer
  /-- The clock before a call. -/
  before : ℕ → ℕ
  /-- The clock after a call. -/
  after : ℕ → ℕ
  /-- The clock does not go back. -/
  ordered : ∀ k, before k ≤ after k ∧ after k ≤ before (k + 1)

/-- Why a loop ends early. -/
inductive Stop
  | timeout
  | closed
  | failed
  deriving DecidableEq, Repr

/-- Bytes that one call has moved, from or to an address, for an entry of a list of transfers. -/
structure Transfer where
  /-- Entry. -/
  entry : ℕ
  /-- Socket. -/
  socket : ℕ
  /-- Address of the first byte. -/
  address : ℕ
  /-- Bytes. -/
  count : ℕ
  deriving DecidableEq, Repr

/-- A result with transfers before it. -/
def prepend {α : Type} (transfers : List Transfer) :
    Option (Except Stop (α × List Transfer)) → Option (Except Stop (α × List Transfer))
  | some (.ok (value, more)) => some (.ok (value, transfers ++ more))
  | other => other

/-- Bytes of a call, from the environment or not, between a page and a mebibyte. -/
def getNetIoChunkSize (parsed : Option ℕ) : ℕ :=
  match parsed with
  | none => 65536
  | some 0 => 65536
  | some parsed => min (max parsed 4096) 1048576

section OneSocket

variable (schedule : Schedule) (hardTimeoutMs socket : ℕ)

/-- The loop over calls on one socket: it returns whether all bytes have moved, and the number of
the next call. No attempts stand for no bound on them, and a bound is for the time before the first
byte. -/
def moveBytes (size : ℕ) : ℕ → ℕ → ℕ → ℕ → ℕ → ℕ →
    Option (Except Stop ((Bool × ℕ) × List Transfer))
  | 0, _, _, _, _, _ => none
  | fuel + 1, maxAttempts, call, lastProgressTime, data, s =>
    if s = 0 then some (.ok ((true, call), []))
    else
      match schedule.answer call with
      | .closed => some (.error .closed)
      | .error => some (.error .failed)
      | .again =>
        if s = size ∧ maxAttempts = 1 then some (.ok ((false, call + 1), []))
        else if hardTimeoutMs ≤ schedule.after call - lastProgressTime then some (.error .timeout)
        else moveBytes size fuel (if s = size then maxAttempts - 1 else maxAttempts) (call + 1)
          lastProgressTime data s
      | .moves more =>
        prepend [⟨0, socket, data, min (more + 1) s⟩]
          (moveBytes size fuel maxAttempts (call + 1) (schedule.after call)
            (data + min (more + 1) s) (s - min (more + 1) s))

/-- Send bytes. -/
def writeSocket (fuel call data size : ℕ) : Option (Except Stop ((Bool × ℕ) × List Transfer)) :=
  moveBytes schedule hardTimeoutMs socket size fuel 0 call (schedule.before call) data size

/-- Receive bytes, or none after a number of attempts. -/
def tryReadSocket (fuel call data size maxAttempts : ℕ) :
    Option (Except Stop ((Bool × ℕ) × List Transfer)) :=
  moveBytes schedule hardTimeoutMs socket size fuel maxAttempts call (schedule.before call) data
    size

/-- Receive bytes. -/
def readSocket (fuel call data size : ℕ) : Option (Except Stop ((Bool × ℕ) × List Transfer)) :=
  tryReadSocket schedule hardTimeoutMs socket fuel call data size 0

/-- The loop over chunks. What does not move its chunk is an error. -/
def moveChunks (move : ℕ → ℕ → ℕ → Option (Except Stop ((Bool × ℕ) × List Transfer)))
    (ioChunkSize size : ℕ) : ℕ → ℕ → ℕ → ℕ → Option (Except Stop (ℕ × List Transfer))
  | 0, _, _, _ => none
  | fuel + 1, chunk, call, current =>
    if size ≤ chunk then some (.ok (call, []))
    else
      let chunkSize := if chunk + ioChunkSize < size then ioChunkSize else size - chunk
      match move call current chunkSize with
      | none => none
      | some (.error stop) => some (.error stop)
      | some (.ok ((false, _), _)) => some (.error .failed)
      | some (.ok ((true, call), transfers)) =>
        prepend transfers
          (moveChunks move ioChunkSize size fuel (chunk + ioChunkSize) call (current + chunkSize))

/-- `NnNetwork::write`. -/
def write (ioChunkSize fuel data size : ℕ) : Option (Except Stop (ℕ × List Transfer)) :=
  moveChunks (writeSocket schedule hardTimeoutMs socket fuel) ioChunkSize size fuel 0 0 data

/-- `NnNetwork::read`. -/
def read (ioChunkSize fuel data size : ℕ) : Option (Except Stop (ℕ × List Transfer)) :=
  moveChunks (readSocket schedule hardTimeoutMs socket fuel) ioChunkSize size fuel 0 0 data

/-- `NnNetwork::tryReadWithMaxAttempts`. -/
def tryReadWithMaxAttempts (fuel data size maxAttempts : ℕ) :
    Option (Except Stop ((Bool × ℕ) × List Transfer)) :=
  tryReadSocket schedule hardTimeoutMs socket fuel 0 data size maxAttempts

end OneSocket

section ManySockets

/-- An entry of a list of transfers. -/
structure NnSocketIo where
  /-- Socket. -/
  socketIndex : ℕ
  /-- Address of the first byte. -/
  data : ℕ
  /-- Bytes. -/
  size : ℕ
  deriving DecidableEq, Repr

/-- What a pass over entries leaves. -/
structure Pass where
  /-- The next call. -/
  call : ℕ
  /-- Entries with what is left of them. -/
  ios : List NnSocketIo
  /-- Some bytes have moved. -/
  hasProgress : Bool
  /-- Some entry was not empty. -/
  isBusy : Bool
  /-- What has moved. -/
  transfers : List Transfer
  deriving DecidableEq, Repr

/-- An entry and a transfer of it in front of a pass. -/
def Pass.cons (pass : Pass) (io : NnSocketIo) (isBusy : Bool) (transfers : List Transfer) :
    Pass where
  call := pass.call
  ios := io :: pass.ios
  hasProgress := pass.hasProgress || !transfers.isEmpty
  isBusy := pass.isBusy || isBusy
  transfers := transfers ++ pass.transfers

variable (schedule : Schedule) (hardTimeoutMs : ℕ) (request : ℕ → ℕ)

/-- One call for each entry that is not empty. -/
def passOver : ℕ → ℕ → List NnSocketIo → Except Stop Pass
  | _, call, [] => .ok ⟨call, [], false, false, []⟩
  | entry, call, io :: ios =>
    if 0 < io.size then
      match schedule.answer call with
      | .closed => .error .closed
      | .error => .error .failed
      | .again => do
        let pass ← passOver (entry + 1) (call + 1) ios
        return pass.cons io true []
      | .moves more => do
        let s := min (more + 1) (request io.size)
        let pass ← passOver (entry + 1) (call + 1) ios
        return pass.cons ⟨io.socketIndex, io.data + s, io.size - s⟩ true
          [⟨entry, io.socketIndex, io.data, s⟩]
    else do
      let pass ← passOver (entry + 1) call ios
      return pass.cons io false []

/-- Passes until one finds every entry empty. -/
def moveMany : ℕ → ℕ → ℕ → List NnSocketIo → Option (Except Stop (ℕ × List Transfer))
  | 0, _, _, _ => none
  | fuel + 1, call, lastProgressTime, ios =>
    match passOver schedule request 0 call ios with
    | .error stop => some (.error stop)
    | .ok pass =>
      if pass.isBusy then
        if pass.hasProgress then
          prepend pass.transfers (moveMany fuel pass.call (schedule.after (pass.call - 1)) pass.ios)
        else if hardTimeoutMs ≤ schedule.after (pass.call - 1) - lastProgressTime then
          some (.error .timeout)
        else prepend pass.transfers (moveMany fuel pass.call lastProgressTime pass.ios)
      else some (.ok (pass.call, pass.transfers))

end ManySockets

/-- `NnNetwork::writeMany`: a call sends a chunk at most. -/
def writeMany (schedule : Schedule) (hardTimeoutMs ioChunkSize fuel : ℕ) (ios : List NnSocketIo) :
    Option (Except Stop (ℕ × List Transfer)) :=
  moveMany schedule hardTimeoutMs (fun size => if ioChunkSize < size then ioChunkSize else size)
    fuel 0 (schedule.before 0) ios

/-- `NnNetwork::readMany`. -/
def readMany (schedule : Schedule) (hardTimeoutMs fuel : ℕ) (ios : List NnSocketIo) :
    Option (Except Stop (ℕ × List Transfer)) :=
  moveMany schedule hardTimeoutMs (fun size => size) fuel 0 (schedule.before 0) ios

section Effects

/-- Bytes of memory. -/
def bytesAt (memory : ℕ → UInt8) (address count : ℕ) : List UInt8 :=
  (List.range count).map fun i => memory (address + i)

/-- What sockets have been given after transfers. -/
def sendAll (memory : ℕ → UInt8) : (ℕ → List UInt8) → List Transfer → ℕ → List UInt8
  | wires, [] => wires
  | wires, t :: transfers =>
    sendAll memory (Function.update wires t.socket
      (wires t.socket ++ bytesAt memory t.address t.count)) transfers

/-- What a receiver has: memory, and how much of the stream of each socket is taken. -/
structure Receiver where
  /-- Memory. -/
  memory : ℕ → UInt8
  /-- Bytes taken of each stream. -/
  taken : ℕ → ℕ

/-- What a receiver has after a transfer. -/
def Receiver.receive (streams : ℕ → ℕ → UInt8) (receiver : Receiver) (t : Transfer) : Receiver where
  memory a :=
    if t.address ≤ a ∧ a < t.address + t.count then
      streams t.socket (receiver.taken t.socket + (a - t.address))
    else receiver.memory a
  taken := Function.update receiver.taken t.socket (receiver.taken t.socket + t.count)

/-- What a receiver has after transfers. -/
def receiveAll (streams : ℕ → ℕ → UInt8) (receiver : Receiver) (transfers : List Transfer) :
    Receiver :=
  transfers.foldl (Receiver.receive streams) receiver

end Effects

/-- When the stretch of calls began in which a call is: with the operation, or after the call before
it. -/
def Schedule.mark (schedule : Schedule) (call : ℕ) : ℕ :=
  if call = 0 then schedule.before 0 else schedule.after (call - 1)

/-- Only partial results and moments with nothing, and progress again and again before a timeout. -/
structure Schedule.Lively (schedule : Schedule) (hardTimeoutMs : ℕ) : Prop where
  /-- No socket is closed and no call fails. -/
  calm : ∀ k, schedule.answer k = .again ∨ ∃ more, schedule.answer k = .moves more
  /-- There is progress after every call. -/
  progress : ∀ k, ∃ j, k ≤ j ∧ schedule.answer j ≠ .again
  /-- Calls with nothing in turn take less than the timeout. -/
  timely : ∀ i j, i ≤ j → (∀ k, i ≤ k → k ≤ j → schedule.answer k = .again) →
    schedule.after j - schedule.mark i < hardTimeoutMs

/-- A receive with a bound on the attempts gives up: as many calls in turn have nothing before the
first byte. No attempts stand for no bound. -/
def Schedule.GivesUp (schedule : Schedule) (size maxAttempts call : ℕ) : Prop :=
  0 < size ∧ 0 < maxAttempts ∧ ∀ k < maxAttempts, schedule.answer (call + k) = .again

section Paths

variable {socket : ℕ} {transfers more : List Transfer}

/-- Transfers on a socket from one address to another, each where the one before it ended. -/
def Path (socket : ℕ) : ℕ → ℕ → List Transfer → Prop
  | first, last, [] => first = last
  | first, last, t :: transfers =>
    t.socket = socket ∧ t.address = first ∧ 0 < t.count ∧
      Path socket (first + t.count) last transfers

theorem Path.append {first middle last : ℕ} (h : Path socket first middle transfers)
    (hmore : Path socket middle last more) : Path socket first last (transfers ++ more) := by
  induction transfers generalizing first with
  | nil =>
    have heq : first = middle := h
    rw [heq]
    exact hmore
  | cons t transfers ih =>
    obtain ⟨hsocket, haddress, hcount, hrest⟩ := h
    exact ⟨hsocket, haddress, hcount, ih hrest⟩

theorem Path.single {entry address count : ℕ} (h : 0 < count) :
    Path socket address (address + count) [⟨entry, socket, address, count⟩] :=
  ⟨Eq.refl _, Eq.refl _, h, Eq.refl _⟩

theorem Path.le {first last : ℕ} (h : Path socket first last transfers) : first ≤ last := by
  induction transfers generalizing first with
  | nil =>
    have heq : first = last := h
    omega
  | cons t transfers ih =>
    have hle := ih h.2.2.2
    omega

end Paths

section Clock

variable {schedule : Schedule} {hardTimeoutMs call last : ℕ}

/-- A time of the last progress is not before the stretch of calls with nothing began. -/
def Schedule.Fresh (schedule : Schedule) (call last : ℕ) : Prop :=
  ∃ i, i ≤ call ∧ (∀ k, i ≤ k → k < call → schedule.answer k = .again) ∧ schedule.mark i ≤ last

theorem fresh_before (call : ℕ) : schedule.Fresh call (schedule.before call) := by
  refine ⟨call, Nat.le_refl _, fun k hle hlt => absurd hle (Nat.not_le.mpr hlt), ?_⟩
  unfold Schedule.mark
  cases call with
  | zero => exact Nat.le_refl _
  | succ call => exact (schedule.ordered call).2

theorem fresh_after (call : ℕ) : schedule.Fresh (call + 1) (schedule.after call) := by
  refine ⟨call + 1, Nat.le_refl _, fun k hle hlt => absurd hle (Nat.not_le.mpr hlt), ?_⟩
  exact Nat.le_refl _

/-- Calls with nothing keep the time of the last progress. -/
theorem Schedule.Fresh.extend {next : ℕ} (h : schedule.Fresh call last) (hle : call ≤ next)
    (hagain : ∀ k, call ≤ k → k < next → schedule.answer k = .again) :
    schedule.Fresh next last := by
  obtain ⟨i, hi, hbefore, hmark⟩ := h
  refine ⟨i, Nat.le_trans hi hle, ?_, hmark⟩
  intro k hk hnext
  by_cases hcall : k < call
  · exact hbefore k hk hcall
  · exact hagain k (Nat.not_lt.mp hcall) hnext

/-- And they take less than the timeout. -/
theorem Schedule.Fresh.in_time {next : ℕ} (h : schedule.Fresh call last)
    (hlively : schedule.Lively hardTimeoutMs) (hlt : call < next)
    (hagain : ∀ k, call ≤ k → k < next → schedule.answer k = .again) :
    schedule.after (next - 1) - last < hardTimeoutMs := by
  obtain ⟨i, hi, hall, hmark⟩ := h.extend (Nat.le_of_lt hlt) hagain
  rcases Nat.lt_or_ge i next with hbefore | hafter
  · have hstretch := hlively.timely i (next - 1) (by omega) fun k hk hle => hall k hk (by omega)
    omega
  · have hone := hlively.timely (next - 1) (next - 1) (Nat.le_refl _) fun k hk hle => by
      exact hagain k (by omega) (by omega)
    have hsame : i = next := by omega
    rw [hsame] at hmark
    have hlast : schedule.mark next = schedule.after (next - 1) := by
      unfold Schedule.mark
      rw [if_neg (by omega)]
    omega

end Clock

section OneSocketMoves

variable {schedule : Schedule} {hardTimeoutMs socket size : ℕ}

/-- More steps give the same result. -/
theorem moveBytes_mono {fuel fuel' maxAttempts call last data s : ℕ}
    {result : Except Stop ((Bool × ℕ) × List Transfer)}
    (h : moveBytes schedule hardTimeoutMs socket size fuel maxAttempts call last data s =
      some result) (hle : fuel ≤ fuel') :
    moveBytes schedule hardTimeoutMs socket size fuel' maxAttempts call last data s =
      some result := by
  induction fuel generalizing fuel' maxAttempts call last data s result with
  | zero => cases h
  | succ fuel ih =>
    obtain ⟨more, hmore⟩ := Nat.exists_eq_add_of_le hle
    have hfuel : fuel' = (fuel + more) + 1 := by omega
    rw [hfuel, moveBytes]
    rw [moveBytes] at h
    split at h
    · rename_i hzero
      rw [if_pos hzero]
      exact h
    · rename_i hzero
      rw [if_neg hzero]
      cases hanswer : schedule.answer call with
      | closed =>
        rw [hanswer] at h
        exact h
      | error =>
        rw [hanswer] at h
        exact h
      | again =>
        rw [hanswer] at h
        simp only at h ⊢
        split at h
        · rename_i hlast
          rw [if_pos hlast]
          exact h
        · rename_i hlast
          rw [if_neg hlast]
          split at h
          · rename_i hstall
            rw [if_pos hstall]
            exact h
          · rename_i hstall
            rw [if_neg hstall]
            exact ih h (Nat.le_add_right _ _)
      | moves count =>
        rw [hanswer] at h
        simp only at h ⊢
        cases hrest : moveBytes schedule hardTimeoutMs socket size fuel maxAttempts (call + 1)
            (schedule.after call) (data + min (count + 1) s) (s - min (count + 1) s) with
        | none =>
          rw [hrest] at h
          cases h
        | some rest =>
          rw [hrest] at h
          rw [ih hrest (Nat.le_add_right _ _)]
          exact h

theorem Schedule.GivesUp.again {maxAttempts call : ℕ} (h : schedule.GivesUp size maxAttempts call) :
    schedule.answer call = .again := h.2.2 0 h.2.1

/-- After a call with nothing there is one attempt less. -/
theorem givesUp_succ {maxAttempts call : ℕ} (hagain : schedule.answer call = .again)
    (hmore : maxAttempts ≠ 1) :
    schedule.GivesUp size (maxAttempts - 1) (call + 1) ↔
      schedule.GivesUp size maxAttempts call := by
  constructor
  · intro h
    obtain ⟨hsize, hbound, hall⟩ := h
    refine ⟨hsize, by omega, ?_⟩
    intro k hk
    cases k with
    | zero => exact hagain
    | succ k =>
      have hcall : call + (k + 1) = call + 1 + k := by omega
      rw [hcall]
      exact hall k (by omega)
  · intro h
    obtain ⟨hsize, hbound, hall⟩ := h
    refine ⟨hsize, by omega, ?_⟩
    intro k hk
    have hcall : call + 1 + k = call + (k + 1) := by omega
    rw [hcall]
    exact hall (k + 1) (by omega)

/-- What a loop on one socket comes to: all bytes have moved in their order, or none has, and that
exactly when there was nothing before the first byte for all attempts. -/
def Ends (schedule : Schedule) (socket size maxAttempts call data s : ℕ)
    (run : ℕ → Option (Except Stop ((Bool × ℕ) × List Transfer))) : Prop :=
  ∃ fuel done next transfers, run fuel = some (.ok ((done, next), transfers)) ∧
    (done = true → Path socket data (data + s) transfers) ∧
    (done = false → transfers = []) ∧
    (done = false ↔ s = size ∧ schedule.GivesUp size maxAttempts call)

/-- A loop with nothing left has moved all. -/
theorem ends_nothing {maxAttempts call last data : ℕ} :
    Ends schedule socket size maxAttempts call data 0 fun fuel =>
      moveBytes schedule hardTimeoutMs socket size fuel maxAttempts call last data 0 := by
  refine ⟨1, true, call, [], ?_, ?_, ?_, ?_⟩
  · simp only
    rw [moveBytes, if_pos (Eq.refl _)]
  · intro _
    exact Eq.refl data
  · intro h
    cases h
  · constructor
    · intro h
      cases h
    · intro h
      have hsize := h.2.1
      omega

/-- After some bytes have moved the loop goes on with what is left, and no bound matters. -/
theorem ends_moves {s more maxAttempts call last data : ℕ} (hs : s ≤ size) (hpositive : s ≠ 0)
    (hanswer : schedule.answer call = .moves more)
    (hrest : Ends schedule socket size maxAttempts (call + 1) (data + min (more + 1) s)
      (s - min (more + 1) s) fun fuel => moveBytes schedule hardTimeoutMs socket size fuel
        maxAttempts (call + 1) (schedule.after call) (data + min (more + 1) s)
        (s - min (more + 1) s)) :
    Ends schedule socket size maxAttempts call data s fun fuel =>
      moveBytes schedule hardTimeoutMs socket size fuel maxAttempts call last data s := by
  obtain ⟨fuel, done, next, transfers, hrun, hpath, _, hgives⟩ := hrest
  have hdone : done = true := by
    cases done with
    | true => exact Eq.refl _
    | false =>
      have hsame := (hgives.mp (Eq.refl _)).1
      omega
  refine ⟨fuel + 1, done, next, ⟨0, socket, data, min (more + 1) s⟩ :: transfers, ?_, ?_, ?_, ?_⟩
  · simp only at hrun ⊢
    rw [moveBytes, if_neg hpositive, hanswer]
    simp only
    rw [hrun]
    exact Eq.refl _
  · intro _
    have hend : data + min (more + 1) s + (s - min (more + 1) s) = data + s := by omega
    have hrestpath := hpath hdone
    rw [hend] at hrestpath
    exact ⟨Eq.refl _, Eq.refl _, (by omega : 0 < min (more + 1) s), hrestpath⟩
  · intro hfalse
    rw [hdone] at hfalse
    cases hfalse
  · constructor
    · intro hfalse
      rw [hdone] at hfalse
      cases hfalse
    · intro h
      have hagain := h.2.again
      rw [hanswer] at hagain
      cases hagain

/-- A call with nothing that is not the last attempt leaves the loop as it was. -/
theorem ends_again {s maxAttempts call last data : ℕ} (hpositive : s ≠ 0)
    (hagain : schedule.answer call = .again) (hlast : ¬(s = size ∧ maxAttempts = 1))
    (htime : schedule.after call - last < hardTimeoutMs)
    (hrest : Ends schedule socket size (if s = size then maxAttempts - 1 else maxAttempts) (call + 1)
      data s fun fuel => moveBytes schedule hardTimeoutMs socket size fuel
        (if s = size then maxAttempts - 1 else maxAttempts) (call + 1) last data s) :
    Ends schedule socket size maxAttempts call data s fun fuel =>
      moveBytes schedule hardTimeoutMs socket size fuel maxAttempts call last data s := by
  obtain ⟨fuel, done, next, transfers, hrun, hpath, hnone, hgives⟩ := hrest
  refine ⟨fuel + 1, done, next, transfers, ?_, hpath, hnone, ?_⟩
  · simp only
    rw [moveBytes, if_neg hpositive, hagain]
    simp only
    rw [if_neg hlast, if_neg (by omega)]
    exact hrun
  · rw [hgives]
    by_cases hsame : s = size
    · rw [if_pos hsame, givesUp_succ hagain fun hone => hlast ⟨hsame, hone⟩]
    · constructor
      · exact fun h => absurd h.1 hsame
      · exact fun h => absurd h.1 hsame

/-- The last attempt with nothing ends the loop. -/
theorem ends_last {s maxAttempts call last data : ℕ} (hpositive : s ≠ 0)
    (hagain : schedule.answer call = .again) (hlast : s = size ∧ maxAttempts = 1) :
    Ends schedule socket size maxAttempts call data s fun fuel =>
      moveBytes schedule hardTimeoutMs socket size fuel maxAttempts call last data s := by
  have hgives : schedule.GivesUp size maxAttempts call := by
    refine ⟨by omega, by omega, ?_⟩
    intro k hk
    have hcall : call + k = call := by omega
    rw [hcall]
    exact hagain
  refine ⟨1, false, call + 1, [], ?_, ?_, fun _ => Eq.refl _, ?_⟩
  · simp only
    rw [moveBytes, if_neg hpositive, hagain]
    simp only
    rw [if_pos hlast]
  · intro h
    cases h
  · exact ⟨fun _ => ⟨hlast.1, hgives⟩, fun _ => Eq.refl _⟩

/-- The loop on one socket ends. The induction is on the bytes that are left, and for one number of
them on the calls before the next one that moves some. -/
theorem moveBytes_ends (hlively : schedule.Lively hardTimeoutMs) (s : ℕ) (hs : s ≤ size) :
    ∀ maxAttempts call last data, schedule.Fresh call last →
      Ends schedule socket size maxAttempts call data s fun fuel =>
        moveBytes schedule hardTimeoutMs socket size fuel maxAttempts call last data s := by
  induction s using Nat.strongRecOn with
  | _ s ihs =>
    have hcounted : ∀ distance maxAttempts call last data, schedule.Fresh call last →
        schedule.answer (call + distance) ≠ .again →
        Ends schedule socket size maxAttempts call data s fun fuel =>
          moveBytes schedule hardTimeoutMs socket size fuel maxAttempts call last data s := by
      intro distance
      induction distance with
      | zero =>
        intro maxAttempts call last data _ hprogress
        rcases Nat.eq_zero_or_pos s with hzero | hpositive
        · rw [hzero]
          exact ends_nothing
        · obtain ⟨more, hmoves⟩ := (hlively.calm call).resolve_left hprogress
          exact ends_moves hs (by omega) hmoves
            (ihs _ (by omega) (by omega) maxAttempts (call + 1) _ _ (fresh_after call))
      | succ distance ihd =>
        intro maxAttempts call last data hfresh hprogress
        rcases Nat.eq_zero_or_pos s with hzero | hpositive
        · rw [hzero]
          exact ends_nothing
        · cases hlively.calm call with
          | inr hmoves =>
            obtain ⟨more, hmoves⟩ := hmoves
            exact ends_moves hs (by omega) hmoves
              (ihs _ (by omega) (by omega) maxAttempts (call + 1) _ _ (fresh_after call))
          | inl hagain =>
            have hnothing : ∀ k, call ≤ k → k < call + 1 → schedule.answer k = .again := by
              intro k hle hlt
              have hk : k = call := by omega
              rw [hk]
              exact hagain
            have htime : schedule.after call - last < hardTimeoutMs :=
              hfresh.in_time hlively (Nat.lt_succ_self call) hnothing
            have hnext := hfresh.extend (Nat.le_succ call) hnothing
            have hplace : call + 1 + distance = call + (distance + 1) := by omega
            by_cases hlast : s = size ∧ maxAttempts = 1
            · exact ends_last (by omega) hagain hlast
            · exact ends_again (by omega) hagain hlast htime
                (ihd _ (call + 1) last data hnext (by rw [hplace]; exact hprogress))
    intro maxAttempts call last data hfresh
    obtain ⟨j, hj, hprogress⟩ := hlively.progress call
    obtain ⟨distance, hdistance⟩ := Nat.exists_eq_add_of_le hj
    exact hcounted distance maxAttempts call last data hfresh (hdistance ▸ hprogress)

end OneSocketMoves

section Chunks

variable {socket size ioChunkSize : ℕ}
  {move : ℕ → ℕ → ℕ → ℕ → Option (Except Stop ((Bool × ℕ) × List Transfer))}

theorem prepend_some {α : Type} {transfers : List Transfer}
    {x : Option (Except Stop (α × List Transfer))} {value : α} {more : List Transfer}
    (h : x = some (.ok (value, more))) :
    prepend transfers x = some (.ok (value, transfers ++ more)) := by
  rw [h]
  exact Eq.refl _

/-- A chunk that moves with some steps moves with more. -/
def Monotone (move : ℕ → ℕ → ℕ → ℕ → Option (Except Stop ((Bool × ℕ) × List Transfer))) : Prop :=
  ∀ fuel fuel' call data chunkSize result, fuel ≤ fuel' →
    move fuel call data chunkSize = some result → move fuel' call data chunkSize = some result

theorem moveChunks_mono (hmono : Monotone move)
    {fuel fuel' steps steps' chunk call current next : ℕ} {transfers : List Transfer}
    (hfuel : fuel ≤ fuel') (hsteps : steps ≤ steps')
    (h : moveChunks (move fuel) ioChunkSize size steps chunk call current =
      some (.ok (next, transfers))) :
    moveChunks (move fuel') ioChunkSize size steps' chunk call current =
      some (.ok (next, transfers)) := by
  induction steps generalizing steps' chunk call current next transfers with
  | zero => cases h
  | succ steps ih =>
    obtain ⟨more, hmore⟩ := Nat.exists_eq_add_of_le hsteps
    have hcount : steps' = (steps + more) + 1 := by omega
    rw [hcount, moveChunks]
    rw [moveChunks] at h
    by_cases hend : size ≤ chunk
    · rw [if_pos hend] at h ⊢
      exact h
    · rw [if_neg hend] at h ⊢
      simp only at h ⊢
      cases hmove : move fuel call current
          (if chunk + ioChunkSize < size then ioChunkSize else size - chunk) with
      | none =>
        rw [hmove] at h
        cases h
      | some result =>
        rw [hmove] at h
        rw [hmono fuel fuel' _ _ _ result hfuel hmove]
        cases result with
        | error stop =>
          cases h
        | ok value =>
          obtain ⟨⟨done, next'⟩, moved⟩ := value
          cases done with
          | false => cases h
          | true =>
            simp only at h ⊢
            cases hrest : moveChunks (move fuel) ioChunkSize size steps (chunk + ioChunkSize) next'
                (current + if chunk + ioChunkSize < size then ioChunkSize else size - chunk) with
            | none =>
              rw [hrest] at h
              cases h
            | some rest =>
              rw [hrest] at h
              cases rest with
              | error stop => cases h
              | ok value =>
                obtain ⟨last, others⟩ := value
                rw [ih (Nat.le_add_right _ _) hrest]
                exact h

/-- Chunks one after the other move all bytes. -/
theorem moveChunks_ends (hmono : Monotone move) (hchunk : 0 < ioChunkSize)
    (hmove : ∀ call data chunkSize, ∃ fuel next transfers,
      move fuel call data chunkSize = some (.ok ((true, next), transfers)) ∧
        Path socket data (data + chunkSize) transfers) (rest : ℕ) :
    ∀ chunk call current, size - chunk ≤ rest → ∃ fuel next transfers,
      moveChunks (move fuel) ioChunkSize size fuel chunk call current =
        some (.ok (next, transfers)) ∧
        Path socket current (current + (size - chunk)) transfers := by
  induction rest with
  | zero =>
    intro chunk call current hrest
    refine ⟨1, call, [], ?_, ?_⟩
    · rw [moveChunks, if_pos (by omega)]
    · exact (by omega : current = current + (size - chunk))
  | succ rest ih =>
    intro chunk call current hrest
    by_cases hend : size ≤ chunk
    · refine ⟨1, call, [], ?_, ?_⟩
      · rw [moveChunks, if_pos hend]
      · exact (by omega : current = current + (size - chunk))
    · have hsize : ∃ chunkSize, chunkSize = (if chunk + ioChunkSize < size then ioChunkSize
          else size - chunk) ∧ chunkSize + (size - (chunk + ioChunkSize)) = size - chunk := by
        refine ⟨_, Eq.refl _, ?_⟩
        by_cases hmore : chunk + ioChunkSize < size
        · rw [if_pos hmore]
          omega
        · rw [if_neg hmore]
          omega
      obtain ⟨chunkSize, hchunkSize, hsum⟩ := hsize
      obtain ⟨fuel, next, transfers, hfirst, hpath⟩ := hmove call current chunkSize
      obtain ⟨fuel', last, others, hothers, hpaths⟩ :=
        ih (chunk + ioChunkSize) next (current + chunkSize) (by omega)
      refine ⟨max fuel fuel' + 1, last, transfers ++ others, ?_, ?_⟩
      · have hmoved := hmono fuel (max fuel fuel' + 1) _ _ _ _ (by omega) hfirst
        have hrestmoved := moveChunks_mono hmono (by omega : fuel' ≤ max fuel fuel' + 1)
          (by omega : fuel' ≤ max fuel fuel') hothers
        rw [moveChunks, if_neg hend]
        simp only
        rw [← hchunkSize, hmoved]
        exact prepend_some hrestmoved
      · have hlast : current + chunkSize + (size - (chunk + ioChunkSize)) =
            current + (size - chunk) := by omega
        rw [hlast] at hpaths
        exact hpath.append hpaths

variable {schedule : Schedule} {hardTimeoutMs : ℕ}

theorem monotone_writeSocket :
    Monotone fun fuel => writeSocket schedule hardTimeoutMs socket fuel := by
  intro fuel fuel' call data chunkSize result hle h
  exact moveBytes_mono h hle

theorem writeSocket_ends (hlively : schedule.Lively hardTimeoutMs) (call data chunkSize : ℕ) :
    ∃ fuel next transfers, writeSocket schedule hardTimeoutMs socket fuel call data chunkSize =
        some (.ok ((true, next), transfers)) ∧ Path socket data (data + chunkSize) transfers := by
  have hends : Ends schedule socket chunkSize 0 call data chunkSize fun fuel =>
      writeSocket schedule hardTimeoutMs socket fuel call data chunkSize :=
    moveBytes_ends hlively chunkSize (Nat.le_refl _) 0 call _ data (fresh_before call)
  obtain ⟨fuel, done, next, transfers, hrun, hpath, _, hgives⟩ := hends
  cases done with
  | true => exact ⟨fuel, next, transfers, hrun, hpath (Eq.refl _)⟩
  | false =>
    have hbound := (hgives.mp (Eq.refl _)).2.2.1
    exact absurd hbound (Nat.lt_irrefl 0)

/-- `getNetIoChunkSize` is never zero. -/
theorem getNetIoChunkSize_pos (parsed : Option ℕ) : 0 < getNetIoChunkSize parsed := by
  unfold getNetIoChunkSize
  split
  · decide
  · decide
  · omega

end Chunks

section Passes

/-- What entries have left, and how they got there. -/
structure Advances (first : ℕ) (ios ios' : List NnSocketIo) (transfers : List Transfer) : Prop where
  /-- The entries are the same. -/
  length : ios'.length = ios.length
  /-- Transfers are of these entries. -/
  entries : ∀ t ∈ transfers, first ≤ t.entry ∧ t.entry < first + ios.length
  /-- Each entry keeps its socket and its end, and its transfers go to where it is. -/
  path : ∀ i io io', ios[i]? = some io → ios'[i]? = some io' →
    io'.socketIndex = io.socketIndex ∧ io'.data + io'.size = io.data + io.size ∧
      Path io.socketIndex io.data io'.data (transfers.filter fun t => t.entry = first + i)

theorem Advances.refl (first : ℕ) (ios : List NnSocketIo) : Advances first ios ios [] := by
  refine ⟨Eq.refl _, ?_, ?_⟩
  · intro t ht
    cases ht
  · intro i io io' hio hio'
    rw [hio] at hio'
    injection hio' with heq
    rw [heq]
    exact ⟨Eq.refl _, Eq.refl _, Eq.refl _⟩

theorem Advances.trans {first : ℕ} {ios ios' ios'' : List NnSocketIo}
    {transfers more : List Transfer} (h : Advances first ios ios' transfers)
    (h' : Advances first ios' ios'' more) : Advances first ios ios'' (transfers ++ more) := by
  refine ⟨h'.length.trans h.length, ?_, ?_⟩
  · intro t ht
    cases List.mem_append.mp ht with
    | inl ht => exact h.entries t ht
    | inr ht =>
      have hentries := h'.entries t ht
      rw [h.length] at hentries
      exact hentries
  · intro i io io'' hio hio''
    have hlt : i < ios'.length := by
      have hsome := (List.getElem?_eq_some_iff.mp hio).1
      rw [h.length]
      exact hsome
    have hmiddle := List.getElem?_eq_getElem hlt
    obtain ⟨hsocket, hend, hpath⟩ := h.path i io _ hio hmiddle
    obtain ⟨hsocket', hend', hpath'⟩ := h'.path i _ io'' hmiddle hio''
    rw [hsocket] at hpath' hsocket'
    rw [List.filter_append]
    exact ⟨hsocket', hend'.trans hend, hpath.append hpath'⟩

/-- An entry in front, with its own transfers. -/
theorem Advances.cons {first : ℕ} {io io' : NnSocketIo} {ios ios' : List NnSocketIo}
    {transfers more : List Transfer} (h : Advances (first + 1) ios ios' more)
    (hown : ∀ t ∈ transfers, t.entry = first) (hsocket : io'.socketIndex = io.socketIndex)
    (hend : io'.data + io'.size = io.data + io.size)
    (hpath : Path io.socketIndex io.data io'.data transfers) :
    Advances first (io :: ios) (io' :: ios') (transfers ++ more) := by
  refine ⟨?_, ?_, ?_⟩
  · rw [List.length_cons, List.length_cons, h.length]
  · intro t ht
    rw [List.length_cons]
    cases List.mem_append.mp ht with
    | inl ht =>
      have hentry := hown t ht
      omega
    | inr ht =>
      have hentries := h.entries t ht
      omega
  · intro i other other' hother hother'
    rw [List.filter_append]
    cases i with
    | zero =>
      rw [List.getElem?_cons_zero] at hother hother'
      injection hother with hother
      injection hother' with hother'
      have hfirst : (transfers.filter fun t => t.entry = first + 0) = transfers := by
        rw [List.filter_eq_self]
        intro t ht
        exact decide_eq_true (hown t ht)
      have hrest : (more.filter fun t => t.entry = first + 0) = [] := by
        rw [List.filter_eq_nil_iff]
        intro t ht
        have hentries := h.entries t ht
        simp only [decide_eq_true_eq]
        omega
      rw [hfirst, hrest, List.append_nil, ← hother, ← hother']
      exact ⟨hsocket, hend, hpath⟩
    | succ i =>
      rw [List.getElem?_cons_succ] at hother hother'
      have hfirst : (transfers.filter fun t => t.entry = first + (i + 1)) = [] := by
        rw [List.filter_eq_nil_iff]
        intro t ht
        have hentry := hown t ht
        simp only [decide_eq_true_eq]
        omega
      have hplace : first + (i + 1) = first + 1 + i := by omega
      rw [hfirst, List.nil_append, hplace]
      exact h.path i other other' hother hother'

/-- Bytes that are left of all entries. -/
def total (ios : List NnSocketIo) : ℕ := (ios.map NnSocketIo.size).sum

variable {schedule : Schedule} {hardTimeoutMs : ℕ} {request : ℕ → ℕ}

/-- What a pass does. -/
structure Passes (schedule : Schedule) (first call : ℕ) (ios : List NnSocketIo) (pass : Pass) :
    Prop where
  /-- Calls are made one after the other. -/
  calls : call ≤ pass.call
  /-- Entries advance by their transfers. -/
  advances : Advances first ios pass.ios pass.transfers
  /-- Without progress nothing has moved and no call had anything to do. -/
  still : pass.hasProgress = false → pass.transfers = [] ∧ total pass.ios = total ios ∧
    pass.ios = ios ∧ ∀ k, call ≤ k → k < pass.call → schedule.answer k = .again
  /-- With progress fewer bytes are left. -/
  fewer : pass.hasProgress = true → total pass.ios < total ios
  /-- Nothing is left when no entry was busy, and a call was made when one was. -/
  busy : (pass.isBusy = false → total ios = 0 ∧ pass.ios = ios ∧ pass.transfers = []) ∧
    (pass.isBusy = true → call < pass.call)

theorem total_cons (io : NnSocketIo) (ios : List NnSocketIo) :
    total (io :: ios) = io.size + total ios := List.sum_cons

theorem total_le_of_passes {first call : ℕ} {ios : List NnSocketIo} {pass : Pass}
    (h : Passes schedule first call ios pass) : total pass.ios ≤ total ios := by
  cases hprogress : pass.hasProgress with
  | false => exact Nat.le_of_eq (h.still hprogress).2.1
  | true => exact Nat.le_of_lt (h.fewer hprogress)

/-- A pass over partial results and moments with nothing succeeds. -/
theorem passOver_passes (hlively : schedule.Lively hardTimeoutMs)
    (hrequest : ∀ size, 0 < size → 0 < request size ∧ request size ≤ size)
    (ios : List NnSocketIo) : ∀ first call, ∃ pass,
      passOver schedule request first call ios = .ok pass ∧
        Passes schedule first call ios pass := by
  induction ios with
  | nil =>
    intro first call
    refine ⟨⟨call, [], false, false, []⟩, Eq.refl _, ?_⟩
    refine ⟨Nat.le_refl _, Advances.refl first [], ?_, ?_, ?_⟩
    · intro _
      exact ⟨Eq.refl _, Eq.refl _, Eq.refl _, fun k hle hlt => absurd hlt (Nat.not_lt.mpr hle)⟩
    · intro h
      cases h
    · exact ⟨fun _ => ⟨Eq.refl _, Eq.refl _, Eq.refl _⟩, fun h => by cases h⟩
  | cons io ios ih =>
    intro first call
    rw [passOver]
    by_cases hsize : 0 < io.size
    · obtain ⟨pass, hpass, hpasses⟩ := ih (first + 1) (call + 1)
      have hcalls := hpasses.calls
      rw [if_pos hsize]
      cases hlively.calm call with
      | inl hagain =>
        rw [hagain]
        simp only
        rw [hpass]
        refine ⟨pass.cons io true [], Eq.refl _, ?_⟩
        refine ⟨?_, ?_, ?_, ?_, ?_⟩
        · exact Nat.le_of_succ_le hcalls
        · exact hpasses.advances.cons (by simp) (Eq.refl _) (Eq.refl _) (Eq.refl _)
        · intro hstill
          have hrest : pass.hasProgress = false := by simpa [Pass.cons] using hstill
          obtain ⟨hnone, htotal, hsame, hall⟩ := hpasses.still hrest
          refine ⟨hnone, ?_, ?_, ?_⟩
          · exact (total_cons io pass.ios).trans (by rw [htotal, total_cons])
          · exact congrArg (List.cons io) hsame
          · intro k hle hlt
            rcases Nat.eq_or_lt_of_le hle with heq | hmore
            · exact heq ▸ hagain
            · exact hall k hmore hlt
        · intro hprogress
          have hrest : pass.hasProgress = true := by simpa [Pass.cons] using hprogress
          have hfewer := hpasses.fewer hrest
          exact (total_cons io pass.ios).trans_lt (by rw [total_cons]; omega)
        · refine ⟨?_, fun _ => Nat.lt_of_succ_le hcalls⟩
          intro hidle
          simp [Pass.cons] at hidle
      | inr hmoves =>
        obtain ⟨more, hmoves⟩ := hmoves
        have hasked := hrequest io.size hsize
        rw [hmoves]
        simp only
        rw [hpass]
        generalize hs : min (more + 1) (request io.size) = s
        have hmoved : 0 < s ∧ s ≤ io.size := by omega
        refine ⟨pass.cons ⟨io.socketIndex, io.data + s, io.size - s⟩ true
          [⟨first, io.socketIndex, io.data, s⟩], Eq.refl _, ?_⟩
        refine ⟨?_, ?_, ?_, ?_, ?_⟩
        · exact Nat.le_of_succ_le hcalls
        · refine hpasses.advances.cons (by simp) (Eq.refl _) ?_ (Path.single hmoved.1)
          simp only
          omega
        · intro hstill
          simp [Pass.cons] at hstill
        · intro _
          have hle := total_le_of_passes hpasses
          refine (total_cons _ pass.ios).trans_lt ?_
          rw [total_cons]
          simp only
          omega
        · refine ⟨?_, fun _ => Nat.lt_of_succ_le hcalls⟩
          intro hidle
          simp [Pass.cons] at hidle
    · obtain ⟨pass, hpass, hpasses⟩ := ih (first + 1) call
      rw [if_neg hsize, hpass]
      refine ⟨pass.cons io false [], Eq.refl _, ?_⟩
      refine ⟨hpasses.calls, ?_, ?_, ?_, ?_⟩
      · exact hpasses.advances.cons (by simp) (Eq.refl _) (Eq.refl _) (Eq.refl _)
      · intro hstill
        have hrest : pass.hasProgress = false := by simpa [Pass.cons] using hstill
        obtain ⟨hnone, htotal, hsame, hall⟩ := hpasses.still hrest
        refine ⟨hnone, ?_, congrArg (List.cons io) hsame, hall⟩
        exact (total_cons io pass.ios).trans (by rw [htotal, total_cons])
      · intro hprogress
        have hrest : pass.hasProgress = true := by simpa [Pass.cons] using hprogress
        have hfewer := hpasses.fewer hrest
        exact (total_cons io pass.ios).trans_lt (by rw [total_cons]; omega)
      · constructor
        · intro hidle
          have hrest : pass.isBusy = false := by simpa [Pass.cons] using hidle
          obtain ⟨htotal, hsame, hnone⟩ := hpasses.busy.1 hrest
          refine ⟨?_, congrArg (List.cons io) hsame, hnone⟩
          rw [total_cons, htotal]
          omega
        · intro hbusy
          have hrest : pass.isBusy = true := by simpa [Pass.cons] using hbusy
          exact hpasses.busy.2 hrest

end Passes

section Many

variable {schedule : Schedule} {hardTimeoutMs : ℕ} {request : ℕ → ℕ}

/-- Passes have moved all bytes of every entry in their order. -/
def EndsMany (ios : List NnSocketIo)
    (run : ℕ → Option (Except Stop (ℕ × List Transfer))) : Prop :=
  ∃ fuel next transfers ios', run fuel = some (.ok (next, transfers)) ∧
    Advances 0 ios ios' transfers ∧ total ios' = 0

/-- The passes end. The induction is on the bytes that are left of all entries, and for one number
of them on the calls before the next one that moves some. -/
theorem moveMany_ends (hlively : schedule.Lively hardTimeoutMs)
    (hrequest : ∀ size, 0 < size → 0 < request size ∧ request size ≤ size) (left : ℕ) :
    ∀ call last ios, total ios = left → schedule.Fresh call last →
      EndsMany ios fun fuel => moveMany schedule hardTimeoutMs request fuel call last ios := by
  induction left using Nat.strongRecOn with
  | _ left ihl =>
    have hcounted : ∀ distance call last ios, total ios = left → schedule.Fresh call last →
        schedule.answer (call + distance) ≠ .again →
        EndsMany ios fun fuel => moveMany schedule hardTimeoutMs request fuel call last ios := by
      intro distance
      induction distance using Nat.strongRecOn with
      | _ distance ihd =>
        intro call last ios htotal hfresh hprogress
        obtain ⟨pass, hpass, hpasses⟩ := passOver_passes hlively hrequest ios 0 call
        cases hbusy : pass.isBusy with
        | false =>
          obtain ⟨hempty, hsame, hnone⟩ := hpasses.busy.1 hbusy
          refine ⟨1, pass.call, pass.transfers, pass.ios, ?_, hpasses.advances, ?_⟩
          · simp only
            rw [moveMany, hpass]
            simp [hbusy]
          · rw [hsame]
            exact hempty
        | true =>
          have hcalls := hpasses.busy.2 hbusy
          cases hmoved : pass.hasProgress with
          | true =>
            have hfewer := hpasses.fewer hmoved
            have hnext : schedule.Fresh pass.call (schedule.after (pass.call - 1)) := by
              have hafter : schedule.Fresh (pass.call - 1 + 1) (schedule.after (pass.call - 1)) :=
                fresh_after _
              have hplace : pass.call - 1 + 1 = pass.call := by omega
              rw [hplace] at hafter
              exact hafter
            obtain ⟨fuel, next, transfers, ios', hrun, hadvances, hzero⟩ :=
              ihl (total pass.ios) (by omega) pass.call _ pass.ios (Eq.refl _) hnext
            refine ⟨fuel + 1, next, pass.transfers ++ transfers, ios', ?_,
              hpasses.advances.trans hadvances, hzero⟩
            simp only at hrun ⊢
            rw [moveMany, hpass]
            simp only [hbusy, hmoved, if_true]
            exact prepend_some hrun
          | false =>
            obtain ⟨hnone, hsametotal, hsame, hagain⟩ := hpasses.still hmoved
            have htime := hfresh.in_time hlively hcalls hagain
            have hnext := hfresh.extend hpasses.calls hagain
            have hreach : pass.call ≤ call + distance := by
              by_contra hover
              exact hprogress (hagain (call + distance) (Nat.le_add_right _ _) (by omega))
            have hplace : pass.call + (call + distance - pass.call) = call + distance := by omega
            obtain ⟨fuel, next, transfers, ios', hrun, hadvances, hzero⟩ :=
              ihd (call + distance - pass.call) (by omega) pass.call last pass.ios
                (hsametotal.trans htotal) hnext (by rw [hplace]; exact hprogress)
            refine ⟨fuel + 1, next, pass.transfers ++ transfers, ios', ?_,
              hpasses.advances.trans hadvances, hzero⟩
            simp only at hrun ⊢
            rw [moveMany, hpass]
            simp only [hbusy, hmoved, if_true, Bool.false_eq_true, if_false]
            rw [if_neg (by omega)]
            exact prepend_some hrun
    intro call last ios htotal hfresh
    obtain ⟨j, hj, hprogress⟩ := hlively.progress call
    obtain ⟨distance, hdistance⟩ := Nat.exists_eq_add_of_le hj
    exact hcounted distance call last ios htotal hfresh (hdistance ▸ hprogress)

theorem size_le_total {io : NnSocketIo} {ios : List NnSocketIo} (h : io ∈ ios) :
    io.size ≤ total ios := by
  induction ios with
  | nil => cases h
  | cons first ios ih =>
    rw [total_cons]
    cases List.mem_cons.mp h with
    | inl heq =>
      rw [heq]
      exact Nat.le_add_right _ _
    | inr hrest => exact Nat.le_trans (ih hrest) (Nat.le_add_left _ _)

/-- When nothing is left of any entry, each has gone from its first to its last address. -/
theorem Advances.complete {ios ios' : List NnSocketIo} {transfers : List Transfer}
    (h : Advances 0 ios ios' transfers) (hzero : total ios' = 0) {i : ℕ} {io : NnSocketIo}
    (hio : ios[i]? = some io) :
    Path io.socketIndex io.data (io.data + io.size) (transfers.filter fun t => t.entry = i) := by
  have hlt : i < ios'.length := by
    rw [h.length]
    exact (List.getElem?_eq_some_iff.mp hio).1
  obtain ⟨_, hend, hpath⟩ := h.path i io _ hio (List.getElem?_eq_getElem hlt)
  have hempty : ios'[i].size = 0 := by
    have hle := size_le_total (List.getElem_mem hlt)
    omega
  rw [hempty, Nat.add_zero] at hend
  rw [hend, Nat.zero_add] at hpath
  exact hpath

end Many

section Sent

variable {memory : ℕ → UInt8} {socket : ℕ}

theorem bytesAt_append (address count more : ℕ) :
    bytesAt memory address count ++ bytesAt memory (address + count) more =
      bytesAt memory address (count + more) := by
  unfold bytesAt
  rw [List.range_add, List.map_append, List.map_map]
  congr 1
  refine List.map_congr_left ?_
  intro i _
  simp only [Function.comp, Nat.add_assoc]

/-- A socket gets the bytes of its transfers in their order. -/
theorem sendAll_eq (wires : ℕ → List UInt8) (transfers : List Transfer) :
    sendAll memory wires transfers socket = wires socket ++
      (transfers.filter fun t => t.socket = socket).flatMap fun t =>
        bytesAt memory t.address t.count := by
  induction transfers generalizing wires with
  | nil => simp [sendAll]
  | cons t transfers ih =>
    rw [sendAll, ih]
    by_cases hsocket : t.socket = socket
    · simp [hsocket]
    · simp [hsocket, Function.update_of_ne (Ne.symm hsocket)]

theorem Path.sockets {first last : ℕ} {transfers : List Transfer}
    (h : Path socket first last transfers) : ∀ t ∈ transfers, t.socket = socket := by
  induction transfers generalizing first with
  | nil =>
    intro t ht
    cases ht
  | cons t transfers ih =>
    intro other hother
    cases List.mem_cons.mp hother with
    | inl heq => exact heq ▸ h.1
    | inr hrest => exact ih h.2.2.2 other hrest

/-- Bytes of transfers that go from one address to another. -/
theorem Path.bytes {first last : ℕ} {transfers : List Transfer}
    (h : Path socket first last transfers) :
    (transfers.flatMap fun t => bytesAt memory t.address t.count) =
      bytesAt memory first (last - first) := by
  induction transfers generalizing first with
  | nil =>
    have heq : first = last := h
    rw [heq, Nat.sub_self]
    exact Eq.refl _
  | cons t transfers ih =>
    obtain ⟨_, haddress, _, hrest⟩ := h
    have hle := hrest.le
    have hcount : t.count + (last - (first + t.count)) = last - first := by omega
    rw [List.flatMap_cons, ih hrest, haddress, bytesAt_append, hcount]

/-- A socket gets the bytes of a path on it, and no other socket gets any. -/
theorem sendAll_path {wires : ℕ → List UInt8} {data size : ℕ} {transfers : List Transfer}
    (h : Path socket data (data + size) transfers) : sendAll memory wires transfers =
      Function.update wires socket (wires socket ++ bytesAt memory data size) := by
  funext other
  rw [sendAll_eq]
  by_cases hother : other = socket
  · rw [hother, Function.update_self]
    have hall : (transfers.filter fun t => t.socket = socket) = transfers := by
      rw [List.filter_eq_self]
      intro t ht
      exact decide_eq_true (h.sockets t ht)
    rw [hall, h.bytes, Nat.add_sub_cancel_left]
  · rw [Function.update_of_ne hother]
    have hnone : (transfers.filter fun t => t.socket = other) = [] := by
      rw [List.filter_eq_nil_iff]
      intro t ht
      simp only [decide_eq_true_eq, h.sockets t ht]
      exact Ne.symm hother
    rw [hnone]
    simp

end Sent

section Received

variable {streams : ℕ → ℕ → UInt8} {socket : ℕ}

/-- A receiver that has taken bytes of a stream to an address and nothing else. -/
def Receiver.took (streams : ℕ → ℕ → UInt8) (receiver : Receiver) (socket data size : ℕ) :
    Receiver where
  memory a :=
    if data ≤ a ∧ a < data + size then streams socket (receiver.taken socket + (a - data))
    else receiver.memory a
  taken := Function.update receiver.taken socket (receiver.taken socket + size)

/-- What was taken in two parts was taken at once. -/
theorem Receiver.took_took (receiver : Receiver) (data count more : ℕ) :
    (receiver.took streams socket data count).took streams socket (data + count) more =
      receiver.took streams socket data (count + more) := by
  simp only [Receiver.took, Function.update_self, Function.update_idem, Receiver.mk.injEq]
  constructor
  · funext a
    by_cases hsecond : data + count ≤ a ∧ a < data + count + more
    · have hplace : receiver.taken socket + count + (a - (data + count)) =
          receiver.taken socket + (a - data) := by omega
      rw [if_pos hsecond, if_pos (by omega), hplace]
    · rw [if_neg hsecond]
      by_cases hfirst : data ≤ a ∧ a < data + count
      · rw [if_pos hfirst, if_pos (by omega)]
      · rw [if_neg hfirst, if_neg (by omega)]
  · rw [Nat.add_assoc]

/-- A receiver has taken the bytes of a path on a socket in their order. -/
theorem receiveAll_path {receiver : Receiver} {data size : ℕ} {transfers : List Transfer}
    (h : Path socket data (data + size) transfers) :
    receiveAll streams receiver transfers = receiver.took streams socket data size := by
  induction transfers generalizing receiver data size with
  | nil =>
    have heq : data = data + size := h
    have hzero : size = 0 := by omega
    rw [hzero]
    simp only [receiveAll, List.foldl_nil, Receiver.took, Nat.add_zero, Function.update_eq_self]
    cases receiver
    congr 1
    funext a
    rw [if_neg (by omega)]
  | cons t transfers ih =>
    obtain ⟨hsocket, haddress, _, hrest⟩ := h
    have hle := hrest.le
    have hsplit : t.count + (size - t.count) = size := by omega
    have hend : data + t.count + (size - t.count) = data + size := by omega
    rw [← hend] at hrest
    have hfirst : receiver.receive streams t = receiver.took streams socket data t.count := by
      rw [Receiver.receive, Receiver.took, hsocket, haddress]
    have hall : receiveAll streams (receiver.took streams socket data t.count) transfers =
        (receiver.took streams socket data t.count).took streams socket (data + t.count)
          (size - t.count) := ih hrest
    rw [receiveAll, List.foldl_cons, hfirst]
    exact hall.trans ((Receiver.took_took receiver data t.count _).trans (by rw [hsplit]))

/-- Two receivers have the same bytes in a part of memory and have taken as much of a stream. -/
structure SamePart (socket first last : ℕ) (receiver other : Receiver) : Prop where
  /-- The stream. -/
  taken : receiver.taken socket = other.taken socket
  /-- The part of memory. -/
  memory : ∀ a, first ≤ a → a < last → receiver.memory a = other.memory a

theorem SamePart.receive {first last : ℕ} {receiver other : Receiver}
    (h : SamePart socket first last receiver other) {t : Transfer} (ht : t.socket = socket) :
    SamePart socket first last (receiver.receive streams t) (other.receive streams t) := by
  constructor
  · simp only [Receiver.receive, ht, Function.update_self, h.taken]
  · intro a hfirst hlast
    simp only [Receiver.receive, ht, h.taken]
    rw [h.memory a hfirst hlast]

theorem SamePart.skip {first last : ℕ} {receiver other : Receiver}
    (h : SamePart socket first last receiver other) {t : Transfer} (ht : t.socket ≠ socket)
    (hapart : t.address + t.count ≤ first ∨ last ≤ t.address) :
    SamePart socket first last (receiver.receive streams t) other := by
  constructor
  · simp only [Receiver.receive, Function.update_of_ne (Ne.symm ht), h.taken]
  · intro a hfirst hlast
    simp only [Receiver.receive]
    rw [if_neg (by omega), h.memory a hfirst hlast]

/-- Transfers of other sockets to other places do not matter for a part of memory. -/
theorem samePart_filter {first last : ℕ} {own : Transfer → Prop} [DecidablePred own]
    {transfers : List Transfer} {receiver other : Receiver}
    (h : SamePart socket first last receiver other)
    (hown : ∀ t ∈ transfers, own t → t.socket = socket)
    (hothers : ∀ t ∈ transfers, ¬own t →
      t.socket ≠ socket ∧ (t.address + t.count ≤ first ∨ last ≤ t.address)) :
    SamePart socket first last (receiveAll streams receiver transfers)
      (receiveAll streams other (transfers.filter fun t => own t)) := by
  induction transfers generalizing receiver other with
  | nil => exact h
  | cons t transfers ih =>
    have hmore := fun t' ht' => hown t' (List.mem_cons_of_mem t ht')
    have hmoreothers := fun t' ht' => hothers t' (List.mem_cons_of_mem t ht')
    by_cases ht : own t
    · rw [List.filter_cons_of_pos (by simpa using ht)]
      exact ih (h.receive (hown t List.mem_cons_self ht)) hmore hmoreothers
    · rw [List.filter_cons_of_neg (by simpa using ht)]
      obtain ⟨hsocket, hapart⟩ := hothers t List.mem_cons_self ht
      exact ih (h.skip hsocket hapart) hmore hmoreothers

/-- Memory stays where no transfer goes. -/
theorem receiveAll_kept {transfers : List Transfer} {receiver : Receiver} {a : ℕ}
    (h : ∀ t ∈ transfers, ¬(t.address ≤ a ∧ a < t.address + t.count)) :
    (receiveAll streams receiver transfers).memory a = receiver.memory a := by
  induction transfers generalizing receiver with
  | nil => exact Eq.refl _
  | cons t transfers ih =>
    have hrest : (receiveAll streams (receiver.receive streams t) transfers).memory a =
        (receiver.receive streams t).memory a :=
      ih fun t' ht' => h t' (List.mem_cons_of_mem t ht')
    rw [receiveAll, List.foldl_cons]
    refine hrest.trans ?_
    simp only [Receiver.receive]
    rw [if_neg (h t List.mem_cons_self)]

theorem Path.range {first last : ℕ} {transfers : List Transfer}
    (h : Path socket first last transfers) :
    ∀ t ∈ transfers, first ≤ t.address ∧ t.address + t.count ≤ last := by
  induction transfers generalizing first with
  | nil =>
    intro t ht
    cases ht
  | cons t transfers ih =>
    obtain ⟨_, haddress, _, hrest⟩ := h
    intro other hother
    cases List.mem_cons.mp hother with
    | inl heq =>
      have hle := hrest.le
      rw [heq]
      omega
    | inr hmem =>
      have hrange := ih hrest other hmem
      omega

end Received

section Exact

/-- No other entry has the socket of an entry. -/
def Alone (ios : List NnSocketIo) (i : ℕ) (io : NnSocketIo) : Prop :=
  ∀ j other, ios[j]? = some other → j ≠ i → other.socketIndex ≠ io.socketIndex

/-- No other entry has bytes at the place of an entry. -/
def Apart (ios : List NnSocketIo) (i : ℕ) (io : NnSocketIo) : Prop :=
  ∀ j other, ios[j]? = some other → j ≠ i →
    other.data + other.size ≤ io.data ∨ io.data + io.size ≤ other.data

/-- Bytes of every entry have been sent, in their order and nothing else. -/
structure SentMany (memory : ℕ → UInt8) (wires : ℕ → List UInt8) (ios : List NnSocketIo)
    (transfers : List Transfer) : Prop where
  /-- Every transfer is one of an entry. -/
  entries : ∀ t ∈ transfers, t.entry < ios.length
  /-- What was sent for an entry are its bytes in their order. -/
  bytes : ∀ i io, ios[i]? = some io →
    ((transfers.filter fun t => t.entry = i).flatMap fun t => bytesAt memory t.address t.count) =
      bytesAt memory io.data io.size
  /-- It was sent on its socket. -/
  sockets : ∀ i io, ios[i]? = some io →
    ∀ t ∈ transfers, t.entry = i → t.socket = io.socketIndex
  /-- A socket that is of one entry only gets its bytes. -/
  wire : ∀ i io, ios[i]? = some io → Alone ios i io →
    sendAll memory wires transfers io.socketIndex =
      wires io.socketIndex ++ bytesAt memory io.data io.size
  /-- A socket that is of no entry gets nothing. -/
  others : ∀ socket, (∀ io ∈ ios, io.socketIndex ≠ socket) →
    sendAll memory wires transfers socket = wires socket

/-- Bytes of every entry have been received, in their order and nothing else. -/
structure ReceivedMany (streams : ℕ → ℕ → UInt8) (receiver : Receiver) (ios : List NnSocketIo)
    (transfers : List Transfer) : Prop where
  /-- Every transfer is one of an entry. -/
  entries : ∀ t ∈ transfers, t.entry < ios.length
  /-- Transfers of an entry go from its first to its last address, on its socket. -/
  path : ∀ i io, ios[i]? = some io →
    Path io.socketIndex io.data (io.data + io.size) (transfers.filter fun t => t.entry = i)
  /-- An entry with a socket and a place of its own has the next bytes of its stream. -/
  stored : ∀ i io, ios[i]? = some io → Alone ios i io → Apart ios i io →
    SamePart io.socketIndex io.data (io.data + io.size) (receiveAll streams receiver transfers)
      (receiver.took streams io.socketIndex io.data io.size)
  /-- Memory outside all entries stays. -/
  kept : ∀ a, (∀ io ∈ ios, ¬(io.data ≤ a ∧ a < io.data + io.size)) →
    (receiveAll streams receiver transfers).memory a = receiver.memory a

variable {ios ios' : List NnSocketIo} {transfers : List Transfer}

theorem Advances.entry_lt (h : Advances 0 ios ios' transfers) :
    ∀ t ∈ transfers, t.entry < ios.length := by
  intro t ht
  have hentries := h.entries t ht
  omega

/-- A transfer is one of the path of its entry. -/
theorem Advances.mem_path (h : Advances 0 ios ios' transfers) (hzero : total ios' = 0)
    {t : Transfer} (ht : t ∈ transfers) : ∃ io, ios[t.entry]? = some io ∧
      t.socket = io.socketIndex ∧ io.data ≤ t.address ∧
        t.address + t.count ≤ io.data + io.size := by
  have hio := List.getElem?_eq_getElem (h.entry_lt t ht)
  have hpath := h.complete hzero hio
  have hmem : t ∈ transfers.filter fun t' => t'.entry = t.entry := by
    rw [List.mem_filter]
    exact ⟨ht, decide_eq_true (Eq.refl _)⟩
  exact ⟨_, hio, hpath.sockets t hmem, hpath.range t hmem⟩

theorem Advances.sentMany (h : Advances 0 ios ios' transfers) (hzero : total ios' = 0)
    (memory : ℕ → UInt8) (wires : ℕ → List UInt8) : SentMany memory wires ios transfers := by
  have hbytes : ∀ i io, ios[i]? = some io →
      ((transfers.filter fun t => t.entry = i).flatMap fun t =>
        bytesAt memory t.address t.count) = bytesAt memory io.data io.size := by
    intro i io hio
    rw [(h.complete hzero hio).bytes, Nat.add_sub_cancel_left]
  have hsockets : ∀ i io, ios[i]? = some io →
      ∀ t ∈ transfers, t.entry = i → t.socket = io.socketIndex := by
    intro i io hio t ht hentry
    obtain ⟨other, hother, hsocket, _⟩ := h.mem_path hzero ht
    rw [hentry, hio] at hother
    injection hother with hother
    rw [hsocket, hother]
  refine ⟨h.entry_lt, hbytes, hsockets, ?_, ?_⟩
  · intro i io hio halone
    have hsame : (transfers.filter fun t => t.socket = io.socketIndex) =
        transfers.filter fun t => t.entry = i := by
      refine List.filter_congr ?_
      intro t ht
      rw [decide_eq_decide]
      constructor
      · intro hsocket
        by_contra hentry
        obtain ⟨other, hother, hothersocket, _⟩ := h.mem_path hzero ht
        exact halone t.entry other hother hentry (hothersocket.symm.trans hsocket)
      · intro hentry
        exact hsockets i io hio t ht hentry
    rw [sendAll_eq, hsame, hbytes i io hio]
  · intro socket hnone
    have hempty : (transfers.filter fun t => t.socket = socket) = [] := by
      rw [List.filter_eq_nil_iff]
      intro t ht
      obtain ⟨io, hio, hsocket, _⟩ := h.mem_path hzero ht
      simp only [decide_eq_true_eq, hsocket]
      exact hnone io (List.mem_of_getElem? hio)
    rw [sendAll_eq, hempty]
    simp

theorem Advances.receivedMany (h : Advances 0 ios ios' transfers) (hzero : total ios' = 0)
    (streams : ℕ → ℕ → UInt8) (receiver : Receiver) :
    ReceivedMany streams receiver ios transfers := by
  refine ⟨h.entry_lt, fun i io hio => h.complete hzero hio, ?_, ?_⟩
  · intro i io hio halone hapart
    have hpath := h.complete hzero hio
    rw [← receiveAll_path hpath]
    refine samePart_filter ⟨Eq.refl _, fun _ _ _ => Eq.refl _⟩ ?_ ?_
    · intro t ht hentry
      have hmem : t ∈ transfers.filter fun t => t.entry = i := by
        rw [List.mem_filter]
        exact ⟨ht, decide_eq_true hentry⟩
      exact hpath.sockets t hmem
    · intro t ht hentry
      obtain ⟨other, hother, hsocket, hrange⟩ := h.mem_path hzero ht
      refine ⟨?_, ?_⟩
      · rw [hsocket]
        exact halone t.entry other hother hentry
      · have hplaces := hapart t.entry other hother hentry
        omega
  · intro a houtside
    refine receiveAll_kept ?_
    intro t ht hinside
    obtain ⟨io, hio, _, hrange⟩ := h.mem_path hzero ht
    exact houtside io (List.mem_of_getElem? hio) (by omega)

/-- What the five transfers come to with enough steps. -/
structure TransfersExact (schedule : Schedule) (hardTimeoutMs ioChunkSize : ℕ)
    (memory : ℕ → UInt8) (wires : ℕ → List UInt8) (streams : ℕ → ℕ → UInt8)
    (receiver : Receiver) : Prop where
  /-- All bytes are sent on the socket, and nothing else. -/
  write : ∀ socket data size, ∃ fuel next transfers,
    write schedule hardTimeoutMs socket ioChunkSize fuel data size = some (.ok (next, transfers)) ∧
      sendAll memory wires transfers =
        Function.update wires socket (wires socket ++ bytesAt memory data size)
  /-- All bytes are received from the socket, and nothing else. -/
  read : ∀ socket data size, ∃ fuel next transfers,
    read schedule hardTimeoutMs socket ioChunkSize fuel data size = some (.ok (next, transfers)) ∧
      receiveAll streams receiver transfers = receiver.took streams socket data size
  /-- All bytes are received, unless there is nothing before the first one for all attempts; then
  none is received and memory stays as it is. -/
  tryReadWithMaxAttempts : ∀ socket data size maxAttempts, ∃ fuel done next transfers,
    tryReadWithMaxAttempts schedule hardTimeoutMs socket fuel data size maxAttempts =
        some (.ok ((done, next), transfers)) ∧
      (done = false ↔ schedule.GivesUp size maxAttempts 0) ∧
      receiveAll streams receiver transfers =
        if done then receiver.took streams socket data size else receiver
  /-- Bytes of all entries are sent. -/
  writeMany : ∀ ios, ∃ fuel next transfers,
    writeMany schedule hardTimeoutMs ioChunkSize fuel ios = some (.ok (next, transfers)) ∧
      SentMany memory wires ios transfers
  /-- Bytes of all entries are received. -/
  readMany : ∀ ios, ∃ fuel next transfers,
    readMany schedule hardTimeoutMs fuel ios = some (.ok (next, transfers)) ∧
      ReceivedMany streams receiver ios transfers

end Exact

/-- With partial results and moments with nothing, and progress before every timeout, all five
transfers end and have moved exactly the bytes that were asked for. -/
theorem transfers_exact {schedule : Schedule} {hardTimeoutMs : ℕ}
    (hlively : schedule.Lively hardTimeoutMs) (parsed : Option ℕ) (memory : ℕ → UInt8)
    (wires : ℕ → List UInt8) (streams : ℕ → ℕ → UInt8) (receiver : Receiver) :
    TransfersExact schedule hardTimeoutMs (getNetIoChunkSize parsed) memory wires streams
      receiver := by
  have hchunk := getNetIoChunkSize_pos parsed
  constructor
  · intro socket data size
    obtain ⟨fuel, next, transfers, hrun, hpath⟩ := moveChunks_ends monotone_writeSocket hchunk
      (writeSocket_ends hlively) size 0 0 data (Nat.sub_le _ _)
    exact ⟨fuel, next, transfers, hrun, sendAll_path hpath⟩
  · intro socket data size
    obtain ⟨fuel, next, transfers, hrun, hpath⟩ := moveChunks_ends monotone_writeSocket hchunk
      (writeSocket_ends hlively) size 0 0 data (Nat.sub_le _ _)
    exact ⟨fuel, next, transfers, hrun, receiveAll_path hpath⟩
  · intro socket data size maxAttempts
    have hends : Ends schedule socket size maxAttempts 0 data size fun fuel =>
        tryReadWithMaxAttempts schedule hardTimeoutMs socket fuel data size maxAttempts :=
      moveBytes_ends hlively size (Nat.le_refl _) maxAttempts 0 _ data (fresh_before 0)
    obtain ⟨fuel, done, next, transfers, hrun, hpath, hnone, hgives⟩ := hends
    refine ⟨fuel, done, next, transfers, hrun, ?_, ?_⟩
    · rw [hgives]
      exact and_iff_right (Eq.refl _)
    · cases done with
      | true => exact receiveAll_path (hpath (Eq.refl _))
      | false =>
        rw [hnone (Eq.refl _)]
        exact Eq.refl _
  · intro ios
    have hrequest : ∀ size, 0 < size →
        0 < (if getNetIoChunkSize parsed < size then getNetIoChunkSize parsed else size) ∧
          (if getNetIoChunkSize parsed < size then getNetIoChunkSize parsed else size) ≤ size := by
      intro size hsize
      split <;> omega
    obtain ⟨fuel, next, transfers, ios', hrun, hadvances, hzero⟩ :=
      moveMany_ends hlively hrequest (total ios) 0 _ ios (Eq.refl _) (fresh_before 0)
    exact ⟨fuel, next, transfers, hrun, hadvances.sentMany hzero memory wires⟩
  · intro ios
    obtain ⟨fuel, next, transfers, ios', hrun, hadvances, hzero⟩ :=
      moveMany_ends hlively (fun size hsize => ⟨hsize, Nat.le_refl size⟩) (total ios) 0 _ ios
        (Eq.refl _) (fresh_before 0)
    exact ⟨fuel, next, transfers, hrun, hadvances.receivedMany hzero streams receiver⟩

/-- Every other call has nothing, and the others move up to two bytes; the clock stands still. -/
def everyOther : Schedule where
  answer k := if k % 2 = 0 then .again else .moves 1
  before _ := 0
  after _ := 0
  ordered _ := ⟨Nat.le_refl 0, Nat.le_refl 0⟩

theorem everyOther_lively : everyOther.Lively 1 := by
  constructor
  · intro k
    by_cases heven : k % 2 = 0
    · exact .inl (if_pos heven)
    · exact .inr ⟨1, if_neg heven⟩
  · intro k
    refine ⟨2 * k + 1, by omega, ?_⟩
    have hodd : ¬(2 * k + 1) % 2 = 0 := by omega
    rw [everyOther]
    simp only [if_neg hodd]
    intro h
    cases h
  · intro i j _ _
    have hafter : everyOther.after j = 0 := Eq.refl _
    rw [hafter, Nat.zero_sub]
    exact Nat.zero_lt_one

/-- Its second call moves bytes, so that a receive with two attempts gets all. -/
theorem transfers_exact_everyOther :
    TransfersExact everyOther 1 (getNetIoChunkSize none) (fun a => UInt8.ofNat a) (fun _ => [])
      (fun socket i => UInt8.ofNat (socket + i)) ⟨fun _ => 0, fun _ => 0⟩ ∧
    ∃ fuel next transfers,
      tryReadWithMaxAttempts everyOther 1 3 fuel 5 7 2 = some (.ok ((true, next), transfers)) ∧
      receiveAll (fun socket i => UInt8.ofNat (socket + i)) ⟨fun _ => 0, fun _ => 0⟩ transfers =
        Receiver.took (fun socket i => UInt8.ofNat (socket + i)) ⟨fun _ => 0, fun _ => 0⟩ 3 5 7 := by
  have hexact : TransfersExact everyOther 1 (getNetIoChunkSize none) (fun a => UInt8.ofNat a)
      (fun _ => []) (fun socket i => UInt8.ofNat (socket + i)) ⟨fun _ => 0, fun _ => 0⟩ :=
    transfers_exact everyOther_lively none _ _ _ _
  refine ⟨hexact, ?_⟩
  obtain ⟨fuel, done, next, transfers, hrun, hgives, hreceived⟩ :=
    hexact.tryReadWithMaxAttempts 3 5 7 2
  have hsecond : everyOther.answer (0 + 1) = .moves 1 := by decide
  cases done with
  | true => exact ⟨fuel, next, transfers, hrun, hreceived⟩
  | false =>
    have hagain := (hgives.mp (Eq.refl _)).2.2 1 (by decide)
    rw [hsecond] at hagain
    cases hagain

end LayerSkip.SocketTransfer
