import LayerSkip.ContinuousBatching
import LayerSkip.NnPipeline
import Mathlib.Algebra.Order.BigOperators.Group.Finset
import Mathlib.Algebra.Ring.Nat
import Mathlib.Data.Nat.Find
import Mathlib.Order.Interval.Finset.Nat

/-!
# Wave prefill

In a wave the root submits all chunks of the prompt before it reads any logits.
For each chunk it writes a control packet to every worker and its activation to
the first one. A worker reads a control packet and an activation, computes, and
sends its activation to the next worker, or the logits to the root if it is the
last. Only afterwards does the root read the logits of all chunks. A link holds
a bounded number of bytes. A party that writes to a full link or reads from an
empty one waits.
-/

namespace LayerSkip.WavePrefill

open NnPipeline ContinuousBatching

/-- Bytes of the first `k` chunks. -/
def total (bytes : ℕ → ℕ) (k : ℕ) : ℕ := ∑ j ∈ Finset.range k, bytes j

theorem total_zero (bytes : ℕ → ℕ) : total bytes 0 = 0 := Finset.sum_range_zero bytes

theorem total_succ (bytes : ℕ → ℕ) (k : ℕ) : total bytes (k + 1) = total bytes k + bytes k :=
  Finset.sum_range_succ bytes k

theorem total_mono (bytes : ℕ → ℕ) {j k : ℕ} (h : j ≤ k) : total bytes j ≤ total bytes k := by
  induction h with
  | refl => exact le_refl _
  | step _ ih =>
    rw [total_succ]
    omega

/-- The pipeline, the sizes of its messages and of its links. Workers are numbered by
their stage, from 1. -/
structure Wave where
  /-- Number of stages. -/
  ppSize : ℕ
  /-- The last stage is a worker. -/
  two_le : 2 ≤ ppSize
  /-- Number of chunks. -/
  nChunks : ℕ
  /-- Bytes of a control packet. -/
  controlBytes : ℕ
  /-- A control packet is not empty. -/
  controlBytes_pos : 0 < controlBytes
  /-- Bytes of an activation with its header, by chunk. -/
  activationBytes : ℕ → ℕ
  /-- Bytes of the logits with their header, by chunk. -/
  logitsBytes : ℕ → ℕ
  /-- Bytes that fit into the link from the root to a worker. -/
  downCapacity : ℕ → ℕ
  /-- A link holds something. -/
  downCapacity_pos : ∀ i, 0 < downCapacity i
  /-- Bytes that fit into the link from a worker to the next one, or from the last to the
  root. -/
  outCapacity : ℕ → ℕ
  /-- A link holds something. -/
  outCapacity_pos : ∀ i, 0 < outCapacity i

/-- Where the root is. -/
inductive RootPc
  /-- Writing the control packet of a chunk, with the bytes written to each worker. -/
  | writeAll (chunk : ℕ) (sent : ℕ → ℕ)
  /-- Sending the activation of a chunk, with the bytes sent. -/
  | sendActivation (chunk sent : ℕ)
  /-- Receiving the logits of a chunk, with the bytes received. -/
  | recvLogits (chunk got : ℕ)
  /-- All logits have been received. -/
  | drained

/-- Where a worker is. -/
inductive WorkerPc
  /-- Reading the control packet of a chunk, with the bytes read. -/
  | readControl (chunk got : ℕ)
  /-- Receiving the activation of a chunk, with the bytes received. -/
  | recvActivation (chunk got : ℕ)
  /-- Sending the result of a chunk, with the bytes sent. -/
  | send (chunk sent : ℕ)

/-- The parties and the bytes in each link. -/
structure State where
  /-- Where the root is. -/
  root : RootPc
  /-- Where each worker is. -/
  worker : ℕ → WorkerPc
  /-- Bytes in the link from the root to a worker. -/
  down : ℕ → ℕ
  /-- Bytes in the link from a worker to the next party. -/
  out : ℕ → ℕ

namespace State

variable (s : State)

/-- Replace where the root is. -/
def setRoot (pc : RootPc) : State := { s with root := pc }

/-- Replace where a worker is. -/
def setWorker (i : ℕ) (pc : WorkerPc) : State :=
  { s with worker := Function.update s.worker i pc }

/-- Replace the number of bytes in a link from the root. -/
def setDown (i n : ℕ) : State := { s with down := Function.update s.down i n }

/-- Replace the number of bytes in a link from a worker. -/
def setOut (i n : ℕ) : State := { s with out := Function.update s.out i n }

end State

namespace Wave

variable (w : Wave)

/-- Bytes that a stage sends for a chunk. -/
def outBytes (i k : ℕ) : ℕ := if i + 1 < w.ppSize then w.activationBytes k else w.logitsBytes k

/-- `drainPrefillLogits` from a chunk on. -/
def drain (k : ℕ) : RootPc := if k < w.nChunks then .recvLogits k 0 else .drained

/-- The loop of `forwardPrefillNoWait` from a chunk on, and what follows it. -/
def submit (k : ℕ) : RootPc := if k < w.nChunks then .writeAll k fun _ => 0 else w.drain 0

/-- Nothing has been sent. -/
def start : State where
  root := w.submit 0
  worker _ := .readControl 0 0
  down _ := 0
  out _ := 0

/-- One byte moves, or a party has moved all bytes of a message and goes on. -/
inductive Step (s : State) : State → Prop
  /-- `writeAll` moves a byte to a worker. -/
  | rootWrites {k : ℕ} {sent : ℕ → ℕ} {i : ℕ} : s.root = .writeAll k sent → 0 < i →
      i < w.ppSize → sent i < w.controlBytes → s.down i < w.downCapacity i →
      Step s ((s.setRoot (.writeAll k (Function.update sent i (sent i + 1)))).setDown i
        (s.down i + 1))
  /-- `writeAll` has written to all workers. -/
  | rootWritten {k : ℕ} {sent : ℕ → ℕ} : s.root = .writeAll k sent →
      (∀ i, 0 < i → i < w.ppSize → sent i = w.controlBytes) →
      Step s (s.setRoot (.sendActivation k 0))
  /-- The root sends a byte of its activation. -/
  | rootSends {k sent : ℕ} : s.root = .sendActivation k sent → sent < w.activationBytes k →
      s.down 1 < w.downCapacity 1 →
      Step s ((s.setRoot (.sendActivation k (sent + 1))).setDown 1 (s.down 1 + 1))
  /-- The root has sent its activation. -/
  | rootSent {k : ℕ} : s.root = .sendActivation k (w.activationBytes k) →
      Step s (s.setRoot (w.submit (k + 1)))
  /-- The root receives a byte of the logits. -/
  | rootTakes {k got n : ℕ} : s.root = .recvLogits k got → got < w.logitsBytes k →
      s.out (w.ppSize - 1) = n + 1 →
      Step s ((s.setRoot (.recvLogits k (got + 1))).setOut (w.ppSize - 1) n)
  /-- The root has received the logits. -/
  | rootTaken {k : ℕ} : s.root = .recvLogits k (w.logitsBytes k) →
      Step s (s.setRoot (w.drain (k + 1)))
  /-- A worker reads a byte of its control packet. -/
  | controlTakes {i k got n : ℕ} : 0 < i → i < w.ppSize → s.worker i = .readControl k got →
      got < w.controlBytes → s.down i = n + 1 →
      Step s ((s.setWorker i (.readControl k (got + 1))).setDown i n)
  /-- A worker has read its control packet. -/
  | controlTaken {i k : ℕ} : 0 < i → i < w.ppSize → s.worker i = .readControl k w.controlBytes →
      Step s (s.setWorker i (.recvActivation k 0))
  /-- The first worker receives a byte of its activation. -/
  | firstTakes {k got n : ℕ} : s.worker 1 = .recvActivation k got → got < w.activationBytes k →
      s.down 1 = n + 1 →
      Step s ((s.setWorker 1 (.recvActivation k (got + 1))).setDown 1 n)
  /-- A later worker receives a byte of its activation. -/
  | laterTakes {i k got n : ℕ} : 0 < i → i + 1 < w.ppSize →
      s.worker (i + 1) = .recvActivation k got → got < w.activationBytes k → s.out i = n + 1 →
      Step s ((s.setWorker (i + 1) (.recvActivation k (got + 1))).setOut i n)
  /-- A worker has received its activation and computes. -/
  | activationTaken {i k : ℕ} : 0 < i → i < w.ppSize →
      s.worker i = .recvActivation k (w.activationBytes k) →
      Step s (s.setWorker i (.send k 0))
  /-- A worker sends a byte of its result. -/
  | workerSends {i k sent : ℕ} : 0 < i → i < w.ppSize → s.worker i = .send k sent →
      sent < w.outBytes i k → s.out i < w.outCapacity i →
      Step s ((s.setWorker i (.send k (sent + 1))).setOut i (s.out i + 1))
  /-- A worker has sent its result and reads on. -/
  | workerSent {i k : ℕ} : 0 < i → i < w.ppSize → s.worker i = .send k (w.outBytes i k) →
      Step s (s.setWorker i (.readControl (k + 1) 0))

/-- States of all runs. -/
def Reachable (s : State) : Prop := Relation.ReflTransGen w.Step w.start s

/-- No party can go on, and the root does not have all logits. -/
def Stuck (s : State) : Prop := (∀ s', ¬w.Step s s') ∧ s.root ≠ .drained

/-- Chunks, counted from the first, of which all bytes fit into so much room. -/
def complete (bytes : ℕ → ℕ) (room : ℕ) : ℕ :=
  Nat.findGreatest (fun k => total bytes k ≤ room) w.nChunks

/-- Chunks that the stage at this distance from the last takes in as long as the root reads
no logits: those whose results it gets rid of, and one more. -/
def takenFrom : ℕ → ℕ
  | 0 => min w.nChunks
      (w.complete (w.outBytes (w.ppSize - 1)) (w.outCapacity (w.ppSize - 1)) + 1)
  | d + 1 => min w.nChunks
      (w.complete (w.outBytes (w.ppSize - 1 - (d + 1)))
        (total w.activationBytes (takenFrom d) + w.outCapacity (w.ppSize - 1 - (d + 1))) + 1)

/-- Chunks that a worker takes in as long as the root reads no logits. -/
def taken (i : ℕ) : ℕ := w.takenFrom (w.ppSize - 1 - i)

/-- Bytes that the root writes to a worker for the first `k` chunks. -/
def rootBytes (i k : ℕ) : ℕ :=
  k * w.controlBytes + if i = 1 then total w.activationBytes k else 0

/-- What the root writes to a worker fits into what the worker takes in and the link. -/
def Absorbed : Prop :=
  ∀ i < w.ppSize, 0 < i →
    w.rootBytes i w.nChunks ≤ w.rootBytes i (w.taken i) + w.downCapacity i

end Wave

section Bounds

variable (w : Wave)

/-- So many chunks are complete exactly when their bytes fit. -/
theorem Wave.le_complete_iff {bytes : ℕ → ℕ} {room k : ℕ} (hk : k ≤ w.nChunks) :
    k ≤ w.complete bytes room ↔ total bytes k ≤ room := by
  constructor
  · intro h
    have hzero : total bytes 0 ≤ room := by
      rw [total_zero]
      exact Nat.zero_le room
    have hspec : total bytes (w.complete bytes room) ≤ room :=
      Nat.findGreatest_spec (P := fun k => total bytes k ≤ room) (Nat.zero_le w.nChunks) hzero
    have hmono := total_mono bytes h
    omega
  · intro h
    exact Nat.le_findGreatest hk h

/-- Room for what a stage sends as long as the root reads no logits. -/
def Wave.room (i : ℕ) : ℕ :=
  (if i + 1 < w.ppSize then total w.activationBytes (w.taken (i + 1)) else 0) + w.outCapacity i

theorem Wave.taken_eq {i : ℕ} (hi : i < w.ppSize) :
    w.taken i = min w.nChunks (w.complete (w.outBytes i) (w.room i) + 1) := by
  unfold Wave.taken Wave.room
  by_cases hlast : i + 1 < w.ppSize
  · have hd : w.ppSize - 1 - i = w.ppSize - 1 - (i + 1) + 1 := by omega
    have hback : w.ppSize - 1 - (w.ppSize - 1 - (i + 1) + 1) = i := by omega
    rw [hd, Wave.takenFrom, hback, if_pos hlast]
    rfl
  · have hd : w.ppSize - 1 - i = 0 := by omega
    have hback : w.ppSize - 1 = i := by omega
    rw [hd, Wave.takenFrom, hback, if_neg hlast, Nat.zero_add]

/-- A stage that is sending the result of a chunk has taken in no more than it can. -/
theorem Wave.lt_taken {i k : ℕ} (hi : i < w.ppSize) (hk : k < w.nChunks)
    (h : total (w.outBytes i) k ≤ w.room i) : k < w.taken i := by
  have hcomplete := (w.le_complete_iff (Nat.le_of_lt hk)).mpr h
  rw [w.taken_eq hi]
  omega

/-- A stage that cannot send all of a chunk has taken in what it can. -/
theorem Wave.taken_eq_succ {i k : ℕ} (hi : i < w.ppSize) (hk : k < w.nChunks)
    (h : total (w.outBytes i) k ≤ w.room i) (hfull : w.room i < total (w.outBytes i) (k + 1)) :
    w.taken i = k + 1 := by
  have hcomplete := (w.le_complete_iff (Nat.le_of_lt hk)).mpr h
  have hnot : ¬k + 1 ≤ w.complete (w.outBytes i) (w.room i) := by
    intro hle
    have hchunk : k + 1 ≤ w.nChunks := hk
    have hfits := (w.le_complete_iff hchunk).mp hle
    omega
  rw [w.taken_eq hi]
  omega

theorem Wave.outBytes_of_lt {i : ℕ} (hi : i + 1 < w.ppSize) : w.outBytes i = w.activationBytes := by
  funext k
  exact if_pos hi

theorem Wave.outBytes_last : w.outBytes (w.ppSize - 1) = w.logitsBytes := by
  have h := w.two_le
  funext k
  exact if_neg (by omega)

theorem Wave.rootBytes_succ (i k : ℕ) :
    w.rootBytes i (k + 1) =
      w.rootBytes i k + w.controlBytes + if i = 1 then w.activationBytes k else 0 := by
  unfold Wave.rootBytes
  by_cases hi : i = 1
  · simp only [if_pos hi, total_succ, Nat.succ_mul]
    omega
  · simp only [if_neg hi, Nat.succ_mul]
    omega

theorem Wave.rootBytes_mono (i : ℕ) {j k : ℕ} (h : j ≤ k) : w.rootBytes i j ≤ w.rootBytes i k := by
  induction h with
  | refl => exact le_refl _
  | step _ ih =>
    rw [w.rootBytes_succ]
    omega

end Bounds

section Counts

variable (w : Wave)

/-- Bytes that the root has written to a worker. -/
def Wave.rootSent (i : ℕ) : RootPc → ℕ
  | .writeAll k sent => w.rootBytes i k + sent i
  | .sendActivation k sent => w.rootBytes i k + w.controlBytes + if i = 1 then sent else 0
  | .recvLogits _ _ => w.rootBytes i w.nChunks
  | .drained => w.rootBytes i w.nChunks

/-- Bytes that the root has received from the last worker. -/
def Wave.rootReceived : RootPc → ℕ
  | .writeAll _ _ => 0
  | .sendActivation _ _ => 0
  | .recvLogits k got => total w.logitsBytes k + got
  | .drained => total w.logitsBytes w.nChunks

/-- Bytes of control packets that a worker has read. -/
def Wave.controlRead : WorkerPc → ℕ
  | .readControl k got => k * w.controlBytes + got
  | .recvActivation k _ => (k + 1) * w.controlBytes
  | .send k _ => (k + 1) * w.controlBytes

/-- Bytes of activations that a worker has received. -/
def Wave.activationRead : WorkerPc → ℕ
  | .readControl k _ => total w.activationBytes k
  | .recvActivation k got => total w.activationBytes k + got
  | .send k _ => total w.activationBytes (k + 1)

/-- Bytes that a worker has sent. -/
def Wave.outSent (i : ℕ) : WorkerPc → ℕ
  | .readControl k _ => total (w.outBytes i) k
  | .recvActivation k _ => total (w.outBytes i) k
  | .send k sent => total (w.outBytes i) k + sent

/-- Bytes that a worker has read from the root. -/
def Wave.downRead (i : ℕ) (pc : WorkerPc) : ℕ :=
  w.controlRead pc + if i = 1 then w.activationRead pc else 0

/-- Bytes of a worker that the next party has received. -/
def Wave.outRead (s : State) (i : ℕ) : ℕ :=
  if i + 1 < w.ppSize then w.activationRead (s.worker (i + 1)) else w.rootReceived s.root

/-- A message of the root is not longer than it should be. -/
def Wave.RootOk : RootPc → Prop
  | .writeAll k sent => k < w.nChunks ∧ ∀ i, sent i ≤ w.controlBytes
  | .sendActivation k sent => k < w.nChunks ∧ sent ≤ w.activationBytes k
  | .recvLogits k got => k < w.nChunks ∧ got ≤ w.logitsBytes k
  | .drained => True

/-- A message of a worker is not longer than it should be. -/
def Wave.WorkerOk (i : ℕ) : WorkerPc → Prop
  | .readControl _ got => got ≤ w.controlBytes
  | .recvActivation k got => got ≤ w.activationBytes k
  | .send k sent => sent ≤ w.outBytes i k

/-- The root has submitted all chunks. -/
def RootPc.Submitted : RootPc → Prop
  | .writeAll _ _ => False
  | .sendActivation _ _ => False
  | .recvLogits _ _ => True
  | .drained => True

/-- The chunk a worker is at. -/
def WorkerPc.chunk : WorkerPc → ℕ
  | .readControl k _ => k
  | .recvActivation k _ => k
  | .send k _ => k

/-- What holds of every state. -/
structure Inv (s : State) : Prop where
  /-- What the root has written is read or in the link. -/
  down : ∀ i, 0 < i → i < w.ppSize →
    s.down i + w.downRead i (s.worker i) = w.rootSent i s.root
  /-- What a worker has sent is received or in the link. -/
  out : ∀ i, 0 < i → i < w.ppSize → s.out i + w.outRead s i = w.outSent i (s.worker i)
  /-- Links from the root are not overfull. -/
  downRoom : ∀ i, s.down i ≤ w.downCapacity i
  /-- Links from workers are not overfull. -/
  outRoom : ∀ i, s.out i ≤ w.outCapacity i
  /-- The root's message is in bounds. -/
  rootOk : w.RootOk s.root
  /-- The workers' messages are in bounds. -/
  workerOk : ∀ i, w.WorkerOk i (s.worker i)

end Counts

section Chunks

variable {w : Wave} {s : State} {i : ℕ}

theorem Inv.rootSent_le (h : Inv w s) (i : ℕ) :
    w.rootSent i s.root ≤ w.rootBytes i w.nChunks := by
  have hok := h.rootOk
  cases hroot : s.root with
  | writeAll k sent =>
    rw [hroot] at hok
    have hchunk : k + 1 ≤ w.nChunks := hok.1
    have hmono := w.rootBytes_mono i hchunk
    have hsucc := w.rootBytes_succ i k
    have hsent := hok.2 i
    unfold Wave.rootSent
    dsimp only
    omega
  | sendActivation k sent =>
    rw [hroot] at hok
    have hchunk : k + 1 ≤ w.nChunks := hok.1
    have hmono := w.rootBytes_mono i hchunk
    have hsucc := w.rootBytes_succ i k
    have hsent := hok.2
    unfold Wave.rootSent
    dsimp only
    by_cases hone : i = 1
    · rw [if_pos hone] at hsucc ⊢
      omega
    · rw [if_neg hone] at hsucc ⊢
      omega
  | recvLogits k got => exact le_refl _
  | drained => exact le_refl _

/-- What a worker at a chunk has read from the root. -/
theorem rootBytes_le_downRead (w : Wave) (i : ℕ) (pc : WorkerPc) :
    w.rootBytes i pc.chunk ≤ w.downRead i pc := by
  have hmono := total_succ w.activationBytes pc.chunk
  unfold Wave.rootBytes Wave.downRead
  cases pc with
  | readControl k got =>
    simp only [WorkerPc.chunk, Wave.controlRead, Wave.activationRead]
    omega
  | recvActivation k got =>
    simp only [WorkerPc.chunk, Wave.controlRead, Wave.activationRead, Nat.succ_mul]
    split
    · omega
    · omega
  | send k sent =>
    simp only [WorkerPc.chunk, Wave.controlRead, Wave.activationRead, Nat.succ_mul] at hmono ⊢
    split
    · omega
    · omega

/-- A worker is at a chunk of the root, or waits after the last. -/
theorem Inv.chunk_le (h : Inv w s) (hi : 0 < i) (hiw : i < w.ppSize) :
    (s.worker i).chunk ≤ w.nChunks := by
  have hdown := h.down i hi hiw
  have hsent := h.rootSent_le i
  have hread := rootBytes_le_downRead w i (s.worker i)
  by_contra hlt
  have hnext : w.nChunks + 1 ≤ (s.worker i).chunk := Nat.lt_of_not_le hlt
  have hmono := w.rootBytes_mono i hnext
  have hsucc := w.rootBytes_succ i w.nChunks
  have hpos := w.controlBytes_pos
  omega

/-- A worker that has read a control packet is at a chunk of the root. -/
theorem Inv.chunk_lt (h : Inv w s) (hi : 0 < i) (hiw : i < w.ppSize)
    (hread : (s.worker i).chunk * w.controlBytes + w.controlBytes ≤ w.controlRead (s.worker i)) :
    (s.worker i).chunk < w.nChunks := by
  have hle := h.chunk_le hi hiw
  have hdown := h.down i hi hiw
  have hsent := h.rootSent_le i
  have hactivation : total w.activationBytes (s.worker i).chunk ≤
      w.activationRead (s.worker i) := by
    cases s.worker i with
    | readControl k got => exact le_refl _
    | recvActivation k got => exact Nat.le_add_right _ _
    | send k sent => exact total_mono w.activationBytes (Nat.le_succ k)
  have hpos := w.controlBytes_pos
  by_contra hnot
  have heq : (s.worker i).chunk = w.nChunks := by omega
  rw [heq] at hread hactivation
  unfold Wave.downRead at hdown
  unfold Wave.rootBytes at hsent
  by_cases hone : i = 1
  · rw [if_pos hone] at hdown hsent
    omega
  · rw [if_neg hone] at hdown hsent
    omega

end Chunks

section Steps

variable {w : Wave} {s : State} {i : ℕ}

/-- The counts of the root after the loop moves on. -/
theorem Wave.rootSent_submit (w : Wave) (i : ℕ) {k : ℕ} (hk : k ≤ w.nChunks) :
    w.rootSent i (w.submit k) = w.rootBytes i k := by
  unfold Wave.submit
  by_cases hlt : k < w.nChunks
  · rw [if_pos hlt]
    exact Nat.add_zero _
  · have heq : k = w.nChunks := by omega
    rw [if_neg hlt, heq]
    unfold Wave.drain
    split
    · exact Eq.refl _
    · exact Eq.refl _

theorem Wave.rootReceived_drain (w : Wave) {k : ℕ} (hk : k ≤ w.nChunks) :
    w.rootReceived (w.drain k) = total w.logitsBytes k := by
  unfold Wave.drain
  by_cases hlt : k < w.nChunks
  · rw [if_pos hlt]
    exact Nat.add_zero _
  · have heq : k = w.nChunks := by omega
    rw [if_neg hlt, heq]
    exact Eq.refl _

theorem Wave.rootReceived_submit (w : Wave) {k : ℕ} : w.rootReceived (w.submit k) = 0 := by
  unfold Wave.submit
  by_cases hlt : k < w.nChunks
  · rw [if_pos hlt]
    exact Eq.refl _
  · rw [if_neg hlt, w.rootReceived_drain (Nat.zero_le _), total_zero]

theorem Wave.rootOk_drain (w : Wave) (k : ℕ) : w.RootOk (w.drain k) := by
  unfold Wave.drain
  by_cases hlt : k < w.nChunks
  · rw [if_pos hlt]
    exact ⟨hlt, Nat.zero_le _⟩
  · rw [if_neg hlt]
    exact trivial

theorem Wave.rootOk_submit (w : Wave) (k : ℕ) : w.RootOk (w.submit k) := by
  unfold Wave.submit
  by_cases hlt : k < w.nChunks
  · rw [if_pos hlt]
    exact ⟨hlt, fun _ => Nat.zero_le _⟩
  · rw [if_neg hlt]
    exact w.rootOk_drain 0

theorem Inv.start (w : Wave) : Inv w w.start := by
  constructor
  · intro i _ _
    change 0 + w.downRead i (.readControl 0 0) = w.rootSent i (w.submit 0)
    rw [w.rootSent_submit i (Nat.zero_le _)]
    unfold Wave.downRead Wave.rootBytes Wave.controlRead Wave.activationRead
    simp only [Nat.zero_mul, Nat.add_zero]
    exact Nat.zero_add _
  · intro i _ _
    change 0 + w.outRead w.start i = total (w.outBytes i) 0
    rw [total_zero, Nat.zero_add]
    unfold Wave.outRead
    split
    · exact total_zero _
    · exact w.rootReceived_submit
  · intro i
    exact Nat.zero_le _
  · intro i
    exact Nat.zero_le _
  · exact w.rootOk_submit 0
  · intro i
    exact Nat.zero_le _

/-- The root goes on without moving a byte. -/
theorem Inv.advanceRoot (h : Inv w s) {pc : RootPc}
    (hsent : ∀ i, 0 < i → i < w.ppSize → w.rootSent i pc = w.rootSent i s.root)
    (hreceived : w.rootReceived pc = w.rootReceived s.root) (hok : w.RootOk pc) :
    Inv w (s.setRoot pc) := by
  constructor
  · intro i hi hiw
    exact (h.down i hi hiw).trans (hsent i hi hiw).symm
  · intro i hi hiw
    have hout := h.out i hi hiw
    unfold Wave.outRead at hout ⊢
    dsimp only [State.setRoot]
    rw [hreceived]
    exact hout
  · exact h.downRoom
  · exact h.outRoom
  · exact hok
  · exact h.workerOk

/-- The root moves a byte to a worker. -/
theorem Inv.putDown (h : Inv w s) {pc : RootPc} (hroom : s.down i < w.downCapacity i)
    (hsent : ∀ j, w.rootSent j pc = w.rootSent j s.root + if j = i then 1 else 0)
    (hreceived : w.rootReceived pc = w.rootReceived s.root) (hok : w.RootOk pc) :
    Inv w ((s.setRoot pc).setDown i (s.down i + 1)) := by
  constructor
  · intro j hj hjw
    have hdown := h.down j hj hjw
    dsimp only [State.setRoot, State.setDown]
    rw [hsent j]
    by_cases hji : j = i
    · rw [if_pos hji, hji, Function.update_self]
      rw [hji] at hdown
      omega
    · rw [if_neg hji, Function.update_of_ne hji]
      omega
  · intro j hj hjw
    have hout := h.out j hj hjw
    unfold Wave.outRead at hout ⊢
    dsimp only [State.setRoot, State.setDown]
    rw [hreceived]
    exact hout
  · intro j
    dsimp only [State.setRoot, State.setDown]
    by_cases hji : j = i
    · rw [hji, Function.update_self]
      exact hroom
    · rw [Function.update_of_ne hji]
      exact h.downRoom j
  · exact h.outRoom
  · exact hok
  · exact h.workerOk

/-- The root receives a byte of the logits. -/
theorem Inv.rootTakes (h : Inv w s) {k got n : ℕ} (hroot : s.root = .recvLogits k got)
    (hgot : got < w.logitsBytes k) (hn : s.out (w.ppSize - 1) = n + 1) :
    Inv w ((s.setRoot (.recvLogits k (got + 1))).setOut (w.ppSize - 1) n) := by
  have hok := h.rootOk
  rw [hroot] at hok
  constructor
  · intro i hi hiw
    have hdown := h.down i hi hiw
    rw [hroot] at hdown
    exact hdown
  · intro i hi hiw
    have hout := h.out i hi hiw
    unfold Wave.outRead at hout ⊢
    dsimp only [State.setRoot, State.setOut]
    by_cases hlast : i = w.ppSize - 1
    · have hnot : ¬i + 1 < w.ppSize := by omega
      rw [if_neg hnot, hroot, hlast, hn] at hout
      rw [if_neg hnot, hlast, Function.update_self]
      unfold Wave.rootReceived at hout ⊢
      dsimp only at hout ⊢
      omega
    · have hlt : i + 1 < w.ppSize := by omega
      rw [if_pos hlt] at hout ⊢
      rw [Function.update_of_ne hlast]
      exact hout
  · exact h.downRoom
  · intro i
    have hroom := h.outRoom i
    dsimp only [State.setRoot, State.setOut]
    by_cases hlast : i = w.ppSize - 1
    · rw [hlast] at hroom
      rw [hlast, Function.update_self]
      omega
    · rw [Function.update_of_ne hlast]
      exact hroom
  · exact ⟨hok.1, hgot⟩
  · exact h.workerOk

/-- Bounds of the workers after one has gone on. -/
theorem Inv.workerOk_update (h : Inv w s) {pc : WorkerPc} (hok : w.WorkerOk i pc) (j : ℕ) :
    w.WorkerOk j (Function.update s.worker i pc j) := by
  by_cases hji : j = i
  · rw [hji, Function.update_self]
    exact hok
  · rw [Function.update_of_ne hji]
    exact h.workerOk j

/-- A worker goes on without moving a byte. -/
theorem Inv.advanceWorker (h : Inv w s) {pc : WorkerPc}
    (hcontrol : w.controlRead pc = w.controlRead (s.worker i))
    (hactivation : w.activationRead pc = w.activationRead (s.worker i))
    (hsent : w.outSent i pc = w.outSent i (s.worker i)) (hok : w.WorkerOk i pc) :
    Inv w (s.setWorker i pc) := by
  have hsame : ∀ j, w.activationRead (Function.update s.worker i pc j) =
      w.activationRead (s.worker j) := by
    intro j
    by_cases hji : j = i
    · rw [hji, Function.update_self, hactivation]
    · rw [Function.update_of_ne hji]
  constructor
  · intro j hj hjw
    have hdown := h.down j hj hjw
    unfold Wave.downRead at hdown ⊢
    dsimp only [State.setWorker]
    rw [hsame]
    by_cases hji : j = i
    · rw [hji, Function.update_self, hcontrol, ← hji]
      exact hdown
    · rw [Function.update_of_ne hji]
      exact hdown
  · intro j hj hjw
    have hout := h.out j hj hjw
    unfold Wave.outRead at hout ⊢
    dsimp only [State.setWorker]
    rw [hsame]
    by_cases hji : j = i
    · rw [hji, Function.update_self, hsent, ← hji]
      exact hout
    · rw [Function.update_of_ne hji]
      exact hout
  · exact h.downRoom
  · exact h.outRoom
  · exact h.rootOk
  · exact h.workerOk_update hok

/-- A worker takes a byte from the root. Only for the first worker it may be one of an
activation. -/
theorem Inv.takeDown (h : Inv w s) {pc : WorkerPc} {n : ℕ} (hn : s.down i = n + 1)
    (hread : w.downRead i pc = w.downRead i (s.worker i) + 1)
    (hactivation : i ≠ 1 → w.activationRead pc = w.activationRead (s.worker i))
    (hsent : w.outSent i pc = w.outSent i (s.worker i)) (hok : w.WorkerOk i pc) :
    Inv w ((s.setWorker i pc).setDown i n) := by
  constructor
  · intro j hj hjw
    have hdown := h.down j hj hjw
    dsimp only [State.setWorker, State.setDown]
    by_cases hji : j = i
    · rw [hji, hn] at hdown
      rw [hji, Function.update_self, Function.update_self, hread]
      omega
    · rw [Function.update_of_ne hji, Function.update_of_ne hji]
      exact hdown
  · intro j hj hjw
    have hout := h.out j hj hjw
    unfold Wave.outRead at hout ⊢
    dsimp only [State.setWorker, State.setDown]
    have hnext : w.activationRead (Function.update s.worker i pc (j + 1)) =
        w.activationRead (s.worker (j + 1)) := by
      by_cases hji : j + 1 = i
      · rw [hji, Function.update_self, hactivation (by omega)]
      · rw [Function.update_of_ne hji]
    have hsame : w.outSent j (Function.update s.worker i pc j) = w.outSent j (s.worker j) := by
      by_cases hji : j = i
      · rw [hji, Function.update_self, hsent]
      · rw [Function.update_of_ne hji]
    rw [hnext, hsame]
    exact hout
  · intro j
    have hroom := h.downRoom j
    dsimp only [State.setWorker, State.setDown]
    by_cases hji : j = i
    · rw [hji] at hroom
      rw [hji, Function.update_self]
      omega
    · rw [Function.update_of_ne hji]
      exact hroom
  · exact h.outRoom
  · exact h.rootOk
  · exact h.workerOk_update hok

/-- A later worker receives a byte of its activation. -/
theorem Inv.laterTakes (h : Inv w s) {k got n : ℕ} (hi : 0 < i) (hiw : i + 1 < w.ppSize)
    (hpc : s.worker (i + 1) = .recvActivation k got) (hgot : got < w.activationBytes k)
    (hn : s.out i = n + 1) :
    Inv w ((s.setWorker (i + 1) (.recvActivation k (got + 1))).setOut i n) := by
  constructor
  · intro j hj hjw
    have hdown := h.down j hj hjw
    dsimp only [State.setWorker, State.setOut]
    by_cases hji : j = i + 1
    · have hne : ¬i + 1 = 1 := by omega
      rw [hji, hpc] at hdown
      rw [hji, Function.update_self]
      unfold Wave.downRead at hdown ⊢
      rw [if_neg hne] at hdown ⊢
      exact hdown
    · rw [Function.update_of_ne hji]
      exact hdown
  · intro j hj hjw
    have hout := h.out j hj hjw
    unfold Wave.outRead at hout ⊢
    dsimp only [State.setWorker, State.setOut]
    have hsent : w.outSent j (Function.update s.worker (i + 1) (.recvActivation k (got + 1)) j) =
        w.outSent j (s.worker j) := by
      by_cases hji : j = i + 1
      · rw [hji, Function.update_self, hpc]
        exact Eq.refl _
      · rw [Function.update_of_ne hji]
    rw [hsent]
    by_cases hji : j = i
    · rw [hji, if_pos hiw, hpc, hn] at hout
      rw [hji, if_pos hiw, Function.update_self, Function.update_self]
      unfold Wave.activationRead at hout ⊢
      dsimp only at hout ⊢
      omega
    · have hne : j + 1 ≠ i + 1 := by omega
      rw [Function.update_of_ne hji, Function.update_of_ne hne]
      exact hout
  · exact h.downRoom
  · intro j
    have hroom := h.outRoom j
    dsimp only [State.setWorker, State.setOut]
    by_cases hji : j = i
    · rw [hji] at hroom
      rw [hji, Function.update_self]
      omega
    · rw [Function.update_of_ne hji]
      exact hroom
  · exact h.rootOk
  · exact h.workerOk_update hgot

/-- A worker sends a byte of its result. -/
theorem Inv.workerSends (h : Inv w s) {k sent : ℕ} (hpc : s.worker i = .send k sent)
    (hsent : sent < w.outBytes i k) (hroom : s.out i < w.outCapacity i) :
    Inv w ((s.setWorker i (.send k (sent + 1))).setOut i (s.out i + 1)) := by
  have hactivation : ∀ j, w.activationRead (Function.update s.worker i (.send k (sent + 1)) j) =
      w.activationRead (s.worker j) := by
    intro j
    by_cases hji : j = i
    · rw [hji, Function.update_self, hpc]
      exact Eq.refl _
    · rw [Function.update_of_ne hji]
  constructor
  · intro j hj hjw
    have hdown := h.down j hj hjw
    unfold Wave.downRead at hdown ⊢
    dsimp only [State.setWorker, State.setOut]
    rw [hactivation]
    by_cases hji : j = i
    · rw [hji, hpc] at hdown
      rw [hji, Function.update_self, hpc]
      exact hdown
    · rw [Function.update_of_ne hji]
      exact hdown
  · intro j hj hjw
    have hout := h.out j hj hjw
    unfold Wave.outRead at hout ⊢
    dsimp only [State.setWorker, State.setOut]
    rw [hactivation]
    by_cases hji : j = i
    · rw [hji, hpc] at hout
      rw [hji, Function.update_self, Function.update_self]
      unfold Wave.outSent at hout ⊢
      dsimp only at hout ⊢
      omega
    · rw [Function.update_of_ne hji, Function.update_of_ne hji]
      exact hout
  · exact h.downRoom
  · intro j
    dsimp only [State.setWorker, State.setOut]
    by_cases hji : j = i
    · rw [hji, Function.update_self]
      exact hroom
    · rw [Function.update_of_ne hji]
      exact h.outRoom j
  · exact h.rootOk
  · exact h.workerOk_update hsent

/-- The root has submitted a chunk. -/
theorem Wave.rootSent_chunk (w : Wave) (i k : ℕ) :
    w.rootSent i (.sendActivation k (w.activationBytes k)) = w.rootBytes i (k + 1) := by
  rw [w.rootBytes_succ]
  exact Eq.refl _

/-- A step keeps the invariant. -/
theorem Inv.step (h : Inv w s) {s' : State} (hstep : w.Step s s') : Inv w s' := by
  have hok := h.rootOk
  cases hstep with
  | @rootWrites k sent i hroot hi hiw hsent hroom =>
    rw [hroot] at hok
    apply h.putDown hroom
    · intro j
      rw [hroot]
      unfold Wave.rootSent
      dsimp only
      by_cases hji : j = i
      · rw [if_pos hji, hji, Function.update_self, Nat.add_assoc]
      · rw [if_neg hji, Function.update_of_ne hji, Nat.add_zero]
    · rw [hroot]
      exact Eq.refl _
    · constructor
      · exact hok.1
      · intro j
        by_cases hji : j = i
        · rw [hji, Function.update_self]
          exact hsent
        · rw [Function.update_of_ne hji]
          exact hok.2 j
  | @rootWritten k sent hroot hall =>
    rw [hroot] at hok
    apply h.advanceRoot
    · intro i hi hiw
      rw [hroot]
      unfold Wave.rootSent
      dsimp only
      rw [hall i hi hiw, ite_self, Nat.add_zero]
    · rw [hroot]
      exact Eq.refl _
    · exact ⟨hok.1, Nat.zero_le _⟩
  | @rootSends k sent hroot hsent hroom =>
    rw [hroot] at hok
    apply h.putDown hroom
    · intro j
      rw [hroot]
      unfold Wave.rootSent
      dsimp only
      split
      · exact Eq.refl _
      · exact Eq.refl _
    · rw [hroot]
      exact Eq.refl _
    · exact ⟨hok.1, hsent⟩
  | @rootSent k hroot =>
    rw [hroot] at hok
    apply h.advanceRoot
    · intro i hi hiw
      rw [hroot, w.rootSent_chunk]
      exact w.rootSent_submit i hok.1
    · rw [hroot, w.rootReceived_submit]
      exact Eq.refl _
    · exact w.rootOk_submit (k + 1)
  | @rootTakes k got n hroot hgot hn => exact h.rootTakes hroot hgot hn
  | @rootTaken k hroot =>
    rw [hroot] at hok
    have hchunk : k + 1 ≤ w.nChunks := hok.1
    apply h.advanceRoot
    · intro i hi hiw
      rw [hroot]
      unfold Wave.drain
      split
      · exact Eq.refl _
      · exact Eq.refl _
    · rw [hroot, w.rootReceived_drain hchunk, total_succ]
      exact Eq.refl _
    · exact w.rootOk_drain (k + 1)
  | @controlTakes i k got n hi hiw hpc hgot hn =>
    apply h.takeDown hn
    · rw [hpc]
      unfold Wave.downRead Wave.controlRead Wave.activationRead
      dsimp only
      omega
    · intro _
      rw [hpc]
      exact Eq.refl _
    · rw [hpc]
      exact Eq.refl _
    · exact hgot
  | @controlTaken i k hi hiw hpc =>
    apply h.advanceWorker
    · rw [hpc]
      exact Nat.succ_mul k w.controlBytes
    · rw [hpc]
      exact Nat.add_zero _
    · rw [hpc]
      exact Eq.refl _
    · exact Nat.zero_le _
  | @firstTakes k got n hpc hgot hn =>
    apply h.takeDown hn
    · rw [hpc]
      unfold Wave.downRead
      rw [if_pos (Eq.refl 1), if_pos (Eq.refl 1)]
      exact Nat.add_assoc _ _ 1
    · intro hne
      exact absurd (Eq.refl 1) hne
    · rw [hpc]
      exact Eq.refl _
    · exact hgot
  | @laterTakes i k got n hi hiw hpc hgot hn => exact h.laterTakes hi hiw hpc hgot hn
  | @activationTaken i k hi hiw hpc =>
    apply h.advanceWorker
    · rw [hpc]
      exact Eq.refl _
    · rw [hpc]
      exact total_succ w.activationBytes k
    · rw [hpc]
      exact Nat.add_zero _
    · exact Nat.zero_le _
  | @workerSends i k sent hi hiw hpc hsent hroom => exact h.workerSends hpc hsent hroom
  | @workerSent i k hi hiw hpc =>
    apply h.advanceWorker
    · rw [hpc]
      exact Nat.add_zero _
    · rw [hpc]
      exact Eq.refl _
    · rw [hpc]
      exact total_succ (w.outBytes i) k
    · exact Nat.zero_le _

/-- Every reachable state meets the invariant. -/
theorem Inv.reachable (h : w.Reachable s) : Inv w s := by
  induction h with
  | refl => exact Inv.start w
  | tail _ hstep ih => exact ih.step hstep

end Steps

section Submission

variable {w : Wave} {s : State} {i : ℕ}

theorem chunk_le_outSent (w : Wave) (i : ℕ) (pc : WorkerPc) :
    total (w.outBytes i) pc.chunk ≤ w.outSent i pc := by
  cases pc with
  | readControl k got => exact le_refl _
  | recvActivation k got => exact le_refl _
  | send k sent => exact Nat.le_add_right _ _

theorem chunk_le_activationRead (w : Wave) (pc : WorkerPc) :
    total w.activationBytes pc.chunk ≤ w.activationRead pc := by
  cases pc with
  | readControl k got => exact le_refl _
  | recvActivation k got => exact Nat.le_add_right _ _
  | send k sent => exact total_mono w.activationBytes (Nat.le_succ k)

/-- Fewer bytes than those of a chunk and all before it are at most at that chunk. -/
theorem le_of_total_lt (bytes : ℕ → ℕ) {j k : ℕ} (h : total bytes j < total bytes (k + 1)) :
    j ≤ k := by
  by_contra hlt
  have hnext : k + 1 ≤ j := by omega
  have hmono := total_mono bytes hnext
  omega

/-- A worker whose finished results fit into the room of its stage has read no more than
the stage takes in. -/
theorem Inv.read_le (h : Inv w s) (hi : 0 < i) (hiw : i < w.ppSize)
    (hroom : total (w.outBytes i) (s.worker i).chunk ≤ w.room i) :
    w.controlRead (s.worker i) ≤ w.taken i * w.controlBytes ∧
      w.activationRead (s.worker i) ≤ total w.activationBytes (w.taken i) := by
  by_cases hk : (s.worker i).chunk < w.nChunks
  · have htaken : (s.worker i).chunk + 1 ≤ w.taken i := w.lt_taken hiw hk hroom
    have hcontrol := Nat.mul_le_mul_right w.controlBytes htaken
    have hactivation := total_mono w.activationBytes htaken
    have hsucc := total_succ w.activationBytes (s.worker i).chunk
    have hok := h.workerOk i
    rw [Nat.succ_mul] at hcontrol
    cases hpc : s.worker i with
    | readControl k got =>
      rw [hpc] at hcontrol hactivation hok hsucc
      unfold Wave.WorkerOk at hok
      simp only [WorkerPc.chunk, Wave.controlRead, Wave.activationRead] at *
      omega
    | recvActivation k got =>
      rw [hpc] at hcontrol hactivation hok hsucc
      unfold Wave.WorkerOk at hok
      simp only [WorkerPc.chunk, Wave.controlRead, Wave.activationRead, Nat.succ_mul] at *
      omega
    | send k sent =>
      rw [hpc] at hcontrol hactivation
      simp only [WorkerPc.chunk, Wave.controlRead, Wave.activationRead, Nat.succ_mul] at *
      omega
  · have hchunk : (s.worker i).chunk = w.nChunks := by
      have hle := h.chunk_le hi hiw
      omega
    rw [hchunk] at hroom
    have hcomplete := (w.le_complete_iff (le_refl _)).mpr hroom
    have htaken : w.taken i = w.nChunks := by
      rw [w.taken_eq hiw]
      omega
    have hdown := h.down i hi hiw
    have hsent := h.rootSent_le i
    have hpast := fun hread => hk (h.chunk_lt hi hiw hread)
    rw [htaken]
    unfold Wave.rootBytes at hsent
    unfold Wave.downRead at hdown
    cases hpc : s.worker i with
    | readControl k got =>
      rw [hpc] at hchunk hdown
      simp only [WorkerPc.chunk, Wave.controlRead, Wave.activationRead] at hchunk hdown ⊢
      rw [hchunk] at hdown ⊢
      omega
    | recvActivation k got =>
      rw [hpc] at hpast
      simp only [WorkerPc.chunk, Wave.controlRead, Nat.succ_mul] at hpast
      exact absurd (le_refl _) hpast
    | send k sent =>
      rw [hpc] at hpast
      simp only [WorkerPc.chunk, Wave.controlRead, Nat.succ_mul] at hpast
      exact absurd (le_refl _) hpast

/-- As long as the root has read no logits, the results of every worker fit into the room
of its stage. The induction goes from the last stage to the first. -/
theorem Inv.sent_le_room (h : Inv w s) (hreceived : w.rootReceived s.root = 0) (d : ℕ) :
    ∀ i, i + d = w.ppSize - 1 → 0 < i →
      total (w.outBytes i) (s.worker i).chunk ≤ w.room i := by
  induction d with
  | zero =>
    intro i hd hi
    have hout := h.out i hi (by omega)
    have hroom := h.outRoom i
    have hchunk := chunk_le_outSent w i (s.worker i)
    have hlast : ¬i + 1 < w.ppSize := by omega
    unfold Wave.outRead at hout
    unfold Wave.room
    rw [if_neg hlast] at hout ⊢
    omega
  | succ d ih =>
    intro i hd hi
    have hout := h.out i hi (by omega)
    have hroom := h.outRoom i
    have hchunk := chunk_le_outSent w i (s.worker i)
    have hlt : i + 1 < w.ppSize := by omega
    have hpos : 0 < i + 1 := Nat.succ_pos i
    have hnext := (h.read_le hpos hlt (ih (i + 1) (by omega) hpos)).2
    unfold Wave.outRead at hout
    unfold Wave.room
    rw [if_pos hlt] at hout ⊢
    omega

/-- If the root has submitted all chunks without reading logits, then what it has written
is absorbed. -/
theorem Inv.absorbed (h : Inv w s) (hreceived : w.rootReceived s.root = 0)
    (hsent : ∀ i, w.rootSent i s.root = w.rootBytes i w.nChunks) : w.Absorbed := by
  intro i hiw hi
  have hdown := h.down i hi hiw
  have hroom := h.downRoom i
  have hread := h.read_le hi hiw
    (h.sent_le_room hreceived (w.ppSize - 1 - i) i (by omega) hi)
  have hsub : w.downRead i (s.worker i) ≤ w.rootBytes i (w.taken i) := by
    unfold Wave.downRead Wave.rootBytes
    split
    · omega
    · omega
  rw [hsent i] at hdown
  omega

/-- The root does not submit all chunks unless they are absorbed. -/
theorem Wave.absorbed_of_submitted (h : w.Reachable s) (hs : s.root.Submitted) :
    w.Absorbed := by
  induction h with
  | refl =>
    have hzero : w.nChunks = 0 := by
      by_contra hne
      unfold Wave.start Wave.submit at hs
      rw [if_pos (Nat.pos_of_ne_zero hne)] at hs
      exact hs
    intro i _ _
    rw [hzero]
    unfold Wave.rootBytes
    simp only [total_zero, Nat.zero_mul, ite_self, Nat.add_zero]
    exact Nat.zero_le _
  | @tail s s' hrun hstep ih =>
    by_cases hold : s.root.Submitted
    · exact ih hold
    · cases hstep with
      | rootWrites hroot _ _ _ _ => exact hs.elim
      | rootWritten hroot _ => exact hs.elim
      | rootSends hroot _ _ => exact hs.elim
      | @rootSent k hroot =>
        have hinv := Inv.reachable hrun
        have hok := hinv.rootOk
        rw [hroot] at hok
        have hlast : k + 1 = w.nChunks := by
          by_contra hne
          have hlt := hok.1
          unfold State.setRoot Wave.submit at hs
          rw [if_pos (by omega)] at hs
          exact hs
        apply hinv.absorbed
        · rw [hroot]
          exact Eq.refl _
        · intro i
          rw [hroot, w.rootSent_chunk, hlast]
      | rootTakes hroot _ _ =>
        rw [hroot] at hold
        exact absurd trivial hold
      | rootTaken hroot =>
        rw [hroot] at hold
        exact absurd trivial hold
      | controlTakes _ _ _ _ _ => exact absurd hs hold
      | controlTaken _ _ _ => exact absurd hs hold
      | firstTakes _ _ _ => exact absurd hs hold
      | laterTakes _ _ _ _ _ => exact absurd hs hold
      | activationTaken _ _ _ => exact absurd hs hold
      | workerSends _ _ _ _ _ => exact absurd hs hold
      | workerSent _ _ _ => exact absurd hs hold

end Submission

section Terminal

variable {w : Wave} {s : State} {i : ℕ}

/-- If no party can go on and the root has submitted a chunk, then every worker up to this
chunk waits with its result. The induction is on the stage: a worker without an activation
waits for the one before it. -/
theorem Inv.waiting (h : Inv w s) (hterminal : ∀ s', ¬w.Step s s') {j : ℕ}
    (hsent : ∀ i, w.rootBytes i (j + 1) ≤ w.rootSent i s.root) (hi : 0 < i)
    (hiw : i < w.ppSize) (hchunk : (s.worker i).chunk ≤ j) :
    ∃ k sent, s.worker i = .send k sent ∧ sent < w.outBytes i k ∧ s.out i = w.outCapacity i := by
  induction i with
  | zero => exact absurd hi (Nat.lt_irrefl 0)
  | succ i ih =>
    have hdown := h.down (i + 1) hi hiw
    have hok := h.workerOk (i + 1)
    have hroot := hsent (i + 1)
    have hmono := fun {k : ℕ} (hk : k ≤ j) => w.rootBytes_mono (i + 1) (Nat.succ_le_succ hk)
    cases hpc : s.worker (i + 1) with
    | readControl k got =>
      rw [hpc] at hdown hok hchunk
      have hnext : w.rootBytes (i + 1) (k + 1) ≤ w.rootBytes (i + 1) (j + 1) := hmono hchunk
      rw [w.rootBytes_succ] at hnext
      by_cases hgot : got = w.controlBytes
      · rw [hgot] at hpc
        exact absurd (.controlTaken hi hiw hpc) (hterminal _)
      · have hlt : got < w.controlBytes := Nat.lt_of_le_of_ne hok hgot
        cases hlink : s.down (i + 1) with
        | zero =>
          unfold Wave.downRead Wave.controlRead Wave.activationRead at hdown
          unfold Wave.rootBytes at hnext hroot
          dsimp only at hdown
          omega
        | succ n => exact absurd (.controlTakes hi hiw hpc hlt hlink) (hterminal _)
    | recvActivation k got =>
      rw [hpc] at hdown hok hchunk
      have hnext : w.rootBytes (i + 1) (k + 1) ≤ w.rootBytes (i + 1) (j + 1) := hmono hchunk
      by_cases hgot : got = w.activationBytes k
      · rw [hgot] at hpc
        exact absurd (.activationTaken hi hiw hpc) (hterminal _)
      · have hlt : got < w.activationBytes k := Nat.lt_of_le_of_ne hok hgot
        have hsucc := total_succ w.activationBytes k
        by_cases hfirst : i = 0
        · rw [hfirst, Nat.zero_add] at hpc hdown hnext hroot
          cases hlink : s.down 1 with
          | zero =>
            unfold Wave.downRead Wave.controlRead Wave.activationRead at hdown
            unfold Wave.rootBytes at hnext hroot
            simp only [if_pos] at hdown hnext hroot
            omega
          | succ n => exact absurd (.firstTakes hpc hlt hlink) (hterminal _)
        · have hpos : 0 < i := Nat.pos_of_ne_zero hfirst
          have hprev : i < w.ppSize := by omega
          cases hlink : s.out i with
          | zero =>
            have hout := h.out i hpos hprev
            have hbefore := chunk_le_outSent w i (s.worker i)
            unfold Wave.outRead at hout
            rw [if_pos hiw, hpc, hlink, Nat.zero_add] at hout
            rw [w.outBytes_of_lt hiw] at hbefore
            change total w.activationBytes k + got = _ at hout
            have hle : (s.worker i).chunk ≤ k :=
              le_of_total_lt w.activationBytes (by omega)
            have hkj : k ≤ j := hchunk
            have ⟨k', sent, hsend, hshort, hfull⟩ := ih hpos hprev (by omega)
            have hcapacity := w.outCapacity_pos i
            omega
          | succ n => exact absurd (.laterTakes hpos hiw hpc hlt hlink) (hterminal _)
    | send k sent =>
      rw [hpc] at hok
      refine ⟨k, sent, Eq.refl _, ?_, ?_⟩
      · apply Nat.lt_of_le_of_ne hok
        intro hall
        rw [hall] at hpc
        exact hterminal _ (.workerSent hi hiw hpc)
      · by_contra hne
        have hroom : s.out (i + 1) < w.outCapacity (i + 1) :=
          Nat.lt_of_le_of_ne (h.outRoom (i + 1)) hne
        by_cases hall : sent = w.outBytes (i + 1) k
        · rw [hall] at hpc
          exact hterminal _ (.workerSent hi hiw hpc)
        · exact hterminal _ (.workerSends hi hiw hpc (Nat.lt_of_le_of_ne hok hall) hroom)

/-- From a worker that waits with its result on, all workers wait with theirs, and none is
at a later chunk. -/
theorem Inv.waiting_on (h : Inv w s) (hterminal : ∀ s', ¬w.Step s s') {j : ℕ}
    (hsent : ∀ i, w.rootBytes i (j + 1) ≤ w.rootSent i s.root) (hi : 0 < i)
    (hchunk : (s.worker i).chunk ≤ j) (d : ℕ) (hd : i + d < w.ppSize) :
    (s.worker (i + d)).chunk ≤ j := by
  induction d with
  | zero => exact hchunk
  | succ d ih =>
    have hprev : (s.worker (i + d)).chunk ≤ j := ih (by omega)
    have hout := h.out (i + d) (by omega) (by omega)
    have ⟨k, sent, hsend, hshort, hfull⟩ :=
      h.waiting hterminal hsent (by omega) (by omega) hprev
    have hread := chunk_le_activationRead w (s.worker (i + d + 1))
    have hsucc := total_succ w.activationBytes k
    have hlt : i + d + 1 < w.ppSize := hd
    rw [hsend] at hprev
    unfold Wave.outRead at hout
    rw [if_pos hlt, hsend] at hout
    unfold Wave.outSent at hout
    rw [w.outBytes_of_lt hlt] at hout hshort
    dsimp only at hout
    have hle := le_of_total_lt w.activationBytes (j := (s.worker (i + d + 1)).chunk) (k := k)
      (by omega)
    have hkj : k ≤ j := hprev
    exact Nat.le_trans hle hkj

/-- A worker that waits with its result, as all after it do, has taken in what its stage
takes in. The induction goes from the last stage to the first. -/
theorem Inv.taken_of_waiting (h : Inv w s) (hreceived : w.rootReceived s.root = 0) (d : ℕ) :
    ∀ i, i + d = w.ppSize - 1 → 0 < i →
      (∀ i', i ≤ i' → i' < w.ppSize → ∃ k sent, s.worker i' = .send k sent ∧ k < w.nChunks ∧
        sent < w.outBytes i' k ∧ s.out i' = w.outCapacity i') →
      w.taken i = (s.worker i).chunk + 1 := by
  induction d with
  | zero =>
    intro i hd hi hwaiting
    have hiw : i < w.ppSize := by omega
    have hlast : ¬i + 1 < w.ppSize := by omega
    have ⟨k, sent, hsend, hk, hshort, hfull⟩ := hwaiting i (le_refl i) hiw
    have hout := h.out i hi hiw
    have hsucc := total_succ (w.outBytes i) k
    have hroom : w.room i = w.outCapacity i := by
      unfold Wave.room
      rw [if_neg hlast, Nat.zero_add]
    unfold Wave.outRead at hout
    rw [if_neg hlast, hsend] at hout
    unfold Wave.outSent at hout
    dsimp only at hout
    rw [hsend]
    change w.taken i = k + 1
    exact w.taken_eq_succ hiw hk (by omega) (by omega)
  | succ d ih =>
    intro i hd hi hwaiting
    have hiw : i < w.ppSize := by omega
    have hlt : i + 1 < w.ppSize := by omega
    have ⟨k, sent, hsend, hk, hshort, hfull⟩ := hwaiting i (le_refl i) hiw
    have ⟨k', sent', hsend', _, _, _⟩ := hwaiting (i + 1) (Nat.le_succ i) hlt
    have htaken := ih (i + 1) (by omega) (Nat.succ_pos i)
      (fun i' hle hlt' => hwaiting i' (Nat.le_of_succ_le hle) hlt')
    have hout := h.out i hi hiw
    have hsucc := total_succ (w.outBytes i) k
    have hroom : w.room i = total w.activationBytes (k' + 1) + w.outCapacity i := by
      unfold Wave.room
      rw [if_pos hlt, htaken, hsend']
      exact Eq.refl _
    unfold Wave.outRead at hout
    rw [if_pos hlt, hsend, hsend'] at hout
    unfold Wave.outSent Wave.activationRead at hout
    dsimp only at hout
    rw [hsend]
    change w.taken i = k + 1
    exact w.taken_eq_succ hiw hk (by omega) (by omega)

/-- If the root waits for room in the link to a worker, what it has to write is not
absorbed. -/
theorem Inv.not_absorbed (h : Inv w s) (hterminal : ∀ s', ¬w.Step s s') {k : ℕ}
    (hk : k < w.nChunks) (hreceived : w.rootReceived s.root = 0)
    (hsent : ∀ i, w.rootBytes i k ≤ w.rootSent i s.root) (hi : 0 < i) (hiw : i < w.ppSize)
    (hfull : s.down i = w.downCapacity i)
    (hshort : w.rootSent i s.root < w.rootBytes i (k + 1)) : ¬w.Absorbed := by
  have hdown := h.down i hi hiw
  have hok := h.workerOk i
  have hcapacity := w.downCapacity_pos i
  have hlink : s.down i = s.down i - 1 + 1 := by omega
  have hread : w.downRead i (s.worker i) = w.rootBytes i ((s.worker i).chunk + 1) := by
    cases hpc : s.worker i with
    | readControl k' got =>
      rw [hpc] at hok
      by_cases hgot : got = w.controlBytes
      · rw [hgot] at hpc
        exact absurd (.controlTaken hi hiw hpc) (hterminal _)
      · exact absurd (.controlTakes hi hiw hpc (Nat.lt_of_le_of_ne hok hgot) hlink) (hterminal _)
    | recvActivation k' got =>
      rw [hpc] at hok
      by_cases hone : i = 1
      · rw [hone] at hpc hlink
        by_cases hgot : got = w.activationBytes k'
        · rw [hgot] at hpc
          exact absurd (.activationTaken (by omega) (by omega) hpc) (hterminal _)
        · exact absurd (.firstTakes hpc (Nat.lt_of_le_of_ne hok hgot) hlink) (hterminal _)
      · unfold Wave.downRead Wave.rootBytes
        rw [if_neg hone, if_neg hone]
        exact Eq.refl _
    | send k' sent => exact Eq.refl _
  have hlt : (s.worker i).chunk < k := by
    by_contra hge
    have hmono := w.rootBytes_mono i (j := k + 1) (k := (s.worker i).chunk + 1) (by omega)
    omega
  have hback : k - 1 + 1 = k := by omega
  have hsent' : ∀ i, w.rootBytes i (k - 1 + 1) ≤ w.rootSent i s.root := by
    rw [hback]
    exact hsent
  have htaken := h.taken_of_waiting hreceived (w.ppSize - 1 - i) i (by omega) hi (by
    intro i' hle hlt'
    have hd : i + (i' - i) = i' := by omega
    have hchunk := h.waiting_on hterminal hsent' hi (by omega) (i' - i) (by omega)
    rw [hd] at hchunk
    have ⟨k', sent, hsend, hsize, hfull'⟩ := h.waiting hterminal hsent' (by omega) hlt' hchunk
    rw [hsend] at hchunk
    have hk' : k' ≤ k - 1 := hchunk
    exact ⟨k', sent, hsend, by omega, hsize, hfull'⟩)
  have hmono := w.rootBytes_mono i (j := k + 1) (k := w.nChunks) hk
  intro habsorbed
  have hbound := habsorbed i hiw hi
  rw [htaken] at hbound
  omega

/-- If what the root has to write is absorbed, no reachable state is stuck. -/
theorem Inv.not_stuck (h : Inv w s) (habsorbed : w.Absorbed) : ¬w.Stuck s := by
  intro hstuck
  have hterminal := hstuck.1
  have hok := h.rootOk
  have htwo := w.two_le
  cases hroot : s.root with
  | writeAll k sent =>
    rw [hroot] at hok
    have hfull : ∀ i, 0 < i → i < w.ppSize → sent i = w.controlBytes := by
      intro i hi hiw
      by_contra hne
      have hlt : sent i < w.controlBytes := Nat.lt_of_le_of_ne (hok.2 i) hne
      have hlink : s.down i = w.downCapacity i := by
        by_contra hroom
        exact hterminal _
          (.rootWrites hroot hi hiw hlt (Nat.lt_of_le_of_ne (h.downRoom i) hroom))
      apply h.not_absorbed hterminal hok.1 _ _ hi hiw hlink _ habsorbed
      · rw [hroot]
        exact Eq.refl _
      · intro i'
        rw [hroot]
        exact Nat.le_add_right _ _
      · rw [hroot, w.rootBytes_succ]
        unfold Wave.rootSent
        dsimp only
        omega
    exact hterminal _ (.rootWritten hroot hfull)
  | sendActivation k sent =>
    rw [hroot] at hok
    by_cases hall : sent = w.activationBytes k
    · rw [hall] at hroot
      exact hterminal _ (.rootSent hroot)
    · have hlt : sent < w.activationBytes k := Nat.lt_of_le_of_ne hok.2 hall
      have hlink : s.down 1 = w.downCapacity 1 := by
        by_contra hroom
        exact hterminal _ (.rootSends hroot hlt (Nat.lt_of_le_of_ne (h.downRoom 1) hroom))
      apply h.not_absorbed hterminal hok.1 _ _ Nat.one_pos (by omega) hlink _ habsorbed
      · rw [hroot]
        exact Eq.refl _
      · intro i'
        rw [hroot]
        unfold Wave.rootSent
        dsimp only
        omega
      · rw [hroot, w.rootBytes_succ]
        unfold Wave.rootSent
        simp only [if_pos]
        omega
  | recvLogits k got =>
    rw [hroot] at hok
    by_cases hall : got = w.logitsBytes k
    · rw [hall] at hroot
      exact hterminal _ (.rootTaken hroot)
    · have hlt : got < w.logitsBytes k := Nat.lt_of_le_of_ne hok.2 hall
      cases hlink : s.out (w.ppSize - 1) with
      | zero =>
        have hlast : ¬w.ppSize - 1 + 1 < w.ppSize := by omega
        have hout := h.out (w.ppSize - 1) (by omega) (by omega)
        have hbefore := chunk_le_outSent w (w.ppSize - 1) (s.worker (w.ppSize - 1))
        have hsucc := total_succ w.logitsBytes k
        have hback : w.nChunks - 1 + 1 = w.nChunks := by
          have hpos := hok.1
          omega
        unfold Wave.outRead at hout
        rw [if_neg hlast, hroot, hlink, Nat.zero_add] at hout
        rw [← hout, w.outBytes_last] at hbefore
        have hchunk : (s.worker (w.ppSize - 1)).chunk ≤ k :=
          le_of_total_lt w.logitsBytes (by
            unfold Wave.rootReceived at hbefore
            dsimp only at hbefore
            omega)
        have hk := hok.1
        have ⟨k', sent, hsend, hsize, hfull⟩ := h.waiting hterminal (j := w.nChunks - 1)
          (i := w.ppSize - 1)
          (by
            intro i
            rw [hback, hroot]
            exact le_refl _)
          (by omega) (by omega) (by omega)
        have hcapacity := w.outCapacity_pos (w.ppSize - 1)
        omega
      | succ n => exact hterminal _ (.rootTakes hroot hlt hlink)
  | drained => exact hstuck.2 hroot

end Terminal

section Termination

variable {w : Wave} {s : State}

/-- Steps that the root has behind it. -/
def Wave.rootPosition (w : Wave) : RootPc → ℕ
  | .writeAll k sent =>
    k * (w.ppSize * w.controlBytes + 2) + total w.activationBytes k +
      ∑ i ∈ Finset.range w.ppSize, sent i
  | .sendActivation k sent =>
    k * (w.ppSize * w.controlBytes + 2) + total w.activationBytes k +
      w.ppSize * w.controlBytes + 1 + sent
  | .recvLogits k got =>
    w.nChunks * (w.ppSize * w.controlBytes + 2) + total w.activationBytes w.nChunks + k +
      total w.logitsBytes k + got
  | .drained =>
    w.nChunks * (w.ppSize * w.controlBytes + 2) + total w.activationBytes w.nChunks + w.nChunks +
      total w.logitsBytes w.nChunks

/-- Steps that a worker has behind it. -/
def Wave.workerPosition (w : Wave) (i : ℕ) : WorkerPc → ℕ
  | .readControl k got =>
    k * (w.controlBytes + 3) + total w.activationBytes k + total (w.outBytes i) k + got
  | .recvActivation k got =>
    k * (w.controlBytes + 3) + total w.activationBytes k + total (w.outBytes i) k +
      w.controlBytes + 1 + got
  | .send k sent =>
    k * (w.controlBytes + 3) + total w.activationBytes k + total (w.outBytes i) k +
      w.controlBytes + w.activationBytes k + 2 + sent

/-- Steps that all parties have behind them. -/
def Wave.position (w : Wave) (s : State) : ℕ :=
  w.rootPosition s.root + ∑ i ∈ Finset.Ico 1 w.ppSize, w.workerPosition i (s.worker i)

/-- No worker gets further than this. -/
def Wave.workerLimit (w : Wave) (i : ℕ) : ℕ :=
  w.nChunks * (w.controlBytes + 3) + total w.activationBytes w.nChunks +
    total (w.outBytes i) w.nChunks + w.controlBytes

/-- Bytes that the root has written of one control packet. -/
theorem sum_sent_le (w : Wave) {sent : ℕ → ℕ} (h : ∀ i, sent i ≤ w.controlBytes) :
    ∑ i ∈ Finset.range w.ppSize, sent i ≤ w.ppSize * w.controlBytes := by
  have hsum := Finset.sum_le_card_nsmul (Finset.range w.ppSize) sent w.controlBytes
    (fun i _ => h i)
  rw [Finset.card_range, nsmul_eq_mul] at hsum
  exact hsum

theorem sum_sent_lt (w : Wave) {sent : ℕ → ℕ} {i : ℕ} (hi : i < w.ppSize) :
    ∑ j ∈ Finset.range w.ppSize, sent j <
      ∑ j ∈ Finset.range w.ppSize, Function.update sent i (sent i + 1) j := by
  apply Finset.sum_lt_sum
  · intro j _
    by_cases hji : j = i
    · rw [hji, Function.update_self]
      exact Nat.le_succ _
    · rw [Function.update_of_ne hji]
  · refine ⟨i, Finset.mem_range.mpr hi, ?_⟩
    rw [Function.update_self]
    exact Nat.lt_succ_self _

theorem Wave.rootPosition_submit (w : Wave) {k : ℕ} (hk : k ≤ w.nChunks) :
    k * (w.ppSize * w.controlBytes + 2) + total w.activationBytes k ≤
      w.rootPosition (w.submit k) := by
  unfold Wave.submit
  by_cases hlt : k < w.nChunks
  · rw [if_pos hlt]
    exact Nat.le_add_right _ _
  · have heq : k = w.nChunks := by omega
    rw [if_neg hlt, heq]
    unfold Wave.drain
    split
    · exact Nat.le_add_right_of_le (Nat.le_add_right_of_le (Nat.le_add_right _ _))
    · exact Nat.le_add_right_of_le (Nat.le_add_right _ _)

theorem Wave.rootPosition_drain (w : Wave) {k : ℕ} (hk : k ≤ w.nChunks) :
    w.nChunks * (w.ppSize * w.controlBytes + 2) + total w.activationBytes w.nChunks + k +
      total w.logitsBytes k ≤ w.rootPosition (w.drain k) := by
  unfold Wave.drain
  by_cases hlt : k < w.nChunks
  · rw [if_pos hlt]
    exact Nat.le_add_right _ _
  · have heq : k = w.nChunks := by omega
    rw [if_neg hlt, heq]
    exact le_refl _

/-- The root has got further. -/
theorem position_lt_root {s' : State} (hworker : s'.worker = s.worker)
    (hroot : w.rootPosition s.root < w.rootPosition s'.root) : w.position s < w.position s' := by
  unfold Wave.position
  rw [hworker]
  omega

/-- A worker has got further. -/
theorem position_lt_worker {s' : State} {i : ℕ} {pc : WorkerPc} (hi : 0 < i)
    (hiw : i < w.ppSize) (hroot : s'.root = s.root)
    (hworker : s'.worker = Function.update s.worker i pc)
    (hpc : w.workerPosition i (s.worker i) < w.workerPosition i pc) :
    w.position s < w.position s' := by
  unfold Wave.position
  rw [hroot, hworker]
  apply Nat.add_lt_add_left
  apply Finset.sum_lt_sum
  · intro j _
    by_cases hji : j = i
    · rw [hji, Function.update_self]
      exact Nat.le_of_lt hpc
    · rw [Function.update_of_ne hji]
  · refine ⟨i, Finset.mem_Ico.mpr ⟨hi, hiw⟩, ?_⟩
    rw [Function.update_self]
    exact hpc

/-- Every step is progress of one party. -/
theorem Inv.position_lt (h : Inv w s) {s' : State} (hstep : w.Step s s') :
    w.position s < w.position s' := by
  have hok := h.rootOk
  have htwo := w.two_le
  cases hstep with
  | @rootWrites k sent i hroot hi hiw hsent hroom =>
    apply position_lt_root
    · exact Eq.refl _
    rw [hroot]
    exact Nat.add_lt_add_left (sum_sent_lt w hiw) _
  | @rootWritten k sent hroot hall =>
    rw [hroot] at hok
    apply position_lt_root
    · exact Eq.refl _
    have hsum := sum_sent_le w hok.2
    rw [hroot]
    unfold Wave.rootPosition State.setRoot
    dsimp only
    omega
  | @rootSends k sent hroot hsent hroom =>
    apply position_lt_root
    · exact Eq.refl _
    rw [hroot]
    exact Nat.lt_succ_self _
  | @rootSent k hroot =>
    rw [hroot] at hok
    have hchunk : k + 1 ≤ w.nChunks := hok.1
    have hsubmit := w.rootPosition_submit hchunk
    rw [total_succ, Nat.succ_mul] at hsubmit
    apply position_lt_root
    · exact Eq.refl _
    rw [hroot]
    change k * (w.ppSize * w.controlBytes + 2) + total w.activationBytes k +
      w.ppSize * w.controlBytes + 1 + w.activationBytes k < w.rootPosition (w.submit (k + 1))
    omega
  | @rootTakes k got n hroot hgot hn =>
    apply position_lt_root
    · exact Eq.refl _
    rw [hroot]
    exact Nat.lt_succ_self _
  | @rootTaken k hroot =>
    rw [hroot] at hok
    have hchunk : k + 1 ≤ w.nChunks := hok.1
    have hdrain := w.rootPosition_drain hchunk
    rw [total_succ] at hdrain
    apply position_lt_root
    · exact Eq.refl _
    rw [hroot]
    change w.nChunks * (w.ppSize * w.controlBytes + 2) + total w.activationBytes w.nChunks + k +
      total w.logitsBytes k + w.logitsBytes k < w.rootPosition (w.drain (k + 1))
    omega
  | @controlTakes i k got n hi hiw hpc hgot hn =>
    apply position_lt_worker hi hiw
    · exact Eq.refl _
    · exact Eq.refl _
    rw [hpc]
    exact Nat.lt_succ_self _
  | @controlTaken i k hi hiw hpc =>
    apply position_lt_worker hi hiw
    · exact Eq.refl _
    · exact Eq.refl _
    rw [hpc]
    exact Nat.lt_succ_self _
  | @firstTakes k got n hpc hgot hn =>
    apply position_lt_worker Nat.one_pos (by omega)
    · exact Eq.refl _
    · exact Eq.refl _
    rw [hpc]
    exact Nat.lt_succ_self _
  | @laterTakes i k got n hi hiw hpc hgot hn =>
    apply position_lt_worker (Nat.succ_pos i) hiw
    · exact Eq.refl _
    · exact Eq.refl _
    rw [hpc]
    exact Nat.lt_succ_self _
  | @activationTaken i k hi hiw hpc =>
    apply position_lt_worker hi hiw
    · exact Eq.refl _
    · exact Eq.refl _
    rw [hpc]
    unfold Wave.workerPosition
    dsimp only
    omega
  | @workerSends i k sent hi hiw hpc hsent hroom =>
    apply position_lt_worker hi hiw
    · exact Eq.refl _
    · exact Eq.refl _
    rw [hpc]
    exact Nat.lt_succ_self _
  | @workerSent i k hi hiw hpc =>
    apply position_lt_worker hi hiw
    · exact Eq.refl _
    · exact Eq.refl _
    rw [hpc]
    unfold Wave.workerPosition
    dsimp only
    rw [total_succ, total_succ, Nat.succ_mul]
    omega

theorem Inv.rootPosition_le (h : Inv w s) : w.rootPosition s.root ≤ w.rootPosition .drained := by
  have hok := h.rootOk
  cases hroot : s.root with
  | writeAll k sent =>
    rw [hroot] at hok
    have hchunk : k + 1 ≤ w.nChunks := hok.1
    have hsum := sum_sent_le w hok.2
    have hmono := total_mono w.activationBytes hchunk
    have hmul := Nat.mul_le_mul_right (w.ppSize * w.controlBytes + 2) hchunk
    rw [total_succ] at hmono
    rw [Nat.succ_mul] at hmul
    unfold Wave.rootPosition
    dsimp only
    omega
  | sendActivation k sent =>
    rw [hroot] at hok
    have hchunk : k + 1 ≤ w.nChunks := hok.1
    have hsent := hok.2
    have hmono := total_mono w.activationBytes hchunk
    have hmul := Nat.mul_le_mul_right (w.ppSize * w.controlBytes + 2) hchunk
    rw [total_succ] at hmono
    rw [Nat.succ_mul] at hmul
    unfold Wave.rootPosition
    dsimp only
    omega
  | recvLogits k got =>
    rw [hroot] at hok
    have hchunk : k + 1 ≤ w.nChunks := hok.1
    have hgot := hok.2
    have hmono := total_mono w.logitsBytes hchunk
    rw [total_succ] at hmono
    unfold Wave.rootPosition
    dsimp only
    omega
  | drained => exact le_refl _

theorem Inv.workerPosition_le (h : Inv w s) {i : ℕ} (hi : 0 < i) (hiw : i < w.ppSize) :
    w.workerPosition i (s.worker i) ≤ w.workerLimit i := by
  have hok := h.workerOk i
  have hle := h.chunk_le hi hiw
  have hpast := h.chunk_lt hi hiw
  have hactivation := total_mono w.activationBytes hle
  have hout := total_mono (w.outBytes i) hle
  have hmul := Nat.mul_le_mul_right (w.controlBytes + 3) hle
  unfold Wave.workerLimit
  cases hpc : s.worker i with
  | readControl k got =>
    rw [hpc] at hok hactivation hout hmul
    unfold Wave.WorkerOk at hok
    simp only [WorkerPc.chunk] at hok hactivation hout hmul
    unfold Wave.workerPosition
    dsimp only
    omega
  | recvActivation k got =>
    rw [hpc] at hok hpast
    simp only [WorkerPc.chunk, Wave.controlRead, Nat.succ_mul, le_refl, forall_const] at hpast
    have hchunk : k + 1 ≤ w.nChunks := hpast
    have hactivation := total_mono w.activationBytes hchunk
    have hout := total_mono (w.outBytes i) hchunk
    have hmul := Nat.mul_le_mul_right (w.controlBytes + 3) hchunk
    rw [total_succ] at hactivation hout
    rw [Nat.succ_mul] at hmul
    unfold Wave.WorkerOk at hok
    unfold Wave.workerPosition
    dsimp only at hok ⊢
    omega
  | send k sent =>
    rw [hpc] at hok hpast
    simp only [WorkerPc.chunk, Wave.controlRead, Nat.succ_mul, le_refl, forall_const] at hpast
    have hchunk : k + 1 ≤ w.nChunks := hpast
    have hactivation := total_mono w.activationBytes hchunk
    have hout := total_mono (w.outBytes i) hchunk
    have hmul := Nat.mul_le_mul_right (w.controlBytes + 3) hchunk
    rw [total_succ] at hactivation hout
    rw [Nat.succ_mul] at hmul
    unfold Wave.WorkerOk at hok
    unfold Wave.workerPosition
    dsimp only at hok ⊢
    omega

/-- The steps of all runs are bounded. -/
theorem Inv.position_le (h : Inv w s) :
    w.position s ≤ w.rootPosition .drained + ∑ i ∈ Finset.Ico 1 w.ppSize, w.workerLimit i := by
  have hroot := h.rootPosition_le
  have hworkers : ∑ i ∈ Finset.Ico 1 w.ppSize, w.workerPosition i (s.worker i) ≤
      ∑ i ∈ Finset.Ico 1 w.ppSize, w.workerLimit i := by
    apply Finset.sum_le_sum
    intro i hi
    have hbounds := Finset.mem_Ico.mp hi
    exact h.workerPosition_le hbounds.1 hbounds.2
  unfold Wave.position
  omega

/-- Every run can be continued until no party can go on. -/
theorem Wave.exists_terminal (w : Wave) (n : ℕ) :
    ∀ s, w.Reachable s →
      w.rootPosition .drained + ∑ i ∈ Finset.Ico 1 w.ppSize, w.workerLimit i ≤ w.position s + n →
      ∃ s', w.Reachable s' ∧ ∀ s'', ¬w.Step s' s'' := by
  induction n with
  | zero =>
    intro s hs hn
    refine ⟨s, hs, ?_⟩
    intro s' hstep
    have hinv := Inv.reachable hs
    have hlt := hinv.position_lt hstep
    have hle := (hinv.step hstep).position_le
    omega
  | succ n ih =>
    intro s hs hn
    by_cases hterminal : ∀ s', ¬w.Step s s'
    · exact ⟨s, hs, hterminal⟩
    · have ⟨s', hstep⟩ := not_forall_not.mp hterminal
      have hlt := (Inv.reachable hs).position_lt hstep
      exact ih s' (hs.tail hstep) (by omega)

/-- If no reachable state is stuck, what the root has to write is absorbed. -/
theorem Wave.absorbed_of_not_stuck (h : ∀ s, w.Reachable s → ¬w.Stuck s) : w.Absorbed := by
  have ⟨s, hs, hterminal⟩ := w.exists_terminal _ w.start .refl (Nat.le_add_left _ _)
  have hdrained : s.root = .drained := by
    by_contra hroot
    exact h s hs ⟨hterminal, hroot⟩
  apply w.absorbed_of_submitted hs
  rw [hdrained]
  exact trivial

end Termination

/-- No reachable state of the wave is stuck before all logits have been received exactly
when the workers and the links absorb what the root writes. -/
theorem not_stuck_iff (w : Wave) : (∀ s, w.Reachable s → ¬w.Stuck s) ↔ w.Absorbed := by
  constructor
  · intro h
    exact w.absorbed_of_not_stuck h
  · intro h s hs
    exact (Inv.reachable hs).not_stuck h

/-- `sizeof(LlmControlPacket)`. -/
def controlPacketBytes : ℕ := 4 * (17 + maxControlBatchPos + 2 * 8)

/-- `sizeof(NnPipelineActivationHeader)`. -/
def activationHeaderBytes : ℕ := 48

/-- Bytes of an activation of so many values, with its header. -/
def frameBytes (dtype : NnFloatType) (nElems : ℕ) : ℕ :=
  activationHeaderBytes + getBytes (selectWireDtype dtype nElems) nElems

/-- The prefill loop of `inference`: batch sizes of the chunks, with so many tokens left. -/
def prefillBatches (prefillBatchCap : ℕ) : ℕ → ℕ → List ℕ
  | 0, _ => []
  | fuel + 1, remainingTokens =>
    if remainingTokens = 0 then []
    else
      let batchSize := if remainingTokens < prefillBatchCap then remainingTokens else prefillBatchCap
      batchSize :: prefillBatches prefillBatchCap fuel (remainingTokens - batchSize)

/-- A prompt, the model and the links of a run with waves. -/
structure Prefill where
  /-- Options of the program. -/
  args : AppCliArgs
  /-- Waves need a pipeline. -/
  useWave : 2 ≤ args.ppSize
  /-- Number of tokens of the prompt. -/
  nInputTokens : ℕ
  /-- Values of a row of the X pipe. -/
  dim : ℕ
  /-- Values of a row of the logits pipe. -/
  vocabSize : ℕ
  /-- Format of activations. -/
  pipelineActivationType : NnFloatType
  /-- Bytes that fit into a link. -/
  capacity : ℕ
  /-- A link holds something. -/
  capacity_pos : 0 < capacity

/-- Batch sizes of the chunks. The last token of the prompt is left to decoding. -/
def Prefill.batches (p : Prefill) : List ℕ :=
  prefillBatches (resolvePrefillChunkBatchSize p.args (p.nInputTokens - 1)) (p.nInputTokens - 1)
    (p.nInputTokens - 1)

/-- The wave of a prompt. -/
def Prefill.wave (p : Prefill) : Wave where
  ppSize := p.args.ppSize
  two_le := p.useWave
  nChunks := p.batches.length
  controlBytes := controlPacketBytes
  controlBytes_pos := by decide
  activationBytes k := frameBytes p.pipelineActivationType (p.dim * p.batches.getD k 0)
  logitsBytes k := frameBytes .f32 (p.vocabSize * p.batches.getD k 0)
  downCapacity _ := p.capacity
  downCapacity_pos _ := p.capacity_pos
  outCapacity _ := p.capacity
  outCapacity_pos _ := p.capacity_pos

instance (w : Wave) : Decidable w.Absorbed :=
  inferInstanceAs (Decidable (∀ i < w.ppSize, 0 < i →
    w.rootBytes i w.nChunks ≤ w.rootBytes i (w.taken i) + w.downCapacity i))

/-- Two stages with default options, rows of 4096 values, 128256 logits, a prompt of 400
tokens and links of 4 MiB. -/
def longPrompt : Prefill where
  args := ⟨32, 0, 0, 2, 128, 0, 8192⟩
  useWave := by decide
  nInputTokens := 400
  dim := 4096
  vocabSize := 128256
  pipelineActivationType := .f32
  capacity := 4194304
  capacity_pos := by decide

example : { longPrompt with nInputTokens := 150 }.wave.Absorbed := by decide +kernel

/-- The long prompt gets stuck: the last stage waits with the logits of the first chunk, and
the root waits for room in the link to it. -/
theorem stuck_longPrompt :
    ¬∀ w : Wave, ∀ s, w.Reachable s → ¬w.Stuck s := by
  intro h
  have habsorbed := longPrompt.wave.absorbed_of_not_stuck (h longPrompt.wave)
  exact absurd habsorbed (by decide +kernel)

end LayerSkip.WavePrefill
