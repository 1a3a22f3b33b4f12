import LayerSkip.DeltaLink
import Mathlib.Algebra.BigOperators.Group.Finset.Basic
import Mathlib.Algebra.Order.Group.Abs
import Mathlib.Algebra.Order.Group.Int
import Mathlib.Tactic.Abel

/-!
# Drift of an activation sent as differences

The sender takes the next difference to the activation itself, the receiver adds
it to what it has reconstructed. So the errors of the frames add up: after a
frame the reconstruction is off by the sum of the errors of all frames up to it.
-/

namespace LayerSkip.DeltaDrift

open NnTopology NnNetwork NnPipeline PipelineLink DeltaLink

section Drift

variable {F : Type} [AddCommGroup F]

/-- An event of a link on which all activations have the same size. -/
def EqualSize (n : ℕ) : Event F → Prop
  | .send _ _ _ data _ _ => data.length = n
  | .recv _ => True
  | .senderOptions _ _ _ => False
  | .receiverOptions _ _ _ => True

/-- The activation of a frame. -/
def dataAt (sent : List (Sent F)) (t : ℕ) : List F := (sent[t]?.map fun x => x.data).getD []

/-- The format of a frame on the wire. -/
def dtypeAt (sent : List (Sent F)) (t : ℕ) : NnFloatType :=
  (sent[t]?.map fun x => x.frame.header.dtype).getD .f32

/-- The values of a frame before they are encoded: the activation, or its
difference to the one before. -/
def wireAt (useDelta : Prop) [Decidable useDelta] (sent : List (Sent F)) : ℕ → List F
  | 0 => dataAt sent 0
  | t + 1 =>
    if useDelta then List.zipWith (· - ·) (dataAt sent (t + 1)) (dataAt sent t)
    else dataAt sent (t + 1)

variable (codec : FloatCodec F)

/-- What encoding and decoding a frame changes at a coordinate. -/
def frameError (useDelta : Prop) [Decidable useDelta] (sent : List (Sent F)) (t j : ℕ) : F :=
  (codec.decode (dtypeAt sent t)
    (codec.encode (dtypeAt sent t) (wireAt useDelta sent t))).getD j 0 -
      (wireAt useDelta sent t).getD j 0

/-- How far the reconstruction is off after a frame. -/
def drift (useDelta : Prop) [Decidable useDelta] (sent : List (Sent F)) (t j : ℕ) : F :=
  if useDelta then ∑ i ∈ Finset.range (t + 1), frameError codec useDelta sent i j
  else frameError codec useDelta sent t j

variable {codec} {useDelta : Prop} [Decidable useDelta] {sent : List (Sent F)}

omit [AddCommGroup F] in
theorem dataAt_append (x : Sent F) {t : ℕ} (h : t < sent.length) :
    dataAt (sent ++ [x]) t = dataAt sent t := by
  unfold dataAt
  rw [List.getElem?_append_left h]

omit [AddCommGroup F] in
theorem dtypeAt_append (x : Sent F) {t : ℕ} (h : t < sent.length) :
    dtypeAt (sent ++ [x]) t = dtypeAt sent t := by
  unfold dtypeAt
  rw [List.getElem?_append_left h]

theorem wireAt_append (x : Sent F) {t : ℕ} (h : t < sent.length) :
    wireAt useDelta (sent ++ [x]) t = wireAt useDelta sent t := by
  cases t with
  | zero => exact dataAt_append x h
  | succ t => rw [wireAt, wireAt, dataAt_append x h, dataAt_append x (Nat.lt_of_succ_lt h)]

theorem frameError_append (x : Sent F) {t : ℕ} (h : t < sent.length) (j : ℕ) :
    frameError codec useDelta (sent ++ [x]) t j = frameError codec useDelta sent t j := by
  unfold frameError
  rw [dtypeAt_append x h, wireAt_append x h]

/-- Later frames do not change the drift after a frame. -/
theorem drift_append (x : Sent F) {t : ℕ} (h : t < sent.length) (j : ℕ) :
    drift codec useDelta (sent ++ [x]) t j = drift codec useDelta sent t j := by
  unfold drift
  rw [frameError_append x h]
  have hsum : ∑ i ∈ Finset.range (t + 1), frameError codec useDelta (sent ++ [x]) i j =
      ∑ i ∈ Finset.range (t + 1), frameError codec useDelta sent i j := by
    refine Finset.sum_congr rfl fun i hi => frameError_append x ?_ j
    have hi := Finset.mem_range.mp hi
    omega
  rw [hsum]

theorem drift_zero (j : ℕ) :
    drift codec useDelta sent 0 j = frameError codec useDelta sent 0 j := by
  unfold drift
  split
  · exact Finset.sum_range_one _
  · rfl

/-- The error of a difference comes on top of the drift so far. -/
theorem drift_succ (h : useDelta) (t j : ℕ) :
    drift codec useDelta sent (t + 1) j =
      drift codec useDelta sent t j + frameError codec useDelta sent (t + 1) j := by
  unfold drift
  rw [if_pos h, if_pos h, Finset.sum_range_succ]

/-- A coordinate of two lists combined. -/
theorem getD_zipWith (f : F → F → F) {xs ys : List F} {j : ℕ} (hx : j < xs.length)
    (hy : j < ys.length) : (List.zipWith f xs ys).getD j 0 = f (xs.getD j 0) (ys.getD j 0) := by
  rw [List.getD_eq_getElem?_getD, List.getElem?_zipWith, List.getElem?_eq_getElem hx,
    List.getElem?_eq_getElem hy, List.getD_eq_getElem?_getD, List.getElem?_eq_getElem hx,
    List.getD_eq_getElem?_getD, List.getElem?_eq_getElem hy]
  rfl

/-- The list that stands before an index, none before the first. -/
def before (xs : List (List F)) : ℕ → List F
  | 0 => []
  | t + 1 => xs.getD t []

omit [AddCommGroup F] in
theorem before_append (xs : List (List F)) (x : List F) {t : ℕ} (h : t ≤ xs.length) :
    before (xs ++ [x]) t = before xs t := by
  cases t with
  | zero => rfl
  | succ t =>
    rw [before, before, List.getD_eq_getElem?_getD, List.getD_eq_getElem?_getD,
      List.getElem?_append_left h]

omit [AddCommGroup F] in
theorem before_length_append (xs : List (List F)) (x : List F) :
    before (xs ++ [x]) (xs ++ [x]).length = x := by
  rw [List.length_append, List.length_singleton, before, List.getD_eq_getElem?_getD,
    List.getElem?_append_right (Nat.le_refl _), Nat.sub_self]
  rfl

/-- A frame that a node made of its activation when it had sent this one before. -/
def MadeAfter (codec : FloatCodec F) (e : Ends F) (prev : List F) (x : Sent F) : Prop :=
  ∃ (c : NnPipelineCommunicator F) (seqPosition batchIndex : NnUint) (sliceId : ℕ)
    (dtype : NnFloatType) (bypass : Bool),
    x.frame = c.makeFrame codec e.sendSocket seqPosition batchIndex sliceId x.data dtype
      (extraFlags bypass) ∧
    c.deltaEnabled = e.sender.deltaEnabled ∧ c.deltaMinBytes = e.sender.deltaMinBytes ∧
    c.prevSendBySocket e.sendSocket = prev

/-- Activations of this size are sent as differences, once there is a base. -/
def UsesDelta (e : Ends F) (n : ℕ) : Prop :=
  e.sender.deltaEnabled = true ∧ e.sender.deltaMinBytes ≤ 4 * n

instance (e : Ends F) (n : ℕ) : Decidable (UsesDelta e n) := inferInstanceAs (Decidable (_ ∧ _))

/-- What holds of a link with equal activations at any time. -/
structure DriftInv (codec : FloatCodec F) (e : Ends F) (n : ℕ) (s : Link F) : Prop where
  sender : SameNode e.sender s.sender
  receiver : SameNode e.receiver s.receiver
  enabled : s.sender.deltaEnabled = e.sender.deltaEnabled
  minBytes : s.sender.deltaMinBytes = e.sender.deltaMinBytes
  queue : s.queue = s.sent.drop s.received.length
  le : s.received.length ≤ s.sent.length
  size : ∀ x ∈ s.sent, x.data.length = n
  frames : ∀ (t : ℕ) x, s.sent[t]? = some x →
    MadeAfter codec e (before (s.sent.map fun x => x.data) t) x
  sendBase : s.sender.prevSendBySocket e.sendSocket =
    before (s.sent.map fun x => x.data) s.sent.length
  recvBase : s.receiver.prevRecvBySocket e.recvSocket = before s.received s.received.length
  values : ∀ (t : ℕ) y, s.received[t]? = some y → y.length = n ∧ ∀ j < n,
    y.getD j 0 = (dataAt s.sent t).getD j 0 + drift codec (UsesDelta e n) s.sent t j

variable {e : Ends F} {n : ℕ} {s s' : Link F}

theorem driftInv_start : DriftInv codec e n (Link.start e) := by
  refine ⟨SameNode.refl _, SameNode.refl _, rfl, rfl, rfl, Nat.le_refl _, ?_, ?_, e.send_fresh,
    e.recv_fresh, ?_⟩
  · intro x hx
    cases hx
  · intro t x hx
    cases hx
  · intro t y hy
    cases hy

theorem DriftInv.send (h : DriftInv codec e n s) (hn : 0 < n) {seqPosition batchIndex : NnUint}
    {sliceId : ℕ} {data : List F} {dtype : NnFloatType} {bypass : Bool} (hsize : data.length = n)
    (hs : s.step codec e (.send seqPosition batchIndex sliceId data dtype bypass) = some s') :
    DriftInv codec e n s' := by
  have hnonempty : ¬data.length = 0 := by omega
  have hnote : s.sender.noteSent e.sendSocket data = { s.sender with
      prevSendBySocket := Function.update s.sender.prevSendBySocket e.sendSocket data } :=
    if_neg hnonempty
  rw [Link.step, sendActivation_of_sameNode h.sender, hnote] at hs
  injection hs with hs
  have hdata (x : Sent F) : ((s.sent ++ [x]).map fun x => x.data) =
      (s.sent.map fun x => x.data) ++ [x.data] := by
    rw [List.map_append]
    rfl
  have hlen : (s.sent.map fun x => x.data).length = s.sent.length := List.length_map _
  rw [← hs]
  refine ⟨h.sender.trans ⟨rfl, rfl, rfl, rfl, rfl⟩, h.receiver, h.enabled, h.minBytes, ?_, ?_, ?_, ?_,
    ?_, h.recvBase, ?_⟩
  · dsimp only
    rw [h.queue, List.drop_append_of_le_length h.le]
  · dsimp only
    rw [List.length_append]
    exact Nat.le_add_right_of_le h.le
  · intro x hx
    rcases List.mem_append.mp hx with hold | hnew
    · exact h.size x hold
    · rw [List.mem_singleton.mp hnew]
      exact hsize
  · intro t x hx
    dsimp only at hx ⊢
    rw [hdata]
    rcases Nat.lt_or_ge t s.sent.length with hlt | hge
    · rw [List.getElem?_append_left hlt] at hx
      rw [before_append _ _ (by omega)]
      exact h.frames t x hx
    · rw [List.getElem?_append_right hge] at hx
      have ht : t = s.sent.length := by
        have hbound := (List.getElem?_eq_some_iff.mp hx).1
        rw [List.length_singleton] at hbound
        omega
      rw [ht, Nat.sub_self] at hx
      injection hx with hx
      rw [before_append _ _ (by omega), ht, ← h.sendBase, ← hx]
      exact ⟨s.sender, seqPosition, batchIndex, sliceId, dtype, bypass, rfl, h.enabled, h.minBytes,
        rfl⟩
  · dsimp only
    have hlast := before_length_append (s.sent.map fun x => x.data) data
    rw [List.length_append, List.length_singleton, hlen] at hlast
    rw [hdata, Function.update_self, List.length_append, List.length_singleton, hlast]
  · intro t y hy
    have hold := h.values t y hy
    have ht : t < s.sent.length :=
      Nat.lt_of_lt_of_le (List.getElem?_eq_some_iff.mp hy).1 h.le
    refine ⟨hold.1, fun j hj => ?_⟩
    dsimp only
    rw [dataAt_append _ ht, drift_append _ ht]
    exact hold.2 j hj

/-- What the receiver stores of a frame is off by the drift after that frame. -/
theorem DriftInv.reconstructed (h : DriftInv codec e n s) (hn : 0 < n) {x : Sent F}
    (hx : s.sent[s.received.length]? = some x) (c : NnPipelineCommunicator F)
    (henabled : c.deltaEnabled = e.sender.deltaEnabled)
    (hmin : c.deltaMinBytes = e.sender.deltaMinBytes)
    (hprev : c.prevSendBySocket e.sendSocket =
      before (s.sent.map fun x => x.data) s.received.length)
    {dtype : NnFloatType} (hdtype : x.frame.header.dtype = selectWireDtype dtype x.data.length)
    {j : ℕ} (hj : j < n) :
    (c.reconstructed codec e.sendSocket (s.receiver.prevRecvBySocket e.recvSocket) x.data
      dtype).getD j 0 =
        x.data.getD j 0 + drift codec (UsesDelta e n) s.sent s.received.length j := by
  have hsize : x.data.length = n := h.size x (List.mem_of_getElem? hx)
  have hlen := c.decodedWire_length codec e.sendSocket x.data dtype
  have hdata : dataAt s.sent s.received.length = x.data := by
    rw [dataAt, hx]
    rfl
  have hdt : dtypeAt s.sent s.received.length = selectWireDtype dtype x.data.length := by
    rw [dtypeAt, hx, ← hdtype]
    rfl
  have hwire (hw : c.wireValues e.sendSocket x.data =
      wireAt (UsesDelta e n) s.sent s.received.length) :
      (c.decodedWire codec e.sendSocket x.data dtype).getD j 0 =
        (wireAt (UsesDelta e n) s.sent s.received.length).getD j 0 +
          frameError codec (UsesDelta e n) s.sent s.received.length j := by
    rw [NnPipelineCommunicator.decodedWire, hw, frameError, hdt, add_sub_cancel]
  have huses : c.UsesDelta e.sendSocket x.data ↔
      UsesDelta e n ∧ (c.prevSendBySocket e.sendSocket).length = n := by
    unfold NnPipelineCommunicator.UsesDelta UsesDelta
    rw [henabled, hmin, hsize, and_assoc]
  cases ht : s.received.length with
  | zero =>
    rw [ht] at hprev hwire hdata
    have hnot : ¬c.UsesDelta e.sendSocket x.data := by
      rw [huses, hprev]
      exact fun hall => Nat.ne_of_lt hn hall.2
    have hvalues : c.wireValues e.sendSocket x.data = wireAt (UsesDelta e n) s.sent 0 := by
      rw [wireAt, hdata]
      exact if_neg hnot
    have hzero := hwire hvalues
    have hrec : c.reconstructed codec e.sendSocket (s.receiver.prevRecvBySocket e.recvSocket)
        x.data dtype = c.decodedWire codec e.sendSocket x.data dtype := if_neg hnot
    rw [hrec, hzero, wireAt, hdata, drift_zero]
  | succ t =>
    rw [ht] at hprev hwire hdata
    have hle := h.le
    have hlast : t < s.sent.length := by omega
    have hbase : c.prevSendBySocket e.sendSocket = dataAt s.sent t := by
      rw [hprev, before, dataAt, List.getD_eq_getElem?_getD, List.getElem?_map]
    have hbaseLen : (dataAt s.sent t).length = n := by
      rw [dataAt, List.getElem?_eq_getElem hlast]
      exact h.size _ (List.getElem_mem hlast)
    by_cases hdelta : UsesDelta e n
    · have hyes : c.UsesDelta e.sendSocket x.data := huses.mpr ⟨hdelta, by rw [hbase, hbaseLen]⟩
      have hvalues : c.wireValues e.sendSocket x.data = wireAt (UsesDelta e n) s.sent (t + 1) := by
        rw [wireAt, if_pos hdelta, hdata, ← hbase]
        exact if_pos hyes
      have hone := hwire hvalues
      have hget : t < s.received.length := by omega
      have hlastRecv := List.getElem?_eq_getElem hget
      obtain ⟨hyLen, hy⟩ := h.values t _ hlastRecv
      have hrecv : s.receiver.prevRecvBySocket e.recvSocket = s.received[t] := by
        rw [h.recvBase, ht, before, List.getD_eq_getElem?_getD, hlastRecv]
        rfl
      have hrec : c.reconstructed codec e.sendSocket (s.receiver.prevRecvBySocket e.recvSocket)
          x.data dtype = List.zipWith (· + ·) s.received[t]
            (c.decodedWire codec e.sendSocket x.data dtype) := by
        rw [hrecv]
        exact if_pos hyes
      rw [hrec, getD_zipWith _ (by omega) (by omega), hone, hy j hj, wireAt, if_pos hdelta, hdata,
        getD_zipWith _ (by omega) (by omega), drift_succ hdelta]
      abel
    · have hnot : ¬c.UsesDelta e.sendSocket x.data := fun hall => hdelta (huses.mp hall).1
      have hvalues : c.wireValues e.sendSocket x.data = wireAt (UsesDelta e n) s.sent (t + 1) := by
        rw [wireAt, if_neg hdelta, hdata]
        exact if_neg hnot
      have hone := hwire hvalues
      have hrec : c.reconstructed codec e.sendSocket (s.receiver.prevRecvBySocket e.recvSocket)
          x.data dtype = c.decodedWire codec e.sendSocket x.data dtype := if_neg hnot
      rw [hrec, hone, wireAt, if_neg hdelta, hdata, drift, if_neg hdelta]

theorem DriftInv.recv (h : DriftInv codec e n s) (hn : 0 < n) {bufferElems : ℕ}
    (hs : s.step codec e (.recv bufferElems) = some s') : DriftInv codec e n s' := by
  rw [Link.step, recvSocket_of_sameNode h.receiver] at hs
  cases hqueue : s.queue with
  | nil =>
    rw [hqueue] at hs
    cases hs
  | cons x queue =>
    rw [hqueue] at hs
    dsimp only at hs
    split at hs
    · rename_i hroom
      have hdrop : s.sent.drop s.received.length = x :: queue := h.queue ▸ hqueue
      have hx : s.sent[s.received.length]? = some x := by
        have hhead := congrArg List.head? hdrop
        rw [List.head?_drop] at hhead
        exact hhead
      have hlt := (List.getElem?_eq_some_iff.mp hx).1
      have hsize : x.data.length = n := h.size x (List.mem_of_getElem? hx)
      obtain ⟨c, seqPosition, batchIndex, sliceId, dtype, bypass, hframe, henabled, hmin, hprev⟩ :=
        h.frames _ x hx
      have hbase : (s.receiver.prevRecvBySocket e.recvSocket).length =
          (c.prevSendBySocket e.sendSocket).length := by
        rw [h.recvBase, hprev]
        cases ht : s.received.length with
        | zero => rfl
        | succ t =>
          have hrecv : t < s.received.length := by omega
          have hsent : t < s.sent.length := by omega
          rw [before, before, List.getD_eq_getElem?_getD, List.getElem?_eq_getElem hrecv,
            List.getD_eq_getElem?_getD, List.getElem?_map, List.getElem?_eq_getElem hsent]
          exact (h.values t _ (List.getElem?_eq_getElem hrecv)).1.trans
            (h.size _ (List.getElem_mem hsent)).symm
      have haccept := c.acceptFrame_makeFrame_eq codec s.receiver hbase seqPosition batchIndex
        sliceId (by omega : x.data.length ≠ 0) hroom dtype (extraFlags_cases bypass)
      have hdtype : x.frame.header.dtype = selectWireDtype dtype x.data.length := by
        rw [hframe]
        rfl
      have hvalue := fun j hj => h.reconstructed hn hx c henabled hmin hprev hdtype (j := j) hj
      have hlen : (c.reconstructed codec e.sendSocket (s.receiver.prevRecvBySocket e.recvSocket)
          x.data dtype).length = x.data.length := c.reconstructed_length codec hbase dtype
      rw [← hframe] at haccept
      generalize hy : c.reconstructed codec e.sendSocket (s.receiver.prevRecvBySocket e.recvSocket)
        x.data dtype = y at haccept hvalue hlen
      rw [haccept] at hs
      injection hs with hs
      rw [← hs]
      refine ⟨h.sender, h.receiver.trans ⟨rfl, rfl, rfl, rfl, rfl⟩, h.enabled, h.minBytes, ?_, ?_,
        h.size, h.frames, h.sendBase, ?_, ?_⟩
      · dsimp only
        rw [List.length_append, List.length_singleton, ← List.drop_drop, hdrop]
        rfl
      · dsimp only
        rw [List.length_append, List.length_singleton]
        exact hlt
      · dsimp only [NnPipelineCommunicator.noteReceived]
        rw [Function.update_self, before_length_append]
      · intro t z hz
        dsimp only at hz ⊢
        rcases Nat.lt_or_ge t s.received.length with hold | hnew
        · rw [List.getElem?_append_left hold] at hz
          exact h.values t z hz
        · rw [List.getElem?_append_right hnew] at hz
          have ht : t = s.received.length := by
            have hbound := (List.getElem?_eq_some_iff.mp hz).1
            rw [List.length_singleton] at hbound
            omega
          rw [ht, Nat.sub_self] at hz
          injection hz with hz
          have hdata : dataAt s.sent s.received.length = x.data := by
            rw [dataAt, hx]
            rfl
          rw [← hz, ht, hdata]
          exact ⟨hlen.trans hsize, hvalue⟩
    · cases hs

theorem DriftInv.steps (h : DriftInv codec e n s) (hn : 0 < n) {events : List (Event F)}
    (hevents : ∀ event ∈ events, EqualSize n event) (hs : s.steps codec e events = some s') :
    DriftInv codec e n s' := by
  induction events generalizing s with
  | nil =>
    injection hs with hs
    rw [← hs]
    exact h
  | cons event events ih =>
    obtain ⟨next, hnext, hrest⟩ := Option.bind_eq_some_iff.mp hs
    have hevent := hevents event List.mem_cons_self
    refine ih ?_ (fun ev hev => hevents ev (List.mem_cons_of_mem _ hev)) hrest
    cases event with
    | send seqPosition batchIndex sliceId data dtype bypass => exact h.send hn hevent hnext
    | recv bufferElems => exact h.recv hn hnext
    | senderOptions deltaEnabled deltaMinBytes chunkBytes => exact hevent.elim
    | receiverOptions deltaEnabled deltaMinBytes chunkBytes =>
      injection hnext with hnext
      rw [← hnext]
      exact ⟨h.sender, h.receiver.trans (sameNode_setTransportOptions _ _ _ _), h.enabled, h.minBytes,
        h.queue, h.le, h.size, h.frames, h.sendBase, h.recvBase, h.values⟩

/-- The sender's base is the activation sent last, the receiver's what it stored
last. -/
theorem DriftInv.bases (h : DriftInv codec e n s) (hqueue : s.queue = [])
    (hpos : 0 < s.received.length) :
    s.sender.prevSendBySocket e.sendSocket = dataAt s.sent (s.received.length - 1) ∧
      s.receiver.prevRecvBySocket e.recvSocket = s.received.getD (s.received.length - 1) [] := by
  have hlen : s.sent.length = s.received.length := by
    have hdrop := List.drop_eq_nil_iff.mp (h.queue ▸ hqueue)
    exact Nat.le_antisymm hdrop h.le
  obtain ⟨t, ht⟩ := Nat.exists_eq_succ_of_ne_zero (Nat.ne_of_gt hpos)
  have hsend := h.sendBase
  have hrecv := h.recvBase
  rw [hlen, ht, before, List.getD_eq_getElem?_getD, List.getElem?_map] at hsend
  rw [ht, before] at hrecv
  rw [ht]
  exact ⟨hsend, hrecv⟩

/-- A reconstruction is off by the drift. -/
theorem DriftInv.error (h : DriftInv codec e n s) {t : ℕ} (ht : t < s.received.length) {j : ℕ}
    (hj : j < n) :
    (s.received.getD t []).getD j 0 - (dataAt s.sent t).getD j 0 =
      drift codec (UsesDelta e n) s.sent t j := by
  have hvalue := (h.values t _ (List.getElem?_eq_getElem ht)).2 j hj
  have hget : s.received.getD t [] = s.received[t] := by
    rw [List.getD_eq_getElem?_getD, List.getElem?_eq_getElem ht, Option.getD_some]
  rw [hget, hvalue, add_sub_cancel_left]

/-- Two activations of one size that agree at every coordinate. -/
theorem eq_iff_getD {xs ys : List F} (hx : xs.length = n) (hy : ys.length = n) :
    xs = ys ↔ ∀ j < n, ys.getD j 0 - xs.getD j 0 = 0 := by
  constructor
  · intro h j _
    rw [h, sub_self]
  · intro h
    refine List.ext_getElem (hx.trans hy.symm) fun j hjx hjy => ?_
    have hj := sub_eq_zero.mp (h j (by omega))
    rw [List.getD_eq_getElem?_getD, List.getElem?_eq_getElem hjy, List.getD_eq_getElem?_getD,
      List.getElem?_eq_getElem hjx] at hj
    exact hj.symm

/-- The bases agree exactly when the drift is gone at every coordinate. -/
theorem DriftInv.bases_eq_iff (h : DriftInv codec e n s) (hqueue : s.queue = [])
    (hpos : 0 < s.received.length) :
    s.sender.prevSendBySocket e.sendSocket = s.receiver.prevRecvBySocket e.recvSocket ↔
      ∀ j < n, drift codec (UsesDelta e n) s.sent (s.received.length - 1) j = 0 := by
  have hlast : s.received.length - 1 < s.received.length := by omega
  have hsent : s.received.length - 1 < s.sent.length := Nat.lt_of_lt_of_le hlast h.le
  have hsendLen : (dataAt s.sent (s.received.length - 1)).length = n := by
    rw [dataAt, List.getElem?_eq_getElem hsent]
    exact h.size _ (List.getElem_mem hsent)
  have hrecvLen : (s.received.getD (s.received.length - 1) []).length = n := by
    rw [List.getD_eq_getElem?_getD, List.getElem?_eq_getElem hlast]
    exact (h.values _ _ (List.getElem?_eq_getElem hlast)).1
  obtain ⟨hsend, hrecv⟩ := h.bases hqueue hpos
  rw [hsend, hrecv, eq_iff_getD hsendLen hrecvLen]
  constructor
  · intro hall j hj
    rw [← h.error hlast hj]
    exact hall j hj
  · intro hall j hj
    rw [h.error hlast hj]
    exact hall j hj

end Drift

section Bound

variable {F : Type} [AddCommGroup F] [LinearOrder F]

/-- Encoding and decoding any frame that has arrived changes no coordinate by
more than this. -/
def FrameErrorsWithin (codec : FloatCodec F) (e : Ends F) (n : ℕ) (s : Link F) (eps : F) : Prop :=
  ∀ t < s.received.length, ∀ j < n, |frameError codec (UsesDelta e n) s.sent t j| ≤ eps

/-- Every reconstruction is this close to the activation sent. -/
def Within (n : ℕ) (s : Link F) (eps : F) : Prop :=
  ∀ t < s.received.length, ∀ j < n,
    |(s.received.getD t []).getD j 0 - (dataAt s.sent t).getD j 0| ≤ eps

instance (codec : FloatCodec F) (e : Ends F) (n : ℕ) (s : Link F) (eps : F) :
    Decidable (FrameErrorsWithin codec e n s eps) :=
  inferInstanceAs (Decidable (∀ t < _, ∀ j < _, _))

instance (n : ℕ) (s : Link F) (eps : F) : Decidable (Within n s eps) :=
  inferInstanceAs (Decidable (∀ t < _, ∀ j < _, _))

/-- With frames that are each within a bound, the reconstructions are within it
exactly when the running sums of the frame errors are, as far as activations are
sent as differences; the bases of the two ends agree exactly when the drift after
the last frame is zero. -/
theorem reconstruction_within_iff {codec : FloatCodec F} {e : Ends F} {n : ℕ} (hn : 0 < n)
    {events : List (Event F)} (hevents : ∀ event ∈ events, EqualSize n event) {s : Link F}
    (h : (Link.start e).steps codec e events = some s) {eps : F}
    (heps : FrameErrorsWithin codec e n s eps) :
    (Within n s eps ↔ (UsesDelta e n → ∀ t < s.received.length, ∀ j < n,
      |∑ i ∈ Finset.range (t + 1), frameError codec (UsesDelta e n) s.sent i j| ≤ eps)) ∧
    (s.queue = [] → 0 < s.received.length →
      (s.sender.prevSendBySocket e.sendSocket = s.receiver.prevRecvBySocket e.recvSocket ↔
        ∀ j < n, drift codec (UsesDelta e n) s.sent (s.received.length - 1) j = 0)) := by
  have hinv : DriftInv codec e n s := driftInv_start.steps hn hevents h
  refine ⟨?_, hinv.bases_eq_iff⟩
  have herror (t : ℕ) (ht : t < s.received.length) (j : ℕ) (hj : j < n) := hinv.error ht hj
  constructor
  · intro hwithin hdelta t ht j hj
    have hone := hwithin t ht j hj
    rw [herror t ht j hj, drift, if_pos hdelta] at hone
    exact hone
  · intro hsums t ht j hj
    rw [herror t ht j hj, drift]
    split
    · rename_i hdelta
      exact hsums hdelta t ht j hj
    · exact heps t ht j hj

end Bound

/-- Integers stand for multiples of one half of the spacing of half floats
between one and two; such a half float holds the even ones. -/
def halfCodec : FloatCodec ℤ where
  encode dtype xs := match dtype with
    | .f16 => xs.flatMap fun x => [(x / 2).toNat.toUInt8, (x / 2 / 256).toNat.toUInt8]
    | dtype => List.replicate (getBytes dtype xs.length) 0
  decode dtype bytes := match dtype with
    | .f16 => (List.range (bytes.length / 2)).map fun i =>
        2 * ((bytes.getD (2 * i) 0).toNat + 256 * (bytes.getD (2 * i + 1) 0).toNat)
    | dtype => List.replicate ((decodedElems dtype bytes.length).getD 0) 0
  encode_length dtype xs := by
    cases dtype with
    | f16 => simp [getBytes, List.length_flatMap, Nat.mul_comm]
    | f32 | q40 | q80 => exact List.length_replicate
  decode_length dtype bytes n h := by
    cases dtype with
    | f16 =>
      have heven := Option.ite_none_right_eq_some.mp h
      simpa using Option.some.inj heven.2
    | f32 | q40 | q80 => simp [h]

/-- The link from the first to the second of two stages, with differences. -/
def halfEnds : Ends ℤ where
  sender := .create ⟨2, 2, 1, 1⟩ ⟨0, 0, 0, 0, 0, 1, 0, 1⟩ true 0 0
  receiver := .create ⟨2, 2, 1, 1⟩ ⟨1, 1, 0, 0, 1, 2, 1, 2⟩ true 0 0
  target := 1
  source := 0
  sendSocket := 0
  recvSocket := 0
  target_lt := by decide
  send_ok := by decide
  source_lt := by decide
  recv_ok := by decide
  send_fresh := rfl
  recv_fresh := rfl

/-- Activations that grow by a little more than one. -/
def halfEvents : List (Event ℤ) :=
  [.send 0 0 0 [0] .f16 false, .recv 1, .send 1 0 0 [2049] .f16 false, .recv 1,
    .send 2 0 0 [4098] .f16 false, .recv 1]

/-- Where these events end: each frame is within the bound, the reconstructions
are not, and the bases differ. -/
theorem steps_half :
    ∃ s, (Link.start halfEnds).steps halfCodec halfEnds halfEvents = some s ∧
      (s.queue = [] ∧ 0 < s.received.length) ∧ FrameErrorsWithin halfCodec halfEnds 1 s 1 ∧
      ¬Within 1 s 1 ∧ s.sender.prevSendBySocket 0 ≠ s.receiver.prevRecvBySocket 0 := by
  have hrun : ((Link.start halfEnds).steps halfCodec halfEnds halfEvents).map
      (fun s => decide ((s.queue.length = 0 ∧ 0 < s.received.length) ∧
        FrameErrorsWithin halfCodec halfEnds 1 s 1 ∧ ¬Within 1 s 1 ∧
        s.sender.prevSendBySocket 0 ≠ s.receiver.prevRecvBySocket 0)) = some true := by
    decide
  obtain ⟨s, hs, hall⟩ := Option.map_eq_some_iff.mp hrun
  obtain ⟨⟨hqueue, hpos⟩, hrest⟩ := of_decide_eq_true hall
  exact ⟨s, hs, ⟨List.eq_nil_of_length_eq_zero hqueue, hpos⟩, hrest⟩

theorem equalSize_halfEvents : ∀ event ∈ halfEvents, EqualSize 1 event := by
  intro event hevent
  simp only [halfEvents, List.mem_cons, List.not_mem_nil, or_false] at hevent
  rcases hevent with rfl | rfl | rfl | rfl | rfl | rfl
  all_goals first | exact rfl | exact trivial

theorem reconstruction_within_iff_half :
    ∃ s, (Link.start halfEnds).steps halfCodec halfEnds halfEvents = some s ∧
      ¬(∀ t < s.received.length, ∀ j < 1,
        |∑ i ∈ Finset.range (t + 1), frameError halfCodec (UsesDelta halfEnds 1) s.sent i j| ≤ 1) ∧
      ¬∀ j < 1, drift halfCodec (UsesDelta halfEnds 1) s.sent (s.received.length - 1) j = 0 := by
  obtain ⟨s, hs, ⟨hqueue, hpos⟩, heps, hnot, hbases⟩ := steps_half
  have hiff := reconstruction_within_iff (by decide) equalSize_halfEvents hs heps
  refine ⟨s, hs, fun hsums => hnot (hiff.1.mpr fun _ => hsums), fun hzero => ?_⟩
  exact hbases ((hiff.2 hqueue hpos).mpr hzero)

/-- Two differences, each within the bound, leave the reconstruction beyond it and
the bases apart. -/
theorem not_within_half :
    ∃ s, (∀ event ∈ halfEvents, EqualSize 1 event) ∧
      (Link.start halfEnds).steps halfCodec halfEnds halfEvents = some s ∧
      FrameErrorsWithin halfCodec halfEnds 1 s 1 ∧ ¬Within 1 s 1 ∧
      s.sender.prevSendBySocket 0 ≠ s.receiver.prevRecvBySocket 0 := by
  obtain ⟨s, hs, -, hrest⟩ := steps_half
  exact ⟨s, equalSize_halfEvents, hs, hrest⟩

end LayerSkip.DeltaDrift
