import LayerSkip.GatewayAccounting

/-!
# Backends that are marked as failed

One handler catches what fails while a request is forwarded, and marks the backend. A write to the client fails in
the same place as a read from the backend. In every run in which the response can be written, a backend is only
marked after a connect, a write or a read of its own has failed.
-/

namespace LayerSkip.GatewayHealth

open GatewayBackends

/-- Where a thread is in `processClient`, with the steps of forwarding. -/
inductive Phase where
  /-- It is not forwarding. -/
  | outside (phase : GatewayAccounting.Phase)
  /-- It connects to the backend. -/
  | connecting (backendIndex : ℕ)
  /-- It writes the request to the backend. -/
  | sending (backendIndex : ℕ)
  /-- It reads a part of the response from the backend. -/
  | receiving (backendIndex : ℕ)
  /-- It writes the part to the client. -/
  | delivering (backendIndex : ℕ)
  deriving DecidableEq, Repr

namespace Phase

/-- The place among those of a thread that forwards in one step. -/
def whole : Phase → GatewayAccounting.Phase
  | outside phase => phase
  | connecting backendIndex => .forwarding backendIndex
  | sending backendIndex => .forwarding backendIndex
  | receiving backendIndex => .forwarding backendIndex
  | delivering backendIndex => .forwarding backendIndex

/-- A thread that begins to forward connects. -/
def enter : GatewayAccounting.Phase → Phase
  | .forwarding backendIndex => connecting backendIndex
  | phase => outside phase

/-- The backend that a read or a write is for. -/
def peer : Phase → Option ℕ
  | connecting backendIndex => some backendIndex
  | sending backendIndex => some backendIndex
  | receiving backendIndex => some backendIndex
  | _ => none

/-- The response is written to the client. -/
def isDelivering : Phase → Bool
  | delivering _ => true
  | _ => false

end Phase

/-- What a step finds outside of the gateway. -/
structure Event (T : Type) extends GatewayAccounting.Event T where
  /-- The backend has closed the connection. -/
  closed : Bool

/-- One step of a thread. -/
def processClient {T : Type} [LinearOrder T] (maxQueue : ℤ) (event : Event T)
    (shared : GatewayAccounting.Shared T) : Phase → Phase × GatewayAccounting.Shared T
  | .outside phase =>
    let next := GatewayAccounting.processClient maxQueue event.toEvent shared phase
    (.enter next.1, next.2)
  | .connecting backendIndex =>
    (if event.fails then .outside (.failed (some backendIndex)) else .sending backendIndex, shared)
  | .sending backendIndex =>
    (if event.fails then .outside (.failed (some backendIndex)) else .receiving backendIndex, shared)
  | .receiving backendIndex =>
    (if event.fails then .outside (.failed (some backendIndex))
      else if event.closed then .outside (.releasing (some backendIndex) false)
      else .delivering backendIndex, shared)
  | .delivering backendIndex =>
    (if event.fails then .outside (.failed (some backendIndex)) else .receiving backendIndex, shared)

/-- A thread, with the places in which it has been and whether their read or write failed. -/
structure Call where
  /-- Where it is. -/
  phase : Phase
  /-- Where it has been. -/
  history : List (Phase × Bool)
  deriving DecidableEq, Repr

/-- The gateway with all threads that it has had. -/
structure State (T : Type) where
  /-- What they share. -/
  shared : GatewayAccounting.Shared T
  /-- The threads. -/
  calls : List Call

/-- A connection is accepted, or a thread takes a step. Where responses are delivered, no write of them fails. -/
inductive Step {T : Type} [LinearOrder T] (maxQueue : ℤ) (delivered : Bool) : State T → State T → Prop
  /-- A connection is accepted. -/
  | accept {s : State T} (hruns : ∀ call ∈ s.calls, call.phase ≠ .outside .escaped) :
      Step maxQueue delivered s { s with calls := s.calls ++ [⟨.outside .entered, []⟩] }
  /-- A thread takes a step. -/
  | run {s : State T} (hruns : ∀ call ∈ s.calls, call.phase ≠ .outside .escaped) {index : ℕ} {call : Call}
      (hget : s.calls[index]? = some call) (hgoing : call.phase.whole.ended = false) (event : Event T)
      (hdelivered : delivered = true → call.phase.isDelivering = true → event.fails = false) :
      Step maxQueue delivered s
        ⟨(processClient maxQueue event s.shared call.phase).2,
          s.calls.set index ⟨(processClient maxQueue event s.shared call.phase).1,
            call.history ++ [(call.phase, event.fails)]⟩⟩

/-- Until when a backend is not used. -/
def unhealthyUntil {T : Type} (s : State T) (index : ℕ) : Option T :=
  s.shared.gateway.backends[index]?.map BackendTarget.unhealthyUntil

/-- A connect, a write or a read of a backend has failed in a thread. -/
def Call.Failed (call : Call) (index : ℕ) : Prop :=
  ∃ phase : Phase, phase.peer = some index ∧ (phase, true) ∈ call.history

section Steps

variable {T : Type} [LinearOrder T]

omit [LinearOrder T] in
/-- A change of one backend that leaves its time leaves all times. -/
theorem getElem?_modify_time {backends : List (BackendTarget T)} {selected : ℕ}
    {f : BackendTarget T → BackendTarget T} (index : ℕ)
    (h : selected = index → ∀ backend, (f backend).unhealthyUntil = backend.unhealthyUntil) :
    (backends.modify selected f)[index]?.map BackendTarget.unhealthyUntil =
      backends[index]?.map BackendTarget.unhealthyUntil := by
  rw [List.getElem?_modify]
  cases backends[index]? with
  | none => rfl
  | some backend =>
    simp only [Option.map_eq_map, Option.map_some, Option.some.injEq]
    split
    · rename_i hsame
      exact h hsame backend
    · rfl

/-- A backend is only marked when it is released after a failure. -/
theorem whole_unhealthyUntil (maxQueue : ℤ) (event : GatewayAccounting.Event T)
    (shared : GatewayAccounting.Shared T) (phase : GatewayAccounting.Phase) (index : ℕ)
    (h : (GatewayAccounting.processClient maxQueue event shared phase).2.gateway.backends[index]?.map
      BackendTarget.unhealthyUntil ≠ shared.gateway.backends[index]?.map BackendTarget.unhealthyUntil) :
    phase = .releasing (some index) true := by
  cases GatewayAccounting.processClient_moves maxQueue event shared phase with
  | acquires selected now hphase hnext hselect =>
    refine absurd ?_ h
    cases select_cases shared.gateway now with
    | inl hnone =>
      rw [hnone.1] at hselect
      cases hselect
    | inr hsome =>
      obtain ⟨chosen, backend, hchosen, heq⟩ := hsome
      rw [heq] at hselect
      have hgateway := (Prod.mk.inj hselect).2
      rw [← hgateway]
      exact getElem?_modify_time index fun _ _ => Eq.refl _
  | releases released backendFailed retry hphase hnext hgateway =>
    rw [hgateway] at h
    cases backendFailed with
    | true =>
      by_cases hsame : released = index
      · rw [hphase, hsame]
      · refine absurd ?_ h
        unfold Gateway.releaseBackend
        exact getElem?_modify_time index fun heq => absurd heq hsame
    | false =>
      refine absurd ?_ h
      unfold Gateway.releaseBackend
      exact getElem?_modify_time index fun _ _ => Eq.refl _
  | leaves hheld hgateway =>
    rw [hgateway] at h
    exact absurd (Eq.refl _) h

/-- A backend is only marked when it is released after a failure. -/
theorem processClient_unhealthyUntil (maxQueue : ℤ) (event : Event T)
    (shared : GatewayAccounting.Shared T) (phase : Phase) (index : ℕ)
    (h : (processClient maxQueue event shared phase).2.gateway.backends[index]?.map
      BackendTarget.unhealthyUntil ≠ shared.gateway.backends[index]?.map BackendTarget.unhealthyUntil) :
    phase = .outside (.releasing (some index) true) := by
  cases phase with
  | outside phase => rw [whole_unhealthyUntil maxQueue event.toEvent shared phase index h]
  | connecting backendIndex => exact absurd (Eq.refl _) h
  | sending backendIndex => exact absurd (Eq.refl _) h
  | receiving backendIndex => exact absurd (Eq.refl _) h
  | delivering backendIndex => exact absurd (Eq.refl _) h

end Steps

section Blame

/-- A thread that marks a backend, or may do so, has seen it fail. -/
structure Blames (call : Call) : Prop where
  /-- It forwards in steps. -/
  steps : ∀ backendIndex, call.phase ≠ .outside (.forwarding backendIndex)
  /-- An exception was caught while it had a backend. -/
  failed : ∀ index, call.phase = .outside (.failed (some index)) → call.Failed index
  /-- The backend is to be marked. -/
  marks : ∀ index, call.phase = .outside (.releasing (some index) true) → call.Failed index

theorem Call.Failed.append {call : Call} {index : ℕ} (h : call.Failed index) (phase : Phase)
    (entry : Phase × Bool) : Call.Failed ⟨phase, call.history ++ [entry]⟩ index := by
  obtain ⟨peer, hpeer, hmem⟩ := h
  exact ⟨peer, hpeer, List.mem_append_left _ hmem⟩

theorem failed_last {phase next : Phase} {index : ℕ} (history : List (Phase × Bool))
    (h : phase.peer = some index) : Call.Failed ⟨next, history ++ [(phase, true)]⟩ index :=
  ⟨phase, h, List.mem_append_right _ (List.mem_singleton.mpr (Eq.refl _))⟩

/-- A thread that goes on to no exception and no release blames nobody. -/
theorem blames_of_phase {phase : Phase} {history : List (Phase × Bool)}
    (hsteps : ∀ backendIndex, phase ≠ .outside (.forwarding backendIndex) := by
      intro _ hphase
      cases hphase)
    (hfailed : ∀ index, phase ≠ .outside (.failed (some index)) := by
      intro _ hphase
      cases hphase)
    (hmarks : ∀ index, phase ≠ .outside (.releasing (some index) true) := by
      intro _ hphase
      cases hphase) :
    Blames ⟨phase, history⟩ where
  steps := hsteps
  failed index hphase := absurd hphase (hfailed index)
  marks index hphase := absurd hphase (hmarks index)

/-- A thread whose backend has failed blames it. -/
theorem blames_of_failed {history : List (Phase × Bool)} {backendIndex : ℕ}
    (h : Call.Failed ⟨.outside (.failed (some backendIndex)), history⟩ backendIndex) :
    Blames ⟨.outside (.failed (some backendIndex)), history⟩ where
  steps _ hphase := by cases hphase
  failed index hphase := by
    cases hphase
    exact h
  marks _ hphase := by cases hphase

variable {T : Type} [LinearOrder T]

/-- A step outside of forwarding blames nobody else. -/
theorem Blames.outside {phase : GatewayAccounting.Phase} {history : List (Phase × Bool)}
    (h : Blames ⟨.outside phase, history⟩) (maxQueue : ℤ) (event : Event T)
    (shared : GatewayAccounting.Shared T) (entry : Phase × Bool) :
    Blames ⟨(processClient maxQueue event shared (.outside phase)).1, history ++ [entry]⟩ := by
  unfold processClient
  simp only
  cases phase with
  | entered => exact blames_of_phase
  | counted activeNow =>
    simp only [GatewayAccounting.processClient]
    split
    · exact blames_of_phase
    · exact blames_of_phase
  | refused =>
    simp only [GatewayAccounting.processClient]
    cases event.fails with
    | true => exact blames_of_phase
    | false => exact blames_of_phase
  | reading =>
    simp only [GatewayAccounting.processClient]
    cases event.fails with
    | true => exact blames_of_phase
    | false => exact blames_of_phase
  | selecting =>
    simp only [GatewayAccounting.processClient]
    split
    · exact blames_of_phase
    · exact blames_of_phase
  | unavailable => exact blames_of_phase
  | busy =>
    simp only [GatewayAccounting.processClient]
    cases event.fails with
    | true => exact blames_of_phase
    | false => exact blames_of_phase
  | forwarding backendIndex => exact absurd (Eq.refl _) (h.steps backendIndex)
  | failed backendIndex =>
    constructor
    · intro _ hphase
      cases hphase
    · intro _ hphase
      cases hphase
    · intro index hphase
      cases hphase
      exact (h.failed index (Eq.refl _)).append _ entry
  | releasing backendIndex backendFailed => exact blames_of_phase
  | finishing => exact blames_of_phase
  | returned => exact blames_of_phase
  | escaped => exact blames_of_phase

/-- A step in which a response is delivered blames only a backend that has failed. -/
theorem Blames.step {call : Call} (h : Blames call) (maxQueue : ℤ) (event : Event T)
    (shared : GatewayAccounting.Shared T)
    (hdelivered : call.phase.isDelivering = true → event.fails = false) :
    Blames ⟨(processClient maxQueue event shared call.phase).1,
      call.history ++ [(call.phase, event.fails)]⟩ := by
  obtain ⟨phase, history⟩ := call
  cases phase with
  | outside phase => exact h.outside maxQueue event shared _
  | connecting backendIndex =>
    cases hfails : event.fails with
    | true =>
      simp only [processClient, hfails, if_true]
      exact blames_of_failed (failed_last history (Eq.refl _))
    | false =>
      simp only [processClient, hfails]
      exact blames_of_phase
  | sending backendIndex =>
    cases hfails : event.fails with
    | true =>
      simp only [processClient, hfails, if_true]
      exact blames_of_failed (failed_last history (Eq.refl _))
    | false =>
      simp only [processClient, hfails]
      exact blames_of_phase
  | receiving backendIndex =>
    cases hfails : event.fails with
    | true =>
      simp only [processClient, hfails, if_true]
      exact blames_of_failed (failed_last history (Eq.refl _))
    | false =>
      cases hclosed : event.closed with
      | true =>
        simp only [processClient, hfails, hclosed]
        exact blames_of_phase
      | false =>
        simp only [processClient, hfails, hclosed]
        exact blames_of_phase
  | delivering backendIndex =>
    have hfine := hdelivered (Eq.refl _)
    simp only [processClient, hfine]
    exact blames_of_phase

end Blame

section Runs

variable {T : Type} [LinearOrder T]

/-- A step keeps that threads blame only what has failed. -/
theorem Step.blames {maxQueue : ℤ} {s s' : State T} (h : Step maxQueue true s s')
    (hblames : ∀ call ∈ s.calls, Blames call) : ∀ call ∈ s'.calls, Blames call := by
  cases h with
  | accept hruns =>
    intro call hcall
    cases List.mem_append.mp hcall with
    | inl hold => exact hblames call hold
    | inr hnew =>
      rw [List.mem_singleton.mp hnew]
      exact blames_of_phase
  | run hruns hget hgoing event hdelivered =>
    intro call hcall
    cases List.mem_or_eq_of_mem_set hcall with
    | inl hold => exact hblames call hold
    | inr hnew =>
      rw [hnew]
      exact (hblames _ (List.mem_of_getElem? hget)).step maxQueue event _ (hdelivered (Eq.refl _))

theorem blames_of_run {maxQueue : ℤ} {start s : State T} (hstart : start.calls = [])
    (hrun : Relation.ReflTransGen (Step maxQueue true) start s) : ∀ call ∈ s.calls, Blames call := by
  induction hrun with
  | refl =>
    intro call hcall
    rw [hstart] at hcall
    cases hcall
  | tail _ hstep ih => exact hstep.blames ih

/-- A step marks a backend only for a thread that releases it after a connect, a write or a read of this backend
has failed. -/
def MarksFailed (s s' : State T) : Prop :=
  ∀ index, unhealthyUntil s' index ≠ unhealthyUntil s index →
    ∃ call ∈ s.calls, call.phase = .outside (.releasing (some index) true) ∧ call.Failed index

/-- In every run in which the responses are delivered, each step marks only backends that have failed. -/
theorem marksFailed_of_run {maxQueue : ℤ} {start s s' : State T} (hstart : start.calls = [])
    (hrun : Relation.ReflTransGen (Step maxQueue true) start s) (hstep : Step maxQueue true s s') :
    MarksFailed s s' := by
  intro index hmarked
  cases hstep with
  | accept hruns => exact absurd (Eq.refl _) hmarked
  | run hruns hget hgoing event hdelivered =>
    have hphase := processClient_unhealthyUntil maxQueue event s.shared _ index hmarked
    have hmem := List.mem_of_getElem? hget
    exact ⟨_, hmem, hphase, (blames_of_run hstart hrun _ hmem).marks index hphase⟩

/-- A gateway with a single thread. -/
structure Alone (T : Type) where
  /-- What it has. -/
  shared : GatewayAccounting.Shared T
  /-- The thread. -/
  call : Call

/-- The gateway of a single thread. -/
def Alone.state (alone : Alone T) : State T := ⟨alone.shared, [alone.call]⟩

/-- The thread takes a step. -/
def Alone.next (maxQueue : ℤ) (alone : Alone T) (event : Event T) : Alone T :=
  ⟨(processClient maxQueue event alone.shared alone.call.phase).2,
    ⟨(processClient maxQueue event alone.shared alone.call.phase).1,
      alone.call.history ++ [(alone.call.phase, event.fails)]⟩⟩

/-- The thread can take a step. Where responses are delivered, no write of them fails. -/
def Alone.goes (delivered : Bool) (alone : Alone T) (event : Event T) : Bool :=
  !alone.call.phase.whole.ended && !(delivered && alone.call.phase.isDelivering && event.fails)

theorem Alone.step {alone : Alone T} {delivered : Bool} {event : Event T} (maxQueue : ℤ)
    (hgoes : alone.goes delivered event = true) :
    Step maxQueue delivered alone.state (alone.next maxQueue event).state := by
  have hget : alone.state.calls[0]? = some alone.call := Eq.refl _
  unfold Alone.goes at hgoes
  simp only [Bool.and_eq_true, Bool.not_eq_true', Bool.and_eq_false_iff] at hgoes
  have hruns : ∀ call ∈ alone.state.calls, call.phase ≠ .outside .escaped := by
    intro call hcall hescaped
    rw [List.mem_singleton.mp hcall] at hescaped
    have hended := hgoes.1
    rw [hescaped] at hended
    cases hended
  refine Step.run hruns hget hgoes.1 event fun hdelivered hphase => ?_
  simpa [hdelivered, hphase] using hgoes.2

/-- The thread can take steps, one after the other. -/
def Alone.follows (maxQueue : ℤ) (delivered : Bool) (alone : Alone T) : List (Event T) → Bool
  | [] => true
  | event :: events => alone.goes delivered event && (alone.next maxQueue event).follows maxQueue delivered events

theorem Alone.run {maxQueue : ℤ} {delivered : Bool} {start : State T} {events : List (Event T)}
    {alone : Alone T} (hrun : Relation.ReflTransGen (Step maxQueue delivered) start alone.state)
    (hfollows : alone.follows maxQueue delivered events = true) :
    Relation.ReflTransGen (Step maxQueue delivered) start
      (events.foldl (Alone.next maxQueue) alone).state := by
  induction events generalizing alone with
  | nil => exact hrun
  | cons event events ih =>
    have hsplit := Bool.and_eq_true_iff.mp hfollows
    exact ih (hrun.tail (Alone.step maxQueue hsplit.1)) hsplit.2

/-- A gateway with one backend. -/
def opened : State ℕ := ⟨⟨⟨1, GatewayBackends.one_limit, [⟨0, 0⟩], 0⟩, 0⟩, []⟩

/-- A connection has been accepted. -/
def accepted : Alone ℕ := ⟨opened.shared, ⟨.outside .entered, []⟩⟩

theorem accepted_run (delivered : Bool) :
    Relation.ReflTransGen (Step 1 delivered) opened accepted.state :=
  Relation.ReflTransGen.single (Step.accept (by decide))

/-- A step whose reads and writes succeed. -/
def fine : Event ℕ := ⟨⟨5, 6, false⟩, false⟩

/-- A step whose read or write fails. -/
def broken : Event ℕ := ⟨⟨5, 6, true⟩, false⟩

/-- The backend cannot be reached. -/
def unreachable : Alone ℕ := (List.replicate 4 fine ++ [broken, fine]).foldl (Alone.next 1) accepted

/-- A part of the response has arrived, and the client has closed the connection. -/
def hungUp : Alone ℕ := (List.replicate 7 fine ++ [broken, fine]).foldl (Alone.next 1) accepted

theorem marksFailed_of_run_unreachable :
    unhealthyUntil unreachable.state 0 = some 0 ∧ unhealthyUntil (unreachable.next 1 fine).state 0 = some 6 ∧
      MarksFailed unreachable.state (unreachable.next 1 fine).state :=
  ⟨by decide, by decide,
    marksFailed_of_run (by decide) (Alone.run (accepted_run true) (by decide)) (Alone.step 1 (by decide))⟩

/-- The backend has answered and is marked, because the client has closed the connection. -/
theorem not_marksFailed : Relation.ReflTransGen (Step 1 false) opened hungUp.state ∧
    Step 1 false hungUp.state (hungUp.next 1 fine).state ∧
    unhealthyUntil hungUp.state 0 = some 0 ∧ unhealthyUntil (hungUp.next 1 fine).state 0 = some 6 ∧
    ¬MarksFailed hungUp.state (hungUp.next 1 fine).state := by
  have hrun : Relation.ReflTransGen (Step 1 false) opened hungUp.state :=
    Alone.run (accepted_run false) (by decide)
  refine ⟨hrun, Alone.step 1 (by decide), by decide, by decide, fun hmarks => ?_⟩
  obtain ⟨call, hcall, _, phase, hpeer, hfailed⟩ := hmarks 0 (by decide)
  rw [List.mem_singleton.mp hcall] at hfailed
  have hhistory : ∀ entry ∈ hungUp.call.history, entry.2 = true → entry.1.peer = none := by decide
  have hnone : phase.peer = none := hhistory _ hfailed (Eq.refl _)
  rw [hpeer] at hnone
  cases hnone

end Runs

end LayerSkip.GatewayHealth
