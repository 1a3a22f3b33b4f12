import LayerSkip.GatewayBackends

/-!
# Requests that the gateway counts

Every connection has a thread of its own, which counts itself when it begins and when it ends, and holds a
backend in between. The counts are right in every run in which each refusal can be written. A refusal that cannot
be written ends the gateway, or is subtracted twice.
-/

namespace LayerSkip.GatewayAccounting

open GatewayBackends

/-- Where a thread is in `processClient`. -/
inductive Phase where
  /-- Before it counts itself. -/
  | entered
  /-- So many were counted. -/
  | counted (activeNow : ℤ)
  /-- The queue is full: it is not counted any more and writes the refusal. -/
  | refused
  /-- It reads the request. -/
  | reading
  /-- It selects a backend. -/
  | selecting
  /-- No backend was selected. -/
  | unavailable
  /-- All backends are busy: it is not counted any more and writes the refusal. -/
  | busy
  /-- It connects to the backend, writes the request and copies the response. -/
  | forwarding (backendIndex : ℕ)
  /-- An exception was caught, and it tries to write the error. -/
  | failed (backendIndex : Option ℕ)
  /-- Before it releases the backend. -/
  | releasing (backendIndex : Option ℕ) (backendFailed : Bool)
  /-- Before it is not counted any more. -/
  | finishing
  /-- It has returned. -/
  | returned
  /-- An exception has left the thread. -/
  | escaped
  deriving DecidableEq, Repr

namespace Phase

/-- There is nothing left to do. -/
def ended : Phase → Bool
  | returned => true
  | escaped => true
  | _ => false

/-- A refusal is written. -/
def refusing : Phase → Bool
  | refused => true
  | busy => true
  | _ => false

/-- Steps that are left at most. -/
def rank : Phase → ℕ
  | entered => 9
  | counted _ => 8
  | reading => 7
  | selecting => 6
  | unavailable => 5
  | busy => 4
  | forwarding _ => 4
  | failed _ => 3
  | releasing _ _ => 2
  | finishing => 1
  | refused => 1
  | returned => 0
  | escaped => 0

/-- Times that it has been counted, if all refusals are written. -/
def increments : Phase → ℕ
  | entered => 0
  | _ => 1

/-- Times that it has been subtracted, if all refusals are written. -/
def decrements : Phase → ℕ
  | refused => 1
  | busy => 1
  | returned => 1
  | _ => 0

/-- The backend that it holds. -/
def held : Phase → Option ℕ
  | forwarding backendIndex => some backendIndex
  | failed backendIndex => backendIndex
  | releasing backendIndex _ => backendIndex
  | _ => none

theorem held_selecting : selecting.held = none := Eq.refl _

theorem held_releasing (backendIndex : Option ℕ) (backendFailed : Bool) :
    (releasing backendIndex backendFailed).held = backendIndex := Eq.refl _

end Phase

/-- What a step finds outside of the gateway. -/
structure Event (T : Type) where
  /-- The time. -/
  now : T
  /-- The time at which a failed backend may be used again. -/
  retry : T
  /-- The read or the write of the step fails. -/
  fails : Bool

/-- What the threads share. -/
structure Shared (T : Type) where
  /-- The backends. -/
  gateway : Gateway T
  /-- Threads that are counted. -/
  activeRequests : ℤ

/-- One step of a thread. -/
def processClient {T : Type} [LinearOrder T] (maxQueue : ℤ) (event : Event T) (shared : Shared T) :
    Phase → Phase × Shared T
  | .entered =>
    (.counted (shared.activeRequests + 1), { shared with activeRequests := shared.activeRequests + 1 })
  | .counted activeNow =>
    if maxQueue < activeNow then
      (.refused, { shared with activeRequests := shared.activeRequests - 1 })
    else (.reading, shared)
  | .refused => (if event.fails then .escaped else .returned, shared)
  | .reading => (if event.fails then .failed none else .selecting, shared)
  | .selecting =>
    match shared.gateway.selectBackendAndAcquire event.now with
    | (some backendIndex, gateway) => (.forwarding backendIndex, { shared with gateway := gateway })
    | (none, gateway) => (.unavailable, { shared with gateway := gateway })
  | .unavailable => (.busy, { shared with activeRequests := shared.activeRequests - 1 })
  | .busy => (if event.fails then .failed none else .returned, shared)
  | .forwarding backendIndex =>
    (if event.fails then .failed (some backendIndex) else .releasing (some backendIndex) false, shared)
  | .failed backendIndex => (.releasing backendIndex true, shared)
  | .releasing backendIndex backendFailed =>
    (.finishing,
      { shared with gateway := shared.gateway.releaseBackend backendIndex backendFailed event.retry })
  | .finishing => (.returned, { shared with activeRequests := shared.activeRequests - 1 })
  | .returned => (.returned, shared)
  | .escaped => (.escaped, shared)

/-- A thread, with what it has done. -/
structure Call where
  /-- Where it is. -/
  phase : Phase
  /-- Steps that it has taken. -/
  steps : ℕ
  /-- Times that it has counted itself. -/
  increments : ℕ
  /-- Times that it has subtracted itself. -/
  decrements : ℕ
  /-- Backends that it has acquired. -/
  acquired : List ℕ
  /-- Backends that it has released. -/
  released : List ℕ
  deriving DecidableEq, Repr

namespace Call

/-- A new connection. -/
def accepted : Call := ⟨.entered, 0, 0, 0, [], []⟩

/-- It is between its increment and its decrement. -/
def active (call : Call) : Bool := call.increments == 1 && call.decrements == 0

/-- What is noted of a step. -/
def note {T : Type} (call : Call) (shared : Shared T) (next : Phase × Shared T) : Call where
  phase := next.1
  steps := call.steps + 1
  increments := if shared.activeRequests < next.2.activeRequests then call.increments + 1
    else call.increments
  decrements := if next.2.activeRequests < shared.activeRequests then call.decrements + 1
    else call.decrements
  acquired := match call.phase with
    | .selecting => call.acquired ++ next.1.held.toList
    | _ => call.acquired
  released := match call.phase with
    | .releasing backendIndex _ => call.released ++ backendIndex.toList
    | _ => call.released

end Call

/-- The gateway with all threads that it has had. -/
structure State (T : Type) where
  /-- What they share. -/
  shared : Shared T
  /-- The threads. -/
  calls : List Call

/-- No connection has been accepted yet. -/
structure State.Initial {T : Type} (s : State T) : Prop where
  /-- No backend has been given a request. -/
  inflight : ∀ backend ∈ s.shared.gateway.backends, backend.inflight = 0
  /-- None is counted. -/
  activeRequests : s.shared.activeRequests = 0
  /-- There is no thread. -/
  calls : s.calls = []

/-- A connection is accepted, or a thread takes a step. An exception that leaves a thread ends the gateway. -/
inductive Step {T : Type} [LinearOrder T] (maxQueue : ℤ) (written : Bool) : State T → State T → Prop
  /-- A connection is accepted. -/
  | accept {s : State T} (hruns : ∀ call ∈ s.calls, call.phase ≠ .escaped) :
      Step maxQueue written s { s with calls := s.calls ++ [Call.accepted] }
  /-- A thread takes a step. Where refusals are written, they do not fail. -/
  | run {s : State T} (hruns : ∀ call ∈ s.calls, call.phase ≠ .escaped) {index : ℕ} {call : Call}
      (hget : s.calls[index]? = some call) (hgoing : call.phase.ended = false) (event : Event T)
      (hwritten : written = true → call.phase.refusing = true → event.fails = false) :
      Step maxQueue written s
        ⟨(processClient maxQueue event s.shared call.phase).2,
          s.calls.set index (call.note s.shared (processClient maxQueue event s.shared call.phase))⟩

section Calls

/-- What a thread has done where it is. -/
structure Kept (call : Call) : Prop where
  /-- No exception has left it. -/
  stays : call.phase ≠ .escaped
  /-- It has counted itself. -/
  increments : call.increments = call.phase.increments
  /-- It has subtracted itself. -/
  decrements : call.decrements = call.phase.decrements
  /-- It has released all backends but the one that it holds. -/
  acquired : call.acquired = call.released ++ call.phase.held.toList
  /-- Its steps. -/
  steps : call.steps + call.phase.rank ≤ 9

theorem Kept.accepted : Kept Call.accepted := ⟨by decide, rfl, rfl, rfl, by decide⟩

/-- It is counted once and subtracted once. -/
theorem Kept.returned {call : Call} (h : Kept call) (hphase : call.phase = .returned) :
    call.increments = 1 ∧ call.decrements = 1 ∧ call.acquired = call.released := by
  have hincrements := h.increments
  have hdecrements := h.decrements
  have hacquired := h.acquired
  rw [hphase] at hincrements hdecrements hacquired
  constructor
  · exact hincrements
  · constructor
    · exact hdecrements
    · rw [hacquired]
      exact List.append_nil _

variable {T : Type} [LinearOrder T]

/-- What a step does to the count: it adds one, or takes one, or leaves it. -/
inductive Counts (phase : Phase) (activeRequests : ℤ) (next : Phase) (activeRequests' : ℤ) : Prop
  /-- The thread counts itself. -/
  | adds (hcount : activeRequests' = activeRequests + 1) (hincrements : next.increments = phase.increments + 1)
      (hdecrements : next.decrements = phase.decrements)
  /-- The thread subtracts itself. -/
  | takes (hcount : activeRequests' = activeRequests - 1) (hincrements : next.increments = phase.increments)
      (hdecrements : next.decrements = phase.decrements + 1)
  /-- The count stays. -/
  | leaves (hcount : activeRequests' = activeRequests) (hincrements : next.increments = phase.increments)
      (hdecrements : next.decrements = phase.decrements)

/-- A step goes on, and counts as its place says. -/
theorem processClient_counts (maxQueue : ℤ) (event : Event T) (shared : Shared T) {phase : Phase}
    (hgoing : phase.ended = false) (hwritten : phase.refusing = true → event.fails = false) :
    (processClient maxQueue event shared phase).1 ≠ .escaped ∧
    (processClient maxQueue event shared phase).1.rank < phase.rank ∧
    Counts phase shared.activeRequests (processClient maxQueue event shared phase).1
      (processClient maxQueue event shared phase).2.activeRequests := by
  cases phase with
  | entered => exact ⟨by simp [processClient], by simp [processClient, Phase.rank], .adds rfl rfl rfl⟩
  | counted activeNow =>
    simp only [processClient]
    split
    · exact ⟨by simp, by simp [Phase.rank], .takes rfl rfl rfl⟩
    · exact ⟨by simp, by simp [Phase.rank], .leaves rfl rfl rfl⟩
  | refused =>
    have hwrites := hwritten rfl
    simp only [processClient]
    rw [hwrites]
    exact ⟨by decide, by decide, .leaves rfl rfl rfl⟩
  | reading =>
    simp only [processClient]
    cases event.fails with
    | true => exact ⟨by decide, by decide, .leaves rfl rfl rfl⟩
    | false => exact ⟨by decide, by decide, .leaves rfl rfl rfl⟩
  | selecting =>
    simp only [processClient]
    split
    · exact ⟨by simp, by simp [Phase.rank], .leaves rfl rfl rfl⟩
    · exact ⟨by simp, by simp [Phase.rank], .leaves rfl rfl rfl⟩
  | unavailable => exact ⟨by simp [processClient], by simp [processClient, Phase.rank], .takes rfl rfl rfl⟩
  | busy =>
    have hwrites := hwritten rfl
    simp only [processClient]
    rw [hwrites]
    exact ⟨by decide, by decide, .leaves rfl rfl rfl⟩
  | forwarding backendIndex =>
    simp only [processClient]
    cases event.fails with
    | true => exact ⟨by simp, by simp [Phase.rank], .leaves rfl rfl rfl⟩
    | false => exact ⟨by simp, by simp [Phase.rank], .leaves rfl rfl rfl⟩
  | failed backendIndex => exact ⟨by simp [processClient], by simp [processClient, Phase.rank], .leaves rfl rfl rfl⟩
  | releasing backendIndex backendFailed => exact ⟨by simp [processClient], by simp [processClient, Phase.rank], .leaves rfl rfl rfl⟩
  | finishing => exact ⟨by simp [processClient], by simp [processClient, Phase.rank], .takes rfl rfl rfl⟩
  | returned => cases hgoing
  | escaped => cases hgoing

/-- What a step does to the backends: it acquires one, or releases the one that it holds, or leaves them. -/
inductive Moves (phase : Phase) (gateway : Gateway T) (next : Phase) (gateway' : Gateway T) : Prop
  /-- A backend is acquired. -/
  | acquires (backendIndex : ℕ) (now : T) (hphase : phase = .selecting)
      (hnext : next.held = some backendIndex)
      (hselect : gateway.selectBackendAndAcquire now = (some backendIndex, gateway'))
  /-- The backend is released. -/
  | releases (backendIndex : ℕ) (backendFailed : Bool) (retry : T)
      (hphase : phase = .releasing (some backendIndex) backendFailed) (hnext : next.held = none)
      (hgateway : gateway' = gateway.releaseBackend (some backendIndex) backendFailed retry)
  /-- Nothing is acquired or released. -/
  | leaves (hheld : next.held = phase.held) (hgateway : gateway' = gateway)

/-- A step acquires a backend, or releases it, or leaves it. -/
theorem processClient_moves (maxQueue : ℤ) (event : Event T) (shared : Shared T) (phase : Phase) :
    Moves phase shared.gateway (processClient maxQueue event shared phase).1
      (processClient maxQueue event shared phase).2.gateway := by
  cases phase with
  | entered => exact .leaves rfl rfl
  | counted activeNow =>
    simp only [processClient]
    split
    · exact .leaves rfl rfl
    · exact .leaves rfl rfl
  | refused =>
    simp only [processClient]
    cases event.fails with
    | true => exact .leaves rfl rfl
    | false => exact .leaves rfl rfl
  | reading =>
    simp only [processClient]
    cases event.fails with
    | true => exact .leaves rfl rfl
    | false => exact .leaves rfl rfl
  | selecting =>
    simp only [processClient]
    split
    · rename_i backendIndex gateway hselect
      exact .acquires backendIndex event.now rfl rfl hselect
    · rename_i gateway hselect
      cases select_cases shared.gateway event.now with
      | inl hnone =>
        rw [hnone.1] at hselect
        cases hselect
        exact .leaves rfl rfl
      | inr hsome =>
        obtain ⟨selected, backend, hchosen, heq⟩ := hsome
        rw [heq] at hselect
        cases hselect
  | unavailable => exact .leaves rfl rfl
  | busy =>
    simp only [processClient]
    cases event.fails with
    | true => exact .leaves rfl rfl
    | false => exact .leaves rfl rfl
  | forwarding backendIndex =>
    simp only [processClient]
    cases event.fails with
    | true => exact .leaves rfl rfl
    | false => exact .leaves rfl rfl
  | failed backendIndex => exact .leaves rfl rfl
  | releasing backendIndex backendFailed =>
    cases backendIndex with
    | none => exact .leaves rfl rfl
    | some backendIndex => exact .releases backendIndex backendFailed event.retry rfl rfl rfl
  | finishing => exact .leaves rfl rfl
  | returned => exact .leaves rfl rfl
  | escaped => exact .leaves rfl rfl

/-- A step is noted. -/
theorem Kept.note {call : Call} (h : Kept call) {maxQueue : ℤ} {event : Event T} {shared : Shared T}
    (hgoing : call.phase.ended = false)
    (hwritten : call.phase.refusing = true → event.fails = false) :
    Kept (call.note shared (processClient maxQueue event shared call.phase)) := by
  have hcounts := processClient_counts maxQueue event shared hgoing hwritten
  obtain ⟨hstays, hrank, hchange⟩ := hcounts
  have hmoves := processClient_moves maxQueue event shared call.phase
  have hincrements := h.increments
  have hdecrements := h.decrements
  have hsteps := h.steps
  have hacquired := h.acquired
  constructor
  · exact hstays
  · unfold Call.note
    simp only
    cases hchange with
    | adds hcount hinc hdec =>
      rw [if_pos (by omega), hinc, hincrements]
    | takes hcount hinc hdec =>
      rw [if_neg (by omega), hinc, hincrements]
    | leaves hcount hinc hdec =>
      rw [if_neg (by omega), hinc, hincrements]
  · unfold Call.note
    simp only
    cases hchange with
    | adds hcount hinc hdec =>
      rw [if_neg (by omega), hdec, hdecrements]
    | takes hcount hinc hdec =>
      rw [if_pos (by omega), hdec, hdecrements]
    | leaves hcount hinc hdec =>
      rw [if_neg (by omega), hdec, hdecrements]
  · unfold Call.note
    simp only
    cases hmoves with
    | acquires backendIndex now hphase hnext hselect =>
      rw [hphase] at hacquired hnext
      simp only [hphase, hnext, hacquired]
      simp [Phase.held]
    | releases backendIndex backendFailed retry hphase hnext hgateway =>
      rw [hphase] at hacquired hnext
      simp only [hphase, hnext, hacquired]
      simp [Phase.held]
    | leaves hheld hgateway =>
      rw [hheld]
      cases hphase : call.phase with
      | selecting =>
        rw [hphase] at hacquired
        simp only [hacquired, Phase.held, Option.toList_none, List.append_nil]
      | releasing backendIndex backendFailed =>
        rw [hphase] at hacquired hheld
        have hnone : backendIndex = none := hheld.symm
        simp only [hacquired, hnone, Phase.held, Option.toList_none, List.append_nil]
      | _ =>
        rw [hphase] at hacquired
        exact hacquired
  · unfold Call.note
    simp only
    omega

/-- A thread is counted from its increment to its decrement. -/
theorem Kept.active {call : Call} (h : Kept call) :
    (if call.active then 1 else 0) + call.phase.decrements = call.phase.increments := by
  unfold Call.active
  rw [h.increments, h.decrements]
  cases call.phase with
  | _ => rfl

end Calls

section Runs

/-- A value of a list is replaced. -/
theorem countP_set_add {values : List Call} {index : ℕ} {old : Call} (h : values[index]? = some old)
    (new : Call) (p : Call → Bool) :
    (values.set index new).countP p + (if p old then 1 else 0) =
      values.countP p + (if p new then 1 else 0) := by
  have hsome := List.getElem?_eq_some_iff.mp h
  obtain ⟨hlt, hold⟩ := hsome
  have hset := List.countP_set (p := p) (a := new) hlt
  rw [hold] at hset
  rw [hset]
  by_cases hp : p old = true
  · have hpos : 0 < values.countP p := List.countP_pos_iff.mpr ⟨old, List.mem_of_getElem? h, hp⟩
    rw [if_pos hp]
    omega
  · rw [if_neg hp]
    omega

variable {T : Type} [LinearOrder T]

/-- The threads count themselves and hold their backends. -/
structure Keeps (s : State T) : Prop where
  /-- Every thread does. -/
  kept : ∀ call ∈ s.calls, Kept call
  /-- The count is that of the threads that are counted. -/
  activeRequests : s.shared.activeRequests = (s.calls.countP Call.active : ℤ)
  /-- The backends are those that the threads hold. -/
  holders : ∃ holders, Counted ⟨s.shared.gateway, holders⟩ ∧
    ∀ index, holders.count index = s.calls.countP fun call => call.phase.held == some index

omit [LinearOrder T] in
/-- No thread has begun. -/
theorem State.Initial.keeps {s : State T} (h : s.Initial) : Keeps s where
  kept call hcall := by
    rw [h.calls] at hcall
    cases hcall
  activeRequests := by
    rw [h.activeRequests, h.calls]
    simp
  holders := by
    have hinitial : GatewayBackends.State.Initial ⟨s.shared.gateway, []⟩ := ⟨h.inflight, rfl⟩
    refine ⟨[], hinitial.counted, fun index => ?_⟩
    rw [h.calls]
    simp

omit [LinearOrder T] in
/-- A new thread is not counted and holds nothing. -/
theorem Keeps.accept {s : State T} (h : Keeps s) : Keeps { s with calls := s.calls ++ [Call.accepted] } where
  kept call hcall := by
    cases List.mem_append.mp hcall with
    | inl hold => exact h.kept call hold
    | inr hnew =>
      rw [List.mem_singleton.mp hnew]
      exact Kept.accepted
  activeRequests := by
    simp only [List.countP_append, List.countP_singleton]
    rw [h.activeRequests]
    simp [Call.active, Call.accepted]
  holders := by
    obtain ⟨holders, hcounted, hcount⟩ := h.holders
    refine ⟨holders, hcounted, fun index => ?_⟩
    simp only [List.countP_append, List.countP_singleton]
    rw [hcount index]
    simp [Call.accepted, Phase.held]

/-- The count follows a thread. -/
theorem Keeps.run_activeRequests {s : State T} (h : Keeps s) {maxQueue : ℤ} {index : ℕ} {call : Call}
    (hget : s.calls[index]? = some call) (hgoing : call.phase.ended = false) {event : Event T}
    (hwritten : call.phase.refusing = true → event.fails = false) :
    (processClient maxQueue event s.shared call.phase).2.activeRequests =
      ((s.calls.set index (call.note s.shared
        (processClient maxQueue event s.shared call.phase))).countP Call.active : ℤ) := by
  have hkept := h.kept call (List.mem_of_getElem? hget)
  have hnext : Kept (call.note s.shared (processClient maxQueue event s.shared call.phase)) :=
    hkept.note hgoing hwritten
  have hset := countP_set_add hget
    (call.note s.shared (processClient maxQueue event s.shared call.phase)) Call.active
  have hcount := h.activeRequests
  have hbefore := hkept.active
  have hafter := hnext.active
  have hchange := (processClient_counts maxQueue event s.shared hgoing hwritten).2.2
  have hphase : (call.note s.shared (processClient maxQueue event s.shared call.phase)).phase =
    (processClient maxQueue event s.shared call.phase).1 := Eq.refl _
  rw [hphase] at hafter
  cases hchange with
  | adds hchanged hincrements hdecrements => omega
  | takes hchanged hincrements hdecrements => omega
  | leaves hchanged hincrements hdecrements => omega

/-- The backends follow a thread. -/
theorem Keeps.run_holders {s : State T} (h : Keeps s) {maxQueue : ℤ} {index : ℕ} {call : Call}
    (hget : s.calls[index]? = some call) (event : Event T) :
    ∃ holders, Counted ⟨(processClient maxQueue event s.shared call.phase).2.gateway, holders⟩ ∧
      ∀ backendIndex, holders.count backendIndex =
        (s.calls.set index (call.note s.shared
          (processClient maxQueue event s.shared call.phase))).countP
            fun call => call.phase.held == some backendIndex := by
  obtain ⟨holders, hcounted, hcount⟩ := h.holders
  have hset := fun backendIndex => countP_set_add hget
    (call.note s.shared (processClient maxQueue event s.shared call.phase))
    fun call => call.phase.held == some backendIndex
  have hphase : (call.note s.shared (processClient maxQueue event s.shared call.phase)).phase =
    (processClient maxQueue event s.shared call.phase).1 := Eq.refl _
  simp only [hphase] at hset
  cases processClient_moves maxQueue event s.shared call.phase with
  | acquires selected now hselecting hnext hselect =>
    refine ⟨selected :: holders, hcounted.acquire hselect, fun backendIndex => ?_⟩
    have hbackend := hset backendIndex
    have hnone : call.phase.held = none := by rw [hselecting, Phase.held_selecting]
    rw [hnext, hnone] at hbackend
    rw [List.count_cons, hcount backendIndex]
    simp only [Option.none_beq_some, Bool.false_eq_true, if_false, Nat.add_zero,
      Option.some_beq_some] at hbackend
    exact hbackend.symm
  | releases selected backendFailed retry hreleasing hnext hgateway =>
    have hsome : call.phase.held = some selected := by rw [hreleasing, Phase.held_releasing]
    have hheld : 0 < holders.count selected := by
      rw [hcount selected]
      refine List.countP_pos_iff.mpr ⟨call, List.mem_of_getElem? hget, ?_⟩
      rw [hsome]
      exact beq_self_eq_true _
    rw [hgateway]
    refine ⟨holders.erase selected,
      hcounted.release (List.count_pos_iff.mp hheld) backendFailed retry, fun backendIndex => ?_⟩
    have hbackend := hset backendIndex
    rw [hnext, hsome, Option.some_beq_some] at hbackend
    rw [List.count_erase, hcount backendIndex]
    simp only [Option.none_beq_some, Bool.false_eq_true, if_false, Nat.add_zero] at hbackend
    omega
  | leaves hheld hgateway =>
    rw [hgateway]
    refine ⟨holders, hcounted, fun backendIndex => ?_⟩
    have hbackend := hset backendIndex
    rw [hheld] at hbackend
    rw [hcount backendIndex]
    omega

/-- A step keeps the counts. -/
theorem Step.keeps {maxQueue : ℤ} {s s' : State T} (h : Step maxQueue true s s') (hkeeps : Keeps s) :
    Keeps s' := by
  cases h with
  | accept hruns => exact hkeeps.accept
  | run hruns hget hgoing event hwritten =>
    rename_i index call
    constructor
    · intro other hother
      cases List.mem_or_eq_of_mem_set hother with
      | inl hold => exact hkeeps.kept other hold
      | inr hnew =>
        rw [hnew]
        exact (hkeeps.kept call (List.mem_of_getElem? hget)).note hgoing (hwritten rfl)
    · exact hkeeps.run_activeRequests hget hgoing (hwritten rfl)
    · exact hkeeps.run_holders hget event

/-- Threads that run in any order keep the counts. -/
theorem keeps_of_run {maxQueue : ℤ} {start s : State T} (hstart : start.Initial)
    (hrun : Relation.ReflTransGen (Step maxQueue true) start s) : Keeps s := by
  induction hrun with
  | refl => exact hstart.keeps
  | tail _ hstep ih => exact hstep.keeps ih

/-- All requests are accounted for. -/
structure Accounted (s : State T) : Prop where
  /-- No exception leaves a thread. -/
  stays : ∀ call ∈ s.calls, call.phase ≠ .escaped
  /-- A thread has returned when it has taken nine steps. -/
  returns : ∀ call ∈ s.calls, call.steps < 9 ∨ call.phase = .returned
  /-- A thread that has returned has counted itself once and subtracted itself once. -/
  cancels : ∀ call ∈ s.calls, call.phase = .returned → call.increments = 1 ∧ call.decrements = 1
  /-- The count is that of the threads between the two. -/
  counts : s.shared.activeRequests = (s.calls.countP Call.active : ℤ)
  /-- A thread releases only what it has acquired, and all of it when it has returned. -/
  releases : ∀ call ∈ s.calls, call.released <+: call.acquired ∧
    (call.phase = .returned → call.released = call.acquired)
  /-- A backend counts the times that it was acquired and not released. -/
  inflight : ∀ (index : ℕ) (backend : BackendTarget T), s.shared.gateway.backends[index]? = some backend →
    backend.inflight + ((s.calls.flatMap Call.released).count index : ℤ) =
      ((s.calls.flatMap Call.acquired).count index : ℤ)

omit [LinearOrder T] in
/-- What is held has been acquired and not been released. -/
theorem count_acquired {calls : List Call} (h : ∀ call ∈ calls, Kept call) (index : ℕ) :
    (calls.flatMap Call.acquired).count index = (calls.flatMap Call.released).count index +
      calls.countP fun call => call.phase.held == some index := by
  induction calls with
  | nil => rfl
  | cons call calls ih =>
    have hfirst := (h call List.mem_cons_self).acquired
    have hrest := ih fun other hother => h other (List.mem_cons_of_mem call hother)
    have hheld : call.phase.held.toList.count index =
        if (call.phase.held == some index) = true then 1 else 0 := by
      cases call.phase.held with
      | none => rfl
      | some backendIndex =>
        rw [Option.toList_some, List.count_singleton, Option.some_beq_some]
    rw [List.flatMap_cons, List.flatMap_cons, List.count_append, List.count_append, List.countP_cons, hrest,
      hfirst, List.count_append, hheld]
    omega

omit [LinearOrder T] in
/-- Where the threads keep the counts, all requests are accounted for. -/
theorem Keeps.accounted {s : State T} (h : Keeps s) : Accounted s where
  stays call hcall := (h.kept call hcall).stays
  returns call hcall := by
    have hsteps := (h.kept call hcall).steps
    have hstays := (h.kept call hcall).stays
    cases hphase : call.phase with
    | returned => exact Or.inr (Eq.refl _)
    | escaped => exact absurd hphase hstays
    | _ =>
      left
      rw [hphase] at hsteps
      simp only [Phase.rank] at hsteps
      omega
  cancels call hcall hphase := by
    have hreturned := (h.kept call hcall).returned hphase
    exact ⟨hreturned.1, hreturned.2.1⟩
  counts := h.activeRequests
  releases call hcall := by
    constructor
    · rw [(h.kept call hcall).acquired]
      exact List.prefix_append _ _
    · intro hphase
      exact ((h.kept call hcall).returned hphase).2.2.symm
  inflight index backend hget := by
    obtain ⟨holders, hcounted, hcount⟩ := h.holders
    have hbackend := hcounted.count index backend hget
    have hacquired := count_acquired h.kept index
    have hheld := hcount index
    simp only at hbackend
    omega

/-- In every run in which each refusal is written all requests are accounted for. -/
theorem accounted_of_run {maxQueue : ℤ} {start s : State T} (hstart : start.Initial)
    (hrun : Relation.ReflTransGen (Step maxQueue true) start s) : Accounted s :=
  (keeps_of_run hstart hrun).accounted

/-- The thread at an index takes a step. -/
def State.take (s : State T) (maxQueue : ℤ) (index : ℕ) (event : Event T) : Option (State T) :=
  match s.calls[index]? with
  | some call =>
    if (s.calls.all fun call => call.phase != .escaped) = true ∧ call.phase.ended = false then
      some ⟨(processClient maxQueue event s.shared call.phase).2,
        s.calls.set index (call.note s.shared (processClient maxQueue event s.shared call.phase))⟩
    else none
  | none => none

/-- The threads take steps in an order. -/
def State.follow (s : State T) (maxQueue : ℤ) (order : List (ℕ × Event T)) : Option (State T) :=
  order.foldlM (fun s turn => s.take maxQueue turn.1 turn.2) s

theorem State.take_step {s s' : State T} {maxQueue : ℤ} {index : ℕ} {event : Event T}
    (h : s.take maxQueue index event = some s') : Step maxQueue false s s' := by
  unfold State.take at h
  split at h
  · rename_i call hget
    split at h
    · rename_i hready
      cases h
      refine .run (fun other hother => ?_) hget hready.2 event fun hwritten => ?_
      · exact bne_iff_ne.mp (List.all_eq_true.mp hready.1 other hother)
      · cases hwritten
    · cases h
  · cases h

/-- An order of steps is a run. -/
theorem State.follow_run {s s' : State T} {maxQueue : ℤ} {order : List (ℕ × Event T)}
    (h : s.follow maxQueue order = some s') : Relation.ReflTransGen (Step maxQueue false) s s' := by
  induction order generalizing s with
  | nil =>
    cases h
    exact Relation.ReflTransGen.refl
  | cons turn order ih =>
    have hbind := Option.bind_eq_some_iff.mp h
    obtain ⟨middle, hfirst, hrest⟩ := hbind
    exact Relation.ReflTransGen.head (State.take_step hfirst) (ih hrest)

/-- A gateway with one backend that may have one request. -/
def opened : State ℕ := ⟨⟨⟨1, GatewayBackends.one_limit, [⟨0, 0⟩], 0⟩, 0⟩, []⟩

/-- Two connections have been accepted. -/
def connected : State ℕ := { opened with calls := [Call.accepted, Call.accepted] }

theorem opened_initial : opened.Initial := ⟨by decide, rfl, rfl⟩

theorem connected_run (maxQueue : ℤ) (written : Bool) :
    Relation.ReflTransGen (Step maxQueue written) opened connected := by
  have hfirst : Step maxQueue written opened { opened with calls := [Call.accepted] } :=
    Step.accept (by decide)
  have hsecond : Step maxQueue written { opened with calls := [Call.accepted] } connected :=
    Step.accept (by decide)
  exact (Relation.ReflTransGen.single hfirst).tail hsecond

/-- A step whose reads and writes succeed. -/
def fine : Event ℕ := ⟨5, 6, false⟩

/-- A step whose read or write fails. -/
def broken : Event ℕ := ⟨5, 6, true⟩

theorem accounted_of_run_connected : Accounted connected :=
  accounted_of_run opened_initial (connected_run 1 true)

/-- The second of two connections is refused by a full queue and has been closed: the exception leaves its
thread. Or it is refused by a backend that is busy, and is subtracted twice. -/
theorem not_accounted :
    (∃ s, Relation.ReflTransGen (Step 1 false) opened s ∧ (∃ call ∈ s.calls, call.phase = .escaped) ∧
      ¬Accounted s) ∧
    ∃ s, Relation.ReflTransGen (Step 2 false) opened s ∧ s.shared.activeRequests = -1 ∧ ¬Accounted s := by
  constructor
  · have hfollow : ((connected.follow 1 [(0, fine), (1, fine), (1, fine), (1, broken)]).map
        fun s => s.calls.any fun call => call.phase == .escaped) = some true := by decide
    obtain ⟨s, hs, hescaped⟩ := Option.map_eq_some_iff.mp hfollow
    obtain ⟨call, hcall, hphase⟩ := List.any_eq_true.mp hescaped
    have hleft := beq_iff_eq.mp hphase
    refine ⟨s, (connected_run 1 false).trans (State.follow_run hs), ⟨call, hcall, hleft⟩, fun h => ?_⟩
    exact h.stays call hcall hleft
  · have hfollow : ((connected.follow 2 (List.replicate 4 (0, fine) ++ List.replicate 5 (1, fine) ++
        (1, broken) :: List.replicate 3 (1, fine) ++ List.replicate 3 (0, fine))).map
        fun s => s.shared.activeRequests) = some (-1) := by decide
    obtain ⟨s, hs, hactive⟩ := Option.map_eq_some_iff.mp hfollow
    refine ⟨s, (connected_run 2 false).trans (State.follow_run hs), hactive, fun h => ?_⟩
    have hcounts := h.counts
    omega

end Runs

end LayerSkip.GatewayAccounting
