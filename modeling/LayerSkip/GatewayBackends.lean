import Mathlib.Algebra.BigOperators.Group.List.Basic
import Mathlib.Algebra.Order.Ring.Int
import Mathlib.Algebra.Ring.Nat
import Mathlib.Logic.Relation
import Mathlib.Order.Lattice
import Mathlib.Tactic.Common

/-!
# Backends of the gateway

A request takes the backend with the fewest requests in flight, among those that are healthy and below the
limit, and the first of them from the cursor on. It is counted until it is released.
-/

namespace LayerSkip.GatewayBackends

/-- A backend. -/
structure BackendTarget (T : Type) where
  /-- Requests that it has been given. -/
  inflight : ℤ
  /-- It is not used before. -/
  unhealthyUntil : T
  deriving DecidableEq, Repr

/-- The largest `int`. -/
def intMax : ℤ := 2147483647

/-- The backends, their limit and the cursor. -/
structure Gateway (T : Type) where
  /-- Most requests of a backend. -/
  maxInflightPerBackend : ℤ
  /-- The limit has been checked. -/
  limit : 1 ≤ maxInflightPerBackend ∧ maxInflightPerBackend ≤ intMax
  /-- The backends. -/
  backends : List (BackendTarget T)
  /-- Where the next selection begins. -/
  rrCursor : ℕ

/-- The best backend so far. -/
structure Selection where
  /-- Its index, if there is one. -/
  selected : Option ℕ
  /-- Its requests. -/
  minInflight : ℤ

namespace Gateway

variable {T : Type} [LinearOrder T]

/-- Index of a backend that is so many behind the cursor. -/
def idx (g : Gateway T) (i : ℕ) : ℕ := (g.rrCursor + i) % g.backends.length

/-- Look at a backend. -/
def look (g : Gateway T) (now : T) (best : Selection) (i : ℕ) : Selection :=
  match g.backends[g.idx i]? with
  | some backend =>
    if now < backend.unhealthyUntil then best
    else if g.maxInflightPerBackend ≤ backend.inflight then best
    else if backend.inflight < best.minInflight then ⟨some (g.idx i), backend.inflight⟩
    else best
  | none => best

/-- Look at so many backends from the cursor on. -/
def scan (g : Gateway T) (now : T) (n : ℕ) : Selection :=
  (List.range n).foldl (g.look now) ⟨none, intMax⟩

/-- Select a backend and count the request. -/
def selectBackendAndAcquire (g : Gateway T) (now : T) : Option ℕ × Gateway T :=
  match (g.scan now g.backends.length).selected with
  | some selected =>
    (some selected, { g with
      backends := g.backends.modify selected fun backend =>
        { backend with inflight := backend.inflight + 1 }
      rrCursor := (selected + 1) % g.backends.length })
  | none => (none, g)

/-- Release a backend, which may not be used until a time if it has failed. -/
def releaseBackend (g : Gateway T) (backendIndex : Option ℕ) (markUnhealthy : Bool) (retry : T) :
    Gateway T :=
  match backendIndex with
  | none => g
  | some backendIndex =>
    { g with
      backends := g.backends.modify backendIndex fun backend =>
        { inflight := if 0 < backend.inflight then backend.inflight - 1 else backend.inflight
          unhealthyUntil := if markUnhealthy then retry else backend.unhealthyUntil } }

end Gateway

section Select

variable {T : Type} [LinearOrder T] {g : Gateway T} {now : T}

/-- A backend that can take a request. -/
structure Eligible (g : Gateway T) (now : T) (idx : ℕ) (backend : BackendTarget T) : Prop where
  /-- The backend. -/
  get : g.backends[idx]? = some backend
  /-- It has not been marked, or the time is over. -/
  healthy : backend.unhealthyUntil ≤ now
  /-- It has fewer requests than the limit. -/
  below : backend.inflight < g.maxInflightPerBackend

/-- The first of the backends with the fewest requests, among the first so many from the cursor on. -/
structure IsFirstLeast (g : Gateway T) (now : T) (n i : ℕ) (backend : BackendTarget T) : Prop where
  /-- It is one of them. -/
  lt : i < n
  /-- It can take a request. -/
  eligible : Eligible g now (g.idx i) backend
  /-- None has fewer requests. -/
  least : ∀ j < n, ∀ other, Eligible g now (g.idx j) other → backend.inflight ≤ other.inflight
  /-- Those before it have more. -/
  first : ∀ j < i, ∀ other, Eligible g now (g.idx j) other → backend.inflight < other.inflight

/-- A backend that cannot take a request, or has no fewer than the best, is passed over. -/
theorem look_cases (g : Gateway T) (now : T) (best : Selection) (i : ℕ) :
    (g.look now best i = best ∧
      ∀ backend, Eligible g now (g.idx i) backend → best.minInflight ≤ backend.inflight) ∨
    ∃ backend, Eligible g now (g.idx i) backend ∧ backend.inflight < best.minInflight ∧
      g.look now best i = ⟨some (g.idx i), backend.inflight⟩ := by
  unfold Gateway.look
  cases hget : g.backends[g.idx i]? with
  | none =>
    left
    refine ⟨Eq.refl _, fun backend h => ?_⟩
    have hsome := h.get
    rw [hget] at hsome
    cases hsome
  | some backend =>
    simp only
    have hsame : ∀ other, Eligible g now (g.idx i) other → other = backend := by
      intro other h
      have hsome := h.get
      rw [hget] at hsome
      exact (Option.some.inj hsome).symm
    split
    · rename_i hunhealthy
      left
      refine ⟨Eq.refl _, fun other h => ?_⟩
      have hhealthy := h.healthy
      rw [hsame other h] at hhealthy
      exact absurd hunhealthy (not_lt_of_ge hhealthy)
    · rename_i hhealthy
      split
      · rename_i hfull
        left
        refine ⟨Eq.refl _, fun other h => ?_⟩
        have hbelow := h.below
        rw [hsame other h] at hbelow
        omega
      · rename_i hroom
        split
        · rename_i hfewer
          right
          exact ⟨backend, ⟨hget, le_of_not_gt hhealthy, by omega⟩, hfewer, Eq.refl _⟩
        · rename_i hmore
          left
          refine ⟨Eq.refl _, fun other h => ?_⟩
          rw [hsame other h]
          omega

/-- What a scan of so many backends selects. -/
theorem scan_cases (g : Gateway T) (now : T) (n : ℕ) :
    (g.scan now n = ⟨none, intMax⟩ ∧ ∀ j < n, ∀ other, ¬Eligible g now (g.idx j) other) ∨
    ∃ i backend, IsFirstLeast g now n i backend ∧
      g.scan now n = ⟨some (g.idx i), backend.inflight⟩ := by
  induction n with
  | zero =>
    left
    refine ⟨Eq.refl _, fun j hj => ?_⟩
    omega
  | succ n ih =>
    have hscan : g.scan now (n + 1) = g.look now (g.scan now n) n := by
      unfold Gateway.scan
      rw [List.range_succ, List.foldl_append]
      exact Eq.refl _
    have hlimit := g.limit.2
    rw [hscan]
    cases ih with
    | inl hnone =>
      obtain ⟨hbest, hall⟩ := hnone
      rw [hbest]
      cases look_cases g now ⟨none, intMax⟩ n with
      | inl hpassed =>
        left
        refine ⟨hpassed.1, fun j hj other h => ?_⟩
        by_cases hlast : j = n
        · rw [hlast] at h
          have hle := hpassed.2 other h
          have hbelow := h.below
          simp only at hle
          omega
        · exact hall j (by omega) other h
      | inr htaken =>
        right
        obtain ⟨backend, heligible, _, hlook⟩ := htaken
        refine ⟨n, backend, ⟨Nat.lt_succ_self n, heligible, fun j hj other h => ?_, fun j hj other h => ?_⟩,
          hlook⟩
        · by_cases hlast : j = n
          · rw [hlast] at h
            have hsame := heligible.get.symm.trans h.get
            rw [Option.some.inj hsame]
          · exact absurd h (hall j (by omega) other)
        · exact absurd h (hall j hj other)
    | inr hsome =>
      obtain ⟨i, best, hfirst, hbest⟩ := hsome
      rw [hbest]
      right
      have hi := hfirst.lt
      cases look_cases g now ⟨some (g.idx i), best.inflight⟩ n with
      | inl hpassed =>
        refine ⟨i, best, ⟨by omega, hfirst.eligible, fun j hj other h => ?_, hfirst.first⟩, hpassed.1⟩
        by_cases hlast : j = n
        · rw [hlast] at h
          exact hpassed.2 other h
        · exact hfirst.least j (by omega) other h
      | inr htaken =>
        obtain ⟨backend, heligible, hfewer, hlook⟩ := htaken
        simp only at hfewer
        refine ⟨n, backend, ⟨Nat.lt_succ_self n, heligible, fun j hj other h => ?_, fun j hj other h => ?_⟩,
          hlook⟩
        · by_cases hlast : j = n
          · rw [hlast] at h
            have hsame := heligible.get.symm.trans h.get
            rw [Option.some.inj hsame]
          · have hle := hfirst.least j (by omega) other h
            omega
        · have hle := hfirst.least j hj other h
          omega

omit [LinearOrder T] in
/-- Every backend is reached from the cursor. -/
theorem exists_idx (g : Gateway T) {index : ℕ} (h : index < g.backends.length) :
    ∃ j < g.backends.length, g.idx j = index := by
  have hpos : 0 < g.backends.length := by omega
  have hcursor := Nat.mod_lt g.rrCursor hpos
  refine ⟨(index + (g.backends.length - g.rrCursor % g.backends.length)) % g.backends.length,
    Nat.mod_lt _ hpos, ?_⟩
  unfold Gateway.idx
  have hsum : g.rrCursor % g.backends.length +
      (index + (g.backends.length - g.rrCursor % g.backends.length)) = index + g.backends.length := by
    omega
  rw [Nat.add_mod_mod, ← Nat.mod_add_mod, hsum, Nat.add_mod_right, Nat.mod_eq_of_lt h]

/-- A backend that a selection may take. -/
structure Chosen (g : Gateway T) (now : T) (selected : ℕ) (backend : BackendTarget T) : Prop where
  /-- It can take a request. -/
  eligible : Eligible g now selected backend
  /-- No backend that can has fewer requests. -/
  least : ∀ index other, Eligible g now index other → backend.inflight ≤ other.inflight
  /-- It is the first of these from the cursor on. -/
  first : ∃ i < g.backends.length, g.idx i = selected ∧
    ∀ j < i, ∀ other, Eligible g now (g.idx j) other → backend.inflight < other.inflight

theorem Eligible.exists_idx {index : ℕ} {backend : BackendTarget T} (h : Eligible g now index backend) :
    ∃ j < g.backends.length, g.idx j = index :=
  GatewayBackends.exists_idx g (List.getElem?_eq_some_iff.mp h.get).1

/-- What is selected, and what is left. -/
theorem select_cases (g : Gateway T) (now : T) :
    (g.selectBackendAndAcquire now = (none, g) ∧ ∀ index backend, ¬Eligible g now index backend) ∨
    ∃ selected backend, Chosen g now selected backend ∧ g.selectBackendAndAcquire now =
      (some selected, { g with
        backends := g.backends.modify selected fun backend =>
          { backend with inflight := backend.inflight + 1 }
        rrCursor := (selected + 1) % g.backends.length }) := by
  unfold Gateway.selectBackendAndAcquire
  cases scan_cases g now g.backends.length with
  | inl hnone =>
    left
    rw [hnone.1]
    refine ⟨Eq.refl _, fun index backend h => ?_⟩
    obtain ⟨j, hj, hindex⟩ := h.exists_idx
    rw [← hindex] at h
    exact hnone.2 j hj backend h
  | inr hsome =>
    right
    obtain ⟨i, backend, hfirst, hscan⟩ := hsome
    rw [hscan]
    refine ⟨g.idx i, backend, ⟨hfirst.eligible, fun index other h => ?_, ?_⟩, Eq.refl _⟩
    · obtain ⟨j, hj, hindex⟩ := h.exists_idx
      rw [← hindex] at h
      exact hfirst.least j hj other h
    · exact ⟨i, hfirst.lt, Eq.refl _, hfirst.first⟩

end Select

section Runs

variable {T : Type}

/-- Requests in flight of all backends. -/
def total (backends : List (BackendTarget T)) : ℤ := (backends.map BackendTarget.inflight).sum

/-- The gateway, and the backend of each request that holds one. -/
structure State (T : Type) where
  /-- Guarded by the mutex. -/
  gateway : Gateway T
  /-- Requests that have acquired and not released yet. -/
  holders : List ℕ

/-- Before the first request. -/
structure State.Initial (s : State T) : Prop where
  /-- No backend has been given one. -/
  inflight : ∀ backend ∈ s.gateway.backends, backend.inflight = 0
  /-- None is held. -/
  holders : s.holders = []

/-- A request selects a backend, or releases the one that it holds. -/
inductive Step [LinearOrder T] : State T → State T → Prop
  /-- A backend is selected. -/
  | acquire {s : State T} {g : Gateway T} {selected : ℕ} (now : T)
      (h : s.gateway.selectBackendAndAcquire now = (some selected, g)) :
      Step s ⟨g, selected :: s.holders⟩
  /-- None is. -/
  | refuse {s : State T} {g : Gateway T} (now : T)
      (h : s.gateway.selectBackendAndAcquire now = (none, g)) : Step s ⟨g, s.holders⟩
  /-- A backend is released. -/
  | release {s : State T} {index : ℕ} (hholds : index ∈ s.holders) (markUnhealthy : Bool) (retry : T) :
      Step s ⟨s.gateway.releaseBackend (some index) markUnhealthy retry, s.holders.erase index⟩

/-- Every backend counts its holders. -/
structure Counted (s : State T) : Prop where
  /-- It has as many requests as it is held by. -/
  count : ∀ (index : ℕ) (backend : BackendTarget T), s.gateway.backends[index]? = some backend →
    backend.inflight = (s.holders.count index : ℤ)
  /-- They are within the limit. -/
  limit : ∀ (index : ℕ) (backend : BackendTarget T), s.gateway.backends[index]? = some backend →
    backend.inflight ≤ s.gateway.maxInflightPerBackend
  /-- What is held is a backend. -/
  holds : ∀ index ∈ s.holders, index < s.gateway.backends.length
  /-- All requests are held by. -/
  sum : total s.gateway.backends = (s.holders.length : ℤ)

theorem getElem?_modify_backends {backends : List (BackendTarget T)} {index other : ℕ}
    {f : BackendTarget T → BackendTarget T} {backend : BackendTarget T}
    (h : (backends.modify index f)[other]? = some backend) :
    (index = other ∧ ∃ old, backends[other]? = some old ∧ backend = f old) ∨
      index ≠ other ∧ backends[other]? = some backend := by
  rw [List.getElem?_modify] at h
  cases hget : backends[other]? with
  | none =>
    rw [hget] at h
    cases h
  | some old =>
    rw [hget] at h
    simp only [Option.map_eq_map, Option.map_some, Option.some.injEq] at h
    split at h
    · rename_i hsame
      exact Or.inl ⟨hsame, old, Eq.refl _, h.symm⟩
    · rename_i hother
      rw [h]
      exact Or.inr ⟨hother, Eq.refl _⟩

/-- One more request, or one less. -/
theorem total_modify {backends : List (BackendTarget T)} {index : ℕ} {backend : BackendTarget T}
    (h : backends[index]? = some backend) {f : BackendTarget T → BackendTarget T} {k : ℤ}
    (hf : (f backend).inflight = backend.inflight + k) :
    total (backends.modify index f) = total backends + k := by
  induction backends generalizing index with
  | nil => simp at h
  | cons first backends ih =>
    unfold total at ih ⊢
    cases index with
    | zero =>
      simp only [List.getElem?_cons_zero, Option.some.injEq] at h
      rw [List.modify_zero_cons, List.map_cons, List.sum_cons, List.map_cons, List.sum_cons, h, hf]
      omega
    | succ index =>
      rw [List.getElem?_cons_succ] at h
      rw [List.modify_succ_cons, List.map_cons, List.sum_cons, List.map_cons, List.sum_cons, ih h]
      omega

/-- Nothing has been acquired before the first request. -/
theorem State.Initial.counted {s : State T} (h : s.Initial) : Counted s where
  count index backend hget := by
    rw [h.inflight backend (List.mem_of_getElem? hget), h.holders]
    simp
  limit index backend hget := by
    have hlimit := s.gateway.limit.1
    rw [h.inflight backend (List.mem_of_getElem? hget)]
    omega
  holds index hindex := by
    rw [h.holders] at hindex
    cases hindex
  sum := by
    rw [h.holders]
    unfold total
    have hall : s.gateway.backends.map BackendTarget.inflight =
        List.replicate s.gateway.backends.length 0 := by
      rw [List.eq_replicate_iff]
      constructor
      · exact List.length_map _
      · intro inflight hinflight
        have hmem := List.mem_map.mp hinflight
        obtain ⟨backend, hbackend, heq⟩ := hmem
        rw [← heq]
        exact h.inflight backend hbackend
    rw [hall]
    simp

/-- A backend with room is acquired. -/
theorem Counted.acquire [LinearOrder T] {s : State T} (h : Counted s) {g : Gateway T} {now : T}
    {selected : ℕ} (hselect : s.gateway.selectBackendAndAcquire now = (some selected, g)) :
    Counted ⟨g, selected :: s.holders⟩ := by
  cases select_cases s.gateway now with
  | inl hnone =>
    rw [hnone.1] at hselect
    cases hselect
  | inr hsome =>
    obtain ⟨index, backend, hchosen, heq⟩ := hsome
    rw [heq] at hselect
    cases hselect
    have hget := hchosen.eligible.get
    have hroom := hchosen.eligible.below
    constructor
    · intro other target htarget
      have hcase := getElem?_modify_backends htarget
      cases hcase with
      | inl hsame =>
        obtain ⟨hindex, old, hold, hnew⟩ := hsame
        have hcount := h.count other old hold
        rw [hnew, hindex, List.count_cons_self]
        simp only [Nat.cast_add, Nat.cast_one]
        omega
      | inr hother =>
        have hcount := h.count other target hother.2
        rw [List.count_cons_of_ne hother.1]
        exact hcount
    · intro other target htarget
      have hcase := getElem?_modify_backends htarget
      cases hcase with
      | inl hsame =>
        obtain ⟨hindex, old, hold, hnew⟩ := hsame
        rw [← hindex, hget] at hold
        cases hold
        rw [hnew]
        simp only
        omega
      | inr hother => exact h.limit other target hother.2
    · intro other hother
      simp only [List.length_modify]
      cases List.mem_cons.mp hother with
      | inl hselected =>
        rw [hselected]
        exact (List.getElem?_eq_some_iff.mp hget).1
      | inr hheld => exact h.holds other hheld
    · have hsum := total_modify (k := 1) hget
        (f := fun backend : BackendTarget T => { backend with inflight := backend.inflight + 1 }) rfl
      simp only [List.length_cons, Nat.cast_add, Nat.cast_one]
      rw [hsum, h.sum]

/-- A backend that is held is released. -/
theorem Counted.release {s : State T} (h : Counted s) {index : ℕ} (hholds : index ∈ s.holders)
    (markUnhealthy : Bool) (retry : T) :
    Counted ⟨s.gateway.releaseBackend (some index) markUnhealthy retry, s.holders.erase index⟩ := by
  have hpos := List.count_pos_iff.mpr hholds
  have hlt := h.holds index hholds
  have hget := List.getElem?_eq_getElem hlt
  have hcount := h.count index _ hget
  constructor
  · intro other target htarget
    have hcase := getElem?_modify_backends htarget
    cases hcase with
    | inl hsame =>
      obtain ⟨hindex, old, hold, hnew⟩ := hsame
      rw [← hindex, hget] at hold
      cases hold
      rw [hnew, ← hindex, List.count_erase_self]
      simp only
      split <;> omega
    | inr hother =>
      have hcountOther := h.count other target hother.2
      rw [List.count_erase_of_ne hother.1.symm]
      exact hcountOther
  · intro other target htarget
    have hcase := getElem?_modify_backends htarget
    cases hcase with
    | inl hsame =>
      obtain ⟨hindex, old, hold, hnew⟩ := hsame
      have hlimit := h.limit other old hold
      rw [hnew]
      unfold Gateway.releaseBackend
      simp only
      split <;> omega
    | inr hother => exact h.limit other target hother.2
  · intro other hother
    unfold Gateway.releaseBackend
    simp only [List.length_modify]
    exact h.holds other (List.mem_of_mem_erase hother)
  · have hone : (if 0 < s.gateway.backends[index].inflight then s.gateway.backends[index].inflight - 1
        else s.gateway.backends[index].inflight) = s.gateway.backends[index].inflight + -1 := by
      split <;> omega
    have hsum := total_modify (k := -1) hget
      (f := fun backend : BackendTarget T =>
        { inflight := if 0 < backend.inflight then backend.inflight - 1 else backend.inflight
          unhealthyUntil := if markUnhealthy then retry else backend.unhealthyUntil }) hone
    have hlength := List.length_pos_of_mem hholds
    unfold Gateway.releaseBackend
    simp only
    rw [hsum, h.sum, List.length_erase_of_mem hholds]
    omega

/-- A step keeps the counts. -/
theorem Step.counted [LinearOrder T] {s s' : State T} (h : Step s s') (hcounted : Counted s) :
    Counted s' := by
  cases h with
  | acquire now hselect => exact hcounted.acquire hselect
  | refuse now hselect =>
    cases select_cases s.gateway now with
    | inl hnone =>
      rw [hnone.1] at hselect
      cases hselect
      exact hcounted
    | inr hsome =>
      obtain ⟨index, backend, hchosen, heq⟩ := hsome
      rw [heq] at hselect
      cases hselect
  | release hholds markUnhealthy retry => exact hcounted.release hholds markUnhealthy retry

/-- Requests that run in any order keep the counts. -/
theorem counted_of_run [LinearOrder T] {start s : State T} (hstart : start.Initial)
    (hrun : Relation.ReflTransGen Step start s) : Counted s := by
  induction hrun with
  | refl => exact hstart.counted
  | tail _ hstep ih => exact hstep.counted ih

/-- In every run each backend has between none and the limit, together as many as are held, and a selection
takes the first of the backends with the fewest that can take one, or there is none. -/
theorem backends_of_run [LinearOrder T] {start s : State T} (hstart : start.Initial)
    (hrun : Relation.ReflTransGen Step start s) :
    (∀ (index : ℕ) (backend : BackendTarget T), s.gateway.backends[index]? = some backend →
      0 ≤ backend.inflight ∧ backend.inflight ≤ s.gateway.maxInflightPerBackend) ∧
    total s.gateway.backends = (s.holders.length : ℤ) ∧
    ∀ now : T,
      (∀ selected : ℕ, (s.gateway.selectBackendAndAcquire now).1 = some selected →
        ∃ backend, Chosen s.gateway now selected backend) ∧
      ((s.gateway.selectBackendAndAcquire now).1 = none →
        ∀ index backend, ¬Eligible s.gateway now index backend) := by
  have hcounted := counted_of_run hstart hrun
  constructor
  · intro index backend hget
    have hcount := hcounted.count index backend hget
    have hlimit := hcounted.limit index backend hget
    constructor
    · omega
    · exact hlimit
  · constructor
    · exact hcounted.sum
    · intro now
      cases select_cases s.gateway now with
      | inl hnone =>
        rw [hnone.1]
        constructor
        · intro selected hselected
          cases hselected
        · intro _
          exact hnone.2
      | inr hsome =>
        obtain ⟨index, backend, hchosen, heq⟩ := hsome
        rw [heq]
        constructor
        · intro selected hselected
          cases hselected
          exact ⟨backend, hchosen⟩
        · intro hselected
          cases hselected

/-- The smallest limit is one. -/
theorem one_limit : (1 : ℤ) ≤ 1 ∧ (1 : ℤ) ≤ intMax := by
  decide

/-- Two backends that may have one request each, of which the second has failed. -/
def idle : State ℕ := ⟨⟨1, one_limit, [⟨0, 0⟩, ⟨0, 9⟩], 1⟩, []⟩

theorem idle_initial : idle.Initial := ⟨by decide, rfl⟩

/-- A request has taken the first. -/
def taken : State ℕ := ⟨(idle.gateway.selectBackendAndAcquire 5).2, [0]⟩

theorem backends_of_run_taken :
    (∀ (index : ℕ) (backend : BackendTarget ℕ), taken.gateway.backends[index]? = some backend →
      0 ≤ backend.inflight ∧ backend.inflight ≤ taken.gateway.maxInflightPerBackend) ∧
    total taken.gateway.backends = (taken.holders.length : ℤ) ∧
    ∀ now : ℕ,
      (∀ selected : ℕ, (taken.gateway.selectBackendAndAcquire now).1 = some selected →
        ∃ backend, Chosen taken.gateway now selected backend) ∧
      ((taken.gateway.selectBackendAndAcquire now).1 = none →
        ∀ index backend, ¬Eligible taken.gateway now index backend) :=
  backends_of_run idle_initial (Relation.ReflTransGen.single (Step.acquire 5 (by rfl)))

end Runs

end LayerSkip.GatewayBackends
