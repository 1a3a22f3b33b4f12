import Mathlib.Data.Nat.Notation
import Mathlib.Logic.Relation
import Mathlib.Tactic.Common

/-!
# Random descent for relations with the one-step diamond

A relation whose two different steps out of a state always meet again after
one more step each has runs of one length only: when one run from a state ends
after `n` steps, every run from it can be continued to that same end, and none
takes more than `n` steps. One complete schedule then decides all of them.
-/

namespace LayerSkip.RandomDescent

variable {S : Type*}

/-- Runs of an exact number of steps. -/
inductive Steps (R : S → S → Prop) : ℕ → S → S → Prop
  | refl (a : S) : Steps R 0 a a
  | head {n : ℕ} {a b c : S} : R a b → Steps R n b c → Steps R (n + 1) a c

/-- No step leaves the state. -/
def Terminal (R : S → S → Prop) (a : S) : Prop := ∀ b, ¬R a b

/-- Two steps from one state agree or meet again after one step each. -/
def Diamond (R : S → S → Prop) : Prop :=
  ∀ a b c, R a b → R a c → b = c ∨ ∃ d, R b d ∧ R c d

variable {R : S → S → Prop}

theorem Steps.single {a b : S} (h : R a b) : Steps R 1 a b := .head h (.refl b)

theorem Steps.trans {m n : ℕ} {a b c : S} (h : Steps R m a b) (k : Steps R n b c) :
    Steps R (m + n) a c := by
  induction h with
  | refl a => simpa using k
  | @head m a b _ hab _ ih =>
    have hs := Steps.head hab (ih k)
    rwa [show m + n + 1 = m + 1 + n by omega] at hs

/-- A run of some number of steps is a path of the reflexive closure. -/
theorem reflTransGen_iff_steps {a b : S} :
    Relation.ReflTransGen R a b ↔ ∃ n, Steps R n a b := by
  constructor
  · intro h
    induction h with
    | refl => exact ⟨0, .refl a⟩
    | tail _ hbc ih =>
      obtain ⟨n, hn⟩ := ih
      exact ⟨n + 1, hn.trans (.single hbc)⟩
  · rintro ⟨n, h⟩
    induction h with
    | refl a => exact .refl
    | head hab _ ih => exact .head hab ih

/-- A family of states each of which reaches the next reaches its last. -/
theorem reach_of_steps (f : ℕ → S) (m : ℕ)
    (h : ∀ k, k < m → Relation.ReflTransGen R (f k) (f (k + 1))) :
    Relation.ReflTransGen R (f 0) (f m) := by
  induction m with
  | zero => exact .refl
  | succ m ih => exact (ih fun k hk => h k (by omega)).trans (h m (by omega))

/-- A first step can be exchanged with any complete run: what is left of the
run after that step is one step shorter and ends in the same state. -/
theorem Steps.exchange (hR : Diamond R) {n : ℕ} {a b f : S} (h : Steps R n a f)
    (hf : Terminal R f) (hab : R a b) : ∃ m, n = m + 1 ∧ Steps R m b f := by
  induction h generalizing b with
  | refl a => exact absurd hab (hf b)
  | @head n a c f hac hcf ih =>
    rcases hR a b c hab hac with rfl | ⟨d, hbd, hcd⟩
    · exact ⟨n, rfl, hcf⟩
    · obtain ⟨m, rfl, hdf⟩ := ih hf hcd
      exact ⟨m + 1, rfl, .head hbd hdf⟩

/-- Random descent: one complete run bounds every run and every run can be
continued to its end. -/
theorem Steps.descent (hR : Diamond R) {n k : ℕ} {a x f : S} (h : Steps R n a f)
    (hf : Terminal R f) (hx : Steps R k a x) : ∃ m, n = k + m ∧ Steps R m x f := by
  induction hx generalizing n with
  | refl a => exact ⟨n, by omega, h⟩
  | head hab _ ih =>
    obtain ⟨m, rfl, hm⟩ := h.exchange hR hf hab
    obtain ⟨j, rfl, hj⟩ := ih hm
    exact ⟨j, by omega, hj⟩

/-- What a complete schedule says about all others: from every reachable state
the end is still reachable, the only reachable state without a step is that
end, and no run is longer than the schedule. -/
structure Outcome (R : S → S → Prop) (a f : S) : Prop where
  /-- The end admits no further step. -/
  terminal : Terminal R f
  /-- Every reachable state can still reach the end. -/
  reaches : ∀ x, Relation.ReflTransGen R a x → Relation.ReflTransGen R x f
  /-- Runs are bounded in length. -/
  bounded : ∃ n, ∀ k x, Steps R k a x → k ≤ n

theorem Outcome.of_steps (hR : Diamond R) {n : ℕ} {a f : S} (h : Steps R n a f)
    (hf : Terminal R f) : Outcome R a f where
  terminal := hf
  reaches x hx := by
    obtain ⟨k, hk⟩ := reflTransGen_iff_steps.mp hx
    obtain ⟨m, -, hm⟩ := h.descent hR hf hk
    exact reflTransGen_iff_steps.mpr ⟨m, hm⟩
  bounded := by
    refine ⟨n, fun k x hk => ?_⟩
    obtain ⟨m, hm, -⟩ := h.descent hR hf hk
    omega

end LayerSkip.RandomDescent
