import Mathlib.Data.List.Basic
import Mathlib.Logic.Function.Basic
import Mathlib.Data.Nat.Notation
import Mathlib.Tactic.Common

/-!
# Parties that work in rounds over first-in first-out links

In every round a party decides on a list of messages and then writes them one
by one. What is on a link or still to be written is what the rounds of the
sender hold for the receiver, less what the receiver has taken. The receiver
counts whole rounds, and messages of the round it is in.
-/

namespace LayerSkip.RoundFlow

variable {M : Type*}

/-- Messages for one party. -/
def toParty (j : ℕ) (sent : List (ℕ × M)) : List M :=
  (sent.filter fun x => x.1 = j).map Prod.snd

@[simp] theorem toParty_nil (j : ℕ) : toParty j ([] : List (ℕ × M)) = [] := rfl

@[simp] theorem toParty_cons_self (j : ℕ) (m : M) (sent : List (ℕ × M)) :
    toParty j ((j, m) :: sent) = m :: toParty j sent := by
  simp [toParty]

theorem toParty_cons_ne {i j : ℕ} (h : i ≠ j) (m : M) (sent : List (ℕ × M)) :
    toParty j ((i, m) :: sent) = toParty j sent := by
  simp [toParty, h]

theorem toParty_append (j : ℕ) (sent later : List (ℕ × M)) :
    toParty j (sent ++ later) = toParty j sent ++ toParty j later := by
  simp [toParty]

/-- Messages for one party from a round on. -/
def stream (rounds : List (List (ℕ × M))) (j start : ℕ) : List M :=
  (rounds.drop start).flatMap (toParty j)

/-- Messages for one party in one round, none when the round is still to come. -/
def roundTo (rounds : List (List (ℕ × M))) (j k : ℕ) : List M := toParty j (rounds.getD k [])

theorem stream_of_le {rounds : List (List (ℕ × M))} {j start : ℕ} (h : rounds.length ≤ start) :
    stream rounds j start = [] := by
  rw [stream, List.drop_of_length_le h, List.flatMap_nil]

theorem stream_succ (rounds : List (List (ℕ × M))) (j start : ℕ) :
    stream rounds j start = roundTo rounds j start ++ stream rounds j (start + 1) := by
  rcases Nat.lt_or_ge start rounds.length with hlt | hge
  · have hget : rounds.getD start [] = rounds[start] := by
      rw [List.getD_eq_getElem?_getD, List.getElem?_eq_getElem hlt, Option.getD_some]
    rw [stream, List.drop_eq_getElem_cons hlt, List.flatMap_cons, roundTo, hget]
    rfl
  · have hget : rounds.getD start [] = [] := by
      rw [List.getD_eq_getElem?_getD, List.getElem?_eq_none hge, Option.getD_none]
    have hnext : rounds.length ≤ start + 1 := by omega
    rw [stream_of_le hge, stream_of_le hnext, roundTo, hget]
    rfl

theorem stream_append {rounds : List (List (ℕ × M))} {j start : ℕ} (h : start ≤ rounds.length)
    (sent : List (ℕ × M)) :
    stream (rounds ++ [sent]) j start = stream rounds j start ++ toParty j sent := by
  rw [stream, List.drop_append_of_le_length h, List.flatMap_append]
  simp [stream]

/-- A round without messages for a party does not show in its stream. -/
theorem stream_append_nil {rounds : List (List (ℕ × M))} {j : ℕ} {sent : List (ℕ × M)}
    (h : toParty j sent = []) (start : ℕ) :
    stream (rounds ++ [sent]) j start = stream rounds j start := by
  rcases Nat.lt_or_ge rounds.length start with hlt | hge
  · have hlong : (rounds ++ [sent]).length ≤ start := by
      rw [List.length_append, List.length_singleton]
      omega
    rw [stream_of_le hlong, stream_of_le (Nat.le_of_lt hlt)]
  · rw [stream_append hge, h, List.append_nil]

/-- Links, messages still to be written and the rounds decided so far. -/
structure Flow (M : Type*) where
  /-- What is on the link from one party to another. -/
  links : ℕ → ℕ → List M
  /-- What a party still has to write, with the receivers. -/
  pending : ℕ → List (ℕ × M)
  /-- Everything a party has decided to send, round by round. -/
  rounds : ℕ → List (List (ℕ × M))

/-- Replace what is on one link. -/
def setLink (links : ℕ → ℕ → List M) (i j : ℕ) (ms : List M) : ℕ → ℕ → List M :=
  fun a b => if a = i ∧ b = j then ms else links a b

theorem setLink_self (links : ℕ → ℕ → List M) (i j : ℕ) (ms : List M) :
    setLink links i j ms i j = ms := if_pos ⟨rfl, rfl⟩

theorem setLink_ne {links : ℕ → ℕ → List M} {i j a b : ℕ} (h : ¬(a = i ∧ b = j)) (ms : List M) :
    setLink links i j ms a b = links a b := if_neg h

namespace Flow

/-- A party decides on the messages of its next round. -/
def begin (f : Flow M) (i : ℕ) (sent : List (ℕ × M)) : Flow M :=
  { f with
    pending := Function.update f.pending i sent
    rounds := Function.update f.rounds i (f.rounds i ++ [sent]) }

/-- A party writes its next message. -/
def deliver (f : Flow M) (i j : ℕ) (m : M) (rest : List (ℕ × M)) : Flow M :=
  { f with
    links := setLink f.links i j (f.links i j ++ [m])
    pending := Function.update f.pending i rest }

/-- A party takes the first message of a link. -/
def take (f : Flow M) (i j : ℕ) (rest : List M) : Flow M :=
  { f with links := setLink f.links i j rest }

/-- What has been decided for a party and not been taken. -/
def inflight (f : Flow M) (i j : ℕ) : List M := f.links i j ++ toParty j (f.pending i)

/-- Every link holds what the receiver has not taken: `done` counts its whole
rounds and `taken` the messages by sender in the round it is in. -/
def Balanced (f : Flow M) (done : ℕ → ℕ) (taken : ℕ → ℕ → ℕ) : Prop :=
  ∀ i j, f.inflight i j = (stream (f.rounds i) j (done j)).drop (taken i j)

variable {f : Flow M} {done : ℕ → ℕ} {taken : ℕ → ℕ → ℕ}

theorem inflight_deliver {i j : ℕ} {m : M} {rest : List (ℕ × M)}
    (hp : f.pending i = (j, m) :: rest) (a b : ℕ) :
    (f.deliver i j m rest).inflight a b = f.inflight a b := by
  unfold inflight deliver
  dsimp only
  by_cases ha : a = i
  · rw [ha, Function.update_self, hp]
    by_cases hb : b = j
    · rw [hb, setLink_self, toParty_cons_self, List.append_assoc, List.singleton_append]
    · rw [setLink_ne fun h => hb h.2, toParty_cons_ne (Ne.symm hb)]
  · rw [Function.update_of_ne ha, setLink_ne fun h => ha h.1]

theorem inflight_begin {i : ℕ} (hp : f.pending i = []) (sent : List (ℕ × M)) (a b : ℕ) :
    (f.begin i sent).inflight a b =
      f.inflight a b ++ if a = i then toParty b sent else [] := by
  unfold inflight begin
  dsimp only
  by_cases ha : a = i
  · rw [ha, Function.update_self, hp, if_pos rfl, toParty_nil, List.append_nil]
  · rw [Function.update_of_ne ha, if_neg ha, List.append_nil]

theorem inflight_take {i j : ℕ} {m : M} {rest : List M} (hl : f.links i j = m :: rest) :
    f.inflight i j = m :: (f.take i j rest).inflight i j := by
  unfold inflight take
  dsimp only
  rw [setLink_self, hl, List.cons_append]

theorem inflight_take_ne {i j a b : ℕ} (h : ¬(a = i ∧ b = j)) (rest : List M) :
    (f.take i j rest).inflight a b = f.inflight a b := by
  unfold inflight take
  dsimp only
  rw [setLink_ne h]

theorem Balanced.deliver (h : f.Balanced done taken) {i j : ℕ} {m : M} {rest : List (ℕ × M)}
    (hp : f.pending i = (j, m) :: rest) : (f.deliver i j m rest).Balanced done taken :=
  fun a b => (inflight_deliver hp a b).trans (h a b)

/-- Before a new round the receivers have not counted further than the sender,
as far as the round has messages for them. -/
theorem Balanced.begin (h : f.Balanced done taken) {i : ℕ} (hp : f.pending i = [])
    {sent : List (ℕ × M)}
    (hnew : ∀ j, toParty j sent = [] ∨ (done j ≤ (f.rounds i).length ∧
      taken i j ≤ (stream (f.rounds i) j (done j)).length)) :
    (f.begin i sent).Balanced done taken := by
  intro a b
  rw [inflight_begin hp, h a b]
  by_cases ha : a = i
  · have hrounds : (f.begin i sent).rounds a = f.rounds i ++ [sent] := by
      rw [ha]
      exact Function.update_self _ _ _
    rw [hrounds, if_pos ha, ha]
    rcases hnew b with hnone | ⟨hdone, htaken⟩
    · rw [hnone, stream_append_nil hnone, List.append_nil]
    · rw [stream_append hdone, List.drop_append_of_le_length htaken]
  · have hrounds : (f.begin i sent).rounds a = f.rounds a := Function.update_of_ne ha _ _
    rw [hrounds, if_neg ha, List.append_nil]

/-- One message of the current round is taken. -/
theorem Balanced.take (h : f.Balanced done taken) {i j : ℕ} {m : M} {rest : List M}
    (hl : f.links i j = m :: rest) :
    (f.take i j rest).Balanced done
      (fun a b => if a = i ∧ b = j then taken i j + 1 else taken a b) := by
  intro a b
  dsimp only
  by_cases hab : a = i ∧ b = j
  · have hone := inflight_take hl
    rw [h i j] at hone
    rw [if_pos hab, hab.1, hab.2, ← List.tail_drop]
    change _ = (List.drop (taken i j) (stream (f.rounds i) j (done j))).tail
    rw [hone, List.tail_cons]
  · rw [if_neg hab, inflight_take_ne hab]
    exact h a b

/-- A party that has taken every message of its round counts the round. -/
theorem Balanced.finishRound (h : f.Balanced done taken) {j : ℕ}
    (hall : ∀ i, taken i j = (roundTo (f.rounds i) j (done j)).length) :
    f.Balanced (Function.update done j (done j + 1)) (fun a b => if b = j then 0 else taken a b) := by
  intro a b
  dsimp only
  by_cases hb : b = j
  · rw [if_pos hb, hb, Function.update_self, List.drop_zero, h a j, hall a,
      stream_succ (f.rounds a) j (done j), List.drop_left]
  · rw [if_neg hb, Function.update_of_ne hb]
    exact h a b

theorem Balanced.congr (h : f.Balanced done taken) {done' : ℕ → ℕ} {taken' : ℕ → ℕ → ℕ}
    (hdone : ∀ j, done j = done' j) (htaken : ∀ i j, taken i j = taken' i j) :
    f.Balanced done' taken' := by
  intro i j
  rw [h i j, hdone j, htaken i j]

/-- The first message on a link is the next of the sender's stream. -/
theorem Balanced.head (h : f.Balanced done taken) {i j : ℕ} {m : M} {rest : List M}
    (hl : f.links i j = m :: rest) :
    (stream (f.rounds i) j (done j))[taken i j]? = some m := by
  have hone := h i j
  rw [inflight_take hl] at hone
  rw [← List.head?_drop, ← hone, List.head?_cons]

end Flow

end LayerSkip.RoundFlow
