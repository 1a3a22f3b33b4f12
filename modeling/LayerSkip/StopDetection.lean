import Mathlib.Data.Int.Notation
import Mathlib.Data.List.Induction
import Mathlib.Data.Nat.Notation
import Mathlib.Tactic.ByContra

/-!
# Stop detection

The text since the last reset is compared with every stop at every offset in the left padding: it may have
reached the stop, with at most the right padding behind it, or it may end within it. The first offset of the
first stop that either holds for decides.
-/

namespace LayerSkip.StopDetection

/-- What is returned for a token. -/
inductive EosDetectorType where
  /-- The text may still become a stop. -/
  | maybeEos
  /-- The text has ended. -/
  | eos
  /-- The text is no stop. -/
  | notEos
  deriving DecidableEq, Repr

/-- The detector, and the text up to the buffer's position. -/
structure EosDetector where
  /-- Tokens behind a text. -/
  tokens : List ℤ
  /-- The stops. -/
  pieces : List (List UInt8)
  /-- Bytes before a stop. -/
  paddingLeft : ℕ
  /-- Bytes behind it. -/
  paddingRight : ℕ
  /-- Bytes since the last reset. -/
  buffer : List UInt8
  /-- Where the text has ended. -/
  eosPos : ℤ
  deriving DecidableEq, Repr

/-- A signed length is compared as a size, so that a negative one is more than any other. -/
def Exceeds (n : ℤ) (size : ℕ) : Prop := n < 0 ∨ (size : ℤ) < n

instance (n : ℤ) (size : ℕ) : Decidable (Exceeds n size) :=
  inferInstanceAs (Decidable (n < 0 ∨ (size : ℤ) < n))

namespace EosDetector

/-- Forget the text. -/
def reset (d : EosDetector) : EosDetector := { d with buffer := [] }

/-- Bytes that are compared at an offset. -/
def compared (d : EosDetector) (piece : List UInt8) (lo : ℕ) : ℕ :=
  if piece.length < d.buffer.length - lo then piece.length else d.buffer.length - lo

/-- Compare the text with a stop at an offset. -/
def look (d : EosDetector) (piece : List UInt8) (lo : ℕ) : Option EosDetectorType :=
  if (d.buffer.length - lo : ℤ) = 0 ∨
      Exceeds (d.buffer.length - lo : ℤ) (piece.length + d.paddingRight) then none
  else if (d.buffer.drop lo).take (d.compared piece lo) = piece.take (d.compared piece lo) then
    if d.compared piece lo = piece.length then some .eos else some .maybeEos
  else none

/-- Compare the text with a stop at all offsets. -/
def lookAll (d : EosDetector) (piece : List UInt8) : Option (EosDetectorType × ℕ) :=
  if piece.length + d.paddingLeft + d.paddingRight < d.buffer.length then none
  else (List.range (d.paddingLeft + 1)).findSome? fun lo =>
    (d.look piece lo).map fun type => (type, lo)

/-- Compare the text with all stops. -/
def detect (d : EosDetector) : Option (EosDetectorType × ℕ) := d.pieces.findSome? d.lookAll

/-- Copy a piece into the buffer. -/
def store (d : EosDetector) (piece : Option (List UInt8)) : EosDetector :=
  { d with buffer := d.buffer ++ piece.getD [] }

/-- Append a token's piece. -/
def append (d : EosDetector) (tokenId : ℤ) (piece : Option (List UInt8)) : EosDetectorType × EosDetector :=
  if tokenId ∈ d.tokens then
    (.eos, { d.store piece with eosPos := (d.store piece).buffer.length })
  else
    match (d.store piece).detect with
    | some (.eos, lo) =>
      (.eos, { d.store piece with buffer := (d.store piece).buffer.set lo 0, eosPos := lo })
    | some (type, _) => (type, { d.store piece with eosPos := -1 })
    | none => (.notEos, { d.store piece with eosPos := -1 })

/-- The text that may be shown, up to its terminator. -/
def getDelta (d : EosDetector) : Option (List UInt8) :=
  if d.buffer.length = 0 then none
  else if d.eosPos = -1 then some (d.buffer.takeWhile fun c => c ≠ 0)
  else if d.eosPos = 0 then none
  else some (d.buffer.takeWhile fun c => c ≠ 0)

/-- Append tokens and their pieces one after the other. -/
def appendAll (d : EosDetector) (calls : List (ℤ × Option (List UInt8))) : EosDetector :=
  calls.foldl (fun d call => (d.append call.1 call.2).2) d

end EosDetector

section Text

/-- The text is a stop, within the paddings. -/
def EosDetector.Stops (d : EosDetector) (piece text : List UInt8) : Prop :=
  ∃ left right, text = left ++ piece ++ right ∧ left.length ≤ d.paddingLeft ∧
    right.length ≤ d.paddingRight

/-- The text can be continued to a stop within the paddings. -/
def EosDetector.Extends (d : EosDetector) (piece text : List UInt8) : Prop :=
  ∃ left right more, text ++ more = left ++ piece ++ right ∧ left.length ≤ d.paddingLeft ∧
    right.length ≤ d.paddingRight

/-- The same where the text is more than padding. -/
def EosDetector.Begins (d : EosDetector) (piece text : List UInt8) : Prop :=
  ∃ left right more, text ++ more = left ++ piece ++ right ∧ left.length ≤ d.paddingLeft ∧
    right.length ≤ d.paddingRight ∧ left.length < text.length

variable {d : EosDetector} {piece text : List UInt8}

theorem EosDetector.Stops.begins (h : d.Stops piece text) (hne : piece ≠ []) : d.Begins piece text := by
  obtain ⟨left, right, heq, hleft, hright⟩ := h
  have hpos := List.length_pos_iff.mpr hne
  refine ⟨left, right, [], by rw [List.append_nil, heq], hleft, hright, ?_⟩
  rw [heq]
  simp only [List.length_append]
  omega

end Text

section Look

variable {d : EosDetector} {piece : List UInt8} {lo : ℕ}

/-- Bytes of the buffer behind an offset. -/
theorem take_drop_eq {buffer left right more : List UInt8} {k : ℕ}
    (h : buffer ++ more = left ++ piece ++ right) (hpiece : k ≤ piece.length)
    (hbuffer : k + left.length ≤ buffer.length) :
    (buffer.drop left.length).take k = piece.take k := by
  have hdrop := congrArg (List.drop left.length) h
  rw [List.append_assoc, List.drop_left, List.drop_append_of_le_length (by omega)] at hdrop
  have htake := congrArg (List.take k) hdrop
  rw [List.take_append_of_le_length (by rw [List.length_drop]; omega),
    List.take_append_of_le_length hpiece] at htake
  exact htake

theorem compared_le (d : EosDetector) (piece : List UInt8) (lo : ℕ) :
    d.compared piece lo ≤ piece.length ∧ d.compared piece lo ≤ d.buffer.length - lo := by
  unfold EosDetector.compared
  split <;> omega

/-- What is found at an offset. -/
theorem look_cases (d : EosDetector) (piece : List UInt8) (lo : ℕ) :
    (d.look piece lo = none ∧ ∀ left right more, d.buffer ++ more = left ++ piece ++ right →
      left.length = lo → right.length ≤ d.paddingRight → d.buffer.length ≤ lo) ∨
    (∃ left right, d.look piece lo = some .eos ∧ d.buffer = left ++ piece ++ right ∧
      left.length = lo ∧ right.length ≤ d.paddingRight ∧ lo < d.buffer.length) ∨
    ∃ left more, d.look piece lo = some .maybeEos ∧ d.buffer ++ more = left ++ piece ∧
      left.length = lo ∧ d.buffer.length < lo + piece.length ∧ lo < d.buffer.length := by
  have hcompared := compared_le d piece lo
  unfold EosDetector.look
  split
  · rename_i hout
    left
    refine ⟨Eq.refl _, fun left right more heq hlo hright => ?_⟩
    have hlength := congrArg List.length heq
    simp only [List.length_append] at hlength
    unfold Exceeds at hout
    omega
  · rename_i hin
    unfold Exceeds at hin
    split
    · rename_i hsame
      right
      have hlt : lo < d.buffer.length := by omega
      have hleft : (d.buffer.take lo).length = lo := by
        rw [List.length_take]
        omega
      split
      · rename_i hwhole
        left
        rw [hwhole, List.take_length] at hsame
        refine ⟨d.buffer.take lo, (d.buffer.drop lo).drop piece.length, Eq.refl _, ?_, hleft, ?_, hlt⟩
        · calc d.buffer = d.buffer.take lo ++ d.buffer.drop lo := (List.take_append_drop _ _).symm
            _ = d.buffer.take lo ++ ((d.buffer.drop lo).take piece.length ++
                (d.buffer.drop lo).drop piece.length) := by
              rw [List.take_append_drop piece.length, List.take_append_drop]
            _ = _ := by rw [hsame, List.append_assoc]
        · simp only [List.length_drop]
          omega
      · rename_i hpart
        right
        have hshort : d.compared piece lo = d.buffer.length - lo := by
          unfold EosDetector.compared at hpart ⊢
          split at hpart
          · exact absurd (Eq.refl _) hpart
          · rename_i hnot
            rw [if_neg hnot]
        have hlong : d.buffer.length - lo < piece.length := by omega
        rw [hshort, List.take_of_length_le (Nat.le_of_eq List.length_drop)] at hsame
        refine ⟨d.buffer.take lo, piece.drop (d.buffer.length - lo), Eq.refl _, ?_, hleft, by omega, hlt⟩
        calc d.buffer ++ piece.drop (d.buffer.length - lo)
            = d.buffer.take lo ++ d.buffer.drop lo ++ piece.drop (d.buffer.length - lo) := by
              rw [List.take_append_drop]
          _ = _ := by rw [hsame, List.append_assoc, List.take_append_drop]
    · rename_i hother
      left
      refine ⟨Eq.refl _, fun left right more heq hlo _ => ?_⟩
      by_contra hlt
      apply hother
      rw [← hlo]
      exact take_drop_eq heq (hlo ▸ hcompared.1) (by rw [hlo]; omega)

/-- What is found at the offsets of a stop. -/
theorem lookAll_cases (d : EosDetector) (hne : piece ≠ []) :
    (d.lookAll piece = none ∧ ¬d.Begins piece d.buffer) ∨
    (∃ left right, d.lookAll piece = some (.eos, left.length) ∧ d.buffer = left ++ piece ++ right ∧
      left.length ≤ d.paddingLeft ∧ right.length ≤ d.paddingRight) ∨
    ∃ lo, d.lookAll piece = some (.maybeEos, lo) ∧ d.Begins piece d.buffer ∧
      ¬d.Stops piece d.buffer := by
  have hpos := List.length_pos_iff.mpr hne
  unfold EosDetector.lookAll
  split
  · rename_i hlong
    left
    refine ⟨Eq.refl _, fun hbegins => ?_⟩
    obtain ⟨left, right, more, heq, hleft, hright, _⟩ := hbegins
    have hlength := congrArg List.length heq
    simp only [List.length_append] at hlength
    omega
  · cases hfind : (List.range (d.paddingLeft + 1)).findSome? fun lo =>
        (d.look piece lo).map fun type => (type, lo) with
    | none =>
      left
      refine ⟨Eq.refl _, fun hbegins => ?_⟩
      obtain ⟨left, right, more, heq, hleft, hright, hlt⟩ := hbegins
      have hnone := List.findSome?_eq_none_iff.mp hfind left.length
        (List.mem_range.mpr (Nat.lt_succ_of_le hleft))
      rcases look_cases d piece left.length with hnot | hstops | hmaybe
      · have hle := hnot.2 left right more heq (Eq.refl _) hright
        omega
      · obtain ⟨left', right', hsome, _⟩ := hstops
        rw [hsome] at hnone
        cases hnone
      · obtain ⟨left', more', hsome, _⟩ := hmaybe
        rw [hsome] at hnone
        cases hnone
    | some found =>
      right
      obtain ⟨before, lo, after, hrange, hfound, hbefore⟩ := List.findSome?_eq_some_iff.mp hfind
      have hmem : lo ∈ List.range (d.paddingLeft + 1) := by
        rw [hrange]
        simp
      have hlo := List.mem_range.mp hmem
      rcases look_cases d piece lo with hnot | hstops | hmaybe
      · rw [hnot.1] at hfound
        cases hfound
      · left
        obtain ⟨left, right, hsome, heq, hleft, hright, _⟩ := hstops
        rw [hsome] at hfound
        cases hfound
        exact ⟨left, right, by rw [hleft], heq, by omega, hright⟩
      · right
        obtain ⟨left, more, hsome, heq, hleft, hshort, hlt⟩ := hmaybe
        rw [hsome] at hfound
        cases hfound
        refine ⟨lo, Eq.refl _, ⟨left, [], more, by rw [List.append_nil, heq], by omega, Nat.zero_le _,
          by omega⟩, fun hstops => ?_⟩
        -- a whole stop is shorter, and would have begun before
        obtain ⟨left', right', heq', hleft', hright'⟩ := hstops
        have hlength := congrArg List.length heq'
        simp only [List.length_append] at hlength
        have hearlier : left'.length ∈ before := by
          have hmem' : left'.length ∈ before ++ lo :: after := by
            rw [← hrange, List.mem_range]
            omega
          have hsorted : List.Pairwise (fun x y => x < y) (before ++ lo :: after) := by
            rw [← hrange]
            exact List.pairwise_lt_range
          have hbehind := (List.pairwise_cons.mp (List.pairwise_append.mp hsorted).2.1).1
          cases List.mem_append.mp hmem' with
          | inl h => exact h
          | inr h =>
            cases List.mem_cons.mp h with
            | inl h => omega
            | inr h =>
              have hafter := hbehind _ h
              omega
        have hnone := hbefore _ hearlier
        rcases look_cases d piece left'.length with hnot | hwhole | hpart
        · have hle := hnot.2 left' right' [] (by rw [List.append_nil, heq']) (Eq.refl _) hright'
          omega
        · obtain ⟨_, _, hsome', _⟩ := hwhole
          rw [hsome'] at hnone
          cases hnone
        · obtain ⟨_, _, hsome', _⟩ := hpart
          rw [hsome'] at hnone
          cases hnone

/-- What is found for the stops: the first one that the text begins decides. -/
theorem detect_cases (d : EosDetector) (hstops : ∀ piece ∈ d.pieces, piece ≠ []) :
    (d.detect = none ∧ ∀ piece ∈ d.pieces, ¬d.Begins piece d.buffer) ∨
    ∃ before piece after, d.pieces = before ++ piece :: after ∧
      (∀ other ∈ before, ¬d.Begins other d.buffer) ∧
      ((∃ left right, d.detect = some (.eos, left.length) ∧ d.buffer = left ++ piece ++ right ∧
        left.length ≤ d.paddingLeft ∧ right.length ≤ d.paddingRight) ∨
      ∃ lo, d.detect = some (.maybeEos, lo) ∧ d.Begins piece d.buffer ∧ ¬d.Stops piece d.buffer) := by
  have hnone : ∀ piece ∈ d.pieces, d.lookAll piece = none → ¬d.Begins piece d.buffer := by
    intro piece hmem hlook
    rcases lookAll_cases d (hstops piece hmem) with hnot | hwhole | hpart
    · exact hnot.2
    · obtain ⟨_, _, hsome, _⟩ := hwhole
      rw [hsome] at hlook
      cases hlook
    · obtain ⟨_, hsome, _⟩ := hpart
      rw [hsome] at hlook
      cases hlook
  unfold EosDetector.detect
  cases hfind : d.pieces.findSome? d.lookAll with
  | none =>
    left
    exact ⟨Eq.refl _, fun piece hmem => hnone piece hmem (List.findSome?_eq_none_iff.mp hfind piece hmem)⟩
  | some found =>
    right
    obtain ⟨before, piece, after, hpieces, hfound, hbefore⟩ := List.findSome?_eq_some_iff.mp hfind
    have hmem : piece ∈ d.pieces := by
      rw [hpieces]
      simp
    refine ⟨before, piece, after, hpieces, fun other hother => ?_, ?_⟩
    · have hmem' : other ∈ d.pieces := by
        rw [hpieces]
        exact List.mem_append_left _ hother
      exact hnone other hmem' (hbefore other hother)
    · rcases lookAll_cases d (hstops piece hmem) with hnot | hwhole | hpart
      · rw [hnot.1] at hfound
        cases hfound
      · left
        obtain ⟨left, right, hsome, heq, hleft, hright⟩ := hwhole
        rw [hsome] at hfound
        exact ⟨left, right, hfound.symm, heq, hleft, hright⟩
      · right
        obtain ⟨lo, hsome, hbegins, hnot⟩ := hpart
        rw [hsome] at hfound
        exact ⟨lo, hfound.symm, hbegins, hnot⟩

end Look

section Append

variable {d : EosDetector} {text : List UInt8} {tokenId : ℤ} {piece : Option (List UInt8)}
  {calls : List (ℤ × Option (List UInt8))}

/-- Text of the tokens. -/
def spoken (calls : List (ℤ × Option (List UInt8))) : List UInt8 :=
  calls.flatMap fun call => call.2.getD []

/-- No call has found a stop. -/
def EosDetector.Continues (d : EosDetector) (calls : List (ℤ × Option (List UInt8))) : Prop :=
  ∀ front call back, calls = front ++ call :: back → call.1 ∉ d.tokens →
    ((d.appendAll front).append call.1 call.2).1 ≠ .eos

/-- If the text is a stop, the first stop that it begins is one that it is. -/
def EosDetector.InOrder (d : EosDetector) (text : List UInt8) : Prop :=
  ∀ before piece after, d.pieces = before ++ piece :: after →
    (∀ other ∈ before, ¬d.Begins other text) → d.Begins piece text →
      (∃ other ∈ d.pieces, d.Stops other text) → d.Stops piece text

/-- What is returned for a text, and the detector that is left. -/
structure EosDetector.Detects (d : EosDetector) (text : List UInt8)
    (result : EosDetectorType × EosDetector) : Prop where
  /-- The end is at a stop, and what is before it is shown. -/
  eos : result.1 = .eos → ∃ piece ∈ d.pieces, ∃ left right, text = left ++ piece ++ right ∧
    left.length ≤ d.paddingLeft ∧ right.length ≤ d.paddingRight ∧
      result.2.getDelta = if left = [] then none else some left
  /-- Nothing is found where the text begins no stop. -/
  notEos : result.1 = .notEos ↔ ∀ piece ∈ d.pieces, ¬d.Begins piece text
  /-- All stops are found, and otherwise all that may become one, unless a stop is begun before. -/
  inOrder : d.InOrder text → (result.1 = .eos ↔ ∃ piece ∈ d.pieces, d.Stops piece text) ∧
    (result.1 = .maybeEos ↔ (∀ piece ∈ d.pieces, ¬d.Stops piece text) ∧
      ∃ piece ∈ d.pieces, d.Begins piece text)

theorem continues_nil (d : EosDetector) : d.Continues [] := by
  intro front call back heq
  cases front <;> cases heq

/-- A call that finds no stop may be followed by others. -/
theorem EosDetector.Continues.concat (h : d.Continues calls) {call : ℤ × Option (List UInt8)}
    (hcall : call.1 ∉ d.tokens → ((d.appendAll calls).append call.1 call.2).1 ≠ .eos) :
    d.Continues (calls ++ [call]) := by
  intro front other back heq htoken
  induction back using List.reverseRecOn with
  | nil =>
    have hfront := List.append_inj_left' heq (Eq.refl _)
    have hother := List.append_inj_right' heq (Eq.refl _)
    cases hother
    rw [← hfront]
    exact hcall htoken
  | append_singleton back last _ =>
    have hsplit : calls ++ [call] = (front ++ other :: back) ++ [last] := by
      rw [heq, List.append_assoc]
      exact Eq.refl _
    exact h front other back (List.append_inj_left' hsplit (Eq.refl _)) htoken

/-- A call that finds no stop keeps the text. -/
theorem append_text (h : tokenId ∉ d.tokens → (d.append tokenId piece).1 ≠ .eos) :
    ∃ eosPos, (d.append tokenId piece).2 = { d.store piece with eosPos := eosPos } := by
  unfold EosDetector.append at h ⊢
  split
  · exact ⟨_, Eq.refl _⟩
  · rename_i htoken
    have hnot := h htoken
    rw [if_neg htoken] at hnot
    split
    · rename_i lo hdetect
      rw [hdetect] at hnot
      exact absurd (Eq.refl _) hnot
    · exact ⟨-1, Eq.refl _⟩
    · exact ⟨-1, Eq.refl _⟩

/-- The text since the last reset. -/
theorem appendAll_text (h : d.reset.Continues calls) :
    ∃ eosPos, d.reset.appendAll calls = { d with buffer := spoken calls, eosPos := eosPos } := by
  induction calls using List.reverseRecOn with
  | nil => exact ⟨d.eosPos, Eq.refl _⟩
  | append_singleton calls call ih =>
    have hbefore : d.reset.Continues calls := by
      intro front other back heq
      exact h front other (back ++ [call]) (by rw [heq, List.append_assoc]; exact Eq.refl _)
    obtain ⟨before, hcalls⟩ := ih hbefore
    have hnot := h calls call [] (Eq.refl _)
    rw [hcalls] at hnot
    obtain ⟨eosPos, happend⟩ :=
      append_text (d := { d with buffer := spoken calls, eosPos := before }) hnot
    refine ⟨eosPos, ?_⟩
    unfold EosDetector.appendAll at hcalls ⊢
    rw [List.foldl_append, hcalls, List.foldl_cons, List.foldl_nil, happend]
    simp [EosDetector.store, spoken]

/-- What is shown before a stop. -/
theorem getDelta_set {left rest : List UInt8} {c : UInt8} (hnul : 0 ∉ left)
    (htext : d.buffer = left ++ c :: rest) :
    { d with buffer := d.buffer.set left.length 0, eosPos := left.length }.getDelta =
      if left = [] then none else some left := by
  have hset : d.buffer.set left.length 0 = left ++ 0 :: rest := by
    rw [htext, List.set_append_right _ _ (Nat.le_refl _), Nat.sub_self]
    exact Eq.refl _
  have hshown : (left ++ 0 :: rest).takeWhile (fun c => decide (c ≠ 0)) = left := by
    rw [List.takeWhile_append_of_pos]
    · simp
    · intro b hb
      rw [decide_eq_true_eq]
      intro hzero
      exact hnul (hzero ▸ hb)
  unfold EosDetector.getDelta
  rw [hset]
  have hsome : (left ++ 0 :: rest).length ≠ 0 := by simp
  have hfound : (left.length : ℤ) ≠ -1 := by omega
  rw [if_neg hsome, if_neg hfound, hshown]
  cases left with
  | nil => exact Eq.refl _
  | cons b left =>
    have hpos : ((b :: left).length : ℤ) ≠ 0 := by
      rw [List.length_cons]
      omega
    rw [if_neg hpos, if_neg (List.cons_ne_nil b left)]

/-- What is found in a text, for a token that is not behind one. -/
theorem append_detects_text (hstops : ∀ stop ∈ d.pieces, stop ≠ []) (htoken : tokenId ∉ d.tokens)
    (htext : (d.store piece).buffer = text) (hnul : 0 ∉ text) :
    d.Detects text (d.append tokenId piece) := by
  unfold EosDetector.append
  rw [if_neg htoken]
  have hcases := detect_cases (d.store piece) hstops
  rw [htext] at hcases
  rcases hcases with hnone | hfirst
  · obtain ⟨hdetect, hnot⟩ := hnone
    rw [hdetect]
    have hnotStops : ∀ stop ∈ d.pieces, ¬d.Stops stop text := fun stop hmem h =>
      hnot stop hmem (h.begins (hstops stop hmem))
    constructor
    · intro heos
      cases heos
    · exact ⟨fun _ => hnot, fun _ => Eq.refl _⟩
    · intro _
      constructor
      · constructor
        · intro heos
          cases heos
        · intro hexists
          obtain ⟨stop, hmem, h⟩ := hexists
          exact absurd h (hnotStops stop hmem)
      · constructor
        · intro hmaybe
          cases hmaybe
        · intro hexists
          obtain ⟨_, stop, hmem, h⟩ := hexists
          exact absurd h (hnot stop hmem)
  · obtain ⟨before, stop, after, hpieces, hbefore, hfound⟩ := hfirst
    have hmem : stop ∈ d.pieces := by
      have hpieces' : d.pieces = before ++ stop :: after := hpieces
      rw [hpieces']
      simp
    rcases hfound with hwhole | hpart
    · obtain ⟨left, right, hdetect, heq, hleft, hright⟩ := hwhole
      have hstop : d.Stops stop text := ⟨left, right, heq, hleft, hright⟩
      have hbegins := hstop.begins (hstops stop hmem)
      rw [hdetect]
      constructor
      · intro _
        refine ⟨stop, hmem, left, right, heq, hleft, hright, ?_⟩
        cases hstop' : stop with
        | nil => exact absurd hstop' (hstops stop hmem)
        | cons c rest =>
          have hbuffer : (d.store piece).buffer = left ++ c :: (rest ++ right) := by
            rw [htext, heq, hstop', List.append_assoc]
            exact Eq.refl _
          have hleftNul : 0 ∉ left := by
            intro hzero
            apply hnul
            rw [heq, List.append_assoc]
            exact List.mem_append_left _ hzero
          exact getDelta_set hleftNul hbuffer
      · constructor
        · intro hnot
          cases hnot
        · intro hnone
          exact absurd hbegins (hnone stop hmem)
      · intro _
        constructor
        · exact ⟨fun _ => ⟨stop, hmem, hstop⟩, fun _ => Eq.refl _⟩
        · constructor
          · intro hmaybe
            cases hmaybe
          · intro hnone
            exact absurd hstop (hnone.1 stop hmem)
    · obtain ⟨lo, hdetect, hbegins, hnotStop⟩ := hpart
      rw [hdetect]
      constructor
      · intro heos
        cases heos
      · constructor
        · intro hnot
          cases hnot
        · intro hnone
          exact absurd hbegins (hnone stop hmem)
      · intro hinOrder
        have hnone : ∀ other ∈ d.pieces, ¬d.Stops other text := by
          intro other hother h
          exact hnotStop (hinOrder before stop after hpieces hbefore hbegins ⟨other, hother, h⟩)
        constructor
        · constructor
          · intro heos
            cases heos
          · intro hexists
            obtain ⟨other, hother, h⟩ := hexists
            exact absurd h (hnone other hother)
        · exact ⟨fun _ => ⟨hnone, stop, hmem, hbegins⟩, fun _ => Eq.refl _⟩

/-- What is found in the text since the last reset, when no call before has found a stop. -/
theorem append_detects (hstops : ∀ stop ∈ d.pieces, stop ≠ []) (hcalls : d.reset.Continues calls)
    (htoken : tokenId ∉ d.tokens) (hnul : 0 ∉ spoken calls ++ piece.getD []) :
    d.Detects (spoken calls ++ piece.getD []) ((d.reset.appendAll calls).append tokenId piece) := by
  obtain ⟨eosPos, hcalled⟩ := appendAll_text hcalls
  rw [hcalled]
  have hdetects := append_detects_text
    (d := { d with buffer := spoken calls, eosPos := eosPos }) hstops htoken (Eq.refl _) hnul
  exact ⟨hdetects.eos, hdetects.notEos, hdetects.inOrder⟩

end Append

/-- A stop that is begun hides one behind it in the list. -/
example : (EosDetector.append ⟨[], [[0x61, 0x62, 0x63], [0x61, 0x62]], 0, 0, [], -1⟩ 1
    (some [0x61, 0x62])).1 = .maybeEos := by decide

/-- A detector of one stop, with a byte of padding on both sides. -/
def paddedDetector : EosDetector :=
  ⟨[10], [[0x3c, 0x65, 0x6f, 0x73, 0x3e]], 1, 1, [], -1⟩

theorem append_detects_padded :
    paddedDetector.Detects (spoken [(1, some [0x21, 0x3c]), (2, some [0x65, 0x6f, 0x73])] ++ [0x3e, 0x20])
      ((paddedDetector.reset.appendAll [(1, some [0x21, 0x3c]), (2, some [0x65, 0x6f, 0x73])]).append 3
        (some [0x3e, 0x20])) := by
  have hfirst : paddedDetector.reset.Continues [(1, some [0x21, 0x3c])] :=
    (continues_nil _).concat fun _ => by decide
  have hcalls : paddedDetector.reset.Continues [(1, some [0x21, 0x3c]), (2, some [0x65, 0x6f, 0x73])] :=
    hfirst.concat fun _ => by decide
  have htoken : (3 : ℤ) ∉ paddedDetector.tokens := by decide
  have hnul : 0 ∉ spoken [(1, some [0x21, 0x3c]), (2, some [0x65, 0x6f, 0x73])] ++
      (some [0x3e, 0x20]).getD [] := by decide
  exact append_detects (by decide) hcalls htoken hnul

/-- A text within the padding could still be continued to a stop, but nothing is found. -/
theorem not_detects_extensions : ¬∀ (d : EosDetector) (calls : List (ℤ × Option (List UInt8))) (tokenId : ℤ)
    (piece : Option (List UInt8)), d.pieces ≠ [] → (∀ stop ∈ d.pieces, stop ≠ []) → tokenId ∉ d.tokens →
    0 ∉ spoken calls ++ piece.getD [] →
    (((d.reset.appendAll calls).append tokenId piece).1 = .eos ↔
      ∃ stop ∈ d.pieces, d.Stops stop (spoken calls ++ piece.getD [])) ∧
    (((d.reset.appendAll calls).append tokenId piece).1 = .maybeEos ↔
      (∀ stop ∈ d.pieces, ¬d.Stops stop (spoken calls ++ piece.getD [])) ∧
        ∃ stop ∈ d.pieces, d.Extends stop (spoken calls ++ piece.getD [])) := by
  intro h
  have hspace := (h paddedDetector [] 1 (some [0x20]) (by decide) (by decide) (by decide) (by decide)).2
  have hresult : ((paddedDetector.reset.appendAll []).append 1 (some [0x20])).1 = .notEos := by decide
  have hshort : ∀ stop ∈ paddedDetector.pieces, ¬paddedDetector.Stops stop (spoken [] ++ [0x20]) := by
    intro stop hmem hstops
    obtain ⟨left, right, heq, _⟩ := hstops
    have hlength := congrArg List.length heq
    have hfive : stop.length = 5 := by
      rw [List.mem_singleton.mp hmem]
      exact Eq.refl _
    simp only [spoken, List.flatMap_nil, List.nil_append, List.length_append, List.length_singleton,
      hfive] at hlength
    omega
  have hmaybe := hspace.mpr ⟨hshort, [0x3c, 0x65, 0x6f, 0x73, 0x3e], List.mem_singleton_self _, [0x20], [],
    [0x3c, 0x65, 0x6f, 0x73, 0x3e], by decide, by decide, by decide⟩
  rw [hresult] at hmaybe
  cases hmaybe

end LayerSkip.StopDetection
