import LayerSkip.StopDetection
import Mathlib.Data.List.TakeWhile

/-!
# The loop of a completion

In each step a token is sampled and its piece appended to the detector. What the detector lets out is delivered, and
the detector is reset; while the text may become a stop it is held back. When the loop ends at its limit, what is
held back then is lost.
-/

namespace LayerSkip.CompletionLoop

open StopDetection

/-- A token, and its piece if it has one. -/
abbrev Call := ℤ × Option (List UInt8)

/-- How the loop has ended. -/
inductive Ending where
  /-- The position has reached the limit. -/
  | limit
  /-- The last token is behind a text. -/
  | token
  /-- A stop was detected. -/
  | stop
  deriving DecidableEq, Repr

/-- What the loop has done. -/
structure Generated (σ : Type) where
  /-- What was delivered. -/
  deltas : List (List UInt8)
  /-- Tokens and their pieces. -/
  calls : List Call
  /-- What the detector has returned last. -/
  last : Option EosDetectorType
  /-- How it has ended. -/
  ending : Ending
  /-- The detector. -/
  detector : EosDetector
  /-- Where the tokens come from. -/
  source : σ

section Loop

variable {σ : Type}

/-- What is delivered after an answer of the detector. -/
def deltaOf (answer : EosDetectorType × EosDetector) : Option (List UInt8) :=
  if answer.1 = .maybeEos then none else answer.2.getDelta

/-- The detector after the delivery. -/
def detectorOf (answer : EosDetectorType × EosDetector) : EosDetector :=
  if answer.1 = .maybeEos then answer.2 else answer.2.reset

/-- After a delivery nothing is held back. -/
theorem detectorOf_buffer {answer : EosDetectorType × EosDetector} (h : answer.1 ≠ .maybeEos) :
    (detectorOf answer).buffer = [] := by
  rw [detectorOf, if_neg h]
  rfl

/-- The loop, with the positions that are left. -/
def generate (next : σ → Call × σ) : ℕ → σ → EosDetector → Generated σ
  | 0, source, detector => ⟨[], [], none, .limit, detector, source⟩
  | n + 1, source, detector =>
    let call := (next source).1
    let answer := detector.append call.1 call.2
    if answer.1 = .eos then
      ⟨(deltaOf answer).toList, [call], some .eos, if call.1 ∈ detector.tokens then .token else .stop,
        detectorOf answer, (next source).2⟩
    else
      let rest := generate next n (next source).2 (detectorOf answer)
      ⟨(deltaOf answer).toList ++ rest.deltas, call :: rest.calls, some (rest.last.getD answer.1), rest.ending,
        rest.detector, rest.source⟩

/-- The text that was delivered. -/
def Generated.delivered (g : Generated σ) : List UInt8 := g.deltas.flatten

/-- All text is delivered, or all text before a stop that was detected. -/
def Conserves (d : EosDetector) (g : Generated σ) : Prop :=
  (g.ending ≠ .stop → g.delivered = spoken g.calls) ∧
  (g.ending = .stop → ∃ stop ∈ d.pieces, ∃ right, spoken g.calls = g.delivered ++ stop ++ right ∧
    right.length ≤ d.paddingRight)

/-- The loop has ended at its limit while the text might become a stop. -/
def HoldsBack (g : Generated σ) : Prop := g.ending = .limit ∧ g.last = some .maybeEos

/-- The tokens of the steps that are left, if nothing ends the loop before. -/
def sampled (next : σ → Call × σ) : ℕ → σ → List Call
  | 0, _ => []
  | n + 1, source => (next source).1 :: sampled next n (next source).2

/-- The first stop that a text begins is not whole. -/
def Unfinished (d : EosDetector) (text : List UInt8) : Prop :=
  ∃ before stop after, d.pieces = before ++ stop :: after ∧
    (∀ other ∈ before, ¬d.Begins other text) ∧ d.Begins stop text ∧ ¬d.Stops stop text

/-- What is left of a text and the pieces behind it when all that begins no stop is delivered, and none of the
tokens is behind a text and no stop gets whole. -/
inductive Held (d : EosDetector) : List UInt8 → List Call → List UInt8 → Prop
  /-- There are no pieces. -/
  | nil (text : List UInt8) : Held d text [] text
  /-- The text begins a stop. -/
  | begins {text held : List UInt8} {call : Call} {calls : List Call} (htoken : call.1 ∉ d.tokens)
      (hbegins : Unfinished d (text ++ call.2.getD [])) (hrest : Held d (text ++ call.2.getD []) calls held) :
      Held d text (call :: calls) held
  /-- It begins none. -/
  | shown {text held : List UInt8} {call : Call} {calls : List Call} (htoken : call.1 ∉ d.tokens)
      (hbegins : ∀ stop ∈ d.pieces, ¬d.Begins stop (text ++ call.2.getD [])) (hrest : Held d [] calls held) :
      Held d text (call :: calls) held

/-- No stop gets whole in the pieces, and some text is left that begins one. -/
def LosesText (d : EosDetector) (calls : List Call) : Prop := ∃ held, Held d [] calls held ∧ held ≠ []

end Loop

section Step

variable {d : EosDetector} {tokenId : ℤ} {piece : Option (List UInt8)}

/-- Stops, tokens and paddings stay. -/
structure SameStops (d d' : EosDetector) : Prop where
  /-- Tokens behind a text. -/
  tokens : d'.tokens = d.tokens
  /-- Stops. -/
  pieces : d'.pieces = d.pieces
  /-- Bytes before a stop. -/
  paddingLeft : d'.paddingLeft = d.paddingLeft
  /-- Bytes behind a stop. -/
  paddingRight : d'.paddingRight = d.paddingRight

theorem SameStops.trans {d'' : EosDetector} {d' : EosDetector} (h : SameStops d d') (h' : SameStops d' d'') :
    SameStops d d'' :=
  ⟨h'.tokens.trans h.tokens, h'.pieces.trans h.pieces, h'.paddingLeft.trans h.paddingLeft,
    h'.paddingRight.trans h.paddingRight⟩

theorem append_sameStops (d : EosDetector) (tokenId : ℤ) (piece : Option (List UInt8)) :
    SameStops d (d.append tokenId piece).2 := by
  unfold EosDetector.append
  split
  · exact ⟨Eq.refl _, Eq.refl _, Eq.refl _, Eq.refl _⟩
  · split
    · exact ⟨Eq.refl _, Eq.refl _, Eq.refl _, Eq.refl _⟩
    · exact ⟨Eq.refl _, Eq.refl _, Eq.refl _, Eq.refl _⟩
    · exact ⟨Eq.refl _, Eq.refl _, Eq.refl _, Eq.refl _⟩

theorem detectorOf_sameStops {answer : EosDetectorType × EosDetector} (h : SameStops d answer.2) :
    SameStops d (detectorOf answer) := by
  unfold detectorOf
  split
  · exact h
  · exact ⟨h.tokens, h.pieces, h.paddingLeft, h.paddingRight⟩

theorem SameStops.unfinished_iff {d' : EosDetector} (h : SameStops d d') (text : List UInt8) :
    Unfinished d' text ↔ Unfinished d text := by
  simp only [Unfinished, EosDetector.Begins, EosDetector.Stops, h.pieces, h.paddingLeft, h.paddingRight]

theorem SameStops.begins_iff {d' : EosDetector} (h : SameStops d d') (text : List UInt8) :
    (∀ stop ∈ d'.pieces, ¬d'.Begins stop text) ↔ ∀ stop ∈ d.pieces, ¬d.Begins stop text := by
  simp only [EosDetector.Begins, h.pieces, h.paddingLeft, h.paddingRight]

/-- Two first ones of a list are the same. -/
theorem first_unique {α : Type} {P : α → Prop} {before before' after after' : List α} {a a' : α}
    (h : before ++ a :: after = before' ++ a' :: after') (hbefore : ∀ b ∈ before, ¬P b)
    (hbefore' : ∀ b ∈ before', ¬P b) (ha : P a) (ha' : P a') : a = a' := by
  induction before generalizing before' with
  | nil =>
    cases before' with
    | nil => exact (List.cons.inj h).1
    | cons b before' =>
      have hb : a = b := (List.cons.inj h).1
      exact absurd (hb ▸ ha) (hbefore' b List.mem_cons_self)
  | cons b before ih =>
    cases before' with
    | nil =>
      have hb : b = a' := (List.cons.inj h).1
      exact absurd (hb ▸ ha') (hbefore b List.mem_cons_self)
    | cons b' before' =>
      exact ih (List.cons.inj h).2 (fun x hx => hbefore x (List.mem_cons_of_mem _ hx))
        fun x hx => hbefore' x (List.mem_cons_of_mem _ hx)

/-- Text is held back while the first stop that it begins is not whole. -/
theorem append_maybeEos_iff (hstops : ∀ stop ∈ d.pieces, stop ≠ []) (htoken : tokenId ∉ d.tokens) :
    (d.append tokenId piece).1 = .maybeEos ↔ Unfinished d (d.buffer ++ piece.getD []) := by
  have hcases := detect_cases (d.store piece) hstops
  unfold EosDetector.append
  rw [if_neg htoken]
  cases hcases with
  | inl hnone =>
    rw [hnone.1]
    constructor
    · intro h
      cases h
    · intro h
      obtain ⟨before, stop, after, hpieces, _, hbegins, _⟩ := h
      refine absurd hbegins (hnone.2 stop ?_)
      have hmem : stop ∈ d.pieces := by
        rw [hpieces]
        simp
      exact hmem
  | inr hfirst =>
    obtain ⟨before, stop, after, hpieces, hbefore, hfound⟩ := hfirst
    cases hfound with
    | inl hwhole =>
      obtain ⟨left, right, hdetect, htext, hleft, hright⟩ := hwhole
      have hstop : d.Stops stop (d.buffer ++ piece.getD []) := ⟨left, right, htext, hleft, hright⟩
      have hmem : stop ∈ d.pieces := by
        have hsame : d.pieces = before ++ stop :: after := hpieces
        rw [hsame]
        simp
      rw [hdetect]
      constructor
      · intro h
        cases h
      · intro h
        obtain ⟨before', stop', after', hpieces', hbefore', hbegins', hstop'⟩ := h
        have hsame : stop = stop' := first_unique (hpieces.symm.trans hpieces') hbefore hbefore'
          (hstop.begins (hstops stop hmem)) hbegins'
        exact absurd (hsame ▸ hstop) hstop'
    | inr hpart =>
      obtain ⟨lo, hdetect, hbegins, hnot⟩ := hpart
      rw [hdetect]
      exact ⟨fun _ => ⟨before, stop, after, hpieces, hbefore, hbegins, hnot⟩, fun _ => Eq.refl _⟩

/-- A text without a terminator is shown as it is. -/
theorem getDelta_whole (hnul : 0 ∉ d.buffer) (heos : d.eosPos = -1 ∨ d.eosPos = d.buffer.length) :
    d.getDelta.toList.flatten = d.buffer := by
  have hshown : (d.buffer.takeWhile fun c => decide (c ≠ 0)) = d.buffer := by
    rw [List.takeWhile_eq_self_iff]
    intro c hc
    rw [decide_eq_true_eq]
    intro hzero
    exact hnul (hzero ▸ hc)
  unfold EosDetector.getDelta
  rw [hshown]
  by_cases hempty : d.buffer.length = 0
  · rw [if_pos hempty]
    exact (List.length_eq_zero_iff.mp hempty).symm
  · rw [if_neg hempty]
    cases heos with
    | inl hnone =>
      rw [if_pos hnone]
      simp
    | inr hend =>
      rw [if_neg (by omega), if_neg (by omega)]
      simp

/-- A text that is no stop is in the buffer. -/
theorem append_notEos (htoken : tokenId ∉ d.tokens) (h : (d.append tokenId piece).1 = .notEos) :
    (d.append tokenId piece).2 = { d.store piece with eosPos := -1 } := by
  unfold EosDetector.append at h ⊢
  rw [if_neg htoken] at h ⊢
  cases hdetect : (d.store piece).detect with
  | none => rfl
  | some found =>
    obtain ⟨type, lo⟩ := found
    rw [hdetect] at h
    cases type with
    | eos => cases h
    | maybeEos => cases h
    | notEos => rfl

/-- What an answer does with the text that is held. -/
inductive Answers (d : EosDetector) (tokenId : ℤ) (text : List UInt8)
    (answer : EosDetectorType × EosDetector) : Prop
  /-- It is held back. -/
  | holds (htype : answer.1 = .maybeEos) (hbuffer : answer.2.buffer = text) (hne : text ≠ [])
  /-- It is delivered. -/
  | delivers (htype : answer.1 = .notEos) (hdelta : answer.2.getDelta.toList.flatten = text)
  /-- It is delivered, and the token is behind it. -/
  | ends (htype : answer.1 = .eos) (htoken : tokenId ∈ d.tokens)
      (hdelta : answer.2.getDelta.toList.flatten = text)
  /-- What is before a stop is delivered. -/
  | stops (htype : answer.1 = .eos) (htoken : tokenId ∉ d.tokens) (stop : List UInt8)
      (hstop : stop ∈ d.pieces) (right : List UInt8)
      (htext : text = answer.2.getDelta.toList.flatten ++ stop ++ right)
      (hright : right.length ≤ d.paddingRight)

theorem append_answers (hstops : ∀ stop ∈ d.pieces, stop ≠ []) (hnul : 0 ∉ d.buffer ++ piece.getD []) :
    Answers d tokenId (d.buffer ++ piece.getD []) (d.append tokenId piece) := by
  by_cases htoken : tokenId ∈ d.tokens
  · have happend : d.append tokenId piece =
      (.eos, { d.store piece with eosPos := (d.store piece).buffer.length }) := if_pos htoken
    rw [happend]
    exact .ends (Eq.refl _) htoken (getDelta_whole hnul (Or.inr (Eq.refl _)))
  · have hdetects : d.Detects (d.buffer ++ piece.getD []) (d.append tokenId piece) :=
      append_detects_text hstops htoken (Eq.refl _) hnul
    cases hanswer : (d.append tokenId piece).1 with
    | eos =>
      obtain ⟨stop, hstop, left, right, htext, _, hright, hdelta⟩ := hdetects.eos hanswer
      have hleft : (d.append tokenId piece).2.getDelta.toList.flatten = left := by
        rw [hdelta]
        by_cases hempty : left = []
        · rw [if_pos hempty, hempty]
          rfl
        · rw [if_neg hempty]
          simp
      exact .stops hanswer htoken stop hstop right (by rw [hleft]; exact htext) hright
    | maybeEos =>
      have hgoing : tokenId ∉ d.tokens → (d.append tokenId piece).1 ≠ .eos := by
        intro _ heos
        rw [hanswer] at heos
        cases heos
      obtain ⟨eosPos, hstore⟩ := append_text hgoing
      have hne : d.buffer ++ piece.getD [] ≠ [] := by
        intro hempty
        have hnone : ∀ stop ∈ d.pieces, ¬d.Begins stop (d.buffer ++ piece.getD []) := by
          intro stop _ hbegins
          obtain ⟨left, right, more, _, _, _, hlt⟩ := hbegins
          rw [hempty] at hlt
          cases hlt
        have hnot := hdetects.notEos.mpr hnone
        rw [hanswer] at hnot
        cases hnot
      refine .holds hanswer ?_ hne
      rw [hstore]
      rfl
    | notEos =>
      refine .delivers hanswer ?_
      rw [append_notEos htoken hanswer]
      exact getDelta_whole hnul (Or.inl (Eq.refl _))

end Step

section Runs

variable {σ : Type} {next : σ → Call × σ}

/-- Tokens without terminators in their pieces. -/
def Plain (calls : List Call) : Prop := ∀ call ∈ calls, 0 ∉ call.2.getD []

/-- What is delivered and what is held back at the end are all text, unless a stop was detected. -/
structure Accounts (d : EosDetector) (g : Generated σ) : Prop where
  /-- No stop was detected. -/
  whole : g.ending ≠ .stop → g.delivered ++ g.detector.buffer = d.buffer ++ spoken g.calls
  /-- A stop was detected. -/
  stopped : g.ending = .stop → ∃ stop ∈ d.pieces, ∃ right,
    d.buffer ++ spoken g.calls = g.delivered ++ stop ++ right ∧ right.length ≤ d.paddingRight
  /-- Something is held back at the end. -/
  held : g.ending = .limit → g.last = some .maybeEos → g.detector.buffer ≠ []
  /-- Nothing is. -/
  empty : g.ending ≠ .stop → ¬HoldsBack g → g.last ≠ none ∨ d.buffer = [] → g.detector.buffer = []

/-- Without an answer nothing has been done. -/
theorem generate_last_none {n : ℕ} {source : σ} {d : EosDetector}
    (h : (generate next n source d).last = none) :
    (generate next n source d).ending = .limit ∧ (generate next n source d).detector = d := by
  cases n with
  | zero => exact ⟨Eq.refl _, Eq.refl _⟩
  | succ n =>
    unfold generate at h
    dsimp only at h
    split at h
    · cases h
    · cases h

theorem spoken_cons (call : Call) (calls : List Call) : spoken (call :: calls) = call.2.getD [] ++ spoken calls :=
  List.flatMap_cons

theorem generate_eos {n : ℕ} {source : σ} {d : EosDetector}
    (h : (d.append (next source).1.1 (next source).1.2).1 = .eos) :
    generate next (n + 1) source d =
      ⟨(deltaOf (d.append (next source).1.1 (next source).1.2)).toList, [(next source).1], some .eos,
        if (next source).1.1 ∈ d.tokens then .token else .stop,
        detectorOf (d.append (next source).1.1 (next source).1.2), (next source).2⟩ := by
  rw [generate]
  exact if_pos h

theorem generate_more {n : ℕ} {source : σ} {d : EosDetector}
    (h : (d.append (next source).1.1 (next source).1.2).1 ≠ .eos) {rest : Generated σ}
    (hrest : generate next n (next source).2
      (detectorOf (d.append (next source).1.1 (next source).1.2)) = rest) :
    generate next (n + 1) source d =
      ⟨(deltaOf (d.append (next source).1.1 (next source).1.2)).toList ++ rest.deltas,
        (next source).1 :: rest.calls,
        some (rest.last.getD (d.append (next source).1.1 (next source).1.2).1), rest.ending, rest.detector,
        rest.source⟩ := by
  rw [← hrest, generate]
  exact if_neg h

theorem generate_calls_head {n : ℕ} {source : σ} {d : EosDetector} :
    (next source).1 ∈ (generate next (n + 1) source d).calls := by
  by_cases heos : (d.append (next source).1.1 (next source).1.2).1 = .eos
  · rw [generate_eos heos]
    exact List.mem_cons_self
  · rw [generate_more heos (Eq.refl _)]
    exact List.mem_cons_self

/-- What an answer holds and delivers. -/
structure Steps (d : EosDetector) (text : List UInt8) (answer : EosDetectorType × EosDetector) : Prop where
  /-- All text is held or delivered. -/
  whole : (deltaOf answer).toList.flatten ++ (detectorOf answer).buffer = text
  /-- Text that may become a stop is held. -/
  held : answer.1 = .maybeEos → (detectorOf answer).buffer ≠ []
  /-- Other text is not. -/
  empty : answer.1 ≠ .maybeEos → (detectorOf answer).buffer = []

/-- An answer before the rest of the loop. -/
theorem Accounts.more {d : EosDetector} {call : Call} {answer : EosDetectorType × EosDetector}
    {rest : Generated σ} (hsteps : Steps d (d.buffer ++ call.2.getD []) answer)
    (hsame : SameStops d (detectorOf answer)) (h : Accounts (detectorOf answer) rest)
    (hnone : rest.last = none → rest.ending = .limit ∧ rest.detector = detectorOf answer) :
    Accounts d ⟨(deltaOf answer).toList ++ rest.deltas, call :: rest.calls, some (rest.last.getD answer.1),
      rest.ending, rest.detector, rest.source⟩ where
  whole hending := by
    have hrest := h.whole hending
    have htext := hsteps.whole
    unfold Generated.delivered at hrest ⊢
    rw [spoken_cons, ← List.append_assoc, ← htext, List.flatten_append, List.append_assoc, hrest,
      List.append_assoc]
  stopped hending := by
    obtain ⟨stop, hstop, right, htext, hright⟩ := h.stopped hending
    refine ⟨stop, hsame.pieces ▸ hstop, right, ?_, hsame.paddingRight ▸ hright⟩
    have hstep := hsteps.whole
    unfold Generated.delivered at htext ⊢
    rw [spoken_cons, ← List.append_assoc, ← hstep, List.flatten_append, List.append_assoc, htext]
    simp only [List.append_assoc]
  held hending hlast := by
    cases hrest : rest.last with
    | none =>
      rw [hrest] at hlast
      rw [(hnone hrest).2]
      exact hsteps.held (Option.some.inj hlast)
    | some last =>
      rw [hrest] at hlast
      exact h.held hending (hrest.trans hlast)
  empty hending hholds hstart := by
    cases hrest : rest.last with
    | none =>
      rw [(hnone hrest).2]
      refine hsteps.empty fun htype => hholds ⟨(hnone hrest).1, ?_⟩
      rw [hrest, ← htype]
      rfl
    | some last =>
      refine h.empty hending (fun hback => hholds ⟨hback.1, ?_⟩) (Or.inl (by simp [hrest]))
      have hlast := hback.2
      rw [hrest] at hlast ⊢
      exact hlast

theorem generate_accounts {n : ℕ} {source : σ} {d : EosDetector} (hstops : ∀ stop ∈ d.pieces, stop ≠ [])
    (hnul : 0 ∉ d.buffer) (hplain : Plain (generate next n source d).calls) :
    Accounts d (generate next n source d) := by
  induction n generalizing source d with
  | zero =>
    constructor
    · intro _
      exact (List.append_nil d.buffer).symm
    · intro hstop
      cases hstop
    · intro _ hlast
      cases hlast
    · intro _ _ hstart
      cases hstart with
      | inl hlast => exact absurd (Eq.refl _) hlast
      | inr hbuffer => exact hbuffer
  | succ n ih =>
    have htext : 0 ∉ d.buffer ++ (next source).1.2.getD [] := by
      rw [List.mem_append]
      exact not_or.mpr ⟨hnul, hplain _ generate_calls_head⟩
    have hanswers : Answers d (next source).1.1 (d.buffer ++ (next source).1.2.getD [])
      (d.append (next source).1.1 (next source).1.2) := append_answers hstops htext
    have hsame := detectorOf_sameStops (append_sameStops d (next source).1.1 (next source).1.2)
    cases hanswers with
    | ends htype htoken hdelta =>
      have hdelivered : (deltaOf (d.append (next source).1.1 (next source).1.2)).toList.flatten =
          d.buffer ++ (next source).1.2.getD [] := by
        unfold deltaOf
        rw [if_neg (by simp [htype]), hdelta]
      have hreset := @detectorOf_buffer (d.append (next source).1.1 (next source).1.2)
        (by simp [htype])
      rw [generate_eos htype, if_pos htoken]
      constructor
      · intro _
        unfold Generated.delivered
        rw [hdelivered, hreset, spoken_cons, List.append_nil]
        simp [spoken]
      · intro hstop
        cases hstop
      · intro hlimit
        cases hlimit
      · intro _ _ _
        exact hreset
    | stops htype htoken stop hstop right htext' hright =>
      have hdelivered : (deltaOf (d.append (next source).1.1 (next source).1.2)).toList.flatten =
          (d.append (next source).1.1 (next source).1.2).2.getDelta.toList.flatten := by
        unfold deltaOf
        rw [if_neg (by simp [htype])]
      rw [generate_eos htype, if_neg htoken]
      constructor
      · intro hnot
        exact absurd (Eq.refl _) hnot
      · intro _
        refine ⟨stop, hstop, right, ?_, hright⟩
        unfold Generated.delivered
        rw [hdelivered, ← htext', spoken_cons]
        simp [spoken]
      · intro hlimit
        cases hlimit
      · intro hnot
        exact absurd (Eq.refl _) hnot
    | holds htype hbuffer hne =>
      have hheld : detectorOf (d.append (next source).1.1 (next source).1.2) =
        (d.append (next source).1.1 (next source).1.2).2 := if_pos htype
      have hnone : deltaOf (d.append (next source).1.1 (next source).1.2) = none := if_pos htype
      rw [generate_more (by simp [htype]) (Eq.refl _)] at hplain ⊢
      refine Accounts.more ⟨?_, ?_, ?_⟩ hsame (ih ?_ ?_ ?_) generate_last_none
      · rw [hnone, hheld, hbuffer]
        rfl
      · intro _
        rw [hheld, hbuffer]
        exact hne
      · intro hnot
        exact absurd htype hnot
      · rw [hsame.pieces]
        exact hstops
      · rw [hheld, hbuffer]
        exact htext
      · exact fun call hmem => hplain call (List.mem_cons_of_mem _ hmem)
    | delivers htype hdelta =>
      have hreset := @detectorOf_buffer (d.append (next source).1.1 (next source).1.2)
        (by simp [htype])
      have hshown : (deltaOf (d.append (next source).1.1 (next source).1.2)).toList.flatten =
          d.buffer ++ (next source).1.2.getD [] := by
        unfold deltaOf
        rw [if_neg (by simp [htype]), hdelta]
      rw [generate_more (by simp [htype]) (Eq.refl _)] at hplain ⊢
      refine Accounts.more ⟨?_, ?_, ?_⟩ hsame (ih ?_ ?_ ?_) generate_last_none
      · rw [hreset, List.append_nil]
        exact hshown
      · intro hmaybe
        rw [htype] at hmaybe
        cases hmaybe
      · intro _
        exact hreset
      · rw [hsame.pieces]
        exact hstops
      · rw [hreset]
        exact List.not_mem_nil
      · exact fun call hmem => hplain call (List.mem_cons_of_mem _ hmem)

/-- All text is delivered, or all before a stop that was detected, exactly when the loop does not end at its limit
while the text may become a stop. -/
theorem conserves_iff_holdsBack (next : σ → Call × σ) (n : ℕ) (source : σ) {d : EosDetector} (hempty : d.buffer = [])
    (hstops : ∀ stop ∈ d.pieces, stop ≠ []) (hplain : Plain (generate next n source d).calls) :
    Conserves d (generate next n source d) ↔ ¬HoldsBack (generate next n source d) := by
  have haccounts := generate_accounts hstops (by rw [hempty]; exact List.not_mem_nil) hplain
  constructor
  · intro hconserves hholds
    have hending : (generate next n source d).ending ≠ .stop := by
      simp [hholds.1]
    have hwhole := haccounts.whole hending
    rw [hempty, List.nil_append, ← hconserves.1 hending] at hwhole
    exact haccounts.held hholds.1 hholds.2 
      (List.append_cancel_left (hwhole.trans (List.append_nil _).symm))
  · intro hholds
    constructor
    · intro hending
      have hwhole := haccounts.whole hending
      rw [haccounts.empty hending hholds (Or.inr hempty), hempty, List.append_nil] at hwhole
      exact hwhole
    · intro hending
      have hstopped := haccounts.stopped hending
      rw [hempty] at hstopped
      exact hstopped

/-- At the limit something is held back exactly when something is in the buffer. -/
theorem holdsBack_iff_buffer {n : ℕ} {source : σ} {d : EosDetector} (hempty : d.buffer = [])
    (hstops : ∀ stop ∈ d.pieces, stop ≠ []) (hplain : Plain (generate next n source d).calls) :
    HoldsBack (generate next n source d) ↔
      (generate next n source d).ending = .limit ∧ (generate next n source d).detector.buffer ≠ [] := by
  have haccounts := generate_accounts hstops (by rw [hempty]; exact List.not_mem_nil) hplain
  constructor
  · intro hholds
    exact ⟨hholds.1, haccounts.held hholds.1 hholds.2⟩
  · intro h
    obtain ⟨hlimit, hbuffer⟩ := h
    by_contra hholds
    exact hbuffer (haccounts.empty (by simp [hlimit]) hholds (Or.inr hempty))

/-- The buffer at the limit is what is left of the pieces. -/
theorem generate_held {n : ℕ} {source : σ} {d₀ d : EosDetector} (hsame : SameStops d₀ d)
    (hstops : ∀ stop ∈ d.pieces, stop ≠ []) (hnul : 0 ∉ d.buffer)
    (hplain : Plain (generate next n source d).calls) (held : List UInt8) :
    (generate next n source d).ending = .limit ∧ (generate next n source d).detector.buffer = held ↔
      Held d₀ d.buffer (sampled next n source) held := by
  induction n generalizing source d with
  | zero =>
    constructor
    · intro h
      rw [← h.2]
      exact .nil d.buffer
    · intro h
      cases h
      exact ⟨Eq.refl _, Eq.refl _⟩
  | succ n ih =>
    have htext : 0 ∉ d.buffer ++ (next source).1.2.getD [] := by
      rw [List.mem_append]
      exact not_or.mpr ⟨hnul, hplain _ generate_calls_head⟩
    have hlater := detectorOf_sameStops (append_sameStops d (next source).1.1 (next source).1.2)
    have hanswers : Answers d (next source).1.1 (d.buffer ++ (next source).1.2.getD [])
      (d.append (next source).1.1 (next source).1.2) := append_answers hstops htext
    have htokens (htype : (d.append (next source).1.1 (next source).1.2).1 ≠ .eos) :
        (next source).1.1 ∉ d.tokens := by
      intro htoken
      refine htype ?_
      unfold EosDetector.append
      rw [if_pos htoken]
    have hmaybe (htoken : (next source).1.1 ∉ d₀.tokens) :
        (d.append (next source).1.1 (next source).1.2).1 = .maybeEos ↔
          Unfinished d₀ (d.buffer ++ (next source).1.2.getD []) :=
      (append_maybeEos_iff hstops (hsame.tokens ▸ htoken)).trans (hsame.unfinished_iff _)
    have hnot (htoken : (next source).1.1 ∉ d₀.tokens) :
        (d.append (next source).1.1 (next source).1.2).1 = .notEos ↔
          ∀ stop ∈ d₀.pieces, ¬d₀.Begins stop (d.buffer ++ (next source).1.2.getD []) :=
      (append_detects_text hstops (hsame.tokens ▸ htoken) (Eq.refl _) htext).notEos.trans
        (hsame.begins_iff _)
    have hover (htype : (d.append (next source).1.1 (next source).1.2).1 = .eos) :
        ¬Held d₀ d.buffer (sampled next (n + 1) source) held := by
      intro h
      cases h with
      | begins htoken hbegins _ =>
        rw [(hmaybe htoken).mpr hbegins] at htype
        cases htype
      | shown htoken hbegins _ =>
        rw [(hnot htoken).mpr hbegins] at htype
        cases htype
    cases hanswers with
    | ends htype htoken _ =>
      rw [generate_eos htype, if_pos htoken]
      exact iff_of_false (fun h => by cases h.1) (hover htype)
    | stops htype htoken _ _ _ _ _ =>
      rw [generate_eos htype, if_neg htoken]
      exact iff_of_false (fun h => by cases h.1) (hover htype)
    | holds htype hbuffer _ =>
      have htoken : (next source).1.1 ∉ d₀.tokens := hsame.tokens ▸ htokens (by simp [htype])
      have hheld : detectorOf (d.append (next source).1.1 (next source).1.2) =
        (d.append (next source).1.1 (next source).1.2).2 := if_pos htype
      rw [generate_more (by simp [htype]) (Eq.refl _)] at hplain ⊢
      have hrest := ih (hsame.trans hlater) (hlater.pieces ▸ hstops)
        (by rw [hheld, hbuffer]; exact htext)
        fun call hmem => hplain call (List.mem_cons_of_mem _ hmem)
      refine hrest.trans ?_
      rw [hheld, hbuffer]
      constructor
      · exact .begins htoken ((hmaybe htoken).mp htype)
      · intro h
        cases h with
        | begins _ _ hrest => exact hrest
        | shown _ hbegins _ =>
          rw [(hnot htoken).mpr hbegins] at htype
          cases htype
    | delivers htype _ =>
      have htoken : (next source).1.1 ∉ d₀.tokens := hsame.tokens ▸ htokens (by simp [htype])
      have hreset := @detectorOf_buffer (d.append (next source).1.1 (next source).1.2)
        (by simp [htype])
      rw [generate_more (by simp [htype]) (Eq.refl _)] at hplain ⊢
      have hrest := ih (hsame.trans hlater) (hlater.pieces ▸ hstops)
        (by rw [hreset]; exact List.not_mem_nil)
        fun call hmem => hplain call (List.mem_cons_of_mem _ hmem)
      refine hrest.trans ?_
      rw [hreset]
      constructor
      · exact .shown htoken ((hnot htoken).mp htype)
      · intro h
        cases h with
        | begins _ hbegins _ =>
          rw [(hmaybe htoken).mpr hbegins] at htype
          cases htype
        | shown _ _ hrest => exact hrest

/-- The loop holds text back exactly when the pieces leave some. -/
theorem holdsBack_iff {n : ℕ} {source : σ} {d : EosDetector} (hempty : d.buffer = [])
    (hstops : ∀ stop ∈ d.pieces, stop ≠ []) (hplain : Plain (generate next n source d).calls) :
    HoldsBack (generate next n source d) ↔ LosesText d (sampled next n source) := by
  have hheld := generate_held ⟨Eq.refl _, Eq.refl _, Eq.refl _, Eq.refl _⟩ hstops
    (by rw [hempty]; exact List.not_mem_nil) hplain
  rw [holdsBack_iff_buffer hempty hstops hplain]
  constructor
  · intro h
    refine ⟨_, ?_, h.2⟩
    rw [← hempty]
    exact (hheld _).mp ⟨h.1, Eq.refl _⟩
  · intro h
    obtain ⟨held, hleft, hne⟩ := h
    rw [← hempty] at hleft
    obtain ⟨hlimit, hbuffer⟩ := (hheld held).mpr hleft
    exact ⟨hlimit, hbuffer ▸ hne⟩

/-- All text is delivered, or all before a stop that was detected, exactly when not all pieces are sampled without
a whole stop and leave some text that begins one. The run then ends at its limit with an unfinished answer. -/
theorem conserves_iff (next : σ → Call × σ) (n : ℕ) (source : σ) {d : EosDetector} (hempty : d.buffer = [])
    (hstops : ∀ stop ∈ d.pieces, stop ≠ []) (hplain : Plain (generate next n source d).calls) :
    (Conserves d (generate next n source d) ↔ ¬LosesText d (sampled next n source)) ∧
      (LosesText d (sampled next n source) ↔ HoldsBack (generate next n source d)) := by
  have hholds := holdsBack_iff hempty hstops hplain
  exact ⟨(conserves_iff_holdsBack next n source hempty hstops hplain).trans (not_congr hholds), hholds.symm⟩

end Runs

section Sources

variable {σ τ : Type}

/-- The loop keeps the stops. -/
theorem generate_sameStops (next : σ → Call × σ) (n : ℕ) (source : σ) (d : EosDetector) :
    SameStops d (generate next n source d).detector := by
  induction n generalizing source d with
  | zero => exact ⟨Eq.refl _, Eq.refl _, Eq.refl _, Eq.refl _⟩
  | succ n ih =>
    have hsame := detectorOf_sameStops (append_sameStops d (next source).1.1 (next source).1.2)
    by_cases heos : (d.append (next source).1.1 (next source).1.2).1 = .eos
    · rw [generate_eos heos]
      exact hsame
    · rw [generate_more heos (Eq.refl _)]
      exact hsame.trans (ih _ _)

/-- What each step keeps of the source, the loop keeps. -/
theorem generate_keeps {next : σ → Call × σ} {P : σ → Prop} (hnext : ∀ source, P source → P (next source).2)
    (n : ℕ) {source : σ} (h : P source) (d : EosDetector) : P (generate next n source d).source := by
  induction n generalizing source d with
  | zero => exact h
  | succ n ih =>
    by_cases heos : (d.append (next source).1.1 (next source).1.2).1 = .eos
    · rw [generate_eos heos]
      exact hnext source h
    · rw [generate_more heos (Eq.refl _)]
      exact ih (hnext source h) _

/-- A loop of one position takes one token. -/
theorem generate_one_source (next : σ → Call × σ) (source : σ) (d : EosDetector) :
    (generate next 1 source d).source = (next source).2 := by
  by_cases heos : (d.append (next source).1.1 (next source).1.2).1 = .eos
  · rw [generate_eos heos]
  · rw [generate_more heos (Eq.refl _)]
    rfl

/-- The same was done with other sources. -/
structure SameRun (r : σ → τ → Prop) (g : Generated σ) (g' : Generated τ) : Prop where
  /-- What was delivered. -/
  deltas : g.deltas = g'.deltas
  /-- Tokens and their pieces. -/
  calls : g.calls = g'.calls
  /-- What the detector has returned last. -/
  last : g.last = g'.last
  /-- How it has ended. -/
  ending : g.ending = g'.ending
  /-- The sources are still related. -/
  source : r g.source g'.source

/-- Where the text ended before does not matter. -/
theorem append_eosPos (d : EosDetector) (eosPos tokenId : ℤ) (piece : Option (List UInt8)) :
    EosDetector.append { d with eosPos := eosPos } tokenId piece = d.append tokenId piece := Eq.refl _

/-- Sources that give the same tokens, step by step, make the same run. -/
theorem generate_congr {next : σ → Call × σ} {next' : τ → Call × τ} {r : σ → τ → Prop}
    (hnext : ∀ source source', r source source' →
      (next source).1 = (next' source').1 ∧ r (next source).2 (next' source').2)
    (n : ℕ) {source : σ} {source' : τ} (h : r source source') (d : EosDetector) (eosPos : ℤ) :
    SameRun r (generate next n source d) (generate next' n source' { d with eosPos := eosPos }) := by
  induction n generalizing source source' d eosPos with
  | zero => exact ⟨Eq.refl _, Eq.refl _, Eq.refl _, Eq.refl _, h⟩
  | succ n ih =>
    obtain ⟨hcall, hrelated⟩ := hnext source source' h
    by_cases heos : (d.append (next source).1.1 (next source).1.2).1 = .eos
    · have heos' : (EosDetector.append { d with eosPos := eosPos } (next' source').1.1
          (next' source').1.2).1 = .eos := by
        rw [append_eosPos, ← hcall]
        exact heos
      rw [generate_eos heos, generate_eos heos', append_eosPos d eosPos, hcall]
      exact ⟨Eq.refl _, Eq.refl _, Eq.refl _, Eq.refl _, hrelated⟩
    · have heos' : (EosDetector.append { d with eosPos := eosPos } (next' source').1.1
          (next' source').1.2).1 ≠ .eos := by
        rw [append_eosPos, ← hcall]
        exact heos
      have hrest : SameRun r
          (generate next n (next source).2 (detectorOf (d.append (next source).1.1 (next source).1.2)))
          (generate next' n (next' source').2 (detectorOf (d.append (next source).1.1 (next source).1.2))) :=
        ih hrelated _ (detectorOf (d.append (next source).1.1 (next source).1.2)).eosPos
      rw [generate_more heos (Eq.refl _), generate_more heos' (Eq.refl _), append_eosPos d eosPos]
      rw [hcall] at hrest ⊢
      constructor
      · rw [hrest.deltas]
      · rw [hrest.calls]
      · rw [hrest.last]
      · exact hrest.ending
      · exact hrest.source

end Sources

/-- A detector of one stop. -/
def stopDetector : EosDetector := ⟨[10], [[0x3c, 0x2f, 0x73, 0x3e]], 0, 0, [], -1⟩

/-- A source of one piece after the other. -/
def pieces : List (List UInt8) → Call × List (List UInt8)
  | [] => ((10, none), [])
  | piece :: rest => ((1, some piece), rest)

theorem conserves_iff_stop :
    (Conserves stopDetector (generate pieces 3 [[0x61], [0x3c, 0x2f], [0x73, 0x3e]] stopDetector) ↔
      ¬LosesText stopDetector (sampled pieces 3 [[0x61], [0x3c, 0x2f], [0x73, 0x3e]])) ∧
      (LosesText stopDetector (sampled pieces 3 [[0x61], [0x3c, 0x2f], [0x73, 0x3e]]) ↔
        HoldsBack (generate pieces 3 [[0x61], [0x3c, 0x2f], [0x73, 0x3e]] stopDetector)) :=
  conserves_iff pieces 3 _ (Eq.refl _) (by decide) (by unfold Plain; decide)

/-- The second piece begins the stop and is lost at the limit. -/
theorem not_conserves_limit :
    (generate pieces 2 [[0x61], [0x3c], [0x62]] stopDetector).delivered = [0x61] ∧
      spoken (generate pieces 2 [[0x61], [0x3c], [0x62]] stopDetector).calls = [0x61, 0x3c] ∧
      ¬Conserves stopDetector (generate pieces 2 [[0x61], [0x3c], [0x62]] stopDetector) := by
  refine ⟨by decide, by decide, fun hconserves => ?_⟩
  have hwhole := hconserves.1 (by decide)
  revert hwhole
  decide

end LayerSkip.CompletionLoop
