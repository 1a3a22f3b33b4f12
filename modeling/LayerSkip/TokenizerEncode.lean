import LayerSkip.PairMerging
import LayerSkip.TokenizerDecode
import Mathlib.Data.Int.Order.Basic

/-!
# Encoder

A text is cut into special tokens, where one begins, and into the shortest regular tokens between them. Then
the best pair of neighbours is merged as long as there is one.
-/

namespace LayerSkip.TokenizerEncode

open TokenizerDecode PairMerging

/-- The vocabulary with its scores. A score that is no number is never above another, like a least one. -/
structure Encoder (F : Type) extends Tokenizer where
  /-- Scores of the tokens. -/
  vocabScores : ℕ → F
  /-- Whether a text begins with a token of its own. -/
  addBos : Bool

namespace Encoder

variable {F : Type}

/-- The token before a text splits the vocabulary. -/
def regularVocabSize (t : Encoder F) : ℕ := t.bosId.toNat

/-- The first special token that the bytes start with. -/
def findSpecialTokenStartWith (t : Encoder F) (piece : List UInt8) : Option ℕ :=
  (List.range' t.regularVocabSize (t.vocab.length - t.regularVocabSize)).find? fun tokenId =>
    decide (t.piece tokenId <+: piece)

/-- The regular token with a string. -/
def findRegularToken (t : Encoder F) (piece : List UInt8) : Option ℕ :=
  (List.range t.regularVocabSize).find? fun id => decide (t.piece id = piece)

/-- The special token at a place of the text, if they are looked for. -/
def special (t : Encoder F) (addSpecialTokens : Bool) (c : List UInt8) : Option ℕ :=
  if addSpecialTokens then t.findSpecialTokenStartWith c else none

/-- The loop over the text: so many bytes are still to be skipped, and these have been collected. -/
def scan (t : Encoder F) (addSpecialTokens : Bool) :
    ℕ → List UInt8 → List UInt8 → Except String (List ℕ)
  | _, [], strBuffer => if strBuffer.length = 0 then .ok [] else .error "assertion: strLen == 0"
  | skip + 1, _ :: text, strBuffer => scan t addSpecialTokens skip text strBuffer
  | 0, c :: text, strBuffer =>
    match t.special addSpecialTokens (c :: text) with
    | some specialTokenId => do
      let tokens ← scan t addSpecialTokens ((t.piece specialTokenId).length - 1) text strBuffer
      return specialTokenId :: tokens
    | none =>
      if strBuffer.length + 1 < t.strBufferSize then
        match t.findRegularToken (strBuffer ++ [c]) with
        | some id => do
          let tokens ← scan t addSpecialTokens 0 text []
          return id :: tokens
        | none => scan t addSpecialTokens 0 text (strBuffer ++ [c])
      else .error "assertion: strLen < strBufferSize"

end Encoder

/-- The best pair so far. -/
structure Best (F : Type) where
  /-- Its score. -/
  score : F
  /-- Its index, and the token it is merged to. -/
  merge : Option (ℕ × ℕ)

namespace Encoder

variable {F : Type} [LinearOrder F]

/-- Look at a pair, whose strings are printed into the buffer. -/
def tryPair (t : Encoder F) (i x y : ℕ) (best : Best F) : Best F :=
  match t.findRegularToken ((t.piece x ++ t.piece y).take (t.strBufferSize - 1)) with
  | some id =>
    if best.score < t.vocabScores id then ⟨t.vocabScores id, some (i, id)⟩ else best
  | none => best

/-- Look at all pairs from an index on. -/
def bestPair (t : Encoder F) : ℕ → List ℕ → Best F → Best F
  | i, x :: y :: tokens, best => bestPair t (i + 1) (y :: tokens) (t.tryPair i x y best)
  | _, _, best => best

/-- One turn of the merge loop, where nothing scores less than the lowest score. -/
def mergeStep (t : Encoder F) (lowest : F) (tokens : List ℕ) : Option (List ℕ) :=
  match (t.bestPair 0 tokens ⟨lowest, none⟩).merge with
  | none => none
  | some (i, id) => some ((tokens.set i id).eraseIdx (i + 1))

/-- What is written before the text. -/
def start (t : Encoder F) (isStart : Bool) : List ℕ :=
  if isStart ∧ t.addBos ∧ 0 ≤ t.bosId then [t.bosId.toNat] else []

/-- Encode the bytes of a text up to its end. -/
def encode (t : Encoder F) (lowest : F) (text : Option (List UInt8)) (isStart addSpecialTokens : Bool) :
    Except String (List ℕ) :=
  match text with
  | none => .error "Input text is null"
  | some text => do
    let tokens ← t.scan addSpecialTokens 0 text []
    return run (t.mergeStep lowest) (t.start isStart ++ tokens).length (t.start isStart ++ tokens)

end Encoder

section Merge

variable {F : Type} [LinearOrder F] {t : Encoder F} {lowest : F}

/-- What a pair is merged to. -/
def Encoder.join (t : Encoder F) (lowest : F) (x y : ℕ) : Option ℕ :=
  match t.findRegularToken ((t.piece x ++ t.piece y).take (t.strBufferSize - 1)) with
  | some id => if lowest < t.vocabScores id then some id else none
  | none => none

/-- A pair that is better than the best so far is merged, another is not. -/
theorem tryPair_cases {best : Best F} (hbest : lowest ≤ best.score) (i x y : ℕ) :
    (t.tryPair i x y best = best ∧ ∀ z, t.join lowest x y = some z → t.vocabScores z ≤ best.score) ∨
      ∃ z, t.join lowest x y = some z ∧ best.score < t.vocabScores z ∧
        t.tryPair i x y best = ⟨t.vocabScores z, some (i, z)⟩ := by
  unfold Encoder.tryPair Encoder.join
  cases h : t.findRegularToken ((t.piece x ++ t.piece y).take (t.strBufferSize - 1)) with
  | none =>
    left
    simp
  | some id =>
    simp only
    by_cases hless : best.score < t.vocabScores id
    · right
      have hlowest := lt_of_le_of_lt hbest hless
      exact ⟨id, if_pos hlowest, hless, if_pos hless⟩
    · left
      rw [if_neg hless]
      refine ⟨Eq.refl _, fun z hz => ?_⟩
      split at hz
      · cases hz
        exact le_of_not_gt hless
      · cases hz

/-- The best of all pairs, the first of several. -/
theorem bestPair_cases (i : ℕ) (tokens : List ℕ) {best : Best F} (hbest : lowest ≤ best.score) :
    (t.bestPair i tokens best = best ∧ ∀ x y z, Adjacent tokens x y →
      t.join lowest x y = some z → t.vocabScores z ≤ best.score) ∨
    ∃ front x y z back, tokens = front ++ x :: y :: back ∧ t.join lowest x y = some z ∧
      t.bestPair i tokens best = ⟨t.vocabScores z, some (i + front.length, z)⟩ ∧
      best.score < t.vocabScores z ∧
      (∀ u v w, Adjacent (front ++ [x]) u v → t.join lowest u v = some w →
        t.vocabScores w < t.vocabScores z) ∧
      ∀ u v w, Adjacent (y :: back) u v → t.join lowest u v = some w →
        t.vocabScores w ≤ t.vocabScores z := by
  induction tokens generalizing i best with
  | nil =>
    left
    exact ⟨Eq.refl _, fun x y z h => absurd h not_adjacent_nil⟩
  | cons x tokens ih =>
    cases tokens with
    | nil =>
      left
      exact ⟨Eq.refl _, fun x y z h => absurd h not_adjacent_singleton⟩
    | cons y tokens =>
      rw [Encoder.bestPair]
      cases tryPair_cases (t := t) hbest i x y with
      | inl hworse =>
        obtain ⟨hsame, hle⟩ := hworse
        rw [hsame]
        cases ih (i + 1) hbest with
        | inl hall =>
          left
          refine ⟨hall.1, fun u v w hadjacent hw => ?_⟩
          cases adjacent_cons_cons.mp hadjacent with
          | inl hfirst =>
            rw [hfirst.1, hfirst.2] at hw
            exact hle w hw
          | inr hother => exact hall.2 u v w hother hw
        | inr hlater =>
          obtain ⟨front, x', y', z, back, heq, hz, hresult, hless, hbefore, hbehind⟩ := hlater
          right
          refine ⟨x :: front, x', y', z, back, by rw [heq]; exact Eq.refl _, hz, ?_, hless, ?_, hbehind⟩
          · rw [hresult, List.length_cons]
            congr 3
            omega
          · intro u v w hadjacent hw
            cases (adjacent_cons_front heq).mp hadjacent with
            | inl hfirst =>
              rw [hfirst.1, hfirst.2] at hw
              exact lt_of_le_of_lt (hle w hw) hless
            | inr hother => exact hbefore u v w hother hw
      | inr hbetter =>
        obtain ⟨z₁, hz₁, hless₁, hnow⟩ := hbetter
        have hbest₁ : lowest ≤ (⟨t.vocabScores z₁, some (i, z₁)⟩ : Best F).score :=
          le_of_lt (lt_of_le_of_lt hbest hless₁)
        rw [hnow]
        right
        cases ih (i + 1) hbest₁ with
        | inl hall =>
          refine ⟨[], x, y, z₁, tokens, Eq.refl _, hz₁, hall.1, hless₁, ?_, hall.2⟩
          intro u v w hadjacent
          exact absurd hadjacent not_adjacent_singleton
        | inr hlater =>
          obtain ⟨front, x', y', z, back, heq, hz, hresult, hless, hbefore, hbehind⟩ := hlater
          refine ⟨x :: front, x', y', z, back, by rw [heq]; exact Eq.refl _, hz, ?_,
            lt_trans hless₁ hless, ?_, hbehind⟩
          · rw [hresult, List.length_cons]
            congr 3
            omega
          · intro u v w hadjacent hw
            cases (adjacent_cons_front heq).mp hadjacent with
            | inl hfirst =>
              rw [hfirst.1, hfirst.2, hz₁] at hw
              cases hw
              exact hless
            | inr hother => exact hbefore u v w hother hw

/-- A turn of the merge loop merges the best pair. -/
theorem mergeStep_isMerger (t : Encoder F) (lowest : F) : IsMerger (t.join lowest) t.vocabScores (t.mergeStep lowest) := by
  constructor
  · intro tokens next h
    have hbest : lowest ≤ (Best.mk lowest none).score := le_refl lowest
    unfold Encoder.mergeStep at h
    cases bestPair_cases (t := t) 0 tokens hbest with
    | inl hnone =>
      rw [hnone.1] at h
      cases h
    | inr hsome =>
      obtain ⟨front, x, y, z, back, heq, hz, hresult, _, hbefore, hbehind⟩ := hsome
      rw [hresult] at h
      simp only [Option.some.injEq, Nat.zero_add] at h
      refine ⟨front, x, y, z, back, heq, ?_, hz, hbefore, hbehind⟩
      rw [← h, heq]
      simp [List.set_append_right, List.eraseIdx_append_of_length_le]
  · intro tokens h x y hadjacent
    have hbest : lowest ≤ (Best.mk lowest none).score := le_refl lowest
    unfold Encoder.mergeStep at h
    cases bestPair_cases (t := t) 0 tokens hbest with
    | inl hnone =>
      cases hjoin : t.join lowest x y with
      | none => exact Eq.refl _
      | some z =>
        have hle := hnone.2 x y z hadjacent hjoin
        unfold Encoder.join at hjoin
        split at hjoin
        · split at hjoin
          · cases hjoin
            rename_i hless
            exact absurd hle (not_le_of_gt hless)
          · cases hjoin
        · cases hjoin
    | inr hsome =>
      obtain ⟨front, x', y', z, back, _, _, hresult, _⟩ := hsome
      rw [hresult] at h
      cases h

end Merge

section Vocabulary

variable {F : Type} {t : Encoder F} {token : ℕ} {piece : List UInt8}

/-- A vocabulary as it is read from a file, of strings that are not empty. -/
structure Encoder.Valid (t : Encoder F) : Prop where
  /-- Strings are not empty, and the longest one has been measured. -/
  length : ∀ entry ∈ t.vocab, 1 ≤ entry.length ∧ entry.length ≤ t.maxTokenLength
  /-- A string ends before its terminator. -/
  nul : ∀ entry ∈ t.vocab, 0 ∉ entry
  /-- Regular tokens have different strings. -/
  regular : ∀ x y, x < t.regularVocabSize → y < t.regularVocabSize → t.piece x = t.piece y → x = y
  /-- The token before a text splits the vocabulary. -/
  bosId : 0 ≤ t.bosId ∧ t.regularVocabSize ≤ t.vocab.length
  /-- It is in the vocabulary if it is written. -/
  addBos : t.addBos = true → t.regularVocabSize < t.vocab.length

theorem piece_length_le (h : t.Valid) (token : ℕ) : (t.piece token).length ≤ t.maxTokenLength := by
  by_cases hlt : token < t.vocab.length
  · exact (h.length _ (piece_mem hlt)).2
  · unfold Tokenizer.piece
    rw [List.getD_eq_getElem?_getD, List.getElem?_eq_none (Nat.le_of_not_lt hlt)]
    exact Nat.zero_le _

/-- The regular token with a string, if there is one. -/
theorem findRegularToken_eq_some (h : t.Valid) :
    t.findRegularToken piece = some token ↔ token < t.regularVocabSize ∧ t.piece token = piece := by
  unfold Encoder.findRegularToken
  constructor
  · intro hfind
    have hmem := List.mem_of_find?_eq_some hfind
    have hpiece := List.find?_some hfind
    rw [decide_eq_true_eq] at hpiece
    exact ⟨List.mem_range.mp hmem, hpiece⟩
  · intro htoken
    cases hfind : (List.range t.regularVocabSize).find? fun id => decide (t.piece id = piece) with
    | none =>
      have hnone := List.find?_eq_none.mp hfind token (List.mem_range.mpr htoken.1)
      simp [htoken.2] at hnone
    | some other =>
      have hlt := List.mem_range.mp (List.mem_of_find?_eq_some hfind)
      have hpiece := List.find?_some hfind
      rw [decide_eq_true_eq] at hpiece
      rw [h.regular other token hlt htoken.1 (hpiece.trans htoken.2.symm)]

/-- A pair is never cut off in the buffer. -/
theorem join_eq_some [LinearOrder F] {lowest : F} (h : t.Valid) {x y z : ℕ} : t.join lowest x y = some z ↔
    z < t.regularVocabSize ∧ t.piece z = t.piece x ++ t.piece y ∧ lowest < t.vocabScores z := by
  have hx := piece_length_le h x
  have hy := piece_length_le h y
  have hwhole : (t.piece x ++ t.piece y).take (t.strBufferSize - 1) = t.piece x ++ t.piece y := by
    apply List.take_of_length_le
    rw [List.length_append]
    unfold Tokenizer.strBufferSize
    split <;> omega
  unfold Encoder.join
  rw [hwhole]
  cases hfind : t.findRegularToken (t.piece x ++ t.piece y) with
  | none =>
    simp only [reduceCtorEq, false_iff]
    intro hz
    rw [(findRegularToken_eq_some h).mpr ⟨hz.1, hz.2.1⟩] at hfind
    cases hfind
  | some id =>
    have hid := (findRegularToken_eq_some h).mp hfind
    simp only
    constructor
    · intro hz
      split at hz
      · rename_i hless
        cases hz
        exact ⟨hid.1, hid.2, hless⟩
      · cases hz
    · intro hz
      have hsame := h.regular id z hid.1 hz.1 (hid.2.trans hz.2.1.symm)
      rw [hsame]
      exact if_pos hz.2.2

/-- A special token begins where one is found, and nowhere else. -/
theorem special_eq_some {addSpecialTokens : Bool}
    (h : t.special addSpecialTokens piece = some token) :
    addSpecialTokens = true ∧ t.piece token <+: piece ∧ token < t.vocab.length ∧
      ∀ other, t.piece token <+: other → t.special addSpecialTokens other ≠ none := by
  unfold Encoder.special Encoder.findSpecialTokenStartWith at h ⊢
  split at h
  · rename_i hadd
    have hmem := List.mem_of_find?_eq_some h
    have hprefix := List.find?_some h
    rw [decide_eq_true_eq] at hprefix
    have hrange := List.mem_range'_1.mp hmem
    refine ⟨hadd, hprefix, by omega, fun other hother hnone => ?_⟩
    rw [if_pos hadd] at hnone
    have hnot := List.find?_eq_none.mp hnone token hmem
    simp [hother] at hnot
  · cases h

end Vocabulary

section Scan

variable {F : Type} {t : Encoder F} {addSpecialTokens : Bool}

/-- Bytes that are taken as a regular token behind collected ones: the first that are one, and no special token
begins among them. -/
structure Takes (t : Encoder F) (addSpecialTokens : Bool) (strBuffer front back : List UInt8)
    (token : ℕ) : Prop where
  /-- A byte is read. -/
  ne : front ≠ []
  /-- They are a regular token. -/
  token : t.findRegularToken (strBuffer ++ front) = some token
  /-- Fewer are not. -/
  shorter : ∀ part others, front = part ++ others → part ≠ [] → others ≠ [] →
    t.findRegularToken (strBuffer ++ part) = none
  /-- No special token begins. -/
  special : ∀ part others, front = part ++ others → others ≠ [] →
    t.special addSpecialTokens (others ++ back) = none

/-- The text is a sequence of special tokens and of the shortest regular tokens, in which none of the special
ones begins. -/
inductive Tiles (t : Encoder F) (addSpecialTokens : Bool) : List UInt8 → List ℕ → Prop
  /-- No text. -/
  | nil : Tiles t addSpecialTokens [] []
  /-- A special token. -/
  | special {text : List UInt8} {token : ℕ} {tokens : List ℕ}
      (htoken : t.special addSpecialTokens text = some token)
      (hrest : Tiles t addSpecialTokens (text.drop (t.piece token).length) tokens) :
      Tiles t addSpecialTokens text (token :: tokens)
  /-- A regular token. -/
  | regular {front back : List UInt8} {token : ℕ} {tokens : List ℕ}
      (htakes : Takes t addSpecialTokens [] front back token)
      (hrest : Tiles t addSpecialTokens back tokens) :
      Tiles t addSpecialTokens (front ++ back) (token :: tokens)

/-- A token, and those behind it. -/
theorem bind_tokens {scanned : Except String (List ℕ)} {token : ℕ} {tokens : List ℕ}
    (h : (do let others ← scanned; return token :: others) = Except.ok tokens) :
    ∃ others, scanned = .ok others ∧ tokens = token :: others := by
  cases scanned with
  | error e => cases h
  | ok others =>
    cases h
    exact ⟨others, Eq.refl _, Eq.refl _⟩

theorem scan_nil (skip : ℕ) (strBuffer : List UInt8) (tokens : List ℕ) :
    t.scan addSpecialTokens skip [] strBuffer = .ok tokens ↔ strBuffer = [] ∧ tokens = [] := by
  cases strBuffer with
  | nil =>
    have hscan : t.scan addSpecialTokens skip [] [] = .ok [] := by
      cases skip <;> exact Eq.refl _
    rw [hscan]
    simp [eq_comm]
  | cons b strBuffer =>
    have hscan : t.scan addSpecialTokens skip [] (b :: strBuffer) =
        .error "assertion: strLen == 0" := by
      cases skip <;> exact Eq.refl _
    rw [hscan]
    simp

/-- Skipped bytes. -/
theorem scan_skip {skip : ℕ} {text : List UInt8} (hskip : skip ≤ text.length) (strBuffer : List UInt8) :
    t.scan addSpecialTokens skip text strBuffer =
      t.scan addSpecialTokens 0 (text.drop skip) strBuffer := by
  induction skip generalizing text with
  | zero => exact Eq.refl _
  | succ skip ih =>
    cases text with
    | nil => simp at hskip
    | cons c text => rw [Encoder.scan, List.drop_succ_cons, ih (Nat.le_of_succ_le_succ hskip)]

/-- Every byte leads to one token at most. -/
theorem scan_length {skip : ℕ} {text strBuffer : List UInt8} {tokens : List ℕ}
    (h : t.scan addSpecialTokens skip text strBuffer = .ok tokens) : tokens.length ≤ text.length := by
  induction text generalizing skip strBuffer tokens with
  | nil =>
    rw [((scan_nil skip strBuffer tokens).mp h).2]
    exact Nat.le_refl 0
  | cons c text ih =>
    cases skip with
    | succ skip => exact Nat.le_succ_of_le (ih h)
    | zero =>
      rw [Encoder.scan] at h
      split at h
      · obtain ⟨others, hothers, hok⟩ := bind_tokens h
        rw [hok]
        exact Nat.succ_le_succ (ih hothers)
      · split at h
        · split at h
          · obtain ⟨others, hothers, hok⟩ := bind_tokens h
            rw [hok]
            exact Nat.succ_le_succ (ih hothers)
          · exact Nat.le_succ_of_le (ih h)
        · cases h

/-- A special token is written, whatever has been collected. -/
theorem scan_special {text strBuffer : List UInt8} {token : ℕ} {tokens : List ℕ}
    (hspecial : t.special addSpecialTokens text = some token) (hne : t.piece token ≠ [])
    (h : t.scan addSpecialTokens 0 text strBuffer = .ok tokens) :
    ∃ others, tokens = token :: others ∧
      t.scan addSpecialTokens 0 (text.drop (t.piece token).length) strBuffer = .ok others := by
  have hpos := List.length_pos_iff.mpr hne
  have hle := (special_eq_some hspecial).2.1.length_le
  cases text with
  | nil => simp at hle; exact absurd hle hne
  | cons c text =>
    rw [Encoder.scan, hspecial] at h
    obtain ⟨others, hothers, heq⟩ := bind_tokens h
    refine ⟨others, heq, ?_⟩
    rw [List.length_cons] at hle
    have hdrop : (c :: text).drop (t.piece token).length = text.drop ((t.piece token).length - 1) := by
      obtain ⟨m, hm⟩ : ∃ m, (t.piece token).length = m + 1 := ⟨(t.piece token).length - 1, by omega⟩
      rw [hm]
      exact Eq.refl _
    rw [hdrop, ← scan_skip (by omega)]
    exact hothers

/-- A byte is collected when no special token begins. -/
theorem scan_byte {c : UInt8} {text strBuffer : List UInt8} {tokens : List ℕ}
    (hspecial : t.special addSpecialTokens (c :: text) = none)
    (h : t.scan addSpecialTokens 0 (c :: text) strBuffer = .ok tokens) :
    (∃ token others, t.findRegularToken (strBuffer ++ [c]) = some token ∧ tokens = token :: others ∧
      t.scan addSpecialTokens 0 text [] = .ok others) ∨
    t.findRegularToken (strBuffer ++ [c]) = none ∧
      t.scan addSpecialTokens 0 text (strBuffer ++ [c]) = .ok tokens := by
  rw [Encoder.scan, hspecial] at h
  simp only at h
  split at h
  · cases hfind : t.findRegularToken (strBuffer ++ [c]) with
    | none =>
      rw [hfind] at h
      exact Or.inr ⟨Eq.refl _, h⟩
    | some token =>
      rw [hfind] at h
      obtain ⟨others, hothers, heq⟩ := bind_tokens h
      exact Or.inl ⟨token, others, Eq.refl _, heq, hothers⟩
  · cases h

/-- One byte is a token. -/
theorem takes_singleton {c : UInt8} {strBuffer back : List UInt8} {token : ℕ}
    (hfind : t.findRegularToken (strBuffer ++ [c]) = some token)
    (hspecial : t.special addSpecialTokens (c :: back) = none) :
    Takes t addSpecialTokens strBuffer [c] back token := by
  have hwhole : ∀ part others : List UInt8, [c] = part ++ others → others ≠ [] →
      part = [] ∧ others = [c] := by
    intro part others heq hne
    cases part with
    | nil => exact ⟨Eq.refl _, heq.symm⟩
    | cons b part =>
      injection heq with _ hrest
      exact absurd (List.append_eq_nil_iff.mp hrest.symm).2 hne
  constructor
  · exact List.cons_ne_nil c []
  · exact hfind
  · intro part others heq hpart hothers
    exact absurd (hwhole part others heq hothers).1 hpart
  · intro part others heq hothers
    rw [(hwhole part others heq hothers).2]
    exact hspecial

/-- A byte before bytes that are taken behind it. -/
theorem takes_cons {c : UInt8} {strBuffer front back : List UInt8} {token : ℕ}
    (hfind : t.findRegularToken (strBuffer ++ [c]) = none)
    (hspecial : t.special addSpecialTokens (c :: (front ++ back)) = none)
    (h : Takes t addSpecialTokens (strBuffer ++ [c]) front back token) :
    Takes t addSpecialTokens strBuffer (c :: front) back token := by
  constructor
  · exact List.cons_ne_nil c front
  · have htoken := h.token
    rwa [List.append_assoc] at htoken
  · intro part others heq hpart hothers
    cases part with
    | nil => exact absurd (Eq.refl _) hpart
    | cons b part =>
      injection heq with hb hrest
      rw [← hb]
      by_cases hnil : part = []
      · rw [hnil]
        exact hfind
      · have hshorter := h.shorter part others hrest hnil hothers
        rwa [List.append_assoc] at hshorter
  · intro part others heq hothers
    cases part with
    | nil =>
      have hwhole : others = c :: front := heq.symm
      rw [hwhole]
      exact hspecial
    | cons b part =>
      injection heq with _ hrest
      exact h.special part others hrest hothers

/-- Bytes that are taken are written as their token. -/
theorem scan_takes {strBuffer front back : List UInt8} {token : ℕ} {tokens : List ℕ}
    (htakes : Takes t addSpecialTokens strBuffer front back token)
    (h : t.scan addSpecialTokens 0 (front ++ back) strBuffer = .ok tokens) :
    ∃ others, tokens = token :: others ∧ t.scan addSpecialTokens 0 back [] = .ok others := by
  induction front generalizing strBuffer with
  | nil => exact absurd (Eq.refl _) htakes.ne
  | cons c front ih =>
    have hspecial := htakes.special [] (c :: front) (Eq.refl _) (List.cons_ne_nil c front)
    cases scan_byte hspecial h with
    | inl hfound =>
      obtain ⟨found, others, hfind, heq, hothers⟩ := hfound
      have hnil : front = [] := by
        by_contra hne
        have hnone := htakes.shorter [c] front (Eq.refl _) (List.cons_ne_nil c []) hne
        rw [hfind] at hnone
        cases hnone
      have htoken := htakes.token
      rw [hnil, hfind] at htoken
      cases htoken
      rw [hnil] at hothers
      exact ⟨others, heq, hothers⟩
    | inr hcollected =>
      have hne : front ≠ [] := by
        intro hnil
        have htoken := htakes.token
        rw [hnil, hcollected.1] at htoken
        cases htoken
      apply ih ?_ hcollected.2
      constructor
      · exact hne
      · have htoken := htakes.token
        rwa [List.append_assoc]
      · intro part others heq hpart hothers
        rw [List.append_assoc]
        exact htakes.shorter (c :: part) others (by rw [heq]; exact Eq.refl _)
          (List.cons_ne_nil c part) hothers
      · intro part others heq hothers
        exact htakes.special (c :: part) others (by rw [heq]; exact Eq.refl _) hothers

/-- Behind collected bytes, more are taken or a special token is written. -/
theorem scan_cases {text strBuffer : List UInt8} {tokens : List ℕ}
    (h : t.scan addSpecialTokens 0 text strBuffer = .ok tokens) :
    (text = [] ∧ strBuffer = [] ∧ tokens = []) ∨
    (∃ front back token others, text = front ++ back ∧
      Takes t addSpecialTokens strBuffer front back token ∧ tokens = token :: others ∧
      t.scan addSpecialTokens 0 back [] = .ok others) ∨
    ∃ front back token others, text = front ++ back ∧ t.special addSpecialTokens back = some token ∧
      (front = [] ∨ t.special addSpecialTokens text = none) ∧ tokens = token :: others := by
  induction text generalizing strBuffer with
  | nil =>
    have hnil := (scan_nil 0 strBuffer tokens).mp h
    exact Or.inl ⟨Eq.refl _, hnil.1, hnil.2⟩
  | cons c text ih =>
    right
    cases hspecial : t.special addSpecialTokens (c :: text) with
    | some token =>
      right
      rw [Encoder.scan, hspecial] at h
      obtain ⟨others, _, heq⟩ := bind_tokens h
      exact ⟨[], c :: text, token, others, Eq.refl _, hspecial, Or.inl (Eq.refl _), heq⟩
    | none =>
      cases scan_byte hspecial h with
      | inl hfound =>
        obtain ⟨token, others, hfind, heq, hothers⟩ := hfound
        left
        exact ⟨[c], text, token, others, Eq.refl _, takes_singleton hfind hspecial, heq, hothers⟩
      | inr hcollected =>
        rcases ih hcollected.2 with hend | htaken | hinterrupted
        · simp at hend
        · obtain ⟨front, back, token, others, heq, htakes, htokens, hothers⟩ := htaken
          left
          rw [heq] at hspecial
          exact ⟨c :: front, back, token, others, by rw [heq]; exact Eq.refl _,
            takes_cons hcollected.1 hspecial htakes, htokens, hothers⟩
        · obtain ⟨front, back, token, others, heq, htoken, _, htokens⟩ := hinterrupted
          right
          exact ⟨c :: front, back, token, others, by rw [heq]; exact Eq.refl _, htoken,
            Or.inr (Eq.refl _), htokens⟩

end Scan

section Tiles

variable {F : Type} {t : Encoder F} {addSpecialTokens : Bool} {text : List UInt8} {tokens tiles : List ℕ}

theorem special_piece_ne (h : t.Valid) {token : ℕ}
    (hspecial : t.special addSpecialTokens text = some token) : t.piece token ≠ [] := by
  have hlt := (special_eq_some hspecial).2.2.1
  have hpos := (h.length _ (piece_mem hlt)).1
  exact List.length_pos_iff.mp hpos

/-- A special token and the text behind it. -/
theorem special_append {token : ℕ} (hspecial : t.special addSpecialTokens text = some token) :
    t.piece token ++ text.drop (t.piece token).length = text := by
  obtain ⟨back, hback⟩ := (special_eq_some hspecial).2.1
  rw [← hback, List.drop_left]

/-- The tiles spell the text. -/
theorem Tiles.spell (h : t.Valid) (htiles : Tiles t addSpecialTokens text tiles) :
    tiles.flatMap t.piece = text := by
  induction htiles with
  | nil => exact Eq.refl _
  | special htoken _ ih => rw [List.flatMap_cons, ih, special_append htoken]
  | regular htakes _ ih =>
    have hpiece := ((findRegularToken_eq_some h).mp htakes.token).2
    rw [List.flatMap_cons, ih, hpiece, List.nil_append]

/-- What is written for a text of tiles. -/
theorem Tiles.scan (h : t.Valid) (htiles : Tiles t addSpecialTokens text tiles)
    (hscan : t.scan addSpecialTokens 0 text [] = .ok tokens) : tokens = tiles := by
  induction htiles generalizing tokens with
  | nil => exact ((scan_nil 0 [] tokens).mp hscan).2
  | special htoken _ ih =>
    obtain ⟨others, heq, hothers⟩ := scan_special htoken (special_piece_ne h htoken) hscan
    rw [heq, ih hothers]
  | regular htakes _ ih =>
    obtain ⟨others, heq, hothers⟩ := scan_takes htakes hscan
    rw [heq, ih hothers]

/-- What spells the text are tiles. -/
theorem tiles_of_spell (h : t.Valid) (hscan : t.scan addSpecialTokens 0 text [] = .ok tokens)
    (hspell : tokens.flatMap t.piece = text) : Tiles t addSpecialTokens text tokens := by
  induction hlength : text.length using Nat.strong_induction_on generalizing text tokens with
  | _ n ih =>
    rcases scan_cases hscan with hend | htaken | hspecial
    · rw [hend.1, hend.2.2]
      exact Tiles.nil
    · obtain ⟨front, back, token, others, heq, htakes, htokens, hothers⟩ := htaken
      have hpiece := ((findRegularToken_eq_some h).mp htakes.token).2
      have hpos := List.length_pos_iff.mpr htakes.ne
      rw [htokens, heq, List.flatMap_cons, hpiece, List.nil_append] at hspell
      rw [heq, List.length_append] at hlength
      rw [htokens, heq]
      exact Tiles.regular htakes
        (ih back.length (by omega) hothers (List.append_cancel_left hspell) (Eq.refl _))
    · obtain ⟨front, back, token, others, heq, htoken, hfront, htokens⟩ := hspecial
      have hprefix : t.piece token <+: text := by
        rw [htokens, List.flatMap_cons] at hspell
        exact ⟨_, hspell⟩
      have hfound := (special_eq_some htoken).2.2.2 text hprefix
      have hnil := hfront.resolve_right hfound
      rw [hnil, List.nil_append] at heq
      rw [← heq] at htoken
      have hne := special_piece_ne h htoken
      have hpos := List.length_pos_iff.mpr hne
      obtain ⟨others', htokens', hothers⟩ := scan_special htoken hne hscan
      have hwhole := special_append htoken
      have hlengths := congrArg List.length hwhole
      rw [List.length_append] at hlengths
      rw [htokens', List.flatMap_cons] at hspell
      rw [htokens']
      apply Tiles.special htoken
      apply ih _ _ hothers _ (Eq.refl _)
      · omega
      · rw [← hwhole] at hspell
        exact List.append_cancel_left (hspell.trans (by rw [hwhole]))

end Tiles

section Encode

variable {F : Type} [LinearOrder F] {t : Encoder F} {lowest : F} {addSpecialTokens isStart : Bool}
  {text : List UInt8} {tokens : List ℕ}

/-- Behind what is written before it, the tokens spell the text. -/
def Spells (t : Encoder F) (isStart : Bool) (text : List UInt8) (tokens : List ℕ) : Prop :=
  ∃ others, tokens = t.start isStart ++ others ∧ others.flatMap t.piece = text

/-- No neighbours are a regular token that scores more than the lowest score. -/
def Reduced (t : Encoder F) (lowest : F) (tokens : List ℕ) : Prop :=
  ∀ x y z, Adjacent tokens x y → z < t.regularVocabSize → t.piece z = t.piece x ++ t.piece y →
    ¬lowest < t.vocabScores z

/-- The token before a text is never what a pair is merged to. -/
theorem join_ne_bos (h : t.Valid) (x y : ℕ) : t.join lowest x y ≠ some t.bosId.toNat := by
  intro hjoin
  have hlt := ((join_eq_some h).mp hjoin).1
  exact absurd hlt (Nat.lt_irrefl _)

omit [LinearOrder F] in
/-- One token is written before a text, or none. -/
theorem start_cases (t : Encoder F) (isStart : Bool) :
    t.start isStart = [] ∨ t.start isStart = [t.bosId.toNat] := by
  unfold Encoder.start
  split
  · exact Or.inr (Eq.refl _)
  · exact Or.inl (Eq.refl _)

theorem spell_join (h : t.Valid) (x y z : ℕ) (hz : t.join lowest x y = some z) :
    t.piece z = t.piece x ++ t.piece y :=
  ((join_eq_some h).mp hz).2.1

/-- Merging what was written leaves nothing to merge. -/
theorem reduced_run (h : t.Valid) (tokens : List ℕ) :
    Reduced t lowest (run (t.mergeStep lowest) tokens.length tokens) := by
  have hirreducible := run_irreducible (mergeStep_isMerger t lowest) (Nat.le_refl tokens.length)
  intro x y z hadjacent hlt hpiece hless
  have hnone := hirreducible x y hadjacent
  rw [(join_eq_some h).mpr ⟨hlt, hpiece, hless⟩] at hnone
  cases hnone

/-- When the merged tokens spell the text that was scanned. -/
theorem spells_run_iff (lowest : F) (isStart : Bool) (h : t.Valid) (hscan : t.scan addSpecialTokens 0 text [] = .ok tokens) :
    Spells t isStart text (run (t.mergeStep lowest) (t.start isStart ++ tokens).length
      (t.start isStart ++ tokens)) ↔
    Tiles t addSpecialTokens text tokens ∧
      ∀ bos ∈ t.start isStart, Stays (t.join lowest) t.vocabScores bos tokens := by
  have hmerger := mergeStep_isMerger t lowest
  have htiles : Tiles t addSpecialTokens text tokens ↔ tokens.flatMap t.piece = text := by
    constructor
    · exact Tiles.spell h
    · exact tiles_of_spell h hscan
  rw [htiles]
  unfold Spells
  cases start_cases t isStart with
  | inl hnone =>
    have hsame := (run_merges hmerger tokens.length tokens).flatMap_eq (spell_join h)
    rw [hnone]
    simp only [List.nil_append, exists_eq_left', hsame, List.not_mem_nil, false_imp_iff, implies_true,
      and_true]
  | inr hbos =>
    rw [hbos]
    simp only [List.singleton_append, List.mem_singleton, forall_eq]
    constructor
    · intro hspells
      obtain ⟨others, hrun, hspell⟩ := hspells
      have hstays := stays_of_run hmerger (join_ne_bos h) (Nat.le_refl _) hrun
      obtain ⟨final, hfinal, hmerges⟩ := run_of_stays hmerger hstays (t.bosId.toNat :: tokens).length
      rw [hrun] at hfinal
      injection hfinal with _ hfinal
      rw [hfinal, hmerges.flatMap_eq (spell_join h)] at hspell
      exact ⟨hspell, hstays⟩
    · intro hcondition
      obtain ⟨hspell, hstays⟩ := hcondition
      obtain ⟨final, hfinal, hmerges⟩ := run_of_stays hmerger hstays (t.bosId.toNat :: tokens).length
      exact ⟨final, hfinal, by rw [hmerges.flatMap_eq (spell_join h), hspell]⟩

/-- When a text is encoded as it should be: no special token begins among the bytes of a regular one, and the
token before the text stays. -/
theorem encode_spells_iff (h : t.Valid) (hscan : ∃ tokens, t.scan addSpecialTokens 0 text [] = .ok tokens) :
    (∃ tokens, t.encode lowest (some text) isStart addSpecialTokens = .ok tokens ∧
      tokens.length ≤ text.length + 1 ∧ Spells t isStart text tokens ∧ Reduced t lowest tokens) ↔
    ∃ tiles, Tiles t addSpecialTokens text tiles ∧
      ∀ bos ∈ t.start isStart, Stays (t.join lowest) t.vocabScores bos tiles := by
  obtain ⟨scanned, hscanned⟩ := hscan
  have hencode : t.encode lowest (some text) isStart addSpecialTokens =
      .ok (run (t.mergeStep lowest) (t.start isStart ++ scanned).length (t.start isStart ++ scanned)) := by
    unfold Encoder.encode
    simp only [hscanned]
    exact Eq.refl _
  have hspells := spells_run_iff lowest isStart h hscanned
  rw [hencode]
  constructor
  · intro hresult
    obtain ⟨tokens, htokens, _, hspell, _⟩ := hresult
    cases htokens
    exact ⟨scanned, hspells.mp hspell⟩
  · intro hcondition
    obtain ⟨tiles, htiles, hstays⟩ := hcondition
    have hsame := htiles.scan h hscanned
    rw [← hsame] at htiles hstays
    refine ⟨_, Eq.refl _, ?_, hspells.mpr ⟨htiles, hstays⟩, reduced_run h _⟩
    have hmerged := (run_merges (mergeStep_isMerger t lowest)
      (t.start isStart ++ scanned).length (t.start isStart ++ scanned)).length_le
    have hlength := scan_length hscanned
    have hstart : (t.start isStart).length ≤ 1 := by
      cases start_cases t isStart with
      | inl hnone => simp [hnone]
      | inr hbos => simp [hbos]
    have hwritten : (t.start isStart ++ scanned).length = _ := List.length_append
    omega

end Encode

/-- A tokenizer with a regular token of two letters, and a special one of another letter. -/
def letterTokenizer : Encoder ℤ :=
  { maxTokenLength := 3, vocab := [[0x61, 0x62], [0x3c, 0x73, 0x3e], [0x58]], bosId := 1, eosTokenIds := [],
    vocabScores := fun _ => 0, addBos := true }

theorem letterTokenizer_valid : letterTokenizer.Valid := by
  constructor
  · decide
  · decide
  · intro x y hx hy _
    have hsize : letterTokenizer.regularVocabSize = 1 := Eq.refl _
    omega
  · decide
  · decide

/-- A special token between the two letters is written before them. -/
theorem not_encode_spells : ¬∀ (t : Encoder ℤ) (lowest : ℤ) (text : List UInt8)
    (isStart addSpecialTokens : Bool), t.Valid → (∃ tokens, t.scan addSpecialTokens 0 text [] = .ok tokens) →
    ∃ tokens, t.encode lowest (some text) isStart addSpecialTokens = .ok tokens ∧
      tokens.length ≤ text.length + 1 ∧ Spells t isStart text tokens ∧ Reduced t lowest tokens := by
  intro h
  have hscan : letterTokenizer.scan true 0 [0x61, 0x58, 0x62] [] = .ok [2, 0] := by decide +kernel
  have hencode : letterTokenizer.encode (-10000000000) (some [0x61, 0x58, 0x62]) false true =
      .ok [2, 0] := by decide +kernel
  obtain ⟨tokens, htokens, _, hspells, _⟩ := h letterTokenizer (-10000000000) [0x61, 0x58, 0x62] false true
    letterTokenizer_valid ⟨_, hscan⟩
  rw [hencode] at htokens
  cases htokens
  obtain ⟨others, heq, hspell⟩ := hspells
  have hstart : letterTokenizer.start false = [] := by decide
  rw [hstart, List.nil_append] at heq
  rw [← heq] at hspell
  exact absurd hspell (by decide)

/-- The token before a text is merged with the text when the two are a regular token. -/
example : Encoder.encode ⟨⟨2, [[0x61], [0x62, 0x61], [0x62]], 2, []⟩, fun _ => (0 : ℤ), true⟩ (-10000000000)
    (some [0x61]) true true = .ok [1] := by decide +kernel

theorem encode_spells_iff_letters :
    (∃ tokens, letterTokenizer.encode (-10000000000) (some [0x61, 0x62, 0x58]) true true = .ok tokens ∧
      tokens.length ≤ 4 ∧ Spells letterTokenizer true [0x61, 0x62, 0x58] tokens ∧
        Reduced letterTokenizer (-10000000000) tokens) ↔
    ∃ tiles, Tiles letterTokenizer true [0x61, 0x62, 0x58] tiles ∧
      ∀ bos ∈ letterTokenizer.start true,
        Stays (letterTokenizer.join (-10000000000)) letterTokenizer.vocabScores bos tiles := by
  have hscan : letterTokenizer.scan true 0 [0x61, 0x62, 0x58] [] = .ok [0, 2] := by decide +kernel
  exact encode_spells_iff letterTokenizer_valid ⟨_, hscan⟩

end LayerSkip.TokenizerEncode
