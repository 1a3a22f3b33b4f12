import LayerSkip.Utf8Chars
import Mathlib.Data.Int.Notation
import Mathlib.Data.List.Induction
import Mathlib.Data.List.TakeWhile

/-!
# Streaming decoder

A token's piece need not end where a character does, so the decoder returns the text up to the last complete
character and carries the bytes behind it over to the next call. Bytes that are in no character are replaced
by U+FFFD in the output, from the last complete character on, but stay in the carry until the next one ends.
-/

namespace LayerSkip.TokenizerDecode

open Utf8Chars

/-- The vocabulary, and what the buffers are sized by. -/
structure Tokenizer where
  /-- Longest token. -/
  maxTokenLength : ℕ
  /-- Strings of the tokens. -/
  vocab : List (List UInt8)
  /-- Token before a text. -/
  bosId : ℤ
  /-- Tokens behind a text. -/
  eosTokenIds : List ℤ

/-- Size of the buffers. -/
def Tokenizer.strBufferSize (t : Tokenizer) : ℕ :=
  (if t.maxTokenLength * 2 < 4 * 2 then 4 * 2 else t.maxTokenLength * 2) + (1 + 2)

/-- The two buffers while the text is decoded. -/
structure Detok where
  /-- Output up to the checkpoint. -/
  text : List UInt8
  /-- Output behind it. -/
  pending : List UInt8
  /-- Input from its checkpoint up to the next byte. -/
  carry : List UInt8
  /-- Continuation bytes that the character still needs. -/
  expectContinuation : ℕ
  deriving DecidableEq, Repr

namespace Detok

/-- Before the first byte. -/
def start : Detok := ⟨[], [], [], 0⟩

/-- Number of bytes in the output buffer. -/
def dst (s : Detok) : ℕ := s.text.length + s.pending.length

/-- Copy a byte, after which so many others are expected. -/
def copy (s : Detok) (c : UInt8) (expectContinuation : ℕ) : Detok :=
  { s with
    pending := s.pending ++ [c]
    carry := s.carry ++ [c]
    expectContinuation := expectContinuation }

/-- Move the checkpoints behind a complete character. -/
def settle (s : Detok) : Detok :=
  if s.expectContinuation = 0 then { s with text := s.text ++ s.pending, pending := [], carry := [] }
  else s

/-- Go back to the checkpoint and emit U+FFFD. -/
def recover (s : Detok) : Detok :=
  { s with pending := [0xef, 0xbf, 0xbd], expectContinuation := 0 }

/-- One turn of the loop. Whether the byte was taken, and the buffers. -/
def look (c : UInt8) (s : Detok) : Bool × Detok :=
  if 0 < s.expectContinuation then
    if c &&& 0xc0 = 0x80 then (true, (s.copy c (s.expectContinuation - 1)).settle)
    else (false, s.recover)
  else if c ≤ 0x7f then (true, (s.copy c 0).settle)
  else if 0xc0 ≤ c ∧ c ≤ 0xdf then (true, (s.copy c 1).settle)
  else if 0xe0 ≤ c ∧ c ≤ 0xef then (true, (s.copy c 2).settle)
  else if 0xf0 ≤ c ∧ c ≤ 0xf7 then (true, (s.copy c 3).settle)
  else (true, { s.recover with carry := s.carry ++ [c] })

/-- The turns for a byte: when it is not taken, no continuation is expected at the next turn, which takes it. -/
def read (s : Detok) (c : UInt8) : Detok :=
  if (look c s).1 then (look c s).2 else (look c (look c s).2).2

/-- The most bytes that the output buffer has had in use after the turns for a byte. -/
def highest (s : Detok) (c : UInt8) (written : ℕ) : ℕ :=
  if (look c s).1 then max written (look c s).2.dst
  else max (max written (look c s).2.dst) (look c (look c s).2).2.dst

/-- The loop. The buffers, and the most bytes that the output buffer has had in use. -/
def loop : List UInt8 → Detok → ℕ → Detok × ℕ
  | [], s, written => (s, written)
  | c :: src, s, written => loop src (s.read c) (s.highest c written)

end Detok

/-- Decode the bytes of the buffer up to its end. -/
def detokUtf8 (strBuffer : List UInt8) : Detok × ℕ :=
  Detok.loop (strBuffer.takeWhile fun c => c ≠ 0) Detok.start 0

/-- Decode a token, given the carried bytes. What is returned, if anything, and the bytes that are carried. -/
def decode (t : Tokenizer) (carry : List UInt8) (token : ℕ) :
    Except String (Option (List UInt8) × List UInt8) :=
  if (token : ℤ) = t.bosId then .ok (none, carry)
  else if (token : ℤ) ∈ t.eosTokenIds then .ok (if 0 < carry.length then some carry else none, carry)
  else
    match t.vocab[token]? with
    | none => .error "read behind the vocabulary"
    | some piece =>
      if carry.length + piece.length + 1 < t.strBufferSize then
        let s := (detokUtf8 (carry ++ piece)).1
        let written := (detokUtf8 (carry ++ piece)).2
        if t.strBufferSize < written ∨ t.strBufferSize ≤ s.text.length then
          .error "write behind utf8Buffer"
        else .ok (if 0 < s.text.length then some s.text else none, s.carry)
      else .error "assertion: strBufferPos + pieceLen + 1 < strBufferSize"

/-- Decode tokens one after the other. -/
def decodeAll (t : Tokenizer) : List ℕ → List UInt8 →
    Except String (List (Option (List UInt8)) × List UInt8)
  | [], carry => .ok ([], carry)
  | token :: tokens, carry => do
    let (returned, carry) ← decode t carry token
    let (others, carry) ← decodeAll t tokens carry
    return (returned :: others, carry)

/-- Texts that were returned, one after the other. -/
def texts (returned : List (Option (List UInt8))) : List UInt8 :=
  returned.flatMap fun text => text.getD []

section Read

namespace Detok

variable {s : Detok} {c : UInt8}

/-- A byte when no continuation is expected. -/
def begin (s : Detok) (c : UInt8) : Detok :=
  match charLength c with
  | 0 => { s.recover with carry := s.carry ++ [c] }
  | n + 1 => (s.copy c n).settle

theorem look_begin (h : s.expectContinuation = 0) : look c s = (true, s.begin c) := by
  have hnone : ¬0 < s.expectContinuation := by omega
  unfold look begin charLength
  rw [if_neg hnone]
  split
  · exact Eq.refl _
  · split
    · exact Eq.refl _
    · split
      · exact Eq.refl _
      · split <;> exact Eq.refl _

/-- The three things that can happen to a byte. -/
theorem read_begin (h : s.expectContinuation = 0) : s.read c = s.begin c := by
  rw [read, look_begin h]
  exact Eq.refl _

theorem look_continue (h : 0 < s.expectContinuation) (hc : IsContinuation c) :
    look c s = (true, (s.copy c (s.expectContinuation - 1)).settle) :=
  (if_pos h).trans (if_pos hc)

theorem look_recover (h : 0 < s.expectContinuation) (hc : ¬IsContinuation c) :
    look c s = (false, s.recover) :=
  (if_pos h).trans (if_neg hc)

theorem read_continue (h : 0 < s.expectContinuation) (hc : IsContinuation c) :
    s.read c = (s.copy c (s.expectContinuation - 1)).settle := by
  rw [read, look_continue h hc]
  exact Eq.refl _

theorem read_recover (h : 0 < s.expectContinuation) (hc : ¬IsContinuation c) :
    s.read c = s.recover.begin c := by
  rw [read, look_recover h hc, look_begin (Eq.refl _)]
  exact Eq.refl _

/-- Between characters. -/
structure Settled (s : Detok) : Prop where
  /-- No output is pending. -/
  pending : s.pending = []
  /-- No input is carried. -/
  carry : s.carry = []
  /-- No byte is expected. -/
  expectContinuation : s.expectContinuation = 0

/-- A byte that is copied or ends a character. -/
theorem settle_cases (s : Detok) :
    s.settle.Settled ∧ s.settle.text = s.text ++ s.pending ∧ s.expectContinuation = 0 ∨
      s.settle = s ∧ 0 < s.expectContinuation := by
  unfold settle
  by_cases h : s.expectContinuation = 0
  · rw [if_pos h]
    exact Or.inl ⟨⟨Eq.refl _, Eq.refl _, h⟩, Eq.refl _, h⟩
  · rw [if_neg h]
    exact Or.inr ⟨Eq.refl _, Nat.pos_of_ne_zero h⟩

/-- The state with more text before. -/
def behind (front : List UInt8) (s : Detok) : Detok := { s with text := front ++ s.text }

theorem settle_behind (front : List UInt8) (s : Detok) :
    (s.behind front).settle = s.settle.behind front := by
  unfold settle behind
  by_cases h : s.expectContinuation = 0
  · simp only [h, if_true, List.append_assoc]
  · simp only [h, if_false]

theorem begin_behind (front : List UInt8) (s : Detok) (c : UInt8) :
    (s.behind front).begin c = (s.begin c).behind front := by
  unfold begin
  cases charLength c with
  | zero => exact Eq.refl _
  | succ n => exact settle_behind front (s.copy c n)

/-- Text that is complete does not matter. -/
theorem read_behind (front : List UInt8) (s : Detok) (c : UInt8) :
    (s.behind front).read c = (s.read c).behind front := by
  by_cases h : 0 < s.expectContinuation
  · by_cases hc : IsContinuation c
    · rw [read_continue h hc, read_continue (s := s.behind front) h hc]
      exact settle_behind front (s.copy c (s.expectContinuation - 1))
    · rw [read_recover h hc, read_recover (s := s.behind front) h hc]
      exact begin_behind front s.recover c
  · have hzero : s.expectContinuation = 0 := Nat.eq_zero_of_not_pos h
    rw [read_begin hzero, read_begin (s := s.behind front) hzero, begin_behind]

theorem foldl_behind (front bytes : List UInt8) (s : Detok) :
    bytes.foldl read (s.behind front) = (bytes.foldl read s).behind front := by
  induction bytes generalizing s with
  | nil => exact Eq.refl _
  | cons c bytes ih => rw [List.foldl_cons, List.foldl_cons, read_behind, ih]

/-- A byte ends a character, or is carried. -/
theorem read_cases (s : Detok) (c : UInt8) :
    (s.read c).Settled ∨ (s.read c).carry = s.carry ++ [c] ∧ (s.read c).text = s.text := by
  have hcopy : ∀ (s : Detok) n, (s.copy c n).settle.Settled ∨
      (s.copy c n).settle.carry = s.carry ++ [c] ∧ (s.copy c n).settle.text = s.text := by
    intro s n
    cases settle_cases (s.copy c n) with
    | inl h => exact Or.inl h.1
    | inr h =>
      rw [h.1]
      exact Or.inr ⟨Eq.refl _, Eq.refl _⟩
  have hbegin : ∀ s : Detok, (s.begin c).Settled ∨
      (s.begin c).carry = s.carry ++ [c] ∧ (s.begin c).text = s.text := by
    intro s
    unfold begin
    cases charLength c with
    | zero => exact Or.inr ⟨Eq.refl _, Eq.refl _⟩
    | succ n => exact hcopy s n
  by_cases h : 0 < s.expectContinuation
  · by_cases hc : IsContinuation c
    · rw [read_continue h hc]
      exact hcopy s _
    · rw [read_recover h hc]
      exact hbegin s.recover
  · rw [read_begin (Nat.eq_zero_of_not_pos h)]
    exact hbegin s

/-- Reading the carried bytes again leads to the same state, but for the text. -/
def Resumes (s : Detok) : Prop := s.carry.foldl read start = { s with text := [] }

theorem Settled.withoutText (h : s.Settled) : { s with text := [] } = start := by
  cases s with
  | mk text pending carry expectContinuation =>
    obtain ⟨hpending, hcarry, hexpect⟩ := h
    simp only at hpending hcarry hexpect
    rw [hpending, hcarry, hexpect]
    exact Eq.refl _

theorem resumes_start : start.Resumes := Eq.refl _

theorem resumes_read (h : s.Resumes) (c : UInt8) : (s.read c).Resumes := by
  unfold Resumes at h ⊢
  cases read_cases s c with
  | inl hsettled =>
    have hsame := hsettled.withoutText
    rw [hsettled.carry] at hsame ⊢
    exact hsame.symm
  | inr hcarried =>
    have hbehind : s.read c = ({ s with text := [] }.read c).behind s.text := by
      rw [← read_behind]
      unfold behind
      simp only [List.append_nil]
    have htext : ({ s with text := [] }.read c).text = [] := by
      have hsame := hcarried.2
      rw [hbehind] at hsame
      simpa [behind] using hsame
    have hfold : (s.read c).carry.foldl read start = { s with text := [] }.read c := by
      rw [hcarried.1, List.foldl_append, h, List.foldl_cons, List.foldl_nil]
    rw [hfold, hbehind]
    generalize { s with text := [] }.read c = next at htext ⊢
    cases next with
    | mk text pending carry expectContinuation =>
      simp only at htext
      rw [htext]
      exact Eq.refl _

theorem resumes_foldl (h : s.Resumes) (bytes : List UInt8) : (bytes.foldl read s).Resumes := by
  induction bytes generalizing s with
  | nil => exact h
  | cons c bytes ih => exact ih (resumes_read h c)

/-- Bytes may be read in two parts, the second behind what the first left to carry. -/
theorem foldl_append_start (first second : List UInt8) :
    (first ++ second).foldl read start =
      (((first.foldl read start).carry ++ second).foldl read start).behind
        (first.foldl read start).text := by
  have hresumes := resumes_foldl resumes_start first
  rw [List.foldl_append, List.foldl_append, hresumes, ← foldl_behind]
  unfold behind
  simp only [List.append_nil]

/-- What is carried is the end of what was read. -/
theorem exists_front (bytes : List UInt8) :
    ∃ front, bytes = front ++ (bytes.foldl read start).carry := by
  induction bytes using List.reverseRecOn with
  | nil => exact ⟨[], Eq.refl _⟩
  | append_singleton bytes c ih =>
    obtain ⟨front, hfront⟩ := ih
    rw [List.foldl_append, List.foldl_cons, List.foldl_nil]
    cases read_cases (bytes.foldl read start) c with
    | inl hsettled => exact ⟨bytes ++ [c], by rw [hsettled.carry, List.append_nil]⟩
    | inr hcarried =>
      refine ⟨front, ?_⟩
      rw [hcarried.1, ← List.append_assoc, ← hfront]

@[simp] theorem dst_settle (s : Detok) : s.settle.dst = s.dst := by
  cases settle_cases s with
  | inl h => simp [dst, h.1.pending, h.2.1]
  | inr h => rw [h.1]

@[simp] theorem dst_copy (s : Detok) (c : UInt8) (n : ℕ) : (s.copy c n).dst = s.dst + 1 := by
  simp [dst, copy, Nat.add_assoc]

/-- Taking a byte again after the recovery leaves no less output. -/
theorem dst_recover_le (s : Detok) (c : UInt8) : s.recover.dst ≤ (s.recover.begin c).dst := by
  unfold begin
  cases charLength c with
  | zero => exact Nat.le_refl _
  | succ n => simp

/-- So the state behind a byte shows how far the output was written. -/
theorem highest_eq (s : Detok) (c : UInt8) (written : ℕ) :
    s.highest c written = max written (s.read c).dst := by
  by_cases h : 0 < s.expectContinuation
  · by_cases hc : IsContinuation c
    · rw [highest, read, look_continue h hc]
      exact Eq.refl _
    · have hle := dst_recover_le s c
      rw [highest, read, look_recover h hc, look_begin (s := s.recover) (Eq.refl _)]
      simp only [Bool.false_eq_true, if_false]
      omega
  · rw [highest, read, look_begin (Nat.eq_zero_of_not_pos h)]
    exact Eq.refl _

/-- The loop reads the bytes, and the output was written as far as behind one of them. -/
theorem loop_eq (bytes : List UInt8) (s : Detok) (written : ℕ) :
    (loop bytes s written).1 = bytes.foldl read s ∧
      (∀ bound, (loop bytes s written).2 ≤ bound ↔ written ≤ bound ∧
        ∀ front back, bytes = front ++ back → front ≠ [] → (front.foldl read s).dst ≤ bound) := by
  induction bytes generalizing s written with
  | nil =>
    refine ⟨Eq.refl _, fun bound => ?_⟩
    constructor
    · intro h
      refine ⟨h, fun front back heq hne => ?_⟩
      exact absurd (List.append_eq_nil_iff.mp heq.symm).1 hne
    · exact fun h => h.1
  | cons c bytes ih =>
    have hrest := ih (s.read c) (s.highest c written)
    refine ⟨hrest.1, fun bound => ?_⟩
    rw [loop, hrest.2 bound, highest_eq, Nat.max_le, and_assoc]
    apply and_congr_right
    intro _
    constructor
    · intro h front back heq hne
      cases front with
      | nil => exact absurd (Eq.refl _) hne
      | cons d front =>
        injection heq with hd heq
        rw [← hd, List.foldl_cons]
        by_cases hfront : front = []
        · rw [hfront]
          exact h.1
        · exact h.2 front back heq hfront
    · intro h
      refine ⟨h [c] bytes (Eq.refl _) (List.cons_ne_nil c []), fun front back heq _ => ?_⟩
      exact h (c :: front) back (by rw [heq]; exact Eq.refl _) (List.cons_ne_nil c front)

/-- Sizes of the buffers after so many bytes. -/
structure Bounded (k : ℕ) (s : Detok) : Prop where
  /-- Every byte leaves three at most. -/
  text : s.text.length + 3 * s.carry.length ≤ 3 * k
  /-- So does every carried byte. -/
  pending : s.pending.length ≤ 3 * s.carry.length
  /-- A character that is not complete is carried. -/
  expectContinuation : 0 < s.expectContinuation → 0 < s.carry.length

theorem Bounded.copy {k : ℕ} (h : s.Bounded k) (c : UInt8) (n : ℕ) :
    (s.copy c n).settle.Bounded (k + 1) := by
  have htext := h.text
  have hpending := h.pending
  cases settle_cases (s.copy c n) with
  | inl hsettled =>
    obtain ⟨hsettled, heq, _⟩ := hsettled
    constructor
    · rw [heq, hsettled.carry, List.length_append]
      simp [Detok.copy]
      omega
    · rw [hsettled.pending]
      simp
    · intro hpos
      rw [hsettled.expectContinuation] at hpos
      omega
  | inr hsame =>
    rw [hsame.1]
    constructor
    · simp [Detok.copy]
      omega
    · simp [Detok.copy]
      omega
    · simp [Detok.copy]

theorem Bounded.begin {k : ℕ} (h : s.Bounded k) (c : UInt8) : (s.begin c).Bounded (k + 1) := by
  have htext := h.text
  unfold Detok.begin
  cases charLength c with
  | zero =>
    constructor
    · simp only [Detok.recover, List.length_append, List.length_singleton]
      omega
    · simp only [Detok.recover, List.length_append, List.length_cons, List.length_nil]
      omega
    · simp [Detok.recover]
  | succ n => exact h.copy c n

theorem Bounded.read {k : ℕ} (h : s.Bounded k) (c : UInt8) : (s.read c).Bounded (k + 1) := by
  by_cases hexpect : 0 < s.expectContinuation
  · by_cases hc : IsContinuation c
    · rw [read_continue hexpect hc]
      exact h.copy c _
    · have hcarry := h.expectContinuation hexpect
      have hrecover : s.recover.Bounded k := by
        refine ⟨h.text, ?_, fun hpos => absurd hpos (Nat.lt_irrefl 0)⟩
        simp only [Detok.recover, List.length_cons, List.length_nil]
        omega
      rw [read_recover hexpect hc]
      exact hrecover.begin c
  · rw [read_begin (Nat.eq_zero_of_not_pos hexpect)]
    exact h.begin c

theorem bounded_foldl (bytes : List UInt8) : (bytes.foldl Detok.read start).Bounded bytes.length := by
  induction bytes using List.reverseRecOn with
  | nil => exact ⟨by simp [start], by simp [start], by simp [start]⟩
  | append_singleton bytes c ih =>
    rw [List.foldl_append, List.length_append]
    exact ih.read c

theorem Bounded.dst_le {k : ℕ} (h : s.Bounded k) : s.dst ≤ 3 * k := by
  have htext := h.text
  have hpending := h.pending
  unfold dst
  omega

/-- Continuation bytes that do not complete the character. -/
theorem foldl_conts {conts : List UInt8} (hconts : ∀ b ∈ conts, IsContinuation b)
    (hlt : conts.length < s.expectContinuation) : conts.foldl read s = { s with
      pending := s.pending ++ conts
      carry := s.carry ++ conts
      expectContinuation := s.expectContinuation - conts.length } := by
  induction conts generalizing s with
  | nil => simp
  | cons b conts ih =>
    rw [List.length_cons] at hlt
    have hb := read_continue (s := s) (by omega) (hconts b List.mem_cons_self)
    have hsame : (s.copy b (s.expectContinuation - 1)).settle =
        s.copy b (s.expectContinuation - 1) := by
      cases settle_cases (s.copy b (s.expectContinuation - 1)) with
      | inl hsettled =>
        have hzero : s.expectContinuation - 1 = 0 := hsettled.2.2
        omega
      | inr hsame => exact hsame.1
    rw [List.foldl_cons, hb, hsame, ih (fun d hd => hconts d (List.mem_cons_of_mem b hd))
      (by simp only [copy]; omega)]
    simp only [copy, List.append_assoc, List.singleton_append, List.length_cons]
    congr 1
    omega

/-- A complete character between characters. -/
theorem foldl_char {char : List UInt8} (hchar : IsChar char) (h : s.expectContinuation = 0) :
    char.foldl read s = ⟨s.text ++ s.pending ++ char, [], [], 0⟩ := by
  obtain ⟨c, conts, heq, hlength, hconts⟩ := hchar.form
  have hbegin : s.read c = (s.copy c conts.length).settle := by
    rw [read_begin h, begin, ← hlength]
  rw [heq, List.foldl_cons, hbegin]
  induction conts using List.reverseRecOn with
  | nil => simp [settle, copy]
  | append_singleton conts last _ =>
    have hothers : ∀ b ∈ conts, IsContinuation b := fun b hb => hconts b (List.mem_append_left [last] hb)
    have hfront := foldl_conts (s := s.copy c (conts ++ [last]).length) hothers (by simp [copy])
    have hsame : (s.copy c (conts ++ [last]).length).settle = s.copy c (conts ++ [last]).length := by
      cases settle_cases (s.copy c (conts ++ [last]).length) with
      | inl hsettled =>
        have hzero : (conts ++ [last]).length = 0 := hsettled.2.2
        simp at hzero
      | inr hsame => exact hsame.1
    rw [hsame, List.foldl_append, hfront, List.foldl_cons, List.foldl_nil, read_continue]
    · simp [copy, settle]
    · simp [copy]
    · exact hconts last (List.mem_append_right conts (List.mem_singleton_self last))

end Detok

end Read

section Calls

variable {t : Tokenizer}

/-- String of a token. -/
def Tokenizer.piece (t : Tokenizer) (token : ℕ) : List UInt8 := t.vocab.getD token []

/-- A token of the vocabulary whose string is text. -/
structure Tokenizer.IsRegular (t : Tokenizer) (token : ℕ) : Prop where
  /-- It is in the vocabulary. -/
  lt : token < t.vocab.length
  /-- It is not before a text. -/
  bos : (token : ℤ) ≠ t.bosId
  /-- It is not behind a text. -/
  eos : (token : ℤ) ∉ t.eosTokenIds

/-- The state of the decoder after bytes. -/
def decoded (bytes : List UInt8) : Detok := bytes.foldl Detok.read Detok.start

theorem detokUtf8_eq {bytes : List UInt8} (hnul : 0 ∉ bytes) :
    detokUtf8 bytes = Detok.loop bytes Detok.start 0 := by
  have htaken : (bytes.takeWhile fun c => decide (c ≠ 0)) = bytes := by
    apply List.takeWhile_eq_self_iff.mpr
    intro c hc
    rw [decide_eq_true_eq]
    intro hzero
    exact hnul (hzero ▸ hc)
  rw [detokUtf8, htaken]

/-- Decoding a piece continues behind the bytes before it. -/
theorem decoded_append (bytes piece : List UInt8) :
    (decoded (bytes ++ piece)).carry = (decoded ((decoded bytes).carry ++ piece)).carry ∧
      (decoded (bytes ++ piece)).text =
        (decoded bytes).text ++ (decoded ((decoded bytes).carry ++ piece)).text := by
  have happend := Detok.foldl_append_start bytes piece
  unfold decoded
  rw [happend]
  exact ⟨Eq.refl _, Eq.refl _⟩

theorem getElem?_piece {token : ℕ} (h : token < t.vocab.length) :
    t.vocab[token]? = some (t.piece token) := by
  rw [Tokenizer.piece, List.getD_eq_getElem?_getD, List.getElem?_eq_getElem h, Option.getD_some]

theorem piece_mem {token : ℕ} (h : token < t.vocab.length) : t.piece token ∈ t.vocab :=
  List.mem_of_getElem? (getElem?_piece h)

theorem not_mem_carry {bytes piece : List UInt8} (hnul : 0 ∉ bytes ++ piece) :
    0 ∉ (decoded bytes).carry ++ piece := by
  obtain ⟨front, hfront⟩ := Detok.exists_front bytes
  intro hmem
  apply hnul
  rw [hfront, List.append_assoc]
  exact List.mem_append_right front hmem

/-- A call for a regular token, in buffers that are large enough. -/
theorem decode_regular {token : ℕ} (h : t.IsRegular token) {bytes : List UInt8}
    (hnul : 0 ∉ bytes ++ t.piece token)
    (hsize : 3 * (bytes ++ t.piece token).length + 1 < t.strBufferSize) :
    ∃ returned, decode t (decoded bytes).carry token =
        .ok (returned, (decoded (bytes ++ t.piece token)).carry) ∧
      (decoded (bytes ++ t.piece token)).text = (decoded bytes).text ++ returned.getD [] := by
  obtain ⟨front, hfront⟩ := Detok.exists_front bytes
  have hcarry : (decoded bytes).carry.length ≤ bytes.length := by
    have hlength := congrArg List.length hfront
    rw [List.length_append] at hlength
    unfold decoded
    omega
  rw [List.length_append] at hsize
  have hbounded : ∀ part : List UInt8, part.length ≤ (decoded bytes).carry.length +
      (t.piece token).length → (decoded part).dst < t.strBufferSize := by
    intro part hpart
    have hle := (Detok.bounded_foldl part).dst_le
    unfold decoded
    omega
  have hloop := Detok.loop_eq ((decoded bytes).carry ++ t.piece token) Detok.start 0
  have hwritten : (Detok.loop ((decoded bytes).carry ++ t.piece token) Detok.start 0).2 ≤
      t.strBufferSize := by
    apply (hloop.2 t.strBufferSize).mpr
    refine ⟨Nat.zero_le _, fun part back heq _ => Nat.le_of_lt (hbounded part ?_)⟩
    have hlength := congrArg List.length heq
    rw [List.length_append, List.length_append] at hlength
    omega
  have htext : (decoded ((decoded bytes).carry ++ t.piece token)).text.length < t.strBufferSize := by
    have hlt := hbounded ((decoded bytes).carry ++ t.piece token) (Nat.le_of_eq List.length_append)
    unfold Detok.dst at hlt
    omega
  have hfits : ¬(t.strBufferSize <
      (Detok.loop ((decoded bytes).carry ++ t.piece token) Detok.start 0).2 ∨
      t.strBufferSize ≤ (decoded ((decoded bytes).carry ++ t.piece token)).text.length) := by
    omega
  have hroom : (decoded bytes).carry.length + (t.piece token).length + 1 < t.strBufferSize := by omega
  have hstate : (Detok.loop ((decoded bytes).carry ++ t.piece token) Detok.start 0).1 =
      decoded ((decoded bytes).carry ++ t.piece token) := hloop.1
  have happend := decoded_append bytes (t.piece token)
  refine ⟨if 0 < (decoded ((decoded bytes).carry ++ t.piece token)).text.length then
    some (decoded ((decoded bytes).carry ++ t.piece token)).text else none, ?_, ?_⟩
  · unfold decode
    rw [if_neg h.bos, if_neg h.eos, getElem?_piece h.lt]
    simp only [hroom, if_true, detokUtf8_eq (not_mem_carry hnul), hstate, hfits, if_false, happend.1]
  · rw [happend.2]
    split
    · exact Eq.refl _
    · rename_i hempty
      rw [List.eq_nil_of_length_eq_zero (Nat.eq_zero_of_not_pos hempty)]
      exact Eq.refl _

/-- All calls. -/
theorem decodeAll_regular {tokens : List ℕ} (h : ∀ token ∈ tokens, t.IsRegular token)
    (bytes : List UInt8) (hnul : 0 ∉ bytes ++ tokens.flatMap t.piece)
    (hsize : 3 * (bytes ++ tokens.flatMap t.piece).length + 1 < t.strBufferSize) :
    ∃ returned, decodeAll t tokens (decoded bytes).carry =
        .ok (returned, (decoded (bytes ++ tokens.flatMap t.piece)).carry) ∧
      (decoded (bytes ++ tokens.flatMap t.piece)).text = (decoded bytes).text ++ texts returned := by
  induction tokens generalizing bytes with
  | nil => exact ⟨[], by simp [decodeAll], by simp [texts]⟩
  | cons token tokens ih =>
    rw [List.flatMap_cons, ← List.append_assoc] at hnul hsize ⊢
    have hshort : 3 * (bytes ++ t.piece token).length + 1 < t.strBufferSize := by
      rw [List.length_append] at hsize
      omega
    obtain ⟨returned, hdecode, htext⟩ := decode_regular (h token List.mem_cons_self)
      (fun hmem => hnul (List.mem_append_left _ hmem)) hshort
    obtain ⟨others, hdecodeAll, htexts⟩ :=
      ih (fun other hother => h other (List.mem_cons_of_mem token hother)) _ hnul hsize
    refine ⟨returned :: others, ?_, ?_⟩
    · rw [decodeAll, hdecode]
      simp only [bind, Except.bind, hdecodeAll, pure, Except.pure]
    · rw [htexts, htext, texts, texts, List.flatMap_cons, List.append_assoc]

/-- Encoded characters are all returned. -/
theorem decoded_utf8 (chars : List Char) :
    decoded (chars.flatMap String.utf8EncodeChar) =
      ⟨chars.flatMap String.utf8EncodeChar, [], [], 0⟩ := by
  induction chars using List.reverseRecOn with
  | nil => exact Eq.refl _
  | append_singleton chars c ih =>
    have hchar := Detok.foldl_char (s := decoded (chars.flatMap String.utf8EncodeChar))
      (isChar_utf8EncodeChar c) (by rw [ih])
    rw [List.flatMap_append, List.flatMap_singleton, decoded, List.foldl_append]
    unfold decoded at hchar ih
    rw [hchar, ih]
    simp

/-- How a string is cut into pieces does not matter to the texts that are returned and to what is carried, and a
string of encoded characters is returned as it is. -/
theorem decode_independent_of_split {t t' : Tokenizer} {tokens : List ℕ} {whole : ℕ}
    (htokens : ∀ token ∈ tokens, t.IsRegular token) (hwhole : t'.IsRegular whole)
    (hbytes : t'.piece whole = tokens.flatMap t.piece) (hnul : 0 ∉ tokens.flatMap t.piece)
    (hsize : 3 * (tokens.flatMap t.piece).length + 1 < t.strBufferSize)
    (hsize' : 3 * (tokens.flatMap t.piece).length + 1 < t'.strBufferSize) :
    ∃ returned returned' carry, decodeAll t tokens [] = .ok (returned, carry) ∧
      decodeAll t' [whole] [] = .ok (returned', carry) ∧ texts returned = texts returned' ∧
      ∀ chars : List Char, tokens.flatMap t.piece = chars.flatMap String.utf8EncodeChar →
        texts returned ++ carry = tokens.flatMap t.piece := by
  obtain ⟨returned, hcalls, htexts⟩ := decodeAll_regular htokens [] hnul hsize
  have hone : [whole].flatMap t'.piece = tokens.flatMap t.piece := by
    rw [List.flatMap_singleton, hbytes]
  have hregular : ∀ token ∈ [whole], t'.IsRegular token :=
    fun token htoken => List.mem_singleton.mp htoken ▸ hwhole
  obtain ⟨returned', hcall, htext⟩ := decodeAll_regular hregular [] (by rw [hone]; exact hnul)
    (by rw [hone]; exact hsize')
  rw [hone] at hcall htext
  have hsame : texts returned = texts returned' := by
    rw [htexts] at htext
    exact List.append_cancel_left htext
  refine ⟨returned, returned', _, hcalls, hcall, hsame, fun chars hchars => ?_⟩
  rw [List.nil_append, hchars, decoded_utf8 chars] at htexts ⊢
  rw [List.append_nil]
  exact htexts.symm

end Calls

/-- A tokenizer with the halves of an emoji, and the emoji. -/
def emojiTokenizer : Tokenizer :=
  ⟨8, [[0xf0, 0x9f], [0x98, 0x83], [0xf0, 0x9f, 0x98, 0x83]], -1, []⟩

theorem decode_independent_of_split_emoji :
    ∃ returned returned' carry, decodeAll emojiTokenizer [0, 1] [] = .ok (returned, carry) ∧
      decodeAll emojiTokenizer [2] [] = .ok (returned', carry) ∧ texts returned = texts returned' ∧
      ∀ chars : List Char, [0, 1].flatMap emojiTokenizer.piece = chars.flatMap String.utf8EncodeChar →
        texts returned ++ carry = [0, 1].flatMap emojiTokenizer.piece := by
  apply decode_independent_of_split
  · intro token htoken
    refine ⟨?_, ?_, List.not_mem_nil⟩
    · revert token
      decide
    · revert token
      decide
  · exact ⟨by decide, by decide, List.not_mem_nil⟩
  · decide
  · decide
  · decide
  · decide

end LayerSkip.TokenizerDecode
