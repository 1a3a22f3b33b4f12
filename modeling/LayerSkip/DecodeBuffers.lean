import LayerSkip.TokenizerDecode

/-!
# The decoder's buffers

The output is the input with every run of malformed bytes replaced, so how far the output buffer is written can
be told from the bytes, and what is carried are the bytes behind the last complete character. Both decide
whether the buffers are large enough.
-/

namespace LayerSkip.TokenizerDecode

open Utf8Chars

section Output

namespace Detok

/-- A byte that begins a longer character. -/
theorem read_first {s : Detok} {c : UInt8} {m : ℕ} (hexpect : s.expectContinuation = 0)
    (hm : charLength c = m + 1) (hpos : 0 < m) : s.read c = s.copy c m := by
  rw [read_begin hexpect, begin, hm]
  cases settle_cases (s.copy c m) with
  | inl h =>
    have hzero : m = 0 := h.2.2
    omega
  | inr h => exact h.1

/-- A malformed byte, and the continuation bytes behind it if there are any, lead to the same state. -/
theorem foldl_malformed {s : Detok} {c : UInt8} {rest : List UInt8} (hexpect : s.expectContinuation = 0)
    (hbegins : ¬Begins c rest) (hbegun : ¬Begun c rest) :
    ∃ (others : List UInt8) (next : Detok), others.length < (c :: rest).length ∧
      (c :: rest).foldl read s = others.foldl read next ∧
      replaceFrom 0 true rest = replaceFrom 0 true others ∧
      next.text = s.text ∧ next.pending = replacement ∧ next.expectContinuation = 0 := by
  cases hm : charLength c with
  | zero =>
    refine ⟨rest, s.begin c, Nat.lt_succ_self _, ?_, Eq.refl _, ?_⟩
    · rw [List.foldl_cons, read_begin hexpect]
    · unfold begin
      rw [hm]
      exact ⟨Eq.refl _, Eq.refl _, Eq.refl _⟩
  | succ m =>
    obtain ⟨conts, d, others, hsplit, hconts, hshort, hd⟩ := exists_interruption hm hbegins hbegun
    have hfold := foldl_conts (s := s.copy c m) hconts hshort
    refine ⟨d :: others, ⟨s.text, replacement, s.carry ++ [c] ++ conts, 0⟩, ?_, ?_, ?_, Eq.refl _,
      Eq.refl _, Eq.refl _⟩
    · rw [hsplit]
      simp only [List.length_cons, List.length_append]
      omega
    · rw [List.foldl_cons, read_first hexpect hm (by omega), hsplit, List.foldl_append, hfold,
        List.foldl_cons, List.foldl_cons, read_recover _ hd, read_begin (Eq.refl _)]
      · exact Eq.refl _
      · simp only [copy]
        omega
    · rw [hsplit, replaceFrom_conts hconts]

/-- Bytes between characters, the malformed ones among which have been replaced if there are any pending. -/
theorem foldl_replaced (bytes : List UInt8) (s : Detok) (malformed : Bool)
    (hexpect : s.expectContinuation = 0) (hpending : s.pending = if malformed then replacement else []) :
    (bytes.foldl read s).text ++ (bytes.foldl read s).pending =
      s.text ++ s.pending ++ replaceFrom 0 malformed bytes := by
  induction hlength : bytes.length using Nat.strong_induction_on generalizing bytes s malformed with
  | _ n ih =>
    cases bytes with
    | nil => simp [replaceFrom]
    | cons c rest =>
      by_cases hbegins : Begins c rest
      · have hpos := hbegins.1
        have hle := hbegins.2.1
        have hchar : IsChar (c :: rest.take (charLength c - 1)) := by
          refine ⟨c, _, Eq.refl _, ?_, hbegins.2.2⟩
          rw [List.length_take]
          omega
        have hsplit : c :: rest =
            (c :: rest.take (charLength c - 1)) ++ rest.drop (charLength c - 1) := by
          rw [List.cons_append, List.take_append_drop]
        have hfold : (c :: rest).foldl read s = (rest.drop (charLength c - 1)).foldl read
            ⟨s.text ++ s.pending ++ (c :: rest.take (charLength c - 1)), [], [], 0⟩ := by
          rw [hsplit, List.foldl_append, foldl_char hchar hexpect]
        have hrest := ih (rest.drop (charLength c - 1)).length
          (by rw [← hlength, List.length_drop, List.length_cons]; omega)
          (rest.drop (charLength c - 1))
          ⟨s.text ++ s.pending ++ (c :: rest.take (charLength c - 1)), [], [], 0⟩ false (Eq.refl _)
          (Eq.refl _) (Eq.refl _)
        have htake : replaceFrom (charLength c - 1) false rest = _ := replaceFrom_take (by omega)
        rw [hfold, hrest, replaceFrom, if_pos hbegins, htake]
        simp
      · by_cases hbegun : Begun c rest
        · obtain ⟨m, hm⟩ : ∃ m, charLength c = m + 1 := by
            have hlt := hbegun.1
            exact ⟨charLength c - 1, by omega⟩
          have hlt := hbegun.1
          have hfold := foldl_conts (s := s.copy c m) hbegun.2 (by simp only [copy]; omega)
          rw [List.foldl_cons, read_first hexpect hm (by omega), hfold, replaceFrom, if_neg hbegins,
            if_pos hbegun]
          simp [copy]
        · obtain ⟨others, next, hless, hfold, hreplaced, htext, hnext, hexpect'⟩ :=
            foldl_malformed hexpect hbegins hbegun
          have hrest := ih others.length (by omega) others next true hexpect' hnext (Eq.refl _)
          rw [hfold, hrest, htext, hnext, replaceFrom_malformed hbegins hbegun, hreplaced, hpending]
          cases malformed with
          | true => simp
          | false => simp

end Detok

/-- The output is the input with malformed bytes replaced. -/
theorem decoded_replaced (bytes : List UInt8) :
    (decoded bytes).text ++ (decoded bytes).pending = replaced bytes :=
  Detok.foldl_replaced bytes Detok.start false (Eq.refl _) (Eq.refl _)

theorem dst_decoded (bytes : List UInt8) : (decoded bytes).dst = (replaced bytes).length := by
  rw [← decoded_replaced, List.length_append]
  exact Eq.refl _

end Output

section Carried

/-- Bytes of which at most three follow a complete character, or the beginning. -/
def EndsSoon (bytes : List UInt8) : Prop :=
  ∃ front back, bytes = front ++ back ∧ (front = [] ∨ EndsChar front) ∧ back.length ≤ 3

/-- What is behind the last complete character. -/
structure Behind (bytes carry : List UInt8) : Prop where
  /-- A character ends before it, or nothing is before it. -/
  front : ∃ front, bytes = front ++ carry ∧ (front = [] ∨ EndsChar front) ∧
    ∀ part back, carry = part ++ back → part ≠ [] → ¬EndsChar (front ++ part)

namespace Detok

/-- No character is complete behind the checkpoint, and an incomplete one is at the end. -/
structure Follows (bytes : List UInt8) (s : Detok) : Prop where
  /-- A character ends at the checkpoint, or it is the beginning. -/
  front : ∃ front, bytes = front ++ s.carry ∧ (front = [] ∨ EndsChar front)
  /-- The character that is expected to be completed. -/
  begun : 0 < s.expectContinuation → ∃ front c conts, bytes = front ++ c :: conts ∧
    conts.length + 1 + s.expectContinuation = charLength c ∧ ∀ b ∈ conts, IsContinuation b

variable {s : Detok} {bytes : List UInt8}

/-- A byte with which a character ends. -/
theorem follows_settled (h : s.Settled) (hends : EndsChar bytes) : s.Follows bytes := by
  constructor
  · exact ⟨bytes, by rw [h.carry, List.append_nil], Or.inr hends⟩
  · intro hpos
    rw [h.expectContinuation] at hpos
    omega

theorem Follows.begin (h : s.Follows bytes) (c : UInt8) : (s.begin c).Follows (bytes ++ [c]) := by
  obtain ⟨front, hfront, hends⟩ := h.front
  have hcarry : bytes ++ [c] = front ++ (s.carry ++ [c]) := by rw [← List.append_assoc, ← hfront]
  unfold Detok.begin
  cases hm : charLength c with
  | zero => exact ⟨⟨front, hcarry, hends⟩, fun hpos => absurd hpos (Nat.lt_irrefl 0)⟩
  | succ m =>
    cases settle_cases (s.copy c m) with
    | inl hsettled =>
      have hzero : m = 0 := hsettled.2.2
      apply follows_settled hsettled.1
      exact ⟨bytes, [c], Eq.refl _, c, [], Eq.refl _, by simp [hm, hzero], by simp⟩
    | inr hsame =>
      simp only [hsame.1]
      refine ⟨⟨front, hcarry, hends⟩, fun _ => ⟨bytes, c, [], Eq.refl _, ?_, by simp⟩⟩
      simp only [Detok.copy, List.length_nil, hm]
      omega

theorem Follows.read (h : s.Follows bytes) (c : UInt8) : (s.read c).Follows (bytes ++ [c]) := by
  by_cases hexpect : 0 < s.expectContinuation
  · by_cases hc : IsContinuation c
    · obtain ⟨front, hfront, hends⟩ := h.front
      obtain ⟨before, first, conts, hbefore, hlength, hconts⟩ := h.begun hexpect
      have hall : ∀ b ∈ conts ++ [c], IsContinuation b := by
        intro b hb
        cases List.mem_append.mp hb with
        | inl hmem => exact hconts b hmem
        | inr hmem => exact List.mem_singleton.mp hmem ▸ hc
      have hbytes : bytes ++ [c] = before ++ first :: (conts ++ [c]) := by
        rw [hbefore, List.append_assoc, List.cons_append]
      rw [read_continue hexpect hc]
      cases settle_cases (s.copy c (s.expectContinuation - 1)) with
      | inl hsettled =>
        have hzero : s.expectContinuation - 1 = 0 := hsettled.2.2
        apply follows_settled hsettled.1
        refine ⟨before, _, hbytes, first, _, Eq.refl _, ?_, hall⟩
        rw [List.length_append, List.length_singleton]
        omega
      | inr hsame =>
        rw [hsame.1]
        constructor
        · refine ⟨front, ?_, hends⟩
          simp only [copy]
          rw [← List.append_assoc, ← hfront]
        · intro _
          refine ⟨before, first, _, hbytes, ?_, hall⟩
          simp only [copy, List.length_append, List.length_singleton]
          omega
    · have hrecover : s.recover.Follows bytes :=
        ⟨h.front, fun hpos => absurd hpos (Nat.lt_irrefl 0)⟩
      rw [read_recover hexpect hc]
      exact hrecover.begin c
  · rw [read_begin (Nat.eq_zero_of_not_pos hexpect)]
    exact h.begin c

theorem follows_decoded (bytes : List UInt8) : (decoded bytes).Follows bytes := by
  induction bytes using List.reverseRecOn with
  | nil => exact ⟨⟨[], Eq.refl _, Or.inl (Eq.refl _)⟩, fun hpos => absurd hpos (Nat.lt_irrefl 0)⟩
  | append_singleton bytes c ih =>
    have hread := ih.read c
    unfold decoded at hread ⊢
    rw [List.foldl_append]
    exact hread

/-- A complete character is text, whatever was expected. -/
theorem settled_char {char : List UInt8} (hchar : IsChar char) (s : Detok) :
    (char.foldl read s).Settled := by
  by_cases hexpect : 0 < s.expectContinuation
  · obtain ⟨c, conts, heq, hlength, hconts⟩ := hchar.form
    have hc : ¬IsContinuation c := by
      intro hcont
      have hzero := charLength_of_isContinuation hcont
      omega
    have hrecover := foldl_char (s := s.recover) hchar (Eq.refl _)
    have hsame : s.read c = s.recover.read c := by
      rw [read_recover hexpect hc, read_begin (Eq.refl _)]
    rw [heq, List.foldl_cons] at hrecover ⊢
    rw [hsame, hrecover]
    exact ⟨Eq.refl _, Eq.refl _, Eq.refl _⟩
  · rw [foldl_char hchar (Nat.eq_zero_of_not_pos hexpect)]
    exact ⟨Eq.refl _, Eq.refl _, Eq.refl _⟩

end Detok

variable {bytes front back : List UInt8}

/-- The decoder has nothing pending where a character ends. -/
theorem settled_decoded (h : front = [] ∨ EndsChar front) : (decoded front).Settled := by
  cases h with
  | inl hnil =>
    rw [hnil]
    exact ⟨Eq.refl _, Eq.refl _, Eq.refl _⟩
  | inr hends =>
    obtain ⟨before, char, heq, hchar⟩ := hends
    rw [heq, decoded, List.foldl_append]
    exact Detok.settled_char hchar _

theorem carry_length_le (bytes : List UInt8) : (decoded bytes).carry.length ≤ bytes.length := by
  obtain ⟨front, hfront⟩ := Detok.exists_front bytes
  have hlength := congrArg List.length hfront
  rw [List.length_append] at hlength
  unfold decoded
  omega

/-- Bytes behind a character are carried at most. -/
theorem carry_le_of_split (h : front = [] ∨ EndsChar front) :
    (decoded (front ++ back)).carry.length ≤ back.length := by
  have hle := carry_length_le back
  rw [(decoded_append front back).1, (settled_decoded h).carry, List.nil_append]
  exact hle

/-- How many bytes are carried. -/
theorem carry_le_iff : (decoded bytes).carry.length ≤ 3 ↔ EndsSoon bytes := by
  constructor
  · intro h
    obtain ⟨front, hfront, hends⟩ := (Detok.follows_decoded bytes).front
    exact ⟨front, _, hfront, hends, h⟩
  · intro h
    obtain ⟨front, back, heq, hends, hlength⟩ := h
    rw [heq]
    exact Nat.le_trans (carry_le_of_split hends) hlength

/-- Which bytes are carried. -/
theorem behind_carry (bytes : List UInt8) : Behind bytes (decoded bytes).carry := by
  obtain ⟨front, hfront, hends⟩ := (Detok.follows_decoded bytes).front
  refine ⟨front, hfront, hends, fun part back heq hne hpart => ?_⟩
  have hle : (decoded ((front ++ part) ++ back)).carry.length ≤ back.length :=
    carry_le_of_split (Or.inr hpart)
  rw [List.append_assoc, ← heq, ← hfront] at hle
  have hlength := congrArg List.length heq
  rw [List.length_append] at hlength
  have hpos := List.length_pos_iff.mpr hne
  omega

/-- The bytes behind the last complete character are determined. -/
theorem Behind.carry_eq {carry : List UInt8} (h : Behind bytes carry) :
    carry = (decoded bytes).carry := by
  obtain ⟨front, hfront, hends, hlast⟩ := h.front
  have hnone : (decoded carry).carry = carry ∧ (decoded carry).text = [] := by
    obtain ⟨part, hpart, hpartEnds⟩ := (Detok.follows_decoded carry).front
    cases hpartEnds with
    | inl hnil =>
      rw [hnil, List.nil_append] at hpart
      have hresumes := Detok.resumes_foldl Detok.resumes_start carry
      unfold Detok.Resumes at hresumes
      unfold decoded at hpart ⊢
      rw [← hpart] at hresumes
      refine ⟨hpart.symm, ?_⟩
      rw [hresumes]
    | inr hchar =>
      exfalso
      obtain ⟨before, char, heq, hischar⟩ := hchar
      have hne : part ≠ [] := by
        obtain ⟨c, conts, hform, _⟩ := hischar.form
        rw [heq, hform]
        simp
      exact hlast part _ hpart hne ⟨front ++ before, char, by rw [heq, List.append_assoc], hischar⟩
  rw [hfront, (decoded_append front carry).1, (settled_decoded hends).carry, List.nil_append, hnone.1]

end Carried

section Fits

variable {size : ℕ} {bytes front back carry : List UInt8}

/-- Bytes that can be decoded in a buffer: the output is never larger, and where a character ends there is
room for the end of the text. -/
structure Fits (size : ℕ) (bytes : List UInt8) : Prop where
  /-- Every beginning, with malformed bytes replaced. -/
  all : ∀ front back, bytes = front ++ back → (replaced front).length ≤ size
  /-- Every beginning that ends with a character. -/
  complete : ∀ front back, bytes = front ++ back → EndsChar front → (replaced front).length < size

/-- The text where a character ends. -/
theorem text_decoded (h : front = [] ∨ EndsChar front) : (decoded front).text = replaced front := by
  rw [← decoded_replaced, (settled_decoded h).pending, List.append_nil]

theorem text_length_mono (front back : List UInt8) :
    (decoded front).text.length ≤ (decoded (front ++ back)).text.length := by
  rw [(decoded_append front back).2, List.length_append]
  omega

/-- The text is what the bytes up to the last complete character are replaced by. -/
theorem exists_text (bytes : List UInt8) : ∃ front back, bytes = front ++ back ∧
    (front = [] ∨ EndsChar front) ∧ (decoded bytes).text = replaced front := by
  obtain ⟨front, hfront, hends⟩ := (Detok.follows_decoded bytes).front
  have hresumes := Detok.resumes_foldl Detok.resumes_start bytes
  have htext : (decoded (decoded bytes).carry).text = [] := by
    unfold Detok.Resumes at hresumes
    unfold decoded
    rw [hresumes]
  refine ⟨front, _, hfront, hends, ?_⟩
  have happend := (decoded_append front (decoded bytes).carry).2
  rw [← hfront, (settled_decoded hends).carry, List.nil_append, htext, List.append_nil] at happend
  rw [happend, text_decoded hends]

/-- When the output buffer is large enough. -/
theorem fits_iff (hsize : 0 < size) : Fits size bytes ↔
    (Detok.loop bytes Detok.start 0).2 ≤ size ∧ (decoded bytes).text.length < size := by
  have hloop := (Detok.loop_eq bytes Detok.start 0).2 size
  constructor
  · intro h
    constructor
    · apply hloop.mpr
      refine ⟨Nat.zero_le size, fun front back heq _ => ?_⟩
      have hdst := dst_decoded front
      unfold decoded at hdst
      rw [hdst]
      exact h.all front back heq
    · obtain ⟨front, back, heq, hends, htext⟩ := exists_text bytes
      rw [htext]
      cases hends with
      | inl hnil =>
        rw [hnil]
        exact hsize
      | inr hchar => exact h.complete front back heq hchar
  · intro h
    obtain ⟨hwritten, htext⟩ := h
    have hdst := (hloop.mp hwritten).2
    constructor
    · intro front back heq
      by_cases hnil : front = []
      · rw [hnil]
        exact Nat.zero_le size
      · have hle := hdst front back heq hnil
        have hreplaced := dst_decoded front
        unfold decoded at hreplaced
        rwa [hreplaced] at hle
    · intro front back heq hends
      have hmono := text_length_mono front back
      rw [text_decoded (Or.inr hends), ← heq] at hmono
      omega

end Fits

section Runs

variable {t : Tokenizer} {token : ℕ} {tokens : List ℕ} {bytes : List UInt8}

/-- What a call adds to the bytes. -/
def Tokenizer.added (t : Tokenizer) (token : ℕ) : List UInt8 :=
  if (token : ℤ) = t.bosId ∨ (token : ℤ) ∈ t.eosTokenIds then [] else t.piece token

/-- Every call returns, none has written behind a buffer, and at most three bytes are carried between calls. -/
def Safe (t : Tokenizer) (tokens : List ℕ) : Prop :=
  ∀ called others, tokens = called ++ others →
    ∃ returned carry, decodeAll t called [] = .ok (returned, carry) ∧ carry.length ≤ 3

/-- Every call leaves at most three bytes behind the last complete character, and what it decodes fits. -/
def Steady (t : Tokenizer) (tokens : List ℕ) : Prop :=
  ∀ called token others, tokens = called ++ token :: others → t.IsRegular token →
    EndsSoon (called.flatMap t.added ++ t.piece token) ∧
      ∀ carry, Behind (called.flatMap t.added) carry → Fits t.strBufferSize (carry ++ t.piece token)

/-- The buffers hold the longest token behind three bytes. -/
theorem room_of_carry {carry piece : List UInt8} (hcarry : carry.length ≤ 3)
    (hpiece : piece.length ≤ t.maxTokenLength) : carry.length + piece.length + 1 < t.strBufferSize := by
  unfold Tokenizer.strBufferSize
  split <;> omega

/-- A call for a regular token behind at most three carried bytes. -/
theorem decode_carried (h : t.IsRegular token) (hpiece : (t.piece token).length ≤ t.maxTokenLength)
    (hnul : 0 ∉ bytes ++ t.piece token) (hcarry : (decoded bytes).carry.length ≤ 3) :
    (∀ returned carry, decode t (decoded bytes).carry token = .ok (returned, carry) →
      carry = (decoded (bytes ++ t.piece token)).carry ∧
        Fits t.strBufferSize ((decoded bytes).carry ++ t.piece token)) ∧
    (Fits t.strBufferSize ((decoded bytes).carry ++ t.piece token) → ∃ returned,
      decode t (decoded bytes).carry token =
        .ok (returned, (decoded (bytes ++ t.piece token)).carry)) := by
  have hroom := room_of_carry hcarry hpiece
  have hfits : Fits t.strBufferSize ((decoded bytes).carry ++ t.piece token) ↔ _ :=
    fits_iff (Nat.zero_lt_of_lt hroom)
  have hstate : (Detok.loop ((decoded bytes).carry ++ t.piece token) Detok.start 0).1 =
      decoded ((decoded bytes).carry ++ t.piece token) := (Detok.loop_eq _ _ _).1
  rw [(decoded_append bytes (t.piece token)).1, hfits]
  unfold decode
  rw [if_neg h.bos, if_neg h.eos, getElem?_piece h.lt]
  simp only [hroom, if_true, detokUtf8_eq (not_mem_carry hnul), hstate]
  constructor
  · intro returned carry hok
    split at hok
    · cases hok
    · rename_i hsize
      injection hok with hok
      injection hok with _ hok
      exact ⟨hok.symm, by omega⟩
  · intro hsize
    rw [if_neg (by omega)]
    exact ⟨_, Eq.refl _⟩

/-- Calls, and one more. -/
theorem decodeAll_concat (called : List ℕ) (carry : List UInt8)
    (result : List (Option (List UInt8)) × List UInt8) :
    decodeAll t (called ++ [token]) carry = .ok result ↔ ∃ front last,
      decodeAll t called carry = .ok front ∧ decode t front.2 token = .ok last ∧
        result = (front.1 ++ [last.1], last.2) := by
  induction called generalizing carry result with
  | nil =>
    cases h : decode t carry token with
    | error e => simp [decodeAll, h, bind, Except.bind]
    | ok last =>
      simp only [List.nil_append, decodeAll, h, bind, Except.bind, pure, Except.pure, Except.ok.injEq]
      constructor
      · intro heq
        exact ⟨_, last, Eq.refl _, h, heq.symm⟩
      · intro hexists
        obtain ⟨front, other, hfront, hother, hresult⟩ := hexists
        rw [← hfront, h] at hother
        cases hother
        rw [hresult, ← hfront]
        exact Eq.refl _
  | cons other called ih =>
    rw [List.cons_append, decodeAll, decodeAll]
    cases decode t carry other with
    | error e => simp [bind, Except.bind]
    | ok first =>
      simp only [bind, Except.bind, pure, Except.pure]
      constructor
      · intro hcall
        cases hafter : decodeAll t (called ++ [token]) first.2 with
        | error e =>
          rw [hafter] at hcall
          cases hcall
        | ok after =>
          obtain ⟨front, last, hfront, hlast, hresult⟩ := (ih first.2 after).mp hafter
          rw [hafter, hresult] at hcall
          cases hcall
          exact ⟨(first.1 :: front.1, front.2), last, by rw [hfront], hlast, Eq.refl _⟩
      · intro hexists
        obtain ⟨front, last, hfront, hlast, hresult⟩ := hexists
        cases hcalled : decodeAll t called first.2 with
        | error e =>
          rw [hcalled] at hfront
          cases hfront
        | ok before =>
          rw [hcalled] at hfront
          cases hfront
          rw [(ih first.2 _).mpr ⟨before, last, hcalled, hlast, Eq.refl _⟩, hresult]
          exact Eq.refl _

/-- A token before or behind a text leaves the carried bytes. -/
theorem decode_special (h : (token : ℤ) = t.bosId ∨ (token : ℤ) ∈ t.eosTokenIds) (carry : List UInt8) :
    t.added token = [] ∧ ∃ returned, decode t carry token = .ok (returned, carry) := by
  constructor
  · exact if_pos h
  · unfold decode
    by_cases hbos : (token : ℤ) = t.bosId
    · rw [if_pos hbos]
      exact ⟨_, Eq.refl _⟩
    · rw [if_neg hbos, if_pos (h.resolve_left hbos)]
      exact ⟨_, Eq.refl _⟩

/-- Strings that fit in a buffer entry and are text. -/
structure Tokenizer.Entries (t : Tokenizer) : Prop where
  /-- The longest one has been measured. -/
  length : ∀ entry ∈ t.vocab, entry.length ≤ t.maxTokenLength
  /-- A string ends before its terminator. -/
  nul : ∀ entry ∈ t.vocab, 0 ∉ entry

/-- The bytes of the calls before have no terminator among them. -/
theorem not_mem_called {called others : List ℕ} (hentries : t.Entries)
    (htokens : ∀ token ∈ tokens, token < t.vocab.length) (heq : tokens = called ++ others) :
    0 ∉ called.flatMap t.added := by
  intro hmem
  obtain ⟨token, htoken, hadded⟩ := List.mem_flatMap.mp hmem
  have hlt : token < t.vocab.length := htokens token (heq ▸ List.mem_append_left _ htoken)
  unfold Tokenizer.added at hadded
  split at hadded
  · cases hadded
  · exact hentries.nul _ (piece_mem hlt) hadded

/-- A call for a token of the vocabulary, behind at most three carried bytes. -/
theorem decode_called (hentries : t.Entries) (htoken : token < t.vocab.length) (hnul : 0 ∉ bytes)
    (hcarry : (decoded bytes).carry.length ≤ 3) :
    (∀ returned carry, decode t (decoded bytes).carry token = .ok (returned, carry) →
      carry = (decoded (bytes ++ t.added token)).carry ∧
        (t.IsRegular token → Fits t.strBufferSize ((decoded bytes).carry ++ t.piece token))) ∧
    ((t.IsRegular token → Fits t.strBufferSize ((decoded bytes).carry ++ t.piece token)) →
      ∃ returned, decode t (decoded bytes).carry token =
        .ok (returned, (decoded (bytes ++ t.added token)).carry)) := by
  by_cases hspecial : (token : ℤ) = t.bosId ∨ (token : ℤ) ∈ t.eosTokenIds
  · obtain ⟨hadded, last, hlast⟩ := decode_special hspecial (decoded bytes).carry
    rw [hadded, List.append_nil, hlast]
    constructor
    · intro returned carry hok
      cases hok
      exact ⟨Eq.refl _, fun hregular => absurd hspecial (not_or.mpr ⟨hregular.bos, hregular.eos⟩)⟩
    · exact fun _ => ⟨last, Eq.refl _⟩
  · have hregular : t.IsRegular token :=
      ⟨htoken, fun h => hspecial (Or.inl h), fun h => hspecial (Or.inr h)⟩
    have hadded : t.added token = t.piece token := if_neg hspecial
    have hmem := piece_mem htoken
    have hnone : 0 ∉ bytes ++ t.piece token := by
      intro hzero
      cases List.mem_append.mp hzero with
      | inl h => exact hnul h
      | inr h => exact hentries.nul _ hmem h
    have hdecode := decode_carried hregular (hentries.length _ hmem) hnone hcarry
    rw [hadded]
    constructor
    · intro returned carry hok
      have hresult := hdecode.1 returned carry hok
      exact ⟨hresult.1, fun _ => hresult.2⟩
    · intro hfits
      exact hdecode.2 (hfits hregular)

section Safe

variable (hentries : t.Entries) (htokens : ∀ token ∈ tokens, token < t.vocab.length)

include hentries htokens

/-- In safe calls, what is carried is known. -/
theorem safe_carry (hsafe : Safe t tokens) (called others : List ℕ) (heq : tokens = called ++ others) :
    ∃ returned, decodeAll t called [] = .ok (returned, (decoded (called.flatMap t.added)).carry) ∧
      (decoded (called.flatMap t.added)).carry.length ≤ 3 := by
  induction called using List.reverseRecOn generalizing others with
  | nil => exact ⟨[], Eq.refl _, Nat.zero_le 3⟩
  | append_singleton called token ih =>
    have hsplit : tokens = called ++ token :: others := by rw [heq, List.append_assoc]; exact Eq.refl _
    obtain ⟨front, hfront, hcarry⟩ := ih (token :: others) hsplit
    obtain ⟨returned, carry, hcall, hlength⟩ := hsafe (called ++ [token]) others heq
    have hnul := not_mem_called hentries htokens hsplit
    have hlt : token < t.vocab.length := htokens token (by rw [hsplit]; simp)
    have hdecode := decode_called hentries hlt hnul hcarry
    obtain ⟨before, last, hbefore, hlast, hresult⟩ := (decodeAll_concat called [] _).mp hcall
    rw [hfront] at hbefore
    cases hbefore
    cases hresult
    have hnext := (hdecode.1 last.1 last.2 hlast).1
    rw [List.flatMap_append, List.flatMap_singleton, ← hnext]
    exact ⟨_, hcall, hlength⟩

/-- Safe calls are steady. -/
theorem Safe.steady (hsafe : Safe t tokens) : Steady t tokens := by
  intro called token others heq hregular
  have hnul := not_mem_called hentries htokens heq
  have hadded : t.added token = t.piece token := if_neg (not_or.mpr ⟨hregular.bos, hregular.eos⟩)
  obtain ⟨before, hbefore, hcarry⟩ := safe_carry hentries htokens hsafe called (token :: others) heq
  obtain ⟨after, hafter, hlength⟩ := safe_carry hentries htokens hsafe (called ++ [token]) others
    (by rw [heq, List.append_assoc]; exact Eq.refl _)
  obtain ⟨front, last, hfront, hlast, _⟩ := (decodeAll_concat called [] _).mp hafter
  rw [hbefore] at hfront
  cases hfront
  have hfits := ((decode_called hentries hregular.lt hnul hcarry).1 last.1 last.2 hlast).2 hregular
  rw [List.flatMap_append, List.flatMap_singleton, hadded, carry_le_iff] at hlength
  refine ⟨hlength, fun carry hbehind => ?_⟩
  rw [hbehind.carry_eq]
  exact hfits

/-- Steady calls are safe. -/
theorem Steady.decodeAll (hsteady : Steady t tokens) (called others : List ℕ)
    (heq : tokens = called ++ others) :
    ∃ returned, decodeAll t called [] = .ok (returned, (decoded (called.flatMap t.added)).carry) ∧
      (decoded (called.flatMap t.added)).carry.length ≤ 3 := by
  induction called using List.reverseRecOn generalizing others with
  | nil => exact ⟨[], Eq.refl _, Nat.zero_le 3⟩
  | append_singleton called token ih =>
    have hsplit : tokens = called ++ token :: others := by rw [heq, List.append_assoc]; exact Eq.refl _
    obtain ⟨front, hfront, hcarry⟩ := ih (token :: others) hsplit
    have hnul := not_mem_called hentries htokens hsplit
    have hlt : token < t.vocab.length := htokens token (by rw [hsplit]; simp)
    obtain ⟨last, hlast⟩ := (decode_called hentries hlt hnul hcarry).2
      fun hregular => (hsteady called token others hsplit hregular).2 _ (behind_carry _)
    have hcall := (decodeAll_concat called [] _).mpr ⟨_, _, hfront, hlast, Eq.refl _⟩
    rw [List.flatMap_append, List.flatMap_singleton]
    refine ⟨_, hcall, ?_⟩
    by_cases hspecial : (token : ℤ) = t.bosId ∨ (token : ℤ) ∈ t.eosTokenIds
    · rw [(decode_special hspecial []).1, List.append_nil]
      exact hcarry
    · have hregular : t.IsRegular token :=
        ⟨hlt, fun h => hspecial (Or.inl h), fun h => hspecial (Or.inr h)⟩
      have hadded : t.added token = t.piece token := if_neg hspecial
      rw [hadded, carry_le_iff]
      exact (hsteady called token others hsplit hregular).1

/-- When the buffers are large enough, and at most three bytes are carried. -/
theorem safe_iff : Safe t tokens ↔ Steady t tokens := by
  constructor
  · exact Safe.steady hentries htokens
  · intro hsteady called others heq
    obtain ⟨returned, hcall, hcarry⟩ := hsteady.decodeAll hentries htokens called others heq
    exact ⟨returned, _, hcall, hcarry⟩

end Safe

end Runs

/-- A tokenizer with a byte that is in no character. -/
def malformedTokenizer : Tokenizer := ⟨1, [[0xff]], -1, []⟩

/-- Four malformed bytes are carried after four calls. -/
theorem not_safe_malformed : ¬∀ (t : Tokenizer) (tokens : List ℕ), t.Entries →
    (∀ token ∈ tokens, token < t.vocab.length) → Safe t tokens := by
  intro h
  have hentries : malformedTokenizer.Entries := ⟨by decide, by decide⟩
  have hsafe := h malformedTokenizer [0, 0, 0, 0] hentries (by decide) [0, 0, 0, 0] [] (Eq.refl _)
  have hcall : decodeAll malformedTokenizer [0, 0, 0, 0] [] =
      .ok ([none, none, none, none], [0xff, 0xff, 0xff, 0xff]) := by decide +kernel
  rw [hcall] at hsafe
  obtain ⟨returned, carry, heq, hlength⟩ := hsafe
  cases heq
  exact absurd hlength (by decide)

/-- The tenth one fails the assertion. -/
example : decodeAll malformedTokenizer (List.replicate 10 0) [] =
    .error "assertion: strBufferPos + pieceLen + 1 < strBufferSize" := by decide +kernel

/-- The output is written behind its buffer although only three bytes were carried. -/
example : decodeAll ⟨5, [[0xff, 0xe2, 0x82], [0xac, 0xff, 0x41, 0xff, 0x41]], -1, []⟩ [0, 1] [] =
    .error "write behind utf8Buffer" := by decide +kernel

theorem safe_iff_emoji : Safe emojiTokenizer [0, 1, 2] ↔ Steady emojiTokenizer [0, 1, 2] := by
  have hentries : emojiTokenizer.Entries := ⟨by decide, by decide⟩
  exact safe_iff hentries (by decide)

end LayerSkip.TokenizerDecode
