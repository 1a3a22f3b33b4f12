import Mathlib.Data.List.TakeWhile

/-!
# Bytes of UTF-8 characters

The first byte of a character tells its length and the others are continuation bytes, so that where
characters end can be seen from the bytes before. The encodings of characters are of that form.
-/

namespace LayerSkip.Utf8Chars

/-- A byte that continues a character. -/
def IsContinuation (c : UInt8) : Prop := c &&& 0xc0 = 0x80

instance : DecidablePred IsContinuation := fun c => inferInstanceAs (Decidable (c &&& 0xc0 = 0x80))

/-- Length of a character that begins with a byte, 0 if none does. -/
def charLength (c : UInt8) : ℕ :=
  if c ≤ 0x7f then 1
  else if 0xc0 ≤ c ∧ c ≤ 0xdf then 2
  else if 0xe0 ≤ c ∧ c ≤ 0xef then 3
  else if 0xf0 ≤ c ∧ c ≤ 0xf7 then 4
  else 0

/-- The bytes of a character. -/
structure IsChar (bytes : List UInt8) : Prop where
  /-- A first byte and continuation bytes, as many as it tells. -/
  form : ∃ c conts, bytes = c :: conts ∧ conts.length + 1 = charLength c ∧
    ∀ b ∈ conts, IsContinuation b

/-- A character ends with the last byte. -/
def EndsChar (bytes : List UInt8) : Prop := ∃ front char, bytes = front ++ char ∧ IsChar char

theorem forall_byte {p : UInt8 → Prop} (h : ∀ n : Fin 256, p (UInt8.ofNat n)) (c : UInt8) : p c := by
  have hc := h ⟨c.toNat, UInt8.toNat_lt c⟩
  rwa [UInt8.ofNat_toNat] at hc

/-- No character begins with a continuation byte. -/
theorem charLength_of_isContinuation {c : UInt8} (h : IsContinuation c) : charLength c = 0 := by
  revert c
  apply forall_byte
  decide +kernel

section Replaced

/-- A character begins and is complete. -/
def Begins (c : UInt8) (rest : List UInt8) : Prop :=
  1 ≤ charLength c ∧ charLength c ≤ rest.length + 1 ∧
    ∀ b ∈ rest.take (charLength c - 1), IsContinuation b

/-- A character begins and may still be completed. -/
def Begun (c : UInt8) (rest : List UInt8) : Prop :=
  rest.length + 1 < charLength c ∧ ∀ b ∈ rest, IsContinuation b

instance (c : UInt8) (rest : List UInt8) : Decidable (Begins c rest) :=
  inferInstanceAs (Decidable (1 ≤ charLength c ∧ charLength c ≤ rest.length + 1 ∧
    ∀ b ∈ rest.take (charLength c - 1), IsContinuation b))

instance (c : UInt8) (rest : List UInt8) : Decidable (Begun c rest) :=
  inferInstanceAs (Decidable (rest.length + 1 < charLength c ∧ ∀ b ∈ rest, IsContinuation b))

/-- U+FFFD. -/
def replacement : List UInt8 := [0xef, 0xbf, 0xbd]

/-- Bytes of which so many are known to be of a character, behind malformed ones or not. -/
def replaceFrom : ℕ → Bool → List UInt8 → List UInt8
  | _, _, [] => []
  | k + 1, _, c :: rest => c :: replaceFrom k false rest
  | 0, malformed, c :: rest =>
    if Begins c rest then c :: replaceFrom (charLength c - 1) false rest
    else if Begun c rest then c :: rest
    else if malformed then replaceFrom 0 true rest
    else replacement ++ replaceFrom 0 true rest

/-- Bytes with every run of malformed ones replaced by U+FFFD. The beginning of a character at the end is
kept. -/
def replaced (bytes : List UInt8) : List UInt8 := replaceFrom 0 false bytes

theorem replaceFrom_take {k : ℕ} {rest : List UInt8} (hk : k ≤ rest.length) :
    replaceFrom k false rest = rest.take k ++ replaceFrom 0 false (rest.drop k) := by
  induction k generalizing rest with
  | zero => exact Eq.refl _
  | succ k ih =>
    cases rest with
    | nil => simp at hk
    | cons c rest =>
      rw [replaceFrom, ih (Nat.le_of_succ_le_succ hk), List.take_succ_cons, List.drop_succ_cons,
        List.cons_append]

/-- Malformed bytes behind others are left out. -/
theorem replaceFrom_malformed {c : UInt8} {rest : List UInt8} (hbegins : ¬Begins c rest)
    (hbegun : ¬Begun c rest) (malformed : Bool) : replaceFrom 0 malformed (c :: rest) =
      (if malformed then [] else replacement) ++ replaceFrom 0 true rest := by
  rw [replaceFrom, if_neg hbegins, if_neg hbegun]
  cases malformed with
  | true => exact Eq.refl _
  | false => exact Eq.refl _

theorem not_begins_of_charLength {c : UInt8} (h : charLength c = 0) (rest : List UInt8) :
    ¬Begins c rest ∧ ¬Begun c rest := by
  constructor
  · intro hbegins
    have hpos := hbegins.1
    omega
  · intro hbegun
    have hlt := hbegun.1
    omega

theorem replaceFrom_conts {conts : List UInt8} (h : ∀ b ∈ conts, IsContinuation b)
    (rest : List UInt8) : replaceFrom 0 true (conts ++ rest) = replaceFrom 0 true rest := by
  induction conts with
  | nil => exact Eq.refl _
  | cons b conts ih =>
    have hnone := not_begins_of_charLength
      (charLength_of_isContinuation (h b List.mem_cons_self)) (conts ++ rest)
    rw [List.cons_append, replaceFrom_malformed hnone.1 hnone.2,
      ih fun d hd => h d (List.mem_cons_of_mem b hd)]
    exact Eq.refl _

/-- A first byte whose character is not completed has a byte in its way. -/
theorem exists_interruption {c : UInt8} {rest : List UInt8} {m : ℕ} (hm : charLength c = m + 1)
    (hbegins : ¬Begins c rest) (hbegun : ¬Begun c rest) : ∃ conts d others,
      rest = conts ++ d :: others ∧ (∀ b ∈ conts, IsContinuation b) ∧ conts.length < m ∧
        ¬IsContinuation d := by
  have hsplit := List.takeWhile_append_dropWhile (p := fun b => decide (IsContinuation b)) (l := rest)
  have hconts : ∀ b ∈ rest.takeWhile (fun b => decide (IsContinuation b)), IsContinuation b := by
    intro b hb
    have htaken := List.mem_takeWhile_imp (p := fun b => decide (IsContinuation b)) hb
    exact of_decide_eq_true htaken
  have hshort : (rest.takeWhile fun b => decide (IsContinuation b)).length < m := by
    apply Nat.lt_of_not_le
    intro hlong
    apply hbegins
    have hprefix := congrArg (List.take m) hsplit
    rw [List.take_append_of_le_length hlong] at hprefix
    have hlength := congrArg List.length hsplit
    rw [List.length_append] at hlength
    refine ⟨by omega, by omega, fun b hb => ?_⟩
    rw [hm, Nat.add_sub_cancel, ← hprefix] at hb
    exact hconts b (List.mem_of_mem_take hb)
  cases hdrop : rest.dropWhile fun b => decide (IsContinuation b) with
  | nil =>
    exfalso
    rw [hdrop, List.append_nil] at hsplit
    rw [hsplit] at hconts hshort
    exact hbegun ⟨by omega, hconts⟩
  | cons d others =>
    refine ⟨_, d, others, ?_, hconts, hshort, ?_⟩
    · rw [← hdrop]
      exact hsplit.symm
    · have hhead := List.head?_dropWhile_not (fun b => decide (IsContinuation b)) rest
      rw [hdrop] at hhead
      simpa using hhead

end Replaced

section Encoded

theorem isContinuation_tail (x : UInt8) : IsContinuation (x &&& 0x3f ||| 0x80) := by
  revert x
  apply forall_byte
  decide +kernel

theorem charLength_two (x : UInt8) : charLength (x &&& 0x1f ||| 0xc0) = 2 := by
  revert x
  apply forall_byte
  decide +kernel

theorem charLength_three (x : UInt8) : charLength (x &&& 0x0f ||| 0xe0) = 3 := by
  revert x
  apply forall_byte
  decide +kernel

theorem charLength_four (x : UInt8) : charLength (x &&& 0x07 ||| 0xf0) = 4 := by
  revert x
  apply forall_byte
  decide +kernel

/-- The encoding of a character. -/
theorem isChar_utf8EncodeChar (c : Char) : IsChar (String.utf8EncodeChar c) := by
  rcases c.utf8Size_eq with h | h | h | h
  · rw [String.utf8EncodeChar_eq_singleton h]
    have hle : c.val ≤ 127 := Char.utf8Size_eq_one_iff.mp h
    have hbyte : c.val.toUInt8 ≤ 0x7f := by
      rw [UInt8.le_iff_toNat_le, UInt32.toNat_toUInt8]
      rw [UInt32.le_iff_toNat_le] at hle
      exact Nat.le_trans (Nat.mod_le _ _) hle
    exact ⟨_, [], Eq.refl _, by rw [charLength, if_pos hbyte]; exact Eq.refl _, by simp⟩
  · rw [String.utf8EncodeChar_eq_cons_cons h]
    exact ⟨_, _, Eq.refl _, by rw [charLength_two]; exact Eq.refl _, by simp [isContinuation_tail]⟩
  · rw [String.utf8EncodeChar_eq_cons_cons_cons h]
    exact ⟨_, _, Eq.refl _, by rw [charLength_three]; exact Eq.refl _, by simp [isContinuation_tail]⟩
  · rw [String.utf8EncodeChar_eq_cons_cons_cons_cons h]
    exact ⟨_, _, Eq.refl _, by rw [charLength_four]; exact Eq.refl _, by simp [isContinuation_tail]⟩

end Encoded

end LayerSkip.Utf8Chars
