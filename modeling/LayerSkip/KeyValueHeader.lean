import LayerSkip.LittleEndian
import Mathlib.Algebra.Order.Ring.Int

/-!
# Files that begin with keys and values

A file begins with pairs of signed 32-bit numbers. Writing a number fails when it is out of
range, reading fails at the end of the file. What has been written in front of other bytes is
read back and these bytes are left.
-/

namespace LayerSkip.KeyValueHeader

open LittleEndian

/-- Bytes of a signed number, like `struct.pack('i', number)`. -/
def pack (number : ℤ) : Except String (List UInt8) :=
  if -2147483648 ≤ number ∧ number < 2147483648 then .ok (bytes 4 (number % 4294967296).toNat)
  else .error "'i' format requires -2147483648 <= number <= 2147483647"

/-- The signed number in bytes. -/
def unpack (bs : List UInt8) : ℤ := if value bs < 2147483648 then value bs else value bs - 4294967296

/-- Bytes of pairs one after the other. -/
def packPairs : List (ℤ × ℤ) → Except String (List UInt8)
  | [] => .ok []
  | (key, number) :: pairs => do
    let first ← pack key
    let second ← pack number
    let rest ← packPairs pairs
    return first ++ (second ++ rest)

/-- Bytes of a header: a mark, the number of bytes up to the end of the pairs and the pairs. -/
def packHeader (mark : ℤ) (pairs : List (ℤ × ℤ)) : Except String (List UInt8) := do
  let start ← pack mark
  let data ← packPairs pairs
  let size ← pack (start.length * 2 + data.length : ℕ)
  return start ++ (size ++ data)

/-- The first so many pairs of bytes. -/
def unpackPairs : ℕ → List UInt8 → List (ℤ × ℤ)
  | 0, _ => []
  | count + 1, bs =>
    (unpack (bs.take 4), unpack ((bs.drop 4).take 4)) :: unpackPairs count (bs.drop 8)

/-- Take so many bytes from a file, or fail with a text. -/
def fread (size : ℕ) (text : String) (file : List UInt8) :
    Except String (List UInt8 × List UInt8) :=
  if size ≤ file.length then .ok (file.take size, file.drop size) else .error text

/-- A computation that may fail has succeeded in each of its parts. -/
theorem bind_ok {α β : Type} {x : Except String α} {f : α → Except String β} {b : β}
    (h : x >>= f = .ok b) : ∃ a, x = .ok a ∧ f a = .ok b := by
  cases x with
  | error text => cases h
  | ok a => exact ⟨a, Eq.refl _, h⟩

theorem fread_append {size : ℕ} {text : String} {data : List UInt8} (h : data.length = size)
    (rest : List UInt8) : fread size text (data ++ rest) = .ok (data, rest) := by
  have hsize : size ≤ (data ++ rest).length := by
    rw [List.length_append]
    omega
  unfold fread
  rw [if_pos hsize, List.take_left' h, List.drop_left' h]

theorem pack_eq_ok {number : ℤ} {bs : List UInt8} (h : pack number = .ok bs) :
    (-2147483648 ≤ number ∧ number < 2147483648) ∧ bs = bytes 4 (number % 4294967296).toNat := by
  unfold pack at h
  by_cases hrange : -2147483648 ≤ number ∧ number < 2147483648
  · rw [if_pos hrange] at h
    injection h with h
    exact ⟨hrange, h.symm⟩
  · rw [if_neg hrange] at h
    cases h

theorem pack_length {number : ℤ} {bs : List UInt8} (h : pack number = .ok bs) : bs.length = 4 := by
  rw [(pack_eq_ok h).2, bytes_length]

/-- A number is read back as it was written. -/
theorem unpack_pack {number : ℤ} {bs : List UInt8} (h : pack number = .ok bs) :
    unpack bs = number := by
  have ⟨hrange, hbs⟩ := pack_eq_ok h
  have hlt : (number % 4294967296).toNat < 256 ^ 4 := by omega
  unfold unpack
  rw [hbs, value_bytes hlt]
  split
  · omega
  · omega

theorem packPairs_cons {pair : ℤ × ℤ} {pairs : List (ℤ × ℤ)} {bs : List UInt8}
    (h : packPairs (pair :: pairs) = .ok bs) : ∃ first second rest, pack pair.1 = .ok first ∧
      pack pair.2 = .ok second ∧ packPairs pairs = .ok rest ∧ bs = first ++ (second ++ rest) := by
  obtain ⟨first, hfirst, h⟩ := bind_ok h
  obtain ⟨second, hsecond, h⟩ := bind_ok h
  obtain ⟨rest, hrest, h⟩ := bind_ok h
  injection h with h
  exact ⟨first, second, rest, hfirst, hsecond, hrest, h.symm⟩

theorem packPairs_length {pairs : List (ℤ × ℤ)} {bs : List UInt8} (h : packPairs pairs = .ok bs) :
    bs.length = 8 * pairs.length := by
  induction pairs generalizing bs with
  | nil =>
    injection h with h
    rw [← h]
    exact Eq.refl _
  | cons pair pairs ih =>
    obtain ⟨first, second, rest, hfirst, hsecond, hrest, hbs⟩ := packPairs_cons h
    rw [hbs, List.length_append, List.length_append, pack_length hfirst, pack_length hsecond,
      ih hrest, List.length_cons]
    omega

/-- Numbers that could be written are in range. -/
theorem packPairs_range {pairs : List (ℤ × ℤ)} {bs : List UInt8} (h : packPairs pairs = .ok bs) :
    ∀ pair ∈ pairs, -2147483648 ≤ pair.2 ∧ pair.2 < 2147483648 := by
  induction pairs generalizing bs with
  | nil => exact fun _ hmem => absurd hmem List.not_mem_nil
  | cons pair pairs ih =>
    obtain ⟨first, second, rest, _, hsecond, hrest, _⟩ := packPairs_cons h
    intro other hother
    cases List.mem_cons.mp hother with
    | inl heq =>
      rw [heq]
      exact (pack_eq_ok hsecond).1
    | inr hmem => exact ih hrest other hmem

/-- Pairs are read back as they were written, whatever follows. -/
theorem unpackPairs_packPairs {pairs : List (ℤ × ℤ)} {bs : List UInt8}
    (h : packPairs pairs = .ok bs) (more : List UInt8) :
    unpackPairs pairs.length (bs ++ more) = pairs := by
  induction pairs generalizing bs with
  | nil => exact Eq.refl _
  | cons pair pairs ih =>
    obtain ⟨first, second, rest, hfirst, hsecond, hrest, hbs⟩ := packPairs_cons h
    have hlength := pack_length hfirst
    have hsplit : bs ++ more = first ++ (second ++ (rest ++ more)) := by
      rw [hbs, List.append_assoc, List.append_assoc]
    have hboth : (first ++ second).length = 8 := by
      rw [List.length_append, hlength, pack_length hsecond]
    have hdrop : (first ++ (second ++ (rest ++ more))).drop 8 = rest ++ more := by
      rw [← List.append_assoc]
      exact List.drop_left' hboth
    rw [hsplit, List.length_cons, unpackPairs, List.take_left' hlength, List.drop_left' hlength,
      List.take_left' (pack_length hsecond), hdrop, ih hrest, unpack_pack hfirst,
      unpack_pack hsecond]

/-- A header that was written. -/
theorem packHeader_eq_ok {mark : ℤ} {pairs : List (ℤ × ℤ)} {bs : List UInt8}
    (h : packHeader mark pairs = .ok bs) : ∃ start size data, pack mark = .ok start ∧
      packPairs pairs = .ok data ∧ pack (start.length * 2 + data.length : ℕ) = .ok size ∧
      bs = start ++ (size ++ data) := by
  unfold packHeader at h
  obtain ⟨start, hstart, h⟩ := bind_ok h
  obtain ⟨data, hdata, h⟩ := bind_ok h
  obtain ⟨size, hsize, h⟩ := bind_ok h
  injection h with h
  exact ⟨start, size, data, hstart, hdata, hsize, h.symm⟩

end LayerSkip.KeyValueHeader
