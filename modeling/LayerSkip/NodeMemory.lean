import Mathlib.Data.List.Basic
import Mathlib.Data.Nat.Notation
import Mathlib.Tactic.Common

/-!
# Float memory of a node

A node's memory is addressed in float cells. Buffers are regions of it, read
and written as lists of cells. Writing a region changes nothing outside it.
-/

namespace LayerSkip.NodeMemory

variable {α : Type*}

/-- Bytes of one float cell. -/
def sizeofFloat : ℕ := 4

/-- The `len` cells that start at address `at0`. -/
def readCells (mem : ℕ → α) (at0 len : ℕ) : List α :=
  (List.range len).map fun i => mem (at0 + i)

/-- Store the cells from address `at0` on. -/
def writeCells (mem : ℕ → α) (at0 : ℕ) (xs : List α) : ℕ → α := fun a =>
  if at0 ≤ a then (xs[a - at0]?).getD (mem a) else mem a

@[simp] theorem readCells_length (mem : ℕ → α) (at0 len : ℕ) :
    (readCells mem at0 len).length = len := by
  simp [readCells]

theorem readCells_getElem? (mem : ℕ → α) {at0 len i : ℕ} (h : i < len) :
    (readCells mem at0 len)[i]? = some (mem (at0 + i)) := by
  simp [readCells, h]

/-- Two reads agree when the memories agree on the region. -/
theorem readCells_congr {mem mem' : ℕ → α} {at0 len : ℕ}
    (h : ∀ i < len, mem (at0 + i) = mem' (at0 + i)) :
    readCells mem at0 len = readCells mem' at0 len :=
  List.map_congr_left fun i hi => h i (List.mem_range.mp hi)

theorem writeCells_inside (mem : ℕ → α) {at0 i : ℕ} {xs : List α} {x : α}
    (h : xs[i]? = some x) : writeCells mem at0 xs (at0 + i) = x := by
  simp [writeCells, h]

theorem writeCells_outside (mem : ℕ → α) {at0 a : ℕ} {xs : List α}
    (h : a < at0 ∨ at0 + xs.length ≤ a) : writeCells mem at0 xs a = mem a := by
  unfold writeCells
  split
  · rw [List.getElem?_eq_none (by omega), Option.getD_none]
  · rfl

/-- A region just written reads back as what was written. -/
theorem readCells_writeCells (mem : ℕ → α) (at0 : ℕ) (xs : List α) :
    readCells (writeCells mem at0 xs) at0 xs.length = xs := by
  apply List.ext_getElem?
  intro i
  rcases Nat.lt_or_ge i xs.length with hi | hi
  · rw [readCells_getElem? _ hi, List.getElem?_eq_getElem hi,
      writeCells_inside mem (List.getElem?_eq_getElem hi)]
  · rw [List.getElem?_eq_none (by simpa using hi), List.getElem?_eq_none hi]

/-- Writing back what a region holds changes nothing. -/
theorem writeCells_readCells (mem : ℕ → α) (at0 len : ℕ) :
    writeCells mem at0 (readCells mem at0 len) = mem := by
  funext a
  by_cases h : at0 ≤ a ∧ a < at0 + len
  · obtain ⟨i, rfl⟩ := Nat.exists_eq_add_of_le h.1
    rw [writeCells_inside mem (readCells_getElem? mem (by omega))]
  · rw [writeCells_outside mem (by rw [readCells_length]; omega)]

/-- The second of two writes of one region decides. -/
theorem writeCells_writeCells (mem : ℕ → α) (at0 : ℕ) {xs ys : List α}
    (h : ys.length = xs.length) : writeCells (writeCells mem at0 xs) at0 ys = writeCells mem at0 ys := by
  funext a
  by_cases ha : at0 ≤ a ∧ a < at0 + ys.length
  · obtain ⟨i, rfl⟩ := Nat.exists_eq_add_of_le ha.1
    have hi : ys[i]? = some ys[i] := List.getElem?_eq_getElem (by omega)
    rw [writeCells_inside _ hi, writeCells_inside _ hi]
  · rw [writeCells_outside _ (by omega), writeCells_outside _ (by omega),
      writeCells_outside _ (by omega)]

/-- Outside the buffer a memory is what it was at the start. -/
def SameOutside (buffer len : ℕ) (before now : ℕ → α) : Prop :=
  ∀ a, a < buffer ∨ buffer + len ≤ a → now a = before a

theorem SameOutside.write {buffer len : ℕ} {before now : ℕ → α} {xs : List α}
    (h : SameOutside buffer len before now) (hx : xs.length = len) :
    SameOutside buffer len before (writeCells now buffer xs) := by
  intro a ha
  rw [writeCells_outside now (by rw [hx]; exact ha), h a ha]

section Reduce

variable [Add α]

/-- Floats handled per pass of the reduction. -/
def chunkSize : ℕ := 256

/-- Floats of the pass that starts after `processed` of them. -/
def currentChunk (nElements processed : ℕ) : ℕ :=
  if nElements - processed < chunkSize then nElements - processed else chunkSize

theorem currentChunk_pos {nElements processed : ℕ} (h : processed < nElements) :
    0 < currentChunk nElements processed := by
  unfold currentChunk
  split
  · omega
  · exact Nat.zero_lt_succ 255

theorem currentChunk_le (nElements processed : ℕ) :
    currentChunk nElements processed ≤ nElements - processed := by
  unfold currentChunk
  split <;> omega

/-- The while loop of `reduceSum`: copy at most `chunkSize` floats of both
arrays to stack buffers, add them there, and copy the sums back. -/
def reduceSumLoop (input : List α) (nElements processed : ℕ) (result : List α) : List α :=
  if _h : processed < nElements then
    let chunk := currentChunk nElements processed
    let inputBuf := (input.drop processed).take chunk
    let resultBuf := (result.drop processed).take chunk
    let sums := List.zipWith (· + ·) resultBuf inputBuf
    reduceSumLoop input nElements (processed + chunk)
      (result.take processed ++ sums ++ result.drop (processed + chunk))
  else result
termination_by nElements - processed
decreasing_by
  have hpos := currentChunk_pos _h
  omega

/-- `reduceSum` on float arrays: the input is added to the result in place.
A float array has no bytes left over after its last float. -/
def reduceSum (result input : List α) (nBytes : ℕ) : List α :=
  reduceSumLoop input (nBytes / sizeofFloat) 0 result

/-- From any point of the loop on, what is already summed stays and every
later float of the result gets the input's float added. -/
theorem reduceSumLoop_eq (input : List α) (nElements processed : ℕ) (result : List α)
    (hi : input.length = nElements) (hr : result.length = nElements) (hp : processed ≤ nElements) :
    reduceSumLoop input nElements processed result =
      result.take processed ++
        List.zipWith (· + ·) (result.drop processed) (input.drop processed) := by
  induction hk : nElements - processed using Nat.strongRecOn generalizing processed result
  rename_i k ih
  unfold reduceSumLoop
  split
  · rename_i hlt
    simp only
    have hc0 := currentChunk_pos hlt
    have hcle := currentChunk_le nElements processed
    generalize currentChunk nElements processed = c at hc0 hcle ⊢
    have hsums : (List.zipWith (· + ·) ((result.drop processed).take c)
        ((input.drop processed).take c)).length = c := by simp; omega
    have htake : (result.take processed).length = processed := by simp; omega
    rw [ih (nElements - (processed + c)) (by omega) (processed + c) _ (by simp; omega) (by omega) rfl]
    -- the loop's new result splits at `processed + c` into sums done and floats to come
    have hpre : ((result.take processed ++ List.zipWith (· + ·) ((result.drop processed).take c)
        ((input.drop processed).take c)) ++ result.drop (processed + c)).take (processed + c) =
        result.take processed ++ List.zipWith (· + ·) ((result.drop processed).take c)
          ((input.drop processed).take c) :=
      List.take_left' (by simp only [List.length_append, hsums, htake])
    have hpost : ((result.take processed ++ List.zipWith (· + ·) ((result.drop processed).take c)
        ((input.drop processed).take c)) ++ result.drop (processed + c)).drop (processed + c) =
        result.drop (processed + c) :=
      List.drop_left' (by simp only [List.length_append, hsums, htake])
    rw [hpre, hpost, List.append_assoc]
    congr 1
    conv_rhs => rw [← List.take_append_drop c (result.drop processed),
      ← List.take_append_drop c (input.drop processed)]
    rw [List.zipWith_append (by simp; omega), List.drop_drop, List.drop_drop]
  · have he : processed = nElements := by omega
    rw [he, ← hr, List.take_length, List.drop_length, List.zipWith_nil_left, List.append_nil]

/-- The chunked reduction is the element-wise sum. -/
theorem reduceSum_eq {result input : List α} {nBytes : ℕ}
    (hi : input.length = nBytes / sizeofFloat) (hr : result.length = nBytes / sizeofFloat) :
    reduceSum result input nBytes = List.zipWith (· + ·) result input := by
  rw [reduceSum, reduceSumLoop_eq input _ 0 result hi hr (Nat.zero_le _)]
  simp

end Reduce

end LayerSkip.NodeMemory
