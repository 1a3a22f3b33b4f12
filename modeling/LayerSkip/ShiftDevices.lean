import LayerSkip.DataMoving
import LayerSkip.EqualPieces
import LayerSkip.NnCore
import Mathlib.Data.List.ProdSigma

/-!
# The shift into the cache on two devices

The processor copies a row to its position when the position belongs to this sequence rank. The
graphics device has a work group for each chunk of each row, in any order, and no such test.
Bytes of the cache are a row and a place in it; a place of the flat buffer is a row of its own width.
-/

namespace LayerSkip.ShiftDevices

open NnTopology NnPipeline NnCore EqualPieces Dataflow ParallelSteps DataMoving

section Runs

variable {L V : Type*}

/-- A location has a value when every step that writes it puts the value there, and some step writes
it or it had the value before. -/
theorem run_same {actions : List (Dataflow.Action L V)} {l : L} {value : V}
    (hsame : ∀ a ∈ actions, l ∈ a.writes → ∀ m, a.apply m l = value) {m : L → V}
    (h : (∃ a ∈ actions, l ∈ a.writes) ∨ m l = value) : run m actions l = value := by
  induction actions generalizing m with
  | nil =>
    cases h with
    | inl hwritten =>
      obtain ⟨a, ha, _⟩ := hwritten
      cases ha
    | inr hbefore => exact hbefore
  | cons a actions ih =>
    rw [run_cons]
    refine ih (fun b hb => hsame b (List.mem_cons_of_mem a hb)) ?_
    by_cases hfirst : l ∈ a.writes
    · exact .inr (hsame a List.mem_cons_self hfirst m)
    · cases h with
      | inl hwritten =>
        obtain ⟨b, hb, hl⟩ := hwritten
        cases List.mem_cons.mp hb with
        | inl heq => exact absurd (heq ▸ hl) hfirst
        | inr hrest => exact .inl ⟨b, hrest, hl⟩
      | inr hbefore =>
        right
        rw [a.apply_of_notMem m hfirst, hbefore]

end Runs

/-- Floats of a chunk. -/
def chunkSize : ℕ := 4

section Devices

variable (c : ShiftConfig) (length : ℕ) (input : ℕ → ℕ → UInt8)

/-- The shift of the processor: every row that is kept must fit, and the threads run in an order. -/
def cpuShift (nThreads : ℕ) (order : List ℕ) (cache : ℕ × ℕ → UInt8) : Option (ℕ × ℕ → UInt8) :=
  if ∀ b < c.batchSize, c.keeps b → (c.indexes b + 1) * c.x ≤ length then
    some (run cache (order.flatMap (shiftForwardF32F32 c input nThreads)))
  else none

/-- First float that a work group writes. A group is a chunk of a row and the row. -/
def yOffset (group : ℕ × ℕ) : ℕ := (c.indexes group.2 * c.x + group.1 * chunkSize) % uintRange

/-- The float of the flat buffer that a byte belongs to. -/
def flatFloat (l : ℕ × ℕ) : ℕ := l.1 * c.x + l.2 / 4

/-- The stores of a work group. -/
def shiftChunk (group : ℕ × ℕ) : Dataflow.Action (ℕ × ℕ) UInt8 where
  reads := ∅
  writes := {l | l.2 < c.dimBytes ∧ yOffset c group ≤ flatFloat c l ∧
    flatFloat c l < yOffset c group + chunkSize}
  kernel _ l := input group.2
    (4 * (group.1 * chunkSize + (flatFloat c l - yOffset c group)) + l.2 % 4)
  decWrites l := inferInstanceAs (Decidable (l.2 < c.dimBytes ∧ yOffset c group ≤ flatFloat c l ∧
    flatFloat c l < yOffset c group + chunkSize))

/-- The work groups of a batch. -/
def workGroups : List (ℕ × ℕ) :=
  (List.range (c.x / chunkSize)).product (List.range c.batchSize)

/-- The shift of the graphics device. Stores past the end of the buffer are not defined. -/
def vulkanShift (groups : List (ℕ × ℕ)) (cache : ℕ × ℕ → UInt8) : Option (ℕ × ℕ → UInt8) :=
  if ∀ group ∈ groups, yOffset c group + chunkSize ≤ length then
    some (run cache (groups.map (shiftChunk c input)))
  else none

end Devices

/-- Both devices leave the same cache, for all inputs and prior contents, threads in any order and
work groups in any order. -/
def ShiftsAgree (c : ShiftConfig) (length : ℕ) : Prop :=
  ∀ (input : ℕ → ℕ → UInt8) (cache : ℕ × ℕ → UInt8), ∃ m,
    (∀ nThreads order, 0 < nThreads → order.Perm (List.range nThreads) →
      cpuShift c length input nThreads order cache = some m) ∧
    ∀ groups, groups.Perm (workGroups c) → vulkanShift c length input groups cache = some m

/-- Every position of a batch is one of this rank and its row is in the buffer, and no two rows
have the same position. -/
structure BatchFits (c : ShiftConfig) (length : ℕ) : Prop where
  /-- The positions belong to this rank. -/
  kept : ∀ b < c.batchSize, c.keeps b
  /-- The rows are in the buffer. -/
  inside : ∀ b < c.batchSize, (c.indexes b + 1) * c.x ≤ length
  /-- Words count the bytes of a row. -/
  words : ∀ b < c.batchSize, c.dimBytes < uintRange
  /-- The positions are different. -/
  distinct : ∀ b < c.batchSize, ∀ b' < c.batchSize, c.indexes b = c.indexes b' → b = b'

section Groups

variable {c : ShiftConfig} {length : ℕ} {input : ℕ → ℕ → UInt8} {group : ℕ × ℕ} {l : ℕ × ℕ}

theorem mem_workGroups : group ∈ workGroups c ↔
    group.1 < c.x / chunkSize ∧ group.2 < c.batchSize := by
  unfold workGroups
  rw [← List.mem_range, ← List.mem_range]
  exact List.mem_product

theorem vulkanShift_eq {groups : List (ℕ × ℕ)} {cache m : ℕ × ℕ → UInt8}
    (h : vulkanShift c length input groups cache = some m) :
    run cache (groups.map (shiftChunk c input)) = m := by
  unfold vulkanShift at h
  split at h
  · injection h
  · cases h

theorem shiftChunk_inside (hl : l ∈ (shiftChunk c input group).writes) (m : ℕ × ℕ → UInt8) :
    (shiftChunk c input group).apply m l = input group.2
      (4 * (group.1 * chunkSize + (flatFloat c l - yOffset c group)) + l.2 % 4) :=
  Dataflow.Action.apply_of_mem _ m hl

/-- The groups of a row run after all others. -/
def rowLast (c : ShiftConfig) (b : ℕ) : List (ℕ × ℕ) :=
  (workGroups c).filter (fun group => !decide (group.2 = b)) ++
    (workGroups c).filter fun group => decide (group.2 = b)

theorem rowLast_perm (c : ShiftConfig) (b : ℕ) : (rowLast c b).Perm (workGroups c) :=
  (List.perm_append_comm).trans (List.filter_append_perm (fun group : ℕ × ℕ => decide (group.2 = b)) _)

/-- When the groups of a row run last, a location that one of them writes holds the value of that
row, if its bytes are all alike. -/
theorem rowLast_value {b chunk : ℕ} {value : UInt8} (hinput : ∀ p, input b p = value)
    (hgroup : (chunk, b) ∈ workGroups c) (hl : l ∈ (shiftChunk c input (chunk, b)).writes)
    (cache : ℕ × ℕ → UInt8) :
    run cache ((rowLast c b).map (shiftChunk c input)) l = value := by
  unfold rowLast
  rw [List.map_append, run_append]
  refine run_same ?_ (.inl ⟨shiftChunk c input (chunk, b), ?_, hl⟩)
  · intro a ha hwrites m
    obtain ⟨other, hother, heq⟩ := List.mem_map.mp ha
    obtain ⟨_, hrow⟩ := List.mem_filter.mp hother
    rw [← heq] at hwrites ⊢
    rw [shiftChunk_inside hwrites, of_decide_eq_true hrow, hinput]
  · exact List.mem_map_of_mem (List.mem_filter.mpr ⟨hgroup, decide_eq_true (Eq.refl _)⟩)

/-- Every group of a buffer with columns writes the byte at its first float. -/
theorem exists_written (hx : 0 < c.x) (group : ℕ × ℕ) : ((yOffset c group / c.x,
    4 * (yOffset c group % c.x)) : ℕ × ℕ) ∈ (shiftChunk c input group).writes := by
  have hmod := Nat.mod_lt (yOffset c group) hx
  have hflat : flatFloat c (yOffset c group / c.x, 4 * (yOffset c group % c.x)) =
      yOffset c group := by
    unfold flatFloat
    dsimp only
    rw [Nat.mul_div_cancel_left _ (by decide), Nat.div_add_mod']
  refine ⟨?_, ?_, ?_⟩
  · unfold ShiftConfig.dimBytes
    dsimp only
    omega
  · exact Nat.le_of_eq hflat.symm
  · rw [hflat]
    exact Nat.lt_add_of_pos_right (by decide)

end Groups

section Rows

variable {c : ShiftConfig} {length : ℕ} {input : ℕ → ℕ → UInt8} {chunk b : ℕ} {l : ℕ × ℕ}

theorem yOffset_eq (hchunks : c.x % chunkSize = 0) (hchunk : chunk < c.x / chunkSize)
    (hinside : (c.indexes b + 1) * c.x ≤ length) (hlength : length < uintRange) :
    yOffset c (chunk, b) = c.indexes b * c.x + chunk * chunkSize := by
  have hsize : chunkSize = 4 := Eq.refl _
  unfold yOffset
  refine Nat.mod_eq_of_lt ?_
  rw [Nat.add_mul, Nat.one_mul] at hinside
  rw [hsize] at hchunks hchunk ⊢
  dsimp only
  omega

/-- In a buffer that words can count, a work group writes its chunk of the row of its position. -/
theorem mem_shiftChunk (hchunks : c.x % chunkSize = 0) (hchunk : chunk < c.x / chunkSize)
    (hinside : (c.indexes b + 1) * c.x ≤ length) (hlength : length < uintRange) :
    l ∈ (shiftChunk c input (chunk, b)).writes ↔
      l.1 = c.indexes b ∧ l.2 < c.dimBytes ∧ l.2 / 4 / chunkSize = chunk := by
  have hoffset := yOffset_eq hchunks hchunk hinside hlength
  have hsize : chunkSize = 4 := Eq.refl _
  have hbytes : c.dimBytes = 4 * c.x := Eq.refl _
  change (l.2 < c.dimBytes ∧ yOffset c (chunk, b) ≤ flatFloat c l ∧
    flatFloat c l < yOffset c (chunk, b) + chunkSize) ↔ _
  rw [hoffset]
  unfold flatFloat
  rw [hsize] at hchunks hchunk ⊢
  rw [hbytes]
  constructor
  · intro h
    obtain ⟨hplace, hlower, hupper⟩ := h
    have hdistance : l.1 * c.x + l.2 / 4 = c.indexes b * c.x +
        (chunk * 4 + (l.1 * c.x + l.2 / 4 - (c.indexes b * c.x + chunk * 4))) := by omega
    obtain ⟨hrow, hfloat⟩ := index_inj (by omega) (by omega) hdistance
    refine ⟨hrow, hplace, ?_⟩
    omega
  · intro h
    obtain ⟨hrow, hplace, hat⟩ := h
    rw [hrow]
    omega

/-- It stores the bytes of its row there. -/
theorem shiftChunk_value (hchunks : c.x % chunkSize = 0) (hchunk : chunk < c.x / chunkSize)
    (hinside : (c.indexes b + 1) * c.x ≤ length) (hlength : length < uintRange)
    (hl : l ∈ (shiftChunk c input (chunk, b)).writes) (m : ℕ × ℕ → UInt8) :
    (shiftChunk c input (chunk, b)).apply m l = input b l.2 := by
  obtain ⟨hrow, _, hat⟩ := (mem_shiftChunk hchunks hchunk hinside hlength).mp hl
  have hsize : chunkSize = 4 := Eq.refl _
  have hplace : 4 * (chunk * chunkSize + (flatFloat c l - yOffset c (chunk, b))) + l.2 % 4 = l.2 := by
    rw [yOffset_eq hchunks hchunk hinside hlength]
    unfold flatFloat
    rw [hrow]
    rw [hsize] at hat ⊢
    omega
  rw [shiftChunk_inside hl, hplace]

/-- Every place of the row of a position is written by a group. -/
theorem exists_group (input : ℕ → ℕ → UInt8) (hchunks : c.x % chunkSize = 0) (hb : b < c.batchSize)
    (hinside : (c.indexes b + 1) * c.x ≤ length) (hlength : length < uintRange)
    (hrow : l.1 = c.indexes b) (hplace : l.2 < c.dimBytes) :
    ∃ group ∈ workGroups c, l ∈ (shiftChunk c input group).writes := by
  have hsize : chunkSize = 4 := Eq.refl _
  have hbytes : c.dimBytes = 4 * c.x := Eq.refl _
  have hchunk : l.2 / 4 / chunkSize < c.x / chunkSize := by
    rw [hbytes] at hplace
    rw [hsize] at hchunks ⊢
    omega
  exact ⟨(l.2 / 4 / chunkSize, b), mem_workGroups.mpr ⟨hchunk, hb⟩,
    (mem_shiftChunk hchunks hchunk hinside hlength).mpr ⟨hrow, hplace, Eq.refl _⟩⟩

end Rows

section Necessity

variable {c : ShiftConfig} {length : ℕ}

/-- One row of ones among rows of zeros. -/
def oneRow (b : ℕ) : ℕ → ℕ → UInt8 := fun row _ => if row = b then 1 else 0

theorem oneRow_self (b p : ℕ) : oneRow b b p = 1 := if_pos (Eq.refl _)

theorem oneRow_other {b row : ℕ} (h : row ≠ b) (p : ℕ) : oneRow b row p = 0 := if_neg h

theorem first_group (hx : 0 < c.x) (hchunks : c.x % chunkSize = 0) {b : ℕ} (hb : b < c.batchSize) :
    ((0, b) : ℕ × ℕ) ∈ workGroups c := by
  have hsize : chunkSize = 4 := Eq.refl _
  rw [mem_workGroups]
  refine ⟨?_, hb⟩
  rw [hsize] at hchunks ⊢
  dsimp only
  omega

/-- A single thread writes what it writes from the rows that are kept. -/
theorem cpuShift_single {input : ℕ → ℕ → UInt8} {cache m : ℕ × ℕ → UInt8}
    (h : cpuShift c length input 1 [0] cache = some m) :
    run cache (shiftForwardF32F32 c input 1 0) = m ∧
      ∀ b < c.batchSize, c.keeps b → (c.indexes b + 1) * c.x ≤ length := by
  unfold cpuShift at h
  split at h
  · rename_i hfits
    injection h with h
    rw [List.flatMap_singleton] at h
    exact ⟨h, hfits⟩
  · cases h

/-- The processor leaves zeros when all rows that are kept are zeros. -/
theorem cpu_zeros {input : ℕ → ℕ → UInt8} (hzero : ∀ b < c.batchSize, c.keeps b → ∀ p, input b p = 0)
    (l : ℕ × ℕ) : run (fun _ => 0) (shiftForwardF32F32 c input 1 0) l = 0 := by
  refine run_same ?_ (.inr (Eq.refl _))
  intro a ha hl m
  obtain ⟨b, hb, heq⟩ := List.mem_map.mp ha
  obtain ⟨hbatch, hkeeps⟩ := List.mem_filter.mp hb
  rw [← heq, copyInput_single] at hl ⊢
  rw [storeRow_inside m hl]
  exact hzero b (List.mem_range.mp hbatch) (of_decide_eq_true hkeeps) l.2

theorem kept_of_shiftsAgree (hx : 0 < c.x) (hchunks : c.x % chunkSize = 0)
    (h : ShiftsAgree c length) {b : ℕ} (hb : b < c.batchSize) : c.keeps b := by
  by_contra hskipped
  obtain ⟨m, hcpu, hvulkan⟩ := h (oneRow b) fun _ => 0
  obtain ⟨hm, _⟩ := cpuShift_single (hcpu 1 [0] Nat.zero_lt_one (List.Perm.refl _))
  have hone := rowLast_value (oneRow_self b)
    (first_group hx hchunks hb) (exists_written hx (0, b)) fun _ => 0
  have hothers (b' : ℕ) (_ : b' < c.batchSize) (hkeeps : c.keeps b') (p : ℕ) : oneRow b b' p = 0 :=
    oneRow_other (fun heq : b' = b => hskipped (heq ▸ hkeeps)) p
  have hzero := cpu_zeros hothers (yOffset c (0, b) / c.x, 4 * (yOffset c (0, b) % c.x))
  rw [vulkanShift_eq (hvulkan _ (rowLast_perm c b)), ← hm, hzero] at hone
  revert hone
  decide

theorem distinct_of_shiftsAgree (hx : 0 < c.x) (hchunks : c.x % chunkSize = 0)
    (h : ShiftsAgree c length) {b b' : ℕ} (hb : b < c.batchSize) (hb' : b' < c.batchSize)
    (hsame : c.indexes b = c.indexes b') : b = b' := by
  by_contra hne
  obtain ⟨m, _, hvulkan⟩ := h (oneRow b) fun _ => 0
  have hoffset : yOffset c (0, b) = yOffset c (0, b') := by
    unfold yOffset
    rw [hsame]
  have hone := rowLast_value (oneRow_self b)
    (first_group hx hchunks hb) (exists_written hx (0, b)) fun _ => 0
  have hzero := rowLast_value (oneRow_other (Ne.symm hne))
    (first_group hx hchunks hb') (exists_written hx (0, b')) fun _ => 0
  rw [vulkanShift_eq (hvulkan _ (rowLast_perm c b))] at hone
  rw [vulkanShift_eq (hvulkan _ (rowLast_perm c b')), ← hoffset, hone] at hzero
  revert hzero
  decide

theorem inside_of_shiftsAgree (hx : 0 < c.x) (hchunks : c.x % chunkSize = 0)
    (h : ShiftsAgree c length) {b : ℕ} (hb : b < c.batchSize) :
    (c.indexes b + 1) * c.x ≤ length := by
  obtain ⟨m, hcpu, _⟩ := h (fun _ _ => 0) fun _ => 0
  obtain ⟨_, hfits⟩ := cpuShift_single (hcpu 1 [0] Nat.zero_lt_one (List.Perm.refl _))
  exact hfits b hb (kept_of_shiftsAgree hx hchunks h hb)

theorem words_of_shiftsAgree (hx : 0 < c.x) (hchunks : c.x % chunkSize = 0)
    (hlength : length < uintRange) (h : ShiftsAgree c length) {b : ℕ} (hb : b < c.batchSize) :
    c.dimBytes < uintRange := by
  by_contra hlong
  have hinside {b' : ℕ} (hb' : b' < c.batchSize) := inside_of_shiftsAgree hx hchunks h hb'
  obtain ⟨m, hcpu, hvulkan⟩ := h (fun _ _ => 1) fun _ => 0
  obtain ⟨hm, _⟩ := cpuShift_single (hcpu 1 [0] Nat.zero_lt_one (List.Perm.refl _))
  have hmod : c.dimBytes % uintRange < c.dimBytes :=
    Nat.lt_of_lt_of_le (Nat.mod_lt _ (by decide)) (Nat.le_of_not_lt hlong)
  have hone : run (fun _ => 0) ((workGroups c).map (shiftChunk c fun _ _ => 1))
      (c.indexes b, c.dimBytes % uintRange) = 1 := by
    obtain ⟨group, hgroup, hwritten⟩ := exists_group (fun _ _ => 1) hchunks hb (hinside hb)
      hlength (l := (c.indexes b, c.dimBytes % uintRange)) (Eq.refl _) hmod
    refine run_same ?_ (.inl ⟨_, List.mem_map_of_mem hgroup, hwritten⟩)
    intro a ha hwrites m'
    obtain ⟨other, _, heq⟩ := List.mem_map.mp ha
    rw [← heq] at hwrites ⊢
    rw [shiftChunk_inside hwrites]
  have hzero : run (fun _ => 0) (shiftForwardF32F32 c (fun _ _ => 1) 1 0)
      (c.indexes b, c.dimBytes % uintRange) = 0 := by
    refine run_of_notMem fun hwritten => ?_
    obtain ⟨_, _, _, _, hplace⟩ := (mem_written_shift c _).mp hwritten
    exact absurd hplace (Nat.lt_irrefl _)
  rw [vulkanShift_eq (hvulkan _ (List.Perm.refl _)), ← hm, hzero] at hone
  revert hone
  decide

theorem batchFits_of_shiftsAgree (hx : 0 < c.x) (hchunks : c.x % chunkSize = 0)
    (hlength : length < uintRange) (h : ShiftsAgree c length) : BatchFits c length := by
  constructor
  · intro b hb
    exact kept_of_shiftsAgree hx hchunks h hb
  · intro b hb
    exact inside_of_shiftsAgree hx hchunks h hb
  · intro b hb
    exact words_of_shiftsAgree hx hchunks hlength h hb
  · intro b hb b' hb' hsame
    exact distinct_of_shiftsAgree hx hchunks h hb hb' hsame

end Necessity

section Sufficiency

variable {c : ShiftConfig} {length : ℕ}

/-- Work groups in any order leave what a single thread leaves. -/
theorem run_groups (hchunks : c.x % chunkSize = 0) (hlength : length < uintRange)
    (h : BatchFits c length) (input : ℕ → ℕ → UInt8) (cache : ℕ × ℕ → UInt8)
    {groups : List (ℕ × ℕ)} (hperm : groups.Perm (workGroups c)) :
    run cache (groups.map (shiftChunk c input)) = run cache (shiftForwardF32F32 c input 1 0) := by
  have hgroup {group : ℕ × ℕ} (hmem : group ∈ groups) :
      group.1 < c.x / chunkSize ∧ group.2 < c.batchSize := mem_workGroups.mp (hperm.mem_iff.mp hmem)
  funext l
  by_cases hrow : ∃ b < c.batchSize, l.1 = c.indexes b ∧ l.2 < c.dimBytes
  · obtain ⟨b, hb, hat, hplace⟩ := hrow
    have hwords := h.words b hb
    have hdevice : run cache (groups.map (shiftChunk c input)) l = input b l.2 := by
      obtain ⟨group, hmem, hwritten⟩ := exists_group input hchunks hb (h.inside b hb)
        hlength hat hplace
      refine run_same ?_ (.inl ⟨_, List.mem_map_of_mem (hperm.mem_iff.mpr hmem), hwritten⟩)
      intro a ha hwrites m
      obtain ⟨other, hother, heq⟩ := List.mem_map.mp ha
      obtain ⟨hchunk, hb'⟩ := hgroup hother
      rw [← heq] at hwrites ⊢
      obtain ⟨hsame, _, _⟩ := (mem_shiftChunk hchunks hchunk (h.inside _ hb') hlength).mp hwrites
      have hb'' : b = other.2 := h.distinct b hb _ hb' (hat.symm.trans hsame)
      rw [shiftChunk_value hchunks hchunk (h.inside _ hb') hlength hwrites, hb'']
    have hprocessor : run cache (shiftForwardF32F32 c input 1 0) l = input b l.2 := by
      have hwritten : l ∈ written (accesses (shiftForwardF32F32 c input 1 0)) := by
        refine (mem_written_shift c input).mpr ⟨b, hb, h.kept b hb, hat, ?_⟩
        rw [Nat.mod_eq_of_lt hwords]
        exact hplace
      obtain ⟨access, haccess, hl⟩ := hwritten
      obtain ⟨action, haction, haccess⟩ := List.mem_map.mp haccess
      refine run_same ?_ (.inl ⟨action, haction, haccess ▸ hl⟩)
      intro a ha hwrites m
      obtain ⟨b', hmem, heq⟩ := List.mem_map.mp ha
      have hb' := List.mem_range.mp (List.mem_filter.mp hmem).1
      rw [← heq, copyInput_single] at hwrites ⊢
      have hb'' : b = b' := h.distinct b hb b' hb' (hat.symm.trans hwrites.1)
      rw [storeRow_inside m hwrites, hb'']
    rw [hdevice, hprocessor]
  · have hdevice : l ∉ written (accesses (groups.map (shiftChunk c input))) := by
      intro hwritten
      obtain ⟨access, haccess, hl⟩ := hwritten
      obtain ⟨action, haction, haccess⟩ := List.mem_map.mp haccess
      obtain ⟨group, hmem, heq⟩ := List.mem_map.mp haction
      obtain ⟨hchunk, hb⟩ := hgroup hmem
      rw [← haccess, ← heq] at hl
      obtain ⟨hat, hplace, _⟩ := (mem_shiftChunk hchunks hchunk (h.inside _ hb) hlength).mp hl
      exact hrow ⟨group.2, hb, hat, hplace⟩
    have hprocessor : l ∉ written (accesses (shiftForwardF32F32 c input 1 0)) := by
      intro hwritten
      obtain ⟨b, hb, _, hat, hplace⟩ := (mem_written_shift c input).mp hwritten
      exact hrow ⟨b, hb, hat, Nat.lt_of_lt_of_le hplace (Nat.mod_le _ _)⟩
    rw [run_of_notMem hdevice, run_of_notMem hprocessor]

theorem shiftsAgree_of_batchFits (hchunks : c.x % chunkSize = 0) (hlength : length < uintRange)
    (h : BatchFits c length) : ShiftsAgree c length := by
  intro input cache
  refine ⟨run cache (shiftForwardF32F32 c input 1 0), ?_, ?_⟩
  · intro nThreads order hpos hperm
    have hindependent := (shiftForwardF32F32_independent_iff c input hpos).mpr
      fun hkept => h.words hkept.choose hkept.choose_spec.1
    unfold cpuShift
    rw [if_pos fun b hb _ => h.inside b hb, hindependent.sameOutput order hperm]
  · intro groups hperm
    have hinside : ∀ group ∈ groups, yOffset c group + chunkSize ≤ length := by
      intro group hmem
      obtain ⟨hchunk, hb⟩ := mem_workGroups.mp (hperm.mem_iff.mp hmem)
      have hrow := h.inside _ hb
      have hoffset : yOffset c (group.1, group.2) = _ := yOffset_eq hchunks hchunk hrow hlength
      have hsize : chunkSize = 4 := Eq.refl _
      rw [Nat.add_mul, Nat.one_mul] at hrow
      rw [hsize] at hchunks hchunk hoffset ⊢
      change yOffset c (group.1, group.2) + 4 ≤ length
      omega
    unfold vulkanShift
    rw [if_pos hinside, run_groups hchunks hlength h input cache hperm]

/-- A row without columns is nothing to shift. -/
theorem shiftsAgree_of_empty (hx : c.x = 0) : ShiftsAgree c length := by
  intro input cache
  refine ⟨run cache (shiftForwardF32F32 c input 1 0), ?_, ?_⟩
  · intro nThreads order hpos hperm
    have hbytes : c.dimBytes < uintRange := by
      unfold ShiftConfig.dimBytes
      rw [hx]
      decide
    have hindependent := (shiftForwardF32F32_independent_iff c input hpos).mpr fun _ => hbytes
    have hfits : ∀ b < c.batchSize, c.keeps b → (c.indexes b + 1) * c.x ≤ length := by
      intro b _ _
      rw [hx, Nat.mul_zero]
      exact Nat.zero_le _
    unfold cpuShift
    rw [if_pos hfits, hindependent.sameOutput order hperm]
  · intro groups hperm
    have hnone : workGroups c = [] := by
      unfold workGroups
      rw [hx]
      exact Eq.refl _
    rw [hnone] at hperm
    have hempty := hperm.eq_nil
    unfold vulkanShift
    rw [if_pos (by rw [hempty]; simp), hempty]
    refine congrArg some ?_
    funext l
    refine (run_of_notMem fun hwritten => ?_).symm
    obtain ⟨_, _, _, _, hplace⟩ := (mem_written_shift c input).mp hwritten
    have hbytes : c.dimBytes = 0 := by
      unfold ShiftConfig.dimBytes
      rw [hx]
    rw [hbytes] at hplace
    exact absurd hplace (Nat.not_lt_zero _)

end Sufficiency

section Graph

/-- The shift that the graph has on a node, for the keys and for the values. -/
def blockShift (kv : NnKvCacheSlice) (batchSize : ℕ) (positions : ℕ → ℕ) : ShiftConfig where
  x := kv.kvDim0
  batchSize := batchSize
  indexes := positions
  localSeqStart := kv.localSeqStart
  localSeqLen := kv.localSeqLen

/-- The caches of a node have as many values as a word tells. -/
theorem keySize_length_lt {kvDim seqLen tpSize spSize spRank : ℕ} {kv : NnKvCacheSlice}
    (h : sliceKvCache kvDim seqLen tpSize spSize spRank = .ok kv) :
    kv.keySize.length < uintRange := by
  obtain ⟨_, _, h⟩ := bind_eq_ok h
  obtain ⟨_, _, h⟩ := bind_eq_ok h
  obtain ⟨_, _, h⟩ := bind_eq_ok h
  injection h with h
  rw [← h]
  have hpositive : 0 < 2 ^ 32 := Nat.two_pow_pos 32
  exact Nat.mod_lt _ hpositive

/-- The devices agree exactly on batches whose positions all belong to the rank, are different, and
have their rows in the buffer. -/
theorem shiftsAgree_iff {kvDim seqLen tpSize spSize spRank : ℕ} {kv : NnKvCacheSlice}
    (hkv : sliceKvCache kvDim seqLen tpSize spSize spRank = .ok kv)
    (hchunks : kv.kvDim0 % chunkSize = 0) (batchSize : ℕ) (positions : ℕ → ℕ) :
    ShiftsAgree (blockShift kv batchSize positions) kv.keySize.length ↔
      kv.kvDim0 = 0 ∨ BatchFits (blockShift kv batchSize positions) kv.keySize.length := by
  have hlength := keySize_length_lt hkv
  constructor
  · intro h
    rcases Nat.eq_zero_or_pos kv.kvDim0 with hzero | hpos
    · exact .inl hzero
    · exact .inr (batchFits_of_shiftsAgree hpos hchunks hlength h)
  · intro h
    cases h with
    | inl hzero => exact shiftsAgree_of_empty hzero
    | inr hfits => exact shiftsAgree_of_batchFits hchunks hlength hfits

/-- Positions five and six on the second of two sequence ranks of four positions each. -/
theorem shiftsAgree_two : ∃ kv, sliceKvCache 8 8 1 2 1 = .ok kv ∧ kv.kvDim0 % chunkSize = 0 ∧
    ShiftsAgree (blockShift kv 2 (5 + ·)) kv.keySize.length := by
  have hkv : sliceKvCache 8 8 1 2 1 = .ok ⟨8, 4, 4, size2D .f32 8 8, size2D .f32 8 8⟩ := by decide
  refine ⟨_, hkv, by decide, (shiftsAgree_iff hkv (by decide) 2 (5 + ·)).mpr (.inr ?_)⟩
  constructor
  · decide
  · decide
  · decide
  · intro b _ b' _ hsame
    exact Nat.add_left_cancel hsame

/-- On the second of two sequence ranks the processor skips position zero and the graphics device
writes it. -/
theorem not_shiftsAgree_zero : ∃ kv, sliceKvCache 8 8 1 2 1 = .ok kv ∧ kv.kvDim0 % chunkSize = 0 ∧
    ¬ShiftsAgree (blockShift kv 1 fun _ => 0) kv.keySize.length := by
  have hkv : sliceKvCache 8 8 1 2 1 = .ok ⟨8, 4, 4, size2D .f32 8 8, size2D .f32 8 8⟩ := by decide
  refine ⟨_, hkv, by decide, fun h => ?_⟩
  have hkept := kept_of_shiftsAgree (by decide) (by decide) h (by decide : 0 < 1)
  revert hkept
  decide

end Graph

end LayerSkip.ShiftDevices
