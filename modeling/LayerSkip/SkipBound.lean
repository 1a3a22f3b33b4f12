import LayerSkip.WorkerRun

/-!
# Skips in a row are bounded

Over any run of a worker the two streak counters stay within their limits and
are never both positive. The accept counter never falls behind the number of
decode tokens just accepted in a row, so these are bounded by the same limit
and a full pass is forced within every longer window.
-/

namespace LayerSkip.SkipBound

open NnTopology NnPipeline WorkerLlmInference WorkerState WorkerRun

/-- Starting with `streak` accepted tokens in a row, no run of accepted tokens
gets longer than the limit. -/
def StreakBounded (limit : ℕ) : ℕ → List Bool → Prop
  | _, [] => True
  | _, false :: rest => StreakBounded limit 0 rest
  | streak, true :: rest => streak + 1 ≤ limit ∧ StreakBounded limit (streak + 1) rest

theorem StreakBounded.prefix_length {limit : ℕ} {flags run : List Bool} {streak : ℕ}
    (h : StreakBounded limit streak flags) (hs : streak ≤ limit) (hp : run <+: flags)
    (hrun : ∀ a ∈ run, a = true) : streak + run.length ≤ limit := by
  induction flags generalizing run streak with
  | nil => simpa [List.prefix_nil.mp hp] using hs
  | cons flag flags ih =>
    cases run with
    | nil => simpa using hs
    | cons a run =>
      have ha : a = true := hrun a List.mem_cons_self
      obtain ⟨hflag, hrest⟩ := List.cons_prefix_cons.mp hp
      rw [← hflag, ha] at h
      have hih := ih h.2 h.1 hrest fun b hb => hrun b (List.mem_cons_of_mem _ hb)
      rw [List.length_cons]
      omega

/-- Any accepted tokens in a row are within the limit. -/
theorem StreakBounded.infix_length {limit : ℕ} {flags run : List Bool} {streak : ℕ}
    (h : StreakBounded limit streak flags) (hs : streak ≤ limit) (hi : run <:+: flags)
    (hrun : ∀ a ∈ run, a = true) : run.length ≤ limit := by
  induction flags generalizing streak with
  | nil => simp [List.infix_nil.mp hi]
  | cons flag flags ih =>
    rcases List.infix_cons_iff.mp hi with hp | hlater
    · have hpre := h.prefix_length hs hp hrun
      omega
    · cases flag with
      | false => exact ih h (Nat.zero_le limit) hlater
      | true => exact ih h.2 h.1 hlater

variable {F E : Type}

/-- The decision stage accepted this token. -/
def accepted (s : WorkerState F E) : Bool := s.lastSkipDecision = some true

/-- What holds of the skip state after any number of packets. -/
structure SkipInv (maxConsecutive maxRejectStreak : NnUint) (s : WorkerState F E) : Prop where
  /-- Accepts in a row are within their limit. -/
  accepts_le : s.skipConsecutiveAccepts ≤ maxConsecutive
  /-- Rejections in a row are within their limit. -/
  rejects_le : s.skipRejectStreak ≤ maxRejectStreak
  /-- One of the streaks is over. -/
  exclusive : s.skipConsecutiveAccepts = 0 ∨ s.skipRejectStreak = 0
  /-- Without links nothing is decided. -/
  undecided : s.pipeline = none → s.lastSkipDecision = none

/-- The accept counter covers the tokens just accepted in a row, unless the
phase has changed and the next token is not decided at all. -/
def Covers (maxConsecutive : NnUint) (s : WorkerState F E) (streak : ℕ) : Prop :=
  streak ≤ s.skipConsecutiveAccepts.toNat ∨
    (s.prevXPipeRow = none ∧ streak ≤ maxConsecutive.toNat)

/-- What one packet does to the skip state, seen from the state `r` in which
its phase has been entered. -/
structure PacketEffect (r s' : WorkerState F E) : Prop where
  /-- The packet stays. -/
  packet : s'.controlPacket = r.controlPacket
  /-- A remembered activation was there before or is of a decode token. -/
  prev : s'.prevXPipeRow ≠ none → r.prevXPipeRow ≠ none ∨ s'.decodeSingle = true
  /-- The counters follow the decision. -/
  counters :
    (s'.lastSkipDecision ≠ some true ∧ s'.skipConsecutiveAccepts = r.skipConsecutiveAccepts ∧
      s'.skipRejectStreak = r.skipRejectStreak) ∨
    (s'.decodeSingle = true ∧ r.prevXPipeRow ≠ none ∧
      r.skipConsecutiveAccepts < r.controlPacket.stageSkipMaxConsecutive ∧
      s'.skipConsecutiveAccepts = r.skipConsecutiveAccepts + 1 ∧ s'.skipRejectStreak = 0) ∨
    (s'.decodeSingle = true ∧ s'.lastSkipDecision ≠ some true ∧ s'.skipConsecutiveAccepts = 0 ∧
      s'.skipRejectStreak = 0) ∨
    (s'.decodeSingle = true ∧ s'.lastSkipDecision ≠ some true ∧ s'.skipConsecutiveAccepts = 0 ∧
      r.skipRejectStreak < r.controlPacket.stageSkipMaxRejectStreak ∧
      s'.skipRejectStreak = r.skipRejectStreak + 1)
  /-- Without links nothing is decided. -/
  undecided : s'.pipeline = none → s'.lastSkipDecision = none

/-- What `beforeForward` leaves of the skip state. -/
structure RecvEffect (r s : WorkerState F E) : Prop where
  packet : s.controlPacket = r.controlPacket
  accepts : s.skipConsecutiveAccepts = r.skipConsecutiveAccepts
  rejects : s.skipRejectStreak = r.skipRejectStreak
  decision : s.lastSkipDecision = r.lastSkipDecision
  single : s.decodeSingle = r.decodeSingle
  pipeline : s.pipeline = none → r.pipeline = none
  /-- A change is known only against a remembered activation. -/
  norm : s.lastDeltaNorm ≠ none → r.prevXPipeRow ≠ none
  /-- An activation is remembered at a decode token only. -/
  prev : s.prevXPipeRow ≠ none → r.prevXPipeRow ≠ none ∨ s.decodeSingle = true

theorem beforeForward_effect [Add F]
    {w : WorkerConfig F E} {r s : WorkerState F E} {inbox inbox' : Inbox}
    (h : (beforeForward w r inbox).2 = .ok (s, inbox')) : RecvEffect r s := by
  rcases beforeForward_cases h with rfl | ⟨socket, frame, s₁, hrecv, hafter⟩
  · exact ⟨rfl, rfl, rfl, rfl, rfl, id, fun hn => absurd rfl hn, Or.inl⟩
  · obtain ⟨c, x, hc, -, rfl⟩ := recvActivation_cases hrecv
    have hpipe : r.pipeline = some c := hc
    rcases afterRecv_cases hafter with rfl | ⟨hsingle, rfl⟩ | rfl
    · exact ⟨rfl, rfl, rfl, rfl, rfl, nofun, fun hn => absurd rfl hn, Or.inl⟩
    · refine ⟨rfl, rfl, rfl, rfl, rfl, nofun, fun hn => ?_, fun _ => .inr hsingle⟩
      intro hnone
      apply hn
      change r.prevXPipeRow.bind _ = none
      rw [hnone]
      rfl
    · exact ⟨rfl, rfl, rfl, rfl, rfl, nofun, fun hn => absurd rfl hn, Or.inl⟩

/-- The decision of one packet, from the state in which its phase was entered. -/
theorem afterForward_effect [Sub F] [LE F] [DecidableLE F] [LT F] [DecidableLT F]
    {w : WorkerConfig F E} {r s s' : WorkerState F E}
    {frames : List (ℕ × Frame)} (hr : RecvEffect r s)
    (hund : r.pipeline = none → r.lastSkipDecision = none)
    (h : (s.forward w).afterForward w = .ok (s', frames)) : PacketEffect r s' := by
  obtain ⟨engine, hforward⟩ := forward_cases (w := w) (s := s)
  rw [hforward] at h
  rcases afterForward_cases h with ⟨hnone, hs⟩ | ⟨c, hs⟩
  · have hlast : s'.lastSkipDecision = none := by
      rw [show s' = _ from hs]
      exact hr.decision.trans (hund (hr.pipeline hnone))
    have hs' : s' = { s with engine } := hs
    subst hs'
    refine ⟨hr.packet, hr.prev, .inl ⟨?_, hr.accepts, hr.rejects⟩, fun _ => hlast⟩
    rw [hlast]
    exact nofun
  · rcases evaluateStageSkipDecision_cases (w := w) (s := { s with engine }) with
      he | ⟨hsingle, hnorm, hroom, he⟩ | ⟨hsingle, he⟩ | ⟨hsingle, hroom, he⟩
    · have hs' : s' = _ := hs
      rw [he] at hs'
      subst hs'
      exact ⟨hr.packet, hr.prev, .inl ⟨nofun, hr.accepts, hr.rejects⟩, fun _ => rfl⟩
    · have hs' : s' = _ := hs
      rw [he] at hs'
      subst hs'
      refine ⟨hr.packet, hr.prev,
        .inr (.inl ⟨hsingle, hr.norm hnorm, ?_, congrArg (· + 1) hr.accepts, rfl⟩), nofun⟩
      rw [← hr.accepts, ← hr.packet]
      exact hroom
    · have hs' : s' = _ := hs
      rw [he] at hs'
      subst hs'
      exact ⟨hr.packet, hr.prev, .inr (.inr (.inl ⟨hsingle, nofun, rfl, rfl⟩)), nofun⟩
    · have hs' : s' = _ := hs
      rw [he] at hs'
      subst hs'
      refine ⟨hr.packet, hr.prev,
        .inr (.inr (.inr ⟨hsingle, nofun, rfl, ?_, congrArg (· + 1) hr.rejects⟩)), nofun⟩
      rw [← hr.rejects, ← hr.packet]
      exact hroom

/-- The effect of a packet that is handled to its end: its phase is entered,
which keeps the skip state or resets it, and then it is decided. -/
theorem handlePacket_effect [Add F] [Sub F] [LE F] [DecidableLE F] [LT F] [DecidableLT F]
    {w : WorkerConfig F E} {s s' : WorkerState F E} {inbox inbox' : Inbox}
    {p : LlmControlPacket F} (hund : s.pipeline = none → s.lastSkipDecision = none)
    (h : (handlePacket w s inbox p).2 = .ok (s', inbox')) :
    ∃ r, PacketEffect r s' ∧ r.controlPacket = p ∧
      ((r.skipConsecutiveAccepts = s.skipConsecutiveAccepts ∧
          r.skipRejectStreak = s.skipRejectStreak ∧ r.prevXPipeRow = s.prevXPipeRow) ∨
        (r.skipConsecutiveAccepts = 0 ∧ r.skipRejectStreak = 0 ∧ r.prevXPipeRow = none)) := by
  obtain ⟨r, t, frames, hread, hfin, hbefore, hafter⟩ := handlePacket_cases h
  rcases tryReadControlPacket_cases hread with ⟨-, hstop⟩ | ⟨engine, batchSize, dtype, hr⟩
  · rw [hstop] at hfin
    cases hfin
  · have heffect := beforeForward_effect hbefore
    rcases enterPhase_cases (s := { s with controlPacket := p }) p.phase with ⟨-, he⟩ | he
    · rw [he] at hr
      subst hr
      refine ⟨_, afterForward_effect heffect ?_ hafter, rfl, .inl ⟨rfl, rfl, rfl⟩⟩
      exact fun hn => hund (Option.map_eq_none_iff.mp hn)
    · rw [he] at hr
      subst hr
      refine ⟨_, afterForward_effect heffect ?_ hafter, rfl, .inr ⟨rfl, rfl, rfl⟩⟩
      exact fun hn => hund (Option.map_eq_none_iff.mp hn)

/-- Counting one more on a word below another stays exact. -/
theorem toNat_add_one_of_lt {a b : NnUint} (h : a < b) : (a + 1).toNat = a.toNat + 1 := by
  have hlt : a.toNat < b.toNat := h
  have hb := b.toNat_lt
  rw [UInt32.toNat_add]
  simp only [UInt32.toNat_one]
  omega

/-- One packet keeps the limits. -/
theorem SkipInv.step {maxConsecutive maxRejectStreak : NnUint} {r s s' : WorkerState F E}
    (hi : SkipInv maxConsecutive maxRejectStreak s) (he : PacketEffect r s')
    (hc : r.controlPacket.stageSkipMaxConsecutive = maxConsecutive)
    (hm : r.controlPacket.stageSkipMaxRejectStreak = maxRejectStreak)
    (hr : (r.skipConsecutiveAccepts = s.skipConsecutiveAccepts ∧
          r.skipRejectStreak = s.skipRejectStreak ∧ r.prevXPipeRow = s.prevXPipeRow) ∨
        (r.skipConsecutiveAccepts = 0 ∧ r.skipRejectStreak = 0 ∧ r.prevXPipeRow = none)) :
    SkipInv maxConsecutive maxRejectStreak s' := by
  have hzero (b : NnUint) : (0 : NnUint) ≤ b := Nat.zero_le b.toNat
  have hracc : r.skipConsecutiveAccepts ≤ maxConsecutive := by
    rcases hr with ⟨ha, -, -⟩ | ⟨ha, -, -⟩
    · exact ha ▸ hi.accepts_le
    · exact ha ▸ hzero _
  have hrrej : r.skipRejectStreak ≤ maxRejectStreak := by
    rcases hr with ⟨-, hb, -⟩ | ⟨-, hb, -⟩
    · exact hb ▸ hi.rejects_le
    · exact hb ▸ hzero _
  have hrex : r.skipConsecutiveAccepts = 0 ∨ r.skipRejectStreak = 0 := by
    rcases hr with ⟨ha, hb, -⟩ | ⟨ha, -, -⟩
    · rw [ha, hb]
      exact hi.exclusive
    · exact .inl ha
  rcases he.counters with ⟨-, ha, hb⟩ | ⟨-, -, hlt, ha, hb⟩ | ⟨-, -, ha, hb⟩ |
    ⟨-, -, ha, hlt, hb⟩
  · exact ⟨ha ▸ hracc, hb ▸ hrrej, by rw [ha, hb]; exact hrex, he.undecided⟩
  · rw [hc] at hlt
    refine ⟨?_, hb ▸ hzero _, .inr hb, he.undecided⟩
    have hone := toNat_add_one_of_lt hlt
    rw [ha, UInt32.le_iff_toNat_le, hone]
    exact hlt
  · exact ⟨ha ▸ hzero _, hb ▸ hzero _, .inl ha, he.undecided⟩
  · rw [hm] at hlt
    refine ⟨ha ▸ hzero _, ?_, .inl ha, he.undecided⟩
    have hone := toNat_add_one_of_lt hlt
    rw [hb, UInt32.le_iff_toNat_le, hone]
    exact hlt

/-- One packet keeps the accept counter ahead of the accepted tokens. A token
that is accepted was counted within the limit. -/
theorem Covers.step {maxConsecutive : NnUint} {r s s' : WorkerState F E} {streak : ℕ}
    (hcov : Covers maxConsecutive s streak) (he : PacketEffect r s')
    (hle : s.skipConsecutiveAccepts ≤ maxConsecutive)
    (hc : r.controlPacket.stageSkipMaxConsecutive = maxConsecutive)
    (hr : (r.skipConsecutiveAccepts = s.skipConsecutiveAccepts ∧
          r.skipRejectStreak = s.skipRejectStreak ∧ r.prevXPipeRow = s.prevXPipeRow) ∨
        (r.skipConsecutiveAccepts = 0 ∧ r.skipRejectStreak = 0 ∧ r.prevXPipeRow = none)) :
    (accepted s' = true → s'.decodeSingle = true ∧ streak + 1 ≤ maxConsecutive.toNat ∧
      Covers maxConsecutive s' (streak + 1)) ∧
    (accepted s' = false → s'.decodeSingle = false → Covers maxConsecutive s' streak) := by
  have hnat : s.skipConsecutiveAccepts.toNat ≤ maxConsecutive.toNat := hle
  constructor
  · intro hacc
    rcases he.counters with ⟨hno, -, -⟩ | ⟨hsingle, hprev, hlt, ha, -⟩ |
      ⟨-, hno, -, -⟩ | ⟨-, hno, -, -, -⟩
    · exact absurd (by simpa [accepted] using hacc) hno
    · rcases hr with ⟨hra, -, hrp⟩ | ⟨-, -, hrp⟩
      · rcases hcov with hs | ⟨hs, -⟩
        · rw [hc, hra] at hlt
          have hone := toNat_add_one_of_lt hlt
          have hroom : s.skipConsecutiveAccepts.toNat < maxConsecutive.toNat := hlt
          refine ⟨hsingle, by omega, .inl ?_⟩
          rw [ha, hra, hone]
          omega
        · exact absurd (hrp.trans hs) hprev
      · exact absurd hrp hprev
    · exact absurd (by simpa [accepted] using hacc) hno
    · exact absurd (by simpa [accepted] using hacc) hno
  · intro hacc hsingle
    rcases he.counters with ⟨-, ha, -⟩ | ⟨hone, -⟩ | ⟨hone, -⟩ | ⟨hone, -⟩
    · have hprev : r.prevXPipeRow = none → s'.prevXPipeRow = none := by
        intro hnone
        by_contra hsome
        rcases he.prev hsome with hr' | hone
        · exact hr' hnone
        · rw [hsingle] at hone
          cases hone
      rcases hr with ⟨hra, -, hrp⟩ | ⟨-, -, hrp⟩
      · rcases hcov with hs | ⟨hs, hlimit⟩
        · left
          rw [ha, hra]
          exact hs
        · exact .inr ⟨hprev (hrp.trans hs), hlimit⟩
      · refine .inr ⟨hprev hrp, ?_⟩
        rcases hcov with hs | ⟨-, hlimit⟩
        · omega
        · exact hlimit
    all_goals
      rw [hsingle] at hone
      cases hone

/-- Which of the tokens a run has seen were accepted, in order. -/
def decisions (keep : WorkerState F E → Bool) (states : List (WorkerState F E)) : List Bool :=
  (states.filter keep).map accepted

/-- Over a whole run the accepted tokens stay within the limit, from any state
with the invariant. -/
theorem runStates_bounded [Add F] [Sub F] [LE F] [DecidableLE F] [LT F] [DecidableLT F]
    (w : WorkerConfig F E) {maxConsecutive maxRejectStreak : NnUint}
    (keep : WorkerState F E → Bool) (hkeep : ∀ s, s.decodeSingle = true → keep s = true)
    (ps : List (LlmControlPacket F))
    (hp : ∀ p ∈ ps, p.stageSkipMaxConsecutive = maxConsecutive ∧
      p.stageSkipMaxRejectStreak = maxRejectStreak)
    (s : WorkerState F E) (inbox : Inbox) (hi : SkipInv maxConsecutive maxRejectStreak s)
    {streak : ℕ} (hcov : Covers maxConsecutive s streak) :
    (∀ s' ∈ runStates w s inbox ps, SkipInv maxConsecutive maxRejectStreak s') ∧
      StreakBounded maxConsecutive.toNat streak (decisions keep (runStates w s inbox ps)) := by
  induction ps generalizing s inbox streak with
  | nil => exact ⟨fun _ h => absurd h List.not_mem_nil, trivial⟩
  | cons p ps ih =>
    unfold runStates
    split
    · exact ⟨fun _ h => absurd h List.not_mem_nil, trivial⟩
    · rename_i s' inbox' hpacket
      obtain ⟨r, he, hrp, hr⟩ := handlePacket_effect hi.undecided hpacket
      have hset := hp p List.mem_cons_self
      rw [← hrp] at hset
      have hi' := hi.step he hset.1 hset.2 hr
      have hcov' := hcov.step he hi.accepts_le hset.1 hr
      have hlater := fun q hq => hp q (List.mem_cons_of_mem _ hq)
      have hzero : Covers maxConsecutive s' 0 := .inl (Nat.zero_le _)
      constructor
      · intro t ht
        rcases List.mem_cons.mp ht with rfl | ht
        · exact hi'
        · exact (ih hlater s' inbox' hi' hzero).1 t ht
      · unfold decisions
        by_cases hk : keep s' = true
        · rw [List.filter_cons_of_pos hk, List.map_cons]
          cases hacc : accepted s' with
          | true =>
            obtain ⟨-, hlimit, hnext⟩ := hcov'.1 hacc
            exact ⟨hlimit, (ih hlater s' inbox' hi' hnext).2⟩
          | false => exact (ih hlater s' inbox' hi' hzero).2
        · rw [List.filter_cons_of_neg hk]
          have hsingle : s'.decodeSingle = false := by
            by_contra hone
            exact hk (hkeep s' (by simpa using hone))
          have hacc : accepted s' = false := by
            by_contra hone
            have hdec := (hcov'.1 (by simpa using hone)).1
            rw [hsingle] at hdec
            cases hdec
          exact (ih hlater s' inbox' hi' (hcov'.2 hacc hsingle)).2

/-- A fresh worker, over any control packets with constant limits: the reject
streak stays within its limit, the two streaks are never both positive, decode
tokens accepted in a row stay within theirs, and every longer window of decode
tokens contains one with a full pass. This holds of all decode packets and of
the single decode tokens among them. -/
theorem skip_bounded [Add F] [Sub F] [LE F] [DecidableLE F] [LT F] [DecidableLT F]
    (w : WorkerConfig F E) (pipeline : Option (NnPipelineCommunicator F))
    (packet : LlmControlPacket F) (dtype : NnFloatType) (engine : E) (inbox : Inbox)
    (ps : List (LlmControlPacket F)) (maxConsecutive maxRejectStreak : NnUint)
    (hp : ∀ p ∈ ps, p.stageSkipMaxConsecutive = maxConsecutive ∧
      p.stageSkipMaxRejectStreak = maxRejectStreak) :
    (∀ s ∈ runStates w (create pipeline packet dtype engine) inbox ps,
      s.skipRejectStreak ≤ maxRejectStreak ∧
        (s.skipConsecutiveAccepts = 0 ∨ s.skipRejectStreak = 0)) ∧
    ∀ keep ∈ [WorkerState.decodePhase, WorkerState.decodeSingle],
      (∀ run, run <:+: decisions keep (runStates w (create pipeline packet dtype engine) inbox ps) →
        (∀ a ∈ run, a = true) → run.length ≤ maxConsecutive.toNat) ∧
      ∀ window, window <:+:
          decisions keep (runStates w (create pipeline packet dtype engine) inbox ps) →
        window.length = maxConsecutive.toNat + 1 → false ∈ window := by
  have hi : SkipInv maxConsecutive maxRejectStreak (create pipeline packet dtype engine) :=
    ⟨Nat.zero_le _, Nat.zero_le _, .inl rfl, fun _ => rfl⟩
  have hcov : Covers maxConsecutive (create pipeline packet dtype engine) 0 := .inl (Nat.zero_le _)
  constructor
  · intro s hs
    have hs' := (runStates_bounded w (fun _ => true) (fun _ _ => rfl) ps hp _ inbox hi hcov).1 s hs
    exact ⟨hs'.rejects_le, hs'.exclusive⟩
  · intro keep hkeep
    have hk : ∀ s : WorkerState F E, s.decodeSingle = true → keep s = true := by
      intro s hs
      rcases List.mem_pair.mp hkeep with rfl | rfl
      · rw [decodeSingle, Bool.and_eq_true] at hs
        exact hs.1
      · exact hs
    have hbound := (runStates_bounded w keep hk ps hp _ inbox hi hcov).2
    have hrun := fun run (hr : run <:+: _) => hbound.infix_length (Nat.zero_le _) hr
    refine ⟨hrun, fun window hw hlen => ?_⟩
    by_contra hnone
    have hall : ∀ a ∈ window, a = true := by
      intro a ha
      cases a with
      | true => rfl
      | false => exact absurd ha hnone
    have hle := hrun window hw hall
    omega

/-- States of stage 1 of four that sees the same activation four times, with
one skip allowed in a row. -/
def fourTokens : List (WorkerState NnUint (List NnUint)) :=
  runStates (wordWorker 1) (chainWorker 4 1)
    (fun _ => (List.range 4).map fun i => wordFrame i.toUInt32 7)
    ((List.range 4).map fun i => decodePacket i.toUInt32 0 1 1 3)

/-- It accepts the second and the fourth token, never two in a row. -/
theorem skip_bounded_four :
    decisions WorkerState.decodePhase fourTokens = [false, true, false, true] ∧
      ∀ run, run <:+: decisions WorkerState.decodePhase fourTokens →
        (∀ a ∈ run, a = true) → run.length ≤ 1 := by
  refine ⟨by decide, ?_⟩
  exact ((skip_bounded (wordWorker 1) (some (chainLinks 4 1)) (decodePacket 0 0 0 0 0) .f32 []
    (fun _ => (List.range 4).map fun i => wordFrame i.toUInt32 7)
    ((List.range 4).map fun i => decodePacket i.toUInt32 0 1 1 3) 1 3 (by decide)).2
    WorkerState.decodePhase (by simp)).1

end LayerSkip.SkipBound
