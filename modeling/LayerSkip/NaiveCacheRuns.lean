import LayerSkip.NaiveCache

/-!
# What cached conversations promise

A request that continues the cached messages relies on the rows before its first position. In
a run they are those of the cached messages exactly if every such request follows one that was
not broken off, that ended with a stop and that fed the last token of its prompt.
-/

namespace LayerSkip.NaiveCache

/-- Tokens of the cached messages in order. -/
def said (cache : List NaiveCacheItem) : List Token := cache.flatMap (·.tokens)

/-- The rows before a position were computed from exactly these tokens in order. -/
def ComputedFrom (kv : ℕ → Row) (pos : ℕ) (tokens : List Token) : Prop :=
  tokens.length = pos ∧ ∀ p < pos, kv p = tokens.take (p + 1)

/-- If the cache is used for a request, then it is right. -/
def CacheRight (s : Server) (r : Request) : Prop :=
  ∀ startPos deltaPrompt,
    (resolveDeltaPrompt s.naiveCache r.messages).2 = some (startPos, deltaPrompt) →
    ComputedFrom s.kv startPos (said s.naiveCache)

/-- The cache is used for a request. -/
def Accepts (s : Server) (r : Request) : Prop :=
  (resolveDeltaPrompt s.naiveCache r.messages).2.isSome

/-- Writes to the client and forwards. -/
def Op.canThrow : Op → Bool
  | .write => true
  | .forward _ _ => true
  | .push _ => false
  | .clear => false
  | .fail => false

/-- A request that leaves the cache right. -/
structure Whole (ctx : ApiContext) (s : Server) (r : Request) : Prop where
  /-- Nothing throws before the answer is cached. -/
  unbroken : ∀ k < (completion ctx r (delta s r).1 (delta s r).2).body.countP Op.canThrow,
    r.fault k = none
  /-- A stop is detected before the limit. -/
  stopped : ∃ k, promptEnd ctx (delta s r).1 (ctx.encode (delta s r).2 ((delta s r).1 = 0)) + k <
    maxPred ctx r (promptEnd ctx (delta s r).1 (ctx.encode (delta s r).2 ((delta s r).1 = 0))) ∧
    r.eosType k = .eos
  /-- The first token after the prefill is the last one of the prompt. -/
  lastToken : some (firstToken r (ctx.encode (delta s r).2 ((delta s r).1 = 0)) (delta s r).1
    (promptEnd ctx (delta s r).1 (ctx.encode (delta s r).2 ((delta s r).1 = 0)))) =
    (ctx.encode (delta s r).2 ((delta s r).1 = 0)).tokens.getLast?

/-! ### Operations -/

section Ops

variable {r : Request}

theorem runOps_push (k : ℕ) (item : NaiveCacheItem) (ops : List Op) (s : Server) :
    runOps r k (.push item :: ops) s =
      runOps r k ops { s with naiveCache := s.naiveCache ++ [item] } := Eq.refl _

theorem runOps_write {k : ℕ} (ops : List Op) (s : Server) (h : r.fault k = none) :
    runOps r k (.write :: ops) s = runOps r (k + 1) ops s := by
  conv_lhs => unfold runOps
  rw [h]

theorem runOps_forward {k : ℕ} (pos : ℕ) (tokens : List Token) (ops : List Op) (s : Server)
    (h : r.fault k = none) : runOps r k (.forward pos tokens :: ops) s =
      runOps r (k + 1) ops { s with kv := forward s.kv pos tokens } := by
  conv_lhs => unfold runOps
  rw [h]

theorem runOps_fault {k : ℕ} {op : Op} (ops : List Op) (s : Server) {fault : Fault}
    (hop : op.canThrow = true) (h : r.fault k = some fault) :
    (runOps r k (op :: ops) s).2 = some fault := by
  cases op with
  | write =>
    unfold runOps
    rw [h]
  | forward pos tokens =>
    unfold runOps
    rw [h]
  | push item => cases hop
  | clear => cases hop
  | fail => cases hop

theorem runOps_items (k : ℕ) (items : List NaiveCacheItem) (ops : List Op) (s : Server) :
    runOps r k (items.map .push ++ ops) s =
      runOps r k ops { s with naiveCache := s.naiveCache ++ items } := by
  induction items generalizing s with
  | nil =>
    rw [List.map_nil, List.nil_append, List.append_nil]
  | cons item items ih =>
    rw [List.map_cons, List.cons_append, runOps_push, ih, List.append_assoc, List.singleton_append]

/-- Operations that do not change the cache. -/
def Quiet (ops : List Op) : Prop := ∀ op ∈ ops, op ≠ .clear ∧ ∀ item, op ≠ .push item

/-- Writes, forwards and failures leave the cache alone. -/
theorem Op.quiet_of_canThrow {op : Op} (h : op.canThrow = true ∨ op = .fail) :
    op ≠ .clear ∧ ∀ item, op ≠ .push item := by
  constructor
  · intro heq
    rw [heq] at h
    cases h with
    | inl h => cases h
    | inr h => cases h
  · intro item heq
    rw [heq] at h
    cases h with
    | inl h => cases h
    | inr h => cases h

/-- Rows after all forwards of a list. -/
def rowsAfter (kv : ℕ → Row) : List Op → ℕ → Row
  | [] => kv
  | .forward pos tokens :: ops => rowsAfter (forward kv pos tokens) ops
  | _ :: ops => rowsAfter kv ops

theorem runOps_quiet {ops : List Op} (hquiet : Quiet ops) (k : ℕ) (s : Server) :
    (runOps r k ops s).1.naiveCache = s.naiveCache := by
  induction ops generalizing k s with
  | nil => exact Eq.refl _
  | cons op ops ih =>
    have hrest := ih fun op' hop' => hquiet op' (List.mem_cons_of_mem op hop')
    have hop := hquiet op List.mem_cons_self
    cases op with
    | write =>
      unfold runOps
      cases r.fault k with
      | none => exact hrest _ _
      | some fault => exact Eq.refl _
    | forward pos tokens =>
      unfold runOps
      cases r.fault k with
      | none => exact hrest _ _
      | some fault => exact Eq.refl _
    | push item => exact absurd (Eq.refl _) (hop.2 item)
    | clear => exact absurd (Eq.refl _) hop.1
    | fail => exact Eq.refl _

/-- Operations that end without a failure have all been made. -/
theorem runOps_none {ops : List Op} (hquiet : Quiet ops) {k : ℕ} {s : Server}
    (h : (runOps r k ops s).2 = none) :
    (∀ j < ops.countP Op.canThrow, r.fault (k + j) = none) ∧ .fail ∉ ops ∧
      ∀ more, runOps r k (ops ++ more) s =
        runOps r (k + ops.countP Op.canThrow) more { s with kv := rowsAfter s.kv ops } := by
  induction ops generalizing k s with
  | nil => exact ⟨fun j hj => absurd hj (Nat.not_lt_zero j), List.not_mem_nil, fun _ => Eq.refl _⟩
  | cons op ops ih =>
    have hrest := fun op' (hop' : op' ∈ ops) => hquiet op' (List.mem_cons_of_mem op hop')
    have hop := hquiet op List.mem_cons_self
    have hfault (hthrow : op.canThrow = true) : r.fault k = none := by
      cases hf : r.fault k with
      | none => exact Eq.refl _
      | some fault =>
        rw [runOps_fault ops s hthrow hf] at h
        cases h
    have hshift (hk : r.fault k = none)
        (hlater : ∀ j < ops.countP Op.canThrow, r.fault (k + 1 + j) = none) :
        ∀ j < ops.countP Op.canThrow + 1, r.fault (k + j) = none := by
      intro j hj
      cases j with
      | zero => exact hk
      | succ j =>
        have hnone := hlater j (by omega)
        rw [Nat.add_assoc, Nat.add_comm 1] at hnone
        exact hnone
    cases op with
    | write =>
      have hk := hfault (Eq.refl _)
      rw [runOps_write ops s hk] at h
      obtain ⟨hnone, hfail, hmore⟩ := ih hrest h
      have hcount : (Op.write :: ops).countP Op.canThrow = ops.countP Op.canThrow + 1 :=
        List.countP_cons_of_pos (Eq.refl _)
      rw [hcount]
      refine ⟨hshift hk hnone, ?_, fun more => ?_⟩
      · intro hmem
        cases hmem with
        | tail _ htail => exact hfail htail
      · rw [List.cons_append, runOps_write _ s hk, hmore, Nat.add_assoc,
          Nat.add_comm 1]
        exact Eq.refl _
    | forward pos tokens =>
      have hk := hfault (Eq.refl _)
      rw [runOps_forward pos tokens ops s hk] at h
      obtain ⟨hnone, hfail, hmore⟩ := ih hrest h
      have hcount : (Op.forward pos tokens :: ops).countP Op.canThrow = ops.countP Op.canThrow + 1 :=
        List.countP_cons_of_pos (Eq.refl _)
      rw [hcount]
      refine ⟨hshift hk hnone, ?_, fun more => ?_⟩
      · intro hmem
        cases hmem with
        | tail _ htail => exact hfail htail
      · rw [List.cons_append, runOps_forward pos tokens _ s hk, hmore, Nat.add_assoc,
          Nat.add_comm 1]
        exact Eq.refl _
    | push item => exact absurd (Eq.refl _) (hop.2 item)
    | clear => exact absurd (Eq.refl _) hop.1
    | fail => cases h

/-- Operations of which none fails end, unless an assertion fails. -/
theorem runOps_of_no_fault {ops : List Op} (hquiet : Quiet ops) {k : ℕ} {s : Server}
    (h : ∀ j < ops.countP Op.canThrow, r.fault (k + j) = none) :
    (runOps r k ops s).2 ≠ some .transfer := by
  induction ops generalizing k s with
  | nil =>
    intro hnil
    cases hnil
  | cons op ops ih =>
    have hrest := fun op' (hop' : op' ∈ ops) => hquiet op' (List.mem_cons_of_mem op hop')
    have hop := hquiet op List.mem_cons_self
    have hlater (hcount : (op :: ops).countP Op.canThrow = ops.countP Op.canThrow + 1) :
        r.fault k = none ∧ ∀ j < ops.countP Op.canThrow, r.fault (k + 1 + j) = none := by
      rw [hcount] at h
      constructor
      · exact h 0 (Nat.succ_pos _)
      · intro j hj
        rw [Nat.add_assoc, Nat.add_comm 1]
        exact h (j + 1) (by omega)
    cases op with
    | write =>
      obtain ⟨hk, hnone⟩ := hlater (List.countP_cons_of_pos (Eq.refl _))
      rw [runOps_write ops s hk]
      exact ih hrest hnone
    | forward pos tokens =>
      obtain ⟨hk, hnone⟩ := hlater (List.countP_cons_of_pos (Eq.refl _))
      rw [runOps_forward pos tokens ops s hk]
      exact ih hrest hnone
    | push item => exact absurd (Eq.refl _) (hop.2 item)
    | clear => exact absurd (Eq.refl _) hop.1
    | fail =>
      intro hfail
      cases hfail

/-- After a failure nothing more is done. -/
theorem runOps_append_of_fault {ops : List Op} {k : ℕ} {s s' : Server} {fault : Fault}
    (h : runOps r k ops s = (s', some fault)) (more : List Op) :
    runOps r k (ops ++ more) s = (s', some fault) := by
  induction ops generalizing k s with
  | nil => cases h
  | cons op ops ih =>
    rw [List.cons_append]
    cases op with
    | write =>
      cases hk : r.fault k with
      | none =>
        rw [runOps_write _ s hk] at h ⊢
        exact ih h
      | some f =>
        unfold runOps at h ⊢
        rw [hk] at h ⊢
        exact h
    | forward pos tokens =>
      cases hk : r.fault k with
      | none =>
        rw [runOps_forward pos tokens _ s hk] at h ⊢
        exact ih h
      | some f =>
        unfold runOps at h ⊢
        rw [hk] at h ⊢
        exact h
    | push item =>
      rw [runOps_push] at h ⊢
      exact ih h
    | clear => exact ih h
    | fail => exact h

/-- Writes change nothing. -/
theorem runOps_writes {ops : List Op} (h : ∀ op ∈ ops, op = .write) (k : ℕ) (s : Server) :
    (runOps r k ops s).1 = s := by
  induction ops generalizing k with
  | nil => exact Eq.refl _
  | cons op ops ih =>
    have hop := h op List.mem_cons_self
    rw [hop]
    cases hk : r.fault k with
    | none =>
      rw [runOps_write _ s hk]
      exact ih (fun op' hop' => h op' (List.mem_cons_of_mem op hop')) _
    | some f =>
      unfold runOps
      rw [hk]

end Ops

/-! ### Rows -/

theorem rowsAfter_append (kv : ℕ → Row) (ops more : List Op) :
    rowsAfter kv (ops ++ more) = rowsAfter (rowsAfter kv ops) more := by
  induction ops generalizing kv with
  | nil => exact Eq.refl _
  | cons op ops ih => cases op <;> exact ih _

theorem rowsAfter_writes {ops : List Op} (h : ∀ op ∈ ops, op = .write) (kv : ℕ → Row) :
    rowsAfter kv ops = kv := by
  induction ops with
  | nil => exact Eq.refl _
  | cons op ops ih =>
    rw [h op List.mem_cons_self]
    exact ih fun op' hop' => h op' (List.mem_cons_of_mem op hop')

theorem forward_cons (kv : ℕ → Row) (pos : ℕ) (token : Token) (tokens : List Token) :
    forward kv pos (token :: tokens) =
      forward (Function.update kv pos (context kv pos ++ [token])) (pos + 1) tokens := Eq.refl _

theorem forward_append (kv : ℕ → Row) (pos : ℕ) (tokens more : List Token) :
    forward kv pos (tokens ++ more) = forward (forward kv pos tokens) (pos + tokens.length) more := by
  induction tokens generalizing kv pos with
  | nil => exact Eq.refl _
  | cons token tokens ih =>
    rw [List.cons_append, forward_cons, forward_cons, ih, List.length_cons, Nat.add_assoc,
      Nat.add_comm 1]

/-- Right rows show their tokens. -/
theorem context_eq {kv : ℕ → Row} {tokens : List Token} {pos : ℕ} (hpos : pos ≤ tokens.length)
    (h : ∀ p < pos, kv p = tokens.take (p + 1)) : context kv pos = tokens.take pos := by
  induction pos with
  | zero => exact Eq.refl _
  | succ pos ih =>
    have hbefore := ih (by omega) fun p hp => h p (by omega)
    have hlast : (kv pos).getLast?.toList = [tokens[pos]] := by
      rw [h pos (by omega), List.take_succ_eq_append_getElem (by omega), List.getLast?_concat]
      exact Eq.refl _
    unfold context at hbefore ⊢
    rw [List.range_succ, List.flatMap_append, hbefore, List.flatMap_cons, List.flatMap_nil,
      List.append_nil, hlast, ← List.take_succ_eq_append_getElem]

/-- A forward on right rows gives right rows. -/
theorem forward_right {kv : ℕ → Row} {tokens : List Token}
    (h : ∀ p < tokens.length, kv p = tokens.take (p + 1)) (more : List Token) :
    ∀ p < tokens.length + more.length,
      forward kv tokens.length more p = (tokens ++ more).take (p + 1) := by
  induction more generalizing kv tokens with
  | nil =>
    intro p hp
    rw [List.append_nil]
    exact h p hp
  | cons token more ih =>
    have hnext : ∀ p < (tokens ++ [token]).length,
        Function.update kv tokens.length (context kv tokens.length ++ [token]) p =
          (tokens ++ [token]).take (p + 1) := by
      intro p hp
      rw [List.length_append, List.length_singleton] at hp
      by_cases hlast : p = tokens.length
      · rw [hlast, Function.update_self, context_eq (Nat.le_refl _) h, List.take_length]
        apply Eq.symm
        exact List.take_of_length_le (Nat.le_of_eq List.length_append)
      · rw [Function.update_of_ne hlast, h p (by omega), List.take_append_of_le_length (by omega)]
    intro p hp
    have hrest := ih hnext p (by
      rw [List.length_append, List.length_singleton]
      rw [List.length_cons] at hp
      omega)
    rw [List.length_append, List.length_singleton, List.append_assoc, List.singleton_append] at hrest
    exact hrest

/-! ### Prefill and decode -/

theorem resolvePrefillChunkBatchSize_pos (ctx : ApiContext) (nPrefillTokens : ℕ) :
    0 < resolvePrefillChunkBatchSize ctx nPrefillTokens := by
  unfold resolvePrefillChunkBatchSize
  dsimp only
  split_ifs <;> omega

theorem cells_eq (prompt : PromptTokens) {count : ℕ} (h : count ≤ prompt.tokens.length) :
    ((List.range count).map fun j => prompt.cell (0 + j)) = prompt.tokens.take count := by
  apply List.ext_getElem?
  intro j
  by_cases hj : j < count
  · rw [List.getElem?_map, List.getElem?_range hj, List.getElem?_take_of_lt hj]
    unfold PromptTokens.cell
    have hcell : prompt.tokens[j]? = some prompt.tokens[j] := List.getElem?_eq_getElem (by omega)
    rw [Option.map_some, Nat.zero_add, List.getD_eq_getElem?_getD, hcell]
    exact Eq.refl _
  · rw [List.getElem?_eq_none, List.getElem?_eq_none]
    · rw [List.length_take]
      omega
    · rw [List.length_map, List.length_range]
      omega

theorem prefillOps_quiet (prompt : PromptTokens) (cap promptEndPos pos i : ℕ) :
    Quiet (prefillOps prompt cap promptEndPos pos i) := by
  fun_induction prefillOps prompt cap promptEndPos pos i with
  | case1 pos i hlt =>
    intro op hop
    rw [List.mem_singleton.mp hop]
    exact Op.quiet_of_canThrow (Or.inr (Eq.refl _))
  | case2 pos i hle hmore batchSize ih =>
    intro op hop
    cases List.mem_cons.mp hop with
    | inl heq =>
      rw [heq]
      exact Op.quiet_of_canThrow (Or.inl (Eq.refl _))
    | inr hmem => exact ih op hmem
  | case3 pos i hle hend =>
    intro op hop
    cases hop

/-- Cells of a batch, and those after it. -/
theorem PromptTokens.cells_split (prompt : PromptTokens) (i : ℕ) {batchSize n : ℕ}
    (h : batchSize ≤ n) : ((List.range n).map fun j => prompt.cell (i + j)) =
      ((List.range batchSize).map fun j => prompt.cell (i + j)) ++
        (List.range (n - batchSize)).map fun j => prompt.cell (i + batchSize + j) := by
  conv_lhs => rw [← Nat.add_sub_cancel' h, List.range_add, List.map_append, List.map_map]
  simp only [Function.comp_def, Nat.add_assoc]

/-- The batches together are one forward of the prompt. -/
theorem rowsAfter_prefillOps (prompt : PromptTokens) {cap promptEndPos pos i : ℕ} (hcap : 0 < cap)
    (hpos : pos ≤ promptEndPos) (kv : ℕ → Row) :
    rowsAfter kv (prefillOps prompt cap promptEndPos pos i) =
      forward kv pos ((List.range (promptEndPos - pos)).map fun j => prompt.cell (i + j)) := by
  fun_induction prefillOps prompt cap promptEndPos pos i generalizing kv with
  | case1 pos i hlt => omega
  | case2 pos i hle hmore batchSize ih =>
    have hbatch : batchSize ≤ promptEndPos - pos := Nat.min_le_left _ _
    rw [prompt.cells_split i hbatch, forward_append, List.length_map, List.length_range,
      Nat.sub_sub, ← ih (by omega)]
    exact Eq.refl _
  | case3 pos i hle hend =>
    have hzero : promptEndPos - pos = 0 := by omega
    rw [hzero]
    exact Eq.refl _

/-- What a decode step writes. -/
theorem mem_stepOps {pos : ℕ} {token : Token} {out : Prop} [Decidable out] {op : Op}
    (h : op ∈ Op.forward pos [token] :: if out then [.write] else []) : op.canThrow = true := by
  cases List.mem_cons.mp h with
  | inl heq =>
    rw [heq]
    exact Eq.refl _
  | inr hmem =>
    split at hmem
    · rw [List.mem_singleton.mp hmem]
      exact Eq.refl _
    · cases hmem

theorem rowsAfter_stepOps (kv : ℕ → Row) (pos : ℕ) (token : Token) (out : Prop) [Decidable out] :
    rowsAfter kv (Op.forward pos [token] :: if out then [.write] else []) = forward kv pos [token] := by
  split <;> exact Eq.refl _

theorem decode_quiet (r : Request) (maxPredPos k pos : ℕ) (token : Token) (buffer : String) :
    Quiet (decode r maxPredPos k pos token buffer).ops := by
  fun_induction decode r maxPredPos k pos token buffer with
  | case1 k pos token buffer hlt delta ops buffer' hstop =>
    intro op hop
    exact Op.quiet_of_canThrow (Or.inl (mem_stepOps hop))
  | case2 k pos token buffer hlt next delta ops buffer' hgo rest ih =>
    intro op hop
    cases List.mem_append.mp hop with
    | inl hmem => exact Op.quiet_of_canThrow (Or.inl (mem_stepOps hmem))
    | inr hmem => exact ih op hmem
  | case3 k pos token buffer hge =>
    intro op hop
    cases hop

/-- A decode that meets a stop has fed its first token and the answer. -/
theorem decode_stopped (r : Request) (maxPredPos k pos : ℕ) (token : Token) (buffer : String)
    (kv : ℕ → Row) (hstop : ∃ j, pos + j < maxPredPos ∧ r.eosType (k + j) = .eos) :
    (decode r maxPredPos k pos token buffer).pos =
        pos + (decode r maxPredPos k pos token buffer).tokens.length + 1 ∧
      rowsAfter kv (decode r maxPredPos k pos token buffer).ops =
        forward kv pos (token :: (decode r maxPredPos k pos token buffer).tokens) := by
  fun_induction decode r maxPredPos k pos token buffer generalizing kv with
  | case1 k pos token buffer hlt delta ops buffer' heos =>
    exact ⟨Eq.refl _, rowsAfter_stepOps kv pos token _⟩
  | case2 k pos token buffer hlt next delta ops buffer' hgo rest ih =>
    obtain ⟨j, hj, heos⟩ := hstop
    have hlater : ∃ j, pos + 1 + j < maxPredPos ∧ r.eosType (k + 1 + j) = .eos := by
      cases j with
      | zero => exact absurd heos hgo
      | succ j =>
        refine ⟨j, by omega, ?_⟩
        rw [Nat.add_assoc, Nat.add_comm 1]
        exact heos
    have hpos : rest.pos = pos + 1 + rest.tokens.length + 1 := (ih kv hlater).1
    have hrows : rowsAfter (forward kv pos [token]) rest.ops =
        forward (forward kv pos [token]) (pos + 1) (next :: rest.tokens) :=
      (ih (forward kv pos [token]) hlater).2
    have hops : rowsAfter kv ops = forward kv pos [token] := rowsAfter_stepOps kv pos token _
    constructor
    · dsimp only
      rw [List.length_cons]
      omega
    · dsimp only
      rw [rowsAfter_append, hops, hrows]
      exact Eq.refl _
  | case3 k pos token buffer hge =>
    obtain ⟨j, hj, heos⟩ := hstop
    omega

/-- A decode that runs to the limit has not fed the last token of the answer. -/
theorem decode_limit (r : Request) (maxPredPos k pos : ℕ) (token : Token) (buffer : String)
    (hgo : ¬∃ j, pos + j < maxPredPos ∧ r.eosType (k + j) = .eos) :
    (decode r maxPredPos k pos token buffer).pos =
        pos + (decode r maxPredPos k pos token buffer).tokens.length ∧
      maxPredPos ≤ (decode r maxPredPos k pos token buffer).pos := by
  fun_induction decode r maxPredPos k pos token buffer with
  | case1 k pos token buffer hlt delta ops buffer' heos =>
    exact absurd ⟨0, hlt, heos⟩ hgo
  | case2 k pos token buffer hlt next delta ops buffer' hnot rest ih =>
    have hlater : ¬∃ j, pos + 1 + j < maxPredPos ∧ r.eosType (k + 1 + j) = .eos := by
      intro ⟨j, hj, heos⟩
      refine hgo ⟨j + 1, by omega, ?_⟩
      rw [Nat.add_comm j, ← Nat.add_assoc]
      exact heos
    have hpos : rest.pos = pos + 1 + rest.tokens.length := (ih hlater).1
    have hmax : maxPredPos ≤ rest.pos := (ih hlater).2
    constructor
    · dsimp only
      rw [List.length_cons]
      omega
    · exact hmax
  | case3 k pos token buffer hge =>
    constructor
    · exact Eq.refl _
    · dsimp only
      omega

/-! ### One request -/

/-- Position after the cached messages. -/
def lastEnd (cache : List NaiveCacheItem) : ℕ := (cache.getLast?.map (·.endPos)).getD 0

theorem said_append (cache items : List NaiveCacheItem) :
    said (cache ++ items) = said cache ++ said items := List.flatMap_append

theorem lastEnd_append {items : List NaiveCacheItem} {endPos : ℕ} (hne : items ≠ [])
    (h : ∀ item ∈ items, item.endPos = endPos) (cache : List NaiveCacheItem) :
    lastEnd (cache ++ items) = endPos := by
  unfold lastEnd
  rw [List.getLast?_append, List.getLast?_eq_some_getLast hne, Option.some_or, Option.map_some,
    Option.getD_some]
  exact h _ (List.getLast_mem hne)

theorem said_messageItems (endPos : ℕ) (tokens : List Token) {messages : List ChatMessage}
    (h : messages ≠ []) : said (messageItems endPos tokens messages) = tokens := by
  cases messages with
  | nil => exact absurd (Eq.refl _) h
  | cons message messages =>
    have hrest : said (messages.map fun m => (⟨endPos, m, []⟩ : NaiveCacheItem)) = [] := by
      unfold said
      rw [List.flatMap_map]
      exact List.flatMap_eq_nil_iff.mpr fun _ _ => Eq.refl _
    unfold messageItems
    unfold said at hrest ⊢
    rw [List.flatMap_cons, hrest, List.append_nil]

theorem endPos_messageItems {endPos : ℕ} {tokens : List Token} {messages : List ChatMessage} :
    ∀ item ∈ messageItems endPos tokens messages, item.endPos = endPos := by
  intro item hitem
  cases messages with
  | nil => cases hitem
  | cons message messages =>
    cases List.mem_cons.mp hitem with
    | inl heq => rw [heq]
    | inr hmem =>
      obtain ⟨m, _, heq⟩ := List.mem_map.mp hmem
      rw [← heq]

theorem messageItems_ne_nil {endPos : ℕ} {tokens : List Token} {messages : List ChatMessage}
    (h : messages ≠ []) : messageItems endPos tokens messages ≠ [] := by
  cases messages with
  | nil => exact absurd (Eq.refl _) h
  | cons message messages =>
    intro hnil
    cases hnil

/-- The cache is kept and messages follow, or nothing is kept. -/
theorem resolveDeltaPrompt_cases (cache : List NaiveCacheItem) (messages : List ChatMessage) :
    (∃ deltaPrompt, resolveDeltaPrompt cache messages = (cache, some (lastEnd cache, deltaPrompt)) ∧
      deltaPrompt ≠ [] ∧ cache ≠ []) ∨ resolveDeltaPrompt cache messages = ([], none) := by
  unfold resolveDeltaPrompt
  cases hlast : cache.getLast? with
  | none =>
    rw [List.getLast?_eq_none_iff.mp hlast]
    exact Or.inr (Eq.refl _)
  | some last =>
    dsimp only
    by_cases hmatch : cache.length < messages.length ∧ matchedItems cache messages = cache.length
    · refine Or.inl ⟨messages.drop cache.length, ?_, ?_, ?_⟩
      · unfold lastEnd
        rw [if_pos hmatch, hlast]
        exact Eq.refl _
      · intro hnil
        have hlength := congrArg List.length hnil
        rw [List.length_drop, List.length_nil] at hlength
        omega
      · intro hnil
        rw [hnil] at hlast
        cases hlast
    · exact Or.inr (if_neg hmatch)

/-- What is kept is right. -/
theorem CacheRight.kept {s : Server} {r : Request} (h : CacheRight s r) :
    ComputedFrom s.kv (delta s r).1 (said (resolveDeltaPrompt s.naiveCache r.messages).1) ∧
      ((delta s r).2 = [] → (resolveDeltaPrompt s.naiveCache r.messages).1 = []) := by
  unfold delta
  obtain ⟨deltaPrompt, hresolve, hmore, _⟩ | hresolve :=
    resolveDeltaPrompt_cases s.naiveCache r.messages
  · have hright := h (lastEnd s.naiveCache) deltaPrompt (by rw [hresolve])
    rw [hresolve]
    exact ⟨hright, fun hnil => absurd hnil hmore⟩
  · rw [hresolve]
    exact ⟨⟨Eq.refl _, fun p hp => absurd hp (Nat.not_lt_zero p)⟩, fun _ => Eq.refl _⟩

/-- The end of the prompt is one short of its tokens. -/
theorem promptEnd_ne (ctx : ApiContext) (startPos : ℕ) (prompt : PromptTokens) :
    startPos + prompt.tokens.length ≠ promptEnd ctx startPos prompt := by
  have hseq := ctx.seqLen_lt
  have hpos := ctx.seqLen_pos
  unfold promptEnd
  by_cases hzero : startPos + prompt.tokens.length = 0
  · rw [hzero]
    omega
  · have hmod : (startPos + prompt.tokens.length + (2 ^ 32 - 1)) % 2 ^ 32 =
        (startPos + prompt.tokens.length - 1) % 2 ^ 32 := by omega
    have hle := Nat.mod_le (startPos + prompt.tokens.length - 1) (2 ^ 32)
    rw [hmod]
    omega

/-- A prompt that ends before the end of the context ends at its last token. -/
theorem promptEnd_eq (ctx : ApiContext) {startPos : ℕ} {prompt : PromptTokens}
    (hstart : startPos ≤ promptEnd ctx startPos prompt)
    (hroom : promptEnd ctx startPos prompt < ctx.seqLen) :
    0 < prompt.tokens.length ∧
      promptEnd ctx startPos prompt + 1 = startPos + prompt.tokens.length := by
  have hseq := ctx.seqLen_lt
  have hlength := prompt.length_lt
  unfold promptEnd at hstart hroom ⊢
  omega

theorem serve_eq (ctx : ApiContext) (s : Server) (r : Request) : serve ctx s r =
    if (complete ctx s r).2 = some .fatal then .init else (complete ctx s r).1 := by
  unfold serve
  cases complete ctx s r with
  | mk s' fault =>
    cases fault with
    | none => exact Eq.refl _
    | some fault => cases fault <;> exact Eq.refl _

theorem decode_of_not_lt (r : Request) {maxPredPos pos : ℕ} (k : ℕ) (token : Token) (buffer : String)
    (h : ¬pos < maxPredPos) : (decode r maxPredPos k pos token buffer).pos = pos := by
  unfold decode
  rw [if_neg h]

/-- The last element completes a list. -/
theorem take_concat_eq_iff {tokens : List Token} {count : ℕ} {token : Token}
    (hcount : tokens.length = count + 1) :
    tokens.take count ++ [token] = tokens ↔ some token = tokens.getLast? := by
  have hne : tokens ≠ [] := by
    intro hnil
    rw [hnil] at hcount
    cases hcount
  have hdrop : tokens.take count = tokens.dropLast := by
    rw [List.dropLast_eq_take, hcount, Nat.add_sub_cancel]
  have hlast := List.dropLast_concat_getLast hne
  rw [hdrop, List.getLast?_eq_some_getLast hne]
  constructor
  · intro h
    have hone := List.append_cancel_left (h.trans hlast.symm)
    injection hone with htoken
    rw [htoken]
  · intro h
    injection h with htoken
    rw [htoken]
    exact hlast

section Completion

variable {ctx : ApiContext} {r : Request} {startPos : ℕ} {prompt : PromptTokens}
  {kept : List Token} {kv : ℕ → Row}

/-- The decode loop of a request. -/
def decoded (ctx : ApiContext) (r : Request) (startPos : ℕ) (prompt : PromptTokens)
    (buffer : String) : Decoded :=
  decode r (maxPred ctx r (promptEnd ctx startPos prompt)) 0 (promptEnd ctx startPos prompt)
    (firstToken r prompt startPos (promptEnd ctx startPos prompt)) buffer

/-- An answer to a prompt that ends at its last token is right exactly if a stop was met and the
prompt was fed to its end. -/
theorem decode_right_iff {cap : ℕ} (hcap : 0 < cap) {endPos : ℕ} (maxPos : ℕ) (token : Token)
    (buffer : String) (hkept : ComputedFrom kv startPos kept) (hstart : startPos ≤ endPos)
    (hcount : prompt.tokens.length = endPos - startPos + 1) :
    ComputedFrom
        (rowsAfter (rowsAfter kv (prefillOps prompt cap endPos startPos 0))
          (decode r maxPos 0 endPos token buffer).ops)
        (decode r maxPos 0 endPos token buffer).pos
        (kept ++ (prompt.tokens ++ (decode r maxPos 0 endPos token buffer).tokens)) ↔
      (∃ k, endPos + k < maxPos ∧ r.eosType k = .eos) ∧
      some token = prompt.tokens.getLast? := by
  have hlength := hkept.1
  have hprefill : rowsAfter kv (prefillOps prompt cap endPos startPos 0) =
      forward kv startPos (prompt.tokens.take (endPos - startPos)) := by
    rw [rowsAfter_prefillOps prompt hcap hstart, cells_eq prompt (by omega)]
  have hfed : (kept ++ prompt.tokens.take (endPos - startPos)).length = endPos := by
    rw [List.length_append, List.length_take]
    omega
  have hrows : ∀ p < (kept ++ prompt.tokens.take (endPos - startPos)).length,
      forward kv startPos (prompt.tokens.take (endPos - startPos)) p =
        (kept ++ prompt.tokens.take (endPos - startPos)).take (p + 1) := by
    intro p hp
    have hright := forward_right (by rw [hlength]; exact hkept.2)
      (prompt.tokens.take (endPos - startPos)) p (by rw [← List.length_append]; exact hp)
    rw [hlength] at hright
    exact hright
  rw [hprefill]
  by_cases hstop : ∃ k, endPos + k < maxPos ∧ r.eosType k = .eos
  · have hstop' : ∃ k, endPos + k < maxPos ∧ r.eosType (0 + k) = .eos := by
      obtain ⟨k, hk, heos⟩ := hstop
      exact ⟨k, hk, by rw [Nat.zero_add]; exact heos⟩
    obtain ⟨hdecoded, hafter⟩ := decode_stopped r _ 0 endPos token buffer
      (forward kv startPos (prompt.tokens.take (endPos - startPos))) hstop'
    have hall := forward_right hrows (token :: (decode r maxPos 0 endPos token buffer).tokens)
    rw [hfed] at hall
    rw [hafter, hdecoded]
    have htake : prompt.tokens.take (endPos - startPos) ++ [token] =
        prompt.tokens ↔ some token = prompt.tokens.getLast? := take_concat_eq_iff hcount
    have hconcat (answer : List Token) :
        kept ++ prompt.tokens.take (endPos - startPos) ++ token :: answer =
          kept ++ (prompt.tokens.take (endPos - startPos) ++ [token]) ++ answer := by
      rw [List.append_assoc, List.append_assoc, List.append_assoc, List.singleton_append]
    constructor
    · intro ⟨_, hright⟩
      refine ⟨hstop, htake.mp ?_⟩
      have hhere := (hall endPos (by
        rw [List.length_cons]
        omega)).symm.trans (hright _ (by omega))
      have hfedTake (answer : List Token) : (kept ++
          (prompt.tokens.take (endPos - startPos) ++ [token]) ++ answer).take (endPos + 1) =
            kept ++ (prompt.tokens.take (endPos - startPos) ++ [token]) := by
        apply List.take_left'
        rw [List.length_append, List.length_append, List.length_take, List.length_singleton]
        omega
      have hsaidTake (answer : List Token) :
          (kept ++ (prompt.tokens ++ answer)).take (endPos + 1) = kept ++ prompt.tokens := by
        rw [← List.append_assoc]
        apply List.take_left'
        rw [List.length_append]
        omega
      rw [hconcat, hfedTake, hsaidTake] at hhere
      exact List.append_cancel_left hhere
    · intro ⟨_, hsome⟩
      have hwhole := hconcat
      rw [htake.mpr hsome] at hwhole
      rw [hwhole, List.append_assoc] at hall
      refine ⟨?_, fun p hp => hall p ?_⟩
      · rw [List.length_append, List.length_append]
        omega
      · rw [List.length_cons]
        omega
  · have hgo : ¬∃ k, endPos + k < maxPos ∧ r.eosType (0 + k) = .eos := by
      intro ⟨k, hk, heos⟩
      rw [Nat.zero_add] at heos
      exact hstop ⟨k, hk, heos⟩
    have hlimit := (decode_limit r _ 0 endPos token buffer hgo).1
    constructor
    · intro ⟨hsum, _⟩
      rw [List.length_append, List.length_append] at hsum
      omega
    · intro ⟨hyes, _⟩
      exact absurd hyes hstop

/-- A cached answer is right exactly if a stop was met and the prompt was fed to its end. -/
theorem answer_right_iff {cap : ℕ} (hcap : 0 < cap) (buffer : String)
    (hkept : ComputedFrom kv startPos kept)
    (hstart : startPos ≤ promptEnd ctx startPos prompt)
    (hroom : (decoded ctx r startPos prompt buffer).pos ≠ ctx.seqLen) :
    ComputedFrom
        (rowsAfter (rowsAfter kv (prefillOps prompt cap (promptEnd ctx startPos prompt) startPos 0))
          (decoded ctx r startPos prompt buffer).ops)
        (decoded ctx r startPos prompt buffer).pos
        (kept ++ (prompt.tokens ++ (decoded ctx r startPos prompt buffer).tokens)) ↔
      (∃ k, promptEnd ctx startPos prompt + k < maxPred ctx r (promptEnd ctx startPos prompt) ∧
        r.eosType k = .eos) ∧
      some (firstToken r prompt startPos (promptEnd ctx startPos prompt)) =
        prompt.tokens.getLast? := by
  have hend : promptEnd ctx startPos prompt < ctx.seqLen := by
    have hle : promptEnd ctx startPos prompt ≤ ctx.seqLen := Nat.min_le_right _ _
    have hmax : maxPred ctx r (promptEnd ctx startPos prompt) ≤ ctx.seqLen := Nat.min_le_right _ _
    by_contra hnot
    apply hroom
    unfold decoded
    rw [decode_of_not_lt r 0 _ buffer (by omega)]
    omega
  obtain ⟨hpos, hlast⟩ := promptEnd_eq ctx hstart hend
  have hcount : prompt.tokens.length = promptEnd ctx startPos prompt - startPos + 1 := by omega
  exact decode_right_iff hcap _ _ buffer hkept hstart hcount

end Completion

/-- Writes before the prefill. -/
def opening (ctx : ApiContext) (r : Request) (deltaPrompt : List ChatMessage) : List Op :=
  (if r.stream then [.write] else []) ++
    if (ctx.publicPrompt deltaPrompt).isSome ∧ r.stream then [.write] else []

theorem opening_writes (ctx : ApiContext) (r : Request) (deltaPrompt : List ChatMessage) :
    ∀ op ∈ opening ctx r deltaPrompt, op = .write := by
  intro op hop
  unfold opening at hop
  cases List.mem_append.mp hop with
  | inl hmem =>
    split at hmem
    · exact List.mem_singleton.mp hmem
    · cases hmem
  | inr hmem =>
    split at hmem
    · exact List.mem_singleton.mp hmem
    · cases hmem

section Serve

variable {ctx : ApiContext} {s : Server} {r : Request}

/-- Where a request starts. -/
def startOf (s : Server) (r : Request) : ℕ := (delta s r).1

/-- Its prompt. -/
def promptOf (ctx : ApiContext) (s : Server) (r : Request) : PromptTokens :=
  ctx.encode (delta s r).2 ((delta s r).1 = 0)

/-- Its answer. -/
def answerOf (ctx : ApiContext) (s : Server) (r : Request) : Decoded :=
  decoded ctx r (startOf s r) (promptOf ctx s r) ((ctx.publicPrompt (delta s r).2).getD "")

/-- Its parts. -/
def partsOf (ctx : ApiContext) (s : Server) (r : Request) : Completion :=
  completion ctx r (delta s r).1 (delta s r).2

/-- Its prefill. -/
def prefillOf (ctx : ApiContext) (s : Server) (r : Request) : List Op :=
  prefillOps (promptOf ctx s r)
    (resolvePrefillChunkBatchSize ctx (promptEnd ctx (startOf s r) (promptOf ctx s r) - startOf s r))
    (promptEnd ctx (startOf s r) (promptOf ctx s r)) (startOf s r) 0

theorem partsOf_body : (partsOf ctx s r).body =
    opening ctx r (delta s r).2 ++ (prefillOf ctx s r ++ (answerOf ctx s r).ops) := Eq.refl _

theorem partsOf_items : (partsOf ctx s r).items = messageItems
    (promptEnd ctx (startOf s r) (promptOf ctx s r)) (promptOf ctx s r).tokens (delta s r).2 :=
  Eq.refl _

theorem partsOf_finish : ∀ op ∈ (partsOf ctx s r).finish, op = .write := by
  have hfinish : (partsOf ctx s r).finish =
      if r.stream then [.write, .write, .write] else [.write] := Eq.refl _
  intro op hop
  rw [hfinish] at hop
  split at hop
  · cases List.mem_cons.mp hop with
    | inl heq => exact heq
    | inr hmem =>
      cases List.mem_cons.mp hmem with
      | inl heq => exact heq
      | inr hlast => exact List.mem_singleton.mp hlast
  · exact List.mem_singleton.mp hop

theorem partsOf_quiet : Quiet (partsOf ctx s r).body := by
  intro op hop
  rw [partsOf_body] at hop
  cases List.mem_append.mp hop with
  | inl hwrite =>
    rw [opening_writes ctx r _ op hwrite]
    exact Op.quiet_of_canThrow (Or.inl (Eq.refl _))
  | inr hrest =>
    cases List.mem_append.mp hrest with
    | inl hprefill => exact prefillOps_quiet _ _ _ _ _ op hprefill
    | inr hdecode => exact decode_quiet _ _ _ _ _ _ op hdecode

/-- The server when the messages of a request are cached. -/
def cachedServer (ctx : ApiContext) (s : Server) (r : Request) : Server :=
  { s with naiveCache := (resolveDeltaPrompt s.naiveCache r.messages).1 ++ (partsOf ctx s r).items }

theorem complete_eq : complete ctx s r = runOps r 0
    ((partsOf ctx s r).body ++ (partsOf ctx s r).cacheAnswer :: (partsOf ctx s r).finish)
    (cachedServer ctx s r) := by
  unfold complete
  exact runOps_items 0 _ _ _

/-- A request that is broken off does not leave the cache right. -/
theorem serve_broken (h : CacheRight s r)
    (hbroken : (runOps r 0 (partsOf ctx s r).body (cachedServer ctx s r)).2 = some .transfer) :
    (serve ctx s r).naiveCache = [] ∨
      ¬ComputedFrom (serve ctx s r).kv (lastEnd (serve ctx s r).naiveCache)
        (said (serve ctx s r).naiveCache) ∧ ¬Whole ctx s r := by
  obtain ⟨hkept, hnone⟩ := h.kept
  have hserve : serve ctx s r = (runOps r 0 (partsOf ctx s r).body (cachedServer ctx s r)).1 := by
    rw [serve_eq, complete_eq, runOps_append_of_fault (Prod.ext (Eq.refl _) hbroken)]
    exact if_neg (by intro heq; cases heq)
  have hcache : (serve ctx s r).naiveCache =
      (resolveDeltaPrompt s.naiveCache r.messages).1 ++ (partsOf ctx s r).items := by
    rw [hserve, runOps_quiet partsOf_quiet]
    exact Eq.refl _
  by_cases hmessages : (delta s r).2 = []
  · left
    rw [hcache, hnone hmessages, partsOf_items, hmessages]
    exact Eq.refl _
  · right
    rw [hcache, partsOf_items,
      lastEnd_append (messageItems_ne_nil hmessages) endPos_messageItems, said_append,
      said_messageItems _ _ hmessages]
    constructor
    · intro hright
      have hlength := hright.1
      rw [List.length_append, hkept.1] at hlength
      exact promptEnd_ne ctx _ _ hlength
    · intro hwhole
      refine runOps_of_no_fault partsOf_quiet (fun j hj => ?_) hbroken
      rw [Nat.zero_add]
      exact hwhole.unbroken j hj

/-- A prompt that ends behind the start fails. -/
theorem startOf_le (hfail : .fail ∉ (partsOf ctx s r).body) :
    startOf s r ≤ promptEnd ctx (startOf s r) (promptOf ctx s r) := by
  by_contra hlt
  apply hfail
  have hops : prefillOf ctx s r = [.fail] := by
    unfold prefillOf prefillOps
    exact if_pos (by omega)
  rw [partsOf_body, hops]
  exact List.mem_append_right _ (List.mem_append_left _ List.mem_cons_self)

theorem rowsAfter_body (kv : ℕ → Row) : rowsAfter kv (partsOf ctx s r).body =
    rowsAfter (rowsAfter kv (prefillOf ctx s r)) (answerOf ctx s r).ops := by
  rw [partsOf_body, rowsAfter_append, rowsAfter_writes (opening_writes ctx r _), rowsAfter_append]

/-- An answer as it is cached, with the tokens before it. -/
def itemOf (d : Decoded) (tokens : List Token) : NaiveCacheItem :=
  ⟨d.pos, ⟨"assistant", d.buffer⟩, tokens ++ d.tokens⟩

theorem itemOf_endPos (d : Decoded) (tokens : List Token) : (itemOf d tokens).endPos = d.pos :=
  Eq.refl _

theorem itemOf_tokens (d : Decoded) (tokens : List Token) :
    (itemOf d tokens).tokens = tokens ++ d.tokens := Eq.refl _

/-- The answer of a request as it is cached. -/
def answerItem (ctx : ApiContext) (s : Server) (r : Request) : NaiveCacheItem :=
  itemOf (answerOf ctx s r) (if (delta s r).2 = [] then (promptOf ctx s r).tokens else [])

theorem partsOf_cacheAnswer : (partsOf ctx s r).cacheAnswer =
    if (answerOf ctx s r).pos = ctx.seqLen then .clear else .push (answerItem ctx s r) := Eq.refl _

theorem answerItem_endPos : (answerItem ctx s r).endPos = (answerOf ctx s r).pos := by
  unfold answerItem
  exact itemOf_endPos _ _

theorem answerItem_tokens : (answerItem ctx s r).tokens =
    (if (delta s r).2 = [] then (promptOf ctx s r).tokens else []) ++ (answerOf ctx s r).tokens := by
  unfold answerItem
  exact itemOf_tokens _ _

/-- The messages and the answer of a request stand for its prompt and its answer. -/
theorem said_request :
    said ((cachedServer ctx s r).naiveCache ++ [answerItem ctx s r]) =
      said (resolveDeltaPrompt s.naiveCache r.messages).1 ++
        ((promptOf ctx s r).tokens ++ (answerOf ctx s r).tokens) := by
  have hone : said [answerItem ctx s r] = (answerItem ctx s r).tokens := by
    unfold said
    rw [List.flatMap_cons, List.flatMap_nil, List.append_nil]
  have hcache : (cachedServer ctx s r).naiveCache =
      (resolveDeltaPrompt s.naiveCache r.messages).1 ++ (partsOf ctx s r).items := Eq.refl _
  have hnil (endPos : ℕ) (tokens : List Token) : said (messageItems endPos tokens []) = [] :=
    Eq.refl _
  rw [said_append, hone, hcache, said_append, partsOf_items, List.append_assoc, answerItem_tokens]
  by_cases hmessages : (delta s r).2 = []
  · rw [if_pos hmessages, hmessages, hnil, List.nil_append]
  · rw [if_neg hmessages, said_messageItems _ _ hmessages, List.nil_append]

/-- A request that caches its answer leaves the cache right if it met a stop and fed its prompt
to the end. -/
theorem serve_answered (h : CacheRight s r)
    (hend : (runOps r 0 (partsOf ctx s r).body (cachedServer ctx s r)).2 = none) :
    (serve ctx s r).naiveCache = [] ∨
      (ComputedFrom (serve ctx s r).kv (lastEnd (serve ctx s r).naiveCache)
        (said (serve ctx s r).naiveCache) ↔ Whole ctx s r) := by
  obtain ⟨hfault, hfail, hmore⟩ := runOps_none partsOf_quiet hend
  have hcomplete := (@complete_eq ctx s r).trans (hmore _)
  by_cases hfatal : (complete ctx s r).2 = some .fatal
  · left
    rw [serve_eq, if_pos hfatal]
    exact Eq.refl _
  have hserve : serve ctx s r = (complete ctx s r).1 := by
    rw [serve_eq, if_neg hfatal]
  by_cases hfull : (answerOf ctx s r).pos = ctx.seqLen
  · left
    rw [partsOf_cacheAnswer, if_pos hfull] at hcomplete
    rw [hserve, hcomplete]
    exact congrArg Server.naiveCache (runOps_writes partsOf_finish _ _)
  · right
    rw [partsOf_cacheAnswer, if_neg hfull, runOps_push] at hcomplete
    have hserver : serve ctx s r =
        ⟨rowsAfter s.kv (partsOf ctx s r).body,
          (cachedServer ctx s r).naiveCache ++ [answerItem ctx s r]⟩ := by
      rw [hserve, hcomplete]
      exact runOps_writes partsOf_finish _ _
    have hlast : lastEnd ((cachedServer ctx s r).naiveCache ++ [answerItem ctx s r]) =
        (answerOf ctx s r).pos := by
      apply lastEnd_append
      · intro hnil
        cases hnil
      · intro item hitem
        rw [List.mem_singleton.mp hitem, answerItem_endPos]
    rw [hserver, hlast, said_request, rowsAfter_body]
    have hcap := resolvePrefillChunkBatchSize_pos ctx
      (promptEnd ctx (startOf s r) (promptOf ctx s r) - startOf s r)
    have hright := answer_right_iff (r := r) hcap
      ((ctx.publicPrompt (delta s r).2).getD "") h.kept.1 (startOf_le hfail) hfull
    constructor
    · intro hcomputed
      obtain ⟨hstop, htoken⟩ := hright.mp hcomputed
      refine ⟨fun k hk => ?_, hstop, htoken⟩
      have hnone := hfault k hk
      rw [Nat.zero_add] at hnone
      exact hnone
    · intro hwhole
      exact hright.mpr ⟨hwhole.stopped, hwhole.lastToken⟩

/-- A request on a cache that is right, or that it does not use, leaves the cache empty, or
right exactly if it was whole. -/
theorem serve_right_iff (h : CacheRight s r) :
    (serve ctx s r).naiveCache = [] ∨
      (ComputedFrom (serve ctx s r).kv (lastEnd (serve ctx s r).naiveCache)
        (said (serve ctx s r).naiveCache) ↔ Whole ctx s r) := by
  cases hbody : (runOps r 0 (partsOf ctx s r).body (cachedServer ctx s r)).2 with
  | none => exact serve_answered h hbody
  | some fault =>
    cases fault with
    | transfer =>
      cases serve_broken h hbody with
      | inl hnil => exact Or.inl hnil
      | inr hboth => exact Or.inr ⟨fun hright => absurd hright hboth.1,
          fun hwhole => absurd hwhole hboth.2⟩
    | fatal =>
      left
      rw [serve_eq, complete_eq, runOps_append_of_fault (Prod.ext (Eq.refl _) hbody),
        if_pos (Eq.refl _)]
      exact Eq.refl _

end Serve

/-! ### Runs -/

/-- An accepted request is right exactly if the cached messages are. -/
theorem cacheRight_of_accepts {s : Server} {r : Request} (h : Accepts s r) :
    s.naiveCache ≠ [] ∧
      (CacheRight s r ↔ ComputedFrom s.kv (lastEnd s.naiveCache) (said s.naiveCache)) := by
  unfold Accepts at h
  obtain ⟨deltaPrompt, hresolve, _, hne⟩ | hresolve :=
    resolveDeltaPrompt_cases s.naiveCache r.messages
  · refine ⟨hne, fun hright => hright _ deltaPrompt (by rw [hresolve]), ?_⟩
    intro hcomputed startPos messages hsome
    rw [hresolve] at hsome
    injection hsome with hpair
    injection hpair with hstart _
    rw [← hstart]
    exact hcomputed
  · rw [hresolve] at h
    cases h

theorem cacheRight_of_not_accepts {s : Server} {r : Request} (h : ¬Accepts s r) :
    CacheRight s r := by
  intro startPos deltaPrompt hsome
  unfold Accepts at h
  rw [hsome] at h
  exact absurd (Eq.refl _) h

/-- In a run the cache is right whenever it is used exactly if every request that uses it
follows a whole one. -/
theorem cache_right_iff (ctx : ApiContext) (requests : ℕ → Request) :
    (∀ i, CacheRight (serverAt ctx requests i) (requests i)) ↔
      ∀ i, Accepts (serverAt ctx requests (i + 1)) (requests (i + 1)) →
        Whole ctx (serverAt ctx requests i) (requests i) := by
  constructor
  · intro hright i haccepts
    obtain ⟨hne, hiff⟩ := cacheRight_of_accepts haccepts
    cases (@serve_right_iff ctx _ _ (hright i)) with
    | inl hnil => exact absurd hnil hne
    | inr hwhole => exact hwhole.mp (hiff.mp (hright (i + 1)))
  · intro hwhole i
    induction i with
    | zero =>
      apply cacheRight_of_not_accepts
      intro haccepts
      cases haccepts
    | succ i ih =>
      by_cases haccepts : Accepts (serverAt ctx requests (i + 1)) (requests (i + 1))
      · obtain ⟨hne, hiff⟩ := cacheRight_of_accepts haccepts
        cases (@serve_right_iff ctx _ _ ih) with
        | inl hnil => exact absurd hnil hne
        | inr hright => exact hiff.mpr (hright.mpr (hwhole i haccepts))
      · exact cacheRight_of_not_accepts haccepts

/-- A small server: every prompt is three tokens. -/
def smallContext : ApiContext where
  seqLen := 16
  seqLen_pos := by decide
  seqLen_lt := by decide
  nBatches := 4
  ppSize := 1
  prefillChunkThreshold := 0
  prefillChunkSize := 0
  encode _ _ := ⟨[1, 2, 3], by decide, fun _ => 3⟩
  publicPrompt _ := none

/-- The client of the first request is gone when its answer begins; the second one goes on with
its message. -/
def brokenOff (i : ℕ) : Request where
  messages := if i = 0 then [⟨"user", "a"⟩] else [⟨"user", "a"⟩, ⟨"user", "b"⟩]
  stream := true
  maxTokens := -1
  token := 0
  sample _ := 0
  eosType _ := .eos
  delta _ := none
  fault _ := if i = 0 then some .transfer else none
  torn _ := []

theorem cache_wrong_after_broken_request :
    ¬∀ (ctx : ApiContext) (requests : ℕ → Request) (i : ℕ),
      CacheRight (serverAt ctx requests i) (requests i) := by
  intro h
  have hright := h smallContext brokenOff 1 2 [⟨"user", "b"⟩] (by decide +kernel)
  have hlength := hright.1
  have hsaid : said (serverAt smallContext brokenOff 1).naiveCache = [1, 2, 3] := by decide +kernel
  rw [hsaid] at hlength
  cases hlength

end LayerSkip.NaiveCache
