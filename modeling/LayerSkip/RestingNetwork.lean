import LayerSkip.StreamNetwork

/-!
# Networks between two transfers

A network whose parties are all idle and whose links are empty is given by the memories and by what
is left of the programs. From one such network a party computes, a pair exchanges data, or a party
serves several others, and the next one is reached.
-/

namespace LayerSkip.RestingNetwork

open StreamNetwork Relation

variable {Node Mem α : Type*} [DecidableEq Node]

/-- All parties are idle and nothing is on its way. -/
def atRest (mem : Node → Mem) (prog : Node → List (Block Node Mem α)) : Net Node Mem α where
  party := fun p => ⟨mem p, .idle, prog p⟩
  link := fun _ => []

omit [DecidableEq Node] in
theorem atRest_party {mem : Node → Mem} {prog : Node → List (Block Node Mem α)} {p : Node}
    {rest : List (Block Node Mem α)} (h : prog p = rest) :
    (atRest mem prog).party p = ⟨mem p, .idle, rest⟩ := by
  rw [← h]
  exact Eq.refl _

theorem atRest_setParty (mem : Node → Mem) (prog : Node → List (Block Node Mem α)) (p : Node)
    (m : Mem) (rest : List (Block Node Mem α)) :
    (atRest mem prog).setParty p ⟨m, .idle, rest⟩ =
      atRest (Function.update mem p m) (Function.update prog p rest) := by
  apply Net.ext
  · funext q
    by_cases hq : q = p
    · rw [hq]
      simp [atRest]
    · simp [atRest, hq]
  · exact Eq.refl _

/-- A party that needs nothing computes. -/
theorem reach_compute (cap : ℕ) {mem : Node → Mem} {prog : Node → List (Block Node Mem α)} {p : Node}
    {need : Mem → Node → ℕ} {use : Mem → (Node → List α) → Mem} {rest : List (Block Node Mem α)}
    (hprog : prog p = .read need use :: rest) (hneed : ∀ q, need (mem p) q = 0) :
    ReflTransGen (Step cap) (atRest mem prog)
      (atRest (Function.update mem p (use (mem p) fun _ => [])) (Function.update prog p rest)) := by
  have hparty : (atRest mem prog).party p = ⟨mem p, .idle, .read need use :: rest⟩ :=
    atRest_party hprog
  have hstart : Step cap (atRest mem prog)
      ((atRest mem prog).setParty p ⟨mem p, (Block.read need use).open (mem p), rest⟩) :=
    ⟨_, .start hparty⟩
  have hfinish := Fire.endRead cap (atRest mem prog) p (mem p) (fun _ => []) use rest hneed
  rw [atRest_setParty] at hfinish
  exact (ReflTransGen.single hstart).tail ⟨_, hfinish⟩

/-- A party that has nothing to send goes on. -/
theorem reach_silent (cap : ℕ) {mem : Node → Mem} {prog : Node → List (Block Node Mem α)} {p : Node}
    {data : Mem → Node → List α} {rest : List (Block Node Mem α)}
    (hprog : prog p = .write data :: rest) (hdata : ∀ q, data (mem p) q = []) :
    ReflTransGen (Step cap) (atRest mem prog) (atRest mem (Function.update prog p rest)) := by
  have hparty : (atRest mem prog).party p = ⟨mem p, .idle, .write data :: rest⟩ :=
    atRest_party hprog
  have hstart : Step cap (atRest mem prog)
      ((atRest mem prog).setParty p ⟨mem p, (Block.write data).open (mem p), rest⟩) :=
    ⟨_, .start hparty⟩
  have hfinish := Fire.endWrite cap (atRest mem prog) p (mem p) rest hdata
  rw [atRest_setParty, Function.update_eq_self] at hfinish
  exact (ReflTransGen.single hstart).tail ⟨_, hfinish⟩

/-- Blocks that a party runs by itself, and what they leave of its memory. -/
inductive Solo : Mem → List (Block Node Mem α) → Mem → Prop
  /-- Nothing is left. -/
  | nil (m : Mem) : Solo m [] m
  /-- It needs nothing. -/
  | compute {m m' : Mem} {need : Mem → Node → ℕ} {use : Mem → (Node → List α) → Mem}
      {blocks : List (Block Node Mem α)} (hneed : ∀ q, need m q = 0)
      (h : Solo (use m fun _ => []) blocks m') : Solo m (.read need use :: blocks) m'
  /-- It has nothing to send. -/
  | silent {m m' : Mem} {data : Mem → Node → List α} {blocks : List (Block Node Mem α)}
      (hdata : ∀ q, data m q = []) (h : Solo m blocks m') : Solo m (.write data :: blocks) m'

/-- A party runs some blocks by itself. -/
theorem reach_solo (cap : ℕ) {m m' : Mem} {blocks : List (Block Node Mem α)}
    (h : Solo m blocks m') {mem : Node → Mem} {prog : Node → List (Block Node Mem α)} {p : Node}
    {rest : List (Block Node Mem α)} (hm : mem p = m) (hprog : prog p = blocks ++ rest) :
    ReflTransGen (Step cap) (atRest mem prog)
      (atRest (Function.update mem p m') (Function.update prog p rest)) := by
  induction h generalizing mem prog with
  | nil m =>
    rw [← hm, Function.update_eq_self, ← List.nil_append rest, ← hprog, Function.update_eq_self]
  | compute hneed _ ih =>
    have hstep := reach_compute cap hprog fun q => hm ▸ hneed q
    have hmore := ih (Function.update_self p _ mem) (Function.update_self p _ prog)
    rw [Function.update_idem, Function.update_idem] at hmore
    rw [hm] at hstep
    exact hstep.trans hmore
  | silent hdata _ ih =>
    have hstep := reach_silent cap hprog fun q => hm ▸ hdata q
    have hmore := ih hm (Function.update_self p _ prog)
    rw [Function.update_idem] at hmore
    exact hstep.trans hmore

/-- One party sends to one other. -/
theorem reach_exchange {cap : ℕ} (hcap : 0 < cap) {mem : Node → Mem}
    {prog : Node → List (Block Node Mem α)} {w r : Node} (hwr : w ≠ r) {data : Mem → Node → List α}
    {need : Mem → Node → ℕ} {use : Mem → (Node → List α) → Mem}
    {rest more : List (Block Node Mem α)} (hw : prog w = .write data :: rest)
    (hr : prog r = .read need use :: more) (hdata : ∀ q, q ≠ r → data (mem w) q = [])
    (hneed : ∀ q, q ≠ w → need (mem r) q = 0)
    (hlength : need (mem r) w = (data (mem w) r).length) :
    ReflTransGen (Step cap) (atRest mem prog)
      (atRest (Function.update mem r
          (use (mem r) (Function.update (fun _ => []) w (data (mem w) r))))
        (Function.update (Function.update prog w rest) r more)) := by
  have hsender : (atRest mem prog).party w = ⟨mem w, .idle, .write data :: rest⟩ :=
    atRest_party hw
  have hreceiver : (atRest mem prog).party r = ⟨mem r, .idle, .read need use :: more⟩ :=
    atRest_party hr
  have hrun := exchange hcap hwr hsender hreceiver hdata hneed hlength (Eq.refl _)
  rw [atRest_setParty, Function.update_eq_self, atRest_setParty] at hrun
  exact hrun

/-- A party in the middle of its transfer serves others one by one. -/
theorem reach_serve {cap : ℕ} (hcap : 0 < cap) {r : Node} (m : Mem) (rest : List (Block Node Mem α))
    {need : Node → Mem → Node → ℕ} {use : Node → Mem → (Node → List α) → Mem}
    {more : Node → List (Block Node Mem α)} {ws : List Node} (hnodup : ws.Nodup) (hr : r ∉ ws)
    {mem : Node → Mem} {prog : Node → List (Block Node Mem α)} (todo : Node → List α)
    (hprog : ∀ w ∈ ws, prog w = .read (need w) (use w) :: more w)
    (hneed : ∀ w ∈ ws, ∀ q, q ≠ r → need w (mem w) q = 0)
    (hlength : ∀ w ∈ ws, need w (mem w) r = (todo w).length) :
    ReflTransGen (Step cap) ((atRest mem prog).setParty r ⟨m, .writing todo, rest⟩)
      ((atRest (fun p => if p ∈ ws then
            use p (mem p) (Function.update (fun _ => []) r (todo p)) else mem p)
          (fun p => if p ∈ ws then more p else prog p)).setParty r
        ⟨m, .writing fun q => if q ∈ ws then [] else todo q, rest⟩) := by
  induction ws generalizing mem prog todo with
  | nil =>
    simp only [List.not_mem_nil, if_false]
    exact .refl
  | cons w ws ih =>
    obtain ⟨hnew, hrest⟩ := List.nodup_cons.mp hnodup
    have hne : w ≠ r := fun h => hr (h ▸ List.mem_cons_self)
    have hsender : ((atRest mem prog).setParty r ⟨m, .writing todo, rest⟩).party r =
        ⟨m, .writing todo, rest⟩ := Function.update_self _ _ _
    have hreceiver : ((atRest mem prog).setParty r ⟨m, .writing todo, rest⟩).party w =
        ⟨mem w, .idle, .read (need w) (use w) :: more w⟩ := by
      rw [Net.setParty_party_of_ne _ hne]
      exact atRest_party (hprog w List.mem_cons_self)
    have hone := scatter_one hcap hne hreceiver hsender (hneed w List.mem_cons_self)
      (hlength w List.mem_cons_self) (Eq.refl _)
    rw [Net.setParty_comm _ hne.symm, Net.setParty_setParty, atRest_setParty] at hone
    refine hone.trans ?_
    have hother {v : Node} (hv : v ∈ ws) : v ≠ w := fun h => hnew (h ▸ hv)
    have hmore := @ih hrest (fun h => hr (List.mem_cons_of_mem w h))
      (Function.update mem w (use w (mem w) (Function.update (fun _ => []) r (todo w))))
      (Function.update prog w (more w)) (Function.update todo w [])
      (fun v hv => by rw [Function.update_of_ne (hother hv), hprog v (List.mem_cons_of_mem w hv)])
      (fun v hv q hq => by
        rw [Function.update_of_ne (hother hv)]
        exact hneed v (List.mem_cons_of_mem w hv) q hq)
      (fun v hv => by
        rw [Function.update_of_ne (hother hv), Function.update_of_ne (hother hv)]
        exact hlength v (List.mem_cons_of_mem w hv))
    convert hmore using 2
    · congr 1
      · funext p
        by_cases hp : p = w
        · rw [hp]
          simp [hnew]
        · simp [hp]
      · funext p
        by_cases hp : p = w
        · rw [hp]
          simp [hnew]
        · simp [hp]
    · congr 2
      funext q
      by_cases hq : q = w
      · rw [hq]
        simp [hnew]
      · simp [hq]

/-- A party serves several others in one transfer. -/
theorem reach_scatter {cap : ℕ} (hcap : 0 < cap) {r : Node} {data : Mem → Node → List α}
    {rest : List (Block Node Mem α)} {need : Node → Mem → Node → ℕ}
    {use : Node → Mem → (Node → List α) → Mem} {more : Node → List (Block Node Mem α)}
    {ws : List Node} (hnodup : ws.Nodup) (hr : r ∉ ws) {mem : Node → Mem}
    {prog : Node → List (Block Node Mem α)} (hsender : prog r = .write data :: rest)
    (hdata : ∀ q, q ∉ ws → data (mem r) q = [])
    (hprog : ∀ w ∈ ws, prog w = .read (need w) (use w) :: more w)
    (hneed : ∀ w ∈ ws, ∀ q, q ≠ r → need w (mem w) q = 0)
    (hlength : ∀ w ∈ ws, need w (mem w) r = (data (mem r) w).length) :
    ReflTransGen (Step cap) (atRest mem prog)
      (atRest (fun p => if p ∈ ws then
          use p (mem p) (Function.update (fun _ => []) r (data (mem r) p)) else mem p)
        (fun p => if p = r then rest else if p ∈ ws then more p else prog p)) := by
  have hparty : (atRest mem prog).party r = ⟨mem r, .idle, .write data :: rest⟩ :=
    atRest_party hsender
  have hstart : Step cap (atRest mem prog)
      ((atRest mem prog).setParty r ⟨mem r, (Block.write data).open (mem r), rest⟩) :=
    ⟨_, .start hparty⟩
  have hserve := reach_serve hcap (mem r) rest hnodup hr (data (mem r)) hprog hneed hlength
  have hempty : ∀ q, (if q ∈ ws then [] else data (mem r) q) = [] := by
    intro q
    by_cases hq : q ∈ ws
    · rw [if_pos hq]
    · rw [if_neg hq, hdata q hq]
  have hfinish := Fire.endWrite cap (atRest (fun p => if p ∈ ws then
      use p (mem p) (Function.update (fun _ => []) r (data (mem r) p)) else mem p)
    (fun p => if p ∈ ws then more p else prog p)) r (mem r) rest hempty
  rw [atRest_setParty] at hfinish
  have hsame : atRest (Function.update (fun p => if p ∈ ws then
        use p (mem p) (Function.update (fun _ => []) r (data (mem r) p)) else mem p) r (mem r))
      (Function.update (fun p => if p ∈ ws then more p else prog p) r rest) =
      atRest (fun p => if p ∈ ws then
          use p (mem p) (Function.update (fun _ => []) r (data (mem r) p)) else mem p)
        (fun p => if p = r then rest else if p ∈ ws then more p else prog p) := by
    congr 1
    · funext p
      by_cases hp : p = r
      · rw [hp]
        simp [hr]
      · simp [hp]
    · funext p
      by_cases hp : p = r
      · rw [hp]
        simp
      · simp [hp]
  rw [hsame] at hfinish
  exact (ReflTransGen.head hstart hserve).tail ⟨_, hfinish⟩

end LayerSkip.RestingNetwork
