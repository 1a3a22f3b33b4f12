import LayerSkip.RandomDescent
import Mathlib.Data.List.Basic
import Mathlib.Data.Vector.Basic
import Mathlib.Logic.Function.Basic

/-!
# Parties whose reads decide what comes next

A party is a process that writes data to a peer or reads so many bytes from one and goes on
with what it has read. Links are ordered queues of bounded length and a step moves one byte.
Processes are composed with `bind`, and so are the talks of two parties.
-/

namespace LayerSkip.ByteSession

open RandomDescent Relation

/-- A process with a result. -/
inductive Proc (Node β ρ : Type)
  /-- The end. -/
  | done (result : ρ)
  /-- A failure with its text. -/
  | stop (text : String)
  /-- Write data to a peer. -/
  | write (peer : Node) (data : List β) (next : Proc Node β ρ)
  /-- Read so many bytes from a peer. -/
  | read (peer : Node) (bytes : ℕ) (next : List.Vector β bytes → Proc Node β ρ)

variable {Node β α γ ρ : Type}

/-- One process after the other. -/
def Proc.bind : Proc Node β α → (α → Proc Node β ρ) → Proc Node β ρ
  | .done a, k => k a
  | .stop text, _ => .stop text
  | .write peer data next, k => .write peer data (next.bind k)
  | .read peer bytes next, k => .read peer bytes fun got => (next got).bind k

instance : Monad (Proc Node β) where
  pure := .done
  bind := .bind

theorem Proc.bind_assoc (p : Proc Node β α) (f : α → Proc Node β γ) (k : γ → Proc Node β ρ) :
    (p.bind f).bind k = p.bind fun a => (f a).bind k := by
  induction p with
  | done a => exact Eq.refl _
  | stop text => exact Eq.refl _
  | write peer data next ih => exact congrArg (Proc.write peer data) ih
  | read peer bytes next ih => exact congrArg (Proc.read peer bytes) (funext ih)

/-- The parties and the bytes in flight from the first to the second of a pair. -/
structure Net (Node β ρ : Type) where
  /-- Processes. -/
  proc : Node → Proc Node β ρ
  /-- Bytes in flight. -/
  link : Node × Node → List β

variable [DecidableEq Node]

/-- Hand a byte to a link that has room, or take one from it, or go on. -/
def Proc.move (cap : ℕ) (p : Node) (link : Node × Node → List β) :
    Proc Node β ρ → Option (Proc Node β ρ × (Node × Node → List β))
  | .done _ => none
  | .stop _ => none
  | .write _ [] next => some (next, link)
  | .write q (b :: bs) next =>
    if (link (p, q)).length < cap then
      some (.write q bs next, Function.update link (p, q) (link (p, q) ++ [b]))
    else none
  | .read _ 0 next => some (next .nil, link)
  | .read q (bytes + 1) next =>
    match link (q, p) with
    | [] => none
    | b :: bs => some (.read q bytes fun got => next (b ::ᵥ got), Function.update link (q, p) bs)

/-- A step of one party. -/
def Fire (cap : ℕ) (n : Net Node β ρ) (p : Node) (n' : Net Node β ρ) : Prop :=
  ∃ x link, (n.proc p).move cap p n.link = some (x, link) ∧ n' = ⟨Function.update n.proc p x, link⟩

/-- A step. -/
def Step (cap : ℕ) (n n' : Net Node β ρ) : Prop := ∃ p, Fire cap n p n'

variable {cap : ℕ}

theorem move_write_cons (p q : Node) (link : Node × Node → List β) (b : β) (bs : List β)
    (next : Proc Node β ρ) : (Proc.write q (b :: bs) next).move cap p link =
      if (link (p, q)).length < cap then
        some (.write q bs next, Function.update link (p, q) (link (p, q) ++ [b]))
      else none := Eq.refl _

theorem move_read_succ (cap : ℕ) {p q : Node} {link : Node × Node → List β} {b : β} {bs : List β}
    {bytes : ℕ} (next : List.Vector β (bytes + 1) → Proc Node β ρ) (h : link (q, p) = b :: bs) :
    (Proc.read q (bytes + 1) next).move cap p link =
      some (.read q bytes fun got => next (b ::ᵥ got), Function.update link (q, p) bs) := by
  unfold Proc.move
  dsimp only
  rw [h]

/-- What a move does to the links: nothing, a byte put at the end of an own one or a byte taken
from the front of one to the party. The move depends on nothing else. -/
theorem move_cases {p : Node} {link link' : Node × Node → List β} {x x' : Proc Node β ρ}
    (h : x.move cap p link = some (x', link')) :
    (link' = link ∧ ∀ l, x.move cap p l = some (x', l)) ∨
      (∃ q b, (link (p, q)).length < cap ∧
        link' = Function.update link (p, q) (link (p, q) ++ [b]) ∧
        ∀ l, (l (p, q)).length < cap →
          x.move cap p l = some (x', Function.update l (p, q) (l (p, q) ++ [b]))) ∨
      ∃ q b bs, link (q, p) = b :: bs ∧ link' = Function.update link (q, p) bs ∧
        ∀ l bs', l (q, p) = b :: bs' →
          x.move cap p l = some (x', Function.update l (q, p) bs') := by
  cases x with
  | done a => cases h
  | stop text => cases h
  | write q data next =>
    cases data with
    | nil =>
      cases h
      exact Or.inl ⟨Eq.refl _, fun _ => Eq.refl _⟩
    | cons b bs =>
      rw [move_write_cons] at h
      split at h
      · cases h
        exact Or.inr (Or.inl ⟨q, b, ‹_›, Eq.refl _, fun l hl => if_pos hl⟩)
      · cases h
  | read q bytes next =>
    cases bytes with
    | zero =>
      cases h
      exact Or.inl ⟨Eq.refl _, fun _ => Eq.refl _⟩
    | succ bytes =>
      cases hlink : link (q, p) with
      | nil =>
        unfold Proc.move at h
        dsimp only at h
        rw [hlink] at h
        cases h
      | cons b bs =>
        rw [move_read_succ cap next hlink] at h
        cases h
        exact Or.inr (Or.inr ⟨q, b, bs, hlink, Eq.refl _, fun l bs' hl => move_read_succ cap next hl⟩)

/-- Moves of two parties can be made in either order. -/
theorem move_comm {p q : Node} (hne : p ≠ q) {link lp lq : Node × Node → List β}
    {x x' y y' : Proc Node β ρ} (hx : x.move cap p link = some (x', lp))
    (hy : y.move cap q link = some (y', lq)) :
    ∃ l, x.move cap p lq = some (x', l) ∧ y.move cap q lp = some (y', l) := by
  obtain ⟨hlp, hmove⟩ | ⟨r, b, hroom, hlp, hmove⟩ | ⟨r, b, bs, hlink, hlp, hmove⟩ := move_cases hx
  · rw [hlp]
    exact ⟨lq, hmove lq, hy⟩
  · obtain ⟨hlq, hmove'⟩ | ⟨r', b', hroom', hlq, hmove'⟩ | ⟨r', b', bs', hlink', hlq, hmove'⟩ :=
      move_cases hy
    · rw [hlq]
      exact ⟨lp, hx, hmove' lp⟩
    · have hedge : (p, r) ≠ (q, r') := fun heq => hne (congrArg Prod.fst heq)
      have hp : lq (p, r) = link (p, r) := by rw [hlq, Function.update_of_ne hedge]
      have hq : lp (q, r') = link (q, r') := by rw [hlp, Function.update_of_ne (Ne.symm hedge)]
      refine ⟨_, hmove lq (hp ▸ hroom), ?_⟩
      rw [hmove' lp (hq ▸ hroom'), hp, hq, hlp, hlq, Function.update_comm hedge]
    · by_cases hedge : (p, r) = (r', q)
      · cases hedge
        have hp : lq (p, q) = bs' := by rw [hlq, Function.update_self]
        have hq : lp (p, q) = b' :: (bs' ++ [b]) := by
          rw [hlp, Function.update_self, hlink', List.cons_append]
        have hfree : (lq (p, q)).length < cap := by
          rw [hlink', List.length_cons] at hroom
          rw [hp]
          omega
        refine ⟨_, hmove lq hfree, ?_⟩
        rw [hmove' lp _ hq, hp, hlp, hlq, Function.update_idem, Function.update_idem]
      · have hp : lq (p, r) = link (p, r) := by rw [hlq, Function.update_of_ne hedge]
        have hq : lp (r', q) = b' :: bs' := by
          rw [hlp, Function.update_of_ne (Ne.symm hedge), hlink']
        refine ⟨_, hmove lq (hp ▸ hroom), ?_⟩
        rw [hmove' lp _ hq, hp, hlp, hlq, Function.update_comm hedge]
  · obtain ⟨hlq, hmove'⟩ | ⟨r', b', hroom', hlq, hmove'⟩ | ⟨r', b', bs', hlink', hlq, hmove'⟩ :=
      move_cases hy
    · rw [hlq]
      exact ⟨lp, hx, hmove' lp⟩
    · by_cases hedge : (q, r') = (r, p)
      · cases hedge
        have hp : lq (q, p) = b :: (bs ++ [b']) := by
          rw [hlq, Function.update_self, hlink, List.cons_append]
        have hq : lp (q, p) = bs := by rw [hlp, Function.update_self]
        have hfree : (lp (q, p)).length < cap := by
          rw [hlink, List.length_cons] at hroom'
          rw [hq]
          omega
        refine ⟨_, hmove lq _ hp, ?_⟩
        rw [hmove' lp hfree, hq, hlp, hlq, Function.update_idem, Function.update_idem]
      · have hp : lq (r, p) = b :: bs := by rw [hlq, Function.update_of_ne (Ne.symm hedge), hlink]
        have hq : lp (q, r') = link (q, r') := by rw [hlp, Function.update_of_ne hedge]
        refine ⟨_, hmove lq _ hp, ?_⟩
        rw [hmove' lp (hq ▸ hroom'), hq, hlp, hlq, Function.update_comm hedge]
    · have hedge : (r, p) ≠ (r', q) := fun heq => hne (congrArg Prod.snd heq)
      have hp : lq (r, p) = b :: bs := by rw [hlq, Function.update_of_ne hedge, hlink]
      have hq : lp (r', q) = b' :: bs' := by
        rw [hlp, Function.update_of_ne (Ne.symm hedge), hlink']
      refine ⟨_, hmove lq _ hp, ?_⟩
      rw [hmove' lp _ hq, hlp, hlq, Function.update_comm hedge]

/-- Two steps agree or meet again after the other one. -/
theorem diamond (cap : ℕ) : Diamond (Step cap : Net Node β ρ → Net Node β ρ → Prop) := by
  intro n a b ⟨p, x, lp, hx, ha⟩ ⟨q, y, lq, hy, hb⟩
  by_cases hpq : p = q
  · rw [← hpq, hx] at hy
    injection hy with hsame
    injection hsame with hproc hlink
    rw [ha, hb, ← hpq, hproc, hlink]
    exact Or.inl (Eq.refl _)
  · obtain ⟨l, hp, hq⟩ := move_comm hpq hx hy
    refine Or.inr ⟨⟨Function.update (Function.update n.proc p x) q y, l⟩, ⟨q, y, l, ?_, ?_⟩,
      ⟨p, x, l, ?_, ?_⟩⟩
    · rw [ha]
      dsimp only
      rw [Function.update_of_ne (Ne.symm hpq)]
      exact hq
    · rw [ha]
    · rw [hb]
      dsimp only
      rw [Function.update_of_ne hpq]
      exact hp
    · rw [hb, Function.update_comm hpq]

/-- No party can go on. -/
def Done (n : Net Node β ρ) : Prop := ∀ p, ∃ a, n.proc p = .done a

theorem Done.terminal {n : Net Node β ρ} (h : Done n) : Terminal (Step cap) n := by
  intro n' ⟨p, x, link, hmove, _⟩
  obtain ⟨a, ha⟩ := h p
  rw [ha] at hmove
  cases hmove

/-- A schedule in which all parties come to their end decides every schedule. -/
theorem outcome_of_schedule {n f : Net Node β ρ} (h : ReflTransGen (Step cap) n f) (hf : Done f) :
    Outcome (Step cap) n f := by
  obtain ⟨k, hk⟩ := reflTransGen_iff_steps.mp h
  exact .of_steps (diamond cap) hk hf.terminal

/-! ### Talks of two parties -/

section Talks

/-- Run a process on each element. -/
def forEach (l : List γ) (w : γ → Proc Node β Unit) : Proc Node β Unit :=
  match l with
  | [] => .done ()
  | e :: l => (w e).bind fun _ => forEach l w

/-- Run a process so many times. -/
def repeatRead (r : Proc Node β γ) : (count : ℕ) → Proc Node β (List.Vector γ count)
  | 0 => .done .nil
  | count + 1 => r.bind fun e => (repeatRead r count).bind fun es => .done (e ::ᵥ es)

/-- Two processes that find the links between them empty run to their results and leave them
empty. -/
structure Talk (cap : ℕ) (x y : Node) (p : Proc Node β α) (q : Proc Node β γ) (a : α) (c : γ) :
    Prop where
  /-- Whatever comes after the two. -/
  run : ∀ {ρ : Type} (n : Net Node β ρ) (k : α → Proc Node β ρ) (k' : γ → Proc Node β ρ),
    n.proc x = p.bind k → n.proc y = q.bind k' → n.link (x, y) = [] → n.link (y, x) = [] →
    ReflTransGen (Step cap) n ⟨Function.update (Function.update n.proc x (k a)) y (k' c), n.link⟩

variable {x y : Node} (hcap : 0 < cap) (hne : x ≠ y)

theorem step_of_move {n : Net Node β ρ} {p : Node} {next : Proc Node β ρ}
    {link : Node × Node → List β} (h : (n.proc p).move cap p n.link = some (next, link)) :
    Step cap n ⟨Function.update n.proc p next, link⟩ := ⟨p, next, link, h, Eq.refl _⟩

include hne in
theorem update_twice {δ : Type} (f : Node → δ) (a b c d : δ) :
    Function.update (Function.update (Function.update (Function.update f x a) y b) x c) y d =
      Function.update (Function.update f x c) y d := by
  rw [Function.update_comm (Ne.symm hne), Function.update_idem, Function.update_idem]

include hcap hne in
/-- What is written is read. -/
theorem transfer {n : Net Node β ρ} {data : List β} {next : Proc Node β ρ}
    {next' : List.Vector β data.length → Proc Node β ρ} (hx : n.proc x = .write y data next)
    (hy : n.proc y = .read x data.length next') (hlink : n.link (x, y) = []) :
    ReflTransGen (Step cap) n
      ⟨Function.update (Function.update n.proc x next) y (next' ⟨data, Eq.refl _⟩), n.link⟩ := by
  induction data generalizing n with
  | nil =>
    have hwritten : Step cap n ⟨Function.update n.proc x next, n.link⟩ := by
      apply step_of_move
      rw [hx]
      exact Eq.refl _
    refine .head hwritten (.single (step_of_move ?_))
    dsimp only
    rw [Function.update_of_ne (Ne.symm hne), hy]
    exact Eq.refl _
  | cons b bs ih =>
    have hput : Step cap n ⟨Function.update n.proc x (.write y bs next),
        Function.update n.link (x, y) [b]⟩ := by
      apply step_of_move
      rw [hx, move_write_cons, hlink]
      exact if_pos hcap
    have hget : Step cap (⟨Function.update n.proc x (.write y bs next),
        Function.update n.link (x, y) [b]⟩ : Net Node β ρ)
        ⟨Function.update (Function.update n.proc x (.write y bs next)) y
          (.read x bs.length fun got => next' (b ::ᵥ got)), n.link⟩ := by
      have hback : Function.update (Function.update n.link (x, y) [b]) (x, y) [] = n.link := by
        rw [Function.update_idem, ← hlink, Function.update_eq_self]
      have hmove := move_read_succ cap next' (Function.update_self (x, y) [b] n.link)
      rw [hback] at hmove
      apply step_of_move
      dsimp only
      rw [Function.update_of_ne (Ne.symm hne), hy]
      exact hmove
    have hx' : Function.update (Function.update n.proc x (.write y bs next)) y
        (.read x bs.length fun got => next' (b ::ᵥ got)) x = .write y bs next :=
      (Function.update_of_ne hne _ _).trans (Function.update_self _ _ _)
    have hrest := @ih ⟨Function.update (Function.update n.proc x (.write y bs next)) y
      (.read x bs.length fun got => next' (b ::ᵥ got)), n.link⟩ _ hx' (Function.update_self _ _ _) hlink
    dsimp only at hrest
    rw [update_twice hne] at hrest
    exact .head hput (.head hget hrest)

/-- Nothing is said. -/
theorem Talk.done (a : α) (c : γ) :
    Talk cap x y (.done a : Proc Node β α) (.done c : Proc Node β γ) a c := by
  constructor
  intro ρ n k k' hx hy _ _
  have hsame : (⟨Function.update (Function.update n.proc x (k a)) y (k' c), n.link⟩ : Net Node β ρ) =
      n := by
    have hxk : n.proc x = k a := hx
    have hyk : n.proc y = k' c := hy
    rw [← hxk, ← hyk, Function.update_eq_self, Function.update_eq_self]
  rw [hsame]

include hne in
/-- One talk after the other. -/
theorem Talk.bind {α' γ' : Type} {p : Proc Node β α} {q : Proc Node β γ} {a : α} {c : γ}
    {f : α → Proc Node β α'} {g : γ → Proc Node β γ'} {a' : α'} {c' : γ'}
    (h : Talk cap x y p q a c) (h' : Talk cap x y (f a) (g c) a' c') :
    Talk cap x y (p.bind f) (q.bind g) a' c' := by
  constructor
  intro ρ n k k' hx hy hxy hyx
  rw [Proc.bind_assoc] at hx hy
  have hfirst := h.run n _ _ hx hy hxy hyx
  have hsecond := h'.run ⟨Function.update (Function.update n.proc x ((f a).bind k)) y ((g c).bind k'),
    n.link⟩ k k' ((Function.update_of_ne hne _ _).trans (Function.update_self _ _ _))
    (Function.update_self _ _ _) hxy hyx
  dsimp only at hsecond
  rw [update_twice hne] at hsecond
  exact hfirst.trans hsecond

/-- The second party ends with something else. -/
theorem Talk.andThen {γ' : Type} {p : Proc Node β α} {q : Proc Node β γ} {a : α} {c : γ}
    {g : γ → Proc Node β γ'} {c' : γ'} (h : Talk cap x y p q a c) (hg : g c = .done c') :
    Talk cap x y p (q.bind g) a c' := by
  constructor
  intro ρ n k k' hx hy hxy hyx
  rw [Proc.bind_assoc] at hy
  have hrun := h.run n k (fun c => (g c).bind k') hx hy hxy hyx
  rw [hg] at hrun
  exact hrun

/-- The parties change their parts. -/
theorem Talk.swap (hne : x ≠ y) {p : Proc Node β α} {q : Proc Node β γ} {a : α} {c : γ}
    (h : Talk cap y x q p c a) : Talk cap x y p q a c := by
  constructor
  intro ρ n k k' hx hy hxy hyx
  rw [Function.update_comm hne]
  exact h.run n k' k hy hx hyx hxy

include hcap hne in
/-- The first party writes. -/
theorem Talk.send (data : List β) : Talk cap x y (.write y data (.done ()))
    (.read x data.length .done) () (⟨data, Eq.refl _⟩ : List.Vector β data.length) := by
  constructor
  intro ρ n k k' hx hy hxy _
  exact transfer hcap hne hx hy hxy

include hne in
/-- One party goes through a list and the other reads as many elements. -/
theorem Talk.forEach {w : γ → Proc Node β Unit} {r : Proc Node β γ} {count : ℕ}
    (l : List.Vector γ count) (h : ∀ e ∈ l.toList, Talk cap x y (w e) r () e) :
    Talk cap x y (ByteSession.forEach l.toList w) (repeatRead r count) () l := by
  obtain ⟨l, hlength⟩ := l
  subst hlength
  induction l with
  | nil => exact Talk.done () _
  | cons e l ih =>
    have hrest := ih fun e' he' => h e' (List.mem_cons_of_mem e he')
    have hcons : Talk cap x y (ByteSession.forEach l w) ((repeatRead r l.length).bind fun es =>
        .done (e ::ᵥ es)) () (e ::ᵥ ⟨l, Eq.refl _⟩) := hrest.andThen (Eq.refl _)
    exact Talk.bind hne (h e List.mem_cons_self) hcons

end Talks

/-! ### Values of a fixed size -/

/-- Bytes of a value, and back. -/
structure Codec (β α : Type) where
  /-- Number of bytes. -/
  size : ℕ
  /-- Bytes of a value. -/
  encode : α → List β
  /-- Value of bytes. -/
  decode : List β → Option α
  /-- All values have this size. -/
  encode_length : ∀ a, (encode a).length = size
  /-- A value is found again. -/
  decode_encode : ∀ a, decode (encode a) = some a

/-- Write a value. -/
def writeValue (codec : Codec β α) (peer : Node) (a : α) : Proc Node β Unit :=
  .write peer (codec.encode a) (.done ())

/-- Go on with a value that was found. -/
def ofDecoded : Option α → Proc Node β α
  | none => .stop "Not a value of the type"
  | some a => .done a

/-- Read a value. -/
def readValue (codec : Codec β α) (peer : Node) : Proc Node β α :=
  .read peer codec.size fun got => ofDecoded (codec.decode got.toList)

/-- Write data. -/
def writeBytes (peer : Node) (data : List β) : Proc Node β Unit := .write peer data (.done ())

/-- Read so many bytes. -/
def readBytes (peer : Node) (bytes : ℕ) : Proc Node β (List.Vector β bytes) :=
  .read peer bytes .done

section Values

variable {x y : Node} (hcap : 0 < cap) (hne : x ≠ y)
include hcap hne

theorem Talk.bytes {count : ℕ} (data : List.Vector β count) :
    Talk cap x y (writeBytes y data.toList) (readBytes x count) () data := by
  obtain ⟨data, hlength⟩ := data
  subst hlength
  exact Talk.send hcap hne data

/-- The first party writes a value. -/
theorem Talk.value (codec : Codec β α) (a : α) :
    Talk cap x y (writeValue codec y a) (readValue codec x) () a := by
  have hbytes := Talk.bytes hcap hne (⟨codec.encode a, codec.encode_length a⟩ :
    List.Vector β codec.size)
  have hdone : Talk cap x y (.done () : Proc Node β Unit)
      (match codec.decode (codec.encode a) with
        | none => .stop "Not a value of the type"
        | some a => .done a) () a := by
    rw [codec.decode_encode a]
    exact Talk.done () a
  exact Talk.bind hne hbytes hdone

end Values

end LayerSkip.ByteSession
