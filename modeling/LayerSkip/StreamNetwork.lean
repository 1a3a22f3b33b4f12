import LayerSkip.RandomDescent
import Mathlib.Logic.Function.Basic
import Mathlib.Data.List.Basic

/-!
# Parties on bounded ordered byte streams

Every party runs a fixed list of blocks: send given data to several peers at
once, or receive given amounts from several peers at once and then compute.
Links are ordered queues of bounded length. A step moves one cell, so every
schedule of partial sends and receives of any size is a sequence of steps.
The steps have the one-step diamond: a complete schedule decides all others.
-/

namespace LayerSkip.StreamNetwork

open RandomDescent

variable {Node Mem α : Type*} [DecidableEq Node]

/-- One block of a party's program. -/
inductive Block (Node Mem α : Type*)
  /-- Send the given data to every peer, in any order of progress. -/
  | write (data : Mem → Node → List α)
  /-- Receive the given number of cells from every peer, then compute. -/
  | read (need : Mem → Node → ℕ) (use : Mem → (Node → List α) → Mem)

/-- The transfer a party is in. -/
inductive Io (Node Mem α : Type*)
  | idle
  /-- Data not yet handed to the link of each peer. -/
  | writing (todo : Node → List α)
  /-- Cells still missing and cells already received from each peer. -/
  | reading (need : Node → ℕ) (got : Node → List α) (use : Mem → (Node → List α) → Mem)

/-- A party: its memory, the transfer in progress and the blocks still to run. -/
structure Party (Node Mem α : Type*) where
  /-- Local memory. -/
  mem : Mem
  /-- Transfer in progress. -/
  io : Io Node Mem α
  /-- Blocks not yet started. -/
  prog : List (Block Node Mem α)

/-- The parties and, for every ordered pair of them, the cells in flight. -/
@[ext] structure Net (Node Mem α : Type*) where
  /-- Parties by name. -/
  party : Node → Party Node Mem α
  /-- Cells sent by the first and not yet received by the second. -/
  link : Node × Node → List α

/-- Replace one party. -/
def Net.setParty (n : Net Node Mem α) (p : Node) (x : Party Node Mem α) : Net Node Mem α :=
  { n with party := Function.update n.party p x }

/-- Replace the content of one link. -/
def Net.setLink (n : Net Node Mem α) (e : Node × Node) (xs : List α) : Net Node Mem α :=
  { n with link := Function.update n.link e xs }

/-- A block turned into the transfer that carries it out. -/
def Block.open (b : Block Node Mem α) (mem : Mem) : Io Node Mem α :=
  match b with
  | .write data => .writing (data mem)
  | .read need use => .reading (need mem) (fun _ => []) use

/-- What one step does, named by who acts. -/
inductive Label (Node : Type*)
  /-- The party begins its next block. -/
  | start (p : Node)
  /-- The party hands one cell to the link towards the peer. -/
  | post (p q : Node)
  /-- The party takes one cell from the link coming from the peer. -/
  | take (p q : Node)
  /-- The party ends a transfer in which nothing is left to move. -/
  | finish (p : Node)

/-- One step of the network with links of at most `cap` cells. -/
inductive Fire (cap : ℕ) (n : Net Node Mem α) : Label Node → Net Node Mem α → Prop
  | start {p : Node} {mem : Mem} {b : Block Node Mem α} {rest : List (Block Node Mem α)} :
      n.party p = ⟨mem, .idle, b :: rest⟩ →
      Fire cap n (.start p) (n.setParty p ⟨mem, b.open mem, rest⟩)
  | post {p q : Node} {mem : Mem} {todo : Node → List α} {rest : List (Block Node Mem α)}
      {a : α} {as : List α} :
      n.party p = ⟨mem, .writing todo, rest⟩ → todo q = a :: as → (n.link (p, q)).length < cap →
      Fire cap n (.post p q)
        ((n.setParty p ⟨mem, .writing (Function.update todo q as), rest⟩).setLink (p, q)
          (n.link (p, q) ++ [a]))
  | take {p q : Node} {mem : Mem} {need : Node → ℕ} {got : Node → List α}
      {use : Mem → (Node → List α) → Mem} {rest : List (Block Node Mem α)} {m : ℕ} {a : α}
      {as : List α} :
      n.party p = ⟨mem, .reading need got use, rest⟩ → need q = m + 1 → n.link (q, p) = a :: as →
      Fire cap n (.take p q)
        ((n.setParty p ⟨mem, .reading (Function.update need q m)
          (Function.update got q (got q ++ [a])) use, rest⟩).setLink (q, p) as)
  | finishWrite {p : Node} {mem : Mem} {todo : Node → List α}
      {rest : List (Block Node Mem α)} :
      n.party p = ⟨mem, .writing todo, rest⟩ → (∀ q, todo q = []) →
      Fire cap n (.finish p) (n.setParty p ⟨mem, .idle, rest⟩)
  | finishRead {p : Node} {mem : Mem} {need : Node → ℕ} {got : Node → List α}
      {use : Mem → (Node → List α) → Mem} {rest : List (Block Node Mem α)} :
      n.party p = ⟨mem, .reading need got use, rest⟩ → (∀ q, need q = 0) →
      Fire cap n (.finish p) (n.setParty p ⟨use mem got, .idle, rest⟩)

/-- The step relation with the label forgotten. -/
def Step (cap : ℕ) (n n' : Net Node Mem α) : Prop := ∃ l, Fire cap n l n'

section Frame

variable {cap : ℕ} {n : Net Node Mem α}

@[simp] theorem Net.setParty_party (n : Net Node Mem α) (p : Node) (x : Party Node Mem α) :
    (n.setParty p x).party = Function.update n.party p x := rfl

@[simp] theorem Net.setParty_link (n : Net Node Mem α) (p : Node) (x : Party Node Mem α) :
    (n.setParty p x).link = n.link := rfl

@[simp] theorem Net.setLink_party (n : Net Node Mem α) (e : Node × Node) (xs : List α) :
    (n.setLink e xs).party = n.party := rfl

@[simp] theorem Net.setLink_link (n : Net Node Mem α) (e : Node × Node) (xs : List α) :
    (n.setLink e xs).link = Function.update n.link e xs := rfl

theorem Net.setParty_party_of_ne (n : Net Node Mem α) {p q : Node} (h : p ≠ q)
    (x : Party Node Mem α) : (n.setParty q x).party p = n.party p := by
  rw [Net.setParty_party, Function.update_of_ne h]

theorem Net.setLink_link_of_ne (n : Net Node Mem α) {e f : Node × Node} (h : e ≠ f)
    (xs : List α) : (n.setLink f xs).link e = n.link e := by
  rw [Net.setLink_link, Function.update_of_ne h]

/-- Changes of different parties commute. -/
theorem Net.setParty_comm (n : Net Node Mem α) {p q : Node} (h : p ≠ q)
    (x y : Party Node Mem α) :
    (n.setParty p x).setParty q y = (n.setParty q y).setParty p x := by
  simp only [Net.setParty, Function.update_comm h]

/-- Changes of a party and of a link commute. -/
theorem Net.setLink_setParty (n : Net Node Mem α) (e : Node × Node) (xs : List α) (p : Node)
    (x : Party Node Mem α) :
    (n.setLink e xs).setParty p x = (n.setParty p x).setLink e xs := rfl

/-- Changes of different links commute. -/
theorem Net.setLink_comm (n : Net Node Mem α) {e f : Node × Node} (h : e ≠ f)
    (xs ys : List α) :
    (n.setLink e xs).setLink f ys = (n.setLink f ys).setLink e xs := by
  simp only [Net.setLink, Function.update_comm h]

@[simp] theorem Net.setParty_setParty (n : Net Node Mem α) (p : Node) (x y : Party Node Mem α) :
    (n.setParty p x).setParty p y = n.setParty p y := by
  simp only [Net.setParty, Function.update_idem]

@[simp] theorem Net.setLink_setLink (n : Net Node Mem α) (e : Node × Node) (xs ys : List α) :
    (n.setLink e xs).setLink e ys = n.setLink e ys := by
  simp only [Net.setLink, Function.update_idem]

/-- The party a label belongs to. -/
def Label.actor : Label Node → Node
  | .start p | .post p _ | .take p _ | .finish p => p

/-- The link a label changes, if any. -/
def Label.edge : Label Node → Option (Node × Node)
  | .post p q => some (p, q)
  | .take p q => some (q, p)
  | .start _ | .finish _ => none

/-- A step changes its own party and at most its own link. -/
theorem Fire.shape {l : Label Node} {a : Net Node Mem α} (h : Fire cap n l a) :
    ∃ x, (l.edge = none ∧ a = n.setParty l.actor x) ∨
      ∃ e xs, l.edge = some e ∧ a = (n.setParty l.actor x).setLink e xs := by
  cases h with
  | start _ => exact ⟨_, .inl ⟨rfl, rfl⟩⟩
  | post _ _ _ => exact ⟨_, .inr ⟨_, _, rfl, rfl⟩⟩
  | take _ _ _ => exact ⟨_, .inr ⟨_, _, rfl, rfl⟩⟩
  | finishWrite _ _ => exact ⟨_, .inl ⟨rfl, rfl⟩⟩
  | finishRead _ _ => exact ⟨_, .inl ⟨rfl, rfl⟩⟩

/-- A step does not look at the parties other than its own. -/
theorem Fire.setParty {l : Label Node} {a : Net Node Mem α} (h : Fire cap n l a) {p : Node}
    (hp : l.actor ≠ p) (x : Party Node Mem α) :
    Fire cap (n.setParty p x) l (a.setParty p x) := by
  cases h with
  | start h =>
    simp only [Label.actor] at hp
    rw [Net.setParty_comm n hp]
    exact .start ((n.setParty_party_of_ne hp x).trans h)
  | post h ht hc =>
    simp only [Label.actor] at hp
    rw [Net.setLink_setParty, Net.setParty_comm n hp]
    exact .post ((n.setParty_party_of_ne hp x).trans h) ht hc
  | take h hm hl =>
    simp only [Label.actor] at hp
    rw [Net.setLink_setParty, Net.setParty_comm n hp]
    exact .take ((n.setParty_party_of_ne hp x).trans h) hm hl
  | finishWrite h ht =>
    simp only [Label.actor] at hp
    rw [Net.setParty_comm n hp]
    exact .finishWrite ((n.setParty_party_of_ne hp x).trans h) ht
  | finishRead h hm =>
    simp only [Label.actor] at hp
    rw [Net.setParty_comm n hp]
    exact .finishRead ((n.setParty_party_of_ne hp x).trans h) hm

/-- A step does not look at the links other than its own. -/
theorem Fire.setLink {l : Label Node} {a : Net Node Mem α} (h : Fire cap n l a)
    {e : Node × Node} (he : l.edge ≠ some e) (xs : List α) :
    Fire cap (n.setLink e xs) l (a.setLink e xs) := by
  cases h with
  | start h => exact .start h
  | @post p q mem todo rest a as h ht hc =>
    have hne : (p, q) ≠ e := fun hpq => he (congrArg some hpq)
    have hk : (n.setLink e xs).link (p, q) = n.link (p, q) := n.setLink_link_of_ne hne xs
    rw [Net.setLink_comm _ hne, ← Net.setLink_setParty, ← hk]
    exact .post h ht (hk ▸ hc)
  | @take p q mem need got use rest m a as h hm hl =>
    have hne : (q, p) ≠ e := fun hpq => he (congrArg some hpq)
    rw [Net.setLink_comm _ hne, ← Net.setLink_setParty]
    exact .take h hm ((n.setLink_link_of_ne hne xs).trans hl)
  | finishWrite h ht => exact .finishWrite h ht
  | finishRead h hm => exact .finishRead h hm

/-- A label has one effect. -/
theorem Fire.unique {l : Label Node} {a b : Net Node Mem α} (h : Fire cap n l a)
    (k : Fire cap n l b) : a = b := by
  cases h <;> cases k <;> simp_all

/-- Steps of different parties on different links commute. -/
theorem Fire.commute_apart {l k : Label Node} {a b : Net Node Mem α} (h : Fire cap n l a)
    (g : Fire cap n k b) (hp : l.actor ≠ k.actor) (he : l.edge = none ∨ l.edge ≠ k.edge) :
    ∃ d, Fire cap a k d ∧ Fire cap b l d := by
  obtain ⟨x, ⟨hl, rfl⟩ | ⟨e, xs, hl, rfl⟩⟩ := h.shape
  · obtain ⟨y, ⟨hk, rfl⟩ | ⟨f, ys, hk, rfl⟩⟩ := g.shape
    · exact ⟨_, g.setParty hp.symm x, Net.setParty_comm n hp.symm y x ▸ h.setParty hp y⟩
    · refine ⟨_, g.setParty hp.symm x, ?_⟩
      have hs := (h.setParty hp y).setLink (e := f) (by rw [hl]; exact nofun) ys
      rwa [Net.setLink_setParty, ← Net.setParty_comm n hp]
  · obtain ⟨y, ⟨hk, rfl⟩ | ⟨f, ys, hk, rfl⟩⟩ := g.shape
    · refine ⟨_, (g.setParty hp.symm x).setLink (by rw [hk]; exact nofun) xs, ?_⟩
      have hs := h.setParty hp y
      rwa [Net.setLink_setParty, Net.setParty_comm n hp] at hs
    · have hef : e ≠ f := by
        rintro rfl
        rcases he with he | he
        · simp [hl] at he
        · exact he (hl.trans hk.symm)
      refine ⟨_, (g.setParty hp.symm x).setLink (e := e) (by rw [hk]; simpa using hef.symm) xs, ?_⟩
      have hs := (h.setParty hp y).setLink (e := f) (by rw [hl]; simpa using hef) ys
      rwa [Net.setLink_setParty, Net.setParty_comm n hp, Net.setLink_comm _ hef,
        ← Net.setLink_setParty] at hs

/-- Handing a cell to a link and taking one from its other end commute. -/
theorem Fire.commute_ends {p q : Node} {a b : Net Node Mem α} (h : Fire cap n (.post p q) a)
    (g : Fire cap n (.take q p) b) (hpq : p ≠ q) :
    ∃ d, Fire cap a (.take q p) d ∧ Fire cap b (.post p q) d := by
  cases h with
  | @post _ _ mem todo rest x xs hp ht hc =>
    cases g with
    | @take _ _ mem' need got use rest' m y ys hq hm hl =>
      rw [hl] at hc
      have hq' := hq
      have hp' := hp
      rw [← Function.update_of_ne hpq.symm ⟨mem, .writing (Function.update todo q xs), rest⟩
        n.party] at hq'
      rw [← Function.update_of_ne hpq ⟨mem', .reading (Function.update need p m)
        (Function.update got p (got p ++ [y])) use, rest'⟩ n.party] at hp'
      refine ⟨_, @Fire.take _ _ _ _ _ _ _ _ _ _ _ _ _ _ y (ys ++ [x]) hq' hm (by simp [hl]), ?_⟩
      have hroom : ys.length < cap := by
        simp only [List.length_cons] at hc
        omega
      have hpost : Fire cap ((n.setParty q ⟨mem', .reading (Function.update need p m)
          (Function.update got p (got p ++ [y])) use, rest'⟩).setLink (p, q) ys) (.post p q) _ :=
        .post hp' ht (by rwa [Net.setLink_link, Function.update_self])
      rw [Net.setLink_setParty, Net.setLink_setLink, Net.setParty_comm n hpq.symm] at hpost
      simpa [Net.setLink_setParty] using hpost

/-- Different steps of one party commute: they move cells of different peers
in the same transfer. -/
theorem Fire.commute_self {l k : Label Node} {a b : Net Node Mem α} (h : Fire cap n l a)
    (g : Fire cap n k b) (hp : l.actor = k.actor) (hne : l ≠ k) :
    ∃ d, Fire cap a k d ∧ Fire cap b l d := by
  cases h with
  | @start p mem b rest h =>
    cases g <;> simp only [Label.actor] at hp <;> subst hp <;> simp_all
  | @post p q mem todo rest x xs h ht hc =>
    cases g with
    | start g => simp only [Label.actor] at hp; subst hp; simp_all
    | @post p' q' mem' todo' rest' y ys g ht' hc' =>
      simp only [Label.actor] at hp
      subst hp
      have hq : q ≠ q' := fun hq => hne (by rw [hq])
      have he : (p, q) ≠ (p, q') := fun he => hq (congrArg Prod.snd he)
      rw [h] at g
      cases g
      refine ⟨_, .post (Function.update_self _ _ _) ((Function.update_of_ne hq.symm _ _).trans ht')
        (by rwa [Net.setLink_link_of_ne _ he.symm]), ?_⟩
      have hb : Fire cap ((n.setParty p ⟨mem, .writing (Function.update todo q' ys), rest⟩).setLink
          (p, q') (n.link (p, q') ++ [y])) (.post p q) _ :=
        .post (Function.update_self _ _ _) ((Function.update_of_ne hq _ _).trans ht)
          (by rwa [Net.setLink_link_of_ne _ he])
      rw [Function.update_comm hq]
      simpa only [Net.setLink_setParty, Net.setParty_setParty, Net.setLink_link_of_ne _ he,
        Net.setLink_link_of_ne _ he.symm, Net.setParty_link, Net.setLink_comm _ he] using hb
    | take g => simp only [Label.actor] at hp; subst hp; simp_all
    | finishWrite g => simp only [Label.actor] at hp; subst hp; simp_all
    | finishRead g => simp only [Label.actor] at hp; subst hp; simp_all
  | @take p q mem need got use rest m x xs h hm hl =>
    cases g with
    | start g => simp only [Label.actor] at hp; subst hp; simp_all
    | post g => simp only [Label.actor] at hp; subst hp; simp_all
    | @take p' q' mem' need' got' use' rest' m' y ys g hm' hl' =>
      simp only [Label.actor] at hp
      subst hp
      have hq : q ≠ q' := fun hq => hne (by rw [hq])
      have he : (q, p) ≠ (q', p) := fun he => hq (congrArg Prod.fst he)
      rw [h] at g
      cases g
      refine ⟨_, .take (Function.update_self _ _ _) ((Function.update_of_ne hq.symm _ _).trans hm')
        ((Net.setLink_link_of_ne _ he.symm _).trans hl'), ?_⟩
      have hb : Fire cap ((n.setParty p ⟨mem, .reading (Function.update need q' m')
          (Function.update got q' (got q' ++ [y])) use, rest⟩).setLink (q', p) ys) (.take p q) _ :=
        .take (Function.update_self _ _ _) ((Function.update_of_ne hq _ _).trans hm)
          ((Net.setLink_link_of_ne _ he _).trans hl)
      rw [Function.update_comm hq, Function.update_comm hq, Function.update_of_ne hq.symm]
      rw [Function.update_of_ne hq] at hb
      simpa only [Net.setLink_setParty, Net.setParty_setParty, Net.setLink_comm _ he] using hb
    | finishWrite g => simp only [Label.actor] at hp; subst hp; simp_all
    | finishRead g => simp only [Label.actor] at hp; subst hp; simp_all
  | finishWrite h ht =>
    cases g <;> simp only [Label.actor] at hp <;> subst hp <;> simp_all
  | finishRead h hm =>
    cases g <;> simp only [Label.actor] at hp <;> subst hp <;> simp_all

/-- The network's steps have the one-step diamond, whatever the parties run
and however small the links are. -/
theorem diamond (cap : ℕ) : Diamond (Step cap : Net Node Mem α → Net Node Mem α → Prop) := by
  rintro n a b ⟨l, h⟩ ⟨k, g⟩
  by_cases hlk : l = k
  · subst hlk
    exact .inl (h.unique g)
  suffices hd : ∃ d, Fire cap a k d ∧ Fire cap b l d by
    obtain ⟨d, ha, hb⟩ := hd
    exact .inr ⟨d, ⟨k, ha⟩, l, hb⟩
  by_cases hp : l.actor = k.actor
  · exact h.commute_self g hp hlk
  by_cases he : l.edge = none ∨ l.edge ≠ k.edge
  · exact h.commute_apart g hp he
  -- one link and two parties: its sender and its receiver
  obtain ⟨hn, hek⟩ : l.edge ≠ none ∧ l.edge = k.edge := by simpa using he
  cases l with
  | start p => exact absurd rfl hn
  | finish p => exact absurd rfl hn
  | post p q =>
    cases k with
    | start p' => simp [Label.edge] at hek
    | finish p' => simp [Label.edge] at hek
    | post p' q' => simp [Label.edge] at hek; exact absurd hek.1 hp
    | take p' q' =>
      simp only [Label.edge, Option.some.injEq, Prod.mk.injEq] at hek
      obtain ⟨rfl, rfl⟩ := hek
      exact h.commute_ends g hp
  | take p q =>
    cases k with
    | start p' => simp [Label.edge] at hek
    | finish p' => simp [Label.edge] at hek
    | take p' q' => simp [Label.edge] at hek; exact absurd hek.2 hp
    | post p' q' =>
      simp only [Label.edge, Option.some.injEq, Prod.mk.injEq] at hek
      obtain ⟨rfl, rfl⟩ := hek
      obtain ⟨d, hb, ha⟩ := g.commute_ends h (Ne.symm hp)
      exact ⟨d, ha, hb⟩

end Frame

/-- Every party has run its whole program. -/
def Net.Done (n : Net Node Mem α) : Prop := ∀ p, ∃ mem, n.party p = ⟨mem, .idle, []⟩

theorem Net.Done.terminal {cap : ℕ} {n : Net Node Mem α} (h : n.Done) :
    Terminal (Step cap) n := by
  rintro n' ⟨l, hl⟩
  obtain ⟨mem, hm⟩ := h l.actor
  cases hl <;> simp_all [Label.actor]

section Changes

variable {R : Mem → Mem → Prop}

/-- A block takes the memory to a related one when it computes on as many cells
as it asked for. -/
def Block.Changes (R : Mem → Mem → Prop) : Block Node Mem α → Prop
  | .write _ => True
  | .read need use => ∀ mem got, (∀ q, (got q).length = need mem q) → R mem (use mem got)

/-- A party whose remaining work takes its memory to related ones. -/
structure Party.Changes (R : Mem → Mem → Prop) (x : Party Node Mem α) : Prop where
  /-- Blocks to come do. -/
  prog : ∀ b ∈ x.prog, b.Changes R
  /-- The transfer in progress does when it is complete. -/
  io : ∀ need got use, x.io = .reading need got use →
    ∀ got', (∀ q, (got' q).length = need q + (got q).length) → R x.mem (use x.mem got')

/-- One step of the network takes every party's memory to a related one. -/
theorem Fire.changes (hrefl : ∀ mem, R mem mem) {cap : ℕ} {n n' : Net Node Mem α} {l : Label Node}
    (h : Fire cap n l n') {p : Node} (hp : (n.party p).Changes R) :
    (n'.party p).Changes R ∧ R (n.party p).mem (n'.party p).mem := by
  by_cases hact : l.actor = p
  · subst hact
    cases h with
    | @start p mem b rest h =>
      simp only [Label.actor, Net.setParty_party, Function.update_self, h] at hp ⊢
      refine ⟨⟨fun b hb => hp.prog b (List.mem_cons_of_mem _ hb), ?_⟩, hrefl mem⟩
      intro need got use he got' hg
      have hb := hp.prog b List.mem_cons_self
      cases b with
      | write data => cases he
      | read need' use' =>
        cases he
        exact hb mem got' (by simpa using hg)
    | post h ht hc =>
      simp only [Label.actor, Net.setLink_party, Net.setParty_party, Function.update_self, h]
        at hp ⊢
      exact ⟨⟨hp.prog, fun _ _ _ he => by cases he⟩, hrefl _⟩
    | @take p q mem need got use rest m a as h hm hl =>
      simp only [Label.actor, Net.setLink_party, Net.setParty_party, Function.update_self, h]
        at hp ⊢
      refine ⟨⟨hp.prog, ?_⟩, hrefl mem⟩
      intro need' got' use' he got₁ hg
      cases he
      refine hp.io _ _ _ rfl got₁ fun r => ?_
      rw [hg r]
      by_cases hr : r = q
      · rw [hr, Function.update_self, Function.update_self, List.length_append,
          List.length_singleton]
        omega
      · rw [Function.update_of_ne hr, Function.update_of_ne hr]
    | finishWrite h ht =>
      simp only [Label.actor, Net.setParty_party, Function.update_self, h] at hp ⊢
      exact ⟨⟨hp.prog, fun _ _ _ he => by cases he⟩, hrefl _⟩
    | @finishRead p mem need got use rest h hm =>
      simp only [Label.actor, Net.setParty_party, Function.update_self, h] at hp ⊢
      have hmem := hp.io need got use rfl got fun q => by rw [hm q, Nat.zero_add]
      exact ⟨⟨hp.prog, fun _ _ _ he => by cases he⟩, hmem⟩
  · have hsame : n'.party p = n.party p := by
      obtain ⟨x, ⟨-, rfl⟩ | ⟨e, xs, -, rfl⟩⟩ := h.shape
      · rw [Net.setParty_party_of_ne _ (Ne.symm hact)]
      · rw [Net.setLink_party, Net.setParty_party_of_ne _ (Ne.symm hact)]
    rw [hsame]
    exact ⟨hp, hrefl _⟩

/-- And so does every run. -/
theorem changes_of_reachable (hrefl : ∀ mem, R mem mem)
    (htrans : ∀ {a b c}, R a b → R b c → R a c) {cap : ℕ} {n n' : Net Node Mem α}
    (h : Relation.ReflTransGen (Step cap) n n') {p : Node} (hp : (n.party p).Changes R) :
    (n'.party p).Changes R ∧ R (n.party p).mem (n'.party p).mem := by
  induction h with
  | refl => exact ⟨hp, hrefl _⟩
  | tail _ hs ih =>
    obtain ⟨l, hl⟩ := hs
    obtain ⟨hnext, hstep⟩ := hl.changes hrefl ih.1
    exact ⟨hnext, htrans ih.2 hstep⟩

end Changes

section Invariants

variable {P : Mem → Prop}

/-- A block keeps a property of the memory when it computes on as many cells
as it asked for. -/
def Block.Keeps (P : Mem → Prop) : Block Node Mem α → Prop
  | .write _ => True
  | .read need use => ∀ mem got, P mem → (∀ q, (got q).length = need mem q) → P (use mem got)

/-- A party between two blocks whose memory has a property that its remaining work keeps. -/
structure Party.Holds (P : Mem → Prop) (x : Party Node Mem α) : Prop where
  /-- The memory has the property now. -/
  mem : P x.mem
  /-- Blocks to come keep it. -/
  prog : ∀ b ∈ x.prog, b.Keeps P
  /-- No transfer is in progress. -/
  io : x.io = .idle

/-- A property that all of a party's blocks keep holds of its memory in every
reachable network. -/
theorem holds_of_reachable {cap : ℕ} {n n' : Net Node Mem α}
    (h : Relation.ReflTransGen (Step cap) n n') {p : Node} (hp : (n.party p).Holds P) :
    P (n'.party p).mem := by
  have hblocks : (n.party p).Changes fun a b => P a → P b := by
    constructor
    · intro b hb
      have hkeeps := hp.prog b hb
      cases b with
      | write data => trivial
      | read need use => exact fun mem got hg hmem => hkeeps mem got hmem hg
    · intro need got use hread
      rw [hp.io] at hread
      cases hread
  exact (changes_of_reachable (fun _ => id) (fun hab hbc ha => hbc (hab ha)) h hblocks).2 hp.mem

/-- A party with nothing to do is never changed. -/
theorem idle_of_reachable {cap : ℕ} {n n' : Net Node Mem α}
    (h : Relation.ReflTransGen (Step cap) n n') {p : Node} {mem : Mem}
    (hp : n.party p = ⟨mem, .idle, []⟩) : n'.party p = ⟨mem, .idle, []⟩ := by
  induction h with
  | refl => exact hp
  | tail _ hs ih =>
    obtain ⟨l, hl⟩ := hs
    have hact : p ≠ l.actor := by
      rintro rfl
      cases hl <;> simp_all [Label.actor]
    obtain ⟨x, ⟨-, rfl⟩ | ⟨e, xs, -, rfl⟩⟩ := hl.shape
    · rwa [Net.setParty_party_of_ne _ hact]
    · rwa [Net.setLink_party, Net.setParty_party_of_ne _ hact]

end Invariants

section Schedules

open Relation

variable {cap : ℕ} {n : Net Node Mem α}

/-- Bring the content of a link back to what it was. -/
theorem Net.setLink_eq_self (n : Net Node Mem α) {e : Node × Node} {xs : List α}
    (h : n.link e = xs) : n.setLink e xs = n := by
  simp only [Net.setLink, ← h, Function.update_eq_self]

theorem Net.setParty_eq_self (n : Net Node Mem α) {p : Node} {x : Party Node Mem α}
    (h : n.party p = x) : n.setParty p x = n := by
  simp only [Net.setParty, ← h, Function.update_eq_self]

/-- An idle party opens its next block. -/
theorem Fire.beginBlock (cap : ℕ) (n : Net Node Mem α) (p : Node) (mem : Mem)
    (b : Block Node Mem α) (rest : List (Block Node Mem α)) :
    Fire cap (n.setParty p ⟨mem, .idle, b :: rest⟩) (.start p)
      (n.setParty p ⟨mem, b.open mem, rest⟩) := by
  have hf : Fire cap (n.setParty p ⟨mem, .idle, b :: rest⟩) (.start p) _ :=
    .start (Function.update_self _ _ _)
  rwa [Net.setParty_setParty] at hf

/-- A writing party with nothing left to send becomes idle. -/
theorem Fire.endWrite (cap : ℕ) (n : Net Node Mem α) (p : Node) (mem : Mem)
    (rest : List (Block Node Mem α)) {todo : Node → List α} (h : ∀ q, todo q = []) :
    Fire cap (n.setParty p ⟨mem, .writing todo, rest⟩) (.finish p)
      (n.setParty p ⟨mem, .idle, rest⟩) := by
  have hf : Fire cap (n.setParty p ⟨mem, .writing todo, rest⟩) (.finish p) _ :=
    .finishWrite (Function.update_self _ _ _) h
  rwa [Net.setParty_setParty] at hf

/-- A reading party that misses nothing computes and becomes idle. -/
theorem Fire.endRead (cap : ℕ) (n : Net Node Mem α) (p : Node) (mem : Mem) (got : Node → List α)
    (use : Mem → (Node → List α) → Mem) (rest : List (Block Node Mem α)) {need : Node → ℕ}
    (h : ∀ q, need q = 0) :
    Fire cap (n.setParty p ⟨mem, .reading need got use, rest⟩) (.finish p)
      (n.setParty p ⟨use mem got, .idle, rest⟩) := by
  have hf : Fire cap (n.setParty p ⟨mem, .reading need got use, rest⟩) (.finish p) _ :=
    .finishRead (Function.update_self _ _ _) h
  rwa [Net.setParty_setParty] at hf

/-- A sender and a receiver that face each other move all the sender's cells
across, one at a time, even when the link holds a single cell. -/
theorem transfer (hc : 0 < cap) {w r : Node} (hwr : w ≠ r) {mw mr : Mem}
    {rest prog : List (Block Node Mem α)} {use : Mem → (Node → List α) → Mem} (xs : List α)
    {todo got : Node → List α} {need : Node → ℕ}
    (hw : n.party w = ⟨mw, .writing todo, rest⟩) (hr : n.party r = ⟨mr, .reading need got use, prog⟩)
    (ht : todo r = xs) (hn : need w = xs.length) (hl : n.link (w, r) = []) :
    ReflTransGen (Step cap) n
      ((n.setParty w ⟨mw, .writing (Function.update todo r []), rest⟩).setParty r
        ⟨mr, .reading (Function.update need w 0) (Function.update got w (got w ++ xs)) use, prog⟩) := by
  induction xs generalizing n todo need got with
  | nil =>
    have hu : Function.update todo r [] = todo := by rw [← ht, Function.update_eq_self]
    have hv : Function.update need w 0 = need := by
      rw [← List.length_nil (α := α), ← hn, Function.update_eq_self]
    rw [hu, hv, List.append_nil, Function.update_eq_self, Net.setParty_eq_self n hw,
      Net.setParty_eq_self n hr]
  | cons x xs ih =>
    -- one cell goes onto the empty link and straight off again
    have hpost : Fire cap n (.post w r) _ := .post hw ht (by simpa [hl] using hc)
    set n₁ := (n.setParty w ⟨mw, .writing (Function.update todo r xs), rest⟩).setLink (w, r)
      (n.link (w, r) ++ [x]) with hn₁
    have hr₁ : n₁.party r = ⟨mr, .reading need got use, prog⟩ := by
      rw [hn₁, Net.setLink_party, Net.setParty_party_of_ne _ hwr.symm, hr]
    have htake : Fire cap n₁ (.take r w) _ :=
      .take hr₁ hn (show n₁.link (w, r) = x :: [] by simp [hn₁, hl])
    set n₂ := (n₁.setParty r ⟨mr, .reading (Function.update need w xs.length)
      (Function.update got w (got w ++ [x])) use, prog⟩).setLink (w, r) [] with hn₂
    have hstep : n₂ = (n.setParty w ⟨mw, .writing (Function.update todo r xs), rest⟩).setParty r
        ⟨mr, .reading (Function.update need w xs.length) (Function.update got w (got w ++ [x])) use,
          prog⟩ := by
      rw [hn₂, hn₁, Net.setLink_setParty, Net.setLink_setLink]
      exact Net.setLink_eq_self _ (by simpa using hl)
    have hih := @ih n₂ (Function.update todo r xs) (Function.update got w (got w ++ [x]))
      (Function.update need w xs.length)
      (by rw [hstep, Net.setParty_party_of_ne _ hwr, Net.setParty_party, Function.update_self])
      (by rw [hstep, Net.setParty_party, Function.update_self])
      (Function.update_self _ _ _) (Function.update_self _ _ _) (by simp [hn₂])
    refine .head ⟨_, hpost⟩ (.head ⟨_, htake⟩ ?_)
    rw [hstep, Net.setParty_comm _ hwr.symm, Net.setParty_setParty, Net.setParty_setParty] at hih
    rw [hstep]
    simpa [List.append_assoc] using hih

/-- A receiver in the middle of its transfer serves one sender completely:
the sender runs its whole write block, the receiver stays in its transfer. -/
theorem gather_one (hc : 0 < cap) {w r : Node} (hwr : w ≠ r) {mw mr : Mem}
    {rest prog : List (Block Node Mem α)} {data : Mem → Node → List α}
    {use : Mem → (Node → List α) → Mem} {got : Node → List α} {need : Node → ℕ}
    (hw : n.party w = ⟨mw, .idle, .write data :: rest⟩)
    (hr : n.party r = ⟨mr, .reading need got use, prog⟩)
    (hd : ∀ q, q ≠ r → data mw q = []) (hn : need w = (data mw r).length)
    (hl : n.link (w, r) = []) :
    ReflTransGen (Step cap) n ((n.setParty w ⟨mw, .idle, rest⟩).setParty r
      ⟨mr, .reading (Function.update need w 0) (Function.update got w (got w ++ data mw r)) use,
        prog⟩) := by
  have hstart : Fire cap n (.start w) _ := .start hw
  set n₁ := n.setParty w ⟨mw, .writing (data mw), rest⟩ with hn₁
  have hrun := transfer (n := n₁) hc hwr (data mw r)
    (by rw [hn₁, Net.setParty_party, Function.update_self])
    (by rw [hn₁, Net.setParty_party_of_ne _ hwr.symm, hr]) rfl hn hl
  rw [hn₁, Net.setParty_setParty, Net.setParty_comm _ hwr] at hrun
  have hempty : ∀ q, Function.update (data mw) r [] q = [] := by
    intro q
    by_cases hq : q = r
    · rw [hq, Function.update_self]
    · rw [Function.update_of_ne hq, hd q hq]
  have hfinish := Fire.endWrite cap (n.setParty r ⟨mr, .reading (Function.update need w 0)
    (Function.update got w (got w ++ data mw r)) use, prog⟩) w mw rest hempty
  rw [Net.setParty_comm _ hwr]
  exact (ReflTransGen.head ⟨_, hstart⟩ hrun).tail ⟨_, hfinish⟩

/-- A sender in the middle of its transfer serves one receiver completely. -/
theorem scatter_one (hc : 0 < cap) {w r : Node} (hwr : w ≠ r) {mw mr : Mem}
    {rest prog : List (Block Node Mem α)} {need : Mem → Node → ℕ}
    {use : Mem → (Node → List α) → Mem} {todo : Node → List α}
    (hw : n.party w = ⟨mw, .idle, .read need use :: rest⟩)
    (hr : n.party r = ⟨mr, .writing todo, prog⟩)
    (hd : ∀ q, q ≠ r → need mw q = 0) (hn : need mw r = (todo w).length)
    (hl : n.link (r, w) = []) :
    ReflTransGen (Step cap) n ((n.setParty w
      ⟨use mw (Function.update (fun _ => []) r (todo w)), .idle, rest⟩).setParty r
      ⟨mr, .writing (Function.update todo w []), prog⟩) := by
  have hstart : Fire cap n (.start w) _ := .start hw
  set n₁ := n.setParty w ⟨mw, .reading (need mw) (fun _ => []) use, rest⟩ with hn₁
  have hrun := transfer (n := n₁) hc hwr.symm (todo w)
    (by rw [hn₁, Net.setParty_party_of_ne _ hwr.symm, hr])
    (by rw [hn₁, Net.setParty_party, Function.update_self]) rfl hn hl
  rw [hn₁, Net.setParty_comm _ hwr, Net.setParty_setParty, List.nil_append] at hrun
  have hzero : ∀ q, Function.update (need mw) r 0 q = 0 := by
    intro q
    by_cases hq : q = r
    · rw [hq, Function.update_self]
    · rw [Function.update_of_ne hq, hd q hq]
  have hfinish := Fire.endRead cap (n.setParty r ⟨mr, .writing (Function.update todo w []), prog⟩)
    w mw (Function.update (fun _ => []) r (todo w)) use rest hzero
  rw [Net.setParty_comm _ hwr]
  exact (ReflTransGen.head ⟨_, hstart⟩ hrun).tail ⟨_, hfinish⟩

/-- One party sends to one other that receives from it alone. -/
theorem exchange (hc : 0 < cap) {w r : Node} (hwr : w ≠ r) {mw mr : Mem}
    {rest prog : List (Block Node Mem α)} {data : Mem → Node → List α} {need : Mem → Node → ℕ}
    {use : Mem → (Node → List α) → Mem}
    (hw : n.party w = ⟨mw, .idle, .write data :: rest⟩)
    (hr : n.party r = ⟨mr, .idle, .read need use :: prog⟩)
    (hd : ∀ q, q ≠ r → data mw q = []) (hs : ∀ q, q ≠ w → need mr q = 0)
    (hn : need mr w = (data mw r).length) (hl : n.link (w, r) = []) :
    ReflTransGen (Step cap) n ((n.setParty w ⟨mw, .idle, rest⟩).setParty r
      ⟨use mr (Function.update (fun _ => []) w (data mw r)), .idle, prog⟩) := by
  have hstart : Fire cap n (.start r) _ := .start hr
  set n₁ := n.setParty r ⟨mr, .reading (need mr) (fun _ => []) use, prog⟩ with hn₁
  have hrun := gather_one (n := n₁) hc hwr
    (by rw [hn₁, Net.setParty_party_of_ne _ hwr, hw])
    (by rw [hn₁, Net.setParty_party, Function.update_self]) hd hn hl
  rw [hn₁, Net.setParty_comm _ hwr.symm, Net.setParty_setParty, List.nil_append] at hrun
  have hzero : ∀ q, Function.update (need mr) w 0 q = 0 := by
    intro q
    by_cases hq : q = w
    · rw [hq, Function.update_self]
    · rw [Function.update_of_ne hq, hs q hq]
  have hfinish := Fire.endRead cap (n.setParty w ⟨mw, .idle, rest⟩) r mr
    (Function.update (fun _ => []) w (data mw r)) use prog hzero
  exact (ReflTransGen.head ⟨_, hstart⟩ hrun).tail ⟨_, hfinish⟩

/-- A schedule that runs all programs to their end decides every schedule. -/
theorem outcome_of_schedule {f : Net Node Mem α} (h : ReflTransGen (Step cap) n f)
    (hf : f.Done) : Outcome (Step cap) n f := by
  obtain ⟨k, hk⟩ := reflTransGen_iff_steps.mp h
  exact .of_steps (diamond cap) hk hf.terminal

end Schedules

end LayerSkip.StreamNetwork
