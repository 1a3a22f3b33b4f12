import Mathlib.Data.List.Basic
import Mathlib.Data.List.Infix
import Mathlib.Tactic.Common

/-!
# Chat templates

A generator writes the items of a chat in the format of a template. A chat that is written in parts reads
as when it is written at once, and a prompt for the answer stands at its end.
-/

namespace LayerSkip.ChatTemplate

/-- Templates. -/
inductive ChatTemplateType
  | unknown
  | llama2
  | llama3
  | deepSeek3
  | chatml
  deriving DecidableEq, Repr

/-- A message of a chat. -/
structure ChatItem where
  /-- Whose message it is. -/
  role : String
  /-- Its text. -/
  message : String
  deriving DecidableEq, Repr

/-- A chat in the format of a template. -/
structure GeneratedChat where
  /-- The text. -/
  content : String
  /-- The part of the prompt for the answer that belongs to the answer. -/
  publicPrompt : Option String
  deriving DecidableEq, Repr

/-- A generator. -/
structure ChatTemplateGenerator where
  /-- End of a message. -/
  eos : String
  /-- The template. -/
  type : ChatTemplateType
  deriving DecidableEq, Repr

/-- A text stands in another one. -/
def strstr (text needle : String) : Bool := decide (needle.toList <:+: text.toList)

namespace ChatTemplateGenerator

/-- The constructor. The template is told from the text of the tokenizer if it is not given. -/
def create (type : ChatTemplateType) (chatTemplate : Option String) (eos : String) :
    Except String ChatTemplateGenerator :=
  if type = .unknown then
    match chatTemplate with
    | none => .error "The tokenizer does not include chat template"
    | some chatTemplate =>
      if strstr chatTemplate "[INST]" then .ok ⟨eos, .llama2⟩
      else if strstr chatTemplate "<|start_header_id|>" then .ok ⟨eos, .llama3⟩
      else if strstr chatTemplate "<｜Assistant｜>" then .ok ⟨eos, .deepSeek3⟩
      else if strstr chatTemplate "<|im_start|>" then .ok ⟨eos, .chatml⟩
      else .error "Not supported chat template"
  else .ok ⟨eos, type⟩

variable (g : ChatTemplateGenerator)

/-- What the loop of the first template writes for an item. -/
def llama2Item (item : ChatItem) : String :=
  if item.role = "assistant" then item.message ++ g.eos
  else if item.role = "user" then "[INST] " ++ item.message ++ " [/INST]" ++ g.eos
  else ""

/-- What the second template writes for an item. -/
def llama3Item (item : ChatItem) : String :=
  "<|start_header_id|>" ++ item.role ++ "<|end_header_id|>\n\n" ++ item.message ++ g.eos

/-- What the loop of the third template writes for an item. -/
def deepSeek3Item (item : ChatItem) : String :=
  if item.role = "user" then "<｜User｜>" ++ item.message
  else if item.role = "assistant" then "<｜Assistant｜>" ++ item.message
  else ""

/-- What the fourth template writes for an item. -/
def chatmlItem (item : ChatItem) : String :=
  if item.role = "system" then "<|im_start|>system\n" ++ item.message ++ "<|im_end|>\n"
  else if item.role = "user" then "<|im_start|>user\n" ++ item.message ++ "<|im_end|>\n"
  else if item.role = "assistant" then "<|im_start|>assistant\n" ++ item.message ++ "<|im_end|>\n"
  else ""

/-- A loop that appends to the buffer. -/
def loop (write : ChatItem → String) (buffer : String) (items : List ChatItem) : String :=
  items.foldl (fun buffer item => buffer ++ write item) buffer

/-- The first template takes a system message into the first message of the user. -/
def llama2 (items : List ChatItem) : String :=
  match items with
  | first :: second :: rest =>
    if first.role = "system" ∧ second.role = "user" then
      loop g.llama2Item ("[INST] <<SYS>>\n" ++ first.message ++ "\n<</SYS>>\n\n" ++ second.message ++
        " [/INST]" ++ g.eos) rest
    else loop g.llama2Item "" items
  | _ => loop g.llama2Item "" items

/-- The third template starts with a system message. -/
def deepSeek3 (items : List ChatItem) : String :=
  match items with
  | first :: rest =>
    if first.role = "system" then loop deepSeek3Item first.message rest
    else loop deepSeek3Item "" items
  | [] => loop deepSeek3Item "" items

/-- The text and the number of its last characters that belong to the answer. -/
def write (items : List ChatItem) (appendGenerationPrompt : Bool) : String × ℕ :=
  match g.type with
  | .unknown => ("", 0)
  | .llama2 => (g.llama2 items, 0)
  | .llama3 =>
    (loop g.llama3Item "" items ++
      if appendGenerationPrompt then "<|start_header_id|>assistant<|end_header_id|>\n\n" else "", 0)
  | .deepSeek3 =>
    if appendGenerationPrompt then (deepSeek3 items ++ "<｜Assistant｜><think>\n", 8)
    else (deepSeek3 items, 0)
  | .chatml =>
    (loop (fun item => chatmlItem item ++
      if appendGenerationPrompt then "<|im_start|>assistant\n" else "") "" items, 0)

/-- Write a chat. -/
def generate (items : List ChatItem) (appendGenerationPrompt : Bool) : GeneratedChat :=
  let (content, publicPromptSize) := g.write items appendGenerationPrompt
  ⟨content, if 0 < publicPromptSize then
    some (String.ofList (content.toList.drop (content.length - publicPromptSize))) else none⟩

end ChatTemplateGenerator

open ChatTemplateGenerator

/-- What starts an answer. -/
def generationPrompt : ChatTemplateType → String
  | .unknown => ""
  | .llama2 => ""
  | .llama3 => "<|start_header_id|>assistant<|end_header_id|>\n\n"
  | .deepSeek3 => "<｜Assistant｜><think>\n"
  | .chatml => "<|im_start|>assistant\n"

/-- With a prompt for the answer the text is the one without, and then one prompt. -/
def PromptAtEnd (g : ChatTemplateGenerator) (items : List ChatItem) : Prop :=
  (g.generate items true).content = (g.generate items false).content ++ generationPrompt g.type

/-- Two parts that are written one after the other read as the whole, when a system message stands in the
first part and not alone. -/
def PartsJoin (g : ChatTemplateGenerator) (first second : List ChatItem) : Prop :=
  (∀ item ∈ second, item.role ≠ "system") → (∀ item, first = [item] → item.role ≠ "system") →
    (g.generate (first ++ second) false).content =
      (g.generate first false).content ++ (g.generate second false).content

/-- A loop writes after what it finds. -/
theorem loop_buffer (write : ChatItem → String) (buffer : String) (items : List ChatItem) :
    loop write buffer items = buffer ++ loop write "" items := by
  induction items generalizing buffer with
  | nil => simp [loop]
  | cons item items ih =>
    have hstep : ∀ start, loop write start (item :: items) = loop write (start ++ write item) items :=
      fun start => Eq.refl _
    rw [hstep, hstep, ih (buffer ++ write item), ih ("" ++ write item), String.empty_append,
      String.append_assoc]

/-- A loop over two parts. -/
theorem loop_append (write : ChatItem → String) (buffer : String) (first second : List ChatItem) :
    loop write buffer (first ++ second) = loop write buffer first ++ loop write "" second := by
  have hsplit : loop write buffer (first ++ second) = loop write (loop write buffer first) second :=
    List.foldl_append
  rw [hsplit, loop_buffer]

/-- The first template writes items without a system message at the start one by one. -/
theorem llama2_of_start (g : ChatTemplateGenerator) {items : List ChatItem}
    (h : ∀ item ∈ items.head?, item.role ≠ "system") :
    g.llama2 items = loop g.llama2Item "" items := by
  cases items with
  | nil => exact Eq.refl _
  | cons first rest =>
    cases rest with
    | nil => exact Eq.refl _
    | cons second rest =>
      have hrole : ¬(first.role = "system" ∧ second.role = "user") :=
        fun hboth => h first (Option.mem_some_self first) hboth.1
      rw [llama2, if_neg hrole]

theorem llama2_append (g : ChatTemplateGenerator) {first second : List ChatItem}
    (hsecond : ∀ item ∈ second, item.role ≠ "system")
    (hfirst : ∀ item, first = [item] → item.role ≠ "system") :
    g.llama2 (first ++ second) = g.llama2 first ++ g.llama2 second := by
  have hstart : ∀ item ∈ second.head?, item.role ≠ "system" :=
    fun item hitem => hsecond item (List.mem_of_mem_head? hitem)
  rw [llama2_of_start g hstart]
  cases first with
  | nil =>
    rw [List.nil_append, llama2_of_start g hstart]
    exact String.empty_append.symm
  | cons a rest =>
    cases rest with
    | nil =>
      have ha : ∀ item ∈ (([a] : List ChatItem) ++ second).head?, item.role ≠ "system" := by
        intro item hitem
        injection hitem with hitem
        exact hfirst item (by rw [hitem])
      have hone : ∀ item ∈ ([a] : List ChatItem).head?, item.role ≠ "system" := by
        intro item hitem
        injection hitem with hitem
        exact hfirst item (by rw [hitem])
      rw [llama2_of_start g ha, llama2_of_start g hone, loop_append]
    | cons b rest =>
      rw [List.cons_append, List.cons_append, llama2, llama2]
      split
      · rw [loop_append]
      · rw [← List.cons_append, ← List.cons_append, loop_append]

/-- The third template writes items without a system message at the start one by one. -/
theorem deepSeek3_of_start {items : List ChatItem}
    (h : ∀ item ∈ items.head?, item.role ≠ "system") :
    deepSeek3 items = loop deepSeek3Item "" items := by
  cases items with
  | nil => exact Eq.refl _
  | cons first rest => rw [deepSeek3, if_neg (h first (Option.mem_some_self first))]

theorem deepSeek3_append {first second : List ChatItem}
    (hsecond : ∀ item ∈ second, item.role ≠ "system") :
    deepSeek3 (first ++ second) = deepSeek3 first ++ deepSeek3 second := by
  have hstart : ∀ item ∈ second.head?, item.role ≠ "system" :=
    fun item hitem => hsecond item (List.mem_of_mem_head? hitem)
  rw [deepSeek3_of_start hstart]
  cases first with
  | nil =>
    rw [List.nil_append, deepSeek3_of_start hstart]
    exact String.empty_append.symm
  | cons a rest =>
    rw [List.cons_append, deepSeek3, deepSeek3]
    split
    · rw [loop_append]
    · rw [← List.cons_append, loop_append]

/-- Parts join with every template. -/
theorem parts_join (g : ChatTemplateGenerator) (first second : List ChatItem) :
    PartsJoin g first second := by
  intro hsecond hfirst
  unfold generate write
  cases g.type with
  | unknown => exact Eq.refl _
  | llama2 => exact llama2_append g hsecond hfirst
  | llama3 =>
    simp only [Bool.false_eq_true, if_false, String.append_empty]
    exact loop_append g.llama3Item "" first second
  | deepSeek3 =>
    simp only [Bool.false_eq_true, if_false]
    exact deepSeek3_append hsecond
  | chatml =>
    simp only [Bool.false_eq_true, if_false, String.append_empty]
    exact loop_append chatmlItem "" first second

/-- A loop that writes a text after every item writes as many characters more as these texts have. -/
theorem loop_length (write : ChatItem → String) (text : String) (items : List ChatItem) :
    (loop (fun item => write item ++ text) "" items).length =
      (loop write "" items).length + items.length * text.length := by
  induction items with
  | nil => simp [loop]
  | cons item items ih =>
    have hstep : ∀ f : ChatItem → String, loop f "" (item :: items) = f item ++ loop f "" items := by
      intro f
      have hfirst : loop f "" (item :: items) = loop f ("" ++ f item) items := Eq.refl _
      rw [hfirst, loop_buffer, String.empty_append]
    rw [hstep, hstep, String.length_append, String.length_append, String.length_append, ih,
      List.length_cons, Nat.succ_mul]
    omega

/-- The prompt for the answer stands once at the end, except with the last template, which writes it after
every item. -/
theorem prompt_at_end_iff (g : ChatTemplateGenerator) (items : List ChatItem) :
    PromptAtEnd g items ↔ (g.type = .chatml → items.length = 1) := by
  unfold PromptAtEnd generate write generationPrompt
  cases htype : g.type with
  | unknown => simp
  | llama2 => simp
  | llama3 => simp
  | deepSeek3 => simp
  | chatml =>
    simp only [if_true, Bool.false_eq_true, if_false, String.append_empty, forall_const]
    constructor
    · intro h
      have hlength := congrArg String.length h
      have hprompt : "<|im_start|>assistant\n".length = 22 := by decide
      rw [loop_length, String.length_append, hprompt] at hlength
      have hcancel : items.length * 22 = 22 := Nat.add_left_cancel hlength
      omega
    · intro h
      obtain ⟨item, heq⟩ := List.length_eq_one_iff.mp h
      rw [heq]
      simp [loop]

/-- A chat reads as its parts with one prompt for the answer at its end, for all templates but the last,
and for that one with a single item. -/
theorem chat_template_laws_iff (g : ChatTemplateGenerator) (items first second : List ChatItem) :
    PromptAtEnd g items ∧ PartsJoin g first second ↔ (g.type = .chatml → items.length = 1) := by
  constructor
  · intro h
    exact (prompt_at_end_iff g items).mp h.1
  · intro h
    exact ⟨(prompt_at_end_iff g items).mpr h, parts_join g first second⟩

/-- Two messages and the prompt after each of them. -/
theorem not_prompt_at_end_chatml : ¬PromptAtEnd ⟨"<|im_end|>", .chatml⟩
    [⟨"system", "Be brief."⟩, ⟨"user", "Hello"⟩] := by
  intro h
  have hlength := (prompt_at_end_iff _ _).mp h (Eq.refl _)
  revert hlength
  decide

end LayerSkip.ChatTemplate
