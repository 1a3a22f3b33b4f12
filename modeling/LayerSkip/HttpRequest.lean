import LayerSkip.NnTopology
import Mathlib.Data.List.Basic
import Mathlib.Data.List.Infix

/-!
# Reading a request from a client

The interface server reads the headers piece by piece as they arrive, then as many bytes of a body as
`Content-Length` announces. Each piece of the headers is appended as a C string. What goes wrong
is an exception of one of several types, or the server waits for a client that stays silent.
-/

namespace LayerSkip.HttpRequest

open NnTopology

/-- Why a connection is not handled to its end. -/
inductive Failure
  | runtimeError (text : String)
  | outOfRange
  | parseError
  | typeError
  | assertion
  | transfer
  | executor
  | waits
  deriving DecidableEq, Repr

/-- What a client does when it has sent all it sends. -/
inductive Ending
  | closes
  | breaks
  | stops
  deriving DecidableEq, Repr

/-- What a client does with a reply. -/
inductive Reply
  | takes
  | refuses
  | stops
  deriving DecidableEq, Repr

/-- A connection: the pieces of the headers and the body as they arrive, each at most a buffer. -/
structure Client where
  /-- Pieces that arrive. -/
  pieces : List (List UInt8)
  /-- They are not empty and fit the buffer. -/
  sizes : ∀ piece ∈ pieces, piece ≠ [] ∧ piece.length ≤ 65535
  /-- What comes after them. -/
  ending : Ending
  /-- What becomes of the reply. -/
  reply : Reply

/-- Line feed. -/
def lf : UInt8 := 10

/-- Carriage return. -/
def cr : UInt8 := 13

/-- Colon. -/
def colon : UInt8 := 58

/-- Bytes of a text. -/
def ascii (text : List Char) : List UInt8 := text.map fun c => UInt8.ofNat c.toNat

/-- What a receive does that finds nothing more. -/
def Ending.failure (text : String) : Ending → Failure
  | .closes => .runtimeError text
  | .breaks => .runtimeError text
  | .stops => .waits

/-- The end of the headers. -/
def headerTerminator : List UInt8 := [cr, lf, cr, lf]

/-- Place of the end of the headers. -/
def findHeaderEnd : List UInt8 → Option ℕ
  | [] => none
  | b :: data => if headerTerminator.isPrefixOf (b :: data) then some 0
      else (findHeaderEnd data).map (· + 1)

/-- A piece as a C string. -/
def cString (piece : List UInt8) : List UInt8 := piece.takeWhile fun b => b ≠ 0

/-- Receive until the end of the headers is there. -/
def readHeaders (ending : Ending) : List UInt8 → List (List UInt8) →
    Except Failure (List UInt8 × List (List UInt8))
  | _, [] => .error (ending.failure "Error while reading headers from socket")
  | headerData, piece :: pieces =>
    let headerData := headerData ++ cString piece
    if (findHeaderEnd headerData).isSome then .ok (headerData, pieces)
    else readHeaders ending headerData pieces

/-- What was received past the end of the headers. -/
def extraReadPastHeader (headerData : List UInt8) : List UInt8 :=
  match findHeaderEnd headerData with
  | none => []
  | some headerEnd => headerData.drop (headerEnd + 4)

/-- Lines before the one that is a carriage return only, and what follows that one. -/
def headerLines : List UInt8 → List UInt8 → List (List UInt8) × List UInt8
  | line, [] => if line = [] ∨ line = [cr] then ([], []) else ([line], [])
  | line, b :: data =>
    if b = lf then
      if line = [cr] then ([], data)
      else
        let rest := headerLines [] data
        (line :: rest.1, rest.2)
    else headerLines (line ++ [b]) data

/-- A key and the value after the colon and a space. -/
def headerField (line : List UInt8) : Except Failure (Option (List UInt8 × List UInt8)) :=
  match line.findIdx? fun b => b = colon with
  | none => .ok none
  | some pos =>
    if pos + 2 ≤ line.length then .ok (some (line.take pos, line.drop (pos + 2)))
    else .error .outOfRange

/-- White space of a number. -/
def isSpace (b : UInt8) : Bool := b = 32 || (9 ≤ b && b ≤ 13)

/-- A decimal digit. -/
def isDigit (b : UInt8) : Bool := 48 ≤ b && b ≤ 57

/-- Value of digits. -/
def digitsValue (digits : List UInt8) : ℕ :=
  digits.foldl (fun value b => value * 10 + (b.toNat - 48)) 0

/-- `std::stoi`, with the text that the server gives an invalid argument. -/
def stoi (text : List UInt8) : Except Failure ℤ :=
  let text := text.dropWhile isSpace
  let negative := text.head? = some 45
  let digits := (if text.head? = some 45 ∨ text.head? = some 43 then text.tail else text).takeWhile
    isDigit
  let value : ℤ := if negative then -(digitsValue digits : ℤ) else digitsValue digits
  if digits = [] then .error (.runtimeError "Bad Content-Length header - not a number")
  else if -2147483648 ≤ value ∧ value ≤ 2147483647 then .ok value
  else .error .outOfRange

/-- The key of the body's length. -/
def contentLengthKey : List UInt8 :=
  ascii ['C', 'o', 'n', 't', 'e', 'n', 't', '-', 'L', 'e', 'n', 'g', 't', 'h']

/-- The announced length of the body, zero when there is none. -/
def findContentLength : List (List UInt8) → Except Failure ℤ
  | [] => .ok 0
  | line :: lines => do
    match ← headerField line with
    | none => findContentLength lines
    | some (key, value) => if key = contentLengthKey then stoi value else findContentLength lines

/-- Receive a number of bytes. -/
def readBody (ending : Ending) : List (List UInt8) → ℕ → Except Failure (List UInt8)
  | _, 0 => .ok []
  | [], _ + 1 => .error (ending.failure "Error while reading body from socket")
  | piece :: pieces, n + 1 =>
    if piece.length ≤ n + 1 then do
      let rest ← readBody ending pieces (n + 1 - piece.length)
      return piece ++ rest
    else .ok (piece.take (n + 1))

/-- Receive the headers and the announced body. -/
def readHttpRequest (client : Client) : Except Failure (List UInt8) := do
  let (headerData, pieces) ← readHeaders client.ending [] client.pieces
  let contentLength ← findContentLength (headerLines [] headerData).1
  if 0 < contentLength then
    let extra := (extraReadPastHeader headerData).length
    if contentLength < extra then
      throw (.runtimeError "Received more body data than Content-Length header said")
    let body ← readBody client.ending pieces (contentLength.toNat - extra)
    return headerData ++ body
  else return headerData

/-- The first line and what follows it. -/
def getline (data : List UInt8) : List UInt8 × List UInt8 :=
  (data.takeWhile fun b => b ≠ lf, (data.dropWhile fun b => b ≠ lf).drop 1)

/-- The words of a line. -/
def word (text : List UInt8) : List UInt8 × List UInt8 :=
  let text := text.dropWhile isSpace
  (text.takeWhile fun b => !isSpace b, text.dropWhile fun b => !isSpace b)

/-- Methods of a request. -/
inductive HttpMethod
  | get
  | post
  | put
  | delete
  | options
  | unknown
  deriving DecidableEq, Repr

/-- A method by its name. -/
def parseMethod (method : List UInt8) : HttpMethod :=
  if method = ascii ['G', 'E', 'T'] then .get
  else if method = ascii ['P', 'O', 'S', 'T'] then .post
  else if method = ascii ['P', 'U', 'T'] then .put
  else if method = ascii ['D', 'E', 'L', 'E', 'T', 'E'] then .delete
  else if method = ascii ['O', 'P', 'T', 'I', 'O', 'N', 'S'] then .options
  else .unknown

/-- Every line with a colon has a value, if only a carriage return. -/
def checkFields : List (List UInt8) → Except Failure Unit
  | [] => .ok ()
  | line :: lines => do
    let _ ← headerField line
    checkFields lines

section Headers

variable {ending : Ending} {headerData : List UInt8} {pieces rest : List (List UInt8)}

/-- What pieces add up to as C strings. -/
def received (pieces : List (List UInt8)) : List UInt8 := pieces.flatMap cString

/-- The headers end with a piece, and not before it. -/
structure HeadersArrive (pieces : List (List UInt8)) (headerData : List UInt8)
    (rest before : List (List UInt8)) : Prop where
  /-- The pieces of the headers come first. -/
  split : pieces = before ++ rest
  /-- They are the headers, with what follows them in the last piece. -/
  data : headerData = received before
  /-- The end is there. -/
  ends : (findHeaderEnd headerData).isSome
  /-- It was not there with fewer pieces. -/
  first : ∀ n < before.length, findHeaderEnd (received (before.take n)) = none

theorem received_cons (piece : List UInt8) (pieces : List (List UInt8)) :
    received (piece :: pieces) = cString piece ++ received pieces := List.flatMap_cons

/-- Receiving from some headers on. -/
theorem readHeaders_from {sofar : List UInt8} :
    readHeaders ending sofar pieces = .ok (headerData, rest) ↔
      ∃ before, pieces = before ++ rest ∧ before ≠ [] ∧ headerData = sofar ++ received before ∧
        (findHeaderEnd headerData).isSome ∧ ∀ n < before.length, 0 < n →
          findHeaderEnd (sofar ++ received (before.take n)) = none := by
  induction pieces generalizing sofar with
  | nil =>
    constructor
    · intro h
      cases h
    · intro h
      obtain ⟨before, hsplit, hnonempty, _⟩ := h
      exact absurd (List.append_eq_nil_iff.mp hsplit.symm).1 hnonempty
  | cons piece pieces ih =>
    unfold readHeaders
    dsimp only
    by_cases hend : (findHeaderEnd (sofar ++ cString piece)).isSome
    · rw [if_pos hend]
      constructor
      · intro h
        injection h with h
        obtain ⟨hdata, hrest⟩ := Prod.mk.inj h
        refine ⟨[piece], by rw [hrest]; exact Eq.refl _, List.cons_ne_nil _ _, ?_, ?_, ?_⟩
        · rw [← hdata, received_cons]
          simp [received]
        · rw [← hdata]
          exact hend
        · intro n hn hpos
          rw [List.length_singleton] at hn
          omega
      · intro h
        obtain ⟨before, hsplit, hnonempty, hdata, _, hfirst⟩ := h
        cases before with
        | nil => exact absurd (Eq.refl _) hnonempty
        | cons first later =>
          obtain ⟨hpiece, hpieces⟩ := List.cons.inj hsplit
          cases later with
          | nil =>
            rw [hdata, hpieces, ← hpiece]
            simp [received]
          | cons second later =>
            have hnone := hfirst 1 (by simp) Nat.zero_lt_one
            rw [List.take_succ_cons, List.take_zero, received_cons, ← hpiece] at hnone
            simp only [received, List.flatMap_nil, List.append_nil] at hnone
            rw [hnone] at hend
            cases hend
    · rw [if_neg hend, ih]
      constructor
      · intro h
        obtain ⟨before, hsplit, _, hdata, hsome, hfirst⟩ := h
        refine ⟨piece :: before, ?_, List.cons_ne_nil _ _, ?_, hsome, ?_⟩
        · rw [hsplit, List.cons_append]
        · rw [hdata, received_cons, List.append_assoc]
        · intro n hn hpos
          obtain ⟨k, hk⟩ := Nat.exists_eq_succ_of_ne_zero (Nat.ne_of_gt hpos)
          rw [hk, Nat.succ_eq_add_one, List.take_succ_cons, received_cons, ← List.append_assoc]
          rcases Nat.eq_zero_or_pos k with hzero | hkpos
          · rw [hzero, List.take_zero]
            simp only [received, List.flatMap_nil, List.append_nil]
            exact Option.not_isSome_iff_eq_none.mp hend
          · rw [hk, List.length_cons] at hn
            exact hfirst k (by omega) hkpos
      · intro h
        obtain ⟨before, hsplit, hnonempty, hdata, hsome, hfirst⟩ := h
        cases before with
        | nil => exact absurd (Eq.refl _) hnonempty
        | cons first later =>
          obtain ⟨hpiece, hpieces⟩ := List.cons.inj hsplit
          have hlater : later ≠ [] := by
            intro hnil
            rw [hdata, hnil, received_cons, ← hpiece] at hsome
            simp only [received, List.flatMap_nil, List.append_nil] at hsome
            exact hend hsome
          refine ⟨later, hpieces, hlater, ?_, hsome, ?_⟩
          · rw [hdata, received_cons, ← hpiece, List.append_assoc]
          · intro n hn hpos
            have hnone := hfirst (n + 1) (by rw [List.length_cons]; omega) (Nat.succ_pos n)
            rw [List.take_succ_cons, received_cons, ← hpiece, ← List.append_assoc] at hnone
            exact hnone

/-- The headers are read exactly when their end arrives. -/
theorem readHeaders_iff : readHeaders ending [] pieces = .ok (headerData, rest) ↔
    ∃ before, HeadersArrive pieces headerData rest before := by
  rw [readHeaders_from]
  constructor
  · intro h
    obtain ⟨before, hsplit, _, hdata, hsome, hfirst⟩ := h
    refine ⟨before, hsplit, hdata, hsome, ?_⟩
    intro n hn
    rcases Nat.eq_zero_or_pos n with hzero | hpos
    · rw [hzero, List.take_zero]
      exact Eq.refl _
    · exact hfirst n hn hpos
  · intro h
    obtain ⟨before, harrive⟩ := h
    refine ⟨before, harrive.split, ?_, harrive.data, harrive.ends, ?_⟩
    · intro hnil
      have hnone := harrive.ends
      rw [harrive.data, hnil] at hnone
      cases hnone
    · intro n hn _
      exact harrive.first n hn

end Headers

section Fields

/-- A line without a colon, or with a value after it, if only a carriage return. -/
def FieldOk (line : List UInt8) : Prop :=
  ∀ pos, (line.findIdx? fun b => b = colon) = some pos → pos + 2 ≤ line.length

/-- A line with a key. -/
def HasKey (key line : List UInt8) : Prop :=
  ∃ pos, (line.findIdx? fun b => b = colon) = some pos ∧ line.take pos = key

theorem headerField_ok {line : List UInt8} (h : FieldOk line) :
    ∃ field, headerField line = .ok field := by
  unfold headerField
  cases hcolon : line.findIdx? fun b => b = colon with
  | none => exact ⟨none, Eq.refl _⟩
  | some pos =>
    dsimp only
    rw [if_pos (h pos hcolon)]
    exact ⟨_, Eq.refl _⟩

theorem fieldOk_of_ok {line : List UInt8} {field : Option (List UInt8 × List UInt8)}
    (h : headerField line = .ok field) : FieldOk line := by
  intro pos hcolon
  unfold headerField at h
  rw [hcolon] at h
  dsimp only at h
  split at h
  · assumption
  · cases h

theorem headerField_some {line key value : List UInt8}
    (h : headerField line = .ok (some (key, value))) :
    ∃ pos, (line.findIdx? fun b => b = colon) = some pos ∧ pos + 2 ≤ line.length ∧
      key = line.take pos ∧ value = line.drop (pos + 2) := by
  unfold headerField at h
  cases hcolon : line.findIdx? fun b => b = colon with
  | none =>
    rw [hcolon] at h
    cases h
  | some pos =>
    rw [hcolon] at h
    dsimp only at h
    split at h
    · rename_i hfits
      injection h with h
      injection h with h
      obtain ⟨hkey, hvalue⟩ := Prod.mk.inj h
      exact ⟨pos, Eq.refl _, hfits, hkey.symm, hvalue.symm⟩
    · cases h

/-- All fields of a list of lines can be read exactly when each has a value. -/
theorem checkFields_iff {lines : List (List UInt8)} :
    checkFields lines = .ok () ↔ ∀ line ∈ lines, FieldOk line := by
  induction lines with
  | nil =>
    constructor
    · intro _ line hline
      cases hline
    · intro _
      exact Eq.refl _
  | cons line lines ih =>
    constructor
    · intro h
      unfold checkFields at h
      obtain ⟨field, hfield, hrest⟩ := bind_eq_ok h
      intro other hother
      cases List.mem_cons.mp hother with
      | inl heq => exact heq ▸ fieldOk_of_ok hfield
      | inr hlater => exact ih.mp hrest other hlater
    · intro h
      obtain ⟨field, hfield⟩ := headerField_ok (h line List.mem_cons_self)
      unfold checkFields
      rw [hfield]
      exact ih.mpr fun other hother => h other (List.mem_cons_of_mem line hother)

/-- The lines announce a length: that of the first line with the key, whose value is a number, and
zero without such a line. All lines before it can be read. -/
def Announces (lines : List (List UInt8)) (contentLength : ℤ) : Prop :=
  ((∀ line ∈ lines, FieldOk line ∧ ¬HasKey contentLengthKey line) ∧ contentLength = 0) ∨
    ∃ before line after pos, lines = before ++ line :: after ∧
      (∀ other ∈ before, FieldOk other ∧ ¬HasKey contentLengthKey other) ∧
      (line.findIdx? fun b => b = colon) = some pos ∧ line.take pos = contentLengthKey ∧
      pos + 2 ≤ line.length ∧ stoi (line.drop (pos + 2)) = .ok contentLength

theorem announces_cons {line : List UInt8} {lines : List (List UInt8)} {contentLength : ℤ}
    (hline : FieldOk line) (hkey : ¬HasKey contentLengthKey line) :
    Announces (line :: lines) contentLength ↔ Announces lines contentLength := by
  constructor
  · intro h
    cases h with
    | inl hnone =>
      exact .inl ⟨fun other hother => hnone.1 other (List.mem_cons_of_mem line hother), hnone.2⟩
    | inr hsome =>
      obtain ⟨before, field, after, pos, hsplit, hbefore, hcolon, hname, hfits, hnumber⟩ := hsome
      cases before with
      | nil =>
        obtain ⟨heq, _⟩ := List.cons.inj hsplit
        exact absurd ⟨pos, heq ▸ hcolon, heq ▸ hname⟩ hkey
      | cons first before =>
        obtain ⟨_, hrest⟩ := List.cons.inj hsplit
        exact .inr ⟨before, field, after, pos, hrest,
          fun other hother => hbefore other (List.mem_cons_of_mem first hother), hcolon, hname, hfits,
          hnumber⟩
  · intro h
    cases h with
    | inl hnone =>
      refine .inl ⟨?_, hnone.2⟩
      intro other hother
      cases List.mem_cons.mp hother with
      | inl heq => exact heq ▸ ⟨hline, hkey⟩
      | inr hlater => exact hnone.1 other hlater
    | inr hsome =>
      obtain ⟨before, field, after, pos, hsplit, hbefore, hrest⟩ := hsome
      refine .inr ⟨line :: before, field, after, pos, by rw [hsplit, List.cons_append], ?_, hrest⟩
      intro other hother
      cases List.mem_cons.mp hother with
      | inl heq => exact heq ▸ ⟨hline, hkey⟩
      | inr hlater => exact hbefore other hlater

theorem findContentLength_none {line : List UInt8} {lines : List (List UInt8)}
    (h : headerField line = .ok none) :
    findContentLength (line :: lines) = findContentLength lines := by
  rw [findContentLength, h]
  exact Eq.refl _

theorem findContentLength_some {line key value : List UInt8} {lines : List (List UInt8)}
    (h : headerField line = .ok (some (key, value))) :
    findContentLength (line :: lines) =
      if key = contentLengthKey then stoi value else findContentLength lines := by
  rw [findContentLength, h]
  exact Eq.refl _

theorem findContentLength_iff {lines : List (List UInt8)} {contentLength : ℤ} :
    findContentLength lines = .ok contentLength ↔ Announces lines contentLength := by
  induction lines with
  | nil =>
    constructor
    · intro h
      injection h with h
      refine .inl ⟨?_, h.symm⟩
      intro line hline
      cases hline
    · intro h
      cases h with
      | inl hnone => exact congrArg Except.ok hnone.2.symm
      | inr hsome =>
        obtain ⟨before, line, after, _, hsplit, _⟩ := hsome
        exact absurd hsplit.symm (List.append_ne_nil_of_right_ne_nil _ (List.cons_ne_nil _ _))
  | cons line lines ih =>
    cases hfield : headerField line with
    | error failure =>
      constructor
      · intro h
        unfold findContentLength at h
        rw [hfield] at h
        cases h
      · intro h
        have hok : FieldOk line := by
          cases h with
          | inl hnone => exact (hnone.1 line List.mem_cons_self).1
          | inr hsome =>
            obtain ⟨before, field, after, pos, hsplit, hbefore, hcolon, _, hfits, _⟩ := hsome
            cases before with
            | nil =>
              obtain ⟨heq, _⟩ := List.cons.inj hsplit
              intro pos' hpos'
              rw [heq, hcolon] at hpos'
              injection hpos' with hpos'
              rw [heq, ← hpos']
              exact hfits
            | cons first before =>
              obtain ⟨heq, _⟩ := List.cons.inj hsplit
              exact heq ▸ (hbefore first List.mem_cons_self).1
        obtain ⟨field, hsome⟩ := headerField_ok hok
        rw [hfield] at hsome
        cases hsome
    | ok field =>
      have hok := fieldOk_of_ok hfield
      cases field with
      | none =>
        have hkey : ¬HasKey contentLengthKey line := by
          intro h
          obtain ⟨pos, hcolon, _⟩ := h
          unfold headerField at hfield
          rw [hcolon] at hfield
          dsimp only at hfield
          split at hfield
          · injection hfield with hfield
            cases hfield
          · cases hfield
        rw [findContentLength_none hfield, ih, announces_cons hok hkey]
      | some pair =>
        obtain ⟨key, value⟩ := pair
        obtain ⟨pos, hcolon, hfits, hkey, hvalue⟩ := headerField_some hfield
        rw [findContentLength_some hfield]
        by_cases hname : key = contentLengthKey
        · rw [if_pos hname]
          constructor
          · intro h
            refine .inr ⟨[], line, lines, pos, Eq.refl _, ?_, hcolon, hkey.symm.trans hname, hfits,
              hvalue ▸ h⟩
            intro other hother
            cases hother
          · intro h
            cases h with
            | inl hnone =>
              exact absurd ⟨pos, hcolon, hkey.symm.trans hname⟩ (hnone.1 line List.mem_cons_self).2
            | inr hsome =>
              obtain ⟨before, field, after, pos', hsplit, hbefore, hcolon', _, _, hnumber⟩ := hsome
              cases before with
              | nil =>
                obtain ⟨heq, _⟩ := List.cons.inj hsplit
                rw [← heq, hcolon] at hcolon'
                injection hcolon' with hcolon'
                rw [hvalue, hcolon', heq]
                exact hnumber
              | cons first before =>
                obtain ⟨heq, _⟩ := List.cons.inj hsplit
                exact absurd ⟨pos, heq ▸ hcolon, heq ▸ hkey.symm.trans hname⟩
                  (hbefore first List.mem_cons_self).2
        · rw [if_neg hname, ih, announces_cons hok]
          intro h
          obtain ⟨pos', hcolon', hname'⟩ := h
          rw [hcolon] at hcolon'
          injection hcolon' with hcolon'
          rw [← hcolon', ← hkey] at hname'
          exact hname hname'

end Fields

section Body

variable {ending : Ending}

/-- A body is read exactly when that many bytes arrive. -/
theorem readBody_iff {pieces : List (List UInt8)} {n : ℕ} {body : List UInt8} :
    readBody ending pieces n = .ok body ↔
      n ≤ pieces.flatten.length ∧ body = pieces.flatten.take n := by
  induction pieces generalizing n body with
  | nil =>
    cases n with
    | zero =>
      unfold readBody
      constructor
      · intro h
        injection h with h
        exact ⟨Nat.zero_le _, h.symm⟩
      · intro h
        exact congrArg Except.ok h.2.symm
    | succ n =>
      constructor
      · intro h
        cases h
      · intro h
        exact absurd h.1 (Nat.not_succ_le_zero n)
  | cons piece pieces ih =>
    rw [List.flatten_cons, List.length_append]
    cases n with
    | zero =>
      unfold readBody
      constructor
      · intro h
        injection h with h
        exact ⟨Nat.zero_le _, h.symm⟩
      · intro h
        exact congrArg Except.ok h.2.symm
    | succ n =>
      unfold readBody
      by_cases hfits : piece.length ≤ n + 1
      · rw [if_pos hfits]
        constructor
        · intro h
          obtain ⟨rest, hrest, h⟩ := bind_eq_ok h
          injection h with h
          obtain ⟨hcount, hbytes⟩ := ih.mp hrest
          refine ⟨by omega, ?_⟩
          rw [← h, hbytes, List.take_append, List.take_of_length_le hfits]
        · intro h
          obtain ⟨hcount, hbytes⟩ := h
          have hrest := ih.mpr ⟨by omega, Eq.refl (pieces.flatten.take (n + 1 - piece.length))⟩
          rw [hrest, hbytes, List.take_append, List.take_of_length_le hfits]
          exact Eq.refl _
      · rw [if_neg hfits]
        have hlong : n + 1 ≤ piece.length := by omega
        constructor
        · intro h
          injection h with h
          refine ⟨by omega, ?_⟩
          rw [← h, List.take_append_of_le_length hlong]
        · intro h
          rw [h.2, List.take_append_of_le_length hlong]

/-- The body that belongs to headers: none, or as many bytes as are announced, of which those past
the end of the headers have been received. -/
def BodyArrives (headerData : List UInt8) (rest : List (List UInt8)) (contentLength : ℤ)
    (body : List UInt8) : Prop :=
  (contentLength ≤ 0 ∧ body = []) ∨
    ∃ missing : ℕ, 0 < contentLength ∧
      contentLength = (extraReadPastHeader headerData).length + missing ∧
      missing ≤ rest.flatten.length ∧ body = rest.flatten.take missing

/-- A request arrives: the headers up to their end, an announced length, the body. -/
def RequestArrives (client : Client) (data : List UInt8) : Prop :=
  ∃ headerData rest before contentLength body,
    HeadersArrive client.pieces headerData rest before ∧
    Announces (headerLines [] headerData).1 contentLength ∧
    BodyArrives headerData rest contentLength body ∧ data = headerData ++ body

theorem readHttpRequest_iff {client : Client} {data : List UInt8} :
    readHttpRequest client = .ok data ↔ RequestArrives client data := by
  constructor
  · intro h
    obtain ⟨arrived, hheaders, h⟩ := bind_eq_ok h
    obtain ⟨headerData, rest⟩ := arrived
    obtain ⟨before, harrive⟩ := readHeaders_iff.mp hheaders
    obtain ⟨contentLength, hlength, h⟩ := bind_eq_ok h
    have hannounces := findContentLength_iff.mp hlength
    dsimp only at h hannounces
    by_cases hbody : 0 < contentLength
    · rw [if_pos hbody] at h
      by_cases hextra : contentLength < (extraReadPastHeader headerData).length
      · rw [if_pos hextra] at h
        cases h
      · rw [if_neg hextra] at h
        obtain ⟨body, hread, h⟩ := bind_eq_ok h
        injection h with h
        obtain ⟨hcount, hbytes⟩ := readBody_iff.mp hread
        refine ⟨headerData, rest, before, contentLength, body, harrive, hannounces, ?_, h.symm⟩
        exact .inr ⟨_, hbody, by omega, hcount, hbytes⟩
    · rw [if_neg hbody] at h
      injection h with h
      refine ⟨headerData, rest, before, contentLength, [], harrive, hannounces, ?_, ?_⟩
      · exact .inl ⟨by omega, Eq.refl _⟩
      · rw [← h, List.append_nil]
  · intro h
    obtain ⟨headerData, rest, before, contentLength, body, harrive, hannounces, hbody, hdata⟩ := h
    have hheaders : readHeaders client.ending [] client.pieces = .ok (headerData, rest) :=
      readHeaders_iff.mpr ⟨before, harrive⟩
    have hlength := findContentLength_iff.mpr hannounces
    unfold readHttpRequest
    rw [hheaders]
    dsimp only [bind, Except.bind]
    rw [hlength]
    dsimp only
    cases hbody with
    | inl hnone =>
      rw [if_neg (by omega), hdata, hnone.2, List.append_nil]
      exact Eq.refl _
    | inr hsome =>
      obtain ⟨missing, hpos, hsum, hcount, hbytes⟩ := hsome
      have hmissing : contentLength.toNat - (extraReadPastHeader headerData).length = missing := by
        omega
      have hread : readBody client.ending rest missing = .ok body :=
        readBody_iff.mpr ⟨hcount, hbytes⟩
      rw [if_pos hpos, if_neg (by omega), hmissing, hread, hdata]
      exact Eq.refl _

end Body

end LayerSkip.HttpRequest
