import LayerSkip.HttpRequest
import Mathlib.Data.List.Basic
import Mathlib.Data.List.TakeWhile
import Mathlib.Tactic.Ring

/-!
# One stream of bytes and two readers

The gateway and the interface server each read a request from a socket. The gateway takes any
spelling of a header's name and drops white space in its value, the server compares the name as it
stands and skips a character after the colon. A request is a line, fields and a body; it arrives in
pieces of any sizes.
-/

namespace LayerSkip.RequestStream

open NnTopology HttpRequest

/-- A blank beside a value. -/
def isBlank (b : UInt8) : Bool := b = 32 || b = 9

/-- A byte of a line. -/
def isText (b : UInt8) : Bool := b ≠ 0 && b ≠ cr && b ≠ lf

/-- Signs of a name, from the exclamation mark to the tilde. -/
def nameSigns : List UInt8 := [33, 35, 36, 37, 38, 39, 42, 43, 45, 46, 94, 95, 96, 124, 126]

/-- A byte of a name. -/
def isNameByte (b : UInt8) : Bool :=
  isDigit b || (65 ≤ b && b ≤ 90) || (97 ≤ b && b ≤ 122) || nameSigns.contains b

/-- `tolower`. -/
def toLower (b : UInt8) : UInt8 := if 65 ≤ b && b ≤ 90 then b + 32 else b

/-- The key that the gateway compares with. -/
def lowerLengthKey : List UInt8 :=
  ascii ['c', 'o', 'n', 't', 'e', 'n', 't', '-', 'l', 'e', 'n', 'g', 't', 'h']

/-- A header field: a name, a colon, and a value between blanks. -/
structure Field where
  /-- Its name. -/
  name : List UInt8
  /-- Blanks after the colon. -/
  before : List UInt8
  /-- Its value. -/
  value : List UInt8
  /-- Blanks at the end of the line. -/
  after : List UInt8
  /-- A name is not empty. -/
  named : name ≠ [] ∧ name.all isNameByte
  /-- Blanks are blanks. -/
  blanks : before.all isBlank ∧ after.all isBlank
  /-- A value stays on its line. -/
  text : value.all isText

/-- The line of a field. -/
def Field.line (field : Field) : List UInt8 :=
  field.name ++ colon :: (field.before ++ (field.value ++ field.after))

/-- A field that announces the length of the body, in any spelling. -/
def Field.IsLength (field : Field) : Prop := field.name.map toLower = lowerLengthKey

/-- The end of a line. -/
def crlf : List UInt8 := [cr, lf]

/-- A request line, header fields and a body. -/
structure Message where
  /-- Method. -/
  method : List UInt8
  /-- What follows the method and a space. -/
  target : List UInt8
  /-- Header fields. -/
  fields : List Field
  /-- Body. -/
  body : List UInt8

/-- The first line. -/
def Message.start (message : Message) : List UInt8 := message.method ++ 32 :: message.target

/-- All lines. -/
def Message.lines (message : Message) : List (List UInt8) :=
  message.start :: message.fields.map Field.line

/-- Lines with their ends, and the empty line. -/
def headOf (lines : List (List UInt8)) : List UInt8 :=
  (lines.flatMap fun line => line ++ crlf) ++ crlf

/-- The header block. -/
def Message.head (message : Message) : List UInt8 := headOf message.lines

/-- The stream. -/
def Message.bytes (message : Message) : List UInt8 := message.head ++ message.body

/-- A message that is well formed. -/
structure Request extends Message where
  /-- The method is a name. -/
  methodName : method ≠ [] ∧ method.all isNameByte
  /-- The rest of the first line stays on it. -/
  targetText : target.all isText
  /-- Every announced length is that of the body. -/
  announced : ∀ field ∈ fields, field.IsLength →
    field.value ≠ [] ∧ field.value.all isDigit ∧ digitsValue field.value = body.length
  /-- A body is announced. -/
  bodyless : (∀ field ∈ fields, ¬field.IsLength) → body = []
  /-- It fits a text. -/
  addressable : toMessage.bytes.length < 2 ^ 63

/-- A request that arrives, in pieces that fit the reader's buffer. -/
structure Delivery (request : Request) (room : ℕ) where
  /-- The pieces. -/
  pieces : List (List UInt8)
  /-- They are not empty and fit the buffer. -/
  sizes : ∀ piece ∈ pieces, piece ≠ [] ∧ piece.length ≤ room
  /-- They are the request. -/
  whole : pieces.flatten = request.bytes
  /-- What the sender does after it. -/
  ending : Ending

/-- The sender as a client of the interface server. -/
def Delivery.client {request : Request} (delivery : Delivery request 65535) : Client where
  pieces := delivery.pieces
  sizes := delivery.sizes
  ending := delivery.ending
  reply := .takes

/-- What arrives with the last of a number of bytes, past it. -/
def pastHeaders (n : ℕ) : List (List UInt8) → ℕ
  | [] => 0
  | piece :: pieces =>
    if n ≤ piece.length then piece.length - n else pastHeaders (n - piece.length) pieces

/-- How much of the body arrives with the end of the headers. -/
def Delivery.early {request : Request} {room : ℕ} (delivery : Delivery request room) : ℕ :=
  pastHeaders request.head.length delivery.pieces

section Gateway

/-- Values of a size. -/
def sizeRange : ℕ := 2 ^ 64

/-- `strtoull`: digits after white space and a sign, the largest value when they exceed it. -/
def strtoull (text : List UInt8) : ℕ :=
  let text := text.dropWhile isSpace
  let negative := text.head? = some 45
  let digits := (if text.head? = some 45 ∨ text.head? = some 43 then text.tail else text).takeWhile
    isDigit
  if sizeRange ≤ digitsValue digits then sizeRange - 1
  else if negative then (sizeRange - digitsValue digits) % sizeRange
  else digitsValue digits

/-- Lines up to the empty one, as far as they have ends. -/
def crlfLines : List UInt8 → List UInt8 → List (List UInt8)
  | _, [] => []
  | _, [_] => []
  | line, b :: c :: data =>
    if b = cr ∧ c = lf then
      if line = [] then [] else line :: crlfLines [] data
    else crlfLines (line ++ [b]) (c :: data)

/-- The length in the first line with the key. -/
def parseContentLength : List (List UInt8) → ℕ
  | [] => 0
  | line :: lines =>
    match line.findIdx? fun b => b = colon with
    | none => parseContentLength lines
    | some pos =>
      if (line.take pos).map toLower = lowerLengthKey then
        let value := (line.drop (pos + 1)).filter fun b => !isSpace b
        if value = [] then 0 else strtoull value
      else parseContentLength lines

/-- Receive until the end of the headers is there, at most some bytes. -/
def readHeadersRaw (ending : Ending) (limit : ℕ) : List UInt8 → List (List UInt8) →
    Except Failure (List UInt8 × ℕ × List (List UInt8))
  | _, [] => .error (ending.failure "Failed reading request headers")
  | buffer, piece :: pieces =>
    let buffer := buffer ++ piece
    if limit < buffer.length then
      .error (.runtimeError "Request too large while reading headers")
    else
      match findHeaderEnd buffer with
      | some headerEnd => .ok (buffer, headerEnd, pieces)
      | none => readHeadersRaw ending limit buffer pieces

/-- Receive until a number of bytes are there. -/
def readBodyRaw (ending : Ending) (size : ℕ) : List UInt8 → List (List UInt8) →
    Except Failure (List UInt8)
  | buffer, [] =>
    if buffer.length < size then .error (ending.failure "Failed reading request body")
    else .ok buffer
  | buffer, piece :: pieces =>
    if buffer.length < size then
      let buffer := buffer ++ piece
      if (size + 16384) % sizeRange < buffer.length then
        .error (.runtimeError "Received more body bytes than Content-Length")
      else readBodyRaw ending size buffer pieces
    else .ok buffer

/-- The gateway's reading of a request. -/
def readHttpRequestRaw (ending : Ending) (pieces : List (List UInt8)) (maxBodyBytes : UInt64) :
    Except Failure (List UInt8) := do
  let (buffer, headerEnd, pieces) ← readHeadersRaw ending (maxBodyBytes + 65536).toNat [] pieces
  let contentLength := parseContentLength (crlfLines [] buffer)
  if maxBodyBytes.toNat < contentLength then
    throw (.runtimeError "Request body exceeds max body bytes")
  let size := (headerEnd + 4 + contentLength) % sizeRange
  let buffer ← readBodyRaw ending size buffer pieces
  return buffer.take size

end Gateway

/-- Both readers return the request as it was sent. -/
def ReadsAsSent {request : Request} (delivery : Delivery request 65535)
    (incoming : Delivery request 65536) (maxBodyBytes : UInt64) : Prop :=
  readHttpRequest delivery.client = .ok request.bytes ∧
    readHttpRequestRaw incoming.ending incoming.pieces maxBodyBytes = .ok request.bytes

/-- The server takes the length from a field: a blank or a zero stands before the digits it reads,
or these are zeros and all of the body is there. -/
def Field.LengthRead (field : Field) (bodyLength early : ℕ) : Prop :=
  (bodyLength < 2 ^ 31 ∧ (field.before ≠ [] ∨ ∃ digits, digits ≠ [] ∧ field.value = 48 :: digits)) ∨
    (field.before = [] ∧ early = bodyLength ∧ ∃ digit digits, digits ≠ [] ∧
      field.value = digit :: digits ∧ digitsValue digits = 0)

/-- When both readers return the request. -/
structure ReadAlike {request : Request} (delivery : Delivery request 65535)
    (incoming : Delivery request 65536) (maxBodyBytes : UInt64) : Prop where
  /-- No zero byte of the body arrives with the end of the headers. -/
  plain : 0 ∉ request.body.take delivery.early
  /-- The first field with the server's spelling is read as it should, and without one all of the
  body arrives with the end of the headers. -/
  length : match request.fields.find? fun field => field.name = contentLengthKey with
    | some field => field.LengthRead request.body.length delivery.early
    | none => delivery.early = request.body.length
  /-- The body is within the gateway's limit. -/
  fitsBody : request.body.length ≤ maxBodyBytes.toNat
  /-- The headers, with what comes with their end, are within the limit for headers. -/
  fitsHead : request.head.length + incoming.early ≤ (maxBodyBytes + 65536).toNat

section HeaderEnd

theorem findHeaderEnd_cons {b : UInt8} {data : List UInt8} (h : b ≠ cr) :
    findHeaderEnd (b :: data) = (findHeaderEnd data).map (· + 1) := by
  have hfirst : headerTerminator.isPrefixOf (b :: data) = false := by
    simp [headerTerminator, List.isPrefixOf, h.symm]
  rw [findHeaderEnd, hfirst]
  simp

theorem findHeaderEnd_text {text data : List UInt8} (h : ∀ b ∈ text, b ≠ cr) :
    findHeaderEnd (text ++ data) = (findHeaderEnd data).map (· + text.length) := by
  induction text with
  | nil => simp
  | cons b text ih =>
    have hrest := ih fun c hc => h c (List.mem_cons_of_mem b hc)
    rw [List.cons_append, findHeaderEnd_cons (h b List.mem_cons_self), hrest]
    cases findHeaderEnd data with
    | none => simp
    | some n =>
      simp only [Option.map_some, List.length_cons]
      congr 1

theorem findHeaderEnd_crlf {b : UInt8} {data : List UInt8} (h : b ≠ cr) :
    findHeaderEnd (cr :: lf :: b :: data) = (findHeaderEnd (b :: data)).map (· + 2) := by
  have hfirst : headerTerminator.isPrefixOf (cr :: lf :: b :: data) = false := by
    simp [headerTerminator, List.isPrefixOf, h.symm]
  have hlf : lf ≠ cr := by decide
  rw [findHeaderEnd, hfirst]
  simp only [Bool.false_eq_true, if_false]
  rw [findHeaderEnd_cons hlf]
  cases findHeaderEnd (b :: data) with
  | none => simp
  | some n => simp

/-- The end of the headers is the empty line after the lines. -/
theorem findHeaderEnd_headOf {lines : List (List UInt8)} {data : List UInt8} (hlines : lines ≠ [])
    (h : ∀ line ∈ lines, line ≠ [] ∧ ∀ b ∈ line, b ≠ cr) :
    findHeaderEnd (headOf lines ++ data) = some ((headOf lines).length - 4) := by
  induction lines with
  | nil => exact absurd (Eq.refl _) hlines
  | cons line lines ih =>
    have hline := h line List.mem_cons_self
    have hhead : headOf (line :: lines) ++ data = line ++ (cr :: lf :: (headOf lines ++ data)) := by
      simp [headOf, crlf]
    have hlength : (headOf (line :: lines)).length = line.length + 2 + (headOf lines).length := by
      simp [headOf, crlf]
      omega
    rw [hhead, findHeaderEnd_text hline.2, hlength]
    cases lines with
    | nil =>
      have hfirst : findHeaderEnd (cr :: lf :: (headOf [] ++ data)) = some 0 := by
        simp [headOf, crlf, findHeaderEnd, headerTerminator]
      rw [hfirst]
      simp [headOf, crlf]
    | cons next lines =>
      have hnext := h next (List.mem_cons_of_mem line List.mem_cons_self)
      have hrest := ih (List.cons_ne_nil _ _) fun other hother =>
        h other (List.mem_cons_of_mem line hother)
      cases next with
      | nil => exact absurd (Eq.refl _) hnext.1
      | cons b next =>
        have hb := hnext.2 b List.mem_cons_self
        have hsplit : headOf ((b :: next) :: lines) ++ data =
            b :: (next ++ (crlf ++ (headOf lines ++ data))) := by
          simp [headOf]
        have hlong : 4 ≤ (headOf ((b :: next) :: lines)).length := by
          simp [headOf, crlf]
          omega
        rw [hsplit, findHeaderEnd_crlf hb, ← hsplit, hrest]
        simp only [Option.map_some]
        congr 1
        omega

/-- The end of the headers lies inside the data. -/
theorem findHeaderEnd_le {data : List UInt8} {place : ℕ} (h : findHeaderEnd data = some place) :
    place + 4 ≤ data.length := by
  induction data generalizing place with
  | nil => cases h
  | cons b data ih =>
    rw [findHeaderEnd] at h
    split at h
    · rename_i hfirst
      have hlength := (List.isPrefixOf_iff_prefix.mp hfirst).length_le
      injection h with h
      simp only [headerTerminator, List.length_cons, List.length_nil] at hlength
      rw [← h, List.length_cons]
      omega
    · cases hrest : findHeaderEnd data with
      | none =>
        rw [hrest] at h
        cases h
      | some n =>
        have hle := ih hrest
        simp only [hrest, Option.map_some, Option.some.injEq] at h
        rw [← h, List.length_cons]
        omega

/-- What has been found stays when more arrives. -/
theorem findHeaderEnd_append {data more : List UInt8} {place : ℕ}
    (h : findHeaderEnd data = some place) : findHeaderEnd (data ++ more) = some place := by
  induction data generalizing place with
  | nil => cases h
  | cons b data ih =>
    rw [findHeaderEnd] at h
    rw [List.cons_append, findHeaderEnd]
    by_cases hfirst : headerTerminator.isPrefixOf (b :: data)
    · have hlonger : headerTerminator.isPrefixOf (b :: (data ++ more)) := by
        rw [List.isPrefixOf_iff_prefix] at hfirst
        rw [List.isPrefixOf_iff_prefix, ← List.cons_append]
        exact hfirst.trans (List.prefix_append _ _)
      rw [if_pos hfirst] at h
      rw [if_pos hlonger]
      exact h
    · rw [if_neg hfirst] at h
      cases hrest : findHeaderEnd data with
      | none =>
        rw [hrest] at h
        cases h
      | some n =>
        rw [hrest] at h
        have hlonger : ¬headerTerminator.isPrefixOf (b :: (data ++ more)) := by
          intro hlonger
          have hprefix := List.isPrefixOf_iff_prefix.mp hlonger
          have hlength : headerTerminator.length ≤ (b :: data).length := by
            have hle := findHeaderEnd_le hrest
            simp only [headerTerminator, List.length_cons, List.length_nil]
            omega
          exact hfirst (List.isPrefixOf_iff_prefix.mpr
            (List.prefix_of_prefix_length_le hprefix (List.prefix_append (b :: data) more) hlength))
        rw [if_neg hlonger, ih hrest]
        exact h

end HeaderEnd

section Lines

/-- A line of the server's reader. -/
theorem headerLines_line {sofar line data : List UInt8} (h : ∀ b ∈ line, b ≠ lf)
    (hline : sofar ++ line ≠ []) :
    (headerLines sofar (line ++ (crlf ++ data))).1 =
      (sofar ++ line ++ [cr]) :: (headerLines [] data).1 := by
  induction line generalizing sofar with
  | nil =>
    have hne : sofar ++ [cr] ≠ [cr] := by
      intro heq
      rw [List.append_nil] at hline
      exact hline (List.append_left_eq_self.mp heq)
    have hcr : cr ≠ lf := by decide
    simp only [crlf, List.nil_append, List.cons_append, List.append_nil]
    rw [headerLines, if_neg hcr, headerLines, if_pos (Eq.refl _), if_neg hne]
  | cons b line ih =>
    have hb := h b List.mem_cons_self
    have hrest := @ih (sofar ++ [b]) (fun c hc => h c (List.mem_cons_of_mem b hc)) (by simp)
    rw [List.cons_append, headerLines, if_neg hb, hrest]
    simp

/-- Lines of a header block as the server's reader has them. -/
theorem headerLines_headOf {lines : List (List UInt8)} {data : List UInt8}
    (h : ∀ line ∈ lines, line ≠ [] ∧ ∀ b ∈ line, b ≠ lf) :
    (headerLines [] (headOf lines ++ data)).1 = lines.map fun line => line ++ [cr] := by
  induction lines with
  | nil =>
    have hcr : cr ≠ lf := by decide
    simp [headOf, crlf, headerLines, hcr]
  | cons line lines ih =>
    have hline := h line List.mem_cons_self
    have hhead : headOf (line :: lines) ++ data = line ++ (crlf ++ (headOf lines ++ data)) := by
      simp [headOf]
    rw [hhead, headerLines_line hline.2 (by simpa using hline.1),
      ih fun other hother => h other (List.mem_cons_of_mem line hother)]
    simp

/-- A line of the gateway's reader. -/
theorem crlfLines_line {sofar line data : List UInt8} (h : ∀ b ∈ line, b ≠ cr)
    (hline : sofar ++ line ≠ []) :
    crlfLines sofar (line ++ (crlf ++ data)) = (sofar ++ line) :: crlfLines [] data := by
  induction line generalizing sofar with
  | nil =>
    rw [List.append_nil] at hline
    simp [crlf, crlfLines, hline]
  | cons b line ih =>
    have hb := h b List.mem_cons_self
    have hrest := @ih (sofar ++ [b]) (fun c hc => h c (List.mem_cons_of_mem b hc)) (by simp)
    have hstep : crlfLines sofar (b :: (line ++ (crlf ++ data))) =
        crlfLines (sofar ++ [b]) (line ++ (crlf ++ data)) := by
      cases line with
      | nil => simp [crlf, crlfLines, hb]
      | cons c line => simp [crlfLines, hb]
    rw [List.cons_append, hstep, hrest]
    simp

/-- Lines of a header block as the gateway's reader has them. -/
theorem crlfLines_headOf {lines : List (List UInt8)} {data : List UInt8}
    (h : ∀ line ∈ lines, line ≠ [] ∧ ∀ b ∈ line, b ≠ cr) :
    crlfLines [] (headOf lines ++ data) = lines := by
  induction lines with
  | nil => simp [headOf, crlf, crlfLines]
  | cons line lines ih =>
    have hline := h line List.mem_cons_self
    have hhead : headOf (line :: lines) ++ data = line ++ (crlf ++ (headOf lines ++ data)) := by
      simp [headOf]
    rw [hhead, crlfLines_line hline.2 (by simpa using hline.1),
      ih fun other hother => h other (List.mem_cons_of_mem line hother)]
    simp

end Lines

section Wellformed

theorem isText_of_isNameByte {b : UInt8} (h : isNameByte b) : isText b ∧ b ≠ colon ∧ b ≠ 32 := by
  have hall : ∀ v : BitVec 8, isNameByte ⟨v⟩ →
      isText ⟨v⟩ ∧ (⟨v⟩ : UInt8) ≠ colon ∧ (⟨v⟩ : UInt8) ≠ 32 := by
    decide +kernel
  exact hall b.toBitVec h

theorem isText_of_isBlank {b : UInt8} (h : isBlank b) : isText b ∧ isSpace b := by
  simp only [isBlank, Bool.or_eq_true, decide_eq_true_eq] at h
  rcases h with h | h
  · rw [h]
    decide
  · rw [h]
    decide

theorem isText_iff {b : UInt8} : isText b ↔ b ≠ 0 ∧ b ≠ cr ∧ b ≠ lf := by
  simp [isText, and_assoc]

theorem Field.line_text (field : Field) : ∀ b ∈ field.line, isText b := by
  intro b hb
  have hcolon : isText colon := by decide
  have hnamed := List.all_eq_true.mp field.named.2
  have hbefore := List.all_eq_true.mp field.blanks.1
  have hafter := List.all_eq_true.mp field.blanks.2
  have hvalue := List.all_eq_true.mp field.text
  simp only [Field.line, List.mem_append, List.mem_cons] at hb
  rcases hb with hb | hb | hb | hb | hb
  · exact (isText_of_isNameByte (hnamed b hb)).1
  · exact hb ▸ hcolon
  · exact (isText_of_isBlank (hbefore b hb)).1
  · exact hvalue b hb
  · exact (isText_of_isBlank (hafter b hb)).1

theorem Request.start_text (request : Request) : ∀ b ∈ request.start, isText b := by
  intro b hb
  have hspace : isText 32 := by decide
  simp only [Message.start, List.mem_append, List.mem_cons] at hb
  rcases hb with hb | hb | hb
  · exact (isText_of_isNameByte (List.all_eq_true.mp request.methodName.2 b hb)).1
  · exact hb ▸ hspace
  · exact List.all_eq_true.mp request.targetText b hb

/-- No line of a request is empty or has a byte of a line's end, or a zero byte. -/
theorem Request.lines_text (request : Request) :
    ∀ line ∈ request.lines, line ≠ [] ∧ ∀ b ∈ line, isText b := by
  intro line hline
  cases List.mem_cons.mp hline with
  | inl hstart =>
    rw [hstart]
    exact ⟨List.append_ne_nil_of_right_ne_nil _ (List.cons_ne_nil _ _), request.start_text⟩
  | inr hfield =>
    obtain ⟨field, _, heq⟩ := List.mem_map.mp hfield
    rw [← heq]
    exact ⟨List.append_ne_nil_of_right_ne_nil _ (List.cons_ne_nil _ _), field.line_text⟩

/-- The header block has no zero byte. -/
theorem Request.head_nonzero (request : Request) : ∀ b ∈ request.head, b ≠ 0 := by
  intro b hb
  have hend : ∀ c ∈ crlf, c ≠ 0 := by
    simp [crlf, cr, lf]
  simp only [Message.head, headOf, List.mem_append, List.mem_flatMap] at hb
  rcases hb with hb | hb
  · obtain ⟨line, hline, hb⟩ := hb
    rcases hb with hb | hb
    · exact (isText_iff.mp ((request.lines_text line hline).2 b hb)).1
    · exact hend b hb
  · exact hend b hb

variable (request : Request) (data : List UInt8)

theorem Request.findHeaderEnd_head :
    findHeaderEnd (request.head ++ data) = some (request.head.length - 4) := by
  refine findHeaderEnd_headOf (List.cons_ne_nil _ _) ?_
  intro line hline
  have htext := request.lines_text line hline
  exact ⟨htext.1, fun b hb => (isText_iff.mp (htext.2 b hb)).2.1⟩

theorem Request.headerLines_head :
    (headerLines [] (request.head ++ data)).1 = request.lines.map fun line => line ++ [cr] := by
  refine headerLines_headOf ?_
  intro line hline
  have htext := request.lines_text line hline
  exact ⟨htext.1, fun b hb => (isText_iff.mp (htext.2 b hb)).2.2⟩

theorem Request.crlfLines_head : crlfLines [] (request.head ++ data) = request.lines := by
  refine crlfLines_headOf ?_
  intro line hline
  have htext := request.lines_text line hline
  exact ⟨htext.1, fun b hb => (isText_iff.mp (htext.2 b hb)).2.1⟩

theorem Request.head_long : 4 ≤ request.head.length := by
  simp [Message.head, headOf, crlf, Message.lines]
  omega

/-- A part of the header block does not show its end. -/
theorem Request.findHeaderEnd_part {part more : List UInt8} (h : part ++ more = request.head)
    (hmore : more ≠ []) : findHeaderEnd part = none := by
  cases hfound : findHeaderEnd part with
  | none => exact Eq.refl _
  | some place =>
    have hle := findHeaderEnd_le hfound
    have hhead := request.findHeaderEnd_head []
    have hwhole : findHeaderEnd (part ++ more) = some place := findHeaderEnd_append hfound
    rw [List.append_nil, ← h, hwhole] at hhead
    injection hhead with hplace
    have hpositive := List.length_pos_iff.mpr hmore
    rw [List.length_append] at hplace
    omega

end Wellformed

section Arrival

variable (request : Request) {ending : Ending} {sofar piece : List UInt8}
  {pieces : List (List UInt8)}

/-- A piece that completes the headers. -/
theorem Request.completes {rest : List UInt8} (h : sofar ++ (piece ++ rest) = request.bytes)
    (hshort : sofar.length < request.head.length)
    (hfull : request.head.length ≤ sofar.length + piece.length) :
    ∃ first, sofar ++ first = request.head ∧
      piece = first ++ request.body.take (piece.length - (request.head.length - sofar.length)) ∧
      rest = request.body.drop (piece.length - (request.head.length - sofar.length)) ∧
      piece.length - (request.head.length - sofar.length) ≤ request.body.length := by
  rw [← List.append_assoc, Message.bytes, List.append_eq_append_iff] at h
  cases h with
  | inl hmore =>
    obtain ⟨more, hhead, hrest⟩ := hmore
    have hlength := congrArg List.length hhead
    simp only [List.length_append] at hlength
    have hnone : more = [] := List.eq_nil_of_length_eq_zero (by omega)
    have hcount : piece.length - (request.head.length - sofar.length) = 0 := by
      rw [hnone, List.length_nil] at hlength
      omega
    rw [hnone, List.append_nil] at hhead
    rw [hnone, List.nil_append] at hrest
    refine ⟨piece, hhead.symm, ?_, ?_, ?_⟩
    · rw [hcount, List.take_zero, List.append_nil]
    · rw [hcount, List.drop_zero]
      exact hrest
    · rw [hcount]
      exact Nat.zero_le _
  | inr hpast =>
    obtain ⟨early, hpiece, hbody⟩ := hpast
    rw [List.append_eq_append_iff] at hpiece
    cases hpiece with
    | inl hfirst =>
      obtain ⟨first, hhead, hpiece⟩ := hfirst
      have hcount : piece.length - (request.head.length - sofar.length) = early.length := by
        rw [hhead, hpiece]
        simp only [List.length_append]
        omega
      refine ⟨first, hhead.symm, ?_, ?_, ?_⟩
      · rw [hcount, hbody, List.take_left']
        · exact hpiece
        · exact Eq.refl _
      · rw [hcount, hbody, List.drop_left']
        exact Eq.refl _
      · rw [hcount, hbody, List.length_append]
        omega
    | inr hlong =>
      obtain ⟨first, hsofar, _⟩ := hlong
      have hlength := congrArg List.length hsofar
      rw [List.length_append] at hlength
      omega

/-- A piece that leaves the headers incomplete. -/
theorem Request.leaves {rest : List UInt8} (h : sofar ++ (piece ++ rest) = request.bytes)
    (hpart : sofar.length + piece.length < request.head.length) :
    ∃ more, more ≠ [] ∧ sofar ++ piece ++ more = request.head := by
  rw [← List.append_assoc, Message.bytes, List.append_eq_append_iff] at h
  cases h with
  | inl hmore =>
    obtain ⟨more, hhead, _⟩ := hmore
    refine ⟨more, ?_, hhead.symm⟩
    intro hnone
    rw [hnone, List.append_nil] at hhead
    rw [hhead, List.length_append] at hpart
    omega
  | inr hpast =>
    obtain ⟨early, hpiece, _⟩ := hpast
    have hlength := congrArg List.length hpiece
    simp only [List.length_append] at hlength
    omega

theorem cString_of_nonzero {text : List UInt8} (h : ∀ b ∈ text, b ≠ 0) : cString text = text := by
  rw [cString, List.takeWhile_eq_self_iff]
  intro b hb
  exact decide_eq_true (h b hb)

theorem cString_append {text more : List UInt8} (h : ∀ b ∈ text, b ≠ 0) :
    cString (text ++ more) = text ++ cString more := by
  rw [cString, List.takeWhile_append_of_pos]
  · exact Eq.refl _
  · intro b hb
    exact decide_eq_true (h b hb)

/-- Pieces that leave the headers incomplete come first, and then one completes them. -/
theorem Request.arrival {Holds : List UInt8 → List (List UInt8) → ℕ → Prop}
    (hcompletes : ∀ {sofar piece first : List UInt8} {pieces : List (List UInt8)} {count : ℕ},
      sofar ++ first = request.head → piece = first ++ request.body.take count →
      pieces.flatten = request.body.drop count → count ≤ request.body.length →
      Holds sofar (piece :: pieces) count)
    (hleaves : ∀ {sofar piece more : List UInt8} {pieces : List (List UInt8)} {count : ℕ},
      more ≠ [] → sofar ++ piece ++ more = request.head → Holds (sofar ++ piece) pieces count →
      Holds sofar (piece :: pieces) count)
    (h : sofar ++ pieces.flatten = request.bytes) (hshort : sofar.length < request.head.length) :
    Holds sofar pieces (pastHeaders (request.head.length - sofar.length) pieces) := by
  induction pieces generalizing sofar with
  | nil =>
    have hlength := congrArg List.length h
    simp only [List.flatten_nil, List.append_nil, Message.bytes, List.length_append] at hlength
    omega
  | cons piece pieces ih =>
    rw [List.flatten_cons] at h
    by_cases hfull : request.head.length ≤ sofar.length + piece.length
    · obtain ⟨first, hhead, hpiece, hrest, hcount⟩ := request.completes h hshort hfull
      rw [pastHeaders, if_pos (by omega)]
      exact hcompletes hhead hpiece hrest hcount
    · obtain ⟨more, hmore, hhead⟩ := request.leaves h (by omega)
      have hnext := @ih (sofar ++ piece) (by rw [List.append_assoc]; exact h)
        (by rw [List.length_append]; omega)
      rw [List.length_append, ← Nat.sub_sub] at hnext
      rw [pastHeaders, if_neg (by omega)]
      exact hleaves hmore hhead hnext

/-- The server has the headers, and what came with their end up to a zero byte. -/
theorem Request.readHeaders_eq (h : sofar ++ pieces.flatten = request.bytes)
    (hshort : sofar.length < request.head.length) :
    ∃ rest, readHeaders ending sofar pieces = .ok (request.head ++
        cString (request.body.take (pastHeaders (request.head.length - sofar.length) pieces)), rest) ∧
      rest.flatten = request.body.drop (pastHeaders (request.head.length - sofar.length) pieces) ∧
      pastHeaders (request.head.length - sofar.length) pieces ≤ request.body.length := by
  refine @Request.arrival request _ _ (fun sofar pieces count =>
    ∃ rest, readHeaders ending sofar pieces =
        .ok (request.head ++ cString (request.body.take count), rest) ∧
      rest.flatten = request.body.drop count ∧ count ≤ request.body.length) ?_ ?_ h hshort
  · intro sofar piece first pieces count hhead hpiece hrest hcount
    have hfirst : ∀ b ∈ first, b ≠ 0 := by
      intro b hb
      exact request.head_nonzero b (hhead ▸ List.mem_append_right sofar hb)
    refine ⟨pieces, ?_, hrest, hcount⟩
    rw [readHeaders, hpiece, cString_append hfirst, ← List.append_assoc, hhead,
      request.findHeaderEnd_head]
    exact Eq.refl _
  · intro sofar piece more pieces count hmore hhead hnext
    have hpiece : cString piece = piece := by
      refine cString_of_nonzero ?_
      intro b hb
      refine request.head_nonzero b ?_
      rw [← hhead]
      exact List.mem_append_left more (List.mem_append_right sofar hb)
    rw [readHeaders, hpiece, request.findHeaderEnd_part hhead hmore]
    exact hnext

/-- The gateway has the headers and what came with their end, when they are within its limit. -/
theorem Request.readHeadersRaw_eq {limit : ℕ} (h : sofar ++ pieces.flatten = request.bytes)
    (hshort : sofar.length < request.head.length) :
    (request.head.length + pastHeaders (request.head.length - sofar.length) pieces ≤ limit →
      ∃ rest, readHeadersRaw ending limit sofar pieces = .ok (request.head ++
          request.body.take (pastHeaders (request.head.length - sofar.length) pieces),
          request.head.length - 4, rest) ∧
        rest.flatten = request.body.drop (pastHeaders (request.head.length - sofar.length) pieces) ∧
        pastHeaders (request.head.length - sofar.length) pieces ≤ request.body.length) ∧
    (limit < request.head.length + pastHeaders (request.head.length - sofar.length) pieces →
      ∃ failure, readHeadersRaw ending limit sofar pieces = .error failure) := by
  refine @Request.arrival request _ _ (fun sofar pieces count =>
    (request.head.length + count ≤ limit →
      ∃ rest, readHeadersRaw ending limit sofar pieces =
          .ok (request.head ++ request.body.take count, request.head.length - 4, rest) ∧
        rest.flatten = request.body.drop count ∧ count ≤ request.body.length) ∧
    (limit < request.head.length + count →
      ∃ failure, readHeadersRaw ending limit sofar pieces = .error failure)) ?_ ?_ h hshort
  · intro sofar piece first pieces count hhead hpiece hrest hcount
    have hdata : sofar ++ piece = request.head ++ request.body.take count := by
      rw [hpiece, ← List.append_assoc, hhead]
    have hlength : (request.head ++ request.body.take count).length =
        request.head.length + count := by
      rw [List.length_append, List.length_take, Nat.min_eq_left hcount]
    constructor
    · intro hlimit
      refine ⟨pieces, ?_, hrest, hcount⟩
      rw [readHeadersRaw, hdata, hlength, if_neg (by omega), request.findHeaderEnd_head]
    · intro hlimit
      refine ⟨.runtimeError "Request too large while reading headers", ?_⟩
      rw [readHeadersRaw, hdata, hlength, if_pos hlimit]
  · intro sofar piece more pieces count hmore hhead hnext
    have hpart := congrArg List.length hhead
    rw [List.length_append] at hpart
    constructor
    · intro hlimit
      rw [readHeadersRaw, if_neg (by omega), request.findHeaderEnd_part hhead hmore]
      exact hnext.1 hlimit
    · intro hlimit
      rw [readHeadersRaw]
      by_cases hsmall : limit < (sofar ++ piece).length
      · exact ⟨_, if_pos hsmall⟩
      · rw [if_neg hsmall, request.findHeaderEnd_part hhead hmore]
        exact hnext.2 hlimit

end Arrival

section Numbers

theorem isDigit_plain {b : UInt8} (h : isDigit b) :
    isSpace b = false ∧ b ≠ 45 ∧ b ≠ 43 ∧ 48 ≤ b.toNat := by
  have hall : ∀ v : BitVec 8, isDigit ⟨v⟩ →
      isSpace ⟨v⟩ = false ∧ (⟨v⟩ : UInt8) ≠ 45 ∧ (⟨v⟩ : UInt8) ≠ 43 ∧ 48 ≤ (⟨v⟩ : UInt8).toNat := by
    decide +kernel
  exact hall b.toBitVec h

theorem isDigit_of_isSpace {b : UInt8} (h : isSpace b) : isDigit b = false := by
  cases hdigit : isDigit b with
  | false => exact Eq.refl _
  | true =>
    rw [(isDigit_plain hdigit).1] at h
    cases h

theorem foldl_digits (digits : List UInt8) (value : ℕ) :
    digits.foldl (fun value b => value * 10 + (b.toNat - 48)) value =
      value * 10 ^ digits.length + digitsValue digits := by
  induction digits generalizing value with
  | nil => simp [digitsValue]
  | cons b digits ih =>
    have hfirst := ih (0 * 10 + (b.toNat - 48))
    rw [digitsValue, List.foldl_cons, List.foldl_cons, ih, hfirst, List.length_cons, pow_succ]
    ring

/-- The first digit counts most. -/
theorem digitsValue_cons (b : UInt8) (digits : List UInt8) :
    digitsValue (b :: digits) = (b.toNat - 48) * 10 ^ digits.length + digitsValue digits := by
  rw [digitsValue, List.foldl_cons, foldl_digits, Nat.zero_mul, Nat.zero_add]

theorem digitsValue_cons_eq {b : UInt8} {digits : List UInt8} (h : isDigit b) :
    digitsValue digits = digitsValue (b :: digits) ↔ b = 48 := by
  have hplain := (isDigit_plain h).2.2.2
  have hpower : 0 < 10 ^ digits.length := Nat.pow_pos (by decide)
  rw [digitsValue_cons]
  constructor
  · intro heq
    have hzero : (b.toNat - 48) * 10 ^ digits.length = 0 := by omega
    cases Nat.mul_eq_zero.mp hzero with
    | inl hb => exact UInt8.toNat_inj.mp (by show b.toNat = 48; omega)
    | inr hp => omega
  · intro heq
    rw [heq]
    simp

theorem takeWhile_digits {digits after : List UInt8} (hdigits : digits.all isDigit)
    (hafter : ∀ b ∈ after, isSpace b) : (digits ++ after).takeWhile isDigit = digits := by
  rw [List.takeWhile_append_of_pos (List.all_eq_true.mp hdigits)]
  cases after with
  | nil => simp
  | cons b after =>
    have hb := isDigit_of_isSpace (hafter b List.mem_cons_self)
    simp [hb]

/-- Digits between white space are their value, when that is in range. -/
theorem stoi_digits {before digits after : List UInt8} (hbefore : ∀ b ∈ before, isSpace b)
    (hnonempty : digits ≠ []) (hdigits : digits.all isDigit) (hafter : ∀ b ∈ after, isSpace b) :
    stoi (before ++ (digits ++ after)) =
      if digitsValue digits ≤ 2147483647 then .ok (digitsValue digits : ℤ)
      else .error .outOfRange := by
  cases digits with
  | nil => exact absurd (Eq.refl _) hnonempty
  | cons b digits =>
    have hb := isDigit_plain (List.all_eq_true.mp hdigits b List.mem_cons_self)
    have hdrop : (before ++ (b :: digits ++ after)).dropWhile isSpace = b :: digits ++ after := by
      rw [List.dropWhile_append_of_pos hbefore]
      simp [hb.1]
    have htake := takeWhile_digits hdigits hafter
    have hhead : (b :: digits ++ after).head? = some b := by simp
    have hminus : ¬(some b = some (45 : UInt8)) := by
      intro heq
      exact hb.2.1 (Option.some.inj heq)
    have hplus : ¬(some b = some (43 : UInt8)) := by
      intro heq
      exact hb.2.2.1 (Option.some.inj heq)
    rw [stoi]
    simp only [hdrop, hhead, hminus, hplus, or_self, htake, if_false,
      List.cons_ne_nil]
    by_cases hrange : digitsValue (b :: digits) ≤ 2147483647
    · rw [if_pos hrange, if_pos (by omega)]
    · rw [if_neg hrange, if_neg (by omega)]

/-- White space is no number. -/
theorem stoi_blank {text : List UInt8} (h : ∀ b ∈ text, isSpace b) :
    stoi text = .error (.runtimeError "Bad Content-Length header - not a number") := by
  have hdrop : text.dropWhile isSpace = [] := List.dropWhile_eq_nil_iff.mpr h
  rw [stoi]
  simp [hdrop]

/-- Digits are the largest size or their value. -/
theorem strtoull_digits {digits : List UInt8} (hnonempty : digits ≠ [])
    (hdigits : digits.all isDigit) (hrange : digitsValue digits < sizeRange) : strtoull digits = digitsValue digits := by
  cases digits with
  | nil => exact absurd (Eq.refl _) hnonempty
  | cons b digits =>
    have hb := isDigit_plain (List.all_eq_true.mp hdigits b List.mem_cons_self)
    have hdrop : (b :: digits).dropWhile isSpace = b :: digits := by
      simp [hb.1]
    have htake : (b :: digits ++ []).takeWhile isDigit = b :: digits :=
      takeWhile_digits hdigits (by simp)
    rw [List.append_nil] at htake
    have hhead : (b :: digits).head? = some b := by simp
    have hminus : ¬(some b = some (45 : UInt8)) := by
      intro heq
      exact hb.2.1 (Option.some.inj heq)
    have hplus : ¬(some b = some (43 : UInt8)) := by
      intro heq
      exact hb.2.2.1 (Option.some.inj heq)
    rw [strtoull]
    simp only [hdrop, hhead, hminus, hplus, or_self, htake, if_false]
    rw [if_neg (by omega)]

end Numbers

section Announced

/-- A colon is looked for past a text without one. -/
theorem findIdx_append {text rest : List UInt8} (h : ∀ b ∈ text, b ≠ colon) :
    ((text ++ rest).findIdx? fun b => b = colon) =
      (rest.findIdx? fun b => b = colon).map (· + text.length) := by
  have hnone : (text.findIdx? fun b => b = colon) = none := by
    rw [List.findIdx?_eq_none_iff]
    intro b hb
    exact decide_eq_false (h b hb)
  rw [List.findIdx?_append, hnone, Option.none_or]

theorem findIdx_colon {name rest : List UInt8} (h : ∀ b ∈ name, b ≠ colon) :
    ((name ++ colon :: rest).findIdx? fun b => b = colon) = some name.length := by
  rw [findIdx_append h, List.findIdx?_cons]
  simp

variable (field : Field) (request : Request)

theorem Field.name_colon : ∀ b ∈ field.name, b ≠ colon := by
  intro b hb
  exact (isText_of_isNameByte (List.all_eq_true.mp field.named.2 b hb)).2.1

/-- What the server takes as a field's value. -/
theorem Field.headerField_line : headerField (field.line ++ [cr]) = .ok (some (field.name,
    (field.before ++ (field.value ++ (field.after ++ [cr]))).drop 1)) := by
  have hline : field.line ++ [cr] =
      field.name ++ colon :: (field.before ++ (field.value ++ (field.after ++ [cr]))) := by
    simp [Field.line]
  have hlong : field.name.length + 2 ≤ (field.line ++ [cr]).length := by
    rw [hline]
    simp only [List.length_append, List.length_cons, List.length_nil]
    omega
  have htake : (field.line ++ [cr]).take field.name.length = field.name := by
    rw [hline, List.take_left']
    exact Eq.refl _
  have hdrop : (field.line ++ [cr]).drop (field.name.length + 2) =
      (field.before ++ (field.value ++ (field.after ++ [cr]))).drop 1 := by
    rw [hline, ← List.drop_drop, List.drop_left']
    · rfl
    · exact Eq.refl _
  rw [headerField, hline, findIdx_colon field.name_colon, ← hline]
  simp only
  rw [if_pos hlong, htake, hdrop]

/-- A key of the first line has a space. -/
theorem Request.start_space {rest : List UInt8} {pos : ℕ}
    (h : ((request.start ++ rest).findIdx? fun b => b = colon) = some pos) :
    32 ∈ (request.start ++ rest).take pos := by
  have hsplit : request.start ++ rest = (request.method ++ [32]) ++ (request.target ++ rest) := by
    simp [Message.start]
  have hplain : ∀ b ∈ request.method ++ [32], b ≠ colon := by
    intro b hb
    have hspace : (32 : UInt8) ≠ colon := by decide
    rcases List.mem_append.mp hb with hb | hb
    · exact (isText_of_isNameByte (List.all_eq_true.mp request.methodName.2 b hb)).2.1
    · exact List.mem_singleton.mp hb ▸ hspace
  rw [hsplit, findIdx_append hplain, Option.map_eq_some_iff] at h
  obtain ⟨place, _, hpos⟩ := h
  rw [hsplit, List.take_append, List.take_of_length_le (by omega)]
  exact List.mem_append_left _ (List.mem_append_right _ (List.mem_singleton.mpr (Eq.refl _)))

/-- The first line announces nothing to the server. -/
theorem Request.findContentLength_start (lines : List (List UInt8)) :
    findContentLength ((request.start ++ [cr]) :: lines) = findContentLength lines := by
  have hok : FieldOk (request.start ++ [cr]) := by
    intro pos hcolon
    obtain ⟨hpos, hat, _⟩ := List.findIdx?_eq_some_iff_getElem.mp hcolon
    by_contra hshort
    have hlast : pos = request.start.length := by
      rw [List.length_append, List.length_singleton] at hpos hshort
      omega
    have hcr : cr ≠ colon := by decide
    simp only [hlast, List.getElem_concat_length, decide_eq_true_eq] at hat
    exact hcr hat
  obtain ⟨field, hfield⟩ := headerField_ok hok
  cases field with
  | none => exact findContentLength_none hfield
  | some pair =>
    obtain ⟨key, value⟩ := pair
    obtain ⟨pos, hcolon, _, hkey, _⟩ := headerField_some hfield
    have hspace := request.start_space hcolon
    have hother : key ≠ contentLengthKey := by
      intro heq
      have hnone : (32 : UInt8) ∉ contentLengthKey := by decide
      exact hnone (heq ▸ hkey ▸ hspace)
    rw [findContentLength_some hfield, if_neg hother]

/-- The server takes the first field with its spelling of the key. -/
theorem findContentLength_fields (fields : List Field) :
    findContentLength (fields.map fun field => field.line ++ [cr]) =
      match fields.find? fun field => field.name = contentLengthKey with
      | some field => stoi ((field.before ++ (field.value ++ (field.after ++ [cr]))).drop 1)
      | none => .ok 0 := by
  induction fields with
  | nil => exact Eq.refl _
  | cons field fields ih =>
    rw [List.map_cons, findContentLength_some field.headerField_line, List.find?_cons]
    by_cases hkey : field.name = contentLengthKey
    · rw [if_pos hkey, decide_eq_true hkey]
    · rw [if_neg hkey, decide_eq_false hkey, ih]

/-- The length that the server takes from the headers of a request. -/
theorem Request.findContentLength_head (data : List UInt8) :
    findContentLength (headerLines [] (request.head ++ data)).1 =
      match request.fields.find? fun field => field.name = contentLengthKey with
      | some field => stoi ((field.before ++ (field.value ++ (field.after ++ [cr]))).drop 1)
      | none => .ok 0 := by
  rw [request.headerLines_head, Message.lines, List.map_cons, request.findContentLength_start,
    List.map_map, ← findContentLength_fields]
  exact Eq.refl _

/-- Blanks and a carriage return are white space. -/
theorem Field.after_space : ∀ b ∈ field.after ++ [cr], isSpace b := by
  intro b hb
  have hcr : isSpace cr := by decide
  rcases List.mem_append.mp hb with hb | hb
  · exact (isText_of_isBlank (List.all_eq_true.mp field.blanks.2 b hb)).2
  · exact List.mem_singleton.mp hb ▸ hcr

/-- When the server takes the length of the body from a field, or nothing and all is there. -/
theorem Field.lengthRead_iff {bodyLength early : ℕ} (hdigits : field.value.all isDigit)
    (hnonempty : field.value ≠ []) (hvalue : digitsValue field.value = bodyLength) :
    (∃ contentLength : ℤ,
        stoi ((field.before ++ (field.value ++ (field.after ++ [cr]))).drop 1) = .ok contentLength ∧
        (contentLength = bodyLength ∨ (contentLength ≤ 0 ∧ early = bodyLength))) ↔
      field.LengthRead bodyLength early := by
  unfold Field.LengthRead
  cases hbefore : field.before with
  | cons blank before =>
    have hspace : ∀ b ∈ before, isSpace b := by
      intro b hb
      have hmem : b ∈ field.before := hbefore ▸ List.mem_cons_of_mem blank hb
      exact (isText_of_isBlank (List.all_eq_true.mp field.blanks.1 b hmem)).2
    have hstoi := stoi_digits hspace hnonempty hdigits field.after_space
    rw [List.cons_append, List.drop_succ_cons, List.drop_zero, hstoi, hvalue]
    by_cases hrange : bodyLength ≤ 2147483647
    · rw [if_pos hrange]
      constructor
      · intro _
        exact .inl ⟨by omega, .inl (List.cons_ne_nil _ _)⟩
      · intro _
        exact ⟨bodyLength, Eq.refl _, .inl (Eq.refl _)⟩
    · rw [if_neg hrange]
      constructor
      · intro h
        obtain ⟨_, herror, _⟩ := h
        cases herror
      · intro h
        cases h with
        | inl h => omega
        | inr h => exact absurd h.1 (List.cons_ne_nil _ _)
  | nil =>
    cases hfield : field.value with
    | nil => exact absurd hfield hnonempty
    | cons digit digits =>
      rw [hfield] at hdigits hvalue
      rw [List.nil_append, List.cons_append, List.drop_succ_cons, List.drop_zero]
      have hdigit := List.all_eq_true.mp hdigits digit List.mem_cons_self
      have hequal : digitsValue digits = digitsValue (digit :: digits) ↔ digit = 48 :=
        digitsValue_cons_eq hdigit
      rw [hvalue] at hequal
      cases digits with
      | nil =>
        rw [List.nil_append, stoi_blank field.after_space]
        constructor
        · intro h
          obtain ⟨_, herror, _⟩ := h
          cases herror
        · intro h
          rcases h with h | h
          · obtain ⟨_, h⟩ := h
            rcases h with h | h
            · exact absurd (Eq.refl _) h
            · obtain ⟨digits, hne, heq⟩ := h
              exact absurd (List.cons.inj heq).2.symm hne
          · obtain ⟨_, _, first, digits, hne, heq, _⟩ := h
            exact absurd (List.cons.inj heq).2.symm hne
      | cons next digits =>
        have hrest : (next :: digits).all isDigit := by
          rw [List.all_cons, Bool.and_eq_true] at hdigits
          exact hdigits.2
        have hblanks : ∀ b ∈ ([] : List UInt8), isSpace b := by simp
        have hstoi := stoi_digits hblanks (List.cons_ne_nil _ _) hrest field.after_space
        rw [List.nil_append] at hstoi
        rw [hstoi]
        generalize hread : digitsValue (next :: digits) = read at hequal
        have hle : read ≤ bodyLength := by
          rw [← hvalue, digitsValue_cons, hread]
          exact Nat.le_add_left _ _
        constructor
        · intro h
          obtain ⟨contentLength, hok, h⟩ := h
          split at hok
          · rename_i hrange
            injection hok with hok
            rcases h with h | h
            · have hsame : read = bodyLength := by omega
              refine .inl ⟨by omega, .inr ⟨next :: digits, List.cons_ne_nil _ _, ?_⟩⟩
              rw [hequal.mp hsame]
            · refine .inr ⟨Eq.refl _, h.2, digit, next :: digits, List.cons_ne_nil _ _, Eq.refl _, ?_⟩
              omega
          · cases hok
        · intro h
          rcases h with h | h
          · obtain ⟨hrange, h⟩ := h
            rcases h with h | h
            · exact absurd (Eq.refl _) h
            · obtain ⟨rest, _, heq⟩ := h
              have hsame := hequal.mpr (List.cons.inj heq).1
              refine ⟨read, if_pos (by omega), .inl (by omega)⟩
          · obtain ⟨_, hearly, first, rest, _, heq, hzero⟩ := h
            rw [← (List.cons.inj heq).2, hread] at hzero
            exact ⟨read, if_pos (by omega), .inr ⟨by omega, hearly⟩⟩

end Announced

section Server

variable (request : Request) {ending : Ending} {rest : List (List UInt8)} {early : ℕ}

/-- A text is itself as a C string when it has no zero byte. -/
theorem cString_eq_self {text : List UInt8} : cString text = text ↔ 0 ∉ text := by
  rw [cString, List.takeWhile_eq_self_iff]
  constructor
  · intro h hzero
    exact of_decide_eq_true (h 0 hzero) (Eq.refl _)
  · intro h b hb
    exact decide_eq_true fun heq => h (heq ▸ hb)

/-- A C string is the beginning of its text, so it is the text when it is as long. -/
theorem cString_of_length {text : List UInt8} (h : text.length ≤ (cString text).length) :
    cString text = text :=
  (List.takeWhile_prefix _).eq_of_length_le h

theorem Request.extra_head (data : List UInt8) :
    extraReadPastHeader (request.head ++ data) = data := by
  have hlong := request.head_long
  rw [extraReadPastHeader, request.findHeaderEnd_head]
  simp only
  rw [Nat.sub_add_cancel hlong, List.drop_left']
  exact Eq.refl _

/-- The server's rest of the reading, with some length taken from the headers. -/
def finishReading (ending : Ending) (headerData : List UInt8) (pieces : List (List UInt8))
    (contentLength : ℤ) : Except Failure (List UInt8) := do
  if 0 < contentLength then
    let extra := (extraReadPastHeader headerData).length
    if contentLength < extra then
      throw (.runtimeError "Received more body data than Content-Length header said")
    let body ← readBody ending pieces (contentLength.toNat - extra)
    return headerData ++ body
  else return headerData

/-- The server has the request exactly when no zero byte was lost and the length is that of the
body, or nothing is announced and all is there. -/
theorem Request.finishReading_iff (hrest : rest.flatten = request.body.drop early)
    (hearly : early ≤ request.body.length) (contentLength : ℤ) :
    finishReading ending (request.head ++ cString (request.body.take early)) rest contentLength =
        .ok request.bytes ↔
      0 ∉ request.body.take early ∧ (contentLength = request.body.length ∨
        (contentLength ≤ 0 ∧ early = request.body.length)) := by
  have htake : (request.body.take early).length = early := by
    rw [List.length_take, Nat.min_eq_left hearly]
  have hprefix : (cString (request.body.take early)).length ≤ early := by
    have hle := (List.takeWhile_prefix (p := fun b : UInt8 => decide (b ≠ 0))
      (l := request.body.take early)).length_le
    rw [htake] at hle
    exact hle
  have hflat : rest.flatten.length = request.body.length - early := by
    rw [hrest, List.length_drop]
  rw [← cString_eq_self, finishReading, request.extra_head]
  generalize hextra : cString (request.body.take early) = extra at hprefix
  have hextra_of_length : early ≤ extra.length → extra = request.body.take early := by
    intro h
    rw [← hextra]
    refine cString_of_length ?_
    rw [htake, hextra]
    exact h
  by_cases hpositive : 0 < contentLength
  · rw [if_pos hpositive]
    by_cases hmore : contentLength < extra.length
    · simp only [if_pos hmore]
      constructor
      · intro h
        cases h
      · intro h
        omega
    · simp only [if_neg hmore]
      constructor
      · intro h
        obtain ⟨body, hbody, h⟩ := bind_eq_ok h
        injection h with h
        obtain ⟨hcount, hbytes⟩ := readBody_iff.mp hbody
        have hlength := congrArg List.length h
        have hbodylength := congrArg List.length hbytes
        rw [List.length_take, Nat.min_eq_left hcount] at hbodylength
        simp only [List.length_append, Message.bytes] at hlength
        exact ⟨hextra_of_length (by omega), .inl (by omega)⟩
      · intro h
        obtain ⟨hsame, h⟩ := h
        have hlength : contentLength = request.body.length := by omega
        have hextralength : extra.length = early := by rw [hsame, htake]
        have hbody : readBody ending rest (contentLength.toNat - extra.length) =
            .ok (request.body.drop early) := by
          rw [readBody_iff]
          refine ⟨by omega, ?_⟩
          rw [hrest, List.take_of_length_le]
          rw [List.length_drop]
          omega
        rw [hbody, hsame]
        simp only [bind, Except.bind, pure, Except.pure, Message.bytes]
        rw [List.append_assoc, List.take_append_drop]
  · rw [if_neg hpositive]
    constructor
    · intro h
      injection h with h
      have hlength := congrArg List.length h
      simp only [List.length_append, Message.bytes] at hlength
      exact ⟨hextra_of_length (by omega), .inr ⟨by omega, by omega⟩⟩
    · intro h
      obtain ⟨hsame, h⟩ := h
      have hall : early = request.body.length := by omega
      rw [hsame, hall, List.take_length]
      exact Eq.refl _

/-- The server returns the request exactly when the first two conditions hold. -/
theorem readHttpRequest_delivery {request : Request} (delivery : Delivery request 65535) :
    readHttpRequest delivery.client = .ok request.bytes ↔
      0 ∉ request.body.take delivery.early ∧
        match request.fields.find? fun field => field.name = contentLengthKey with
        | some field => field.LengthRead request.body.length delivery.early
        | none => delivery.early = request.body.length := by
  have hlong := request.head_long
  obtain ⟨rest, hread, hrest, hearly⟩ := @Request.readHeaders_eq request delivery.ending []
    delivery.pieces delivery.whole (by rw [List.length_nil]; omega)
  have hcount : pastHeaders request.head.length delivery.pieces = delivery.early := Eq.refl _
  rw [List.length_nil, Nat.sub_zero, hcount] at hread hrest hearly
  have hsteps : readHttpRequest delivery.client =
      (findContentLength (headerLines []
        (request.head ++ cString (request.body.take delivery.early))).1).bind fun contentLength =>
        finishReading delivery.ending (request.head ++ cString (request.body.take delivery.early)) rest
          contentLength := by
    unfold readHttpRequest
    simp only [Delivery.client, hread]
    rfl
  rw [hsteps, request.findContentLength_head]
  cases hfind : request.fields.find? fun field => field.name = contentLengthKey with
  | none =>
    simp only [Except.bind]
    rw [request.finishReading_iff hrest hearly]
    constructor
    · intro h
      refine ⟨h.1, ?_⟩
      omega
    · intro h
      exact ⟨h.1, .inr ⟨Int.le_refl 0, h.2⟩⟩
  | some field =>
    have hmember := List.mem_of_find?_eq_some hfind
    have hname : field.name = contentLengthKey := by
      have hfound := List.find?_some hfind
      simpa using hfound
    have hlength : field.IsLength := by
      unfold Field.IsLength
      rw [hname]
      decide
    obtain ⟨hnonempty, hdigits, hvalue⟩ := request.announced field hmember hlength
    simp only
    rw [← field.lengthRead_iff hdigits hnonempty hvalue]
    constructor
    · intro h
      obtain ⟨contentLength, hok, h⟩ := bind_eq_ok h
      have hboth := (request.finishReading_iff hrest hearly contentLength).mp h
      exact ⟨hboth.1, contentLength, hok, hboth.2⟩
    · intro h
      obtain ⟨hplain, contentLength, hok, h⟩ := h
      rw [hok]
      exact (request.finishReading_iff hrest hearly contentLength).mpr ⟨hplain, h⟩

end Server

section GatewayReads

variable (request : Request)

/-- The first line announces nothing to the gateway. -/
theorem Request.parseContentLength_start (lines : List (List UInt8)) :
    parseContentLength (request.start :: lines) = parseContentLength lines := by
  rw [parseContentLength]
  cases hcolon : request.start.findIdx? fun b => b = colon with
  | none => exact Eq.refl _
  | some pos =>
    have hplace : ((request.start ++ []).findIdx? fun b => b = colon) = some pos := by
      rw [List.append_nil]
      exact hcolon
    have hspace := request.start_space hplace
    rw [List.append_nil] at hspace
    have hother : (request.start.take pos).map toLower ≠ lowerLengthKey := by
      intro heq
      have hmem : toLower 32 ∈ lowerLengthKey := heq ▸ List.mem_map_of_mem hspace
      exact absurd hmem (by decide)
    simp only [if_neg hother]

/-- A value without the blanks beside it. -/
theorem Field.filter_value (field : Field) (hdigits : field.value.all isDigit) :
    ((field.before ++ (field.value ++ field.after)).filter fun b => !isSpace b) = field.value := by
  have hbefore : (field.before.filter fun b => !isSpace b) = [] := by
    rw [List.filter_eq_nil_iff]
    intro b hb
    simp [(isText_of_isBlank (List.all_eq_true.mp field.blanks.1 b hb)).2]
  have hafter : (field.after.filter fun b => !isSpace b) = [] := by
    rw [List.filter_eq_nil_iff]
    intro b hb
    simp [(isText_of_isBlank (List.all_eq_true.mp field.blanks.2 b hb)).2]
  have hvalue : (field.value.filter fun b => !isSpace b) = field.value := by
    rw [List.filter_eq_self]
    intro b hb
    simp [(isDigit_plain (List.all_eq_true.mp hdigits b hb)).1]
  rw [List.filter_append, List.filter_append, hbefore, hafter, hvalue, List.nil_append,
    List.append_nil]

/-- The gateway finds the length that every field announces. -/
theorem parseContentLength_fields {length : ℕ} (hrange : length < sizeRange) (fields : List Field)
    (hall : ∀ field ∈ fields, field.IsLength →
      field.value ≠ [] ∧ field.value.all isDigit ∧ digitsValue field.value = length)
    (hnone : (∀ field ∈ fields, ¬field.IsLength) → length = 0) :
    parseContentLength (fields.map Field.line) = length := by
  induction fields with
  | nil =>
    refine (hnone ?_).symm
    intro field hfield
    cases hfield
  | cons field fields ih =>
    have hcolon : (field.line.findIdx? fun b => b = colon) = some field.name.length :=
      findIdx_colon field.name_colon
    have htake : field.line.take field.name.length = field.name := List.take_left' (Eq.refl _)
    have hdrop : field.line.drop (field.name.length + 1) =
        field.before ++ (field.value ++ field.after) := by
      rw [Field.line, ← List.drop_drop, List.drop_left']
      · rfl
      · exact Eq.refl _
    rw [List.map_cons, parseContentLength, hcolon]
    simp only [htake, hdrop]
    by_cases hkey : field.name.map toLower = lowerLengthKey
    · obtain ⟨hnonempty, hdigits, hvalue⟩ := hall field List.mem_cons_self hkey
      rw [if_pos hkey, field.filter_value hdigits, if_neg hnonempty,
        strtoull_digits hnonempty hdigits (by rw [hvalue]; exact hrange), hvalue]
    · rw [if_neg hkey]
      refine ih (fun other hother => hall other (List.mem_cons_of_mem field hother)) ?_
      intro hrest
      refine hnone ?_
      intro other hother
      cases List.mem_cons.mp hother with
      | inl heq => exact heq ▸ hkey
      | inr hother => exact hrest other hother

/-- A request with its body is shorter than the largest size. -/
theorem Request.small : request.head.length + request.body.length + 16384 < sizeRange := by
  have hsmall := request.addressable
  rw [Message.bytes, List.length_append] at hsmall
  unfold sizeRange
  omega

theorem Request.parseContentLength_head (data : List UInt8) :
    parseContentLength (crlfLines [] (request.head ++ data)) = request.body.length := by
  have hsmall := request.small
  rw [request.crlfLines_head, Message.lines, request.parseContentLength_start]
  refine parseContentLength_fields (by omega) request.fields request.announced ?_
  intro hnone
  rw [request.bodyless hnone, List.length_nil]

/-- The gateway reads on until it has everything. -/
theorem readBodyRaw_eq {ending : Ending} {whole buffer : List UInt8} {pieces : List (List UInt8)}
    (h : buffer ++ pieces.flatten = whole) (hrange : whole.length + 16384 < sizeRange) :
    readBodyRaw ending whole.length buffer pieces = .ok whole := by
  induction pieces generalizing buffer with
  | nil =>
    rw [List.flatten_nil, List.append_nil] at h
    rw [readBodyRaw, h, if_neg (Nat.lt_irrefl _)]
  | cons piece pieces ih =>
    rw [List.flatten_cons] at h
    have hlength := congrArg List.length h
    simp only [List.length_append] at hlength
    rw [readBodyRaw]
    by_cases hshort : buffer.length < whole.length
    · have hfits : ¬(whole.length + 16384) % sizeRange < (buffer ++ piece).length := by
        rw [Nat.mod_eq_of_lt hrange, List.length_append]
        omega
      simp only [if_pos hshort, if_neg hfits]
      exact ih (by rw [List.append_assoc]; exact h)
    · have hrest : piece ++ pieces.flatten = [] := by
        refine List.eq_nil_of_length_eq_zero ?_
        rw [List.length_append]
        omega
      rw [hrest, List.append_nil] at h
      rw [if_neg hshort, h]

/-- The gateway returns the request exactly when it is within its limits. -/
theorem readHttpRequestRaw_delivery {request : Request} (incoming : Delivery request 65536)
    (maxBodyBytes : UInt64) :
    readHttpRequestRaw incoming.ending incoming.pieces maxBodyBytes = .ok request.bytes ↔
      request.body.length ≤ maxBodyBytes.toNat ∧
        request.head.length + incoming.early ≤ (maxBodyBytes + 65536).toNat := by
  have hlong := request.head_long
  have hsmall := request.small
  have hheaders := @Request.readHeadersRaw_eq request incoming.ending [] incoming.pieces
    (maxBodyBytes + 65536).toNat incoming.whole (by rw [List.length_nil]; omega)
  have hcount : pastHeaders request.head.length incoming.pieces = incoming.early := Eq.refl _
  rw [List.length_nil, Nat.sub_zero, hcount] at hheaders
  unfold readHttpRequestRaw
  by_cases hlimit : request.head.length + incoming.early ≤ (maxBodyBytes + 65536).toNat
  · obtain ⟨rest, hread, hrest, hearly⟩ := hheaders.1 hlimit
    rw [hread]
    simp only [bind, Except.bind]
    rw [request.parseContentLength_head]
    by_cases hbody : maxBodyBytes.toNat < request.body.length
    · rw [if_pos hbody]
      constructor
      · intro h
        cases h
      · intro h
        omega
    · have hsize : (request.head.length - 4 + 4 + request.body.length) % sizeRange =
          request.bytes.length := by
        rw [Nat.sub_add_cancel hlong, Message.bytes, List.length_append, Nat.mod_eq_of_lt (by omega)]
      have hwhole : (request.head ++ request.body.take incoming.early) ++ rest.flatten =
          request.bytes := by
        rw [hrest, List.append_assoc, List.take_append_drop, Message.bytes]
      have hall : readBodyRaw incoming.ending request.bytes.length
          (request.head ++ request.body.take incoming.early) rest = .ok request.bytes :=
        readBodyRaw_eq hwhole (by rw [Message.bytes, List.length_append]; exact hsmall)
      rw [if_neg hbody, hsize]
      simp only [pure, Except.pure]
      rw [hall]
      simp only [List.take_length]
      constructor
      · intro _
        exact ⟨by omega, hlimit⟩
      · intro _
        trivial
  · obtain ⟨failure, hread⟩ := hheaders.2 (by omega)
    rw [hread]
    constructor
    · intro h
      cases h
    · intro h
      exact absurd h.2 hlimit

end GatewayReads

/-- Both readers return the request as it was sent exactly when no zero byte of the body arrives
with the end of the headers, the server takes the length of the body from its spelling of the key, and
the gateway's limits are kept. -/
theorem readsAsSent_iff {request : Request} (delivery : Delivery request 65535)
    (incoming : Delivery request 65536) (maxBodyBytes : UInt64) :
    ReadsAsSent delivery incoming maxBodyBytes ↔ ReadAlike delivery incoming maxBodyBytes := by
  unfold ReadsAsSent
  rw [readHttpRequest_delivery, readHttpRequestRaw_delivery]
  constructor
  · intro h
    exact ⟨h.1.1, h.1.2, h.2.1, h.2.2⟩
  · intro h
    exact ⟨⟨h.plain, h.length⟩, h.fitsBody, h.fitsHead⟩

section Divergence

/-- A request whose name of the length is in small letters, with a body of two bytes. -/
def smallLetters : Request where
  method := ascii ['P', 'O', 'S', 'T']
  target := ascii ['/', ' ', 'H', 'T', 'T', 'P', '/', '1', '.', '1']
  fields := [⟨lowerLengthKey, [32], [50], [], by decide, by decide, by decide⟩]
  body := ascii ['[', ']']
  methodName := by decide
  targetText := by decide
  announced := by
    intro field hfield _
    rw [List.mem_singleton.mp hfield]
    decide
  bodyless := by
    intro hnone
    exact absurd (Eq.refl _) (hnone _ List.mem_cons_self)
  addressable := by decide +kernel

/-- It arrives in two pieces, the headers and the body. -/
def twoPieces (room : ℕ) (hroom : 1000 ≤ room) : Delivery smallLetters room where
  pieces := [smallLetters.head, smallLetters.body]
  sizes := by
    have hsizes : ∀ piece ∈ [smallLetters.head, smallLetters.body],
        piece ≠ [] ∧ piece.length ≤ 1000 := by decide +kernel
    intro piece hpiece
    obtain ⟨hnonempty, hlength⟩ := hsizes piece hpiece
    exact ⟨hnonempty, hlength.trans hroom⟩
  whole := by simp [Message.bytes]
  ending := .stops

/-- The readers do not return every request: with the name in small letters the server returns the
headers only, and the gateway all of it. -/
theorem not_readsAsSent :
    ¬∀ (request : Request) (delivery : Delivery request 65535) (incoming : Delivery request 65536),
      ReadsAsSent delivery incoming 8388608 := by
  intro h
  have hboth := h smallLetters (twoPieces 65535 (by decide)) (twoPieces 65536 (by decide))
  have hserver : readHttpRequest (twoPieces 65535 (by decide)).client ≠ .ok smallLetters.bytes := by
    decide +kernel
  exact hserver hboth.1

end Divergence

end LayerSkip.RequestStream
