import LayerSkip.ModelFile

/-!
# Files with any content

The loader of a model file and the constructor of the tokenizer read sizes and counts from a file
and use them for vectors, indices, divisions and further reads. Either ends with an exception, or
does what C++ leaves open: a place outside a buffer, a division by zero, a size that has wrapped.
The address of the first element of an empty vector is no use of it. Memory is there for every size
that has not wrapped.
-/

namespace LayerSkip.FileRobustness

open NnTopology KeyValueHeader ModelFile

/-- How a function ends that does not return. -/
inductive Stop
  | throws (text : String)
  | faults
  deriving DecidableEq, Repr

/-- The signed number of 32 bits. -/
def toInt (number : ℤ) : ℤ := (number + 2147483648) % 4294967296 - 2147483648

/-- Values of a `size_t`. -/
def sizeRange : ℤ := 2 ^ 64

/-- Numbers of a header of so many bytes with the mark and the size. -/
def numbersOf (headerSize : ℤ) : ℤ := toInt ((headerSize - 8) % sizeRange / 4)

/-- `fread` of one element of some size into a buffer of some capacity. What is there of the element
is stored, and a part or nothing is an error. -/
def freadInto (content : List UInt8) (position capacity size : ℕ) (text : String) :
    Except Stop (List UInt8) :=
  if capacity < min size (content.length - position) then .error .faults
  else if size = 0 ∨ content.length < position + size then .error (.throws text)
  else .ok ((content.drop position).take size)

/-- Numbers of a vector that bytes have been stored in, with zeros where there are none. -/
def numbers : ℕ → List UInt8 → List ℤ
  | 0, _ => []
  | count + 1, bytes => unpack (bytes.take 4) :: numbers count (bytes.drop 4)

section Pairs

variable {σ : Type}

/-- The loop over keys and values: every key takes the number at the next index. -/
def forPairs (set : σ → ℤ → ℤ → Except Stop σ) : List ℤ → ℕ → σ → Except Stop σ
  | _, 0, state => .ok state
  | key :: value :: _, 1, state => set state key value
  | key :: value :: buffer, nKv + 2, state => do
    let state ← set state key value
    forPairs set buffer nKv state
  | _, _ + 1, _ => .error .faults

/-- What all pairs do. -/
def setPairs (set : σ → ℤ → ℤ → Except Stop σ) : List (ℤ × ℤ) → σ → Except Stop σ
  | [], state => .ok state
  | pair :: pairs, state => do
    let state ← set state pair.1 pair.2
    setPairs set pairs state

end Pairs

section ModelFile

/-- A header that has been read. Enumerations are kept as their numbers. -/
structure Header where
  /-- Bytes that the file gives. -/
  headerSize : ℕ
  /-- Bytes of the file. -/
  fileSize : ℕ
  /-- What the keys say. -/
  keys : LlmHeaderKeys
  /-- Length of the context in the file. -/
  origSeqLen : ℕ
  /-- Length of the context. -/
  seqLen : ℕ
  /-- Values of a head. -/
  headDim : ℕ
  /-- Values of the query. -/
  qDim : ℕ
  /-- Values of a key. -/
  kvDim : ℕ
  /-- Rotary embedding. -/
  ropeType : ℤ
  /-- Format of the synchronised pipes. -/
  syncType : ℤ
  deriving DecidableEq, Repr

/-- A key of a model file. -/
def setKey (keys : LlmHeaderKeys) (key value : ℤ) : Except Stop LlmHeaderKeys :=
  match keys.set key value with
  | .ok keys => .ok keys
  | .error text => .error (.throws text)

/-- A division that may trap. -/
def divide (n d : ℕ) : Except Stop ℕ := if d = 0 then .error .faults else .ok (n / d)

/-- Values of a head, or those of a row by the heads. -/
def resolveHeadDim (keys : LlmHeaderKeys) : Except Stop ℕ :=
  if keys.headDim = 0 then divide keys.dim keys.nHeads else .ok keys.headDim

/-- The end of the loader. -/
def finishHeader (keys : LlmHeaderKeys) (maxSeqLen : ℕ) (syncType : ℤ) (headerSize fileSize : ℕ) :
    Except Stop Header := do
  if keys.weightType = -1 then
    throw (.throws "Model does not specify weight type")
  let headDim ← resolveHeadDim keys
  return {
    headerSize := headerSize
    fileSize := fileSize
    keys := keys
    origSeqLen := keys.seqLen
    seqLen := if 0 < maxSeqLen ∧ maxSeqLen < keys.seqLen then maxSeqLen else keys.seqLen
    headDim := headDim
    qDim := headDim * keys.nHeads % 4294967296
    kvDim := headDim * keys.nKvHeads % 4294967296
    ropeType := if keys.archType = 0xABCD01 ∨ keys.archType = 0xABCD02 then 1 else keys.ropeType
    syncType := syncType }

/-- Read the header of a model file. The vector has as many numbers as the header has bytes. -/
def loadLlmHeader (content : List UInt8) (maxSeqLen : ℕ) (syncType : ℤ) : Except Stop Header := do
  let magic ← freadInto content 0 4 4 "Cannot read magic value"
  if unpack magic = 0xABCD00 ∨ unpack magic = 0xABCD01 then
    throw (.throws "Old model format is not supported")
  if unpack magic ≠ 0xA00ABCD then
    throw (.throws "Unsupported magic number")
  let size ← freadInto content 4 4 4 "Cannot read header size"
  let headerSize := toUint (unpack size)
  let buffer ← freadInto content 8 (4 * headerSize) headerSize "Cannot read header values"
  let keys ← forPairs setKey (numbers headerSize buffer) (numbersOf headerSize).toNat
    LlmHeaderKeys.default
  finishHeader keys maxSeqLen syncType headerSize content.length

/-- Derived fields of a header belong together. -/
structure Header.Consistent (header : Header) : Prop where
  /-- Values of the query are those of its heads. -/
  queries : header.headDim * header.keys.nHeads = header.qDim
  /-- Values of a key are those of its heads. -/
  keyValues : header.headDim * header.keys.nKvHeads = header.kvDim

end ModelFile

section Tokenizer

/-- What the keys of a tokenizer file say, with the place in the file. A size of the vocabulary that
is not given is what was in memory, and so is the flag. -/
structure TokenizerHeader where
  /-- Version. -/
  version : ℤ
  /-- Tokens. -/
  vocabSize : ℕ
  /-- Length of the longest token. -/
  maxTokenLength : ℕ
  /-- First token of a text. -/
  bosId : ℤ
  /-- Tokens that end a text. -/
  eosTokenIds : List ℤ
  /-- Length of the chat template. -/
  chatTemplateLength : ℤ
  /-- Number of tokens that follow and end a text. -/
  nEosTokens : ℤ
  /-- Whether a text begins with the first token. -/
  addBos : Option Bool
  /-- Place in the file. -/
  position : ℕ
  deriving DecidableEq, Repr

/-- `fseek` from the place where the file is. It fails before the beginning. -/
def seek (position : ℕ) (offset : ℤ) : ℕ :=
  if 0 ≤ position + offset then (position + offset).toNat else position

/-- A key of a tokenizer file. -/
def setTokenizerKey (header : TokenizerHeader) (key value : ℤ) : Except Stop TokenizerHeader :=
  match key with
  | 0 => .ok { header with version := value }
  | 1 => .ok { header with vocabSize := toUint value }
  | 2 => .ok { header with maxTokenLength := toUint value }
  | 3 => .ok { header with bosId := value }
  | 4 => .ok { header with eosTokenIds := header.eosTokenIds ++ [value] }
  | 6 => .ok { header with eosTokenIds := header.eosTokenIds ++ [value] }
  | 7 => .ok { header with chatTemplateLength := value }
  | 8 => .ok { header with position := seek header.position value }
  | 5 => .ok header
  | 9 => .ok { header with nEosTokens := value }
  | 10 => .ok { header with addBos := some (value = 1) }
  | _ => .error (.throws ("Invalid tokenizer header key:" ++ toString key))

/-- A text of some length and a byte after it. The size is an `int`, and negative sizes throw. -/
def newText (length : ℤ) : Except Stop ℕ :=
  if toInt (length + 1) < 0 then .error (.throws "std::bad_array_new_length")
  else .ok (toInt (length + 1)).toNat

/-- A length as the size of an element. -/
def toSize (length : ℤ) : ℕ := (length % sizeRange).toNat

/-- The chat template, when there is one. -/
def readChatTemplate (content : List UInt8) (header : TokenizerHeader) :
    Except Stop (Option (List UInt8) × ℕ) :=
  if 0 < header.chatTemplateLength then do
    let capacity ← newText header.chatTemplateLength
    let text ← freadInto content header.position capacity (toSize header.chatTemplateLength)
      "Cannot read chat template from tokenizer file"
    return (some text, header.position + toSize header.chatTemplateLength)
  else .ok (none, header.position)

/-- Tokens that end a text. -/
def readEosTokens (content : List UInt8) : ℕ → ℕ → Except Stop (List ℤ × ℕ)
  | position, 0 => .ok ([], position)
  | position, count + 1 => do
    let token ← freadInto content position 4 4 "Cannot read eos token id from tokenizer file"
    let (tokens, stop) ← readEosTokens content (position + 4) count
    return (unpack token :: tokens, stop)

/-- What stands before the vocabulary. -/
structure TokenizerHead where
  /-- Tokens. -/
  vocabSize : ℕ
  /-- Length of the longest token. -/
  maxTokenLength : ℕ
  /-- First token of a text. -/
  bosId : ℤ
  /-- Tokens that end a text. -/
  eosTokenIds : List ℤ
  /-- Whether a text begins with the first token. -/
  addBos : Option Bool
  /-- Chat template. -/
  chatTemplate : Option (List UInt8)
  /-- Place of the vocabulary in the file. -/
  position : ℕ
  deriving DecidableEq, Repr

/-- The header of the old format: five numbers. -/
def readOldHead (content : List UInt8) : Except Stop TokenizerHead := do
  let header ← freadInto content 4 20 20 "Cannot read tokenizer header"
  return {
    vocabSize := toUint (unpack (header.take 4))
    maxTokenLength := toUint (unpack ((header.drop 4).take 4))
    bosId := unpack ((header.drop 8).take 4)
    eosTokenIds := [unpack ((header.drop 12).take 4)]
    addBos := none
    chatTemplate := none
    position := 24 }

/-- The header before any key of a tokenizer file is read. -/
def TokenizerHeader.default (vocabSize position : ℕ) : TokenizerHeader :=
  ⟨-1, vocabSize, 0, -1, [], -1, 0, none, position⟩

/-- The end of the reading of a header with keys and values. -/
def finishNewHead (content : List UInt8) (header : TokenizerHeader) :
    Except Stop TokenizerHead := do
  if header.version ≠ 1 then
    throw (.throws "Old tokenizer version, please regenerate your tokenizer")
  let (chatTemplate, position) ← readChatTemplate content header
  let (eosTokenIds, position) ← readEosTokens content position header.nEosTokens.toNat
  return {
    vocabSize := header.vocabSize
    maxTokenLength := header.maxTokenLength
    bosId := header.bosId
    eosTokenIds := header.eosTokenIds ++ eosTokenIds
    addBos := header.addBos
    chatTemplate := chatTemplate
    position := position }

/-- The header with keys and values. -/
def readNewHead (content : List UInt8) (vocabSize : ℕ) : Except Stop TokenizerHead := do
  let size ← freadInto content 4 4 4 "Cannot read tokenizer header size"
  let nKv := numbersOf (unpack size)
  if nKv < 0 then
    throw (.throws "cannot create std::vector larger than max_size()")
  let buffer ← freadInto content 8 (4 * nKv.toNat) (4 * nKv.toNat) "Cannot read header values"
  let header ← forPairs setTokenizerKey (numbers nKv.toNat buffer) nKv.toNat
    (TokenizerHeader.default vocabSize (8 + 4 * nKv.toNat))
  finishNewHead content header

/-- A word of the vocabulary with the bytes of its score. -/
structure Word where
  /-- Bytes of the score. -/
  score : List UInt8
  /-- Bytes of the word. -/
  text : List UInt8
  deriving DecidableEq, Repr

/-- Words of the vocabulary. The index is an `int`: after the largest it is negative and outside. -/
def readWords (content : List UInt8) : ℕ → ℕ → ℕ → Except Stop (List Word × ℕ)
  | _, position, 0 => .ok ([], position)
  | index, position, count + 1 => do
    let score ← freadInto content position (if index < 2147483648 then 4 else 0) 4
      "Cannot read size from tokenizer file"
    let length ← freadInto content (position + 4) 4 4 "Cannot read length from tokenizer file"
    let capacity ← newText (unpack length)
    let text ← freadInto content (position + 8) capacity (toSize (unpack length))
      "Cannot read word from tokenizer file"
    let (words, stop) ← readWords content (index + 1) (position + 8 + toSize (unpack length)) count
    return (⟨score, text⟩ :: words, stop)

/-- A tokenizer. The regular words are in the order of the file, before they are sorted. -/
structure Tokenizer where
  /-- What stands before the vocabulary. -/
  head : TokenizerHead
  /-- The vocabulary. -/
  vocab : List Word
  /-- Regular words. -/
  regularVocabSize : ℕ
  /-- Special words. -/
  specialVocabSize : ℕ
  /-- Regular words with their tokens. -/
  regularVocab : List (Word × ℕ)
  /-- Special words with their tokens. -/
  specialVocab : List (Word × ℕ)
  /-- Bytes of the buffers. -/
  strBufferSize : ℕ
  deriving DecidableEq, Repr

/-- A size as a word. One that wraps is a fault. -/
def newArray (size : ℤ) : Except Stop ℕ :=
  if 0 ≤ size ∧ size < 4294967296 then .ok size.toNat else .error .faults

/-- Entries from a place of the vocabulary on. -/
def entries (vocab : List Word) : ℕ → ℕ → Except Stop (List (Word × ℕ))
  | _, 0 => .ok []
  | index, count + 1 =>
    match vocab[index]? with
    | none => .error .faults
    | some word => do
      let rest ← entries vocab (index + 1) count
      return (word, index) :: rest

/-- The end of the constructor. -/
def finishTokenizer (head : TokenizerHead) (vocab : List Word) : Except Stop Tokenizer := do
  let regularVocabSize ← newArray head.bosId
  let regularVocab ← entries vocab 0 regularVocabSize
  let specialVocabSize ← newArray (head.vocabSize - regularVocabSize)
  let specialVocab ← entries vocab regularVocabSize specialVocabSize
  let strBufferSize ← newArray (head.maxTokenLength * 2)
  return {
    head := head
    vocab := vocab
    regularVocabSize := regularVocabSize
    specialVocabSize := specialVocabSize
    regularVocab := regularVocab
    specialVocab := specialVocab
    strBufferSize := (if strBufferSize < 8 then 8 else strBufferSize) + 3 }

/-- The constructor after the head. -/
def buildTokenizer (content : List UInt8) (head : TokenizerHead) : Except Stop Tokenizer := do
  if head.maxTokenLength < 1 then
    throw (.throws "Invalid tokenizer max token length")
  let (vocab, _) ← readWords content 0 head.position head.vocabSize
  finishTokenizer head vocab

/-- The header of either format. -/
def readHead (content : List UInt8) (vocabSize : ℕ) : Except Stop TokenizerHead := do
  let magic ← freadInto content 0 4 4 "Cannot read tokenizer magic number"
  if unpack magic = 0x567123 then readOldHead content
  else if unpack magic = 0x567124 then readNewHead content vocabSize
  else .error (.throws "Invalid tokenizer file")

/-- The constructor of the tokenizer. -/
def readTokenizer (content : List UInt8) (vocabSize : ℕ) : Except Stop Tokenizer := do
  let head ← readHead content vocabSize
  buildTokenizer content head

/-- Derived fields of a tokenizer belong together. -/
structure Tokenizer.Consistent (tokenizer : Tokenizer) : Prop where
  /-- The first token is not negative. -/
  nonnegative : 0 ≤ tokenizer.head.bosId
  /-- It does not lie past the vocabulary. -/
  inside : tokenizer.head.bosId ≤ tokenizer.head.vocabSize
  /-- Regular and special words are the vocabulary. -/
  sizes : tokenizer.regularVocabSize + tokenizer.specialVocabSize = tokenizer.head.vocabSize

end Tokenizer

/-- An exception, or a result with a property. -/
def Robust {α : Type} (consistent : α → Prop) (result : Except Stop α) : Prop :=
  result ≠ .error .faults ∧ ∀ value, result = .ok value → consistent value

section Reading

variable {content : List UInt8} {position capacity size : ℕ} {text : String}

/-- The signed number at a place of a file. -/
def intAt (content : List UInt8) (place : ℕ) : ℤ := unpack ((content.drop place).take 4)

theorem unpack_range {bytes : List UInt8} (h : bytes.length ≤ 4) :
    -2147483648 ≤ unpack bytes ∧ unpack bytes < 2147483648 := by
  have hlt := LittleEndian.value_lt bytes
  have hpow : 256 ^ bytes.length ≤ 256 ^ 4 := Nat.pow_le_pow_right (by decide) h
  have hfour : 256 ^ 4 = 4294967296 := by norm_num
  unfold unpack
  split
  · omega
  · omega

theorem intAt_range (content : List UInt8) (place : ℕ) :
    -2147483648 ≤ intAt content place ∧ intAt content place < 2147483648 :=
  unpack_range (List.length_take_le _ _)

/-- A read that fits its buffer gives all of the element or throws. -/
theorem freadInto_fits (hfits : size ≤ capacity) : freadInto content position capacity size text =
    if 0 < size ∧ position + size ≤ content.length then .ok ((content.drop position).take size)
    else .error (.throws text) := by
  have hroom : ¬capacity < min size (content.length - position) := by omega
  rw [freadInto, if_neg hroom]
  by_cases hthere : 0 < size ∧ position + size ≤ content.length
  · rw [if_pos hthere, if_neg (by omega)]
  · rw [if_neg hthere, if_pos (by omega)]

theorem toInt_of_range {number : ℤ} (h : -2147483648 ≤ number ∧ number < 2147483648) :
    toInt number = number := by
  unfold toInt
  omega

/-- The number of numbers is rounded down, for small sizes below zero. -/
theorem numbersOf_eq {headerSize : ℤ} (hlow : -2147483648 ≤ headerSize)
    (hhigh : headerSize < 4294967296) : numbersOf headerSize = (headerSize - 8) / 4 := by
  unfold numbersOf toInt sizeRange
  omega

end Reading

section Loops

variable {σ : Type} {set : σ → ℤ → ℤ → Except Stop σ}

theorem numbers_add_two (count : ℕ) (bytes : List UInt8) : numbers (count + 2) bytes =
    unpack (bytes.take 4) :: unpack ((bytes.drop 4).take 4) :: numbers count (bytes.drop 8) := by
  rw [numbers, numbers, List.drop_drop]

/-- With a number after the last key the loop goes through pairs. -/
theorem forPairs_whole {n k : ℕ} (h : k + k % 2 ≤ n) (bytes : List UInt8) (state : σ) :
    forPairs set (numbers n bytes) k state =
      setPairs set (unpackPairs ((k + 1) / 2) bytes) state := by
  induction k using Nat.twoStepInduction generalizing n bytes state with
  | zero => cases n <;> exact Eq.refl _
  | one =>
    obtain ⟨m, hm⟩ : ∃ m, n = m + 2 := ⟨n - 2, by omega⟩
    rw [hm, numbers_add_two, forPairs]
    simp only [unpackPairs, setPairs]
    cases set state (unpack (bytes.take 4)) (unpack ((bytes.drop 4).take 4)) <;> exact Eq.refl _
  | more k ih _ =>
    obtain ⟨m, hm⟩ : ∃ m, n = m + 2 := ⟨n - 2, by omega⟩
    have hcount : (k + 2 + 1) / 2 = (k + 1) / 2 + 1 := by omega
    rw [hm, numbers_add_two, forPairs, hcount, unpackPairs, setPairs]
    cases set state (unpack (bytes.take 4)) (unpack ((bytes.drop 4).take 4)) with
    | error stop => exact Eq.refl _
    | ok state => exact ih (by omega) (bytes.drop 8) state

/-- Without one the loop goes through the pairs before it and then outside. -/
theorem forPairs_odd (m : ℕ) (bytes : List UInt8) (state : σ) :
    forPairs set (numbers (2 * m + 1) bytes) (2 * m + 1) state =
      (setPairs set (unpackPairs m bytes) state).bind fun _ => .error .faults := by
  induction m generalizing bytes state with
  | zero => exact Eq.refl _
  | succ m ih =>
    have hcount : 2 * (m + 1) + 1 = 2 * m + 1 + 2 := by omega
    rw [hcount, numbers_add_two, forPairs, unpackPairs, setPairs]
    cases set state (unpack (bytes.take 4)) (unpack ((bytes.drop 4).take 4)) with
    | error stop => exact Eq.refl _
    | ok state => exact ih (bytes.drop 8) state

/-- The last value of a key. -/
def lastOf (key : ℤ) : List (ℤ × ℤ) → Option ℤ
  | [] => none
  | pair :: pairs =>
    match lastOf key pairs with
    | some value => some value
    | none => if pair.1 = key then some pair.2 else none

theorem setPairs_cons {pair : ℤ × ℤ} {pairs : List (ℤ × ℤ)} {state state' : σ}
    (h : setPairs set (pair :: pairs) state = .ok state') :
    ∃ next, set state pair.1 pair.2 = .ok next ∧ setPairs set pairs next = .ok state' := by
  rw [setPairs] at h
  exact bind_eq_ok h

/-- What a field is after all pairs when one key sets it. -/
theorem setPairs_field {β : Type} (get : σ → β) (key : ℤ) (make : ℤ → β)
    (hstep : ∀ state k v next, set state k v = .ok next →
      get next = if k = key then make v else get state)
    {pairs : List (ℤ × ℤ)} {state state' : σ} (h : setPairs set pairs state = .ok state') :
    get state' = ((lastOf key pairs).map make).getD (get state) := by
  induction pairs generalizing state with
  | nil =>
    injection h with h
    rw [h]
    exact Eq.refl _
  | cons pair pairs ih =>
    obtain ⟨next, hnext, hrest⟩ := setPairs_cons h
    rw [ih hrest, lastOf, hstep state pair.1 pair.2 next hnext]
    cases lastOf key pairs with
    | some value => exact Eq.refl _
    | none =>
      by_cases hkey : pair.1 = key
      · simp only [if_pos hkey, Option.map_some, Option.getD_some, Option.map_none,
          Option.getD_none]
      · simp only [if_neg hkey, Option.map_none, Option.getD_none]

/-- All pairs are accepted exactly when each of them is. -/
theorem setPairs_ok_iff {known : ℤ → ℤ → Prop}
    (hset : ∀ state k v, (∃ next, set state k v = .ok next) ↔ known k v)
    {pairs : List (ℤ × ℤ)} {state : σ} :
    (∃ state', setPairs set pairs state = .ok state') ↔ ∀ pair ∈ pairs, known pair.1 pair.2 := by
  induction pairs generalizing state with
  | nil =>
    constructor
    · intro _ pair hpair
      cases hpair
    · intro _
      exact ⟨state, Eq.refl _⟩
  | cons pair pairs ih =>
    rw [List.forall_mem_cons]
    constructor
    · intro h
      obtain ⟨state', h⟩ := h
      obtain ⟨next, hnext, hrest⟩ := setPairs_cons h
      exact ⟨(hset state pair.1 pair.2).mp ⟨next, hnext⟩, ih.mp ⟨state', hrest⟩⟩
    · intro h
      obtain ⟨next, hnext⟩ := (hset state pair.1 pair.2).mpr h.1
      obtain ⟨state', hrest⟩ := ih.mpr h.2
      refine ⟨state', ?_⟩
      rw [setPairs, hnext]
      exact hrest

/-- Keys throw and do nothing else wrong. -/
theorem setPairs_ne_faults (hset : ∀ state k v, set state k v ≠ .error .faults)
    (pairs : List (ℤ × ℤ)) (state : σ) : setPairs set pairs state ≠ .error .faults := by
  induction pairs generalizing state with
  | nil =>
    intro h
    cases h
  | cons pair pairs ih =>
    intro h
    rw [setPairs] at h
    cases hnext : set state pair.1 pair.2 with
    | error stop =>
      rw [hnext] at h
      exact hset state pair.1 pair.2 (hnext.trans h)
    | ok next =>
      rw [hnext] at h
      exact ih next h

/-- A known key sets what its value says, and another one throws. -/
def SetsOrThrows (set : σ → ℤ → ℤ → Except Stop σ) (known : ℤ → ℤ → Prop)
    (sets : σ → σ → ℤ → ℤ → Prop) : Prop :=
  ∀ state key value,
    (∃ next, set state key value = .ok next ∧ known key value ∧ sets state next key value) ∨
      ∃ text, set state key value = .error (.throws text) ∧ ¬known key value

section SetsOrThrows

variable {known : ℤ → ℤ → Prop} {sets : σ → σ → ℤ → ℤ → Prop}

theorem SetsOrThrows.ok_iff (h : SetsOrThrows set known sets) (state : σ) (key value : ℤ) :
    (∃ next, set state key value = .ok next) ↔ known key value := by
  cases h state key value with
  | inl hset =>
    obtain ⟨next, hok, hknown, _⟩ := hset
    exact iff_of_true ⟨next, hok⟩ hknown
  | inr hset =>
    obtain ⟨text, herror, hunknown⟩ := hset
    refine iff_of_false ?_ hunknown
    intro hok
    obtain ⟨next, hok⟩ := hok
    rw [herror] at hok
    cases hok

theorem SetsOrThrows.ne_faults (h : SetsOrThrows set known sets) (state : σ) (key value : ℤ) :
    set state key value ≠ .error .faults := by
  intro hfaults
  cases h state key value with
  | inl hset =>
    obtain ⟨next, hok, _⟩ := hset
    rw [hok] at hfaults
    cases hfaults
  | inr hset =>
    obtain ⟨text, herror, _⟩ := hset
    rw [herror] at hfaults
    cases hfaults

theorem SetsOrThrows.of_ok (h : SetsOrThrows set known sets) (state : σ) (key value : ℤ) (next : σ)
    (hset : set state key value = .ok next) : sets state next key value := by
  cases h state key value with
  | inl hcase =>
    obtain ⟨other, hok, _, hsets⟩ := hcase
    rw [hok] at hset
    injection hset with hset
    exact hset ▸ hsets
  | inr hcase =>
    obtain ⟨text, herror, _⟩ := hcase
    rw [herror] at hset
    cases hset

end SetsOrThrows

end Loops

section ModelKeys

/-- Keys that a model file may have. -/
def KnownKey (key value : ℤ) : Prop := 0 ≤ key ∧ key ≤ 21 ∧ (key = 20 → value = 5 ∨ value = 6)

/-- What a key does to the fields that sizes are made of. -/
structure KeySets (keys next : LlmHeaderKeys) (key value : ℤ) : Prop where
  /-- Values of a row. -/
  dim : next.dim = if key = 2 then toUint value else keys.dim
  /-- Query heads. -/
  nHeads : next.nHeads = if key = 5 then toUint value else keys.nHeads
  /-- Key heads. -/
  nKvHeads : next.nKvHeads = if key = 6 then toUint value else keys.nKvHeads
  /-- Format of the weights. -/
  weightType : next.weightType = if key = 13 then value else keys.weightType
  /-- Values of a head. -/
  headDim : next.headDim = if key = 19 then toUint value else keys.headDim

theorem set_cases (keys : LlmHeaderKeys) (key value : ℤ) :
    (∃ next, keys.set key value = .ok next ∧ KnownKey key value ∧ KeySets keys next key value) ∨
      (∃ text, keys.set key value = .error text ∧ ¬KnownKey key value) := by
  unfold LlmHeaderKeys.set
  split
  case h_21 =>
    by_cases hvalue : value = 5 ∨ value = 6
    · rw [if_pos hvalue]
      refine .inl ⟨_, Eq.refl _, ⟨by decide, by decide, fun _ => hvalue⟩, ?_⟩
      constructor <;> simp
    · rw [if_neg hvalue]
      exact .inr ⟨_, Eq.refl _, fun h => hvalue (h.2.2 (Eq.refl _))⟩
  case h_23 =>
    refine .inr ⟨_, Eq.refl _, ?_⟩
    intro h
    have hlow := h.1
    have hhigh := h.2.1
    simp only [imp_false] at *
    omega
  all_goals
    refine .inl ⟨_, Eq.refl _, ⟨by decide, by decide, fun h => absurd h (by decide)⟩, ?_⟩
    constructor <;> simp

theorem setKey_cases : SetsOrThrows setKey KnownKey KeySets := by
  intro keys key value
  unfold setKey
  cases set_cases keys key value with
  | inl hset =>
    obtain ⟨next, hok, hset⟩ := hset
    rw [hok]
    exact .inl ⟨next, Eq.refl _, hset⟩
  | inr hset =>
    obtain ⟨text, herror, hunknown⟩ := hset
    rw [herror]
    exact .inr ⟨text, Eq.refl _, hunknown⟩

/-- Pairs that the loader of a model file reads. -/
def modelPairs (content : List UInt8) : List (ℤ × ℤ) :=
  unpackPairs (((toUint (intAt content 4) - 8) / 4 + 1) / 2)
    ((content.drop 8).take (toUint (intAt content 4)))

/-- The last value of a key as a word, zero when it is missing. -/
def wordOf (key : ℤ) (pairs : List (ℤ × ℤ)) : ℕ := ((lastOf key pairs).map toUint).getD 0

/-- The loader comes to the end of the keys and has a type of the weights. -/
structure ReadsKeys (content : List UInt8) : Prop where
  /-- The mark. -/
  mark : intAt content 0 = 0xA00ABCD
  /-- The size that the file gives, and so many bytes after it. -/
  sized : 0 < toUint (intAt content 4) ∧ 8 + toUint (intAt content 4) ≤ content.length
  /-- No unknown key. -/
  known : ∀ pair ∈ modelPairs content, KnownKey pair.1 pair.2
  /-- The type of the weights. -/
  weights : (lastOf 13 (modelPairs content)).getD (-1) ≠ -1

/-- Values of a head, as given or as a quotient. -/
def headDimOf (pairs : List (ℤ × ℤ)) : ℕ :=
  if wordOf 19 pairs = 0 then wordOf 2 pairs / wordOf 5 pairs else wordOf 19 pairs

/-- The keys of a model file that is read give heads when the values of a head are missing, and
sizes of queries and keys that are words. -/
def ModelFits (content : List UInt8) : Prop :=
  ReadsKeys content →
    (wordOf 19 (modelPairs content) = 0 → wordOf 5 (modelPairs content) ≠ 0) ∧
    headDimOf (modelPairs content) * wordOf 5 (modelPairs content) < 4294967296 ∧
    headDimOf (modelPairs content) * wordOf 6 (modelPairs content) < 4294967296

variable {content : List UInt8} {maxSeqLen : ℕ} {syncType : ℤ}

theorem toUint_lt (number : ℤ) : toUint number < 4294967296 := by
  unfold toUint
  omega

/-- What the keys are after all pairs. -/
theorem setPairs_model {pairs : List (ℤ × ℤ)} {keys : LlmHeaderKeys}
    (h : setPairs setKey pairs LlmHeaderKeys.default = .ok keys) :
    keys.dim = wordOf 2 pairs ∧ keys.nHeads = wordOf 5 pairs ∧ keys.nKvHeads = wordOf 6 pairs ∧
      keys.weightType = (lastOf 13 pairs).getD (-1) ∧ keys.headDim = wordOf 19 pairs := by
  have hweights := setPairs_field LlmHeaderKeys.weightType 13 id
    (fun keys k v next hset => (setKey_cases.of_ok keys k v next hset).weightType) h
  rw [Option.map_id_fun, id] at hweights
  refine ⟨?_, ?_, ?_, hweights, ?_⟩
  · exact setPairs_field LlmHeaderKeys.dim 2 toUint
      (fun keys k v next hset => (setKey_cases.of_ok keys k v next hset).dim) h
  · exact setPairs_field LlmHeaderKeys.nHeads 5 toUint
      (fun keys k v next hset => (setKey_cases.of_ok keys k v next hset).nHeads) h
  · exact setPairs_field LlmHeaderKeys.nKvHeads 6 toUint
      (fun keys k v next hset => (setKey_cases.of_ok keys k v next hset).nKvHeads) h
  · exact setPairs_field LlmHeaderKeys.headDim 19 toUint
      (fun keys k v next hset => (setKey_cases.of_ok keys k v next hset).headDim) h

/-- The end of the loader is robust exactly when the sizes are made of what is there. -/
theorem finishHeader_robust_iff {keys : LlmHeaderKeys} {headerSize fileSize : ℕ}
    (hweights : keys.weightType ≠ -1) :
    Robust Header.Consistent (finishHeader keys maxSeqLen syncType headerSize fileSize) ↔
      (keys.headDim = 0 → keys.nHeads ≠ 0) ∧
      (if keys.headDim = 0 then keys.dim / keys.nHeads else keys.headDim) * keys.nHeads <
        4294967296 ∧
      (if keys.headDim = 0 then keys.dim / keys.nHeads else keys.headDim) * keys.nKvHeads <
        4294967296 := by
  unfold finishHeader
  rw [if_neg hweights]
  by_cases htrap : keys.headDim = 0 ∧ keys.nHeads = 0
  · have htraps : resolveHeadDim keys = .error .faults := by
      rw [resolveHeadDim, if_pos htrap.1, divide, if_pos htrap.2]
    rw [htraps]
    constructor
    · intro h
      exact absurd (Eq.refl _) h.1
    · intro h
      exact absurd htrap.2 (h.1 htrap.1)
  · have hhead : resolveHeadDim keys =
        .ok (if keys.headDim = 0 then keys.dim / keys.nHeads else keys.headDim) := by
      unfold resolveHeadDim
      by_cases hzero : keys.headDim = 0
      · have hheads : keys.nHeads ≠ 0 := fun heads => htrap ⟨hzero, heads⟩
        rw [if_pos hzero, if_pos hzero, divide, if_neg hheads]
      · rw [if_neg hzero, if_neg hzero]
    rw [hhead]
    generalize (if keys.headDim = 0 then keys.dim / keys.nHeads else keys.headDim) = headDim
    constructor
    · intro h
      have hconsistent := h.2 _ (Eq.refl _)
      have hqueries := hconsistent.queries
      have hkeys := hconsistent.keyValues
      simp only at hqueries hkeys
      have hqlt := Nat.mod_lt (headDim * keys.nHeads) (by decide : 4294967296 > 0)
      have hklt := Nat.mod_lt (headDim * keys.nKvHeads) (by decide : 4294967296 > 0)
      refine ⟨fun hzero heads => htrap ⟨hzero, heads⟩, ?_, ?_⟩
      · rw [hqueries]
        exact hqlt
      · rw [hkeys]
        exact hklt
    · intro h
      constructor
      · intro hfaults
        cases hfaults
      · intro header hheader
        injection hheader with hheader
        rw [← hheader]
        constructor
        · exact (Nat.mod_eq_of_lt h.2.1).symm
        · exact (Nat.mod_eq_of_lt h.2.2).symm

/-- The loader throws, or comes to its end with the keys of the file. -/
theorem loadLlmHeader_cases (content : List UInt8) (maxSeqLen : ℕ) (syncType : ℤ) :
    (¬ReadsKeys content ∧ ∃ text,
      loadLlmHeader content maxSeqLen syncType = .error (.throws text)) ∨
    (ReadsKeys content ∧ ∃ keys,
      setPairs setKey (modelPairs content) LlmHeaderKeys.default = .ok keys ∧
      loadLlmHeader content maxSeqLen syncType =
        finishHeader keys maxSeqLen syncType (toUint (intAt content 4)) content.length) := by
  have hplace : ∀ place, unpack ((content.drop place).take 4) = intAt content place :=
    fun _ => Eq.refl _
  unfold loadLlmHeader
  rw [freadInto_fits (Nat.le_refl 4)]
  by_cases hmagic : 0 < 4 ∧ 0 + 4 ≤ content.length
  · rw [if_pos hmagic]
    simp only [bind, Except.bind, hplace]
    by_cases hold : intAt content 0 = 0xABCD00 ∨ intAt content 0 = 0xABCD01
    · rw [if_pos hold]
      refine .inl ⟨?_, _, Eq.refl _⟩
      intro hreads
      have hmark := hreads.mark
      omega
    · rw [if_neg hold]
      by_cases hmark : intAt content 0 = 0xA00ABCD
      · rw [if_neg (not_not.mpr hmark), freadInto_fits (Nat.le_refl 4)]
        by_cases hsize : 0 < 4 ∧ 4 + 4 ≤ content.length
        · have hcapacity : toUint (intAt content 4) ≤ 4 * toUint (intAt content 4) := by omega
          rw [if_pos hsize]
          simp only [hplace]
          rw [freadInto_fits hcapacity]
          by_cases hvalues : 0 < toUint (intAt content 4) ∧
              8 + toUint (intAt content 4) ≤ content.length
          · have hcount : (numbersOf (toUint (intAt content 4))).toNat =
                (toUint (intAt content 4) - 8) / 4 := by
              have hlt := toUint_lt (intAt content 4)
              rw [numbersOf_eq (by omega) (by omega)]
              omega
            have hinside : (toUint (intAt content 4) - 8) / 4 +
                (toUint (intAt content 4) - 8) / 4 % 2 ≤ toUint (intAt content 4) := by
              omega
            have hloop : forPairs setKey (numbers (toUint (intAt content 4))
                ((content.drop 8).take (toUint (intAt content 4))))
                ((toUint (intAt content 4) - 8) / 4) LlmHeaderKeys.default =
                setPairs setKey (modelPairs content) LlmHeaderKeys.default :=
              forPairs_whole hinside _ _
            rw [if_pos hvalues]
            simp only
            rw [hcount, hloop]
            cases hkeys : setPairs setKey (modelPairs content) LlmHeaderKeys.default with
            | error stop =>
              refine .inl ⟨?_, ?_⟩
              · intro hreads
                obtain ⟨keys, hok⟩ := (setPairs_ok_iff setKey_cases.ok_iff).mpr hreads.known
                rw [hkeys] at hok
                cases hok
              · cases stop with
                | throws text => exact ⟨text, Eq.refl _⟩
                | faults => exact absurd hkeys (setPairs_ne_faults setKey_cases.ne_faults _ _)
            | ok keys =>
              have hknown := (setPairs_ok_iff setKey_cases.ok_iff).mp ⟨keys, hkeys⟩
              have hweight := (setPairs_model hkeys).2.2.2.1
              by_cases hweights : (lastOf 13 (modelPairs content)).getD (-1) = -1
              · refine .inl ⟨fun hreads => hreads.weights hweights,
                  "Model does not specify weight type", ?_⟩
                simp only [finishHeader, if_pos (hweight.trans hweights)]
                rfl
              · exact .inr ⟨⟨hmark, hvalues, hknown, hweights⟩, keys, Eq.refl _, Eq.refl _⟩
          · rw [if_neg hvalues]
            exact .inl ⟨fun hreads => hvalues hreads.sized, _, Eq.refl _⟩
        · rw [if_neg hsize]
          refine .inl ⟨?_, _, Eq.refl _⟩
          intro hreads
          have hsized := hreads.sized
          omega
      · rw [if_pos hmark]
        exact .inl ⟨fun hreads => hmark hreads.mark, _, Eq.refl _⟩
  · rw [if_neg hmagic]
    refine .inl ⟨?_, _, Eq.refl _⟩
    intro hreads
    have hsized := hreads.sized
    omega

theorem robust_throws {α : Type} (consistent : α → Prop) (text : String) :
    Robust consistent (.error (.throws text)) := by
  constructor
  · intro h
    cases h
  · intro value h
    cases h

theorem loadLlmHeader_robust_iff :
    Robust Header.Consistent (loadLlmHeader content maxSeqLen syncType) ↔ ModelFits content := by
  rcases loadLlmHeader_cases content maxSeqLen syncType with h | h
  · obtain ⟨hreads, text, hthrows⟩ := h
    rw [hthrows]
    constructor
    · intro _ hreads'
      exact absurd hreads' hreads
    · intro _
      exact robust_throws _ text
  · obtain ⟨hreads, keys, hkeys, hload⟩ := h
    obtain ⟨hdim, hheads, hkvHeads, hweights, hheadDim⟩ := setPairs_model hkeys
    have hgiven : keys.weightType ≠ -1 := by
      rw [hweights]
      exact hreads.weights
    rw [hload, finishHeader_robust_iff hgiven, hdim, hheads, hkvHeads, hheadDim]
    constructor
    · intro h _
      exact h
    · intro h
      exact h hreads

end ModelKeys

section TokenizerKeys

/-- Keys that a tokenizer file may have. -/
def KnownTokenizerKey (key _value : ℤ) : Prop := 0 ≤ key ∧ key ≤ 10

/-- What a key does to the numbers that are used later. -/
structure TokenizerKeySets (header next : TokenizerHeader) (key value : ℤ) : Prop where
  /-- Version. -/
  version : next.version = if key = 0 then value else header.version
  /-- Tokens. -/
  vocabSize : next.vocabSize = if key = 1 then toUint value else header.vocabSize
  /-- Length of the longest token. -/
  maxTokenLength : next.maxTokenLength = if key = 2 then toUint value else header.maxTokenLength
  /-- First token of a text. -/
  bosId : next.bosId = if key = 3 then value else header.bosId
  /-- Length of the chat template. -/
  chatTemplateLength :
    next.chatTemplateLength = if key = 7 then value else header.chatTemplateLength
  /-- Number of tokens that end a text. -/
  nEosTokens : next.nEosTokens = if key = 9 then value else header.nEosTokens
  /-- Place in the file. -/
  position : next.position = if key = 8 then seek header.position value else header.position

theorem setTokenizerKey_cases :
    SetsOrThrows setTokenizerKey KnownTokenizerKey TokenizerKeySets := by
  intro header key value
  unfold setTokenizerKey
  split
  case h_12 =>
    refine .inr ⟨_, Eq.refl _, ?_⟩
    intro h
    have hlow := h.1
    have hhigh := h.2
    simp only [imp_false] at *
    omega
  all_goals
    refine .inl ⟨_, Eq.refl _, ⟨by decide, by decide⟩, ?_⟩
    constructor <;> simp

/-- Where the file is after the stops of a chat have been skipped. -/
def placeAfter : ℕ → List (ℤ × ℤ) → ℕ
  | position, [] => position
  | position, pair :: pairs =>
    placeAfter (if pair.1 = 8 then seek position pair.2 else position) pairs

theorem setPairs_position {pairs : List (ℤ × ℤ)} {header header' : TokenizerHeader}
    (h : setPairs setTokenizerKey pairs header = .ok header') :
    header'.position = placeAfter header.position pairs := by
  induction pairs generalizing header with
  | nil =>
    injection h with h
    rw [h]
    exact Eq.refl _
  | cons pair pairs ih =>
    obtain ⟨next, hnext, hrest⟩ := setPairs_cons h
    rw [ih hrest, (setTokenizerKey_cases.of_ok header pair.1 pair.2 next hnext).position, placeAfter]

/-- What is used of the part before the vocabulary. -/
structure Opening where
  /-- Tokens. -/
  vocabSize : ℕ
  /-- Length of the longest token. -/
  maxTokenLength : ℕ
  /-- First token of a text. -/
  bosId : ℤ
  /-- Place of the vocabulary in the file. -/
  position : ℕ

/-- The opening of a head. -/
def TokenizerHead.opening (head : TokenizerHead) : Opening :=
  ⟨head.vocabSize, head.maxTokenLength, head.bosId, head.position⟩

/-- Numbers of the header of a tokenizer file. -/
def tokenizerCount (content : List UInt8) : ℕ := ((intAt content 4 - 8) / 4).toNat

/-- Pairs of numbers of the header of a tokenizer file. -/
def tokenizerPairs (content : List UInt8) : List (ℤ × ℤ) :=
  unpackPairs (tokenizerCount content / 2) ((content.drop 8).take (4 * tokenizerCount content))

/-- A header with keys and values is there, and no key of its pairs is unknown. -/
structure HasPairs (content : List UInt8) : Prop where
  /-- The mark. -/
  mark : intAt content 0 = 0x567124
  /-- There are numbers. -/
  sized : 0 < tokenizerCount content ∧ 8 + 4 * tokenizerCount content ≤ content.length
  /-- No unknown key. -/
  known : ∀ pair ∈ tokenizerPairs content, KnownTokenizerKey pair.1 pair.2

/-- A header with a key that has no value. -/
def OddHeader (content : List UInt8) : Prop :=
  HasPairs content ∧ tokenizerCount content % 2 = 1

/-- Length of the chat template, zero without one. -/
def templateLength (content : List UInt8) : ℕ :=
  ((lastOf 7 (tokenizerPairs content)).getD (-1)).toNat

/-- Tokens that follow and end a text. -/
def eosCount (content : List UInt8) : ℕ := ((lastOf 9 (tokenizerPairs content)).getD 0).toNat

/-- Where the file is after the header. -/
def headerEnd (content : List UInt8) : ℕ :=
  placeAfter (8 + 4 * tokenizerCount content) (tokenizerPairs content)

/-- A header with keys and values that opens a vocabulary. The size of the vocabulary is what was in
memory when no key gives it. -/
structure NewOpening (content : List UInt8) (vocabSize : ℕ) (opening : Opening) : Prop where
  /-- The pairs are there. -/
  pairs : HasPairs content
  /-- Every key has a value. -/
  even : tokenizerCount content % 2 = 0
  /-- The version. -/
  version : lastOf 0 (tokenizerPairs content) = some 1
  /-- The chat template is there. -/
  template : 0 < templateLength content → templateLength content < 2147483647 ∧
    headerEnd content + templateLength content ≤ content.length
  /-- Tokens that end a text are there. -/
  eos : 0 < eosCount content →
    headerEnd content + templateLength content + 4 * eosCount content ≤ content.length
  /-- Numbers of the opening. -/
  numbers : opening = {
    vocabSize := ((lastOf 1 (tokenizerPairs content)).map toUint).getD vocabSize
    maxTokenLength := wordOf 2 (tokenizerPairs content)
    bosId := (lastOf 3 (tokenizerPairs content)).getD (-1)
    position := headerEnd content + templateLength content + 4 * eosCount content }

/-- A header of the old format. -/
structure OldOpening (content : List UInt8) (opening : Opening) : Prop where
  /-- The mark. -/
  mark : intAt content 0 = 0x567123
  /-- The numbers are there. -/
  sized : 24 ≤ content.length
  /-- Numbers of the opening. -/
  numbers : opening = ⟨toUint (intAt content 4), toUint (intAt content 8), intAt content 12, 24⟩

/-- A header that opens a vocabulary. -/
def Opens (content : List UInt8) (vocabSize : ℕ) (opening : Opening) : Prop :=
  OldOpening content opening ∨ NewOpening content vocabSize opening

/-- A word that is all there. -/
structure WordAt (content : List UInt8) (position length : ℕ) : Prop where
  /-- Its length. -/
  length_eq : intAt content (position + 4) = length
  /-- It is not empty, and there may be a byte after it. -/
  positive : 0 < length ∧ length < 2147483647
  /-- Its bytes are there. -/
  sized : position + 8 + length ≤ content.length

/-- So many words one after the other. -/
inductive Words (content : List UInt8) : ℕ → ℕ → ℕ → Prop
  | none (position : ℕ) : Words content position 0 position
  | word {position length count stop : ℕ} (hword : WordAt content position length)
      (hrest : Words content (position + 8 + length) count stop) :
      Words content position (count + 1) stop

/-- A word is stored outside a buffer: its length is minus one and bytes follow, or its index is
past the largest `int` and there is a byte of it. -/
def Overruns (content : List UInt8) (index stop : ℕ) : Prop :=
  (index < 2147483648 ∧ intAt content (stop + 4) = -1 ∧ stop + 8 < content.length) ∨
    (2147483648 ≤ index ∧ stop < content.length)

/-- No word is stored outside, and when all words are there the sizes fit the vocabulary. -/
structure Opening.WordsFit (content : List UInt8) (opening : Opening) : Prop where
  /-- No word is stored outside. -/
  inside : ∀ count stop, count < opening.vocabSize →
    Words content opening.position count stop → ¬Overruns content count stop
  /-- Sizes that are made of the header. -/
  sizes : ∀ stop, Words content opening.position opening.vocabSize stop →
    (0 ≤ opening.bosId ∧ opening.bosId ≤ opening.vocabSize) ∧ opening.maxTokenLength < 2147483648

/-- Every key has a value, and what a header opens fits. -/
structure TokenizerFits (content : List UInt8) (vocabSize : ℕ) : Prop where
  /-- Every key has a value. -/
  even : ¬OddHeader content
  /-- The vocabulary fits. -/
  words : ∀ opening, Opens content vocabSize opening → 0 < opening.maxTokenLength →
    opening.WordsFit content

end TokenizerKeys

section TokenizerHeads

variable {content : List UInt8}

theorem lastOf_range (key : ℤ) (count : ℕ) (bytes : List UInt8) (value : ℤ)
    (h : lastOf key (unpackPairs count bytes) = some value) :
    -2147483648 ≤ value ∧ value < 2147483648 := by
  induction count generalizing bytes with
  | zero => cases h
  | succ count ih =>
    rw [unpackPairs, lastOf] at h
    cases hrest : lastOf key (unpackPairs count (bytes.drop 8)) with
    | some other =>
      rw [hrest] at h
      injection h with h
      exact ih (bytes.drop 8) (hrest.trans (congrArg some h))
    | none =>
      rw [hrest] at h
      simp only at h
      split at h
      · injection h with h
        exact h ▸ unpack_range (List.length_take_le _ _)
      · cases h

theorem toSize_of_nonneg {length : ℤ} (h : 0 ≤ length) (hrange : length < 2147483648) :
    toSize length = length.toNat := by
  unfold toSize sizeRange
  omega

/-- A text of a length in range has a byte after it. -/
theorem newText_of_range {length : ℤ} (h : 0 < length) (hrange : length < 2147483647) :
    newText length = .ok (length.toNat + 1) := by
  have hint : toInt (length + 1) = length + 1 := toInt_of_range (by omega)
  rw [newText, hint, if_neg (by omega)]
  congr 1
  omega

theorem newText_throws {length : ℤ} (h : length < -1 ∨ length = 2147483647)
    (hrange : -2147483648 ≤ length) :
    newText length = .error (.throws "std::bad_array_new_length") := by
  have hnegative : toInt (length + 1) < 0 := by
    unfold toInt
    omega
  rw [newText, if_pos hnegative]

/-- The chat template is read when it is there. -/
theorem readChatTemplate_cases {header : TokenizerHeader}
    (hrange : header.chatTemplateLength < 2147483648) :
    ((0 < header.chatTemplateLength.toNat → header.chatTemplateLength.toNat < 2147483647 ∧
        header.position + header.chatTemplateLength.toNat ≤ content.length) ∧
      ∃ text, readChatTemplate content header =
        .ok (text, header.position + header.chatTemplateLength.toNat)) ∨
    (¬(0 < header.chatTemplateLength.toNat → header.chatTemplateLength.toNat < 2147483647 ∧
        header.position + header.chatTemplateLength.toNat ≤ content.length) ∧
      ∃ text, readChatTemplate content header = .error (.throws text)) := by
  unfold readChatTemplate
  by_cases hpositive : 0 < header.chatTemplateLength
  · rw [if_pos hpositive]
    by_cases hlargest : header.chatTemplateLength < 2147483647
    · have hsize := toSize_of_nonneg (le_of_lt hpositive) hrange
      rw [newText_of_range hpositive hlargest, hsize]
      simp only [bind, Except.bind]
      rw [freadInto_fits (Nat.le_succ _)]
      by_cases hthere : 0 < header.chatTemplateLength.toNat ∧
          header.position + header.chatTemplateLength.toNat ≤ content.length
      · rw [if_pos hthere]
        exact .inl ⟨fun _ => ⟨by omega, hthere.2⟩, _, Eq.refl _⟩
      · rw [if_neg hthere]
        refine .inr ⟨?_, _, Eq.refl _⟩
        intro h
        exact hthere ⟨by omega, (h (by omega)).2⟩
    · rw [newText_throws (.inr (by omega)) (by omega)]
      refine .inr ⟨?_, _, Eq.refl _⟩
      intro h
      have hlt := (h (by omega)).1
      omega
  · rw [if_neg hpositive]
    have hzero : header.chatTemplateLength.toNat = 0 := by omega
    rw [hzero]
    exact .inl ⟨fun h => absurd h (Nat.lt_irrefl 0), none, Eq.refl _⟩

/-- Tokens that end a text are read when they are there. -/
theorem readEosTokens_cases (position count : ℕ) :
    ((0 < count → position + 4 * count ≤ content.length) ∧
      ∃ tokens, readEosTokens content position count = .ok (tokens, position + 4 * count)) ∨
    (¬(0 < count → position + 4 * count ≤ content.length) ∧
      ∃ text, readEosTokens content position count = .error (.throws text)) := by
  induction count generalizing position with
  | zero => exact .inl ⟨fun h => absurd h (Nat.lt_irrefl 0), [], Eq.refl _⟩
  | succ count ih =>
    rw [readEosTokens, freadInto_fits (Nat.le_refl 4)]
    by_cases hthere : 0 < 4 ∧ position + 4 ≤ content.length
    · rw [if_pos hthere]
      simp only [bind, Except.bind]
      cases ih (position + 4) with
      | inl hrest =>
        obtain ⟨hfits, tokens, hok⟩ := hrest
        rw [hok]
        refine .inl ⟨?_, unpack ((content.drop position).take 4) :: tokens, ?_⟩
        · intro _
          rcases Nat.eq_zero_or_pos count with hzero | hpositive
          · omega
          · have hle := hfits hpositive
            omega
        · have hstop : position + 4 + 4 * count = position + 4 * (count + 1) := by omega
          rw [hstop]
          exact Eq.refl _
      | inr hrest =>
        obtain ⟨hshort, text, herror⟩ := hrest
        rw [herror]
        refine .inr ⟨?_, text, Eq.refl _⟩
        intro h
        have hle := h (Nat.succ_pos count)
        exact hshort fun _ => by omega
    · rw [if_neg hthere]
      refine .inr ⟨?_, _, Eq.refl _⟩
      intro h
      have hle := h (Nat.succ_pos count)
      omega

/-- What the numbers are after all pairs of a tokenizer file. -/
theorem setPairs_tokenizer {pairs : List (ℤ × ℤ)} {header header' : TokenizerHeader}
    (h : setPairs setTokenizerKey pairs header = .ok header') :
    header'.version = (lastOf 0 pairs).getD header.version ∧
      header'.vocabSize = ((lastOf 1 pairs).map toUint).getD header.vocabSize ∧
      header'.maxTokenLength = ((lastOf 2 pairs).map toUint).getD header.maxTokenLength ∧
      header'.bosId = (lastOf 3 pairs).getD header.bosId ∧
      header'.chatTemplateLength = (lastOf 7 pairs).getD header.chatTemplateLength ∧
      header'.nEosTokens = (lastOf 9 pairs).getD header.nEosTokens := by
  have hversion := setPairs_field TokenizerHeader.version 0 id
    (fun header k v next hset => (setTokenizerKey_cases.of_ok header k v next hset).version) h
  have hbos := setPairs_field TokenizerHeader.bosId 3 id
    (fun header k v next hset => (setTokenizerKey_cases.of_ok header k v next hset).bosId) h
  have htemplate := setPairs_field TokenizerHeader.chatTemplateLength 7 id
    (fun header k v next hset => (setTokenizerKey_cases.of_ok header k v next hset).chatTemplateLength) h
  have heos := setPairs_field TokenizerHeader.nEosTokens 9 id
    (fun header k v next hset => (setTokenizerKey_cases.of_ok header k v next hset).nEosTokens) h
  rw [Option.map_id_fun, id] at hversion hbos htemplate heos
  refine ⟨hversion, ?_, ?_, hbos, htemplate, heos⟩
  · exact setPairs_field TokenizerHeader.vocabSize 1 toUint
      (fun header k v next hset => (setTokenizerKey_cases.of_ok header k v next hset).vocabSize) h
  · exact setPairs_field TokenizerHeader.maxTokenLength 2 toUint
      (fun header k v next hset => (setTokenizerKey_cases.of_ok header k v next hset).maxTokenLength) h

end TokenizerHeads

section Opened

variable {content : List UInt8} {vocabSize : ℕ}

/-- What reading a header comes to: a fault with a key that has no value, an exception, or a
head. -/
def Reads (fault : Prop) (opens : Opening → Prop)
    (result : Except Stop TokenizerHead) : Prop :=
  (fault ∧ result = .error .faults) ∨
    (¬fault ∧ (∃ text, result = .error (.throws text)) ∧ ∀ opening, ¬opens opening) ∨
    (¬fault ∧ ∃ head, result = .ok head ∧ ∀ opening, opens opening ↔ opening = head.opening)

theorem finishNewHead_cases {header : TokenizerHeader} (hpairs : HasPairs content)
    (heven : tokenizerCount content % 2 = 0)
    (hset : setPairs setTokenizerKey (tokenizerPairs content)
      (TokenizerHeader.default vocabSize (8 + 4 * tokenizerCount content)) = .ok header) :
    Reads (OddHeader content) (NewOpening content vocabSize)
      (finishNewHead content header) := by
  obtain ⟨hversion, hvocab, hlength, hbos, htemplate, heos⟩ := setPairs_tokenizer hset
  have hposition : header.position = headerEnd content := setPairs_position hset
  have hnot : ¬OddHeader content := by
    intro h
    have hodd := h.2
    omega
  have htl : header.chatTemplateLength.toNat = templateLength content := by
    rw [htemplate]
    exact Eq.refl _
  have hne : header.nEosTokens.toNat = eosCount content := by
    rw [heos]
    exact Eq.refl _
  have hrange : header.chatTemplateLength < 2147483648 := by
    rw [htemplate]
    cases hlast : lastOf 7 (tokenizerPairs content) with
    | none => exact (by decide : (-1 : ℤ) < 2147483648)
    | some value => exact (lastOf_range 7 _ _ value hlast).2
  unfold finishNewHead
  by_cases hone : header.version = 1
  · have hlast : lastOf 0 (tokenizerPairs content) = some 1 := by
      rw [hversion] at hone
      cases hgiven : lastOf 0 (tokenizerPairs content) with
      | none =>
        rw [hgiven] at hone
        have hdefault : (TokenizerHeader.default vocabSize
          (8 + 4 * tokenizerCount content)).version = -1 := Eq.refl _
        rw [Option.getD_none, hdefault] at hone
        cases hone
      | some value =>
        rw [hgiven] at hone
        exact congrArg some hone
    rw [if_neg (not_not.mpr hone)]
    simp only [bind, Except.bind]
    rcases @readChatTemplate_cases content header hrange with h | h
    · obtain ⟨hfits, text, hok⟩ := h
      rw [htl, hposition] at hfits hok
      rw [hok]
      simp only
      rcases @readEosTokens_cases content (headerEnd content + templateLength content)
        header.nEosTokens.toNat with h | h
      · obtain ⟨hthere, tokens, hread⟩ := h
        rw [hne] at hthere hread
        rw [hne, hread]
        refine .inr (.inr ⟨hnot, _, Eq.refl _, ?_⟩)
        intro opening
        have hopening : (⟨header.vocabSize, header.maxTokenLength, header.bosId,
            headerEnd content + templateLength content + 4 * eosCount content⟩ : Opening) = {
              vocabSize := ((lastOf 1 (tokenizerPairs content)).map toUint).getD vocabSize
              maxTokenLength := wordOf 2 (tokenizerPairs content)
              bosId := (lastOf 3 (tokenizerPairs content)).getD (-1)
              position :=
                headerEnd content + templateLength content + 4 * eosCount content } := by
          rw [hvocab, hlength, hbos]
          exact Eq.refl _
        constructor
        · intro h
          rw [h.numbers, ← hopening]
          exact Eq.refl _
        · intro h
          exact ⟨hpairs, heven, hlast, hfits, hthere, h.trans hopening⟩
      · obtain ⟨hshort, text, hread⟩ := h
        rw [hne] at hshort hread
        rw [hne, hread]
        refine .inr (.inl ⟨hnot, ⟨text, Eq.refl _⟩, ?_⟩)
        intro opening h
        exact hshort h.eos
    · obtain ⟨hshort, text, hthrows⟩ := h
      rw [htl, hposition] at hshort
      rw [hthrows]
      refine .inr (.inl ⟨hnot, ⟨text, Eq.refl _⟩, ?_⟩)
      intro opening h
      exact hshort h.template
  · rw [if_pos hone]
    refine .inr (.inl ⟨hnot, ⟨_, Eq.refl _⟩, ?_⟩)
    intro opening h
    rw [hversion, h.version] at hone
    exact hone (Eq.refl _)

theorem readNewHead_cases (hmark : intAt content 0 = 0x567124) :
    Reads (OddHeader content) (NewOpening content vocabSize)
      (readNewHead content vocabSize) := by
  have hcount : numbersOf (intAt content 4) = (intAt content 4 - 8) / 4 :=
    numbersOf_eq (intAt_range content 4).1 (by have := (intAt_range content 4).2; omega)
  have hunread : ∀ {text : String}, ¬HasPairs content → Reads (OddHeader content)
      (NewOpening content vocabSize) (.error (.throws text)) := by
    intro text hnone
    exact .inr (.inl ⟨fun h => hnone h.1, ⟨text, Eq.refl _⟩, fun opening h => hnone h.pairs⟩)
  unfold readNewHead
  rw [freadInto_fits (Nat.le_refl 4)]
  by_cases hsize : 0 < 4 ∧ 4 + 4 ≤ content.length
  · rw [if_pos hsize]
    have hplace : unpack ((content.drop 4).take 4) = intAt content 4 := Eq.refl _
    simp only [bind, Except.bind, hplace, hcount]
    by_cases hnegative : (intAt content 4 - 8) / 4 < 0
    · rw [if_pos hnegative]
      refine hunread ?_
      intro h
      have hpositive := h.sized.1
      unfold tokenizerCount at hpositive
      omega
    · rw [if_neg hnegative]
      have hfold : ((intAt content 4 - 8) / 4).toNat = tokenizerCount content := Eq.refl _
      simp only [hfold]
      rw [freadInto_fits (Nat.le_refl _)]
      by_cases hvalues : 0 < 4 * tokenizerCount content ∧
          8 + 4 * tokenizerCount content ≤ content.length
      · rw [if_pos hvalues]
        simp only
        rcases Nat.mod_two_eq_zero_or_one (tokenizerCount content) with heven | hodd
        · have hhalf : (tokenizerCount content + 1) / 2 = tokenizerCount content / 2 := by omega
          rw [forPairs_whole (by omega), hhalf]
          have hpairs : unpackPairs (tokenizerCount content / 2)
              ((content.drop 8).take (4 * tokenizerCount content)) = tokenizerPairs content :=
            Eq.refl _
          rw [hpairs]
          cases hset : setPairs setTokenizerKey (tokenizerPairs content)
              (TokenizerHeader.default vocabSize (8 + 4 * tokenizerCount content)) with
          | error stop =>
            cases stop with
            | faults => exact absurd hset (setPairs_ne_faults setTokenizerKey_cases.ne_faults _ _)
            | throws text =>
              refine hunread ?_
              intro h
              obtain ⟨header, hok⟩ := (setPairs_ok_iff setTokenizerKey_cases.ok_iff).mpr h.known
              rw [hset] at hok
              cases hok
          | ok header =>
            have hknown := (setPairs_ok_iff setTokenizerKey_cases.ok_iff).mp ⟨header, hset⟩
            exact finishNewHead_cases ⟨hmark, ⟨by omega, hvalues.2⟩, hknown⟩ heven hset
        · obtain ⟨m, hm⟩ : ∃ m, tokenizerCount content = 2 * m + 1 :=
            ⟨tokenizerCount content / 2, by omega⟩
          have hhalf : tokenizerCount content / 2 = m := by omega
          have hpairs : unpackPairs m ((content.drop 8).take (4 * (2 * m + 1))) =
              tokenizerPairs content := by
            rw [tokenizerPairs, hhalf, hm]
          simp only [hm]
          rw [forPairs_odd, hpairs]
          cases hset : setPairs setTokenizerKey (tokenizerPairs content)
              (TokenizerHeader.default vocabSize (8 + 4 * (2 * m + 1))) with
          | error stop =>
            cases stop with
            | faults => exact absurd hset (setPairs_ne_faults setTokenizerKey_cases.ne_faults _ _)
            | throws text =>
              refine hunread ?_
              intro h
              obtain ⟨header, hok⟩ := (setPairs_ok_iff setTokenizerKey_cases.ok_iff).mpr h.known
              rw [hset] at hok
              cases hok
          | ok header =>
            have hknown := (setPairs_ok_iff setTokenizerKey_cases.ok_iff).mp ⟨header, hset⟩
            exact .inl ⟨⟨⟨hmark, ⟨by omega, hvalues.2⟩, hknown⟩, hodd⟩, Eq.refl _⟩
      · rw [if_neg hvalues]
        refine hunread ?_
        intro h
        have hsized := h.sized
        omega
  · rw [if_neg hsize]
    refine hunread ?_
    intro h
    have hsized := h.sized
    omega

theorem readOldHead_cases (hmark : intAt content 0 = 0x567123) :
    Reads (OddHeader content) (OldOpening content) (readOldHead content) := by
  have hnot : ¬OddHeader content := by
    intro h
    have hother := h.1.mark
    omega
  unfold readOldHead
  rw [freadInto_fits (Nat.le_refl 20)]
  by_cases hsize : 0 < 20 ∧ 4 + 20 ≤ content.length
  · rw [if_pos hsize]
    refine .inr (.inr ⟨hnot, _, Eq.refl _, ?_⟩)
    have hfirst : unpack ((((content.drop 4).take 20)).take 4) = intAt content 4 := by
      rw [List.take_take]
      exact Eq.refl _
    have hsecond : unpack ((((content.drop 4).take 20).drop 4).take 4) = intAt content 8 := by
      rw [List.drop_take, List.take_take, List.drop_drop]
      exact Eq.refl _
    have hthird : unpack ((((content.drop 4).take 20).drop 8).take 4) = intAt content 12 := by
      rw [List.drop_take, List.take_take, List.drop_drop]
      exact Eq.refl _
    intro opening
    simp only [TokenizerHead.opening, hfirst, hsecond, hthird]
    constructor
    · intro h
      exact h.numbers
    · intro h
      exact ⟨hmark, by omega, h⟩
  · rw [if_neg hsize]
    refine .inr (.inl ⟨hnot, ⟨_, Eq.refl _⟩, ?_⟩)
    intro opening h
    have hsized := h.sized
    omega

end Opened

section Vocabulary

variable {content : List UInt8}

theorem WordAt.unique {position length other : ℕ} (h : WordAt content position length)
    (h' : WordAt content position other) : length = other := by
  have hfirst := h.length_eq
  have hsecond := h'.length_eq
  omega

theorem Words.zero {position stop : ℕ} (h : Words content position 0 stop) : stop = position := by
  cases h
  exact Eq.refl _

theorem Words.succ {position count stop : ℕ} (h : Words content position (count + 1) stop) :
    ∃ length, WordAt content position length ∧
      Words content (position + 8 + length) count stop := by
  cases h with
  | word hword hrest => exact ⟨_, hword, hrest⟩

/-- What reading words comes to: a word is stored outside, an exception, or all words. -/
def ReadsWords (content : List UInt8) (index position count : ℕ)
    (result : Except Stop (List Word × ℕ)) : Prop :=
  (result = .error .faults ∧ ∃ n stop, n < count ∧ Words content position n stop ∧
      Overruns content (index + n) stop) ∨
    ((∃ text, result = .error (.throws text)) ∧
      (∀ n stop, n < count → Words content position n stop → ¬Overruns content (index + n) stop) ∧
      ∀ stop, ¬Words content position count stop) ∨
    (∃ words end_, result = .ok (words, end_) ∧ words.length = count ∧
      Words content position count end_ ∧ (count = 0 ∨ index + count ≤ 2147483648) ∧
      ∀ n stop, n < count → Words content position n stop → ¬Overruns content (index + n) stop)

/-- The first word is not all there and is not stored outside. -/
theorem readsWords_throws {index position count : ℕ} {text : String}
    (hword : ¬(0 < intAt content (position + 4) ∧ intAt content (position + 4) < 2147483647 ∧
      (position : ℤ) + 8 + intAt content (position + 4) ≤ content.length))
    (hinside : ¬(index < 2147483648 ∧ intAt content (position + 4) = -1 ∧
        position + 8 < content.length ∨ 2147483648 ≤ index ∧ position < content.length)) :
    ReadsWords content index position (count + 1) (.error (.throws text)) := by
  have hnone : ∀ length, ¬WordAt content position length := by
    intro length h
    have heq := h.length_eq
    have hpositive := h.positive
    have hsized := h.sized
    omega
  refine .inr (.inl ⟨⟨text, Eq.refl _⟩, ?_, ?_⟩)
  · intro n stop _ hwords
    cases n with
    | zero =>
      rw [hwords.zero]
      exact hinside
    | succ n =>
      obtain ⟨length, hfirst, _⟩ := hwords.succ
      exact absurd hfirst (hnone length)
  · intro stop hwords
    obtain ⟨length, hfirst, _⟩ := hwords.succ
    exact hnone length hfirst

/-- The first word is all there. -/
theorem readsWords_word {index position count length : ℕ} {score text : List UInt8}
    {result : Except Stop (List Word × ℕ)} (hword : WordAt content position length)
    (hindex : index < 2147483648)
    (h : ReadsWords content (index + 1) (position + 8 + length) count result) :
    ReadsWords content index position (count + 1)
      (result.bind fun pair => .ok (⟨score, text⟩ :: pair.1, pair.2)) := by
  have hinside : (∀ n stop, n < count → Words content (position + 8 + length) n stop →
      ¬Overruns content (index + 1 + n) stop) → ∀ n stop, n < count + 1 →
      Words content position n stop → ¬Overruns content (index + n) stop := by
    intro hall n stop hn hwords hover
    cases n with
    | zero =>
      rw [hwords.zero] at hover
      have heq := hword.length_eq
      have hsized := hword.sized
      cases hover with
      | inl hover => omega
      | inr hover => omega
    | succ n =>
      obtain ⟨other, hfirst, hrest⟩ := hwords.succ
      rw [← hword.unique hfirst] at hrest
      refine hall n stop (by omega) hrest ?_
      have hshift : index + 1 + n = index + (n + 1) := by omega
      rw [hshift]
      exact hover
  rcases h with h | h | h
  · obtain ⟨hfaults, n, stop, hn, hwords, hover⟩ := h
    rw [hfaults]
    have hshift : index + 1 + n = index + (n + 1) := by omega
    rw [hshift] at hover
    exact .inl ⟨Eq.refl _, n + 1, stop, by omega, .word hword hwords, hover⟩
  · obtain ⟨hthrows, hall, hnone⟩ := h
    obtain ⟨text, hthrows⟩ := hthrows
    rw [hthrows]
    refine .inr (.inl ⟨⟨text, Eq.refl _⟩, hinside hall, ?_⟩)
    intro stop hwords
    obtain ⟨other, hfirst, hrest⟩ := hwords.succ
    rw [← hword.unique hfirst] at hrest
    exact hnone stop hrest
  · obtain ⟨words, end_, hok, hlength, hwords, hlast, hall⟩ := h
    rw [hok]
    refine .inr (.inr ⟨⟨score, text⟩ :: words, end_, Eq.refl _, ?_, .word hword hwords, ?_,
      hinside hall⟩)
    · rw [List.length_cons, hlength]
    · omega

theorem readWords_cases (index position count : ℕ) :
    ReadsWords content index position count (readWords content index position count) := by
  induction count generalizing index position with
  | zero =>
    refine .inr (.inr ⟨[], position, Eq.refl _, Eq.refl _, .none position, .inl (Eq.refl _), ?_⟩)
    intro n stop hn
    exact absurd hn (Nat.not_lt_zero n)
  | succ count ih =>
    rw [readWords]
    by_cases hindex : index < 2147483648
    · rw [if_pos hindex, freadInto_fits (Nat.le_refl 4)]
      by_cases hscore : 0 < 4 ∧ position + 4 ≤ content.length
      · rw [if_pos hscore]
        simp only [bind, Except.bind]
        rw [freadInto_fits (Nat.le_refl 4)]
        by_cases hlength : 0 < 4 ∧ position + 4 + 4 ≤ content.length
        · rw [if_pos hlength]
          have hplace : unpack ((content.drop (position + 4)).take 4) =
              intAt content (position + 4) := Eq.refl _
          simp only [hplace]
          have hrange := intAt_range content (position + 4)
          by_cases hthrows : intAt content (position + 4) < -1 ∨
              intAt content (position + 4) = 2147483647
          · rw [newText_throws hthrows hrange.1]
            exact readsWords_throws (by omega) (by omega)
          · by_cases hminus : intAt content (position + 4) = -1
            · have htext : newText (-1) = .ok 0 := by decide
              have hsize : toSize (-1) = 18446744073709551615 := by decide
              rw [hminus, htext, hsize]
              simp only
              rw [freadInto]
              by_cases hmore : 0 < min 18446744073709551615 (content.length - (position + 8))
              · rw [if_pos hmore]
                refine .inl ⟨Eq.refl _, 0, position, Nat.succ_pos count, .none position,
                  .inl ⟨hindex, hminus, ?_⟩⟩
                omega
              · rw [if_neg hmore, if_pos (.inr (by omega))]
                exact readsWords_throws (by omega) (by omega)
            · by_cases hzero : intAt content (position + 4) = 0
              · have htext : newText 0 = .ok 1 := by decide
                have hsize : toSize 0 = 0 := by decide
                rw [hzero, htext, hsize]
                simp only
                rw [freadInto_fits (Nat.zero_le 1), if_neg (by omega)]
                exact readsWords_throws (by omega) (by omega)
              · obtain ⟨n, hn⟩ : ∃ n : ℕ, intAt content (position + 4) = n :=
                  ⟨(intAt content (position + 4)).toNat, by omega⟩
                have hpositive : 0 < (n : ℤ) := by omega
                have hlargest : (n : ℤ) < 2147483647 := by omega
                have hsize := toSize_of_nonneg (le_of_lt hpositive) (by omega)
                rw [hn, newText_of_range hpositive hlargest, hsize, Int.toNat_natCast]
                simp only
                rw [freadInto_fits (Nat.le_succ n)]
                by_cases hbytes : 0 < n ∧ position + 8 + n ≤ content.length
                · have hword : WordAt content position n := ⟨hn, by omega, hbytes.2⟩
                  rw [if_pos hbytes]
                  simp only
                  exact readsWords_word hword hindex (ih (index + 1) (position + 8 + n))
                · rw [if_neg hbytes]
                  exact readsWords_throws (by omega) (by omega)
        · rw [if_neg hlength]
          exact readsWords_throws (by omega) (by omega)
      · rw [if_neg hscore]
        exact readsWords_throws (by omega) (by omega)
    · rw [if_neg hindex, freadInto]
      by_cases hthere : 0 < min 4 (content.length - position)
      · rw [if_pos hthere]
        refine .inl ⟨Eq.refl _, 0, position, Nat.succ_pos count, .none position, .inr ⟨?_, ?_⟩⟩
        · omega
        · omega
      · rw [if_neg hthere, if_pos (.inr (by omega))]
        exact readsWords_throws (by omega) (by omega)

end Vocabulary

section Constructed

variable {content : List UInt8} {vocabSize : ℕ}

theorem entries_ok {vocab : List Word} {index count : ℕ} (h : index + count ≤ vocab.length) :
    ∃ list, entries vocab index count = .ok list := by
  induction count generalizing index with
  | zero => exact ⟨[], Eq.refl _⟩
  | succ count ih =>
    obtain ⟨rest, hrest⟩ := @ih (index + 1) (by omega)
    have hlt : index < vocab.length := by omega
    rw [entries, List.getElem?_eq_getElem hlt]
    simp only [hrest]
    exact ⟨_, Eq.refl _⟩

theorem entries_faults {vocab : List Word} {index count : ℕ} (hindex : index ≤ vocab.length)
    (h : vocab.length < index + count) : entries vocab index count = .error .faults := by
  induction count generalizing index with
  | zero => omega
  | succ count ih =>
    rw [entries]
    by_cases hlt : index < vocab.length
    · rw [List.getElem?_eq_getElem hlt]
      simp only
      rw [@ih (index + 1) (by omega) (by omega)]
      exact Eq.refl _
    · rw [List.getElem?_eq_none (by omega)]

theorem newArray_ok {size : ℤ} {n : ℕ} (h : size = n) (hrange : size < 4294967296) :
    newArray size = .ok n := by
  rw [newArray, if_pos ⟨by omega, hrange⟩, h, Int.toNat_natCast]

theorem newArray_faults {size : ℤ} (h : size < 0 ∨ 4294967296 ≤ size) :
    newArray size = .error .faults := by
  rw [newArray, if_neg (by omega)]

theorem ok_bind {ε α β : Type} (a : α) (f : α → Except ε β) : (Except.ok a >>= f) = f a := Eq.refl _

theorem error_bind {ε α β : Type} (e : ε) (f : α → Except ε β) :
    ((Except.error e : Except ε α) >>= f) = .error e := Eq.refl _

/-- The end of the constructor is robust exactly when the sizes fit the vocabulary. -/
theorem finishTokenizer_robust_iff {head : TokenizerHead} {vocab : List Word}
    (hvocab : vocab.length = head.vocabSize) (hsmall : head.vocabSize ≤ 2147483648) :
    Robust Tokenizer.Consistent (finishTokenizer head vocab) ↔
      (0 ≤ head.bosId ∧ head.bosId ≤ head.vocabSize) ∧ head.maxTokenLength < 2147483648 := by
  unfold finishTokenizer
  by_cases hnegative : 0 ≤ head.bosId ∧ head.bosId < 4294967296
  · obtain ⟨n, hn⟩ : ∃ n : ℕ, head.bosId = n := ⟨head.bosId.toNat, by omega⟩
    rw [newArray_ok hn hnegative.2, ok_bind]
    by_cases hinside : n ≤ head.vocabSize
    · obtain ⟨regular, hregular⟩ := @entries_ok vocab 0 n (by omega)
      obtain ⟨special, hspecial⟩ := @entries_ok vocab n (head.vocabSize - n) (by omega)
      have hsize : (head.vocabSize : ℤ) - n = (head.vocabSize - n : ℕ) := by omega
      rw [hregular, ok_bind, newArray_ok hsize (by omega), ok_bind, hspecial, ok_bind]
      by_cases hbuffer : head.maxTokenLength < 2147483648
      · have hdouble : (head.maxTokenLength : ℤ) * 2 = (head.maxTokenLength * 2 : ℕ) := by omega
        rw [newArray_ok hdouble (by omega), ok_bind]
        constructor
        · intro _
          omega
        · intro _
          constructor
          · intro hfaults
            cases hfaults
          · intro tokenizer hok
            injection hok with hok
            rw [← hok]
            exact ⟨hnegative.1, by simp only; omega, by simp only; omega⟩
      · rw [newArray_faults (by omega), error_bind]
        constructor
        · intro h
          exact absurd (Eq.refl _) h.1
        · intro h
          exact absurd h.2 hbuffer
    · rw [entries_faults (by omega) (by omega), error_bind]
      constructor
      · intro h
        exact absurd (Eq.refl _) h.1
      · intro h
        omega
  · rw [newArray_faults (by omega), error_bind]
    constructor
    · intro h
      exact absurd (Eq.refl _) h.1
    · intro h
      omega

theorem buildTokenizer_robust_iff {head : TokenizerHead} :
    Robust Tokenizer.Consistent (buildTokenizer content head) ↔
      (0 < head.opening.maxTokenLength → head.opening.WordsFit content) := by
  unfold buildTokenizer
  by_cases hlength : head.maxTokenLength < 1
  · rw [if_pos hlength]
    constructor
    · intro _ h
      have hpositive : 0 < head.maxTokenLength := h
      omega
    · intro _
      exact robust_throws _ _
  · have hpositive : 0 < head.opening.maxTokenLength := Nat.pos_of_ne_zero fun hzero => by
      have hzero' : head.maxTokenLength = 0 := hzero
      omega
    rw [if_neg hlength]
    simp only [bind, Except.bind]
    rcases @readWords_cases content 0 head.position head.vocabSize with h | h | h
    · obtain ⟨hfaults, n, stop, hn, hwords, hover⟩ := h
      rw [Nat.zero_add] at hover
      rw [hfaults]
      constructor
      · intro h
        exact absurd (Eq.refl _) h.1
      · intro h
        exact absurd hover ((h hpositive).inside n stop hn hwords)
    · obtain ⟨hthrows, hall, hnone⟩ := h
      obtain ⟨text, hthrows⟩ := hthrows
      rw [hthrows]
      constructor
      · intro _ _
        constructor
        · intro n stop hn hwords
          have hinside := hall n stop hn hwords
          rw [Nat.zero_add] at hinside
          exact hinside
        · intro stop hwords
          exact absurd hwords (hnone stop)
      · intro _
        exact robust_throws _ text
    · obtain ⟨words, stop, hok, hcount, hwords, hlast, hall⟩ := h
      rw [hok]
      simp only
      rw [finishTokenizer_robust_iff hcount (by omega)]
      constructor
      · intro h _
        constructor
        · intro n stop hn hwords
          have hinside := hall n stop hn hwords
          rw [Nat.zero_add] at hinside
          exact hinside
        · intro _ _
          exact h
      · intro h
        exact (h hpositive).sizes stop hwords

theorem robust_of_reads {fault : Prop} {opens : Opening → Prop}
    {result : Except Stop TokenizerHead} (hreads : Reads fault opens result) :
    Robust Tokenizer.Consistent (result.bind (buildTokenizer content)) ↔
      ¬fault ∧ ∀ opening, opens opening → 0 < opening.maxTokenLength →
        opening.WordsFit content := by
  rcases hreads with h | h | h
  · obtain ⟨hfault, hresult⟩ := h
    rw [hresult]
    constructor
    · intro h
      exact absurd (Eq.refl _) h.1
    · intro h
      exact absurd hfault h.1
  · obtain ⟨hnot, hthrows, hnone⟩ := h
    obtain ⟨text, hthrows⟩ := hthrows
    rw [hthrows]
    constructor
    · intro _
      exact ⟨hnot, fun opening h => absurd h (hnone opening)⟩
    · intro _
      exact robust_throws _ text
  · obtain ⟨hnot, head, hok, hiff⟩ := h
    have hbuild := @buildTokenizer_robust_iff content head
    rw [hok, Except.bind, hbuild]
    constructor
    · intro h
      refine ⟨hnot, ?_⟩
      intro opening hopens
      rw [(hiff opening).mp hopens]
      exact h
    · intro h
      exact h.2 head.opening ((hiff head.opening).mpr (Eq.refl _))

theorem readHead_cases :
    Reads (OddHeader content) (Opens content vocabSize) (readHead content vocabSize) := by
  have hplace : unpack ((content.drop 0).take 4) = intAt content 0 := Eq.refl _
  unfold readHead
  rw [freadInto_fits (Nat.le_refl 4)]
  by_cases hmagic : 0 < 4 ∧ 0 + 4 ≤ content.length
  · rw [if_pos hmagic, ok_bind, hplace]
    by_cases hold : intAt content 0 = 0x567123
    · rw [if_pos hold]
      have hopens : Opens content vocabSize = OldOpening content := by
        funext opening
        refine propext ⟨?_, .inl⟩
        intro h
        cases h with
        | inl h => exact h
        | inr h =>
          have hmark := h.pairs.mark
          omega
      rw [hopens]
      exact readOldHead_cases hold
    · rw [if_neg hold]
      by_cases hnew : intAt content 0 = 0x567124
      · rw [if_pos hnew]
        have hopens : Opens content vocabSize = NewOpening content vocabSize := by
          funext opening
          refine propext ⟨?_, .inr⟩
          intro h
          cases h with
          | inl h => exact absurd h.mark hold
          | inr h => exact h
        rw [hopens]
        exact readNewHead_cases hnew
      · rw [if_neg hnew]
        refine .inr (.inl ⟨fun h => hnew h.1.mark, ⟨_, Eq.refl _⟩, ?_⟩)
        intro opening h
        cases h with
        | inl h => exact hold h.mark
        | inr h => exact hnew h.pairs.mark
  · rw [if_neg hmagic, error_bind]
    refine .inr (.inl ⟨?_, ⟨_, Eq.refl _⟩, ?_⟩)
    · intro h
      have hsized := h.1.sized.2
      omega
    · intro opening h
      cases h with
      | inl h =>
        have hsized := h.sized
        omega
      | inr h =>
        have hsized := h.pairs.sized.2
        omega

theorem readTokenizer_robust_iff :
    Robust Tokenizer.Consistent (readTokenizer content vocabSize) ↔
      TokenizerFits content vocabSize := by
  have hreads : Reads (OddHeader content) (Opens content vocabSize)
    (readHead content vocabSize) := readHead_cases
  have hiff := @robust_of_reads content _ _ _ hreads
  constructor
  · intro h
    obtain ⟨heven, hwords⟩ := hiff.mp h
    exact ⟨heven, hwords⟩
  · intro h
    exact hiff.mpr ⟨h.even, h.words⟩

end Constructed

/-- Both parsers are robust on a file exactly when the keys of a model file give heads and sizes of
words, and in a tokenizer file every key has a value, no word is stored outside, and the sizes fit
the vocabulary. -/
theorem parsers_robust_iff (content : List UInt8) (maxSeqLen : ℕ) (syncType : ℤ) (vocabSize : ℕ) :
    (Robust Header.Consistent (loadLlmHeader content maxSeqLen syncType) ∧
        Robust Tokenizer.Consistent (readTokenizer content vocabSize)) ↔
      ModelFits content ∧ TokenizerFits content vocabSize := by
  rw [loadLlmHeader_robust_iff, readTokenizer_robust_iff]

section Divergence

/-- A model file with a type of its weights and no heads. -/
def noHeads : List UInt8 :=
  [0xCD, 0xAB, 0x00, 0x0A] ++ [16, 0, 0, 0] ++ [13, 0, 0, 0, 2, 0, 0, 0] ++ [0, 0, 0, 0, 0, 0, 0, 0]

/-- A tokenizer file of the old format without words and without a first token. -/
def noBos : List UInt8 :=
  [0x23, 0x71, 0x56, 0] ++ [0, 0, 0, 0] ++ [1, 0, 0, 0] ++ [255, 255, 255, 255] ++ [2, 0, 0, 0] ++
    [0, 0, 0, 0]

/-- The parsers are not robust on every file: one divides by no heads, the other has a size that
wraps. -/
theorem not_parsers_robust :
    (¬∀ content, Robust Header.Consistent (loadLlmHeader content 0 3)) ∧
      ¬∀ content, Robust Tokenizer.Consistent (readTokenizer content 0) := by
  constructor
  · intro h
    have hfaults : loadLlmHeader noHeads 0 3 = .error .faults := by decide +kernel
    exact (h noHeads).1 hfaults
  · intro h
    have hfaults : readTokenizer noBos 0 = .error .faults := by decide +kernel
    exact (h noBos).1 hfaults

end Divergence

end LayerSkip.FileRobustness
