import LayerSkip.FileRobustness

/-!
# The tokenizer file as it is written

The converter writes a header of keys and values without those that are not given, and then the chat
template, the tokens that end a text and the vocabulary. The constructor of the tokenizer reads it
to its end. The header has lengths as signed numbers, so a written length is never negative, but the
constructor adds one to it. Without a first token the constructor splits the vocabulary at an index
that is not there.
-/

namespace LayerSkip.TokenizerFile

open NnTopology NnCore KeyValueHeader FileRobustness LittleEndian

section Writer

/-- The length of the longest token. -/
def maxLength (tokens : List (List UInt8)) : Except String ℕ :=
  match (tokens.map List.length).max? with
  | none => .error "max() iterable argument is empty"
  | some longest => .ok longest

/-- Keys with the values that are written for them. A key without a value is left out. -/
def params (nTokens maxTokenLength : ℕ) (chatTemplate : Option (List UInt8)) (bosId : Option ℤ)
    (addBos : Bool) (nEosTokens : ℕ) : List (ℤ × ℤ) :=
  (bosId.toList.map fun value => (3, value)) ++
    ([(0, 1), (1, (nTokens : ℤ)), (2, (maxTokenLength : ℤ))] ++
      ((if chatTemplate.getD [] = [] then [] else [(7, ((chatTemplate.getD []).length : ℤ))]) ++
        [(9, (nEosTokens : ℤ)), (10, if addBos then 1 else 0)]))

/-- Tokens that end a text. -/
def writeEosTokens : List ℤ → Except String (List UInt8)
  | [] => .ok []
  | token :: tokens => do
    let first ← pack token
    let rest ← writeEosTokens tokens
    return first ++ rest

/-- Bytes of a number without sign, like `struct.pack('I', number)`. -/
def packUint (number : ℕ) : Except String (List UInt8) :=
  if number < 4294967296 then .ok (bytes 4 number)
  else .error "'I' format requires 0 <= number <= 4294967295"

/-- The vocabulary. Scores are floats of 32 bits, which are written as they are. -/
def writeTokens : List (List UInt8) → List NnUint → Except String (List UInt8)
  | [], _ => .ok []
  | token :: tokens, scores => do
    require (0 < token.length) "AssertionError"
    match scores with
    | [] => throw "list index out of range"
    | score :: scores =>
      let size ← packUint token.length
      let rest ← writeTokens tokens scores
      return bytes 4 score.toNat ++ (size ++ (token ++ rest))

/-- The bytes of a tokenizer file. -/
def writeTokenizer (tokens : List (List UInt8)) (scores : List NnUint)
    (chatTemplate : Option (List UInt8)) (bosId : Option ℤ) (addBos : Bool) (eosTokens : List ℤ) :
    Except String (List UInt8) := do
  let maxTokenLength ← maxLength tokens
  let header ← packHeader 0x567124
    (params tokens.length maxTokenLength chatTemplate bosId addBos eosTokens.length)
  let eos ← writeEosTokens eosTokens
  let words ← writeTokens tokens scores
  return header ++ (chatTemplate.getD [] ++ (eos ++ words))

end Writer

/-- What a tokenizer file is written from. -/
structure TokenizerData where
  /-- Tokens. -/
  tokens : List (List UInt8)
  /-- No token is empty. -/
  tokens_ne : ∀ token ∈ tokens, token ≠ []
  /-- Scores. -/
  scores : List NnUint
  /-- A token has a score. -/
  scores_length : scores.length = tokens.length
  /-- Chat template. -/
  chatTemplate : Option (List UInt8)
  /-- It is not empty. -/
  chatTemplate_ne : chatTemplate ≠ some []
  /-- First token of a text. -/
  bosId : Option ℤ
  /-- It is one of the tokens. -/
  bosId_lt : ∀ value, bosId = some value → 0 ≤ value ∧ value < tokens.length
  /-- Whether a text begins with the first token. -/
  addBos : Bool
  /-- Tokens that end a text. -/
  eosTokens : List ℤ

/-- The file of some data. -/
def TokenizerData.file (data : TokenizerData) : Except String (List UInt8) :=
  writeTokenizer data.tokens data.scores data.chatTemplate data.bosId data.addBos data.eosTokens

/-- The words of a vocabulary. -/
def wordsOf (tokens : List (List UInt8)) (scores : List NnUint) : List Word :=
  List.zipWith (fun token score => ⟨bytes 4 score.toNat, token⟩) tokens scores

/-- The constructor makes a tokenizer with all of the data, and reads the file to its end. -/
def TokenizerData.ReadsBack (data : TokenizerData) (content : List UInt8) (vocabSize : ℕ) : Prop :=
  ∃ tokenizer, readTokenizer content vocabSize = .ok tokenizer ∧
    tokenizer.vocab = wordsOf data.tokens data.scores ∧
    tokenizer.head.vocabSize = data.tokens.length ∧
    tokenizer.head.chatTemplate = data.chatTemplate ∧
    tokenizer.head.bosId = data.bosId.getD (-1) ∧
    tokenizer.head.addBos = some data.addBos ∧
    tokenizer.head.eosTokenIds = data.eosTokens ∧
    readWords content 0 tokenizer.head.position tokenizer.head.vocabSize =
      .ok (tokenizer.vocab, content.length)

/-- Bytes that stand in a file are read. -/
theorem freadInto_append (before : List UInt8) {piece : List UInt8} (rest : List UInt8)
    {position capacity size : ℕ} (text : String) (hposition : before.length = position)
    (hsize : piece.length = size) (hpositive : 0 < size) (hcapacity : size ≤ capacity) :
    freadInto (before ++ (piece ++ rest)) position capacity size text = .ok piece := by
  have hthere : position + size ≤ (before ++ (piece ++ rest)).length := by
    rw [List.length_append, List.length_append]
    omega
  rw [freadInto_fits hcapacity, if_pos ⟨hpositive, hthere⟩, List.drop_left' hposition,
    List.take_left' hsize]

section Words

theorem writeTokens_cons {token : List UInt8} {tokens : List (List UInt8)} {scores : List NnUint}
    {bs : List UInt8} (h : writeTokens (token :: tokens) scores = .ok bs) :
    0 < token.length ∧ token.length < 4294967296 ∧ ∃ score more rest, scores = score :: more ∧
      writeTokens tokens more = .ok rest ∧
      bs = bytes 4 score.toNat ++ (bytes 4 token.length ++ (token ++ rest)) := by
  obtain ⟨_, hcheck, h⟩ := bind_eq_ok h
  cases scores with
  | nil => cases h
  | cons score more =>
    obtain ⟨size, hsize, h⟩ := bind_eq_ok h
    obtain ⟨rest, hrest, h⟩ := bind_eq_ok h
    injection h with h
    unfold packUint at hsize
    by_cases hrange : token.length < 4294967296
    · rw [if_pos hrange] at hsize
      injection hsize with hsize
      rw [← hsize] at h
      exact ⟨require_eq_ok hcheck, hrange, score, more, rest, Eq.refl _, hrest, h.symm⟩
    · rw [if_neg hrange] at hsize
      cases hsize

theorem unpack_bytes {n : ℕ} (h : n < 2147483648) : unpack (bytes 4 n) = n := by
  rw [unpack, value_bytes (by omega), if_pos h]

/-- A word is read up to its length, and then its bytes are. -/
theorem readWords_word {before rest : List UInt8} {token score : List UInt8} {index count : ℕ}
    (hscore : score.length = 4) (hpositive : 0 < token.length)
    (hlength : token.length < 2147483648) (hindex : index < 2147483648) :
    readWords (before ++ (score ++ (bytes 4 token.length ++ (token ++ rest)))) index before.length
        (count + 1) =
      if token.length = 2147483647 then .error (.throws "std::bad_array_new_length") else
        (readWords (before ++ (score ++ (bytes 4 token.length ++ (token ++ rest)))) (index + 1)
          (before ++ (score ++ (bytes 4 token.length ++ token))).length count).map
            fun result => (⟨score, token⟩ :: result.1, result.2) := by
  have hfirst := freadInto_append before (bytes 4 token.length ++ (token ++ rest))
    "Cannot read size from tokenizer file" (Eq.refl _) hscore (by decide) (Nat.le_refl 4)
  have hsecond := freadInto_append (before ++ score) (token ++ rest)
    "Cannot read length from tokenizer file" (Eq.refl _) (bytes_length 4 token.length) (by decide)
    (Nat.le_refl 4)
  have hthird := freadInto_append (before ++ (score ++ bytes 4 token.length)) rest
    "Cannot read word from tokenizer file" (Eq.refl _) (Eq.refl _) hpositive (Nat.le_succ _)
  have hplace : (before ++ score).length = before.length + 4 := by
    rw [List.length_append, hscore]
  have hplace' : (before ++ (score ++ bytes 4 token.length)).length = before.length + 8 := by
    rw [List.length_append, List.length_append, hscore, bytes_length]
  have hstop : (before ++ (score ++ (bytes 4 token.length ++ token))).length =
      before.length + 8 + token.length := by
    rw [List.length_append, List.length_append, List.length_append, hscore, bytes_length]
    omega
  rw [hplace] at hsecond
  rw [hplace'] at hthird
  simp only [List.append_assoc] at hsecond hthird
  rw [readWords, if_pos hindex, hfirst, ok_bind, hsecond, ok_bind, unpack_bytes hlength, hstop]
  by_cases hlargest : token.length = 2147483647
  · rw [if_pos hlargest, newText_throws (.inr (by omega)) (by omega), error_bind]
  · have hsize : toSize token.length = (token.length : ℤ).toNat :=
      toSize_of_nonneg (by omega) (by omega)
    rw [if_neg hlargest, newText_of_range (by omega) (by omega), ok_bind, hsize,
      Int.toNat_natCast, hthird, ok_bind]
    cases readWords (before ++ (score ++ (bytes 4 token.length ++ (token ++ rest)))) (index + 1)
      (before.length + 8 + token.length) count <;> exact Eq.refl _

/-- A written vocabulary is read to its end. -/
theorem readWords_written {tokens : List (List UInt8)} {scores : List NnUint} {bs : List UInt8}
    (h : writeTokens tokens scores = .ok bs) (before rest : List UInt8) {index : ℕ}
    (hindex : index + tokens.length ≤ 2147483648)
    (hshort : ∀ token ∈ tokens, token.length < 2147483647) :
    readWords (before ++ (bs ++ rest)) index before.length tokens.length =
      .ok (wordsOf tokens scores, (before ++ bs).length) := by
  induction tokens generalizing scores bs before index with
  | nil =>
    injection h with h
    rw [← h, List.append_nil]
    exact Eq.refl _
  | cons token tokens ih =>
    obtain ⟨hpositive, _, score, more, bs', hscores, hbs', hbs⟩ := writeTokens_cons h
    have hlength := hshort token List.mem_cons_self
    rw [List.length_cons] at hindex
    have hsplit : before ++ (bs ++ rest) =
        before ++ (bytes 4 score.toNat ++ (bytes 4 token.length ++ (token ++ (bs' ++ rest)))) := by
      simp only [hbs, List.append_assoc]
    have hnext := ih hbs' (before ++ (bytes 4 score.toNat ++ (bytes 4 token.length ++ token)))
      (by omega : index + 1 + tokens.length ≤ 2147483648)
      fun other hother => hshort other (List.mem_cons_of_mem token hother)
    simp only [List.append_assoc] at hnext
    rw [hsplit, List.length_cons, readWords_word (bytes_length 4 _) hpositive (by omega) (by omega),
      if_neg (by omega), hnext, hscores, hbs]
    exact Eq.refl _

/-- A vocabulary with a token of the largest length is not read. -/
theorem readWords_largest {tokens : List (List UInt8)} {scores : List NnUint} {bs : List UInt8}
    (h : writeTokens tokens scores = .ok bs) (before rest : List UInt8) {index : ℕ}
    (hindex : index + tokens.length ≤ 2147483648)
    (hrange : ∀ token ∈ tokens, token.length < 2147483648)
    (hlargest : ∃ token ∈ tokens, token.length = 2147483647) :
    ∃ stop, readWords (before ++ (bs ++ rest)) index before.length tokens.length = .error stop := by
  induction tokens generalizing scores bs before index with
  | nil =>
    obtain ⟨token, hmem, _⟩ := hlargest
    cases hmem
  | cons token tokens ih =>
    obtain ⟨hpositive, _, score, more, bs', hscores, hbs', hbs⟩ := writeTokens_cons h
    have hlength := hrange token List.mem_cons_self
    rw [List.length_cons] at hindex
    have hsplit : before ++ (bs ++ rest) =
        before ++ (bytes 4 score.toNat ++ (bytes 4 token.length ++ (token ++ (bs' ++ rest)))) := by
      simp only [hbs, List.append_assoc]
    rw [hsplit, List.length_cons, readWords_word (bytes_length 4 _) hpositive hlength (by omega)]
    by_cases hthis : token.length = 2147483647
    · rw [if_pos hthis]
      exact ⟨_, Eq.refl _⟩
    · have hlater : ∃ other ∈ tokens, other.length = 2147483647 := by
        obtain ⟨other, hother, hsize⟩ := hlargest
        cases List.mem_cons.mp hother with
        | inl heq => exact absurd (heq ▸ hsize) hthis
        | inr hmem => exact ⟨other, hmem, hsize⟩
      obtain ⟨stop, hstop⟩ :=
        ih hbs' (before ++ (bytes 4 score.toNat ++ (bytes 4 token.length ++ token)))
          (by omega : index + 1 + tokens.length ≤ 2147483648)
          (fun other hother => hrange other (List.mem_cons_of_mem token hother)) hlater
      simp only [List.append_assoc] at hstop
      rw [if_neg hthis, hstop]
      exact ⟨stop, Eq.refl _⟩

end Words

section Head

/-- Written tokens that end a text are read. -/
theorem readEosTokens_written {tokens : List ℤ} {bs : List UInt8}
    (h : writeEosTokens tokens = .ok bs) (before rest : List UInt8) :
    readEosTokens (before ++ (bs ++ rest)) before.length tokens.length =
      .ok (tokens, (before ++ bs).length) := by
  induction tokens generalizing bs before with
  | nil =>
    injection h with h
    rw [← h, List.append_nil]
    exact Eq.refl _
  | cons token tokens ih =>
    obtain ⟨first, hfirst, h⟩ := bind_eq_ok h
    obtain ⟨more, hmore, h⟩ := bind_eq_ok h
    injection h with h
    have hlength := pack_length hfirst
    have hnext := ih hmore (before ++ first)
    have hread := freadInto_append before (more ++ rest)
      "Cannot read eos token id from tokenizer file" (Eq.refl _) hlength (by decide) (Nat.le_refl 4)
    have hboth : (before ++ first).length = before.length + 4 := by
      rw [List.length_append, hlength]
    rw [hboth] at hnext
    simp only [List.append_assoc] at hnext
    rw [← h, List.append_assoc, List.length_cons, readEosTokens, hread, ok_bind, hnext, ok_bind,
      unpack_pack hfirst]
    exact Eq.refl _

/-- A chat template is read as it was written. -/
theorem readChatTemplate_written {template : Option (List UInt8)} (htemplate : template ≠ some [])
    (hshort : (template.getD []).length < 2147483647) (before rest : List UInt8)
    {header : TokenizerHeader} (hposition : header.position = before.length)
    (hlength : header.chatTemplateLength =
      if template.getD [] = [] then -1 else ((template.getD []).length : ℤ)) :
    readChatTemplate (before ++ (template.getD [] ++ rest)) header =
      .ok (template, (before ++ template.getD []).length) := by
  cases template with
  | none =>
    rw [Option.getD_none, if_pos (Eq.refl _)] at hlength
    rw [readChatTemplate, hlength, if_neg (by decide), hposition, Option.getD_none, List.append_nil]
  | some text =>
    rw [Option.getD_some] at hshort hlength ⊢
    have hne : text ≠ [] := by
      intro hnil
      rw [hnil] at htemplate
      exact htemplate (Eq.refl _)
    have hpositive := List.length_pos_of_ne_nil hne
    rw [if_neg hne] at hlength
    have hsize : toSize text.length = (text.length : ℤ).toNat :=
      toSize_of_nonneg (by omega) (by omega)
    have hread := freadInto_append before rest "Cannot read chat template from tokenizer file"
      (Eq.refl _) (Eq.refl text.length) hpositive (Nat.le_succ _)
    rw [readChatTemplate, hlength, if_pos (by omega), newText_of_range (by omega) (by omega),
      ok_bind, hsize, hposition, Int.toNat_natCast, hread, ok_bind, List.length_append]
    exact Eq.refl _

/-- A chat template of the largest length is not read. -/
theorem readChatTemplate_largest {content : List UInt8} {header : TokenizerHeader}
    (hlength : header.chatTemplateLength = 2147483647) :
    readChatTemplate content header = .error (.throws "std::bad_array_new_length") := by
  rw [readChatTemplate, hlength, if_pos (by decide), newText_throws (.inr (Eq.refl _)) (by decide),
    error_bind]

theorem toUint_natCast {n : ℕ} (h : n < 2147483648) : ModelFile.toUint n = n := by
  unfold ModelFile.toUint
  omega

/-- Written keys are read, whatever was in memory. -/
theorem setPairs_params {nTokens longest : ℕ} (hTokens : nTokens < 2147483648)
    (hlongest : longest < 2147483648) (template : Option (List UInt8)) (bosId : Option ℤ)
    (addBos : Bool) (nEosTokens vocabSize position : ℕ) :
    setPairs setTokenizerKey (params nTokens longest template bosId addBos nEosTokens)
        (TokenizerHeader.default vocabSize position) =
      .ok ⟨1, nTokens, longest, bosId.getD (-1), [],
        if template.getD [] = [] then -1 else ((template.getD []).length : ℤ), nEosTokens,
        some addBos, position⟩ := by
  by_cases htemplate : template.getD [] = []
  · cases bosId <;>
      simp [params, setPairs, setTokenizerKey, TokenizerHeader.default, htemplate,
        toUint_natCast hTokens, toUint_natCast hlongest, ok_bind]
  · cases bosId <;>
      simp [params, setPairs, setTokenizerKey, TokenizerHeader.default, htemplate,
        toUint_natCast hTokens, toUint_natCast hlongest, ok_bind]

/-- The header of a file is read up to what follows it. -/
theorem readHead_written {pairs : List (ℤ × ℤ)} {header : List UInt8}
    (h : packHeader 0x567124 pairs = .ok header) (hpairs : pairs ≠ []) (rest : List UInt8)
    (vocabSize : ℕ) {read : TokenizerHeader}
    (hread : setPairs setTokenizerKey pairs (TokenizerHeader.default vocabSize header.length) =
      .ok read) :
    readHead (header ++ rest) vocabSize = finishNewHead (header ++ rest) read := by
  obtain ⟨start, size, data, hstart, hdata, hsize, hheader⟩ := packHeader_eq_ok h
  have hstartLength := pack_length hstart
  have hsizeLength := pack_length hsize
  have hdataLength := packPairs_length hdata
  have hsome := List.length_pos_of_ne_nil hpairs
  have hrange := (pack_eq_ok hsize).1
  rw [hstartLength, hdataLength] at hrange
  have hnumbers : numbersOf (unpack size) = (2 * pairs.length : ℕ) := by
    rw [unpack_pack hsize, hstartLength, hdataLength, numbersOf_eq (by omega) (by omega)]
    omega
  have hfirst := freadInto_append [] (size ++ (data ++ rest))
    "Cannot read tokenizer magic number" (Eq.refl 0) hstartLength (by decide) (Nat.le_refl 4)
  have hsecond := freadInto_append start (data ++ rest)
    "Cannot read tokenizer header size" hstartLength hsizeLength (by decide) (Nat.le_refl 4)
  have hboth : (start ++ size).length = 8 := by
    rw [List.length_append, hstartLength, hsizeLength]
  have hthird := freadInto_append (start ++ size) rest "Cannot read header values" hboth
    (by omega : data.length = 4 * (2 * pairs.length)) (by omega) (Nat.le_refl _)
  have hend : 8 + 4 * (2 * pairs.length) = header.length := by
    rw [hheader, List.length_append, List.length_append, hstartLength, hsizeLength, hdataLength]
    omega
  have hloop : forPairs setTokenizerKey (numbers (2 * pairs.length) data) (2 * pairs.length)
      (TokenizerHeader.default vocabSize header.length) = .ok read := by
    have hcount : (2 * pairs.length + 1) / 2 = pairs.length := by omega
    have hback := unpackPairs_packPairs hdata []
    rw [List.append_nil] at hback
    rw [forPairs_whole (by omega), hcount, hback, hread]
  have hsplit : header ++ rest = start ++ (size ++ (data ++ rest)) := by
    simp only [hheader, List.append_assoc]
  rw [List.nil_append] at hfirst
  rw [List.append_assoc] at hthird
  rw [hsplit, readHead, hfirst, ok_bind, unpack_pack hstart, if_neg (by decide),
    if_pos (Eq.refl _), readNewHead, hsecond, ok_bind]
  simp only [hnumbers]
  rw [if_neg (by omega), Int.toNat_natCast, hthird, hend]
  simp only [ok_bind, hloop]

end Head

section Constructor

theorem file_eq_ok {data : TokenizerData} {content : List UInt8} (h : data.file = .ok content) :
    ∃ longest header eos words, maxLength data.tokens = .ok longest ∧
      packHeader 0x567124 (params data.tokens.length longest data.chatTemplate data.bosId
        data.addBos data.eosTokens.length) = .ok header ∧
      writeEosTokens data.eosTokens = .ok eos ∧ writeTokens data.tokens data.scores = .ok words ∧
      content = header ++ (data.chatTemplate.getD [] ++ (eos ++ words)) := by
  obtain ⟨longest, hlongest, h⟩ := bind_eq_ok h
  obtain ⟨header, hheader, h⟩ := bind_eq_ok h
  obtain ⟨eos, heos, h⟩ := bind_eq_ok h
  obtain ⟨words, hwords, h⟩ := bind_eq_ok h
  injection h with h
  exact ⟨longest, header, eos, words, hlongest, hheader, heos, hwords, h.symm⟩

/-- The longest token is a token, and no other is longer. -/
theorem maxLength_eq_ok {tokens : List (List UInt8)} {longest : ℕ}
    (h : maxLength tokens = .ok longest) :
    (∃ token ∈ tokens, token.length = longest) ∧ ∀ token ∈ tokens, token.length ≤ longest := by
  unfold maxLength at h
  cases hmax : (tokens.map List.length).max? with
  | none =>
    rw [hmax] at h
    cases h
  | some largest =>
    rw [hmax] at h
    injection h with h
    rw [h] at hmax
    obtain ⟨hmem, hle⟩ := List.max?_eq_some_iff.mp hmax
    exact ⟨List.mem_map.mp hmem, fun token htoken => hle _ (List.mem_map_of_mem htoken)⟩

/-- Numbers of a header that could be written. -/
theorem params_range {nTokens longest nEosTokens : ℕ} {template : Option (List UInt8)}
    {bosId : Option ℤ} {addBos : Bool} {header : List UInt8}
    (h : packHeader 0x567124 (params nTokens longest template bosId addBos nEosTokens) =
      .ok header) :
    nTokens < 2147483648 ∧ longest < 2147483648 ∧ (template.getD []).length < 2147483648 := by
  obtain ⟨_, _, data, _, hdata, _, _⟩ := packHeader_eq_ok h
  have hrange := packPairs_range hdata
  have htokens := hrange (1, (nTokens : ℤ)) (by simp [params])
  have hlongest := hrange (2, (longest : ℤ)) (by simp [params])
  have htemplate : (template.getD []).length < 2147483648 := by
    by_cases hnil : template.getD [] = []
    · rw [hnil]
      decide
    · have hlength := hrange (7, ((template.getD []).length : ℤ)) (by simp [params, hnil])
      omega
  exact ⟨by omega, by omega, htemplate⟩

/-- What is read before the vocabulary of a file. -/
def TokenizerData.head (data : TokenizerData) (longest position : ℕ) : TokenizerHead :=
  ⟨data.tokens.length, longest, data.bosId.getD (-1), data.eosTokens, some data.addBos,
    data.chatTemplate, position⟩

/-- What the keys of a file say. -/
def TokenizerData.read (data : TokenizerData) (longest position : ℕ) : TokenizerHeader :=
  ⟨1, data.tokens.length, longest, data.bosId.getD (-1), [],
    if data.chatTemplate.getD [] = [] then -1 else ((data.chatTemplate.getD []).length : ℤ),
    data.eosTokens.length, some data.addBos, position⟩

theorem finishNewHead_written (data : TokenizerData) {header eos : List UInt8}
    (heos : writeEosTokens data.eosTokens = .ok eos) (words : List UInt8) (longest : ℕ)
    (hshort : (data.chatTemplate.getD []).length < 2147483647) :
    finishNewHead (header ++ (data.chatTemplate.getD [] ++ (eos ++ words)))
        (data.read longest header.length) =
      .ok (data.head longest (header ++ (data.chatTemplate.getD [] ++ eos)).length) := by
  have htemplate := readChatTemplate_written data.chatTemplate_ne hshort header (eos ++ words)
    (Eq.refl (data.read longest header.length).position) (Eq.refl _)
  have htokens := readEosTokens_written heos (header ++ data.chatTemplate.getD []) words
  simp only [List.append_assoc] at htokens
  have hcount : (data.read longest header.length).nEosTokens.toNat = data.eosTokens.length :=
    Int.toNat_natCast _
  have hversion : ¬(data.read longest header.length).version ≠ 1 := fun h => h (Eq.refl _)
  rw [finishNewHead, if_neg hversion]
  simp only [htemplate, ok_bind, hcount, htokens]
  exact Eq.refl _

theorem finishNewHead_largest (data : TokenizerData) (content : List UInt8) (longest position : ℕ)
    (hlargest : (data.chatTemplate.getD []).length = 2147483647) :
    finishNewHead content (data.read longest position) =
      .error (.throws "std::bad_array_new_length") := by
  have hlength : (data.read longest position).chatTemplateLength = 2147483647 := by
    have hsome : data.chatTemplate.getD [] ≠ [] := by
      intro hnil
      rw [hnil] at hlargest
      cases hlargest
    have hread : (data.read longest position).chatTemplateLength =
        ((data.chatTemplate.getD []).length : ℤ) := if_neg hsome
    rw [hread, hlargest]
    exact Eq.refl _
  have hversion : ¬(data.read longest position).version ≠ 1 := fun h => h (Eq.refl _)
  rw [finishNewHead, if_neg hversion]
  simp only [readChatTemplate_largest hlength, error_bind]

/-- With a first token inside of the vocabulary the constructor comes to its end. -/
theorem finishTokenizer_inside {head : TokenizerHead} {vocab : List Word}
    (hvocab : vocab.length = head.vocabSize) (hsmall : head.vocabSize < 2147483648)
    (hbos : 0 ≤ head.bosId ∧ head.bosId < head.vocabSize)
    (hlongest : head.maxTokenLength < 2147483648) :
    ∃ tokenizer, finishTokenizer head vocab = .ok tokenizer ∧ tokenizer.head = head ∧
      tokenizer.vocab = vocab := by
  obtain ⟨n, hn⟩ : ∃ n : ℕ, head.bosId = n := ⟨head.bosId.toNat, by omega⟩
  obtain ⟨regular, hregular⟩ := @entries_ok vocab 0 n (by omega)
  obtain ⟨special, hspecial⟩ :=
    entries_ok (by omega : n + (head.vocabSize - n) ≤ vocab.length)
  have hsize : (head.vocabSize : ℤ) - n = (head.vocabSize - n : ℕ) := by omega
  have hdouble : (head.maxTokenLength : ℤ) * 2 = (head.maxTokenLength * 2 : ℕ) := by omega
  rw [finishTokenizer, newArray_ok hn (by omega), ok_bind, hregular, ok_bind,
    newArray_ok hsize (by omega), ok_bind, hspecial, ok_bind, newArray_ok hdouble (by omega),
    ok_bind]
  exact ⟨_, Eq.refl _, Eq.refl _, Eq.refl _⟩

/-- The header of a file is read up to the chat template. -/
theorem readHead_file {data : TokenizerData} {longest : ℕ} {header : List UInt8}
    (hheader : packHeader 0x567124 (params data.tokens.length longest data.chatTemplate data.bosId
      data.addBos data.eosTokens.length) = .ok header) (rest : List UInt8) (vocabSize : ℕ) :
    readHead (header ++ rest) vocabSize =
      finishNewHead (header ++ rest) (data.read longest header.length) := by
  obtain ⟨hTokens, hlongest, _⟩ := params_range hheader
  have hkeys : params data.tokens.length longest data.chatTemplate data.bosId data.addBos
      data.eosTokens.length ≠ [] := by
    simp [params]
  exact readHead_written hheader hkeys rest vocabSize (setPairs_params hTokens hlongest _ _ _ _ _ _)

/-- The vocabulary of a file after its head. -/
theorem buildTokenizer_file (data : TokenizerData) {longest : ℕ} {words : List UInt8}
    (hlongest : maxLength data.tokens = .ok longest) (hrange : longest < 2147483648)
    (hTokens : data.tokens.length < 2147483648)
    (hwords : writeTokens data.tokens data.scores = .ok words) (before : List UInt8) :
    (data.bosId ≠ none ∧ (∀ token ∈ data.tokens, token.length ≠ 2147483647) ∧
      readWords (before ++ words) 0 before.length data.tokens.length =
        .ok (wordsOf data.tokens data.scores, (before ++ words).length) ∧
      ∃ tokenizer, buildTokenizer (before ++ words) (data.head longest before.length) =
          .ok tokenizer ∧ tokenizer.head = data.head longest before.length ∧
        tokenizer.vocab = wordsOf data.tokens data.scores) ∨
    (¬(data.bosId ≠ none ∧ ∀ token ∈ data.tokens, token.length ≠ 2147483647) ∧
      ∃ stop, buildTokenizer (before ++ words) (data.head longest before.length) =
        .error stop) := by
  obtain ⟨⟨longToken, hlongToken, hlongLength⟩, hlonger⟩ := maxLength_eq_ok hlongest
  have hpositive : 0 < longest := by
    rw [← hlongLength]
    exact List.length_pos_of_ne_nil (data.tokens_ne longToken hlongToken)
  have hmax : ¬(data.head longest before.length).maxTokenLength < 1 := Nat.not_lt.mpr hpositive
  have hindex : 0 + data.tokens.length ≤ 2147483648 := by omega
  by_cases hlargest : ∃ token ∈ data.tokens, token.length = 2147483647
  · obtain ⟨stop, hstop⟩ := readWords_largest hwords before [] hindex
      (fun token htoken => Nat.lt_of_le_of_lt (hlonger token htoken) hrange) hlargest
    rw [List.append_nil] at hstop
    right
    constructor
    · intro hcondition
      obtain ⟨token, htoken, hlength⟩ := hlargest
      exact hcondition.2 token htoken hlength
    · rw [buildTokenizer, if_neg hmax]
      exact ⟨stop, by simp only [TokenizerData.head, hstop, error_bind]⟩
  · have hshort : ∀ token ∈ data.tokens, token.length ≠ 2147483647 := by
      intro token htoken hlength
      exact hlargest ⟨token, htoken, hlength⟩
    have hread := readWords_written hwords before [] hindex (by
      intro token htoken
      have hle := hlonger token htoken
      have hne := hshort token htoken
      omega)
    rw [List.append_nil] at hread
    have hbuild : buildTokenizer (before ++ words) (data.head longest before.length) =
        finishTokenizer (data.head longest before.length) (wordsOf data.tokens data.scores) := by
      rw [buildTokenizer, if_neg hmax]
      simp only [TokenizerData.head, hread, ok_bind]
    have hvocab : (wordsOf data.tokens data.scores).length = data.tokens.length := by
      rw [wordsOf, List.length_zipWith, data.scores_length, Nat.min_self]
    rw [hbuild]
    cases hbos : data.bosId with
    | none =>
      have hvalue : (data.head longest before.length).bosId = -1 := by
        rw [TokenizerData.head, hbos]
        exact Eq.refl _
      have hnegative : (data.head longest before.length).bosId < 0 := by omega
      right
      constructor
      · intro hcondition
        exact hcondition.1 (Eq.refl _)
      · rw [finishTokenizer, newArray_faults (.inl hnegative), error_bind]
        exact ⟨_, Eq.refl _⟩
    | some value =>
      have hinside : 0 ≤ (data.head longest before.length).bosId ∧
          (data.head longest before.length).bosId < data.tokens.length := by
        rw [TokenizerData.head, hbos]
        exact data.bosId_lt value hbos
      left
      refine ⟨Option.some_ne_none value, hshort, hread, ?_⟩
      exact finishTokenizer_inside hvocab hTokens hinside hrange

/-- A file that was written is read back, with all of its data and to its end, exactly when a first
token is given and no length is the largest of all. -/
theorem readsBack_iff (data : TokenizerData) (content : List UInt8) (vocabSize : ℕ)
    (h : data.file = .ok content) :
    data.ReadsBack content vocabSize ↔
      data.bosId ≠ none ∧ (∀ token ∈ data.tokens, token.length ≠ 2147483647) ∧
        (data.chatTemplate.getD []).length ≠ 2147483647 := by
  obtain ⟨longest, header, eos, words, hlongest, hheader, heos, hwords, hcontent⟩ := file_eq_ok h
  obtain ⟨hTokens, hrange, htemplateRange⟩ := params_range hheader
  have hhead := readHead_file hheader (data.chatTemplate.getD [] ++ (eos ++ words)) vocabSize
  rw [hcontent]
  by_cases htemplate : (data.chatTemplate.getD []).length = 2147483647
  · rw [finishNewHead_largest data _ longest _ htemplate] at hhead
    constructor
    · intro hback
      obtain ⟨tokenizer, hok, _⟩ := hback
      rw [readTokenizer, hhead] at hok
      cases hok
    · intro hcondition
      exact absurd htemplate hcondition.2.2
  · rw [finishNewHead_written data heos words longest (by omega)] at hhead
    have hwhole : header ++ (data.chatTemplate.getD [] ++ (eos ++ words)) =
        header ++ (data.chatTemplate.getD [] ++ eos) ++ words := by
      simp only [List.append_assoc]
    rw [hwhole] at hhead ⊢
    cases buildTokenizer_file data hlongest hrange hTokens hwords
        (header ++ (data.chatTemplate.getD [] ++ eos)) with
    | inl hbuilt =>
      obtain ⟨hbos, hshort, hread, tokenizer, hok, htokenizer, hvocab⟩ := hbuilt
      constructor
      · intro _
        exact ⟨hbos, hshort, htemplate⟩
      · intro _
        refine ⟨tokenizer, ?_, hvocab, ?_⟩
        · rw [readTokenizer, hhead]
          exact hok
        · rw [htokenizer, hvocab]
          exact ⟨Eq.refl _, Eq.refl _, Eq.refl _, Eq.refl _, Eq.refl _, hread⟩
    | inr hfails =>
      obtain ⟨hnot, stop, hstop⟩ := hfails
      constructor
      · intro hback
        obtain ⟨tokenizer, hok, _⟩ := hback
        rw [readTokenizer, hhead] at hok
        have hcontra := hstop.symm.trans hok
        cases hcontra
      · intro hcondition
        exact absurd ⟨hcondition.1, hcondition.2.1⟩ hnot

/-- Two tokens, the first one begins a text, with a chat template. -/
def twoTokens : TokenizerData where
  tokens := [[97], [98, 99]]
  tokens_ne := by decide
  scores := [0, 0x3f800000]
  scores_length := Eq.refl _
  chatTemplate := some [123]
  chatTemplate_ne := by decide
  bosId := some 0
  bosId_lt := by simp
  addBos := true
  eosTokens := [1]

/-- The file of the two tokens. -/
theorem readsBack_iff_twoTokens :
    ∃ content, twoTokens.file = .ok content ∧ (twoTokens.ReadsBack content 0 ↔
      twoTokens.bosId ≠ none ∧ (∀ token ∈ twoTokens.tokens, token.length ≠ 2147483647) ∧
        (twoTokens.chatTemplate.getD []).length ≠ 2147483647) := by
  obtain ⟨content, hcontent⟩ : ∃ content, twoTokens.file = .ok content := ⟨_, Eq.refl _⟩
  exact ⟨content, hcontent, readsBack_iff twoTokens content 0 hcontent⟩

/-- The two tokens without a first one. -/
def noFirst : TokenizerData where
  tokens := [[97], [98, 99]]
  tokens_ne := by decide
  scores := [0, 0x3f800000]
  scores_length := Eq.refl _
  chatTemplate := none
  chatTemplate_ne := by decide
  bosId := none
  bosId_lt := by simp
  addBos := false
  eosTokens := [1]

/-- A file without a first token is written, and it is not read. -/
theorem not_readsBack_noFirst :
    ¬∀ (data : TokenizerData) (content : List UInt8) (vocabSize : ℕ), data.file = .ok content →
      data.ReadsBack content vocabSize := by
  intro hall
  obtain ⟨content, hcontent⟩ : ∃ content, noFirst.file = .ok content := ⟨_, Eq.refl _⟩
  obtain ⟨tokenizer, hok, _⟩ := hall noFirst content 0 hcontent
  have hfaults : readTokenizer content 0 = .error .faults := by
    injection hcontent with hcontent
    rw [← hcontent]
    decide +kernel
  rw [hfaults] at hok
  cases hok

end Constructor

end LayerSkip.TokenizerFile
