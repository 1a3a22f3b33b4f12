import LayerSkip.HttpRequest

/-!
# The loop of the interface server

A request that was read is parsed and goes to a handler. The loop catches exceptions of a transfer on
a socket; every other exception leaves it. What parses a text, and what completes a chat, are
parameters.
-/

namespace LayerSkip.ApiServer

open NnTopology HttpRequest

/-- Numbers of a parsed text. -/
inductive JsonNumber
  | unsigned (value : ℕ)
  | integer (value : ℤ)
  | float (bits : UInt64)
  deriving DecidableEq, Repr

/-- A parsed text. The members of an object are sorted by key. -/
inductive Json
  | null
  | boolean (value : Bool)
  | number (value : JsonNumber)
  | string (value : List UInt8)
  | array (items : List Json)
  | object (members : List (List UInt8 × Json))

/-- A message of a chat. -/
structure ChatMessage where
  /-- Who wrote it. -/
  role : List UInt8
  /-- What it says. -/
  content : List UInt8
  deriving DecidableEq, Repr

/-- What is asked of a completion. Numbers are as they were parsed; none stands for the default. -/
structure InferenceParams where
  /-- The chat. -/
  messages : List ChatMessage
  /-- Whether the reply comes in chunks. -/
  stream : Bool
  /-- Temperature. -/
  temperature : Option Json
  /-- Seed of the sampler. -/
  seed : Option Json
  /-- Most tokens. -/
  maxTokens : Option Json
  /-- Texts that end the reply. -/
  stop : Option (List (List UInt8))

/-- A member of an object that may be asked for. -/
def Json.contains (json : Json) (key : List UInt8) : Option Json :=
  match json with
  | .object members => (members.find? fun member => member.1 = key).map Prod.snd
  | _ => none

/-- A member of an object that is asked for; a key that is missing is an assertion. -/
def Json.member (json : Json) (key : List UInt8) : Except Failure Json :=
  match json with
  | .object members =>
    match members.find? fun member => member.1 = key with
    | none => .error .assertion
    | some member => .ok member.2
  | _ => .error .typeError

/-- The text of a value. -/
def Json.getString : Json → Except Failure (List UInt8)
  | .string value => .ok value
  | _ => .error .typeError

/-- The truth of a value. -/
def Json.getBool : Json → Except Failure Bool
  | .boolean value => .ok value
  | _ => .error .typeError

/-- A value that converts to a number. -/
def Json.getNumber : Json → Except Failure Json
  | .number value => .ok (.number value)
  | .boolean value => .ok (.boolean value)
  | _ => .error .typeError

/-- The texts of an array. -/
def Json.getStrings : Json → Except Failure (List (List UInt8))
  | .array items => items.mapM Json.getString
  | _ => .error .typeError

/-- What a loop over a value meets: nothing, the items, the values of the members, or the value. -/
def Json.items : Json → List Json
  | .null => []
  | .array items => items
  | .object members => members.map Prod.snd
  | json => [json]

/-- The messages of a chat. -/
def parseChatMessages (json : Json) : Except Failure (List ChatMessage) :=
  json.items.mapM fun item => do
    let role ← (← item.member (ascii ['r', 'o', 'l', 'e'])).getString
    let content ← (← item.member (ascii ['c', 'o', 'n', 't', 'e', 'n', 't'])).getString
    return ⟨role, content⟩

/-- The messages of a request. A missing member is added as null, and so is an object for null. -/
def messagesOf (parsedJson : Json) : Except Failure Json :=
  match parsedJson with
  | .null => .ok .null
  | .object members =>
    .ok (((Json.object members).contains
      (ascii ['m', 'e', 's', 's', 'a', 'g', 'e', 's'])).getD .null)
  | _ => .error .typeError

/-- A member that may be absent. -/
def optionally {α : Type} (parsedJson : Json) (key : List UInt8) (get : Json → Except Failure α) :
    Except Failure (Option α) :=
  match parsedJson.contains key with
  | none => .ok none
  | some json => do
    let value ← get json
    return some value

/-- The parameters of a completion. -/
def parseRequest (parsedJson : Json) : Except Failure InferenceParams := do
  let messages ← parseChatMessages (← messagesOf parsedJson)
  let stream ← optionally parsedJson (ascii ['s', 't', 'r', 'e', 'a', 'm']) Json.getBool
  let temperature ← optionally parsedJson
    (ascii ['t', 'e', 'm', 'p', 'e', 'r', 'a', 't', 'u', 'r', 'e']) Json.getNumber
  let seed ← optionally parsedJson (ascii ['s', 'e', 'e', 'd']) Json.getNumber
  let maxTokens ← optionally parsedJson
    (ascii ['m', 'a', 'x', '_', 't', 'o', 'k', 'e', 'n', 's']) Json.getNumber
  let stop ← optionally parsedJson (ascii ['s', 't', 'o', 'p']) Json.getStrings
  return ⟨messages, stream.getD false, temperature, seed, maxTokens, stop⟩

/-- A request. -/
structure Request where
  /-- Method. -/
  method : HttpMethod
  /-- Path. -/
  path : List UInt8
  /-- Body, parsed; null without one. -/
  parsedJson : Json

/-- What the server rests on. -/
structure Api (σ : Type) where
  /-- Parse a text; none for an exception. -/
  parse : List UInt8 → Option Json
  /-- Complete a chat and send the reply. -/
  complete : σ → InferenceParams → Reply → σ × Except Failure Unit

section Server

variable {σ : Type} (api : Api σ)

/-- The header lines of a request, without the first one. -/
def fieldLines (data : List UInt8) : List (List UInt8) := (headerLines [] (getline data).2).1

/-- The body of a request, as a C string. -/
def bodyOf (data : List UInt8) : List UInt8 := cString (headerLines [] (getline data).2).2

/-- Method and path of a request. -/
def requestLine (data : List UInt8) : HttpMethod × List UInt8 :=
  let first := word (getline data).1
  (parseMethod first.1, (word first.2).1)

/-- The parsed body. -/
def parseBody (body : List UInt8) : Except Failure Json :=
  if body = [] then .ok .null
  else match api.parse body with
    | none => .error .parseError
    | some json => .ok json

/-- Read a request. -/
def readRequest (client : Client) : Except Failure Request := do
  let data ← readHttpRequest client
  let _ ← checkFields (fieldLines data)
  let parsedJson ← parseBody api (bodyOf data)
  return ⟨(requestLine data).1, (requestLine data).2, parsedJson⟩

/-- Send a small reply. -/
def writeReply : Reply → Except Failure Unit
  | .takes => .ok ()
  | .refuses => .error .transfer
  | .stops => .error .waits

/-- Path of the completions. -/
def completionsPath : List UInt8 :=
  ascii ['/', 'v', '1', '/', 'c', 'h', 'a', 't', '/', 'c', 'o', 'm', 'p', 'l', 'e', 't', 'i', 'o',
    'n', 's']

/-- Whether a request asks for a completion. All others get a small reply. -/
def asksCompletion (method : HttpMethod) (path : List UInt8) : Prop :=
  method = .post ∧ path = completionsPath

instance (method : HttpMethod) (path : List UInt8) : Decidable (asksCompletion method path) :=
  inferInstanceAs (Decidable (_ ∧ _))

/-- Hand a request to its handler. -/
def resolve (s : σ) (request : Request) (reply : Reply) : σ × Except Failure Unit :=
  if asksCompletion request.method request.path then
    match parseRequest request.parsedJson with
    | .error failure => (s, .error failure)
    | .ok params => api.complete s params reply
  else (s, writeReply reply)

/-- One connection. -/
def serve (s : σ) (client : Client) : σ × Except Failure Unit :=
  match readRequest api client with
  | .error failure => (s, .error failure)
  | .ok request => resolve api s request client.reply

/-- Whether the loop goes on: only exceptions of a transfer are caught, and it waits for a client
that stays silent. -/
def goesOn (result : Except Failure Unit) : Prop := result = .ok () ∨ result = .error .transfer

instance (result : Except Failure Unit) : Decidable (goesOn result) :=
  inferInstanceAs (Decidable (_ ∨ _))

/-- The loop over connections: the state in which the next one is accepted, or none when an exception
has left the loop or it waits for ever. -/
def server (s : σ) : List Client → Option σ
  | [] => some s
  | client :: clients =>
    if goesOn (serve api s client).2 then server (serve api s client).1 clients else none

/-- The parsed body, null without one. -/
def parsedBody (data : List UInt8) : Json :=
  if bodyOf data = [] then .null else (api.parse (bodyOf data)).getD .null

/-- A connection that the loop can handle: the request arrives, its header lines have values, its body
is empty or can be parsed, and a completion has the parameters it needs and fails at most in a
transfer. -/
structure Handled (s : σ) (client : Client) (data : List UInt8) : Prop where
  /-- The request arrives. -/
  arrives : RequestArrives client data
  /-- Every header line with a colon has a value. -/
  fields : ∀ line ∈ fieldLines data, FieldOk line
  /-- The body can be parsed. -/
  body : bodyOf data = [] ∨ (api.parse (bodyOf data)).isSome
  /-- The completion has its parameters and fails at most in a transfer. -/
  completion : asksCompletion (requestLine data).1 (requestLine data).2 →
    ∃ params, parseRequest (parsedBody api data) = .ok params ∧
      goesOn (api.complete s params client.reply).2
  /-- Other requests get a reply that the client takes or refuses. -/
  others : ¬asksCompletion (requestLine data).1 (requestLine data).2 → client.reply ≠ .stops

end Server

section Untransferred

variable {α β : Type}

/-- A computation that does not fail in a transfer. -/
def Untransferred (x : Except Failure α) : Prop := x ≠ .error .transfer

theorem untransferred_ok (a : α) : Untransferred (.ok a : Except Failure α) := by
  intro h
  cases h

theorem untransferred_error {failure : Failure} (h : failure ≠ .transfer) :
    Untransferred (.error failure : Except Failure α) := by
  intro heq
  injection heq with heq
  exact h heq

theorem untransferred_bind {x : Except Failure α} {f : α → Except Failure β}
    (hx : Untransferred x) (hf : ∀ a, Untransferred (f a)) : Untransferred (x >>= f) := by
  cases x with
  | error failure =>
    intro h
    injection h with h
    exact hx (congrArg Except.error h)
  | ok a => exact hf a

theorem untransferred_mapM {f : α → Except Failure β} (hf : ∀ a, Untransferred (f a))
    (items : List α) : Untransferred (items.mapM f) := by
  induction items with
  | nil => exact untransferred_ok []
  | cons item items ih =>
    rw [List.mapM_cons]
    refine untransferred_bind (hf item) fun b => ?_
    exact untransferred_bind ih fun bs => untransferred_ok (b :: bs)

theorem untransferred_failure (ending : Ending) (text : String) :
    ending.failure text ≠ .transfer := by
  cases ending with
  | closes => exact Failure.noConfusion
  | breaks => exact Failure.noConfusion
  | stops => exact Failure.noConfusion

theorem untransferred_readHeaders (ending : Ending) (headerData : List UInt8)
    (pieces : List (List UInt8)) : Untransferred (readHeaders ending headerData pieces) := by
  induction pieces generalizing headerData with
  | nil => exact untransferred_error (untransferred_failure ending _)
  | cons piece pieces ih =>
    unfold readHeaders
    dsimp only
    by_cases hend : (findHeaderEnd (headerData ++ cString piece)).isSome
    · rw [if_pos hend]
      exact untransferred_ok _
    · rw [if_neg hend]
      exact ih _

theorem untransferred_headerField (line : List UInt8) : Untransferred (headerField line) := by
  unfold headerField
  cases line.findIdx? fun b => b = colon with
  | none => exact untransferred_ok none
  | some pos =>
    dsimp only
    by_cases hfits : pos + 2 ≤ line.length
    · rw [if_pos hfits]
      exact untransferred_ok _
    · rw [if_neg hfits]
      exact untransferred_error Failure.noConfusion

theorem untransferred_stoi (text : List UInt8) : Untransferred (stoi text) := by
  have hrange (digits : List UInt8) (value : ℤ) : Untransferred
      (if digits = [] then
        .error (.runtimeError "Bad Content-Length header - not a number")
      else if -2147483648 ≤ value ∧ value ≤ 2147483647 then .ok value
      else .error .outOfRange : Except Failure ℤ) := by
    by_cases hdigits : digits = []
    · rw [if_pos hdigits]
      exact untransferred_error Failure.noConfusion
    · rw [if_neg hdigits]
      by_cases hvalue : -2147483648 ≤ value ∧ value ≤ 2147483647
      · rw [if_pos hvalue]
        exact untransferred_ok value
      · rw [if_neg hvalue]
        exact untransferred_error Failure.noConfusion
  exact hrange _ _

theorem untransferred_findContentLength (lines : List (List UInt8)) :
    Untransferred (findContentLength lines) := by
  induction lines with
  | nil => exact untransferred_ok 0
  | cons line lines ih =>
    unfold findContentLength
    refine untransferred_bind (untransferred_headerField line) fun field => ?_
    cases field with
    | none => exact ih
    | some pair =>
      dsimp only
      by_cases hkey : pair.1 = contentLengthKey
      · rw [if_pos hkey]
        exact untransferred_stoi _
      · rw [if_neg hkey]
        exact ih

theorem untransferred_readBody (ending : Ending) (pieces : List (List UInt8)) (n : ℕ) :
    Untransferred (readBody ending pieces n) := by
  induction pieces generalizing n with
  | nil =>
    cases n with
    | zero => exact untransferred_ok []
    | succ n => exact untransferred_error (untransferred_failure ending _)
  | cons piece pieces ih =>
    cases n with
    | zero => exact untransferred_ok []
    | succ n =>
      unfold readBody
      by_cases hfits : piece.length ≤ n + 1
      · rw [if_pos hfits]
        exact untransferred_bind (ih _) fun rest => untransferred_ok (piece ++ rest)
      · rw [if_neg hfits]
        exact untransferred_ok _

theorem untransferred_readHttpRequest (client : Client) :
    Untransferred (readHttpRequest client) := by
  unfold readHttpRequest
  refine untransferred_bind (untransferred_readHeaders _ _ _) fun arrived => ?_
  refine untransferred_bind (untransferred_findContentLength _) fun contentLength => ?_
  by_cases hbody : 0 < contentLength
  · rw [if_pos hbody]
    dsimp only
    by_cases hextra : contentLength < (extraReadPastHeader arrived.1).length
    · rw [if_pos hextra]
      exact untransferred_error Failure.noConfusion
    · rw [if_neg hextra]
      exact untransferred_bind (untransferred_readBody _ _ _) fun body => untransferred_ok _
  · rw [if_neg hbody]
    exact untransferred_ok _

theorem untransferred_checkFields (lines : List (List UInt8)) :
    Untransferred (checkFields lines) := by
  induction lines with
  | nil => exact untransferred_ok ()
  | cons line lines ih =>
    exact untransferred_bind (untransferred_headerField line) fun _ => ih

theorem untransferred_member (json : Json) (key : List UInt8) :
    Untransferred (json.member key) := by
  cases json with
  | object members =>
    unfold Json.member
    dsimp only
    cases members.find? fun member => member.1 = key with
    | none => exact untransferred_error Failure.noConfusion
    | some member => exact untransferred_ok _
  | null => exact untransferred_error Failure.noConfusion
  | boolean value => exact untransferred_error Failure.noConfusion
  | number value => exact untransferred_error Failure.noConfusion
  | string value => exact untransferred_error Failure.noConfusion
  | array items => exact untransferred_error Failure.noConfusion

/-- Every way of reading a value that only accepts some kinds. -/
theorem untransferred_get (json : Json) :
    Untransferred json.getString ∧ Untransferred json.getBool ∧ Untransferred json.getNumber ∧
      Untransferred json.getStrings := by
  have hstring (json : Json) : Untransferred json.getString := by
    cases json with
    | string value => exact untransferred_ok value
    | null => exact untransferred_error Failure.noConfusion
    | boolean value => exact untransferred_error Failure.noConfusion
    | number value => exact untransferred_error Failure.noConfusion
    | array items => exact untransferred_error Failure.noConfusion
    | object members => exact untransferred_error Failure.noConfusion
  refine ⟨hstring json, ?_, ?_, ?_⟩
  · cases json <;> first | exact untransferred_ok _ | exact untransferred_error Failure.noConfusion
  · cases json <;> first | exact untransferred_ok _ | exact untransferred_error Failure.noConfusion
  · cases json with
    | array items => exact untransferred_mapM hstring items
    | null => exact untransferred_error Failure.noConfusion
    | boolean value => exact untransferred_error Failure.noConfusion
    | number value => exact untransferred_error Failure.noConfusion
    | string value => exact untransferred_error Failure.noConfusion
    | object members => exact untransferred_error Failure.noConfusion

theorem untransferred_optionally (parsedJson : Json) (key : List UInt8)
    {get : Json → Except Failure α} (hget : ∀ json, Untransferred (get json)) :
    Untransferred (optionally parsedJson key get) := by
  unfold optionally
  cases parsedJson.contains key with
  | none => exact untransferred_ok none
  | some json => exact untransferred_bind (hget json) fun value => untransferred_ok (some value)

/-- A request that lacks what a completion needs does not fail in a transfer. -/
theorem untransferred_parseRequest (parsedJson : Json) :
    Untransferred (parseRequest parsedJson) := by
  have hmessages : Untransferred (messagesOf parsedJson) := by
    cases parsedJson <;>
      first | exact untransferred_ok _ | exact untransferred_error Failure.noConfusion
  have hchat (json : Json) : Untransferred (parseChatMessages json) := by
    refine untransferred_mapM (fun item => ?_) _
    refine untransferred_bind (untransferred_member item _) fun role => ?_
    refine untransferred_bind (untransferred_get role).1 fun role => ?_
    refine untransferred_bind (untransferred_member item _) fun content => ?_
    exact untransferred_bind (untransferred_get content).1 fun content => untransferred_ok _
  unfold parseRequest
  refine untransferred_bind hmessages fun json => ?_
  refine untransferred_bind (hchat json) fun messages => ?_
  refine untransferred_bind (untransferred_optionally _ _ fun json => (untransferred_get json).2.1)
    fun stream => ?_
  refine untransferred_bind (untransferred_optionally _ _ fun json => (untransferred_get json).2.2.1)
    fun temperature => ?_
  refine untransferred_bind (untransferred_optionally _ _ fun json => (untransferred_get json).2.2.1)
    fun seed => ?_
  refine untransferred_bind (untransferred_optionally _ _ fun json => (untransferred_get json).2.2.1)
    fun maxTokens => ?_
  exact untransferred_bind (untransferred_optionally _ _ fun json => (untransferred_get json).2.2.2)
    fun stop => untransferred_ok _

end Untransferred

section Loop

variable {σ : Type} {api : Api σ}

theorem not_goesOn_error {failure : Failure} (h : failure ≠ .transfer) :
    ¬goesOn (.error failure) := by
  intro hgoes
  cases hgoes with
  | inl hok => cases hok
  | inr htransfer =>
    injection htransfer with heq
    exact h heq

theorem parseBody_iff {data : List UInt8} {json : Json} :
    parseBody api (bodyOf data) = .ok json ↔
      (bodyOf data = [] ∨ (api.parse (bodyOf data)).isSome) ∧ json = parsedBody api data := by
  unfold parseBody parsedBody
  by_cases hempty : bodyOf data = []
  · rw [if_pos hempty, if_pos hempty]
    constructor
    · intro h
      injection h with h
      exact ⟨.inl hempty, h.symm⟩
    · intro h
      exact congrArg Except.ok h.2.symm
  · rw [if_neg hempty, if_neg hempty]
    cases hparse : api.parse (bodyOf data) with
    | none =>
      constructor
      · intro h
        cases h
      · intro h
        cases h.1 with
        | inl hnil => exact absurd hnil hempty
        | inr hsome => cases hsome
    | some parsed =>
      constructor
      · intro h
        injection h with h
        exact ⟨.inr (Eq.refl _), h.symm⟩
      · intro h
        exact congrArg Except.ok h.2.symm

/-- A request is read exactly when it arrives, its header lines have values and its body is empty or
can be parsed. -/
theorem readRequest_iff {client : Client} {request : Request} :
    readRequest api client = .ok request ↔ ∃ data, RequestArrives client data ∧
      (∀ line ∈ fieldLines data, FieldOk line) ∧
      (bodyOf data = [] ∨ (api.parse (bodyOf data)).isSome) ∧
      request = ⟨(requestLine data).1, (requestLine data).2, parsedBody api data⟩ := by
  constructor
  · intro h
    obtain ⟨data, hread, h⟩ := bind_eq_ok h
    obtain ⟨_, hfields, h⟩ := bind_eq_ok h
    obtain ⟨json, hbody, h⟩ := bind_eq_ok h
    injection h with h
    obtain ⟨hparsed, hjson⟩ := parseBody_iff.mp hbody
    refine ⟨data, readHttpRequest_iff.mp hread, checkFields_iff.mp hfields, hparsed, ?_⟩
    rw [← h, hjson]
  · intro h
    obtain ⟨data, harrives, hfields, hparsed, hrequest⟩ := h
    have hread := readHttpRequest_iff.mpr harrives
    have hcheck := checkFields_iff.mpr hfields
    have hbody := parseBody_iff.mpr ⟨hparsed, Eq.refl (parsedBody api data)⟩
    unfold readRequest
    rw [hread]
    dsimp only [bind, Except.bind]
    rw [hcheck, hbody, hrequest]
    exact Eq.refl _

theorem untransferred_readRequest (client : Client) : Untransferred (readRequest api client) := by
  unfold readRequest
  refine untransferred_bind (untransferred_readHttpRequest client) fun data => ?_
  refine untransferred_bind (untransferred_checkFields _) fun _ => ?_
  refine untransferred_bind ?_ fun json => untransferred_ok _
  unfold parseBody
  by_cases hempty : bodyOf data = []
  · rw [if_pos hempty]
    exact untransferred_ok _
  · rw [if_neg hempty]
    cases api.parse (bodyOf data) with
    | none => exact untransferred_error Failure.noConfusion
    | some json => exact untransferred_ok json

theorem goesOn_writeReply (reply : Reply) : goesOn (writeReply reply) ↔ reply ≠ .stops := by
  cases reply <;> decide

theorem goesOn_resolve {s : σ} {request : Request} {reply : Reply} :
    goesOn (resolve api s request reply).2 ↔
      (asksCompletion request.method request.path →
        ∃ params, parseRequest request.parsedJson = .ok params ∧
          goesOn (api.complete s params reply).2) ∧
      (¬asksCompletion request.method request.path → reply ≠ .stops) := by
  unfold resolve
  by_cases hasks : asksCompletion request.method request.path
  · rw [if_pos hasks]
    cases hparams : parseRequest request.parsedJson with
    | error failure =>
      have hother : failure ≠ .transfer := by
        intro heq
        rw [heq] at hparams
        exact untransferred_parseRequest _ hparams
      constructor
      · intro h
        exact absurd h (not_goesOn_error hother)
      · intro h
        obtain ⟨params, hok, _⟩ := h.1 hasks
        cases hok
    | ok params =>
      constructor
      · intro h
        exact ⟨fun _ => ⟨params, Eq.refl _, h⟩, fun hnot => absurd hasks hnot⟩
      · intro h
        obtain ⟨other, hok, hgoes⟩ := h.1 hasks
        injection hok with hok
        rw [hok]
        exact hgoes
  · rw [if_neg hasks]
    constructor
    · intro h
      exact ⟨fun hasks' => absurd hasks' hasks, fun _ => (goesOn_writeReply reply).mp h⟩
    · intro h
      exact (goesOn_writeReply reply).mpr (h.2 hasks)

/-- The loop goes on after a connection exactly when it can handle it. -/
theorem goesOn_serve {s : σ} {client : Client} :
    goesOn (serve api s client).2 ↔ ∃ data, Handled api s client data := by
  unfold serve
  cases hread : readRequest api client with
  | error failure =>
    have hother : failure ≠ .transfer := by
      intro heq
      rw [heq] at hread
      exact untransferred_readRequest _ hread
    constructor
    · intro h
      exact absurd h (not_goesOn_error hother)
    · intro h
      obtain ⟨data, hhandled⟩ := h
      have hok := readRequest_iff.mpr ⟨data, hhandled.arrives, hhandled.fields, hhandled.body,
        Eq.refl _⟩
      rw [hread] at hok
      cases hok
  | ok request =>
    dsimp only
    rw [goesOn_resolve]
    constructor
    · intro h
      obtain ⟨data, harrives, hfields, hbody, hrequest⟩ := readRequest_iff.mp hread
      rw [hrequest] at h
      exact ⟨data, harrives, hfields, hbody, h.1, h.2⟩
    · intro h
      obtain ⟨data, hhandled⟩ := h
      have hok := readRequest_iff.mpr ⟨data, hhandled.arrives, hhandled.fields, hhandled.body,
        Eq.refl _⟩
      rw [hread] at hok
      injection hok with hok
      rw [hok]
      exact ⟨hhandled.completion, hhandled.others⟩

/-- State after connections. -/
def stateAfter (api : Api σ) (s : σ) (clients : List Client) : σ :=
  clients.foldl (fun s client => (serve api s client).1) s

end Loop

end LayerSkip.ApiServer
