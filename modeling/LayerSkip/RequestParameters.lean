import LayerSkip.CompletionLoop
import LayerSkip.SamplerTopK

/-!
# Parameters of a request

A request can give a temperature, a bound of the nucleus, a seed and stops. The server has one sampler and one
detector for all requests. It keeps the temperature and the bound of its command line and the stops of its
tokenizer, and goes on with the seed of an earlier request.
-/

namespace LayerSkip.RequestParameters

open StopDetection CompletionLoop MoeKernels MoeBlock SamplerTopK

/-- The sampler. -/
structure Sampler (F : Type) where
  /-- Temperature. -/
  temperature : F
  /-- Bound of the nucleus. -/
  topp : F
  /-- State of the random numbers. -/
  rngState : UInt64
  deriving DecidableEq

/-- The next state of the random numbers. -/
def xorshift (state : UInt64) : UInt64 :=
  let state := state ^^^ (state >>> 12)
  let state := state ^^^ (state <<< 25)
  state ^^^ (state >>> 27)

/-- A random number of a state. -/
def randomU32 (state : UInt64) : UInt64 := (state * 0x2545F4914F6CDD1D) >>> 32

section Sample

variable {F : Type} [Field F] [LinearOrder F]

/-- A random fraction of a state. -/
def randomF32 (state : UInt64) : F := ((randomU32 state >>> 8).toNat : F) / 16777216

/-- `Sampler::sample`. -/
def Sampler.sample (e : Exponential F) (sampler : Sampler F) (logits : List F) :
    Except String ℕ × Sampler F :=
  if sampler.temperature = 0 then
    (SamplerTopK.sample e sampler.temperature sampler.topp 0 logits, sampler)
  else
    let rngState := xorshift sampler.rngState
    (SamplerTopK.sample e sampler.temperature sampler.topp (randomF32 rngState) logits,
      { sampler with rngState := rngState })

/-- `Sampler::setSeed`. -/
def Sampler.setSeed (sampler : Sampler F) (seed : UInt64) : Sampler F := { sampler with rngState := seed }

/-- What a sampler samples with. -/
inductive Sampling (F : Type) where
  /-- The best token. -/
  | greedy
  /-- All tokens. -/
  | all (temperature : F) (rngState : UInt64)
  /-- The nucleus. -/
  | nucleus (temperature topp : F) (rngState : UInt64)
  deriving DecidableEq

/-- What a sampler samples with. -/
def Sampler.sampling (sampler : Sampler F) : Sampling F :=
  if sampler.temperature = 0 then .greedy
  else if sampler.topp ≤ 0 ∨ 1 ≤ sampler.topp then .all sampler.temperature sampler.rngState
  else .nucleus sampler.temperature sampler.topp sampler.rngState

/-- The token that is taken. -/
def Sampling.token (e : Exponential F) (logits : List F) : Sampling F → Except String ℕ
  | .greedy => .ok (GreedySampling.sampleArgmax logits)
  | .all temperature rngState =>
    .ok (sample_mult (rowProbabilities e temperature logits) (randomF32 (xorshift rngState)))
  | .nucleus temperature topp rngState =>
    NucleusSampling.sample_topp (rowProbabilities e temperature logits) topp (randomF32 (xorshift rngState))

/-- What is sampled with afterwards. -/
def Sampling.next : Sampling F → Sampling F
  | .greedy => .greedy
  | .all temperature rngState => .all temperature (xorshift rngState)
  | .nucleus temperature topp rngState => .nucleus temperature topp (xorshift rngState)

theorem sample_sampling (e : Exponential F) (sampler : Sampler F) (logits : List F) :
    (sampler.sample e logits).1 = sampler.sampling.token e logits ∧
      (sampler.sample e logits).2.sampling = sampler.sampling.next := by
  unfold Sampler.sample Sampler.sampling SamplerTopK.sample
  by_cases hzero : sampler.temperature = 0
  · simp only [hzero, if_true]
    exact ⟨Eq.refl _, Eq.refl _⟩
  · simp only [hzero, if_false]
    by_cases hwhole : sampler.topp ≤ 0 ∨ 1 ≤ sampler.topp
    · simp only [hwhole, if_true]
      exact ⟨Eq.refl _, Eq.refl _⟩
    · simp only [hwhole, if_false]
      exact ⟨Eq.refl _, Eq.refl _⟩

/-- Samplers that sample with the same take the same token and go on to sample with the same. -/
theorem sample_congr (e : Exponential F) {s t : Sampler F} (h : s.sampling = t.sampling) (logits : List F) :
    (s.sample e logits).1 = (t.sample e logits).1 ∧
      (s.sample e logits).2.sampling = (t.sample e logits).2.sampling := by
  have hs := sample_sampling e s logits
  have ht := sample_sampling e t logits
  constructor
  · rw [hs.1, ht.1, h]
  · rw [hs.2, ht.2, h]

/-- Samplers sample with the same when both take the best token, or have the same temperature, the same random
numbers and the same bound, unless neither bound cuts anything. -/
theorem sampling_eq_iff (s t : Sampler F) : s.sampling = t.sampling ↔
    s.temperature = 0 ∧ t.temperature = 0 ∨
      s.temperature ≠ 0 ∧ s.temperature = t.temperature ∧ s.rngState = t.rngState ∧
        (s.topp = t.topp ∨ (s.topp ≤ 0 ∨ 1 ≤ s.topp) ∧ (t.topp ≤ 0 ∨ 1 ≤ t.topp)) := by
  unfold Sampler.sampling
  by_cases hs : s.temperature = 0
  · by_cases ht : t.temperature = 0
    · simp [hs, ht]
    · by_cases htWhole : t.topp ≤ 0 ∨ 1 ≤ t.topp
      · simp [hs, ht, htWhole]
      · simp [hs, ht, htWhole]
  · by_cases ht : t.temperature = 0
    · by_cases hsWhole : s.topp ≤ 0 ∨ 1 ≤ s.topp
      · simp [hs, ht, hsWhole]
      · simp [hs, ht, hsWhole]
    · by_cases hsWhole : s.topp ≤ 0 ∨ 1 ≤ s.topp
      · by_cases htWhole : t.topp ≤ 0 ∨ 1 ≤ t.topp
        · simp [hs, ht, hsWhole, htWhole]
        · have hne : s.topp ≠ t.topp := by
            intro heq
            exact htWhole (heq ▸ hsWhole)
          simp only [hs, ht, hsWhole, htWhole, hne]
          simp
      · by_cases htWhole : t.topp ≤ 0 ∨ 1 ≤ t.topp
        · have hne : s.topp ≠ t.topp := by
            intro heq
            exact hsWhole (heq ▸ htWhole)
          simp only [hs, ht, hsWhole, htWhole, hne]
          simp
        · simp only [hs, ht, hsWhole, htWhole]
          simp [hs, and_comm]

end Sample

section Server

variable {κ ι ρ F : Type}

/-- The command line. -/
structure Args (F : Type) where
  /-- Temperature. -/
  temperature : F
  /-- Bound of the nucleus. -/
  topp : F
  /-- Seed. -/
  seed : UInt64

/-- A request. -/
structure Request (F ρ : Type) where
  /-- Temperature. -/
  temperature : Option F
  /-- Bound of the nucleus. -/
  topP : Option F
  /-- Seed. -/
  seed : Option UInt64
  /-- Stops. -/
  stop : Option (List (List UInt8))
  /-- Messages, number of tokens and form of the reply. -/
  rest : ρ

/-- The parameters of a completion. -/
structure InferenceParams (F ρ : Type) where
  /-- Temperature. -/
  temperature : F
  /-- Bound of the nucleus. -/
  topP : F
  /-- Seed. -/
  seed : UInt64
  /-- Stops. -/
  stop : List (List UInt8)
  /-- Messages, number of tokens and form of the reply. -/
  rest : ρ

/-- `<|eot_id|>`. -/
def defaultStop : List UInt8 := [0x3c, 0x7c, 0x65, 0x6f, 0x74, 0x5f, 0x69, 0x64, 0x7c, 0x3e]

/-- `parseRequest`, with the sampler that it leaves. The bound of the nucleus is not read. -/
def parseRequest (args : Args F) (request : Request F ρ) (sampler : Sampler F) :
    InferenceParams F ρ × Sampler F :=
  (⟨request.temperature.getD args.temperature, args.topp, request.seed.getD args.seed,
      request.stop.getD [defaultStop], request.rest⟩,
    match request.seed with
    | some seed => sampler.setSeed seed
    | none => sampler)

/-- The conversations, the model and the tokenizer. -/
structure World (κ ι ρ F : Type) where
  /-- Positions that are left after the prompt, and the model there. -/
  begins : κ → ρ → ℕ × ι
  /-- Logits of the last token. -/
  logits : ι → List F
  /-- Piece of a token, and the model behind it. -/
  decode : ι → ℤ → Option (List UInt8) × ι
  /-- What is sampled from a nucleus without a token. -/
  behind : ℤ
  /-- The conversation after a completion. -/
  ends : κ → ρ → ι → List (List UInt8) → κ

/-- The server. -/
structure Server (κ F : Type) where
  /-- Conversation. -/
  conversation : κ
  /-- Sampler. -/
  sampler : Sampler F
  /-- Detector. -/
  detector : EosDetector

variable [Field F] [LinearOrder F] (e : Exponential F) (world : World κ ι ρ F)

/-- The next token. -/
def World.next (source : ι × Sampler F) : Call × (ι × Sampler F) :=
  let sampled := source.2.sample e (world.logits source.1)
  let token : ℤ := match sampled.1 with
    | .ok index => index
    | .error _ => world.behind
  let decoded := world.decode source.1 token
  ((token, decoded.1), (decoded.2, sampled.2))

/-- The loop of a completion with a sampler and a detector. -/
def World.generates (conversation : κ) (rest : ρ) (sampler : Sampler F) (detector : EosDetector) :
    Generated (ι × Sampler F) :=
  let begun := world.begins conversation rest
  generate (world.next e) begun.1 (begun.2, sampler) detector.reset

/-- `ApiServer::complete`. -/
def complete (args : Args F) (server : Server κ F) (request : Request F ρ) :
    Generated (ι × Sampler F) × Server κ F :=
  let parsed := parseRequest args request server.sampler
  let generated := world.generates e server.conversation parsed.1.rest parsed.2 server.detector
  (generated, ⟨world.ends server.conversation parsed.1.rest generated.source.1 generated.deltas,
    generated.source.2, generated.detector⟩)

/-- The server after requests. -/
def serverAfter (args : Args F) (server : Server κ F) (requests : List (Request F ρ)) : Server κ F :=
  requests.foldl (fun server request => (complete e world args server request).2) server

/-- The server before the first request. -/
def started (args : Args F) (conversation : κ) (detector : EosDetector) : Server κ F :=
  ⟨conversation, ⟨args.temperature, args.topp, args.seed⟩, detector⟩

/-- The sampler that a request asks for. -/
def askedSampler (args : Args F) (request : Request F ρ) : Sampler F :=
  ⟨request.temperature.getD args.temperature, request.topP.getD args.topp, request.seed.getD args.seed⟩

/-- The detector that a request asks for. -/
def askedDetector (detector : EosDetector) (request : Request F ρ) : EosDetector :=
  { detector with pieces := request.stop.getD detector.pieces }

/-- A completion is sampled and stopped as its request asks for, and it is the one of a server that has only the
conversation of the earlier requests. -/
structure Governed (args : Args F) (detector : EosDetector) (server : Server κ F) (request : Request F ρ) :
    Prop where
  /-- How it is sampled. -/
  sampling : (parseRequest args request server.sampler).2.sampling = (askedSampler args request).sampling
  /-- How it is stopped. -/
  stops : server.detector.pieces = (askedDetector detector request).pieces
  /-- What it does. -/
  completion : SameRun (fun source source' => source.1 = source'.1 ∧ source.2.sampling = source'.2.sampling)
    (complete e world args server request).1
    (world.generates e server.conversation request.rest (askedSampler args request)
      (askedDetector detector request))

/-- A request that asks for no stops or those of the server, and for the best token where the server takes it, or
for its temperature, its bound and random numbers that begin anew. -/
structure Meets (args : Args F) (detector : EosDetector) (server : Server κ F) (request : Request F ρ) :
    Prop where
  /-- Stops. -/
  stops : request.stop = none ∨ request.stop = some detector.pieces
  /-- Sampling. -/
  sampling : args.temperature = 0 ∧ request.temperature.getD args.temperature = 0 ∨
    args.temperature ≠ 0 ∧ args.temperature = request.temperature.getD args.temperature ∧
      (request.seed = none → server.sampler.rngState = args.seed) ∧
      (args.topp = request.topP.getD args.topp ∨
        (args.topp ≤ 0 ∨ 1 ≤ args.topp) ∧
          (request.topP.getD args.topp ≤ 0 ∨ 1 ≤ request.topP.getD args.topp))

variable {e world} {args : Args F} {detector : EosDetector} {server : Server κ F} {request : Request F ρ}

/-- The server keeps the temperature and the bound of its command line, and its stops. -/
structure Keeps (args : Args F) (detector : EosDetector) (server : Server κ F) : Prop where
  /-- Temperature. -/
  temperature : server.sampler.temperature = args.temperature
  /-- Bound of the nucleus. -/
  topp : server.sampler.topp = args.topp
  /-- Stops. -/
  stops : SameStops detector server.detector

theorem sample_keeps (e : Exponential F) (sampler : Sampler F) (logits : List F) :
    (sampler.sample e logits).2.temperature = sampler.temperature ∧
      (sampler.sample e logits).2.topp = sampler.topp := by
  unfold Sampler.sample
  split
  · exact ⟨Eq.refl _, Eq.refl _⟩
  · exact ⟨Eq.refl _, Eq.refl _⟩

omit [Field F] [LinearOrder F] in
/-- The sampler that a parsed request leaves. -/
theorem parseRequest_sampler (args : Args F) (request : Request F ρ) (sampler : Sampler F) :
    (parseRequest args request sampler).2 =
      { sampler with rngState := request.seed.getD sampler.rngState } := by
  unfold parseRequest
  cases request.seed with
  | none => rfl
  | some seed => rfl

theorem complete_keeps (h : Keeps args detector server) :
    Keeps args detector (complete e world args server request).2 := by
  have hsampler : ∀ source : ι × Sampler F,
      source.2.temperature = args.temperature ∧ source.2.topp = args.topp →
        (world.next e source).2.2.temperature = args.temperature ∧
          (world.next e source).2.2.topp = args.topp := by
    intro source hsource
    have hkeeps := sample_keeps e source.2 (world.logits source.1)
    exact ⟨hkeeps.1.trans hsource.1, hkeeps.2.trans hsource.2⟩
  have hstart : (parseRequest args request server.sampler).2.temperature = args.temperature ∧
      (parseRequest args request server.sampler).2.topp = args.topp := by
    rw [parseRequest_sampler]
    exact ⟨h.temperature, h.topp⟩
  have hsource : (complete e world args server request).1.source.2.temperature = args.temperature ∧
      (complete e world args server request).1.source.2.topp = args.topp :=
    generate_keeps (P := fun source : ι × Sampler F =>
      source.2.temperature = args.temperature ∧ source.2.topp = args.topp) hsampler
      (world.begins server.conversation request.rest).1 hstart server.detector.reset
  have hreset : SameStops detector server.detector.reset :=
    ⟨h.stops.tokens, h.stops.pieces, h.stops.paddingLeft, h.stops.paddingRight⟩
  exact ⟨hsource.1, hsource.2, hreset.trans (generate_sameStops _ _ _ _)⟩

theorem serverAfter_keeps (h : Keeps args detector server) (requests : List (Request F ρ)) :
    Keeps args detector (serverAfter e world args server requests) := by
  induction requests generalizing server with
  | nil => exact h
  | cons request requests ih => exact ih (complete_keeps h)

/-- The sampler is the one that a request asks for exactly where it asks for the one of the server. -/
theorem sampling_iff (h : Keeps args detector server) :
    (parseRequest args request server.sampler).2.sampling = (askedSampler args request).sampling ↔
      (args.temperature = 0 ∧ request.temperature.getD args.temperature = 0 ∨
        args.temperature ≠ 0 ∧ args.temperature = request.temperature.getD args.temperature ∧
          (request.seed = none → server.sampler.rngState = args.seed) ∧
          (args.topp = request.topP.getD args.topp ∨
            (args.topp ≤ 0 ∨ 1 ≤ args.topp) ∧
              (request.topP.getD args.topp ≤ 0 ∨ 1 ≤ request.topP.getD args.topp))) := by
  have hseed : request.seed.getD server.sampler.rngState = request.seed.getD args.seed ↔
      (request.seed = none → server.sampler.rngState = args.seed) := by
    cases request.seed with
    | none => simp
    | some seed => simp
  rw [sampling_eq_iff, parseRequest_sampler]
  simp only [askedSampler, h.temperature, h.topp, hseed]

/-- A completion is governed by its request exactly where the request asks for what the server has. -/
theorem governed_iff_meets (h : Keeps args detector server) :
    Governed e world args detector server request ↔ Meets args detector server request := by
  constructor
  · intro hgoverned
    constructor
    · have hstops := hgoverned.stops
      rw [h.stops.pieces] at hstops
      unfold askedDetector at hstops
      simp only at hstops
      cases hstop : request.stop with
      | none => exact Or.inl (Eq.refl _)
      | some stop =>
        rw [hstop] at hstops
        exact Or.inr (congrArg some hstops.symm)
    · exact (sampling_iff h).mp hgoverned.sampling
  · intro hmeets
    have hsampling := (sampling_iff h).mpr hmeets.sampling
    have hstops : request.stop.getD detector.pieces = detector.pieces := by
      cases hmeets.stops with
      | inl hnone => rw [hnone, Option.getD_none]
      | inr hsome => rw [hsome, Option.getD_some]
    have hasked : (askedDetector detector request).reset =
        { server.detector.reset with eosPos := detector.eosPos } := by
      unfold askedDetector EosDetector.reset
      simp only [hstops, h.stops.tokens, h.stops.pieces, h.stops.paddingLeft, h.stops.paddingRight]
    refine ⟨hsampling, ?_, ?_⟩
    · unfold askedDetector
      simp only [hstops]
      exact h.stops.pieces
    · unfold complete World.generates
      rw [hasked]
      refine generate_congr ?_ _ ⟨Eq.refl _, hsampling⟩ _ _
      intro source source' hrelated
      obtain ⟨hmodel, hsampled⟩ := hrelated
      have hsample := sample_congr e hsampled (world.logits source.1)
      unfold World.next
      dsimp only
      rw [← hmodel, hsample.1]
      exact ⟨Eq.refl _, Eq.refl _, hsample.2⟩

/-- In every sequence of requests each completion is governed by its request alone exactly where each request asks
for what the server has. -/
theorem governed_iff (e : Exponential F) (world : World κ ι ρ F) (args : Args F) (conversation : κ)
    (detector : EosDetector) (requests : List (Request F ρ)) :
    (∀ before request after, requests = before ++ request :: after →
      Governed e world args detector (serverAfter e world args (started args conversation detector) before)
        request) ↔
    ∀ before request after, requests = before ++ request :: after →
      Meets args detector (serverAfter e world args (started args conversation detector) before) request := by
  have hstarted : Keeps args detector (started args conversation detector) :=
    ⟨Eq.refl _, Eq.refl _, Eq.refl _, Eq.refl _, Eq.refl _, Eq.refl _⟩
  have heach (before : List (Request F ρ)) (request : Request F ρ) :
      Governed e world args detector
          (serverAfter e world args (started args conversation detector) before) request ↔
        Meets args detector (serverAfter e world args (started args conversation detector) before) request :=
    governed_iff_meets (serverAfter_keeps hstarted before)
  constructor
  · intro h before request after hsplit
    exact (heach before request).mp (h before request after hsplit)
  · intro h before request after hsplit
    exact (heach before request).mpr (h before request after hsplit)

end Server

section Failing

/-- A world in which each completion has one token. -/
def oneToken : World Unit Unit Unit ℝ where
  begins _ _ := (1, ())
  logits _ := [0, 0]
  decode _ _ := (some [0x61], ())
  behind := 0
  ends _ _ _ _ := ()

/-- A command line. -/
def oneArgs : Args ℝ := ⟨1, 1, 5⟩

/-- A detector without stops. -/
def noStops : EosDetector := ⟨[], [], 0, 0, [], -1⟩

theorem started_keeps : Keeps oneArgs noStops (started oneArgs () noStops) :=
  ⟨Eq.refl _, Eq.refl _, Eq.refl _, Eq.refl _, Eq.refl _, Eq.refl _⟩

/-- After a request for a seed the random numbers go on from it. -/
theorem rngState_seven : (serverAfter realExponential oneToken oneArgs (started oneArgs () noStops)
    [⟨none, none, some 7, none, ()⟩]).sampler.rngState = xorshift 7 := by
  have hone : (1 : ℝ) ≠ 0 := one_ne_zero
  have hsource := generate_one_source (oneToken.next realExponential)
    ((), (⟨1, 1, 7⟩ : Sampler ℝ)) noStops.reset
  have hsampler : (serverAfter realExponential oneToken oneArgs (started oneArgs () noStops)
      [⟨none, none, some 7, none, ()⟩]).sampler =
        (oneToken.next realExponential ((), (⟨1, 1, 7⟩ : Sampler ℝ))).2.2 := congrArg Prod.snd hsource
  rw [hsampler]
  unfold World.next Sampler.sample
  simp only [if_neg hone]

/-- A request for the best token is sampled with the temperature of the server, and a request without a seed with
the random numbers of the request before it. -/
theorem not_governed :
    ¬Governed realExponential oneToken oneArgs noStops (started oneArgs () noStops)
      ⟨some 0, none, none, none, ()⟩ ∧
    ¬Governed realExponential oneToken oneArgs noStops
      (serverAfter realExponential oneToken oneArgs (started oneArgs () noStops)
        [⟨none, none, some 7, none, ()⟩]) ⟨none, none, none, none, ()⟩ := by
  have hone : (1 : ℝ) ≠ 0 := one_ne_zero
  constructor
  · rw [governed_iff_meets started_keeps]
    intro hmeets
    have hsampling := hmeets.sampling
    simp [oneArgs] at hsampling
  · rw [governed_iff_meets (serverAfter_keeps started_keeps _)]
    intro hmeets
    have hsampling := hmeets.sampling
    rw [rngState_seven] at hsampling
    have hne : xorshift 7 ≠ 5 := by decide
    simp [oneArgs, hne] at hsampling

end Failing

end LayerSkip.RequestParameters
