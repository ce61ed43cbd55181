/-
  The DID handshake (`acdp-registry-auth/src/service.rs`, `challenge_store.rs`): the
  three challenge stores, `issue_challenge` and `issue_token`.

  A call is a program of store actions.  `put`, `take` and `evict_expired` are one
  statement each, or one critical section; whatever else a call does comes between
  them.  `AuthApi` holds the text forms of nonces and instants and the protocol
  crate's did:key and signature functions.  What a call draws from outside (the
  clock, random bytes, DID documents, faults of the store) is its draw.
-/
import AcdpRegistry.Auth.Revocation
import AcdpRegistry.Lib.Handler
import AcdpRegistry.Lib.Proc
import AcdpRegistry.Types

namespace AcdpRegistry.Auth

open Lib

/-! ## Records -/

inductive DidKeyMaterial
  | ed25519 (bytes : List UInt8)
  | ecdsaP256 (bytes : List UInt8)
  deriving DecidableEq, Repr

def DidKeyMaterial.algorithm : DidKeyMaterial → String
  | .ed25519 _ => "ed25519"
  | .ecdsaP256 _ => "ecdsa-p256"

def DidKeyMaterial.bytes : DidKeyMaterial → List UInt8
  | .ed25519 b | .ecdsaP256 b => b

structure VerificationMethod where
  declaredAlgorithm : Option String
  ed25519PublicKeyBytes : Except String (List UInt8)
  ecdsaP256PublicKeySec1 : Except String (List UInt8)

/-- A DID document, as `issue_token` reads it. -/
structure DidDocument where
  findByFragment : String → Option VerificationMethod
  isAssertionMethod : String → Bool

structure AuthApi where
  /-- `URL_SAFE_NO_PAD.encode`. -/
  encodeNonce : List UInt8 → String
  toRfc3339 : ℤ → String
  parseRfc3339 : String → Except String ℤ
  resolveDidKey : String → Except AcdpError DidKeyMaterial
  verifyEd25519 : (key : List UInt8) → (signature input : String) → Except AcdpError Unit
  verifyEcdsaP256 : (key : List UInt8) → (signature input : String) → Except AcdpError Unit
  display : AcdpError → String

structure ChallengeRecord where
  nonce : String
  agentId : String
  expiresAt : ℤ
  deriving DecidableEq, Repr

structure AuthChallenge where
  nonce : String
  registryAuthority : String
  expiresAt : ℤ
  signingInput : String
  deriving DecidableEq, Repr

def signingInput (nonce agentId authority : String) (expiresAt : ℤ) : String :=
  s!"acdp-registry-auth:v1:{nonce}:{agentId}:{authority}:{expiresAt}"

structure TokenRequest where
  agentId : String
  keyId : String
  nonce : String
  expiresAt : ℤ
  algorithm : String
  signature : String
  deriving DecidableEq, Repr

structure TokenResponse where
  token : String
  tokenType : String
  expiresAt : ℤ
  deriving DecidableEq, Repr

structure IssuedClaims extends BearerClaims where
  iss : String
  aud : String
  iat : ℤ
  keyId : String
  tenant : Option String
  deriving DecidableEq, Repr

/-! ## Challenge stores -/

abbrev Challenges (ρ : Type) := String → Option ρ

/-- The calls of a challenge store with rows `ρ`; `take` reads the clock after it has removed the row. -/
structure ChallengeStore (ρ : Type) where
  put : ChallengeRecord → Challenges ρ → Except AuthError Unit × Challenges ρ
  take : (nonce : String) → (now : ℤ) → Challenges ρ →
    Except AuthError (Option ChallengeRecord) × Challenges ρ
  evictExpired : (now : ℤ) → Challenges ρ → Challenges ρ

section

variable {ρ : Type}

def insertNew (nonce : String) (row : ρ) (t : Challenges ρ) : Except AuthError Unit × Challenges ρ :=
  match t nonce with
  | some _ => (.error (.challengeReplay "duplicate nonce"), t)
  | none => (.ok (), Function.update t nonce (some row))

def removeRow (nonce : String) (read : ρ → Except AuthError (Option ChallengeRecord))
    (t : Challenges ρ) : Except AuthError (Option ChallengeRecord) × Challenges ρ :=
  ((t nonce).elim (.ok none) read, Function.update t nonce none)

end

def inMemoryChallengeStore : ChallengeStore ChallengeRecord where
  put record := insertNew record.nonce record
  take nonce now := removeRow nonce fun r => .ok (if r.expiresAt ≤ now then none else some r)
  evictExpired now t := fun nonce => (t nonce).filter fun r => r.expiresAt > now

/-- An `auth_challenges` row with instants kept as `τ`. -/
structure ChallengeRow (τ : Type) where
  agentId : String
  expiresAt : τ
  deriving DecidableEq, Repr

/-- The end of the SQL stores' `take`: a row that has expired or has no agent is a missing one. -/
def takenRecord (nonce agentId : String) (expiresAt now : ℤ) : Option ChallengeRecord :=
  if expiresAt ≤ now ∨ agentId = "" then none else some ⟨nonce, agentId, expiresAt⟩

/-- `SqliteChallengeStore`: instants are RFC 3339 texts, and eviction compares the texts. -/
def sqliteChallengeStore (api : AuthApi) : ChallengeStore (ChallengeRow String) where
  put record := insertNew record.nonce ⟨record.agentId, api.toRfc3339 record.expiresAt⟩
  take nonce now := removeRow nonce fun row =>
    match api.parseRfc3339 row.expiresAt with
    | .error e => .error (.storage e)
    | .ok expiresAt => .ok (takenRecord nonce row.agentId expiresAt now)
  evictExpired now t := fun nonce => (t nonce).filter fun row => ¬row.expiresAt ≤ api.toRfc3339 now

def pgChallengeStore : ChallengeStore (ChallengeRow ℤ) where
  put record := insertNew record.nonce ⟨record.agentId, Backend.postgres.stamp record.expiresAt⟩
  take nonce now := removeRow nonce fun row =>
    .ok (takenRecord nonce row.agentId row.expiresAt now)
  evictExpired now t := fun nonce =>
    (t nonce).filter fun row => row.expiresAt > Backend.postgres.stamp now

def Backend.Row : Backend → Type
  | .memory => ChallengeRecord
  | .sqlite => ChallengeRow String
  | .postgres => ChallengeRow ℤ

def Backend.challengeStore (api : AuthApi) : (b : Backend) → ChallengeStore b.Row
  | .memory => inMemoryChallengeStore
  | .sqlite => sqliteChallengeStore api
  | .postgres => pgChallengeStore

/-! ## Store actions -/

/-- What goes wrong with a store call: it is not made, or it is made and its answer is lost. -/
inductive Fault
  | notMade (e : AuthError)
  | answerLost (e : AuthError)
  deriving DecidableEq, Repr

/-- The error of a call; an instant outside the calendar is a panic. -/
inductive AuthFailure
  | error (e : AuthError)
  | panic
  deriving DecidableEq, Repr

/-- What the service's calls work on: the challenge table and the revocation store. -/
structure AuthState (ρ : Type) where
  challenges : Challenges ρ
  revocations : RevocationStore

section

variable {σ ρ α : Type}

/-- A store call, and what is left of it under a fault. -/
def withFault (fault : Option Fault) (op : σ → Except AuthError α × σ) (s : σ) :
    Except AuthFailure α × σ :=
  match fault with
  | none => ((op s).1.mapError .error, (op s).2)
  | some (.notMade e) => (.error (.error e), s)
  | some (.answerLost e) => (.error (.error e), (op s).2)

def onChallenges (op : Challenges ρ → α × Challenges ρ) (s : AuthState ρ) : α × AuthState ρ :=
  ((op s.challenges).1, { s with challenges := (op s.challenges).2 })

def challengeCall (fault : Option Fault)
    (op : Challenges ρ → Except AuthError α × Challenges ρ) : Proc (AuthState ρ) AuthFailure α :=
  .call (onChallenges (withFault fault op))

end

/-! ## The service -/

structure AuthConfig where
  challengeTtlSeconds : ℕ
  tokenTtlSeconds : ℕ
  didMethods : List String := ["did:web"]
  tenantAgents : List (String × String) := []

/-- `encode` signs claims with the signer's key; `revocations` is the revocation store's backend, if
    there is one. -/
structure AuthService where
  config : AuthConfig
  authority : String
  issuer : String
  encode : IssuedClaims → Except String String
  revocations : Option Backend

structure ChallengeDraw where
  nonceBytes : List UInt8
  now : ℤ
  putFault : Option Fault := none

/-- What an `issue_token` call draws: `take` and the rest of the call read the clock on their own. -/
structure TokenDraw where
  takenAt : ℤ
  now : ℤ
  /-- `resolve_with_fragment` of the DID resolver. -/
  resolve : (did fragment : String) → Except AcdpError DidDocument
  jti : String
  takeFault : Option Fault := none
  recordFault : Option Fault := none

def isDidWeb (did : String) : Bool := "did:web:".toList.isPrefixOf did.toList

def isDidKey (did : String) : Bool := "did:key:".toList.isPrefixOf did.toList

/-- The DID-method and length screen of `issue_challenge`; the length is in bytes. -/
def screensAgentId (agentId : String) : Bool :=
  (isDidWeb agentId || isDidKey agentId) && 9 ≤ agentId.utf8ByteSize && agentId.utf8ByteSize ≤ 2048

/-- An instant plus a number of seconds, cast to a signed word. -/
def plusSeconds (now : ℤ) (seconds : ℕ) : Except AuthFailure ℤ :=
  match Instant.addSeconds now ((seconds : ℤ).bmod (2 ^ 64)) with
  | some t => .ok t
  | none => .error .panic

def required {ε α : Type} (x : Option α) (e : ε) : Except ε α := x.elim (.error e) .ok

namespace AuthService

variable (api : AuthApi) (svc : AuthService)

def issueChallenge {ρ : Type} (store : ChallengeStore ρ) (agentId : String) (draw : ChallengeDraw) :
    Proc (AuthState ρ) AuthFailure AuthChallenge := do
  .lift (ensure (screensAgentId agentId) (.error (.unsupportedDidMethod agentId)))
  let nonce := api.encodeNonce draw.nonceBytes
  let expiresAt ← .lift (plusSeconds draw.now svc.config.challengeTtlSeconds)
  challengeCall draw.putFault (store.put ⟨nonce, agentId, expiresAt⟩)
  return ⟨nonce, svc.authority, Instant.unix expiresAt,
    signingInput nonce agentId svc.authority (Instant.unix expiresAt)⟩

/-- The parts of a key id between its `#`s. -/
def keyIdParts (keyId : String) : List String := (keyId.toList.splitOn '#').map String.ofList

/-- An algorithm that the verification method declares is the requested one. -/
def checkDeclared (algorithm : String) : Option String → Except AuthError Unit
  | none => .ok ()
  | some declared => ensure (declared = algorithm) (.algorithmNotSupported
      (s!"request algorithm '{algorithm}' does not match verification method type " ++
        s!"(declared '{declared}')"))

/-- The key of a verification method, decoded for the requested algorithm. -/
def decodeKey (algorithm : String) (vm : VerificationMethod) : Except AuthError (List UInt8) :=
  if algorithm = "ed25519" then
    vm.ed25519PublicKeyBytes.mapError fun e => .resolution s!"key decode: {e}"
  else if algorithm = "ecdsa-p256" then
    vm.ecdsaP256PublicKeySec1.mapError fun e => .resolution s!"key decode: {e}"
  else .error (.algorithmNotSupported algorithm)

variable (draw : TokenDraw)

variable (req : TokenRequest)

/-- The key of a did:web agent: an assertion method of its DID document. -/
def didWebKey (didPortion fragment : String) :
    Except AuthError (List UInt8) := do
  let doc ← (draw.resolve didPortion fragment).mapError fun
    | .keyResolutionUnreachable m => .resolutionUnreachable m
    | other => .resolution (api.display other)
  let vm ← required (doc.findByFragment fragment)
    (.keyIdMalformed s!"fragment '{fragment}' not in DID doc")
  ensure (doc.isAssertionMethod req.keyId) .keyNotAssertion
  checkDeclared req.algorithm vm.declaredAlgorithm
  decodeKey req.algorithm vm

def didKeyKey (didPortion fragment : String) :
    Except AuthError (List UInt8) := do
  ensure ("did:key" ∈ svc.config.didMethods) (.unsupportedDidMethod didPortion)
  let msi := String.ofList (didPortion.toList.drop "did:key:".length)
  ensure (fragment = msi) (.keyIdMalformed
    s!"did:key fragment '{fragment}' does not match method-specific id '{msi}'")
  let material ← (api.resolveDidKey didPortion).mapError fun e => .resolution (api.display e)
  let requested := req.algorithm
  let algorithm := material.algorithm
  ensure (material.algorithm = req.algorithm) (.algorithmNotSupported
    s!"request algorithm '{requested}' does not match did:key algorithm '{algorithm}'")
  .ok material.bytes

def signingKey (didPortion fragment : String) :
    Except AuthError (List UInt8) :=
  if isDidWeb didPortion then didWebKey api draw req didPortion fragment
  else if isDidKey didPortion then svc.didKeyKey api req didPortion fragment
  else .error (.unsupportedDidMethod didPortion)

def verifySignature (algorithm : String) (key : List UInt8) (signature input : String) :
    Except AuthError Unit :=
  if algorithm = "ed25519" then do
    let length := key.length
    ensure (key.length = 32) (.resolution s!"ed25519 key must be 32 bytes, got {length}")
    (api.verifyEd25519 key signature input).mapError fun e => .signatureInvalid (api.display e)
  else if algorithm = "ecdsa-p256" then
    (api.verifyEcdsaP256 key signature input).mapError fun e => .signatureInvalid (api.display e)
  else .error (.algorithmNotSupported algorithm)

/-- The checks of `issue_token` on the challenge it has taken. -/
def authenticate (record : ChallengeRecord) :
    Except AuthError Unit := do
  ensure (record.agentId = req.agentId) (.challengeUnknown "challenge agent_id mismatch")
  ensure (Instant.unix record.expiresAt = req.expiresAt)
    (.challengeUnknown "challenge expires_at mismatch")
  ensure (Instant.unix draw.now ≤ req.expiresAt) .challengeExpired
  ensure (req.algorithm = "ed25519" ∨ req.algorithm = "ecdsa-p256")
    (.algorithmNotSupported req.algorithm)
  let didPortion ← required ((keyIdParts req.keyId)[0]?.filter (· ≠ "")) (.keyIdMalformed req.keyId)
  ensure (didPortion = req.agentId) .keyIdMismatch
  let fragment ← required (keyIdParts req.keyId)[1]? (.keyIdMalformed req.keyId)
  let key ← svc.signingKey api draw req didPortion fragment
  verifySignature api req.algorithm key req.signature
    (signingInput req.nonce req.agentId svc.authority req.expiresAt)

/-- The claims of the token for a request, which expires at `exp`. -/
def claims (exp : ℤ) : IssuedClaims where
  sub := req.agentId
  jti := draw.jti
  exp := Instant.unix exp
  registry := svc.authority
  iss := svc.issuer
  aud := svc.authority
  iat := Instant.unix draw.now
  keyId := req.keyId
  tenant := (svc.config.tenantAgents.find? (·.1 = req.agentId)).map (·.2)

def sign (claims : IssuedClaims) : Except AuthError String :=
  (svc.encode claims).mapError fun e => .internal s!"jwt sign: {e}"

def recordIssued {ρ : Type} (record : RevocationRecord) :
    Proc (AuthState ρ) AuthFailure Unit :=
  match svc.revocations with
  | none => .ret ()
  | some b => .call fun s =>
    let r := withFault draw.recordFault (fun t : RevocationStore => (.ok (), t.recordIssued b record))
      s.revocations
    (r.1, { s with revocations := r.2 })

/-- `issue_token` once the challenge is taken. -/
def redeem {ρ : Type} (draw : TokenDraw) (taken : Option ChallengeRecord) :
    Proc (AuthState ρ) AuthFailure TokenResponse := do
  let record ← .lift (required taken (.error (.challengeUnknown req.nonce)))
  .lift ((svc.authenticate api draw req record).mapError .error)
  let exp ← .lift (plusSeconds draw.now svc.config.tokenTtlSeconds)
  let token ← .lift ((svc.sign (svc.claims draw req exp)).mapError .error)
  svc.recordIssued draw ⟨draw.jti, req.agentId, exp⟩
  return ⟨token, "Bearer", Instant.unix exp⟩

def issueToken {ρ : Type} (store : ChallengeStore ρ) (req : TokenRequest) (draw : TokenDraw) :
    Proc (AuthState ρ) AuthFailure TokenResponse :=
  challengeCall draw.takeFault (store.take req.nonce draw.takenAt) >>= svc.redeem api req draw

end AuthService

/-! ## Calls side by side -/

inductive AuthCall
  | challenge (svc : AuthService) (agentId : String) (draw : ChallengeDraw)
  | token (svc : AuthService) (req : TokenRequest) (draw : TokenDraw)
  | evict (now : ℤ) (fault : Option Fault)

inductive AuthReply
  | challenge (c : AuthChallenge)
  | token (t : TokenResponse)
  | evicted
  deriving DecidableEq, Repr

def AuthCall.proc (api : AuthApi) {ρ : Type} (store : ChallengeStore ρ) :
    AuthCall → Proc (AuthState ρ) AuthFailure AuthReply
  | .challenge svc agentId draw => do
    let c ← svc.issueChallenge api store agentId draw
    return .challenge c
  | .token svc req draw => do
    let t ← svc.issueToken api store req draw
    return .token t
  | .evict now fault => do
    challengeCall fault fun t => (.ok (), store.evictExpired now t)
    return .evicted

/-- What happens next: a call makes an action, or other calls change the revocation store. -/
inductive AuthMove (ι : Type)
  | call (i : ι)
  | revocations (f : RevocationStore → RevocationStore)

def AuthMove.move {ι ρ : Type} : AuthMove ι → Move ι (AuthState ρ)
  | .call i => .proc i
  | .revocations f => .env fun s => { s with revocations := f s.revocations }

def authPool {ι : Type} (api : AuthApi) {ρ : Type} (store : ChallengeStore ρ) (calls : ι → AuthCall)
    (revocations : RevocationStore) : Pool ι (AuthState ρ) AuthFailure AuthReply where
  state := ⟨fun _ => none, revocations⟩
  procs i := (calls i).proc api store

def authRun {ι : Type} [DecidableEq ι] (api : AuthApi) {ρ : Type} (store : ChallengeStore ρ)
    (calls : ι → AuthCall) (revocations : RevocationStore) (moves : ℕ → AuthMove ι) (n : ℕ) :
    Pool ι (AuthState ρ) AuthFailure AuthReply :=
  (authPool api store calls revocations).run (fun n => (moves n).move) n

end AcdpRegistry.Auth
