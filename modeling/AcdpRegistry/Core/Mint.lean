/-
  The pure part of `POST /key-attestations` (`acdp-registry-core/src/keyless/mint.rs`):
  the proof of possession and the algorithm, the window, and the attestation body
  that the registry publishes under its own DID.

  `MintApi` is what the protocol crate supplies.  A window opens at the registry's
  clock and closes after the requested time, the configured and the absolute
  maximum, or at the token's `exp`, whichever is first.
-/
import AcdpRegistry.Core.Publish
import AcdpRegistry.Lib.Instant

namespace AcdpRegistry

open Lib

/-! ## Requests -/

structure KeyAttestationRequest where
  controller : String
  identity : WorkloadIdentity
  token : String
  algorithm : String
  publicKeyJwk : Jwk
  pop : String
  requestedTtlSeconds : Option ℕ := none

structure VerifiedToken where
  /-- Unix seconds. -/
  exp : ℤ
  tokenHash : String

/-- A workload identity as its controller's DID document lists it. -/
structure ListedIdentity where
  identity : WorkloadIdentity
  orgWide : Bool

inductive KeylessRefusal
  | schemaViolation (msg : String)
  | issuerNotAccepted
  | tokenInvalid (why : String)
  | issuerUnreachable
  | audienceMismatch
  | confirmationMismatch
  deriving DecidableEq, Repr

def KeylessRefusal.intoError : KeylessRefusal → RegistryError
  | schemaViolation m => .acdp (.schemaViolation m)
  | issuerNotAccepted =>
    .withReason (.keyNotAuthorized "the workload token's issuer is not accepted by this registry")
      "issuer_not_accepted"
  | tokenInvalid why =>
    .withReason (.keyNotAuthorized s!"the workload token is invalid: {why}") "token_invalid"
  | issuerUnreachable =>
    .withReason (.keyResolutionUnreachable
      "the issuer's published keys could not be fetched; retry later") "issuer_unreachable"
  | audienceMismatch =>
    .withReason (.keyNotAuthorized "the workload token's aud does not contain this registry's DID")
      "audience_mismatch"
  | confirmationMismatch =>
    .withReason (.keyNotAuthorized
      "the workload token's cnf.jkt is not the thumbprint of public_key_jwk")
      "confirmation_mismatch"

structure ProducerDraft where
  agentId : String
  keyId : String
  title : String
  summary : String
  contextType : ContextType
  visibility : Visibility
  metadata : Json
  schemaUri : String
  acdpVersion : String

structure MintApi where
  acdp : AcdpApi
  /-- `Jwk::algorithm`. -/
  jwkAlgorithm : Jwk → Except AcdpError String
  /-- `Jwk::fingerprint`. -/
  jwkFingerprint : Jwk → Except AcdpError String
  /-- `Jwk::verify`. -/
  jwkVerify : Jwk → (algorithm pop preimage : String) → Except AcdpError Unit
  popPreimage : KeyAttestationRequest → (registryDid : String) → Except AcdpError String
  /-- A key attestation as JSON. -/
  attestationValue : KeyAttestation → Except AcdpError Json
  /-- `PublishRequestBuilder::build`: the content hash and the signature over it. -/
  produce : ProducerDraft → Except AcdpError (String × Signature)

structure MintConfig where
  registryDid : String
  keyId : String
  authority : String
  supportedSignatureAlgorithms : List String
  maxAttestationTtlSeconds : ℕ

/-! ## Steps -/

namespace Mint

variable (api : MintApi)

/-- `verify_pop`: the proof is checked under the key's own algorithm. -/
def verifyPop (req : KeyAttestationRequest) (registryDid : String) : Except RegistryError String := do
  let alg ← (api.jwkAlgorithm req.publicKeyJwk).mapError .acdp
  let preimage ← (api.popPreimage req registryDid).mapError .acdp
  (api.jwkVerify req.publicKeyJwk alg req.pop preimage).mapError fun e =>
    let text := api.acdp.display e
    .withReason (.keyless .popInvalid s!"pop does not verify under public_key_jwk: {text}")
      "pop_invalid"
  return alg

def checkAlgorithm (req : KeyAttestationRequest) (jwkAlgorithm : String) (supported : List String) :
    Except RegistryError Unit :=
  let algorithm := req.algorithm
  if algorithm ≠ jwkAlgorithm then
    .error (.acdp (.unsupportedAlgorithm
      s!"algorithm '{algorithm}' does not match the public_key_jwk key type ({jwkAlgorithm})"))
  else if jwkAlgorithm ∉ supported then
    .error (.acdp (.unsupportedAlgorithm
      s!"algorithm '{jwkAlgorithm}' is not supported by this registry"))
  else .ok ()

def defaultTtlSeconds : ℕ := 600

def maxWindowSeconds : ℕ := 3600

def instantOfMillis (ms : ℤ) : Except KeylessRefusal ℤ :=
  match Instant.ofMillis ms with
  | some t => .ok t
  | none => .error (.tokenInvalid "timestamp out of range")

def window (nowMs : ℤ) (requestedTtlSeconds : Option ℕ) (maxTtlSeconds : ℕ) (tokenExp : ℤ) :
    Except KeylessRefusal (ℤ × ℤ) :=
  let ttl : ℤ := min (min (requestedTtlSeconds.getD defaultTtlSeconds) maxTtlSeconds) maxWindowSeconds
  let notAfterMs := min (sat64 (nowMs + sat64 (ttl * 1000))) (sat64 (tokenExp * 1000))
  if notAfterMs ≤ nowMs then .error (.tokenInvalid "expired")
  else do
    let notBefore ← instantOfMillis nowMs
    let notAfter ← instantOfMillis notAfterMs
    return (notBefore, notAfter)

def attestation (req : KeyAttestationRequest) (algorithm : String) (entry : ListedIdentity)
    (window : ℤ × ℤ) (tokenHash : String) : Except AcdpError KeyAttestation := do
  let keyFingerprint ← api.jwkFingerprint req.publicKeyJwk
  let keyId ← api.acdp.keylessKeyId req.controller keyFingerprint
  return {
    controller := req.controller
    identity := entry.identity
    orgWide := entry.orgWide
    keyId := keyId
    algorithm := algorithm
    keyFingerprint := keyFingerprint
    notBefore := window.1
    notAfter := window.2
    tokenHash := tokenHash
    publicKeyJwk := req.publicKeyJwk }

def title : String := "Key attestation"

def acdpVersion : String := "0.5.0"

/-- `KEY_ATTESTATION_SCHEMA_URI`. -/
def schemaUri : String :=
  "https://schemas.agentcontextdistributionprotocol.io/v0.1.0/acdp-key-attestation.schema.json"

def summary (authority algorithm controller : String) : String :=
  s!"{authority} attests an ephemeral {algorithm} key for {controller} (RFC-ACDP-0021)."

/-- `build`: the publish request of an attestation. -/
def build (keyId authority : String) (att : KeyAttestation) : Except AcdpError PublishRequest := do
  let metadata ← api.attestationValue att
  let agentId := api.acdp.authorityToDidWeb authority
  let (contentHash, signature) ← api.produce {
    agentId := agentId
    keyId := keyId
    title := title
    summary := summary authority att.algorithm att.controller
    contextType := .custom keyAttestationType
    visibility := .public_
    metadata := metadata
    schemaUri := schemaUri
    acdpVersion := acdpVersion }
  return {
    agentId := agentId
    title := title
    summary := some (summary authority att.algorithm att.controller)
    visibility := .public_
    schemaUri := some schemaUri
    contextType := .custom keyAttestationType
    contentHash := contentHash
    signature := signature
    metadata := some metadata
    acdpVersion := some acdpVersion }

/-- Steps 4 to 8 of a mint: the publish request of a verified token, whose identity's listing step 6
    looks up. -/
def publishRequest (config : MintConfig) (req : KeyAttestationRequest) (verified : VerifiedToken)
    (listing : Except RegistryError ListedIdentity) (clockMs : ℤ) :
    Except RegistryError PublishRequest := do
  let algorithm ← verifyPop api req config.registryDid
  checkAlgorithm req algorithm config.supportedSignatureAlgorithms
  let entry ← listing
  let w ← (window clockMs req.requestedTtlSeconds config.maxAttestationTtlSeconds
    verified.exp).mapError KeylessRefusal.intoError
  let att ← (attestation api req algorithm entry w verified.tokenHash).mapError .acdp
  (build api config.keyId config.authority att).mapError fun e =>
    let text := api.acdp.display e
    .internal s!"building the key attestation: {text}"

end Mint

end AcdpRegistry
