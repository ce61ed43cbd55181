/-
  What a publish carries and what the tables keep of it.

  - `PublishRequest`, `Body` and `PublishResponse` have the members the publish
    path reads or derives something from; a body is made from its request by
    `Body.fromPublishRequest`, the source's single materialisation point;
  - `AcdpApi` holds the functions of the protocol crate that the store calls;
  - instants are nanoseconds, names ending in `Ms` are milliseconds.
-/
import AcdpRegistry.Store.Changes
import AcdpRegistry.Lib.Instant

namespace AcdpRegistry

inductive Status
  | active
  | superseded
  | expired
  | retracted
  deriving DecidableEq, Repr

def Status.asStr : Status → String
  | .active => "active"
  | .superseded => "superseded"
  | .expired => "expired"
  | .retracted => "retracted"

/-- `acdp::types::primitives::Visibility`; the names have an underscore where Lean reserves them. -/
inductive Visibility
  | public_
  | restricted
  | private_
  deriving DecidableEq, Repr

/-- `acdp::types::primitives::ContextType`, as far as the store tells types apart. -/
inductive ContextType
  | standard (name : String)
  | keyRevocation
  | custom (name : String)
  deriving DecidableEq, Repr

structure Signature where
  keyId : String
  algorithm : String
  value : String := ""
  deriving DecidableEq, Repr

structure KeyAttestationRef where
  ctxId : String
  contentHash : String
  deriving DecidableEq, Repr

structure DataPeriod where
  start : ℤ
  end_ : ℤ
  deriving DecidableEq, Repr

structure PublishRequest where
  agentId : String
  contributors : List String := []
  title : String := ""
  description : Option String := none
  summary : Option String := none
  domain : Option String := none
  tags : Option (List String) := none
  visibility : Visibility := .public_
  audience : Option (List String) := none
  derivedFrom : List String := []
  dataPeriod : Option DataPeriod := none
  schemaUri : Option String := none
  version : ℕ := 1
  supersedes : Option String := none
  lineageId : Option String := none
  contextType : ContextType := .standard "data"
  contentHash : String
  signature : Signature
  metadata : Option Json := none
  keyAttestation : Option KeyAttestationRef := none
  expiresAt : Option ℤ := none
  anchors : Option Json := none
  acdpVersion : Option String := none

structure Body where
  ctxId : String
  lineageId : String
  originRegistry : String
  createdAt : ℤ
  agentId : String
  contributors : List String
  title : String
  description : Option String
  summary : Option String
  domain : Option String
  tags : Option (List String)
  visibility : Visibility
  audience : Option (List String)
  derivedFrom : List String
  dataPeriod : Option DataPeriod
  schemaUri : Option String
  version : ℕ
  supersedes : Option String
  contextType : ContextType
  contentHash : String
  signature : Signature
  metadata : Option Json
  /-- `Body::key_attestation`: the member, if it is well formed. -/
  keyAttestation : Except String (Option KeyAttestationRef)
  expiresAt : Option ℤ

/-- The start of the millisecond. -/
def wholeMs (t : ℤ) : ℤ := t / 10 ^ 6 * 10 ^ 6

def timestampMillis (t : ℤ) : ℤ := t / 10 ^ 6

def Body.fromPublishRequest (req : PublishRequest) (ctxId lineageId authority : String)
    (createdAt : ℤ) : Body where
  ctxId := ctxId
  lineageId := lineageId
  originRegistry := authority
  createdAt := wholeMs createdAt
  agentId := req.agentId
  contributors := req.contributors
  title := req.title
  description := req.description
  summary := req.summary
  domain := req.domain
  tags := req.tags
  visibility := req.visibility
  audience := req.audience
  derivedFrom := req.derivedFrom
  dataPeriod := req.dataPeriod
  schemaUri := req.schemaUri
  version := req.version
  supersedes := req.supersedes
  contextType := req.contextType
  contentHash := req.contentHash
  signature := req.signature
  metadata := req.metadata
  keyAttestation := .ok req.keyAttestation
  expiresAt := req.expiresAt

structure PublishResponse where
  ctxId : String
  lineageId : String
  version : ℕ
  createdAt : ℤ
  status : Status
  registryReceipt : Option Json

inductive WorkloadIdentity
  | oidc (issuer subject : String)
  | spiffe (subject : String)
  deriving DecidableEq, Repr

/-- Who signed a body, for the keyless supersession rule. -/
inductive KeylessSigner
  | controller
  | keyless (identity : WorkloadIdentity) (orgWide : Bool)
  deriving DecidableEq, Repr

/-- A public key: the point of an Ed25519 key, or both coordinates of a P-256 key. -/
structure Jwk where
  kty : String
  crv : String
  x : String
  y : Option String := none
  deriving DecidableEq, Repr

/-- The metadata of a key attestation; its window is in nanoseconds. -/
structure KeyAttestation where
  controller : String
  identity : WorkloadIdentity
  orgWide : Bool
  keyId : String
  algorithm : String
  keyFingerprint : String
  notBefore : ℤ
  notAfter : ℤ
  tokenHash : String
  publicKeyJwk : Jwk
  deriving DecidableEq, Repr

inductive LifecycleEventType
  | retracted
  | republished
  | other (name : String)
  deriving DecidableEq, Repr

structure LifecycleEvent where
  eventId : String
  ctxId : String
  eventType : LifecycleEventType
  occurredAt : ℤ
  actor : String
  reason : Option String := none
  signature : Option Signature := none
  deriving DecidableEq, Repr

structure EventReceipt where
  ctxId : String
  eventId : String
  index : ℕ
  acceptedAt : ℤ
  signature : String := ""
  deriving DecidableEq, Repr

/-- The last retraction or republication is a retraction. -/
def lastRetracts (events : List LifecycleEvent) : Bool :=
  events.foldl (fun retracted e =>
    match e.eventType with
    | .retracted => true
    | .republished => false
    | .other _ => retracted) false

/-- A transparency-log leaf before it is serialised. -/
structure LogLeaf where
  leafVersion : String
  ctxId : String
  lineageId : String
  originRegistry : String
  createdAt : ℤ
  contentHash : String
  keyFingerprint : String
  receiptHash : String

/-- The functions of the protocol crate that the stores call, with what it documents of two of them. -/
structure AcdpApi where
  /-- `acdp::time::trunc_ms`. -/
  truncMs : ℤ → ℤ
  truncMs_eq : ∀ t, truncMs t = wholeMs t
  /-- `acdp::types::lifecycle::retraction_state`. -/
  retractionState : List LifecycleEvent → Bool
  retractionState_eq : ∀ events, retractionState events = lastRetracts events
  /-- `assign_identifiers`, with the random context id it draws as its first argument. -/
  assignIdentifiers : String → (authority : String) → (supersedes firstV1 : Option String) →
    (recomputedHash : String) → Except AcdpError (String × String)
  authorityToDidWeb : String → String
  isKeylessKeyId : String → Bool
  keylessKeyId : (controller fingerprint : String) → Except AcdpError String
  maySupersede : (predecessor successor : KeylessSigner) → Except KeylessReason Unit
  /-- `KeyAttestation::from_body`. -/
  keyAttestationFromBody : Body → Except AcdpError KeyAttestation
  /-- `RegistryReceipt::preimage_hash_of_value`. -/
  receiptHash : Json → Except AcdpError String
  /-- `LogLeaf::canonical_bytes`, as text. -/
  leafCanonical : LogLeaf → Except AcdpError String
  /-- `merkle::leaf_hash` in hex. -/
  leafHash : String → String
  logLeafVersion : String
  /-- An instant as RFC 3339 text with milliseconds. -/
  formatMs : ℤ → String
  display : AcdpError → String
  displayJson : Json → String
  bucketHash : String → String
  /-- A lifecycle event as it is persisted and served. -/
  eventValue : LifecycleEvent → Except AcdpError Json
  receiptValue : EventReceipt → Except AcdpError Json
  eventReceiptFromValue : Json → Except AcdpError EventReceipt
  changes : ChangeApi

end AcdpRegistry
