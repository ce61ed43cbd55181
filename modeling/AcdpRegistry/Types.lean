/-
  The values the registry's crates share.

  - `Json` is a JSON value; events and receipts are stored and served as such;
  - `AcdpError` and `RegistryError` are the errors the modelled functions
    return, with the texts the source gives them;
  - identifiers (DIDs, context ids, lineage ids, hashes) are strings; instants
    are whole numbers of the unit the field's name says.
-/
import Mathlib.Data.Int.Notation
import Mathlib.Data.Nat.Notation

namespace AcdpRegistry

/-- A JSON value, as `serde_json::Value` holds it. -/
inductive Json
  | null
  | bool (b : Bool)
  | number (n : ℤ)
  | string (s : String)
  | array (vs : List Json)
  | object (ms : List (String × Json))

instance : Inhabited Json := ⟨.null⟩

def Json.get? : Json → String → Option Json
  | .object ms, k => (ms.find? fun m => m.1 == k).map Prod.snd
  | _, _ => none

/-- Why a `supersedes` target is refused, `acdp::error::SupersessionReason`. -/
inductive SupersessionReason
  | notFound
  | lineageMismatch
  | versionMismatch
  | alreadySuperseded
  deriving DecidableEq, Repr

/-- Why a keyless request is refused, `acdp::types::keyless::KeylessReason`. -/
inductive KeylessReason
  | tokenReplayed
  | popInvalid
  | identityNotAuthorized
  | attestationMissing
  | attestationForeign
  | attestationNotFound
  | attestationMismatch
  | attestationWithdrawn
  | outsideAttestationWindow
  | keylessIdentityMismatch
  deriving DecidableEq, Repr

/-- The protocol-level errors, `acdp::error::AcdpError`. -/
inductive AcdpError
  | schemaViolation (msg : String)
  | notFound (msg : String)
  | notAuthorized (msg : String)
  | notImplemented (msg : String)
  | registryInternal (msg : String)
  | cursorExpired
  | invalidCursor (msg : String)
  | duplicatePublish (msg : String)
  | supersededTarget (reason : SupersessionReason) (msg : String)
  | invalidLifecycleTransition (msg : String)
  | invalidSignature (msg : String)
  | keyResolution (msg : String)
  | keyResolutionUnreachable (msg : String)
  | keyNotAuthorized (msg : String)
  | unsupportedAlgorithm (msg : String)
  | invalidWitnessCosignature (msg : String)
  /-- `KeylessReason::error`. -/
  | keyless (reason : KeylessReason) (msg : String)
  deriving DecidableEq, Repr

/-- The registry's errors, `acdp_registry_types::RegistryError`. -/
inductive RegistryError
  | acdp (e : AcdpError)
  | config (msg : String)
  | authChallenge (msg : String)
  | authToken (msg : String)
  | rateLimited (retryAfterSeconds : ℕ)
  /-- A protocol error with its reason token in `details.reason`. -/
  | withReason (inner : AcdpError) (reason : String)
  | fieldViolation (field msg : String)
  | internal (msg : String)
  deriving DecidableEq, Repr

/-- The kind of a feed entry (RFC-ACDP-0018 §4). -/
inductive ChangeKind
  | lifecycle
  | superseded
  | keyRevocation
  deriving DecidableEq, Repr

def ChangeKind.asStr : ChangeKind → String
  | .lifecycle => "lifecycle"
  | .superseded => "superseded"
  | .keyRevocation => "key_revocation"

/-- `char::is_whitespace`: the `White_Space` property. -/
def isWhitespace (c : Char) : Bool :=
  let n := c.toNat
  (0x9 ≤ n && n ≤ 0xD) || n = 0x20 || n = 0x85 || n = 0xA0 || n = 0x1680 ||
    (0x2000 ≤ n && n ≤ 0x200A) || n = 0x2028 || n = 0x2029 || n = 0x202F || n = 0x205F || n = 0x3000

end AcdpRegistry
