/-
  Bearer tokens and their revocation (`acdp-registry-auth`): `JwtSigner::validate`,
  the three revocation stores, the revocation poller's `apply_entries`, and the
  token issue and revoke calls of the auth service.

  A store is its table; an event is one store call, at the instant the caller's
  clock shows.  `validate` reads the clock twice, once to decode and once for the
  revocation check.
-/
import AcdpRegistry.Lib.Rfc3339

namespace AcdpRegistry.Auth

open Lib

inductive AuthError
  | storage (msg : String)
  | challengeUnknown (msg : String)
  | challengeExpired
  | challengeReplay (msg : String)
  | resolution (msg : String)
  | resolutionUnreachable (msg : String)
  | keyIdMalformed (msg : String)
  | keyIdMismatch
  | keyNotAssertion
  | unsupportedDidMethod (msg : String)
  | algorithmNotSupported (msg : String)
  | signatureInvalid (msg : String)
  | tokenInvalid (msg : String)
  | internal (msg : String)
  deriving DecidableEq, Repr

structure BearerClaims where
  sub : String
  jti : String
  exp : ℤ
  registry : String
  deriving DecidableEq, Repr

structure RevocationRecord where
  jti : String
  agentDid : String
  expiresAt : ℤ
  deriving DecidableEq, Repr

/-- A row of `issued_tokens`, or an `InMemoryEntry`. -/
structure Entry where
  record : RevocationRecord
  revoked : Bool
  deriving DecidableEq, Repr

inductive Backend
  | memory
  | sqlite
  | postgres
  deriving DecidableEq, Repr

/-- How a backend keeps an instant: a Postgres timestamp has whole microseconds. -/
def Backend.stamp : Backend → ℤ → ℤ
  | .memory, t | .sqlite, t => t
  | .postgres, t => t / 1000 * 1000

/-- Whether a row with this expiry is one that the eviction at a cutoff deletes.  SQLite compares the
    RFC 3339 texts. -/
def Backend.expired : Backend → (expiresAt cutoff : ℤ) → Bool
  | .memory, x, c => x ≤ c
  | .sqlite, x, c => Rfc3339.render x ≤ Rfc3339.render c
  | .postgres, x, c => x ≤ c / 1000 * 1000

/-- The rows by `jti`. -/
abbrev RevocationStore := String → Option Entry

namespace RevocationStore

variable (b : Backend)

/-- The row `record_issued` leaves: a revoked row is never downgraded, and the SQL stores keep any row
    they have. -/
def issuedEntry (r : RevocationRecord) : Option Entry → Entry
  | none => ⟨{ r with expiresAt := b.stamp r.expiresAt }, false⟩
  | some e =>
    if b = .memory ∧ e.revoked = false then ⟨{ r with expiresAt := b.stamp r.expiresAt }, false⟩ else e

variable (s : RevocationStore)

def recordIssued (r : RevocationRecord) : RevocationStore :=
  Function.update s r.jti (some (issuedEntry b r (s r.jti)))

/-- The row `revoke` leaves: an existing row keeps its record. -/
def revokedEntry (r : RevocationRecord) : Option Entry → Entry
  | some e => { e with revoked := true }
  | none => ⟨{ r with expiresAt := b.stamp r.expiresAt }, true⟩

def revoke (r : RevocationRecord) : RevocationStore :=
  Function.update s r.jti (some (revokedEntry b r (s r.jti)))

/-- `is_revoked`.  SQLite parses the text of the expiry, which fails for a year that is not of four
    digits. -/
def isRevoked (jti : String) (cutoff : ℤ) : Except AuthError Bool :=
  match s jti with
  | some ⟨record, true⟩ =>
    if b = .sqlite ∧ ¬Rfc3339.InYears record.expiresAt then
      .error (.storage "input contains invalid characters")
    else .ok (record.expiresAt > cutoff)
  | _ => .ok false

def evictExpired (cutoff : ℤ) : RevocationStore :=
  fun jti => (s jti).filter fun e => !b.expired e.record.expiresAt cutoff

end RevocationStore

/-- `tombstone_cutoff`; the leeway is cast to a signed word.  `none` is a panic. -/
def tombstoneCutoff (now : ℤ) (leewaySeconds : ℕ) : Option ℤ :=
  Instant.addSeconds now (-(leewaySeconds : ℤ).bmod (2 ^ 64))

/-- A signer's registry and leeway, and the token library's check of a token text. -/
structure JwtSigner where
  registryAuthority : String
  leewaySeconds : ℕ
  decodeClaims : String → Except String BearerClaims

/-- `jsonwebtoken::decode` at an instant: `exp` is checked in whole seconds, with the leeway. -/
def JwtSigner.decode (signer : JwtSigner) (now : ℤ) (token : String) :
    Except String BearerClaims :=
  match signer.decodeClaims token with
  | .error e => .error e
  | .ok claims =>
    if claims.exp < Instant.unix now - signer.leewaySeconds then .error "ExpiredSignature"
    else .ok claims

/-- `JwtSigner::validate`, decoding at `decodeAt` and checking the revocation store at `now`.
    `none` is a panic. -/
def JwtSigner.validate (signer : JwtSigner) (b : Backend) (store : RevocationStore)
    (decodeAt now : ℤ) (token : String) : Option (Except AuthError BearerClaims) :=
  match signer.decode decodeAt token with
  | .error e => some (.error (.tokenInvalid e))
  | .ok claims =>
    if claims.registry ≠ signer.registryAuthority then
      let claim := claims.registry
      let authority := signer.registryAuthority
      some (.error (.tokenInvalid s!"wrong registry: claim '{claim}' vs '{authority}'"))
    else
      (tombstoneCutoff now signer.leewaySeconds).map fun cutoff =>
        match store.isRevoked b claims.jti cutoff with
        | .error e => .error e
        | .ok true =>
          let jti := claims.jti
          .error (.tokenInvalid s!"token jti '{jti}' has been revoked")
        | .ok false => .ok claims

structure FeedEntry where
  iss : String
  jti : String
  sub : String
  exp : ℤ
  deriving DecidableEq, Repr

/-- `apply_entries`: entries of another issuer, or with an expiry outside the calendar, are dropped. -/
def applyEntries (b : Backend) (issuer : String) (entries : List FeedEntry) (s : RevocationStore) :
    RevocationStore :=
  entries.foldl (fun s e =>
    if e.iss ≠ "" ∧ e.iss ≠ issuer then s
    else
      match Instant.check (Instant.ofUnix e.exp) with
      | some expiresAt => s.revoke b ⟨e.jti, e.sub, expiresAt⟩
      | none => s) s

/-- The store call of `issue_token`: the row of the fresh `jti`, and the `exp` claim in whole seconds. -/
def issueToken (b : Backend) (ttl : ℕ) (now : ℤ) (jti agent : String) (s : RevocationStore) :
    Option (RevocationStore × ℤ) :=
  (Instant.addSeconds now ((ttl : ℤ).bmod (2 ^ 64))).map fun exp =>
    (s.recordIssued b ⟨jti, agent, exp⟩, Instant.unix exp)

/-- The store call of `revoke_token`, with the owner its earlier `owner_of` call read. -/
def revokeToken (b : Backend) (ttl : ℕ) (now : ℤ) (jti caller : String)
    (owner : Option String) (s : RevocationStore) : Option (Except AuthError Unit × RevocationStore) :=
  match owner with
  | none => some (.error (.tokenInvalid s!"no record for jti '{jti}'"), s)
  | some owner =>
    if owner ≠ caller then
      some (.error (.tokenInvalid "may only revoke tokens issued to the calling DID"), s)
    else
      (Instant.addSeconds now ((ttl : ℤ).bmod (2 ^ 64))).map fun expiresAt =>
        (.ok (), s.revoke b ⟨jti, owner, expiresAt⟩)

end AcdpRegistry.Auth
