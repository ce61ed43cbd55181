/-
  The configuration behind `acdp-registry-keyless` and its startup validation
  (`acdp-registry-types/src/config.rs`, `validate_keyless_at` of the server).

  A `RegistryConfig` has the settings that the validation or the mint handler
  reads.  `isHttpsUrl` is the URL parser's test for an absolute `https` URL with a
  host.
-/
import AcdpRegistry.Core.Publish

namespace AcdpRegistry

open Lib

/-! ## Settings -/

structure OidcIssuer where
  issuer : String
  jwksUri : Option String := none
  deriving DecidableEq, Repr

structure SpiffeDomain where
  trustDomain : String
  bundleEndpoint : String
  deriving DecidableEq, Repr

structure KeylessConfig where
  enabled : Bool := false
  maxAttestationTtlSeconds : ℕ := 600
  oidcIssuers : List OidcIssuer := []
  spiffeTrustDomains : List SpiffeDomain := []
  jwksCacheTtlSeconds : ℕ := 300
  jwksMaxStaleSeconds : ℕ := 3600
  fetchTimeoutMs : ℕ := 5000
  maxFetchBytes : ℕ := 65536

/-- `[receipt]`: where the signing key comes from. -/
structure ReceiptConfig where
  signingKeySeedB64 : String := ""
  signingKeyPath : Option String := none

structure RegistryConfig where
  authority : String
  profiles : List String := []
  /-- `auth.anonymous_public_reads`, which the capabilities repeat. -/
  anonymousPublicReads : Bool := false
  lifecycleEnabled : Bool := false
  logEnabled : Bool := false
  receipt : ReceiptConfig := {}
  keyless : KeylessConfig := {}

/-! ## Field rules -/

def ReceiptConfig.isConfigured (r : ReceiptConfig) : Bool :=
  !r.signingKeySeedB64.toList.all isWhitespace || r.signingKeyPath.isSome

def isAdvertisableIssuer (s : String) : Bool :=
  let scheme := "https://".toList
  let rest := s.toList.drop scheme.length
  s.length ≤ 512 && scheme.isPrefixOf s.toList && !rest.isEmpty &&
    !rest.any fun c => isWhitespace c || c.toNat = 0xFEFF || c = '#' || c = '?'

def isAdvertisableTrustDomain (s : String) : Bool :=
  !s.isEmpty && s.utf8ByteSize ≤ 255 &&
    s.toList.all fun c => ('a' ≤ c && c ≤ 'z') || ('0' ≤ c && c ≤ '9') || c ∈ "._-".toList

/-- Each name has its form and is not among those seen, and each location passes its own check. -/
def checkEntries {α : Type} (name : α → String) (advertisable : String → Bool)
    (malformed repeated : ℕ → String → String) (location : ℕ → α → Except String Unit) :
    ℕ → List String → List α → Except String Unit
  | _, _, [] => .ok ()
  | i, seen, a :: as => do
    ensure (advertisable (name a)) (malformed i (name a))
    ensure (!seen.contains (name a)) (repeated i (name a))
    location i a
    checkEntries name advertisable malformed repeated location (i + 1) (name a :: seen) as

namespace KeylessConfig

variable (isHttpsUrl : String → Bool) (k : KeylessConfig)

def checkIssuers : Except String Unit :=
  checkEntries OidcIssuer.issuer isAdvertisableIssuer
    (fun i issuer => s!"keyless.oidc_issuers[{i}].issuer '{issuer}' must match ^https://[^\\s#?]+$ " ++
      "and be at most 512 characters.")
    (fun i issuer => s!"keyless.oidc_issuers[{i}].issuer '{issuer}' is listed twice.")
    (fun i o =>
      match o.jwksUri with
      | some uri =>
        if isHttpsUrl uri then .ok ()
        else .error s!"keyless.oidc_issuers[{i}].jwks_uri '{uri}' must be an https URL."
      | none => .ok ())
    0 [] k.oidcIssuers

def checkTrustDomains : Except String Unit :=
  checkEntries SpiffeDomain.trustDomain isAdvertisableTrustDomain
    (fun i domain => s!"keyless.spiffe_trust_domains[{i}].trust_domain '{domain}' must match " ++
      "^[a-z0-9._-]+$ and be at most 255 characters.")
    (fun i domain => s!"keyless.spiffe_trust_domains[{i}].trust_domain '{domain}' is listed twice.")
    (fun i d =>
      let bundle := d.bundleEndpoint
      if isHttpsUrl bundle then .ok ()
      else .error
        s!"keyless.spiffe_trust_domains[{i}].bundle_endpoint '{bundle}' must be an https URL.")
    0 [] k.spiffeTrustDomains

def validate : Except String Unit := do
  let ttl := k.maxAttestationTtlSeconds
  ensure (60 ≤ ttl && ttl ≤ 3600)
    (s!"keyless.max_attestation_ttl_seconds={ttl} must be from 60 to 3600 " ++
      "(RFC-ACDP-0021 §13.1).")
  let cache := k.jwksCacheTtlSeconds
  ensure (60 ≤ cache && cache ≤ 3600)
    s!"keyless.jwks_cache_ttl_seconds={cache} must be from 60 to 3600."
  let stale := k.jwksMaxStaleSeconds
  ensure (stale ≤ 7 * 24 * 3600)
    (s!"keyless.jwks_max_stale_seconds={stale} must be at most 604800 (7 days): a stale key set " ++
      "may still hold keys the issuer withdrew.")
  let timeout := k.fetchTimeoutMs
  ensure (100 ≤ timeout)
    (s!"keyless.fetch_timeout_ms={timeout} must be at least 100: below that no TLS handshake to " ++
      "an issuer completes.")
  let bytes := k.maxFetchBytes
  ensure (1024 ≤ bytes)
    (s!"keyless.max_fetch_bytes={bytes} must be at least 1024: below that not even a one-key " ++
      "JWKS fits.")
  ensure (!(k.oidcIssuers.isEmpty && k.spiffeTrustDomains.isEmpty))
    ("keyless.enabled=true needs at least one keyless.oidc_issuers or " ++
      "keyless.spiffe_trust_domains entry: with neither, no token can verify.")
  k.checkIssuers isHttpsUrl
  k.checkTrustDomains isHttpsUrl

end KeylessConfig

/-! ## Startup -/

def RegistryConfig.eventReceiptsGate (cfg : RegistryConfig) (acdpVersion : String) : Bool :=
  cfg.lifecycleEnabled && cfg.receipt.isConfigured && versionAtLeast acdpVersion 0 5

def validateKeylessAt (isHttpsUrl : String → Bool) (cfg : RegistryConfig) (acdpVersion : String) :
    Except String Unit := do
  ensure (!(cfg.profiles.contains "acdp-registry-keyless" && !cfg.keyless.enabled))
    ("registry.profiles advertises 'acdp-registry-keyless' but keyless.enabled is " ++
      "false. Advertising the profile commits the registry to serve POST/GET " ++
      "/key-attestations (RFC-ACDP-0021 §5) — set keyless.enabled=true or remove the profile.")
  if !cfg.keyless.enabled then return
  cfg.keyless.validate isHttpsUrl
  ensure (cfg.eventReceiptsGate acdpVersion)
    ("keyless.enabled=true requires lifecycle.enabled=true, a [receipt] signing key " ++
      "and acdp_version >= 0.5.0: an attestation is a receipted body under the " ++
      "registry DID (RFC-ACDP-0021 §5.3) and the profile is 0.5.0 Draft.")
  ensure cfg.logEnabled
    ("keyless.enabled=true requires log.enabled=true: every attestation is logged " ++
      "(RFC-ACDP-0021 §5.2 step 8, §5.3).")

theorem validateKeylessAt_on {isHttpsUrl : String → Bool} {cfg : RegistryConfig}
    {acdpVersion : String} (h : validateKeylessAt isHttpsUrl cfg acdpVersion = .ok ())
    (hon : cfg.keyless.enabled = true) :
    cfg.keyless.validate isHttpsUrl = .ok () ∧ cfg.eventReceiptsGate acdpVersion = true ∧
      cfg.logEnabled = true := by
  obtain ⟨_, -, h⟩ := except_bind_ok.1 h
  rw [hon] at h
  obtain ⟨_, hvalid, h⟩ := except_bind_ok.1 h
  obtain ⟨_, hgate, h⟩ := except_bind_ok.1 h
  exact ⟨hvalid, ensure_ok.1 hgate, ensure_ok.1 h⟩

theorem KeylessConfig.validate_ttl {isHttpsUrl : String → Bool} {k : KeylessConfig}
    (h : k.validate isHttpsUrl = .ok ()) : 60 ≤ k.maxAttestationTtlSeconds := by
  obtain ⟨_, httl, -⟩ := except_bind_ok.1 h
  have := ensure_ok.1 httl
  simp only [Bool.and_eq_true, decide_eq_true_eq] at this
  exact this.1

end AcdpRegistry
