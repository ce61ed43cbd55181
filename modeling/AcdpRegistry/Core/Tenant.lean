/-
  The tenant a request resolves to.

  A signed claim decides, then the producer's binding, then an `X-Tenant-Id`
  header that crossed a boundary the operator declared.  Header values are given
  as text: a header that is not visible ASCII counts as absent.
-/
import AcdpRegistry.Types
import AcdpRegistry.Lib.Handler

namespace AcdpRegistry

open Lib

/-! ## Peers -/

/-- `IpAddr`, by its octets. -/
inductive IpAddr
  | v4 (octets : Vector UInt8 4)
  | v6 (octets : Vector UInt8 16)
  deriving DecidableEq, Repr

/-- `canonical_ip`: an IPv4-mapped address is its IPv4 address. -/
def canonicalIp : IpAddr → IpAddr
  | .v4 octets => .v4 octets
  | .v6 octets =>
    match octets.toList with
    | [0, 0, 0, 0, 0, 0, 0, 0, 0, 0, 255, 255, a, b, c, d] => .v4 #v[a, b, c, d]
    | _ => .v6 octets

/-- `masked_eq`: the first `bits` bits agree. -/
def maskedEq : List UInt8 → List UInt8 → ℕ → Bool
  | x :: xs, y :: ys, bits =>
    if bits = 0 then true
    else
      let take := min bits 8
      let mask : UInt8 := if take = 8 then 0xFF else ~~~(0xFF >>> UInt8.ofNat take)
      if x &&& mask ≠ y &&& mask then false else maskedEq xs ys (bits - take)
  | _, _, _ => true

structure Cidr where
  base : IpAddr
  prefixLen : ℕ
  deriving DecidableEq, Repr

def Cidr.contains (block : Cidr) (ip : IpAddr) : Bool :=
  match block.base, ip with
  | .v4 b, .v4 o => maskedEq b.toList o.toList block.prefixLen
  | .v6 b, .v6 o => maskedEq b.toList o.toList block.prefixLen
  | _, _ => false

inductive TenantHeaderTrust
  | none
  | trustedProxies
  | anyPeer
  deriving DecidableEq, Repr

def TenantHeaderTrust.asStr : TenantHeaderTrust → String
  | .none => "none"
  | .trustedProxies => "trusted_proxies"
  | .anyPeer => "any_peer"

def tenantHeaderTrusted (mode : TenantHeaderTrust) (peer : Option IpAddr) (proxies : List Cidr) :
    Bool :=
  match mode with
  | .none => false
  | .anyPeer => true
  | .trustedProxies => peer.any fun ip => proxies.any (·.contains (canonicalIp ip))

/-! ## Sources -/

structure Headers where
  authorization : Option String := none
  idempotencyKey : Option String := none
  tenantId : Option String := none

/-- The configuration, the trusted proxies, and the claims of a bearer that validates. -/
structure TenantConfig where
  authEnabled : Bool := false
  requireTenant : Bool := false
  /-- Agent and tenant, in the order of the configuration. -/
  tenantAgents : List (String × String) := []
  tenantHeaderTrust : TenantHeaderTrust := .none
  trustedProxies : List Cidr := []
  /-- The `tenant` claim of a bearer that validates. -/
  validateBearerClaims : String → Option (Option String) := fun _ => none

/-- `str::trim`, for the white space a header can hold. -/
def trim (s : String) : String :=
  let blank (c : Char) : Bool := c = ' ' || c = '\t'
  .ofList (((s.toList.dropWhile blank).reverse.dropWhile blank).reverse)

def tenantFromHeaders (headers : Headers) : Option String :=
  (headers.tenantId.map trim).filter (· ≠ "")

/-- `str::strip_prefix`. -/
def stripStart (start s : String) : Option String :=
  if start.toList.isPrefixOf s.toList then some (.ofList (s.toList.drop start.toList.length)) else none

theorem stripStart_eq_some_iff {start s rest : String} :
    stripStart start s = some rest ↔ s = start ++ rest := by
  unfold stripStart
  split_ifs with h
  · obtain ⟨tail, htail⟩ := List.isPrefixOf_iff_prefix.1 h
    rw [← htail, List.drop_left, Option.some.injEq, ← String.toList_inj, ← String.toList_inj,
      String.toList_append, ← htail, List.append_cancel_left_eq, String.toList_ofList]
  · simp only [false_iff]
    rintro rfl
    exact h (List.isPrefixOf_iff_prefix.2 (by simp))

def extractBearer (value : String) : Option String :=
  (stripStart "Bearer " value <|> stripStart "bearer " value).map trim

/-- `RESERVED_TENANT`: the column's default. -/
def reservedTenant : String := "default"

def rejectReservedTenant (tenant : Option String) : Except RegistryError Unit :=
  if tenant = some reservedTenant then
    .error (.acdp (.schemaViolation ("'default' is a reserved tenant sentinel and cannot be asserted " ++
      "via X-Tenant-Id or a token claim")))
  else .ok ()

def reconcileTenantSources (claim header : Option String) : Except RegistryError (Option String) :=
  match claim, header with
  | some c, some h =>
    if c ≠ h then
      .error (.authChallenge "X-Tenant-Id does not match the tenant the token was issued under")
    else .ok (some c)
  | some c, none => .ok (some c)
  | none, h => .ok h

inductive ReadPrincipal
  | anonymous
  /-- The tenant is the token's claim, or the static token's binding. -/
  | did (did : String) (tenant : Option String)
  deriving DecidableEq, Repr

def ReadPrincipal.tenantClaim : ReadPrincipal → Option String
  | .anonymous => none
  | .did _ tenant => tenant

namespace TenantConfig

variable (config : TenantConfig) (headers : Headers)

/-- `bearer_tenant_claim`: a bearer that does not validate contributes nothing. -/
def bearerTenantClaim : Option String := do
  let value ← headers.authorization
  let token ← extractBearer value
  let claims ← config.validateBearerClaims token
  claims

/-- `AuthConfig::tenant_for_agent`: the first binding of the agent. -/
def tenantForAgent (agentId : String) : Option String :=
  (config.tenantAgents.find? (·.1 = agentId)).map (·.2)

def unboundHeaderTenant (header : Option String) (peer : Option IpAddr) :
    Except RegistryError (Option String) :=
  match header with
  | none => .ok none
  | some h =>
    if tenantHeaderTrusted config.tenantHeaderTrust peer config.trustedProxies then .ok (some h)
    else
      let mode := config.tenantHeaderTrust.asStr
      .error (.authChallenge (s!"X-Tenant-Id is not trusted from this peer (auth.tenant_header_trust = " ++
        s!"\"{mode}\"); use a tenant-bound token or send the request through the declared gateway"))

/-- What is authoritative, or else a trusted header. -/
def tenantSources (authoritative headerTenant : Option String) (peer : Option IpAddr) :
    Except RegistryError (Option String) :=
  match authoritative with
  | some t => reconcileTenantSources (some t) headerTenant
  | none => config.unboundHeaderTenant headerTenant peer

/-- The header is checked first; what is authoritative decides, if authentication is on, and else a
    trusted header. `denied` refuses a request without a required tenant. -/
def resolveTenant (denied : String) (authoritative headerTenant : Option String)
    (peer : Option IpAddr) : Except RegistryError (Option String) := do
  rejectReservedTenant headerTenant
  if !config.authEnabled then config.unboundHeaderTenant headerTenant peer
  else do
    let resolved ← config.tenantSources authoritative headerTenant peer
    if config.requireTenant && resolved.isNone then .error (.authChallenge denied)
    else do
      rejectReservedTenant resolved
      return resolved

def tenantWithClaim (peer : Option IpAddr) (claim : Option String) :
    Except RegistryError (Option String) :=
  config.resolveTenant ("this registry requires a tenant scope: use a tenant-bound token, or send " ++
    "X-Tenant-Id through the declared gateway") claim (tenantFromHeaders headers) peer

def tenantForRequest (peer : Option IpAddr) : Except RegistryError (Option String) :=
  config.tenantWithClaim headers peer (config.bearerTenantClaim headers)

def tenantForPrincipal (peer : Option IpAddr) (principal : ReadPrincipal) :
    Except RegistryError (Option String) :=
  config.tenantWithClaim headers peer principal.tenantClaim

/-- With authentication on: the claim of a valid bearer, the producer's binding, a trusted header. -/
def publishSources (headerTenant : Option String) (agentId : String) (peer : Option IpAddr) :
    Except RegistryError (Option String) :=
  match config.bearerTenantClaim headers <|> config.tenantForAgent agentId with
  | some t => reconcileTenantSources (some t) headerTenant
  | none => config.unboundHeaderTenant headerTenant peer

def tenantForPublish (agentId : String) (peer : Option IpAddr) :
    Except RegistryError (Option String) := do
  let headerTenant := tenantFromHeaders headers
  rejectReservedTenant headerTenant
  if !config.authEnabled then config.unboundHeaderTenant headerTenant peer
  else do
    let resolved ← config.publishSources headers headerTenant agentId peer
    if config.requireTenant && resolved.isNone then
      .error (.authChallenge
        "this registry requires a tenant scope: publish with a tenant-bound agent or token")
    else do
      rejectReservedTenant resolved
      return resolved

end TenantConfig

theorem rejectReservedTenant_ok {tenant : Option String} {u : Unit}
    (h : rejectReservedTenant tenant = .ok u) : tenant ≠ some reservedTenant := by
  unfold rejectReservedTenant at h
  split at h
  · cases h
  · assumption

/-! ## What a header can do -/

namespace TenantConfig

variable {config : TenantConfig} {denied : String} {authoritative headerTenant : Option String}
  {peer : Option IpAddr}

theorem tenantForPublish_eq (headers : Headers) (agentId : String) :
    config.tenantForPublish headers agentId peer =
      config.resolveTenant "this registry requires a tenant scope: publish with a tenant-bound agent or token"
        (config.bearerTenantClaim headers <|> config.tenantForAgent agentId) (tenantFromHeaders headers)
        peer := rfl

theorem tenantSources_some {c : String} {resolved : Option String}
    (h : config.tenantSources (some c) headerTenant peer = .ok resolved) : resolved = some c := by
  cases headerTenant with
  | none =>
    cases h
    rfl
  | some t =>
    simp only [tenantSources, reconcileTenantSources] at h
    split at h
    · cases h
    · cases h
      rfl

/-- An untrusted header decides nothing: the sources refuse it, or they say what they say without it. -/
theorem tenantSources_untrusted
    (hpeer : tenantHeaderTrusted config.tenantHeaderTrust peer config.trustedProxies = false)
    (authoritative headerTenant : Option String) :
    (∃ e, config.tenantSources authoritative headerTenant peer = .error e) ∨
      config.tenantSources authoritative headerTenant peer =
        config.tenantSources authoritative none peer := by
  cases headerTenant with
  | none => exact .inr rfl
  | some t =>
    cases authoritative with
    | none =>
      left
      simp [tenantSources, unboundHeaderTenant, hpeer]
    | some c =>
      by_cases hc : c = t
      · subst hc
        right
        simp [tenantSources, reconcileTenantSources]
      · left
        simp [tenantSources, reconcileTenantSources, hc]

theorem resolveTenant_untrusted
    (hpeer : tenantHeaderTrusted config.tenantHeaderTrust peer config.trustedProxies = false)
    (denied : String) (authoritative headerTenant : Option String) :
    (∃ e, config.resolveTenant denied authoritative headerTenant peer = .error e) ∨
      config.resolveTenant denied authoritative headerTenant peer =
        config.resolveTenant denied authoritative none peer := by
  unfold resolveTenant
  cases rejectReservedTenant headerTenant with
  | error e => exact .inl ⟨e, rfl⟩
  | ok u =>
    cases config.authEnabled with
    | false => exact tenantSources_untrusted hpeer none headerTenant
    | true =>
      rcases tenantSources_untrusted hpeer authoritative headerTenant with ⟨e, he⟩ | heq
      · left
        rw [he]
        exact ⟨e, rfl⟩
      · right
        rw [heq]
        rfl

theorem resolveTenant_ok {resolved : Option String}
    (h : config.resolveTenant denied authoritative headerTenant peer = .ok resolved) :
    resolved ≠ some reservedTenant ∧ (config.authEnabled = true →
      (config.requireTenant = true → resolved ≠ none) ∧
      ∀ c, authoritative = some c → resolved = some c) := by
  obtain ⟨u, hheader, h⟩ := except_bind_ok.1 h
  have hreserved := rejectReservedTenant_ok hheader
  split at h
  · next hauth =>
    -- the header, if it is trusted
    refine ⟨?_, fun hon => by simp [hon] at hauth⟩
    cases headerTenant with
    | none =>
      cases h
      simp
    | some t =>
      simp only [unboundHeaderTenant] at h
      split at h
      · cases h
        exact hreserved
      · cases h
  · obtain ⟨resolved', hsources, h⟩ := except_bind_ok.1 h
    split at h
    · cases h
    · next hstrict =>
      obtain ⟨u', hok, h⟩ := except_bind_ok.1 h
      cases h
      refine ⟨rejectReservedTenant_ok hok, fun _ => ⟨fun hrequired hnone => ?_, fun c hc => ?_⟩⟩
      · rw [hrequired, hnone] at hstrict
        simp at hstrict
      · rw [hc] at hsources
        exact tenantSources_some hsources

end TenantConfig

/-- **An untrusted tenant header has no power.**  For every configuration, credential and peer, in each of
    the three resolutions: an untrusted header gives an error or the answer without it; the reserved tenant
    is never given; and with authentication on a given tenant is the signed claim or the agent's binding. -/
theorem untrusted_tenant_header_has_no_power (config : TenantConfig) (headers : Headers)
    (peer : Option IpAddr) (principal : ReadPrincipal) (agentId : String) :
    let bare := { headers with tenantId := none }
    let resolutions : List ((Headers → Except RegistryError (Option String)) × Option String) :=
      [(fun h => config.tenantForRequest h peer, config.bearerTenantClaim headers),
        (fun h => config.tenantForPrincipal h peer principal, principal.tenantClaim),
        (fun h => config.tenantForPublish h agentId peer,
          config.bearerTenantClaim headers <|> config.tenantForAgent agentId)]
    ∀ r ∈ resolutions,
      (tenantHeaderTrusted config.tenantHeaderTrust peer config.trustedProxies = false →
        (∃ e, r.1 headers = .error e) ∨ r.1 headers = r.1 bare) ∧
      ∀ tenant, r.1 headers = .ok tenant → tenant ≠ some reservedTenant ∧
        (config.authEnabled = true → (config.requireTenant = true → tenant ≠ none) ∧
          ∀ c, r.2 = some c → tenant = some c) := by
  intro bare resolutions r hr
  simp only [resolutions, List.mem_cons, List.not_mem_nil, or_false] at hr
  rcases hr with rfl | rfl | rfl
  · exact ⟨fun hpeer => TenantConfig.resolveTenant_untrusted hpeer _ _ _,
      fun tenant h => TenantConfig.resolveTenant_ok h⟩
  · exact ⟨fun hpeer => TenantConfig.resolveTenant_untrusted hpeer _ _ _,
      fun tenant h => TenantConfig.resolveTenant_ok h⟩
  · simp only [TenantConfig.tenantForPublish_eq]
    exact ⟨fun hpeer => TenantConfig.resolveTenant_untrusted hpeer _ _ _,
      fun tenant h => TenantConfig.resolveTenant_ok h⟩

namespace Sample

def tenantConfig : TenantConfig where
  authEnabled := true
  requireTenant := true
  validateBearerClaims token := if token = "jwt" then some (some "t1") else none

def tenantHeaders : Headers where
  authorization := some "Bearer jwt"
  tenantId := some "t1"

end Sample

/-- A header that agrees with the token's claim. -/
theorem untrusted_tenant_header_sample :
    let config := Sample.tenantConfig
    let headers := Sample.tenantHeaders
    tenantHeaderTrusted config.tenantHeaderTrust none config.trustedProxies = false ∧
      config.tenantForRequest headers none = .ok (some "t1") ∧
      ((∃ e, config.tenantForRequest headers none = .error e) ∨
        config.tenantForRequest headers none =
          config.tenantForRequest { headers with tenantId := none } none) ∧
      some "t1" ≠ some reservedTenant := by
  have hall := untrusted_tenant_header_has_no_power Sample.tenantConfig Sample.tenantHeaders none
    .anonymous "agent" _ List.mem_cons_self
  have hok : Sample.tenantConfig.tenantForRequest Sample.tenantHeaders none = .ok (some "t1") := by
    rfl
  exact ⟨rfl, hok, hall.1 rfl, (hall.2 _ hok).1⟩

end AcdpRegistry
