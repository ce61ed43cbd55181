/-
  `POST /contexts` (`acdp-registry-core/src/handlers/context.rs`).

  A publish passes the version gates, the rate limiter and the tenant rule, then
  one of five branches: keyless, did:key, playground with a pinned key, playground
  without one, and did:web.  Four of them prove the producer's identity and commit
  through the store in one transaction; the unpinned playground branch looks up
  and records its idempotency key itself.  After the branches join, a registry in
  playground mode stamps the context with the publish's tenant.

  Webhooks, hint wake-ups and metrics are left out: they write no table.
-/
import AcdpRegistry.Core.Tenant
import AcdpRegistry.Lib.Handler
import AcdpRegistry.Lib.Schedule
import AcdpRegistry.Store.CommitPublish

namespace AcdpRegistry

open Lib

/-! ## Configuration -/

structure PinnedAgentKey where
  agentDid : String
  publicKeyB64 : String
  algorithm : String := "ed25519"
  validFrom : Option ℤ := none
  validUntil : Option ℤ := none
  deriving DecidableEq, Repr

def PinnedAgentKey.isValidAt (p : PinnedAgentKey) (now : ℤ) : Bool :=
  p.validFrom.all (· ≤ now) && p.validUntil.all (now < ·)

structure PlaygroundConfig where
  enabled : Bool := false
  pinnedKeys : List PinnedAgentKey := []
  pinnedOnly : Bool := false

/-- `pinned_for_at`: the valid entry with the latest start, the last one of several. -/
def PlaygroundConfig.pinnedForAt (config : PlaygroundConfig) (agentDid : String) (now : ℤ) :
    Option PinnedAgentKey :=
  let start (p : PinnedAgentKey) : ℤ := p.validFrom.getD (-2 ^ 63)
  (config.pinnedKeys.filter fun p => p.agentDid = agentDid && p.isValidAt now).foldl
    (fun best p =>
      match best with
      | some b => if start b ≤ start p then some p else some b
      | none => some p)
    none

/-- What a proof of identity hands to the commit. -/
structure Proven where
  keyFingerprint : Option String := none
  receiptMinter : Option (Body → Except AcdpError Json) := none
  predecessorAdmission : Option (Body → Except AcdpError Unit) := none

/-- The functions of other crates that the handler calls. -/
structure PublishApi where
  /-- `prove_publish_identity`. -/
  prove : PublishRequest → Except AcdpError Proven
  proveDidKey : PublishRequest → Except AcdpError Proven
  provePinned : PublishRequest → (publicKeyB64 algorithm : String) → Except AcdpError Proven
  /-- `commit_proven`: what it asks of the store, given the lifetime of a key's record, if the registry
      supports keys. -/
  commitProven : (authority : String) → (keyTtl : Option ℤ) → PublishRequest → Proven →
    (key tenant : Option String) → PublishCommit
  commitProven_req : ∀ authority keyTtl req proven key tenant,
    (commitProven authority keyTtl req proven key tenant).req = req
  commitProven_key : ∀ authority keyTtl req proven key tenant,
    (commitProven authority keyTtl req proven key tenant).idempotency =
      key.bind fun k => keyTtl.map (⟨k, ·⟩)
  /-- `publish_unverified_for_tests`: its checks, and what it then asks of the store. -/
  publishUnverified : (authority : String) → PublishRequest → Except AcdpError PublishCommit
  /-- `validate_post_schema`: the recomputed content hash. -/
  validatePostSchema : PublishRequest → Except AcdpError String
  ctxAuthority : String → String
  keyAttestationFromMetadata : Json → Except AcdpError KeyAttestation
  /-- The identities that a controller's DID document lists. -/
  listedIdentities : String → Except AcdpError (List WorkloadIdentity)
  verifyJwk : Jwk → (algorithm value hash : String) → Except AcdpError Unit
  verifyEd25519 : List UInt8 → (value hash : String) → Except AcdpError Unit
  verifyEcdsaP256 : List UInt8 → (value hash : String) → Except AcdpError Unit
  decodeB64 : String → Except String (List UInt8)
  decodeB64Url : String → Except String (List UInt8)
  encodeB64 : List UInt8 → String
  /-- `KeylessReason::tag`. -/
  tag : KeylessReason → String → String
  isRegistryToken : KeylessReason → Bool

structure AppState where
  store : SqlStore
  api : PublishApi
  authority : String
  acdpVersion : String := "0.5.0"
  supportsIdempotencyKey : Bool := true
  /-- Nanoseconds. -/
  idempotencyKeyTtl : ℤ
  /-- `AgentRateLimiter::peek`: the seconds to wait for an agent over its budget. -/
  rateLimiter : Option (String → Option ℕ) := none
  tenants : TenantConfig := {}
  playground : PlaygroundConfig := {}
  /-- The keyless profile is on. -/
  keyless : Bool := false

/-- What a request draws from outside: the store's draws and the clocks, each where it is read. -/
structure RequestDraw where
  commit : PublishDraw
  keylessNowMs : ℤ := 0
  lookupNow : ℤ := 0
  recordNow : ℤ := 0
  unixSeconds : ℤ := 0

/-- The state a handler works on: the tables, and whether the publish is charged to its agent. -/
structure HandlerState where
  db : Db
  charged : Bool := false

abbrev PublishHandler := Handler RegistryError HandlerState

/-! ## Errors -/

def KeylessReason.asStr : KeylessReason → String
  | .tokenReplayed => "token_replayed"
  | .popInvalid => "pop_invalid"
  | .identityNotAuthorized => "identity_not_authorized"
  | .attestationMissing => "attestation_missing"
  | .attestationForeign => "attestation_foreign"
  | .attestationNotFound => "attestation_not_found"
  | .attestationMismatch => "attestation_mismatch"
  | .attestationWithdrawn => "attestation_withdrawn"
  | .outsideAttestationWindow => "outside_attestation_window"
  | .keylessIdentityMismatch => "keyless_identity_mismatch"

def withKeylessReason (api : PublishApi) (e : AcdpError) : RegistryError :=
  match e with
  | .keyless r _ => if api.isRegistryToken r then .withReason e r.asStr else .acdp e
  | _ => .acdp e

/-! ## Gates -/

/-- `str::parse::<u64>`. -/
def parseU64 (digits : List Char) : Option ℕ :=
  let digits := match digits with
    | '+' :: rest => rest
    | _ => digits
  if digits ≠ [] ∧ digits.all (·.isDigit) then
    let n := digits.foldl (fun n c => n * 10 + (c.toNat - '0'.toNat)) 0
    if n < 2 ^ 64 then some n else none
  else none

/-- `version_at_least`: three numbers, at least `major.minor`. -/
def versionAtLeast (v : String) (major minor : ℕ) : Bool :=
  match (v.toList.splitOn '.').mapM parseU64 with
  | some [ma, mi, _] => major < ma || (ma = major && minor ≤ mi)
  | _ => false

/-- Anchors or an attestation need a registry of version 0.5.0; anchors also a request that declares
    it. -/
def versionGates (state : AppState) (req : PublishRequest) : Except RegistryError Unit := do
  let advertised := state.acdpVersion
  if req.anchors.isSome then
    if !versionAtLeast advertised 0 5 then
      throw (.acdp (.schemaViolation ("anchors requires a registry advertising acdp_version >= 0.5.0 " ++
        s!"(RFC-ACDP-0016 §10); this registry advertises '{advertised}'")))
    let declared := req.acdpVersion.getD "0.1.0"
    if !versionAtLeast declared 0 5 then
      throw (.acdp (.schemaViolation ("anchors requires the publish request to declare acdp_version " ++
        s!">= 0.5.0 (RFC-ACDP-0016 §14); this request declared '{declared}'")))
  if req.keyAttestation.isSome then
    if !versionAtLeast advertised 0 5 then
      throw (.acdp (.schemaViolation ("key_attestation requires a registry advertising acdp_version " ++
        s!">= 0.5.0 (RFC-ACDP-0021 §6.2); this registry advertises '{advertised}'")))

/-- The `Idempotency-Key`: 1 to 256 printable ASCII characters, otherwise it counts as absent. -/
def idempotencyKeyOf (headers : Headers) : Option String :=
  headers.idempotencyKey.filter fun s =>
    1 ≤ s.length && s.length ≤ 256 && s.toList.all fun c => 32 ≤ c.toNat && c.toNat < 127

def rateLimitPeek (state : AppState) (agentId : String) : Except RegistryError Unit :=
  match state.rateLimiter.bind (· agentId) with
  | some retryAfter => .error (.rateLimited retryAfter)
  | none => .ok ()

/-! ## Pinned keys -/

inductive PinOutcome
  | skipped
  | verified (publicKeyB64 algorithm : String)
  | unpinned

def hasKeylessFragment (keyId : String) : Bool :=
  match keyId.toList.dropWhile (· ≠ '#') with
  | _ :: fragment => "acdp-kl-".toList.isPrefixOf fragment
  | [] => false

def decodeEd25519Pinned (api : PublishApi) (agentDid : String) (pinned : PinnedAgentKey) :
    Except RegistryError (List UInt8) :=
  match api.decodeB64 pinned.publicKeyB64 with
  | .error e => .error (.config s!"pinned public_key_b64 for {agentDid} is not valid base64: {e}")
  | .ok bytes =>
    let n := bytes.length
    if n = 32 then .ok bytes
    else
      .error (.config
        s!"pinned ed25519 public_key_b64 for {agentDid} decoded to {n} bytes (expected 32)")

/-- `decode_ecdsa_p256_pinned`, with the byte's two hexadecimal digits in its text. -/
def decodeEcdsaP256Pinned (api : PublishApi) (agentDid : String) (pinned : PinnedAgentKey) :
    Except RegistryError (List UInt8) :=
  match api.decodeB64 pinned.publicKeyB64 with
  | .error e => .error (.config s!"pinned public_key_b64 for {agentDid} is not valid base64: {e}")
  | .ok bytes =>
    let n := bytes.length
    if n ≠ 65 then
      .error (.config (s!"pinned ecdsa-p256 public_key_b64 for {agentDid} decoded to {n} bytes " ++
        "(expected 65 SEC1-uncompressed)"))
    else if bytes.head? ≠ some 0x04 then
      let b := (bytes.headD 0).toNat
      let hex := String.ofList [Nat.digitChar (b / 16), Nat.digitChar (b % 16)]
      .error (.config (s!"pinned ecdsa-p256 public_key_b64 for {agentDid} must start with 0x04 " ++
        s!"(SEC1 uncompressed); got 0x{hex}"))
    else .ok bytes

/-- The signature of a pinned agent, by the algorithm of its entry. -/
def verifyPinned (api : PublishApi) (req : PublishRequest) (pinned : PinnedAgentKey) :
    Except RegistryError Unit := do
  let agentDid := req.agentId
  match pinned.algorithm with
  | "ed25519" =>
    let key ← decodeEd25519Pinned api agentDid pinned
    (api.verifyEd25519 key req.signature.value req.contentHash).mapError .acdp
  | _ =>
    let key ← decodeEcdsaP256Pinned api agentDid pinned
    (api.verifyEcdsaP256 key req.signature.value req.contentHash).mapError .acdp

def enforcePinnedSignature (api : PublishApi) (config : PlaygroundConfig) (req : PublishRequest)
    (now : ℤ) : Except RegistryError PinOutcome := do
  if config.pinnedKeys.isEmpty then return .skipped
  let agentDid := req.agentId
  match config.pinnedForAt agentDid now with
  | none =>
    if config.pinnedOnly then
      throw (.acdp (.keyNotAuthorized (s!"agent_did '{agentDid}' is not in playground.pinned_keys " ++
        "and playground.pinned_only is true")))
    return .unpinned
  | some pinned =>
    let keyId := req.signature.keyId
    if hasKeylessFragment keyId then
      throw (.acdp (.keyResolution (s!"key_id '{keyId}' is a keyless (acdp-kl-) key, which a pinned key " ++
        "cannot authorize and this registry does not support (RFC-ACDP-0021)")))
    let alg := pinned.algorithm
    if alg ≠ "ed25519" ∧ alg ≠ "ecdsa-p256" then
      throw (.config (s!"pinned algorithm '{alg}' for {agentDid} is not supported " ++
        "(expected one of: ed25519, ecdsa-p256)"))
    let declared := req.signature.algorithm
    if declared ≠ alg then
      throw (.acdp (.keyNotAuthorized
        s!"signature.algorithm '{declared}' does not match pinned algorithm '{alg}' for {agentDid}"))
    verifyPinned api req pinned
    return .verified pinned.publicKeyB64 alg

/-! ## Store calls -/

/-- `commit_publish` without a concurrent writer. -/
def SqlStore.commitPublish (st : SqlStore) (c : PublishCommit) (draw : PublishDraw) (db : Db) :
    Except AcdpError PublishCommitOutcome × Db :=
  let db' := Schedule.after (st.publishTx c draw) db
  (publishAnswer c ((st.publishTx c draw).run (fun _ => db) {}).1 db', db')

/-- An outcome as `is_replay` and `into_response`. -/
def PublishCommitOutcome.split : PublishCommitOutcome → Bool × PublishResponse
  | .inserted r => (false, r)
  | .idempotentReplay r => (true, r)

/-- `idempotency_record`: an upsert. -/
def SqlStore.idempotencyRecord (st : SqlStore) (agentId key contentHash : String)
    (response : PublishResponse) (expiresAt : ℤ) (db : Db) : Db :=
  { db with
    idempotency := db.idempotency.filter (fun r => !(r.agentId = agentId && r.key = key)) ++
      [⟨agentId, key, contentHash, response, st.dialect.stamp expiresAt⟩] }

def setTenantOfCtx (ctxId tenantId : String) (db : Db) : Db :=
  if tenantId = "default" then db
  else { db with contexts := Db.update db.contexts ctxId fun r => { r with tenantId := tenantId } }

section Branches

variable (state : AppState) (draw : RequestDraw) (req : PublishRequest)

namespace PublishHandler

def arm : PublishHandler Unit := modify fun s => { s with charged := true }

def storeCommit (c : PublishCommit) :
    PublishHandler (Except AcdpError PublishCommitOutcome) := do
  let s ← get
  let done := state.store.commitPublish c draw.commit s.db
  set { s with db := done.2 }
  return done.1

def commitProven (proven : Proven) (key tenant : Option String) :
    PublishHandler (Except AcdpError PublishCommitOutcome) :=
  let keyTtl := if state.supportsIdempotencyKey then some state.idempotencyKeyTtl else none
  storeCommit state draw (state.api.commitProven state.authority keyTtl req proven key tenant)

def armAndCommit (proven : Proven) (key tenant : Option String) (wrap : AcdpError → RegistryError) :
    PublishHandler (Bool × PublishResponse) := do
  arm
  let outcome ← commitProven state draw req proven key tenant
  return (← Handler.lift (outcome.mapError wrap)).split

end PublishHandler

/-! ## Keyless publishes -/

/-- What the store keeps of an attestation, for the handler's checks. -/
structure KeyAttestationRecord where
  contentHash : String
  status : Status
  attestation : KeyAttestation

/-- `key_attestation`: the indexed attestation at `ctxId`, from its body. -/
def keyAttestationRecord (ctxId : String) (db : Db) :
    Except AcdpError (Option KeyAttestationRecord) :=
  match db.keyAttestations.find? (·.ctxId = ctxId), db.context? ctxId with
  | some _, some row =>
    match row.body.metadata with
    | none => .error (.registryInternal s!"key attestation '{ctxId}' has no metadata")
    | some metadata =>
      match state.api.keyAttestationFromMetadata metadata with
      | .error e =>
        let e := state.store.api.display e
        .error (.registryInternal s!"stored key attestation '{ctxId}': {e}")
      | .ok att =>
        .ok (some ⟨row.body.contentHash, if row.retracted then .retracted else row.status, att⟩)
  | _, _ => .ok none

def KeyAttestation.binds (att : KeyAttestation) (req : PublishRequest) : Bool :=
  att.controller = req.agentId && att.keyId = req.signature.keyId &&
    att.algorithm = req.signature.algorithm

/-- `pinned_key_b64`: the attested key as bytes. -/
def pinnedKeyB64 (api : PublishApi) (jwk : Jwk) : Except RegistryError String := do
  let decode (s : String) : Except RegistryError (List UInt8) :=
    (api.decodeB64Url s).mapError fun e => .internal s!"stored attestation JWK: {e}"
  match jwk.y with
  | none => return api.encodeB64 (← decode jwk.x)
  | some y => return api.encodeB64 (0x04 :: (← decode jwk.x) ++ (← decode y))

/-- `check_keyless_publish`: the attestation that the request rests on, after steps 0 to 8. -/
def checkKeylessPublish (db : Db) :
    Except RegistryError KeyAttestation := do
  let refuse {α : Type} (r : KeylessReason) (message : String) : Except RegistryError α :=
    .error (withKeylessReason state.api (.keyless r message))
  let hash ← (state.api.validatePostSchema req).mapError .acdp
  let keyId := req.signature.keyId
  let some r := req.keyAttestation
    | refuse .attestationMissing
        s!"signature.key_id '{keyId}' is a keyless key id but the body has no key_attestation"
  let ctxId := r.ctxId
  if state.api.ctxAuthority ctxId ≠ state.authority then
    refuse .attestationForeign (s!"key_attestation '{ctxId}' is not on this registry; publish to the " ++
      "registry that attested the key")
  let some record ← (keyAttestationRecord state ctxId db).mapError .acdp
    | refuse .attestationNotFound s!"no key attestation at '{ctxId}'"
  let given := r.contentHash
  let stored := record.contentHash
  if stored ≠ given then
    throw (.withReason (.keyResolution (state.api.tag .attestationMismatch
      s!"key_attestation.content_hash {given} is not the stored attestation's {stored}"))
      KeylessReason.attestationMismatch.asStr)
  let att := record.attestation
  if !att.binds req then
    refuse .attestationMismatch ("agent_id, signature.key_id or signature.algorithm differ from key " ++
      s!"attestation '{ctxId}'")
  if record.status = .retracted then
    refuse .attestationWithdrawn s!"key attestation '{ctxId}' was retracted"
  let nowMs := draw.keylessNowMs
  let some now := Instant.check (nowMs * 10 ^ 6)
    | throw (.internal s!"keyless clock out of range: {nowMs}")
  if !(att.notBefore ≤ now ∧ now < att.notAfter) then
    let text := state.store.api.formatMs now
    refuse .outsideAttestationWindow
      s!"the registry's time {text} is outside the window of key attestation '{ctxId}'"
  let listed ← (state.api.listedIdentities att.controller).mapError .acdp
  if att.identity ∉ listed then
    let controller := att.controller
    refuse .identityNotAuthorized
      s!"{controller} no longer lists the workload identity of key attestation '{ctxId}'"
  match state.api.verifyJwk att.publicKeyJwk req.signature.algorithm req.signature.value hash with
  | .ok () => return att
  | .error (.invalidSignature m) => throw (.acdp (.invalidSignature m))
  | .error other =>
    let other := state.store.api.display other
    throw (.acdp (.invalidSignature s!"the signature does not verify under the attested key: {other}"))

namespace PublishHandler

def publishKeyless (key tenant : Option String) : PublishHandler (Bool × PublishResponse) := do
  let attested ← Handler.lift (checkKeylessPublish state draw req (← get).db)
  let pinned ← Handler.lift (pinnedKeyB64 state.api attested.publicKeyJwk)
  let proven ← Handler.lift ((state.api.provePinned req pinned attested.algorithm).mapError .acdp)
  let expected := attested.keyFingerprint
  match proven.keyFingerprint with
  | some fp =>
    if fp ≠ expected then
      throw (.internal (s!"the pinned fingerprint {fp} of the attested key is not the attestation's " ++
        s!"key_fingerprint {expected}"))
  | none => pure ()
  armAndCommit state draw req proven key tenant (withKeylessReason state.api)

def proveAndCommit (proof : Except AcdpError Proven) (key tenant : Option String) :
    PublishHandler (Bool × PublishResponse) := do
  let proven ← Handler.lift (proof.mapError .acdp)
  armAndCommit state draw req proven key tenant .acdp

/-- The unpinned playground branch up to the commit: a live record of the key answers. -/
def unpinnedLookup (key : Option String) :
    PublishHandler (Option PublishResponse) := do
  match key.bind ((← get).db.idempotency? req.agentId ·) with
  | none => return none
  | some record =>
    if draw.lookupNow < record.expiresAt then
      return some (← Handler.lift ((record.answer req).mapError .acdp))
    else return none

/-- `publish_unverified_for_tests`. -/
def unpinnedCommit :
    PublishHandler PublishResponse := do
  let c ← Handler.lift ((state.api.publishUnverified state.authority req).mapError .acdp)
  let outcome ← storeCommit state draw c
  return (← Handler.lift (outcome.mapError .acdp)).split.2

def unpinnedRecord (key : Option String) (response : PublishResponse) : PublishHandler Unit :=
  match key with
  | none => pure ()
  | some key =>
    modify fun s => { s with
      db := state.store.idempotencyRecord req.agentId key req.contentHash response
        (draw.recordNow + state.idempotencyKeyTtl) s.db }

/-- The unpinned playground branch from the commit on. -/
def unpinnedPublish (key : Option String) : PublishHandler (Bool × PublishResponse) := do
  let response ← unpinnedCommit state draw req
  unpinnedRecord state draw req key response
  return (false, response)

end PublishHandler

/-! ## The handler -/

def locationFor (ctxId : String) : String :=
  "/contexts/" ++ String.ofList (ctxId.toUTF8.data.toList.flatMap fun b =>
    let c := Char.ofNat b.toNat
    if b < 128 && (c.isAlphanum || c ∈ "-_.~".toList) then [c]
    else
      let digits := "0123456789ABCDEF".toList
      ['%', digits.getD (b.toNat / 16) '0', digits.getD (b.toNat % 16) '0'])

/-- The reply of an accepted publish: `200` for a replay, else `201`, with a valid `Location`. -/
structure PublishReply where
  status : ℕ
  response : PublishResponse

def publishReply (isReplay : Bool) (response : PublishResponse) : PublishReply where
  status := if isReplay then 200 else 201
  response := response

/-- How a branch ends: it has answered, or it joins the others. -/
inductive BranchEnd
  | answered (reply : PublishReply)
  | joined (isReplay : Bool) (response : PublishResponse)

namespace PublishHandler

def joined (outcome : Bool × PublishResponse) : BranchEnd := .joined outcome.1 outcome.2

/-- The branches of `publish_inner`. -/
def branch (key tenant : Option String) : PublishHandler BranchEnd := do
  if state.keyless && state.store.api.isKeylessKeyId req.signature.keyId then
    return joined (← publishKeyless state draw req key tenant)
  else if "did:key:".toList.isPrefixOf req.agentId.toList then
    return joined (← proveAndCommit state draw req (state.api.proveDidKey req) key tenant)
  else if state.playground.enabled then
    match ← Handler.lift (enforcePinnedSignature state.api state.playground req draw.unixSeconds) with
    | .verified publicKeyB64 algorithm =>
      let proof := state.api.provePinned req publicKeyB64 algorithm
      return joined (← proveAndCommit state draw req proof key tenant)
    | _ =>
      let key := key.filter fun _ => state.supportsIdempotencyKey
      match ← unpinnedLookup draw req key with
      | some response =>
        arm
        return .answered (publishReply true response)
      | none => return joined (← unpinnedPublish state draw req key)
  else return joined (← proveAndCommit state draw req (state.api.prove req) key tenant)

/-- The tenant stamp after the branches have joined, replays included. -/
def stampTenant (tenant : Option String) (ctxId : String) :
    PublishHandler Unit := do
  if state.playground.enabled then
    match tenant with
    | some tenantId => modify fun s => { s with db := setTenantOfCtx ctxId tenantId s.db }
    | none => pure ()

/-- `publish_inner`, for a body that parsed or did not. -/
def publishInner (headers : Headers) (peer : Option IpAddr) (body : Except String PublishRequest)
    (draw : RequestDraw) : PublishHandler PublishReply := do
  let req ← Handler.lift (body.mapError fun e => .acdp (.schemaViolation e))
  Handler.lift (versionGates state req)
  let key := idempotencyKeyOf headers
  Handler.lift (rateLimitPeek state req.agentId)
  let tenant ← Handler.lift (state.tenants.tenantForPublish headers req.agentId peer)
  match ← branch state draw req key tenant with
  | .answered reply => return reply
  | .joined isReplay response =>
    stampTenant state tenant response.ctxId
    arm
    return publishReply isReplay response

end PublishHandler

end Branches

/-! ## Sample functions -/

def Sample.publishApi : PublishApi where
  prove _ := .ok {}
  proveDidKey _ := .ok {}
  provePinned _ _ _ := .ok {}
  commitProven authority keyTtl req _ key tenant :=
    { req, authority, tenant, idempotency := key.bind fun k => keyTtl.map (⟨k, ·⟩) }
  commitProven_req _ _ _ _ _ _ := rfl
  commitProven_key _ _ _ _ _ _ := rfl
  publishUnverified authority req := .ok { req, authority }
  validatePostSchema req := .ok req.contentHash
  ctxAuthority _ := "registry"
  keyAttestationFromMetadata _ := .error (.schemaViolation "")
  listedIdentities _ := .ok []
  verifyJwk _ _ _ _ := .ok ()
  verifyEd25519 _ _ _ := .ok ()
  verifyEcdsaP256 _ _ _ := .ok ()
  decodeB64 _ := .ok []
  decodeB64Url _ := .ok []
  encodeB64 _ := ""
  tag _ m := m
  isRegistryToken _ := true

end AcdpRegistry
