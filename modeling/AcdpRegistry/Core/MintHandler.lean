/-
  `POST /key-attestations` from the request to the answer
  (`acdp-registry-core/src/handlers/keyless.rs`).

  The handler makes three store calls, between which other calls commit: the token
  lookup, the commit of the attestation, and the retrieval of what it committed.
  The retrieval has no requester, so it goes by the rule for anonymous reads.
  Where the configuration closes them, the handler answers `500` for an
  attestation that is committed; nothing in the startup validation rules that out.
-/
import AcdpRegistry.Core.Keyless
import AcdpRegistry.Server.KeylessConfig
import AcdpRegistry.Store.PublishExits
import AcdpRegistry.Store.Read

namespace AcdpRegistry

open Lib

/-! ## Requests and answers -/

/-- A request that an extractor refuses, with its own status. -/
structure AcdpRejection where
  status : ℕ
  code : String
  message : String
  deriving DecidableEq, Repr

def AcdpRejection.unsupportedMediaType : AcdpRejection :=
  ⟨415, "unsupported_media_type", "Expected request with `Content-Type: application/json`"⟩

def AcdpRejection.payloadTooLarge : AcdpRejection :=
  ⟨413, "payload_too_large", "request body exceeds the configured limit"⟩

/-- The body of a mint request, as it is read and parsed; a parse error has the parser's text and
    place. -/
inductive MintBody
  | unsupportedMediaType
  | tooLarge
  | malformed (text : String) (line column : ℕ)
  | parsed (request : KeyAttestationRequest)

/-- A response: only `created` has status `201`. -/
inductive MintAnswer
  | rejected (r : AcdpRejection)
  | failed (e : RegistryError)
  | created (location : String) (ctx : FullContext)

def MintAnswer.isCreated : MintAnswer → Bool
  | created _ _ => true
  | _ => false

/-- What one request brings and draws. -/
structure MintRequest where
  clientIp : String
  body : MintBody
  verifyClockMs : ℤ
  windowClockMs : ℤ
  commit : PublishDraw
  retrieveNow : ℤ

/-- What the handler uses besides the configuration. -/
structure MintEnv where
  api : MintApi
  readsBack : api.ReadsBack
  publish : PublishApi
  dialect : Dialect
  eventReceiptMinter : Option EventReceiptMinter := none
  driverText : String := ""
  keyId : String
  publicKeyB64 : String
  supportedSignatureAlgorithms : List String := ["ed25519", "ecdsa-p256"]
  /-- The seconds to wait for a key over its budget. -/
  ipLimiter : Option (String → Option ℕ) := none
  identityLimiter : Option (String → Option ℕ) := none
  /-- `KeyAttestationRequest::validate`. -/
  validateRequest : KeyAttestationRequest → Except AcdpError Unit
  /-- Steps 2 and 3, at a time in Unix seconds. -/
  verify : KeyAttestationRequest → (registryDid : String) → ℤ → Except KeylessRefusal VerifiedToken
  /-- The identities that the controller's document lists, and whether the document is fresh. -/
  resolveUntil : (controller : String) → WorkloadIdentity → Except AcdpError (List ListedIdentity × Bool)

/-! ## The handler -/

section Handler

variable (cfg : RegistryConfig) (env : MintEnv) (req : MintRequest)

def MintEnv.store : SqlStore where
  dialect := env.dialect
  api := env.api.acdp
  logEnabled := cfg.logEnabled
  eventReceiptMinter := env.eventReceiptMinter
  driverText := env.driverText

def MintEnv.mintConfig : MintConfig where
  registryDid := env.api.acdp.authorityToDidWeb cfg.authority
  keyId := env.keyId
  authority := cfg.authority
  supportedSignatureAlgorithms := env.supportedSignatureAlgorithms
  maxAttestationTtlSeconds := cfg.keyless.maxAttestationTtlSeconds

def requestVersion : String := "acdp-key-attestation-request/1"

/-- `parse_error`: only the texts that name a member are repeated. -/
def parseError (text : String) (line column : ℕ) : RegistryError :=
  if "unknown field".toList.isPrefixOf text.toList || "missing field".toList.isPrefixOf text.toList then
    .acdp (.schemaViolation s!"not an {requestVersion} body: {text}")
  else
    .acdp (.schemaViolation s!"not an {requestVersion} body (line {line}, column {column})")

def identityKey : WorkloadIdentity → String
  | .oidc issuer subject => s!"id:oidc|{issuer}|{subject}"
  | .spiffe subject => s!"id:spiffe||{subject}"

def limited (limiter : Option (String → Option ℕ)) (key : String) : Except RegistryError Unit :=
  match limiter.bind (· key) with
  | some retryAfter => .error (.rateLimited retryAfter)
  | none => .ok ()

def MintBody.read : MintBody → Except MintAnswer KeyAttestationRequest
  | unsupportedMediaType => .error (.rejected .unsupportedMediaType)
  | tooLarge => .error (.rejected .payloadTooLarge)
  | malformed text line column => .error (.failed (parseError text line column))
  | parsed request => .ok request

/-- Step 6: an unlisted identity is refused for good only against a fresh document. -/
def MintEnv.listing (request : KeyAttestationRequest) : Except RegistryError ListedIdentity :=
  let controller := request.controller
  match env.resolveUntil controller request.identity with
  | .error e => .error (.acdp e)
  | .ok (listed, fresh) =>
    match listed.find? (·.identity = request.identity) with
    | some entry => .ok entry
    | none =>
      if fresh then
        .error (.withReason (.keyless .identityNotAuthorized
          s!"{controller} does not list this workload identity in its AcdpKeylessSigning service")
          "identity_not_authorized")
      else
        .error (.acdp (.keyResolutionUnreachable
          (s!"{controller} does not list this workload identity in a cached DID document, and " ++
            "re-fetching it is rate-limited; retry later")))

/-- The steps before the commit, with the tables as the token lookup finds them. -/
def mintPublish (seen : Db) : Except MintAnswer (VerifiedToken × PublishRequest) := do
  ensure cfg.keyless.enabled (.failed (.acdp (.notImplemented
    ("this registry does not advertise acdp-registry-keyless " ++
      "(RFC-ACDP-0021: /key-attestations is not implemented)"))))
  (limited env.ipLimiter ("ip:" ++ req.clientIp)).mapError .failed
  let request ← req.body.read
  ((env.validateRequest request).mapError .acdp).mapError .failed
  (limited env.identityLimiter (identityKey request.identity)).mapError .failed
  let verified ← ((env.verify request (env.mintConfig cfg).registryDid
    (req.verifyClockMs / 1000)).mapError KeylessRefusal.intoError).mapError .failed
  ensure (!seen.keyAttestations.any (·.tokenHash = verified.tokenHash))
    (.failed (.withReason (tokenReplayed verified.tokenHash) "token_replayed"))
  let publish ← (Mint.publishRequest env.api (env.mintConfig cfg) request verified
    (env.listing request) req.windowClockMs).mapError .failed
  return (verified, publish)

/-- The argument of the commit: no idempotency key and no tenant. -/
def mintCommit (publish : PublishRequest) (proven : Proven) : PublishCommit where
  req := publish
  authority := cfg.authority
  receiptMinter := proven.receiptMinter
  predecessorAdmission := proven.predecessorAdmission

/-- The answer once the store call is over: the retrieval reads the context from one state and its
    events from a later one. -/
def mintReply (outcome : Except AcdpError PublishCommitOutcome) (atRow atEvents : Db) : MintAnswer :=
  match outcome with
  | .error e => .failed (withKeylessReason env.publish e)
  | .ok done =>
    let ctxId := done.split.2.ctxId
    match (env.store cfg).retrieve ctxId none cfg.anonymousPublicReads req.retrieveNow atRow
      atEvents with
    | none => .failed (.internal s!"minted key attestation '{ctxId}' is not retrievable")
    | some ctx => .created (locationFor ctxId) ctx

/-- One request in an interleaving: its answer, and the commit it made, if it got there, for which
    token. -/
inductive Mints {ι : Type} {call : ι → Call} (S : StoreSchedule call) :
    Option (ι × VerifiedToken) → MintAnswer → Prop
  | stopped {t : ℕ} {a : MintAnswer} (h : mintPublish cfg env req (S.db t) = .error a) : Mints S none a
  | unproven {t : ℕ} {verified : VerifiedToken} {publish : PublishRequest} {e : AcdpError}
      (h : mintPublish cfg env req (S.db t) = .ok (verified, publish))
      (he : env.publish.provePinned publish env.publicKeyB64 "ed25519" = .error e) :
      Mints S none (.failed (withKeylessReason env.publish e))
  | answered {t m row events : ℕ} {verified : VerifiedToken} {publish : PublishRequest}
      {proven : Proven} {i : ι} {outcome : Except AcdpError PublishCommitOutcome}
      (h : mintPublish cfg env req (S.db t) = .ok (verified, publish))
      (hproven : env.publish.provePinned publish env.publicKeyB64 "ed25519" = .ok proven)
      (hcall : call i = .publish (env.store cfg) (mintCommit cfg publish proven) req.commit)
      (hanswer : Answers S i (mintCommit cfg publish proven) m outcome)
      (hrow : S.finish i < row) (hevents : row ≤ events) :
      Mints S (some (i, verified)) (mintReply cfg env req outcome (S.db row) (S.db events))

end Handler

/-! ## Effects -/

section Effects

variable {ι : Type} {call : ι → Call} (S : StoreSchedule call)

/-- The request's store call commits, at the moment `n`. -/
def MintWrites (k : Option (ι × VerifiedToken)) : Prop := ∃ p ∈ k, ∃ n, S.commits n = some p.1

/-- The request's store call commits an attestation and uses up the token. -/
def MintCommits (k : Option (ι × VerifiedToken)) : Prop :=
  ∃ p ∈ k, ∃ n row, S.commits n = some p.1 ∧
    (S.db (n + 1)).keyAttestations = (S.db n).keyAttestations ++ [row] ∧
    row.tokenHash = p.2.tokenHash ∧ ∀ r ∈ (S.db n).keyAttestations, r.tokenHash ≠ p.2.tokenHash

end Effects

/-! ## The request that is published -/

/-- An attestation is public and under the registry's own DID, and supersedes nothing. -/
structure AttestationRequest (api : AcdpApi) (authority : String) (publish : PublishRequest) :
    Prop where
  minted : isMintedAttestation api publish.contextType publish.agentId authority = true
  visibility : publish.visibility = .public_

theorem Mint.publishRequest_ok {api : MintApi} {config : MintConfig} {request : KeyAttestationRequest}
    {verified : VerifiedToken} {listing : Except RegistryError ListedIdentity} {clockMs : ℤ}
    {publish : PublishRequest}
    (h : Mint.publishRequest api config request verified listing clockMs = .ok publish) :
    AttestationRequest api.acdp config.authority publish := by
  obtain ⟨_, -, h⟩ := except_bind_ok.1 h
  obtain ⟨_, -, h⟩ := except_bind_ok.1 h
  obtain ⟨_, -, h⟩ := except_bind_ok.1 h
  obtain ⟨_, -, h⟩ := except_bind_ok.1 h
  obtain ⟨_, -, h⟩ := except_bind_ok.1 h
  obtain ⟨_, -, h⟩ := except_bind_ok.1 (except_mapError_ok.1 h)
  obtain ⟨_, -, h⟩ := except_bind_ok.1 h
  cases h
  exact ⟨by simp [isMintedAttestation], rfl⟩

section Published

variable {cfg : RegistryConfig} {env : MintEnv} {req : MintRequest} {seen : Db}
  {verified : VerifiedToken} {publish : PublishRequest}

theorem mintPublish_ok (h : mintPublish cfg env req seen = .ok (verified, publish)) :
    ∃ request, (MintRun.mk (env.mintConfig cfg) request verified (env.listing request)
      req.windowClockMs).publishRequest env.api = .ok publish := by
  obtain ⟨_, -, h⟩ := except_bind_ok.1 h
  obtain ⟨_, -, h⟩ := except_bind_ok.1 h
  obtain ⟨request, -, h⟩ := except_bind_ok.1 h
  obtain ⟨_, -, h⟩ := except_bind_ok.1 h
  obtain ⟨_, -, h⟩ := except_bind_ok.1 h
  obtain ⟨verified', -, h⟩ := except_bind_ok.1 h
  obtain ⟨_, -, h⟩ := except_bind_ok.1 h
  obtain ⟨publish', hpublish, h⟩ := except_bind_ok.1 h
  cases h
  exact ⟨request, except_mapError_ok.1 hpublish⟩

theorem MintBody.read_errors (body : MintBody) :
    ErrorsIn (fun a : MintAnswer => a.isCreated = false) body.read := by
  cases body with
  | parsed request => exact errorsIn_ok request
  | _ =>
    intro a h
    cases h
    rfl

theorem mintPublish_errors : ErrorsIn (fun a => a.isCreated = false) (mintPublish cfg env req seen) := by
  have hfailed : ∀ e, (MintAnswer.failed e).isCreated = false := fun _ => rfl
  refine errorsIn_bind (errorsIn_ensure rfl) fun _ => ?_
  refine errorsIn_bind (errorsIn_mapError hfailed) fun _ => ?_
  refine errorsIn_bind req.body.read_errors fun request => ?_
  refine errorsIn_bind (errorsIn_mapError hfailed) fun _ => ?_
  refine errorsIn_bind (errorsIn_mapError hfailed) fun _ => ?_
  refine errorsIn_bind (errorsIn_mapError hfailed) fun verified => ?_
  refine errorsIn_bind (errorsIn_ensure rfl) fun _ => ?_
  exact errorsIn_bind (errorsIn_mapError hfailed) fun publish => errorsIn_ok _

end Published

theorem retrieve_anonymous {st : SqlStore} {ctxId : String} {publicArmOpen : Bool} {now : ℤ}
    {atRow atEvents : Db} {row : ContextRow} (hrow : atRow.context? ctxId = some row)
    (hpublic : row.body.visibility = .public_) :
    (st.retrieve ctxId none publicArmOpen now atRow atEvents).isSome = publicArmOpen := by
  rw [SqlStore.retrieve, SqlStore.get, hrow, Option.map_some, Option.filter_some,
    Body.retrieveVisible, withEvents_body]
  rw [show row.toContext.body = row.body from rfl, hpublic]
  cases publicArmOpen <;> simp

theorem mintReply_isCreated {cfg : RegistryConfig} {env : MintEnv} {req : MintRequest}
    {done : PublishCommitOutcome} {atRow atEvents : Db} :
    (mintReply cfg env req (.ok done) atRow atEvents).isCreated =
      ((env.store cfg).retrieve done.split.2.ctxId none cfg.anonymousPublicReads req.retrieveNow atRow
        atEvents).isSome := by
  simp only [mintReply]
  cases (env.store cfg).retrieve done.split.2.ctxId none cfg.anonymousPublicReads req.retrieveNow atRow
    atEvents <;> rfl

/-! ## Answers and effects -/

section Run

variable {cfg : RegistryConfig} {env : MintEnv} {req : MintRequest} {ι : Type} {call : ι → Call}
  {S : StoreSchedule call} {k : Option (ι × VerifiedToken)} {a : MintAnswer}

theorem Mints.committed (h : Mints cfg env req S k a) (hwrites : MintWrites S k) :
    MintCommits S k ∧ a.isCreated = cfg.anonymousPublicReads := by
  obtain ⟨p, hp, n, hn⟩ := hwrites
  cases h with
  | stopped => cases hp
  | unproven => cases hp
  | @answered t m row events verified publish proven i outcome hpublish hproven hcall hanswer hrow
      hevents =>
    cases hp
    obtain ⟨request, hrequest⟩ := mintPublish_ok hpublish
    have hshape := Mint.publishRequest_ok hrequest
    obtain ⟨done, hresult, hs⟩ := commit_step S hn
    generalize hdb' : S.db (n + 1) = db' at hs
    rw [hcall] at hs
    cases hs with
    | @publish _ _ _ _ p hacc =>
      have hbody : p.row.body.metadata = publish.metadata := by rw [hacc.body]; rfl
      have hvisibility : p.row.body.visibility = .public_ := by
        rw [hacc.body]
        exact hshape.visibility
      -- the attestation is indexed, since it is the registry's own
      obtain ⟨att, hatt⟩ : ∃ att, p.attestation = some att := by
        have hindex := hacc.attestation
        rw [indexRowFor, if_pos (by rw [hacc.body]; exact hshape.minted)] at hindex
        split at hindex
        · exact ⟨_, (Except.ok.inj hindex).symm⟩
        · cases hindex
      have hindex := hacc.attestation
      rw [hatt] at hindex
      have hminted := MintRun.index_row env.readsBack hrequest hbody hindex
      refine ⟨⟨_, rfl, n, att, hn, ?_, hminted.hash, fun r hr => ?_⟩, ?_⟩
      · rw [hdb']
        show (S.db n).keyAttestations ++ p.attestation.toList = _
        rw [hatt]
        rfl
      · rw [← hminted.hash]
        exact (hacc.token att hatt).2 r hr
      · -- the row that the retrieval reads is the committed one
        obtain ⟨row₁, hrow₁, hsame₁⟩ := hacc.context?_publish
        rw [← hdb'] at hrow₁
        have hfin : S.finish i = n := S.finish_eq hn
        obtain ⟨row₂, hrow₂, hsame₂⟩ := row_kept S (show n + 1 ≤ row by omega) hrow₁
        rcases hanswer.2.2 with ⟨r, n', hr, -, rfl⟩ | ⟨e, he, -⟩
        · rw [hresult] at hr
          cases hr
          rw [SqlStore.publishAnswer, mintReply_isCreated]
          exact retrieve_anonymous hrow₂ (by rw [hsame₂.body, hsame₁.body]; exact hvisibility)
        · rw [hresult] at he
          cases he

theorem Mints.uncommitted (h : Mints cfg env req S k a) (hwrites : ¬MintWrites S k) :
    a.isCreated = false := by
  cases h with
  | @stopped t a h => exact mintPublish_errors a h
  | unproven => rfl
  | @answered t m row events verified publish proven i outcome hpublish hproven hcall hanswer hrow
      hevents =>
    rcases hanswer.2.2 with ⟨r, n, -, hn, -⟩ | ⟨e, he, rfl⟩
    · exact absurd ⟨_, rfl, n, hn⟩ hwrites
    · -- without an idempotency key there is no replay
      have hmet := publishTx_error (publish_run_error S hcall he)
      match e, hmet with
      | .answered (.error e), _ => rfl
      | .answered (.ok resp), ⟨_, _, _, hof, _⟩ =>
        obtain ⟨key, hkey, -⟩ := hof.key
        cases hkey
      | .keyTaken, ⟨_, _, _, hof⟩ =>
        obtain ⟨key, hkey, -⟩ := hof.key
        cases hkey

theorem Mints.off (h : Mints cfg env req S k a) (hoff : cfg.keyless.enabled = false) :
    ¬MintWrites S k := by
  have hstops : ∀ seen r, mintPublish cfg env req seen ≠ .ok r := by
    intro seen r hr
    obtain ⟨_, hon, -⟩ := except_bind_ok.1 hr
    rw [ensure_ok.1 hon] at hoff
    cases hoff
  rintro ⟨p, hp, -⟩
  cases h with
  | stopped => cases hp
  | unproven => cases hp
  | answered hpublish => exact hstops _ _ hpublish

end Run

/-! ## A request that commits

Whatever the configuration, some token, document and key make a request commit. -/

namespace Sample

def mintHandlerApi : MintApi :=
  { mintApi with
    acdp := { api with
      authorityToDidWeb := fun _ => "did:web:registry.example.com"
      isKeylessKeyId := fun _ => false } }

def mintEnv : MintEnv where
  api := mintHandlerApi
  readsBack := mintApi_readsBack
  publish := { publishApi with provePinned := fun _ _ _ => .ok { receiptMinter := some receipt } }
  dialect := .sqlite
  keyId := "did:web:registry.example.com#receipt-key-1"
  publicKeyB64 := ""
  validateRequest _ := .ok ()
  verify _ _ _ := .ok ⟨30, "sha256:a375"⟩
  resolveUntil _ _ := .ok ([⟨.spiffe "spiffe://td/x", false⟩], true)

def mintRequest : MintRequest where
  clientIp := "192.0.2.1"
  body := .parsed mint.request
  verifyClockMs := 0
  windowClockMs := 0
  commit := { now := 0, ctxId := "att" }
  retrieveNow := 0

def mintHandlerPublish (cfg : RegistryConfig) : PublishRequest :=
  { mintedRequest with
    summary := some (Mint.summary cfg.authority "ed25519" "did:web:agents.example.com:ci")
    metadata := some (.array [.string "did:web:agents.example.com:ci", .number 0,
      .number (30 * 10 ^ 9), .string "sha256:a375"]) }

theorem window_thirty {maxTtl : ℕ} (h : 60 ≤ maxTtl) :
    Mint.window 0 none maxTtl 30 = .ok (0, 30 * 10 ^ 9) := by
  have hclose : min (sat64 (0 + sat64 (min (min (600 : ℤ) maxTtl) 3600 * 1000)))
      (sat64 (30 * 1000)) = 30000 := by
    simp only [sat64]
    omega
  unfold Mint.window
  simp only [Option.getD_none, Mint.defaultTtlSeconds, Mint.maxWindowSeconds, Nat.cast_ofNat, hclose]
  rfl

theorem mintPublish_sample {cfg : RegistryConfig} (hon : cfg.keyless.enabled = true)
    (httl : 60 ≤ cfg.keyless.maxAttestationTtlSeconds) :
    mintPublish cfg mintEnv mintRequest {} =
      .ok (⟨30, "sha256:a375"⟩, mintHandlerPublish cfg) := by
  have hpublish : Mint.publishRequest mintHandlerApi (mintEnv.mintConfig cfg) mint.request
      ⟨30, "sha256:a375"⟩ (.ok ⟨.spiffe "spiffe://td/x", false⟩) 0 = .ok (mintHandlerPublish cfg) := by
    refine except_bind_ok.2 ⟨"ed25519", rfl, except_bind_ok.2 ⟨(), rfl, except_bind_ok.2 ⟨_, rfl, ?_⟩⟩⟩
    exact except_bind_ok.2 ⟨_, except_mapError_ok.2 (window_thirty httl), rfl⟩
  refine except_bind_ok.2 ⟨(), ensure_ok.2 hon, ?_⟩
  refine except_bind_ok.2 ⟨(), rfl, except_bind_ok.2 ⟨mint.request, rfl, ?_⟩⟩
  refine except_bind_ok.2 ⟨(), rfl, except_bind_ok.2 ⟨(), rfl, ?_⟩⟩
  refine except_bind_ok.2 ⟨⟨30, "sha256:a375"⟩, rfl, except_bind_ok.2 ⟨(), rfl, ?_⟩⟩
  exact except_bind_ok.2 ⟨_, except_mapError_ok.2 hpublish, rfl⟩

def mintHandlerCalls (cfg : RegistryConfig) (_ : Fin 1) : Call :=
  .publish (mintEnv.store cfg) (mintCommit cfg (mintHandlerPublish cfg) { receiptMinter := some receipt })
    mintRequest.commit

def mintHandlerSchedule (cfg : RegistryConfig) : StoreSchedule (mintHandlerCalls cfg) :=
  Schedule.serial _ {}

def mintHandlerResponse : PublishResponse :=
  ⟨"att", "att", 1, 0, .active,
    some (.object [("key_fingerprint", .string "key"), ("lineage_id", .string "att")])⟩

theorem mintHandlerSchedule_commits {cfg : RegistryConfig} (hlog : cfg.logEnabled = true) :
    (mintHandlerSchedule cfg).commits 0 = some 0 ∧
      (mintHandlerSchedule cfg).result 0 = .ok (.inserted mintHandlerResponse) := by
  obtain ⟨authority, profiles, flag, lifecycle, log, receipt, keyless⟩ := cfg
  obtain rfl : log = true := hlog
  exact ⟨rfl, rfl⟩

theorem mintHandler_mints {cfg : RegistryConfig} (hon : cfg.keyless.enabled = true)
    (httl : 60 ≤ cfg.keyless.maxAttestationTtlSeconds) (hlog : cfg.logEnabled = true) :
    Mints cfg mintEnv mintRequest (mintHandlerSchedule cfg) (some (0, ⟨30, "sha256:a375"⟩))
      (mintReply cfg mintEnv mintRequest (.ok (.inserted mintHandlerResponse))
        ((mintHandlerSchedule cfg).db 1) ((mintHandlerSchedule cfg).db 1)) := by
  obtain ⟨hcommits, hresult⟩ := mintHandlerSchedule_commits hlog
  exact .answered (t := 0) (m := 0) (mintPublish_sample hon httl) rfl rfl
    ⟨fun _ => le_rfl, le_rfl, .inl ⟨_, 0, hresult, hcommits, rfl⟩⟩ Nat.one_pos le_rfl

end Sample

/-! ## Configurations -/

/-- Every request is answered with `201` exactly when it commits an attestation and uses up its token;
    another answer leaves nothing behind. -/
def MintAnswersMatch (cfg : RegistryConfig) : Prop :=
  ∀ (env : MintEnv) (req : MintRequest) (ι : Type) (call : ι → Call) (S : StoreSchedule call)
    (k : Option (ι × VerifiedToken)) (a : MintAnswer), Mints cfg env req S k a →
    (a.isCreated = true → MintCommits S k) ∧ (a.isCreated = false → ¬MintWrites S k)

/-- **The answer of a mint matches its effect** under exactly those accepted configurations that do
    not mint or that open anonymous reads. -/
theorem mint_answers_match_iff {isHttpsUrl : String → Bool} {acdpVersion : String}
    {cfg : RegistryConfig} (hvalid : validateKeylessAt isHttpsUrl cfg acdpVersion = .ok ()) :
    MintAnswersMatch cfg ↔ cfg.keyless.enabled = false ∨ cfg.anonymousPublicReads = true := by
  constructor
  · intro hmatch
    rw [or_iff_not_imp_left, Bool.not_eq_false]
    intro hon
    obtain ⟨hkeyless, -, hlog⟩ := validateKeylessAt_on hvalid hon
    have hmints := Sample.mintHandler_mints hon (KeylessConfig.validate_ttl hkeyless) hlog
    have hwrites : MintWrites (Sample.mintHandlerSchedule cfg) (some (0, ⟨30, "sha256:a375"⟩)) :=
      ⟨_, rfl, 0, (Sample.mintHandlerSchedule_commits hlog).1⟩
    rw [← (hmints.committed hwrites).2]
    exact Bool.eq_true_of_not_eq_false fun hno => (hmatch _ _ _ _ _ _ _ hmints).2 hno hwrites
  · intro hcfg env req ι call S k a h
    by_cases hwrites : MintWrites S k
    · obtain ⟨hcommits, hcreated⟩ := h.committed hwrites
      refine ⟨fun _ => hcommits, fun hno => ?_⟩
      rcases hcfg with hoff | hopen
      · exact absurd hwrites (h.off hoff)
      · rw [hcreated, hopen] at hno
        cases hno
    · refine ⟨fun hcreated => ?_, fun _ => hwrites⟩
      rw [h.uncommitted hwrites] at hcreated
      cases hcreated

def Sample.keylessConfig (anonymousPublicReads : Bool) : RegistryConfig where
  authority := "registry.example.com"
  anonymousPublicReads := anonymousPublicReads
  lifecycleEnabled := true
  logEnabled := true
  receipt := { signingKeySeedB64 := "BwcHBwcHBwcHBwcHBwcHBwcHBwcHBwcHBwcHBwcHBwc=" }
  keyless := { enabled := true, oidcIssuers := [⟨"https://token.actions.example", none⟩] }

theorem Sample.keylessConfig_valid (anonymousPublicReads : Bool) :
    validateKeylessAt (fun _ => true) (Sample.keylessConfig anonymousPublicReads) "0.5.0" = .ok () := by
  cases anonymousPublicReads <;> decide

theorem mint_answers_match_sample :
    validateKeylessAt (fun _ => true) (Sample.keylessConfig true) "0.5.0" = .ok () ∧
      MintAnswersMatch (Sample.keylessConfig true) :=
  ⟨Sample.keylessConfig_valid true,
    (mint_answers_match_iff (Sample.keylessConfig_valid true)).2 (.inr rfl)⟩

/-- With anonymous reads closed, which is the default, a committed attestation is answered with `500`. -/
theorem committed_mint_is_not_retrievable :
    validateKeylessAt (fun _ => true) (Sample.keylessConfig false) "0.5.0" = .ok () ∧
      ∃ k, MintCommits (Sample.mintHandlerSchedule (Sample.keylessConfig false)) k ∧
        Mints (Sample.keylessConfig false) Sample.mintEnv Sample.mintRequest
          (Sample.mintHandlerSchedule (Sample.keylessConfig false)) k
          (.failed (.internal "minted key attestation 'att' is not retrievable")) := by
  have hmints : Mints (Sample.keylessConfig false) _ _ _ _ _ :=
    Sample.mintHandler_mints rfl (by decide) rfl
  refine ⟨Sample.keylessConfig_valid false, _, (hmints.committed ⟨_, rfl, 0, ?_⟩).1, hmints⟩
  exact (Sample.mintHandlerSchedule_commits rfl).1

end AcdpRegistry
