/-
  Key attestations (`acdp-registry-store/src/key_attestations.rs`): the index row
  kept beside an attestation body, and the pure checks each backend runs inside
  its publish transaction.  The backends only supply the reads.
-/
import AcdpRegistry.Store.Records

namespace AcdpRegistry

structure KeyAttestationIndexRow where
  ctxId : String
  controller : String
  identity : WorkloadIdentity
  orgWide : Bool
  keyId : String
  algorithm : String
  keyFingerprint : String
  /-- Start of the window, inclusive. -/
  notBeforeMs : ℤ
  /-- End of the window, exclusive. -/
  notAfterMs : ℤ
  tokenHash : String
  createdAtMs : ℤ
  deriving DecidableEq, Repr

namespace KeyAttestationIndexRow

/-- The row for `att`, the metadata of the stored `body`. -/
def new (body : Body) (att : KeyAttestation) : KeyAttestationIndexRow where
  ctxId := body.ctxId
  controller := att.controller
  identity := att.identity
  orgWide := att.orgWide
  keyId := att.keyId
  algorithm := att.algorithm
  keyFingerprint := att.keyFingerprint
  notBeforeMs := timestampMillis att.notBefore
  notAfterMs := timestampMillis att.notAfter
  tokenHash := att.tokenHash
  createdAtMs := timestampMillis body.createdAt

/-- The signer this attestation makes of a body. -/
def signer (row : KeyAttestationIndexRow) : KeylessSigner := .keyless row.identity row.orgWide

/-- Whether `t` lies in `[not_before, not_after)`. -/
def windowContains (row : KeyAttestationIndexRow) (t : ℤ) : Bool :=
  row.notBeforeMs ≤ timestampMillis t && timestampMillis t < row.notAfterMs

end KeyAttestationIndexRow

def keyAttestationType : String := "acdp:key-attestation"

variable (api : AcdpApi)

/-- An attestation this registry minted: typed `acdp:key-attestation` and published under the
    registry's own DID. -/
def isMintedAttestation (contextType : ContextType) (agentId authority : String) : Bool :=
  contextType = .custom keyAttestationType && agentId = api.authorityToDidWeb authority

/-- The index row a just-assigned body derives, if it is an attestation this registry minted. -/
def indexRowFor (body : Body) (authority : String) :
    Except AcdpError (Option KeyAttestationIndexRow) :=
  if isMintedAttestation api body.contextType body.agentId authority then
    match api.keyAttestationFromBody body with
    | .ok att => .ok (some (.new body att))
    | .error e =>
      let ctxId := body.ctxId
      let e := api.display e
      .error (.registryInternal s!"refusing to commit key attestation '{ctxId}': {e}")
  else .ok none

/-- The refusal for a token that already minted an attestation. -/
def tokenReplayed (tokenHash : String) : AcdpError :=
  .keyless .tokenReplayed s!"token {tokenHash} was already used for an attestation"

/-- The attestation a publish rests on, when its key id is a keyless one and it names one. -/
def keylessSuccessor (req : PublishRequest) : Option KeyAttestationRef :=
  if api.isKeylessKeyId req.signature.keyId then req.keyAttestation else none

/-- What a backend read about a keyless successor's attestation. -/
structure SuccessorAttestation where
  row : KeyAttestationIndexRow
  /-- The attestation context is retracted. -/
  withdrawn : Bool
  deriving DecidableEq, Repr

/-- The row has the request's controller, algorithm and key id, derived again from the attested
    fingerprint. -/
def KeyAttestationIndexRow.binds (row : KeyAttestationIndexRow) (req : PublishRequest) : Bool :=
  req.agentId = row.controller && req.signature.algorithm = row.algorithm &&
    req.signature.keyId = row.keyId &&
    match api.keylessKeyId row.controller row.keyFingerprint with
    | .ok k => k = req.signature.keyId
    | .error _ => false

/-- The attestation exists, binds the request, and is not retracted. -/
def admitSuccessor (req : PublishRequest) (attCtx : String) :
    Option SuccessorAttestation → Except AcdpError SuccessorAttestation
  | none => .error (.keyless .attestationNotFound s!"no key attestation at '{attCtx}'")
  | some found =>
    if !found.row.binds api req then
      .error (.keyless .attestationMismatch
        (s!"agent_id, signature.key_id or signature.algorithm differ from key attestation " ++
          s!"'{attCtx}'"))
    else if found.withdrawn then
      .error (.keyless .attestationWithdrawn s!"key attestation '{attCtx}' was retracted")
    else .ok found

/-- The assigned `created_at` lies in the attestation's window. -/
def checkWindow (found : SuccessorAttestation) (createdAt : ℤ) : Except AcdpError Unit :=
  if found.row.windowContains createdAt then .ok ()
  else
    let at_ := api.formatMs (api.truncMs createdAt)
    let ctxId := found.row.ctxId
    .error (.keyless .outsideAttestationWindow
      s!"created_at {at_} is outside the window of key attestation '{ctxId}'")

/-- The attestation a stored predecessor was signed under; `none` for a controller key. -/
def predecessorAttestation (body : Body) : Except AcdpError (Option String) :=
  let ctxId := body.ctxId
  if !api.isKeylessKeyId body.signature.keyId then .ok none
  else match body.keyAttestation with
    | .ok (some r) => .ok (some r.ctxId)
    | .ok none =>
      .error (.registryInternal s!"stored keyless body '{ctxId}' has no key_attestation")
    | .error e =>
      .error (.registryInternal
        s!"stored keyless body '{ctxId}' has a malformed key_attestation: {e}")

/-- The predecessor's signer, from its attestation and that attestation's index row. -/
def predecessorSigner : Option String → Option KeyAttestationIndexRow →
    Except AcdpError KeylessSigner
  | none, _ => .ok .controller
  | some _, some row => .ok row.signer
  | some att, none =>
    .error (.registryInternal s!"the predecessor's key attestation '{att}' has no index row")

/-- May `successor` supersede a body signed by `predecessor`? -/
def checkSupersession (predecessor : KeylessSigner) (successor : SuccessorAttestation) :
    Except AcdpError Unit :=
  match api.maySupersede predecessor successor.row.signer with
  | .ok () => .ok ()
  | .error reason =>
    let ctxId := successor.row.ctxId
    .error (.keyless reason
      s!"the identity of key attestation '{ctxId}' may not supersede this predecessor")

variable {api}

theorem admitSuccessor_ok {req : PublishRequest} {attCtx : String} {found : Option SuccessorAttestation}
    {succ : SuccessorAttestation} (h : admitSuccessor api req attCtx found = .ok succ) :
    found = some succ ∧ succ.row.binds api req ∧ succ.withdrawn = false := by
  cases found with
  | none => simp [admitSuccessor] at h
  | some f =>
    simp only [admitSuccessor] at h
    split_ifs at h with hb hw
    obtain rfl : f = succ := by simpa using h
    exact ⟨rfl, by simpa using hb, by simpa using hw⟩

theorem KeyAttestationIndexRow.binds_iff {row : KeyAttestationIndexRow} {req : PublishRequest} :
    row.binds api req ↔ req.agentId = row.controller ∧ req.signature.algorithm = row.algorithm ∧
      req.signature.keyId = row.keyId ∧
      api.keylessKeyId row.controller row.keyFingerprint = .ok req.signature.keyId := by
  unfold KeyAttestationIndexRow.binds
  cases api.keylessKeyId row.controller row.keyFingerprint <;> simp [and_assoc]

theorem checkWindow_ok {found : SuccessorAttestation} {t : ℤ}
    (h : checkWindow api found t = .ok ()) :
    found.row.notBeforeMs ≤ timestampMillis t ∧ timestampMillis t < found.row.notAfterMs := by
  unfold checkWindow at h
  split at h
  · next hw => simpa [KeyAttestationIndexRow.windowContains] using hw
  · simp at h

theorem checkSupersession_ok {pred : KeylessSigner} {succ : SuccessorAttestation}
    (h : checkSupersession api pred succ = .ok ()) :
    api.maySupersede pred succ.row.signer = .ok () := by
  unfold checkSupersession at h
  split at h
  · assumption
  · simp at h

theorem indexRowFor_ok {body : Body} {authority : String} {row : KeyAttestationIndexRow}
    (h : indexRowFor api body authority = .ok (some row)) :
    ∃ att, api.keyAttestationFromBody body = .ok att ∧ row = .new body att := by
  unfold indexRowFor at h
  split at h
  · split at h
    · next att hatt => exact ⟨att, hatt, by simpa using h.symm⟩
    · simp at h
  · simp at h

theorem isMinted_of_indexRowFor {body : Body} {authority : String}
    {a : KeyAttestationIndexRow} (h : indexRowFor api body authority = .ok (some a)) :
    isMintedAttestation api body.contextType body.agentId authority = true := by
  unfold indexRowFor at h
  split at h
  · assumption
  · cases h

end AcdpRegistry
