/-
  Keyless publishing end to end.

  A keyless context rests on an attestation that the registry minted for a token.
  Index rows are only added, so what the gates of a publish read of them stays
  true.  The window of an index row is the one the mint computed, which ends at the
  token's `exp` at the latest.
-/
import AcdpRegistry.Core.Mint
import AcdpRegistry.Store.LifecycleSpec

namespace AcdpRegistry

open Lib

/-! ## Mints -/

variable {a : KeyAttestationIndexRow} {req : PublishRequest} {body : Body}

namespace Mint

theorem instantOfMillis_ok {ms t : ℤ} (h : instantOfMillis ms = .ok t) :
    t = ms * 10 ^ 6 ∧ -(2 ^ 63) ≤ ms := by
  unfold instantOfMillis at h
  split at h
  · next hof =>
    cases h
    exact ⟨Instant.ofMillis_eq hof, Instant.ofMillis_ge hof⟩
  · cases h

theorem window_ok {nowMs tokenExp : ℤ} {requested : Option ℕ} {maxTtl : ℕ} {w : ℤ × ℤ}
    (h : window nowMs requested maxTtl tokenExp = .ok w) :
    ∃ notAfterMs, w = (nowMs * 10 ^ 6, notAfterMs * 10 ^ 6) ∧ nowMs < notAfterMs ∧
      notAfterMs ≤ nowMs + 3600 * 1000 ∧ notAfterMs ≤ tokenExp * 1000 := by
  unfold window at h
  simp only at h
  split at h
  · cases h
  · next hopen =>
    obtain ⟨notBefore, hbefore, h⟩ := except_bind_ok.1 h
    obtain ⟨notAfter, hafter, h⟩ := except_bind_ok.1 h
    cases h
    obtain ⟨rfl, hnow⟩ := instantOfMillis_ok hbefore
    obtain ⟨rfl, -⟩ := instantOfMillis_ok hafter
    refine ⟨_, rfl, lt_of_not_ge hopen, ?_, ?_⟩
    · simp only [maxWindowSeconds, sat64] at *
      omega
    · refine le_trans (min_le_right _ _) (sat64_le ?_)
      simp only [sat64] at *
      omega

end Mint

structure MintRun where
  config : MintConfig
  request : KeyAttestationRequest
  verified : VerifiedToken
  listing : Except RegistryError ListedIdentity
  clockMs : ℤ

def MintRun.publishRequest (m : MintRun) (api : MintApi) : Except RegistryError PublishRequest :=
  Mint.publishRequest api m.config m.request m.verified m.listing m.clockMs

/-- The attestation schema: what is read from a body is what its metadata was made from.  Its
    instants have milliseconds. -/
def MintApi.ReadsBack (api : MintApi) : Prop :=
  ∀ {att att' : KeyAttestation} {value : Json} {body : Body}, api.attestationValue att = .ok value →
    wholeMs att.notBefore = att.notBefore → wholeMs att.notAfter = att.notAfter →
    body.metadata = some value → api.acdp.keyAttestationFromBody body = .ok att' → att' = att

/-- The index row is of an attestation minted for this token. -/
structure MintedFor (token : VerifiedToken) (a : KeyAttestationIndexRow) : Prop where
  hash : a.tokenHash = token.tokenHash
  hour : a.notAfterMs ≤ a.notBeforeMs + 3600 * 1000
  exp : a.notAfterMs ≤ token.exp * 1000

theorem MintRun.index_window {api : MintApi} (hreads : api.ReadsBack) {m : MintRun}
    (h : m.publishRequest api = .ok req) {authority : String}
    (hbody : body.metadata = req.metadata)
    (ha : indexRowFor api.acdp body authority = .ok (some a)) :
    a.tokenHash = m.verified.tokenHash ∧ a.notBeforeMs < a.notAfterMs ∧
      a.notAfterMs ≤ a.notBeforeMs + 3600 * 1000 ∧ a.notAfterMs ≤ m.verified.exp * 1000 := by
  obtain ⟨algorithm, -, h₁⟩ := except_bind_ok.1 h
  obtain ⟨_, -, h₂⟩ := except_bind_ok.1 h₁
  obtain ⟨entry, -, h₃⟩ := except_bind_ok.1 h₂
  obtain ⟨w, hw, h₄⟩ := except_bind_ok.1 h₃
  obtain ⟨att, hatt, h₅⟩ := except_bind_ok.1 h₄
  obtain ⟨notAfterMs, rfl, hopen, hhour, hexp⟩ := Mint.window_ok (except_mapError_ok.1 hw)
  obtain ⟨fingerprint, -, hatt⟩ := except_bind_ok.1 (except_mapError_ok.1 hatt)
  obtain ⟨keyId, -, hatt⟩ := except_bind_ok.1 hatt
  cases hatt
  obtain ⟨value, hvalue, h₆⟩ := except_bind_ok.1 (except_mapError_ok.1 h₅)
  obtain ⟨produced, -, h₇⟩ := except_bind_ok.1 h₆
  cases h₇
  obtain ⟨att', hread, rfl⟩ := indexRowFor_ok ha
  obtain rfl := hreads hvalue (by simp [wholeMs]) (by simp [wholeMs]) hbody hread
  refine ⟨rfl, ?_, ?_, ?_⟩
  all_goals
    simp only [KeyAttestationIndexRow.new, timestampMillis]
    omega

theorem MintRun.index_row {api : MintApi} (hreads : api.ReadsBack) {m : MintRun}
    (h : m.publishRequest api = .ok req) {authority : String}
    (hbody : body.metadata = req.metadata)
    (ha : indexRowFor api.acdp body authority = .ok (some a)) : MintedFor m.verified a := by
  obtain ⟨hhash, -, hhour, hexp⟩ := m.index_window hreads h hbody ha
  exact ⟨hhash, hhour, hexp⟩

/-! ## Keyless contexts -/

/-- The attestation a stored body rests on: its key id is a keyless one and it names one. -/
def Body.restsOn (api : AcdpApi) (body : Body) : Option KeyAttestationRef :=
  match body.keyAttestation with
  | .ok r => if api.isKeylessKeyId body.signature.keyId then r else none
  | .error _ => none

def Db.indexRow? (db : Db) (ctxId : String) : Option KeyAttestationIndexRow :=
  db.keyAttestations.find? (·.ctxId = ctxId)

def Db.signerOf (api : AcdpApi) (db : Db) (body : Body) : Except AcdpError KeylessSigner := do
  let att ← predecessorAttestation api body
  predecessorSigner att (att.bind db.indexRow?)

/-- The index row attests the key of the body, for the time it was created. -/
structure Attests (a : KeyAttestationIndexRow) (body : Body) : Prop where
  controller : a.controller = body.agentId
  keyId : a.keyId = body.signature.keyId
  algorithm : a.algorithm = body.signature.algorithm
  begun : a.notBeforeMs ≤ timestampMillis body.createdAt
  open_ : timestampMillis body.createdAt < a.notAfterMs

/-- What every reachable state keeps about keyless contexts; `P` holds of every index row. -/
structure KeylessTables (api : AcdpApi) (P : KeyAttestationIndexRow → Prop) (db : Db) : Prop where
  tokens : (db.keyAttestations.map (·.tokenHash)).Nodup
  minted : ∀ a ∈ db.keyAttestations, P a
  attested : ∀ body ∈ db.contexts.map (·.body), ∀ r, body.restsOn api = some r →
    ∃ a, db.indexRow? r.ctxId = some a ∧ Attests a body
  supersedes : ∀ body ∈ db.contexts.map (·.body), ∀ r prev, body.restsOn api = some r →
    body.supersedes = some prev → ∃ prevBody ∈ db.contexts.map (·.body), prevBody.ctxId = prev ∧
      ∃ a signer, db.indexRow? r.ctxId = some a ∧ db.signerOf api prevBody = .ok signer ∧
        api.maySupersede signer a.signer = .ok ()

theorem restsOn_fromPublishRequest (api : AcdpApi) (req : PublishRequest)
    (ctxId lineageId authority : String) (createdAt : ℤ) :
    (Body.fromPublishRequest req ctxId lineageId authority createdAt).restsOn api =
      keylessSuccessor api req := rfl

/-! ## Index rows are only added -/

variable {r : KeyAttestationRef}

section Grows

variable {db db' : Db} (hgrows : db.keyAttestations <+: db'.keyAttestations)

include hgrows

theorem indexRow?_mono {ctxId : String} (h : db.indexRow? ctxId = some a) :
    db'.indexRow? ctxId = some a := by
  obtain ⟨new, hnew⟩ := hgrows
  rw [Db.indexRow?, ← hnew, List.find?_append]
  rw [Db.indexRow?] at h
  rw [h, Option.some_or]

theorem signerOf_mono {api : AcdpApi} {signer : KeylessSigner}
    (h : db.signerOf api body = .ok signer) : db'.signerOf api body = .ok signer := by
  obtain ⟨att, hatt, h⟩ := except_bind_ok.1 h
  refine except_bind_ok.2 ⟨att, hatt, ?_⟩
  cases att with
  | none => exact h
  | some ctxId =>
    cases hrow : db.indexRow? ctxId with
    | none => simp [hrow, predecessorSigner] at h
    | some a =>
      rw [Option.bind_some, hrow] at h
      rw [Option.bind_some, indexRow?_mono hgrows hrow]
      exact h

end Grows

theorem attestation?_indexRow {db : Db} {ctxId : String} {succ : SuccessorAttestation}
    (h : db.attestation? ctxId = some succ) : db.indexRow? ctxId = some succ.row := by
  obtain ⟨a, ha, h⟩ := Option.bind_eq_some_iff.1 h
  obtain ⟨row, -, h⟩ := Option.bind_eq_some_iff.1 h
  cases h
  exact ha

theorem SignerMay.signerOf {api : AcdpApi} {prev : Body} {found other db : Db}
    (h : SignerMay api req prev r found other)
    (hfound : found.keyAttestations <+: db.keyAttestations)
    (hother : other.keyAttestations <+: db.keyAttestations) :
    ∃ a signer, db.indexRow? r.ctxId = some a ∧ db.signerOf api prev = .ok signer ∧
      api.maySupersede signer a.signer = .ok () := by
  obtain ⟨succ, att, pred, hsucc, -, hatt, hpred, hmay⟩ := h
  refine ⟨succ.row, pred, indexRow?_mono hfound (attestation?_indexRow hsucc),
    signerOf_mono hother (except_bind_ok.2 ⟨att, hatt, ?_⟩), hmay⟩
  cases att with
  | none => exact hpred
  | some ctxId =>
    rw [Option.bind_some] at hpred ⊢
    cases hrow : other.attestation? ctxId with
    | none => simp [hrow, predecessorSigner] at hpred
    | some s =>
      rw [hrow] at hpred
      rw [attestation?_indexRow hrow]
      exact hpred

theorem InWindow.attests {api : AcdpApi} {createdAt : ℤ} {found db : Db}
    (h : InWindow api req (wholeMs createdAt) r found)
    (hfound : found.keyAttestations <+: db.keyAttestations) (ctxId lineageId authority : String) :
    ∃ a, db.indexRow? r.ctxId = some a ∧
      Attests a (.fromPublishRequest req ctxId lineageId authority (wholeMs createdAt)) := by
  obtain ⟨succ, hsucc, hbinds, -, hbegun, hopen⟩ := h
  obtain ⟨hagent, halg, hkey, -⟩ := KeyAttestationIndexRow.binds_iff.1 hbinds
  have htime : timestampMillis (wholeMs (wholeMs createdAt)) = timestampMillis (wholeMs createdAt) := by
    simp [timestampMillis, wholeMs]
  refine ⟨succ.row, indexRow?_mono hfound (attestation?_indexRow hsucc), hagent.symm, hkey.symm,
    halg.symm, ?_, ?_⟩
  · exact htime ▸ hbegun
  · exact htime ▸ hopen

/-! ## Steps -/

section Steps

variable {api : AcdpApi} {P : KeyAttestationIndexRow → Prop} {seen : Db → Prop} {db db' : Db}

variable (h : KeylessTables api P db)
include h

theorem KeylessTables.attested_mono (hgrows : db.keyAttestations <+: db'.keyAttestations)
    (hbody : body ∈ db.contexts.map (·.body)) (hr : body.restsOn api = some r) :
    ∃ a, db'.indexRow? r.ctxId = some a ∧ Attests a body := by
  obtain ⟨a, ha, hattests⟩ := h.attested body hbody r hr
  exact ⟨a, indexRow?_mono hgrows ha, hattests⟩

theorem KeylessTables.supersedes_mono (hgrows : db.keyAttestations <+: db'.keyAttestations)
    (hbodies : db.contexts.map (·.body) ⊆ db'.contexts.map (·.body))
    (hbody : body ∈ db.contexts.map (·.body)) {prev : String} (hr : body.restsOn api = some r)
    (hprev : body.supersedes = some prev) :
    ∃ prevBody ∈ db'.contexts.map (·.body), prevBody.ctxId = prev ∧
      ∃ a signer, db'.indexRow? r.ctxId = some a ∧ db'.signerOf api prevBody = .ok signer ∧
        api.maySupersede signer a.signer = .ok () := by
  obtain ⟨prevBody, hmem, hid, a, signer, ha, hsigner, hmay⟩ := h.supersedes body hbody r prev hr hprev
  exact ⟨prevBody, hbodies hmem, hid, a, signer, indexRow?_mono hgrows ha,
    signerOf_mono hgrows hsigner, hmay⟩

theorem KeylessTables.publish {st : SqlStore} {c : PublishCommit} {draw : PublishDraw} {p : Publication}
    (hapi : st.api = api) (hseen : ∀ d, seen d → d.keyAttestations <+: db.keyAttestations)
    (hacc : Accepted st c draw seen db p) (hminted : ∀ a ∈ p.attestation, P a) :
    KeylessTables api P (db.publish p) := by
  subst hapi
  have hgrows : db.keyAttestations <+: (db.publish p).keyAttestations := List.prefix_append _ _
  have hbodies : db.contexts.map (·.body) ⊆ (db.publish p).contexts.map (·.body) := by
    rw [Db.bodies_publish]
    exact List.subset_append_left _ _
  have hrests : p.row.body.restsOn st.api = keylessSuccessor st.api c.req := by
    rw [hacc.body, restsOn_fromPublishRequest]
  constructor
  · show ((db.keyAttestations ++ p.attestation.toList).map (·.tokenHash)).Nodup
    cases hatt : p.attestation with
    | none => simpa using h.tokens
    | some a =>
      obtain ⟨-, hfree⟩ := hacc.token a hatt
      rw [List.map_append, List.nodup_append]
      refine ⟨h.tokens, by simp, ?_⟩
      rintro token hold token' hnew rfl
      obtain ⟨r, hr, rfl⟩ := List.mem_map.1 hold
      exact hfree r hr (by simpa using hnew)
  · intro a ha
    rcases List.mem_append.1 ha with ha | ha
    · exact h.minted a ha
    · exact hminted a (by simpa using ha)
  · intro body hbody r hr
    rw [Db.bodies_publish] at hbody
    rcases List.mem_append.1 hbody with hold | hnew
    · exact h.attested_mono hgrows hold hr
    · obtain rfl := List.mem_singleton.1 hnew
      rw [hrests] at hr
      obtain ⟨d, hd, hwindow⟩ := hacc.window r hr
      rw [hacc.body]
      exact hwindow.attests ((hseen d hd).trans hgrows) _ _ _
  · intro body hbody r prev hr hprev
    rw [Db.bodies_publish] at hbody
    rcases List.mem_append.1 hbody with hold | hnew
    · exact h.supersedes_mono hgrows hbodies hold hr hprev
    · obtain rfl := List.mem_singleton.1 hnew
      rw [hrests] at hr
      have hsup : c.req.supersedes = some prev := by
        rw [hacc.body] at hprev
        exact hprev
      obtain ⟨firstV1, -, -, htarget⟩ := hacc.ids
      obtain ⟨row, hrow, -, hsigner, -⟩ := htarget prev hsup
      obtain ⟨found, other, hfound, hother, hmay⟩ := hsigner r hr
      obtain ⟨hmem, hid⟩ := Db.context?_eq_some hrow
      exact ⟨row.body, hbodies (List.mem_map_of_mem hmem), hid,
        hmay.signerOf ((hseen found hfound).trans hgrows) ((hseen other hother).trans hgrows)⟩

theorem KeylessTables.applyEvent (a : EventAppend) :
    KeylessTables api P (db.applyEvent a) := by
  have hbodies := Db.bodies_applyEvent a db
  have hgrows : db.keyAttestations <+: (db.applyEvent a).keyAttestations := List.prefix_rfl
  refine ⟨h.tokens, h.minted, fun body hbody r hr => ?_, fun body hbody r prev hr hprev => ?_⟩
  · rw [hbodies] at hbody
    exact h.attested_mono hgrows hbody hr
  · rw [hbodies] at hbody
    exact h.supersedes_mono hgrows (fun _ hmem => hbodies.symm ▸ hmem) hbody hr hprev

omit h in
theorem CommitStep.keyAttestations {call : Call} {a : CallDone} (h : CommitStep seen call db db' a) :
    db.keyAttestations <+: db'.keyAttestations := by
  cases h with
  | publish => exact List.prefix_append _ _
  | event => exact List.prefix_rfl
  | evict => exact List.prefix_rfl

end Steps

/-! ## Runs -/

section Runs

variable {ι : Type} {call : ι → Call} (S : StoreSchedule call)

theorem keyAttestations_kept {m n : ℕ} (hmn : m ≤ n) :
    (S.db m).keyAttestations <+: (S.db n).keyAttestations := by
  refine S.rel (R := fun db db' => db.keyAttestations <+: db'.keyAttestations)
    (fun _ => List.prefix_rfl) (fun _ _ _ => List.IsPrefix.trans) hmn fun t i _ _ hi => ?_
  obtain ⟨a, -, hs⟩ := commit_step S hi
  exact hs.keyAttestations

/-- Every call that publishes an attestation of the registry is one of these mints. -/
def FromMints (api : MintApi) (call : ι → Call) (mints : ι → Option MintRun) : Prop :=
  ∀ i st c draw, call i = .publish st c draw →
    isMintedAttestation api.acdp c.req.contextType c.req.agentId c.authority = true →
    ∃ m, mints i = some m ∧ m.publishRequest api = .ok c.req

/-- The index row was minted for the token of a call that committed. -/
def MintedBy (mints : ι → Option MintRun) (a : KeyAttestationIndexRow) : Prop :=
  ∃ i m k, S.commits k = some i ∧ mints i = some m ∧ MintedFor m.verified a

theorem keyless_reachable (h0 : S.db 0 = {}) {api : MintApi}
    (hapi : ∀ i, (call i).store.api = api.acdp) (hreads : api.ReadsBack)
    {mints : ι → Option MintRun} (hmints : FromMints api call mints) (n : ℕ) :
    KeylessTables api.acdp (MintedBy S mints) (S.db n) := by
  refine S.keeps ?_ (fun n i hn hI => ?_) n
  · rw [h0]
    refine ⟨List.nodup_nil, ?_, ?_, ?_⟩ <;> intro x hx <;> cases hx
  · have hdb := hI n le_rfl
    obtain ⟨done, -, hs⟩ := commit_step S hn
    generalize hdb' : S.db (n + 1) = db' at hs
    generalize hcall : call i = k at hs
    cases hs with
    | @publish st c draw _ p hacc =>
      have hst : st.api = api.acdp := by
        have := hapi i
        rw [hcall] at this
        exact this
      refine hdb.publish hst (fun d hd => ?_) hacc fun a ha => ?_
      · obtain ⟨m, hm, rfl⟩ := hd.past S hn
        exact keyAttestations_kept S hm
      · have hindex := hacc.attestation
        rw [hst, show p.attestation = some a from ha] at hindex
        have hbody : p.row.body.metadata = c.req.metadata := by rw [hacc.body]; rfl
        obtain ⟨m, hm, hreq⟩ := hmints i st c draw hcall (by
          have := isMinted_of_indexRowFor hindex
          rw [hacc.body] at this
          exact this)
        exact ⟨i, m, n, hn, hm, m.index_row hreads hreq hbody hindex⟩
    | event => exact hdb.applyEvent _
    | evict => exact ⟨hdb.tokens, hdb.minted, hdb.attested, hdb.supersedes⟩

end Runs

/-- **Keyless publishing end to end.**  In every interleaving of calls, from an empty database, where
    attestations come from mints only: every keyless context rests on an attestation of its producer,
    key and algorithm, within a window of at most an hour that ends by the token's `exp`; a token is
    used once; and a keyless successor was allowed by the rule for the two signers. -/
theorem keyless_end_to_end {ι : Type} {call : ι → Call} (S : StoreSchedule call) (h0 : S.db 0 = {})
    {api : MintApi} (hapi : ∀ i, (call i).store.api = api.acdp) (hreads : api.ReadsBack)
    {mints : ι → Option MintRun} (hmints : FromMints api call mints) (n : ℕ) :
    (∀ row ∈ (S.db n).contexts, ∀ r, row.body.restsOn api.acdp = some r →
      ∃ a ∈ (S.db n).keyAttestations, a.ctxId = r.ctxId ∧ Attests a row.body ∧
        ∃ i m k, S.commits k = some i ∧ mints i = some m ∧ MintedFor m.verified a ∧
          row.body.createdAt < Instant.ofUnix m.verified.exp) ∧
    ((S.db n).keyAttestations.map (·.tokenHash)).Nodup ∧
    (∀ row ∈ (S.db n).contexts, ∀ r prev, row.body.restsOn api.acdp = some r →
      row.body.supersedes = some prev → ∃ other ∈ (S.db n).contexts, other.body.ctxId = prev ∧
        ∃ a ∈ (S.db n).keyAttestations, a.ctxId = r.ctxId ∧
          ∃ signer, (S.db n).signerOf api.acdp other.body = .ok signer ∧
            api.acdp.maySupersede signer a.signer = .ok ()) := by
  have hinv := keyless_reachable S h0 hapi hreads hmints n
  have hindexed : ∀ {ctxId a}, (S.db n).indexRow? ctxId = some a →
      a ∈ (S.db n).keyAttestations ∧ a.ctxId = ctxId := fun h =>
    ⟨List.mem_of_find?_eq_some h, by simpa using List.find?_some h⟩
  refine ⟨fun row hrow r hr => ?_, hinv.tokens, fun row hrow r prev hr hprev => ?_⟩
  · obtain ⟨a, ha, hattests⟩ := hinv.attested row.body (List.mem_map_of_mem hrow) r hr
    obtain ⟨hmem, hid⟩ := hindexed ha
    obtain ⟨i, m, k, hk, hm, hminted⟩ := hinv.minted a hmem
    refine ⟨a, hmem, hid, hattests, i, m, k, hk, hm, hminted, ?_⟩
    have hopen := hattests.open_
    have hexp := hminted.exp
    simp only [timestampMillis, Instant.ofUnix] at *
    omega
  · obtain ⟨prevBody, hbody, hprevId, a, signer, ha, hsigner, hmay⟩ :=
      hinv.supersedes row.body (List.mem_map_of_mem hrow) r prev hr hprev
    obtain ⟨other, hother, rfl⟩ := List.mem_map.1 hbody
    obtain ⟨hmem, hid⟩ := hindexed ha
    exact ⟨other, hother, hprevId, a, hmem, hid, signer, hsigner, hmay⟩

/-! ## A sample run -/

namespace Sample

def mintApi : MintApi where
  acdp := api
  jwkAlgorithm _ := .ok "ed25519"
  jwkFingerprint _ := .ok "f7b7"
  jwkVerify _ _ _ _ := .ok ()
  popPreimage _ _ := .ok ""
  attestationValue att :=
    if decodeAttestation (some (encodeAttestation att)) = .ok att then .ok (encodeAttestation att)
    else .error (.schemaViolation "key attestation")
  produce draft := .ok ("attestation", ⟨draft.keyId, "ed25519", ""⟩)

theorem mintApi_readsBack : mintApi.ReadsBack := by
  intro att att' value body hvalue _ _ hbody hread
  simp only [mintApi] at hvalue
  split at hvalue
  · next hback =>
    cases hvalue
    rw [show mintApi.acdp.keyAttestationFromBody body = decodeAttestation body.metadata from rfl,
      hbody, hback] at hread
    exact (Except.ok.inj hread).symm
  · cases hvalue

def mint : MintRun where
  config := ⟨"did:web:registry.example.com", "did:web:registry.example.com#receipt-key-1",
    "registry.example.com", ["ed25519"], 3600⟩
  request :=
    { controller := "did:web:agents.example.com:ci", identity := .spiffe "spiffe://td/x"
      token := "token", algorithm := "ed25519", publicKeyJwk := ⟨"OKP", "Ed25519", "NLTZ", none⟩
      pop := "" }
  verified := ⟨300, "sha256:a375"⟩
  listing := .ok ⟨.spiffe "spiffe://td/x", false⟩
  clockMs := 0

def mintedRequest : PublishRequest where
  agentId := "did:web:registry.example.com"
  title := Mint.title
  summary := some (Mint.summary "registry.example.com" "ed25519" "did:web:agents.example.com:ci")
  schemaUri := some Mint.schemaUri
  contextType := .custom keyAttestationType
  contentHash := "attestation"
  signature := ⟨"did:web:registry.example.com#receipt-key-1", "ed25519", ""⟩
  metadata := some (.array [.string "did:web:agents.example.com:ci", .number 0,
    .number (300 * 10 ^ 9), .string "sha256:a375"])
  acdpVersion := some "0.5.0"

theorem mint_publishRequest : mint.publishRequest mintApi = .ok mintedRequest := by
  rfl

def mintCalls (i : Fin 2) : Call :=
  if (i : ℕ) = 0 then
    .publish { dialect := .postgres, api := api }
      { req := mintedRequest, authority := "registry.example.com" } { now := 0, ctxId := "att" }
  else
    .publish { dialect := .postgres, api := api }
      { req := { request "did:web:agents.example.com:ci" "hash" with
          signature := ⟨"did:web:agents.example.com:ci#acdp-kl-f7b7", "ed25519", ""⟩
          keyAttestation := some ⟨"att", "attestation"⟩ }
        authority := "registry.example.com" }
      { now := 10 ^ 9, ctxId := "ctx1" }

def mints (i : Fin 2) : Option MintRun :=
  if (i : ℕ) = 0 then some mint else none

theorem mintCalls_fromMints : FromMints mintApi mintCalls mints := by
  intro i st c draw hi hminted
  rcases Fin.exists_fin_two.1 ⟨i, rfl⟩ with rfl | rfl
  · cases hi
    exact ⟨mint, rfl, mint_publishRequest⟩
  · cases hi
    cases hminted

def mintSchedule : StoreSchedule mintCalls := Schedule.serial _ {}

end Sample

theorem keyless_end_to_end_sample :
    Sample.mintSchedule.commits 1 = some 1 ∧
      ∃ row ∈ (Sample.mintSchedule.db 2).contexts, row.body.ctxId = "ctx1" ∧
        row.body.createdAt < Instant.ofUnix 300 := by
  have hapi : ∀ i, (Sample.mintCalls i).store.api = Sample.mintApi.acdp := by
    intro i
    unfold Sample.mintCalls
    split_ifs <;> rfl
  have h := keyless_end_to_end Sample.mintSchedule rfl hapi Sample.mintApi_readsBack
    Sample.mintCalls_fromMints 2
  refine ⟨by decide, _, List.mem_cons_of_mem _ (List.mem_cons_self ..), rfl, ?_⟩
  obtain ⟨a, -, -, -, i, m, k, -, hm, -, hexp⟩ := h.1 _
    (List.mem_cons_of_mem _ (List.mem_cons_self ..)) ⟨"att", "attestation"⟩ rfl
  rcases Fin.exists_fin_two.1 ⟨i, rfl⟩ with rfl | rfl
  · cases hm
    exact hexp
  · cases hm

end AcdpRegistry
