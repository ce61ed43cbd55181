/-
  Runs of token issue, revocation, eviction and validation.

  A tombstone keeps its expiry through every store call except an eviction past it
  (`Tombstone.run`).  Validation compares whole seconds with an inclusive bound,
  the tombstone check compares instants with a strict one, so the tombstone can
  lapse first: in the last second before the validator's own window closes a
  revoked token is accepted again.  On SQLite an eviction compares texts, which is
  the order of the instants in the years 0 to 9999 only.
-/
import AcdpRegistry.Auth.Revocation

namespace AcdpRegistry.Auth

open Lib

/-- The store calls of the auth service, the revocation poller and the evictor. -/
inductive Op
  | issue (jti agent : String) (ttl : ℕ)
  | revoke (jti caller : String) (owner : Option String) (ttl : ℕ)
  | feed (issuer : String) (entries : List FeedEntry)
  | evict
  deriving DecidableEq, Repr

structure Event where
  now : ℤ
  op : Op
  deriving DecidableEq, Repr

/-- The store after a call.  A call that panics leaves it unchanged. -/
def Event.apply (b : Backend) (leeway : ℕ) (s : RevocationStore) (e : Event) : RevocationStore :=
  match e.op with
  | .issue jti agent ttl => ((issueToken b ttl e.now jti agent s).map Prod.fst).getD s
  | .revoke jti caller owner ttl =>
    ((revokeToken b ttl e.now jti caller owner s).map Prod.snd).getD s
  | .feed issuer entries => applyEntries b issuer entries s
  | .evict => ((tombstoneCutoff e.now leeway).map (s.evictExpired b)).getD s

/-- Whether a call may write the row of `jti`. -/
def Op.writes (jti : String) : Op → Bool
  | .issue j _ _ => j == jti
  | .revoke j _ _ _ => j == jti
  | .feed _ entries => entries.any (·.jti == jti)
  | .evict => false

def run (b : Backend) (leeway : ℕ) (s : RevocationStore) (events : List Event) : RevocationStore :=
  events.foldl (Event.apply b leeway) s

/-- `jti` is revoked, by a tombstone that expires at `exp`. -/
def Tombstone (s : RevocationStore) (jti : String) (exp : ℤ) : Prop :=
  ∃ e, s jti = some e ∧ e.revoked = true ∧ e.record.expiresAt = exp

section

variable {b : Backend} {leeway : ℕ} {s : RevocationStore} {jti : String} {exp : ℤ}

theorem Backend.le_of_expired {x c : ℤ} (hyears : b = .sqlite → Rfc3339.InYears x)
    (h : b.expired x c = true) : x ≤ c := by
  cases b with
  | memory => exact of_decide_eq_true h
  | sqlite => exact Rfc3339.le_of_render_le (hyears rfl) (of_decide_eq_true h)
  | postgres =>
    have : x ≤ c / 1000 * 1000 := of_decide_eq_true h
    omega

theorem tombstoneCutoff_mono {t t' c c' : ℤ} (h : t ≤ t')
    (hc : tombstoneCutoff t leeway = some c) (hc' : tombstoneCutoff t' leeway = some c') : c ≤ c' := by
  have h1 := Instant.addSeconds_eq hc
  have h2 := Instant.addSeconds_eq hc'
  omega

theorem apply_cases (b : Backend) (leeway : ℕ) (s : RevocationStore) (e : Event) :
    e.apply b leeway s = s ∨
    (∃ r, e.op.writes r.jti = true ∧ e.apply b leeway s = s.recordIssued b r) ∨
    (∃ r, e.op.writes r.jti = true ∧ e.apply b leeway s = s.revoke b r) ∨
    (∃ issuer entries, e.op = .feed issuer entries ∧
      e.apply b leeway s = applyEntries b issuer entries s) ∨
    ∃ c, e.op = .evict ∧ tombstoneCutoff e.now leeway = some c ∧
      e.apply b leeway s = s.evictExpired b c := by
  obtain ⟨now, op⟩ := e
  cases op with
  | issue jti agent ttl =>
    simp only [Event.apply, issueToken]
    cases Instant.addSeconds now ((ttl : ℤ).bmod (2 ^ 64)) with
    | none => exact Or.inl rfl
    | some x => exact Or.inr (Or.inl ⟨⟨jti, agent, x⟩, by simp [Op.writes], rfl⟩)
  | revoke jti caller owner ttl =>
    simp only [Event.apply, revokeToken]
    split
    · exact Or.inl rfl
    · next owner =>
      split
      · exact Or.inl rfl
      · cases Instant.addSeconds now ((ttl : ℤ).bmod (2 ^ 64)) with
        | none => exact Or.inl rfl
        | some x => exact Or.inr (Or.inr (Or.inl ⟨⟨jti, owner, x⟩, by simp [Op.writes], rfl⟩))
  | feed issuer entries => exact Or.inr (Or.inr (Or.inr (Or.inl ⟨issuer, entries, rfl, rfl⟩)))
  | evict =>
    cases hc : tombstoneCutoff now leeway with
    | none => exact Or.inl (by simp [Event.apply, hc])
    | some c =>
      exact Or.inr (Or.inr (Or.inr (Or.inr ⟨c, rfl, rfl, by simp [Event.apply, hc]⟩)))

/-! ## What each call does to a tombstone -/

variable {events : List Event}

section Kept

variable (h : Tombstone s jti exp)
include h

theorem Tombstone.recordIssued (r : RevocationRecord) :
    Tombstone (s.recordIssued b r) jti exp := by
  obtain ⟨e, he, hrev, hexp⟩ := h
  refine ⟨e, ?_, hrev, hexp⟩
  unfold RevocationStore.recordIssued
  by_cases hj : jti = r.jti
  · subst hj
    rw [Function.update_self, he]
    simp [RevocationStore.issuedEntry, hrev]
  · rw [Function.update_of_ne hj]; exact he

theorem Tombstone.revoke (r : RevocationRecord) :
    Tombstone (s.revoke b r) jti exp := by
  obtain ⟨e, he, hrev, hexp⟩ := h
  unfold RevocationStore.revoke
  by_cases hj : jti = r.jti
  · subst hj
    exact ⟨{ e with revoked := true }, by rw [Function.update_self, he]; rfl, rfl, hexp⟩
  · exact ⟨e, by rw [Function.update_of_ne hj]; exact he, hrev, hexp⟩

theorem Tombstone.applyEntries (issuer : String) (entries : List FeedEntry) :
    Tombstone (applyEntries b issuer entries s) jti exp := by
  unfold Auth.applyEntries
  induction entries generalizing s with
  | nil => exact h
  | cons e entries ih =>
    rw [List.foldl_cons]
    refine ih ?_
    split
    · exact h
    · split
      · exact h.revoke _
      · exact h

theorem Tombstone.evictExpired {c : ℤ} (hc : b.expired exp c = false) :
    Tombstone (s.evictExpired b c) jti exp := by
  obtain ⟨e, he, hrev, rfl⟩ := h
  exact ⟨e, by simp [RevocationStore.evictExpired, he, hc], hrev, rfl⟩

end Kept

/-- The call is an eviction that deletes rows with this expiry. -/
def Event.Evicts (b : Backend) (leeway : ℕ) (exp : ℤ) (e : Event) : Prop :=
  e.op = .evict ∧ ∃ c, tombstoneCutoff e.now leeway = some c ∧ b.expired exp c = true

/-- **One call** keeps a tombstone, unless it is an eviction that deletes it. -/
theorem Tombstone.apply (h : Tombstone s jti exp) (e : Event) :
    Tombstone (e.apply b leeway s) jti exp ∨ e.Evicts b leeway exp := by
  rcases apply_cases b leeway s e with he | ⟨r, -, he⟩ | ⟨r, -, he⟩ | ⟨issuer, entries, -, he⟩ |
    ⟨c, hop, hc, he⟩ <;> rw [he]
  · exact .inl h
  · exact .inl (h.recordIssued r)
  · exact .inl (h.revoke r)
  · exact .inl (h.applyEntries issuer entries)
  · cases hexp : b.expired exp c with
    | true => exact .inr ⟨hop, c, hc, hexp⟩
    | false => exact .inl (h.evictExpired hexp)

def Spares (b : Backend) (leeway : ℕ) (exp : ℤ) (events : List Event) : Prop :=
  ∀ e ∈ events, ¬e.Evicts b leeway exp

/-- **Every run of calls** that spares a tombstone keeps it. -/
theorem Tombstone.run (h : Tombstone s jti exp) (hspares : Spares b leeway exp events) :
    Tombstone (run b leeway s events) jti exp := by
  induction events generalizing s with
  | nil => exact h
  | cons e events ih =>
    have hkept := (h.apply e).resolve_right (hspares e (by simp))
    exact ih hkept fun e' he' => hspares e' (by simp [he'])

/-- Under a clock that does not run backwards, a tombstone that is live at the end has been spared. -/
theorem spares_of_live {now cutoff : ℤ} (hclock : ∀ e ∈ events, e.now ≤ now)
    (hyears : b = .sqlite → Rfc3339.InYears exp) (hcut : tombstoneCutoff now leeway = some cutoff)
    (hlive : cutoff < exp) : Spares b leeway exp events := by
  rintro e he ⟨-, c, hc, hexp⟩
  have hle := Backend.le_of_expired hyears hexp
  have hmono := tombstoneCutoff_mono (hclock e he) hc hcut
  omega

/-! ## What calls for other tokens do to a row -/

theorem revoke_of_ne {r : RevocationRecord} (h : r.jti ≠ jti) : s.revoke b r jti = s jti :=
  Function.update_of_ne h.symm _ _

theorem applyEntries_of_ne {issuer : String} {entries : List FeedEntry}
    (h : ∀ e ∈ entries, e.jti ≠ jti) : applyEntries b issuer entries s jti = s jti := by
  unfold applyEntries
  induction entries generalizing s with
  | nil => rfl
  | cons e entries ih =>
    rw [List.foldl_cons, ih fun e' he' => h e' (by simp [he'])]
    split
    · rfl
    · cases Instant.check (Instant.ofUnix e.exp) with
      | some expiresAt => exact revoke_of_ne (h e (by simp))
      | none => rfl

theorem apply_of_not_writes (b : Backend) (leeway : ℕ) {e : Event} (h : e.op.writes jti = false) :
    e.apply b leeway s jti = s jti ∨ e.apply b leeway s jti = none := by
  rcases apply_cases b leeway s e with he | ⟨r, hw, he⟩ | ⟨r, hw, he⟩ | ⟨issuer, entries, hop, he⟩ |
    ⟨c, -, -, he⟩ <;> rw [he]
  · exact Or.inl rfl
  · exact Or.inl (Function.update_of_ne (fun hj => by simp [hj, hw] at h) _ _)
  · exact Or.inl (revoke_of_ne fun hj => by simp [← hj, hw] at h)
  · rw [hop] at h
    exact Or.inl (applyEntries_of_ne (by simpa [Op.writes] using h))
  · cases hs : s jti with
    | none => simp [RevocationStore.evictExpired, hs]
    | some x =>
      cases hx : b.expired x.record.expiresAt c with
      | true => exact Or.inr (by simp [RevocationStore.evictExpired, hs, hx])
      | false => exact Or.inl (by simp [RevocationStore.evictExpired, hs, hx])

theorem run_of_not_writes (b : Backend) (leeway : ℕ) (h : ∀ e ∈ events, e.op.writes jti = false) :
    run b leeway s events jti = s jti ∨ run b leeway s events jti = none := by
  induction events generalizing s with
  | nil => exact Or.inl rfl
  | cons e events ih =>
    have hrest := ih (s := e.apply b leeway s) fun e' he' => h e' (by simp [he'])
    rcases apply_of_not_writes b leeway (s := s) (h e (by simp)) with he | he
    · rw [he] at hrest; exact hrest
    · rw [he] at hrest; exact Or.inr (hrest.elim id id)

theorem Tombstone.apply_evicts (h : Tombstone s jti exp) {e : Event} (he : e.Evicts b leeway exp) :
    e.apply b leeway s jti = none := by
  obtain ⟨now, op⟩ := e
  obtain ⟨rfl, c, hc, hexp⟩ := he
  obtain ⟨row, hrow, -, rfl⟩ := h
  simp only at hc
  simp [Event.apply, hc, RevocationStore.evictExpired, hrow, hexp]

theorem Tombstone.run_not_spares (h : Tombstone s jti exp)
    (hw : ∀ e ∈ events, e.op.writes jti = false) (hspares : ¬Spares b leeway exp events) :
    Auth.run b leeway s events jti = none := by
  induction events generalizing s with
  | nil => exact absurd (fun e he => by simp at he) hspares
  | cons e events ih =>
    have hw' : ∀ e' ∈ events, e'.op.writes jti = false := fun e' he' => hw e' (by simp [he'])
    by_cases he : e.Evicts b leeway exp
    · rcases run_of_not_writes b leeway (s := e.apply b leeway s) hw' with hrest | hrest
      · exact hrest.trans (h.apply_evicts he)
      · exact hrest
    · refine ih ((h.apply e).resolve_right he) hw' fun hall => hspares ?_
      rintro e' he'
      rcases List.mem_cons.1 he' with rfl | he'
      · exact he
      · exact hall e' he'

end

/-! ## Validation -/

/-- Refused whatever the revocation store says: not signed by the key, of another registry, or with an
    `exp` past the leeway. -/
def JwtSigner.Refuses (signer : JwtSigner) (decodeAt : ℤ) (token : String) : Prop :=
  ∀ claims, signer.decodeClaims token = .ok claims → claims.registry = signer.registryAuthority →
    claims.exp < Instant.unix decodeAt - signer.leewaySeconds

/-- The revocation check at `now`, after the calls, still finds a tombstone that expires at `exp`, or
    cannot tell (or panics). -/
def JwtSigner.Sees (signer : JwtSigner) (b : Backend) (events : List Event) (now exp : ℤ) : Prop :=
  ∀ cutoff, tombstoneCutoff now signer.leewaySeconds = some cutoff →
    Spares b signer.leewaySeconds exp events ∧
      (cutoff < exp ∨ b = .sqlite ∧ ¬Rfc3339.InYears exp)

theorem isRevoked_eq_false_iff {b : Backend} {s : RevocationStore} {jti : String} {cutoff : ℤ} :
    s.isRevoked b jti cutoff = .ok false ↔
      ∀ exp, Tombstone s jti exp → exp ≤ cutoff ∧ ¬(b = .sqlite ∧ ¬Rfc3339.InYears exp) := by
  unfold RevocationStore.isRevoked
  cases hs : s jti with
  | none => simp [Tombstone, hs]
  | some e =>
    obtain ⟨record, revoked⟩ := e
    cases revoked with
    | false => simp [Tombstone, hs]
    | true =>
      have htomb : ∀ exp, Tombstone s jti exp ↔ exp = record.expiresAt := by
        intro exp
        constructor
        · rintro ⟨e, he, -, rfl⟩
          rw [hs] at he
          cases he
          rfl
        · rintro rfl
          exact ⟨_, hs, rfl, rfl⟩
      simp only [htomb, forall_eq]
      split_ifs with hyears
      · simp [hyears]
      · simp [hyears]

theorem decode_ok_iff {signer : JwtSigner} {decodeAt : ℤ} {token : String} {claims : BearerClaims} :
    signer.decode decodeAt token = .ok claims ↔ signer.decodeClaims token = .ok claims ∧
      Instant.unix decodeAt - signer.leewaySeconds ≤ claims.exp := by
  unfold JwtSigner.decode
  cases signer.decodeClaims token with
  | error e => simp
  | ok c =>
    by_cases hexp : c.exp < Instant.unix decodeAt - signer.leewaySeconds
    · simp only [hexp, if_true, reduceCtorEq, Except.ok.injEq, false_iff]
      rintro ⟨rfl, hle⟩
      exact absurd hexp (not_lt.2 hle)
    · simp only [hexp, if_false, Except.ok.injEq]
      exact ⟨fun h => ⟨h, h ▸ not_lt.1 hexp⟩, fun h => h.1⟩

theorem validate_ok_iff {signer : JwtSigner} {b : Backend} {s : RevocationStore} {decodeAt now : ℤ}
    {token : String} {claims : BearerClaims} : signer.validate b s decodeAt now token = some (.ok claims) ↔
      signer.decode decodeAt token = .ok claims ∧ claims.registry = signer.registryAuthority ∧
        ∃ cutoff, tombstoneCutoff now signer.leewaySeconds = some cutoff ∧
          s.isRevoked b claims.jti cutoff = .ok false := by
  unfold JwtSigner.validate
  cases hd : signer.decode decodeAt token with
  | error e => simp
  | ok c =>
    by_cases hr : c.registry = signer.registryAuthority
    · cases hc : tombstoneCutoff now signer.leewaySeconds with
      | none => simp [hr]
      | some cutoff =>
        simp only [hr, ne_eq, not_true, if_false, Option.map_some, Option.some.injEq]
        constructor
        · intro h
          split at h
          · cases h
          · cases h
          · next hv =>
            cases h
            exact ⟨rfl, hr, cutoff, rfl, hv⟩
        · rintro ⟨h, -, cutoff', hcut, hv⟩
          cases h
          cases hcut
          rw [hv]
    · simp only [ne_eq, hr, not_false_iff, if_true, Option.some.injEq, reduceCtorEq, Except.ok.injEq,
        false_iff]
      rintro ⟨rfl, h, -⟩
      exact hr h

/-- **When a revoked token stays revoked.**  After any calls since the `jti` was revoked, a validation
    does not return `Ok` if the text is refused anyway or the check still sees the tombstone, and
    otherwise does, unless the row is written again. The check sees every tombstone past its cutoff, on
    SQLite if it expires in the years 0 to 9999. -/
theorem revoked_token_refused_iff (b : Backend) (signer : JwtSigner) (s : RevocationStore)
    (token jti : String) (exp : ℤ) (hjti : ∀ c, signer.decodeClaims token = .ok c → c.jti = jti)
    (hrev : Tombstone s jti exp) (events : List Event) (decodeAt now : ℤ) :
    (signer.Refuses decodeAt token ∨ signer.Sees b events now exp → ∀ claims,
      signer.validate b (run b signer.leewaySeconds s events) decodeAt now token ≠
        some (.ok claims)) ∧
    ((∀ e ∈ events, e.op.writes jti = false) → ((∀ claims,
      signer.validate b (run b signer.leewaySeconds s events) decodeAt now token ≠
        some (.ok claims)) ↔ signer.Refuses decodeAt token ∨ signer.Sees b events now exp)) ∧
    ((∀ e ∈ events, e.now ≤ now) → (b = .sqlite → Rfc3339.InYears exp) →
      (signer.Sees b events now exp ↔
        ∀ cutoff, tombstoneCutoff now signer.leewaySeconds = some cutoff → cutoff < exp)) := by
  have hsafe : signer.Refuses decodeAt token ∨ signer.Sees b events now exp → ∀ claims,
      signer.validate b (run b signer.leewaySeconds s events) decodeAt now token ≠
        some (.ok claims) := by
    rintro h claims hok
    obtain ⟨hd, hreg, cutoff, hcut, hnot⟩ := validate_ok_iff.1 hok
    obtain ⟨hclaims, hle⟩ := decode_ok_iff.1 hd
    rcases h with h | h
    · exact absurd (h claims hclaims hreg) (not_lt.2 hle)
    · obtain ⟨hspares, hseen⟩ := h cutoff hcut
      rw [hjti claims hclaims] at hnot
      obtain ⟨hlapsed, hyears⟩ := isRevoked_eq_false_iff.1 hnot exp (hrev.run hspares)
      rcases hseen with hlive | hyears'
      · omega
      · exact hyears hyears'
  refine ⟨hsafe, fun hw => ⟨fun hno => ?_, hsafe⟩, fun hclock hyears => ⟨fun h cutoff hcut => ?_,
    fun h cutoff hcut => ⟨spares_of_live hclock hyears hcut (h cutoff hcut), .inl (h cutoff hcut)⟩⟩⟩
  · -- the text decodes, and the row is gone or lapsed
    by_contra hcon
    simp only [not_or, JwtSigner.Refuses, JwtSigner.Sees, not_forall, not_lt] at hcon
    obtain ⟨⟨claims, hclaims, hreg, hexp⟩, cutoff, hcut, hnot⟩ := hcon
    have hd : signer.decode decodeAt token = .ok claims := decode_ok_iff.2 ⟨hclaims, hexp⟩
    refine hno claims (validate_ok_iff.2 ⟨hd, hreg, cutoff, hcut, isRevoked_eq_false_iff.2 ?_⟩)
    rw [hjti claims hclaims]
    rintro exp' ⟨row, hrow, hrevoked, hexp'⟩
    by_cases hspares : Spares b signer.leewaySeconds exp events
    · obtain ⟨row', hrow', -, hexp''⟩ := hrev.run hspares
      cases hrow.symm.trans hrow'
      obtain rfl : exp' = exp := hexp'.symm.trans hexp''
      push Not at hnot
      exact ⟨(hnot hspares).1, fun h => h.2 ((hnot hspares).2 h.1)⟩
    · rw [hrev.run_not_spares hw hspares] at hrow
      cases hrow
  · rcases (h cutoff hcut).2 with hlive | ⟨hb, hout⟩
    · exact hlive
    · exact absurd (hyears hb) hout

def sampleSigner : JwtSigner :=
  ⟨"registry.test", 30, fun _ => .ok ⟨"did:web:alice", "jti-1", 3600, "registry.test"⟩⟩

def sampleCalls : List Event :=
  [⟨300000000, .issue "jti-1" "did:web:alice" 3600⟩,
   ⟨5000000000, .revoke "jti-1" "did:web:alice" (some "did:web:alice") 3600⟩]

theorem sample_tombstone :
    Tombstone (run .sqlite 30 (fun _ => none) sampleCalls) "jti-1" 3600300000000 :=
  ⟨⟨⟨"jti-1", "did:web:alice", 3600300000000⟩, true⟩, by decide, rfl, rfl⟩

/-- **A revoked token is accepted again** in its last accepted second, when the tombstone has already
    lapsed. -/
theorem revoked_token_accepted_again :
    (issueToken .sqlite 3600 300000000 "jti-1" "did:web:alice" (fun _ => none)).map Prod.snd =
        some 3600 ∧
      Tombstone (run .sqlite 30 (fun _ => none) sampleCalls) "jti-1" 3600300000000 ∧
      sampleSigner.validate .sqlite (run .sqlite 30 (fun _ => none) sampleCalls) 3630500000000 3630500000000
        "token" = some (.ok ⟨"did:web:alice", "jti-1", 3600, "registry.test"⟩) :=
  ⟨by decide, sample_tombstone, by decide⟩

/-- Ten seconds after the epoch the same token is refused, with an eviction in between. -/
theorem revoked_token_refused_sample :
    Tombstone (run .sqlite 30 (fun _ => none) sampleCalls) "jti-1" 3600300000000 ∧ ∀ claims,
      sampleSigner.validate .sqlite (run .sqlite 30 (run .sqlite 30 (fun _ => none) sampleCalls)
        [⟨6000000000, .evict⟩]) 10000000000 10000000000 "token" ≠ some (.ok claims) := by
  have htheorem := revoked_token_refused_iff .sqlite sampleSigner
    (run .sqlite 30 (fun _ => none) sampleCalls) "token" "jti-1" 3600300000000
    (by rintro c h; cases h; rfl) sample_tombstone [⟨6000000000, .evict⟩] 10000000000 10000000000
  refine ⟨sample_tombstone, htheorem.1 (.inr ((htheorem.2.2 (by simp) fun _ => by decide).2 ?_))⟩
  intro cutoff h
  have := Instant.addSeconds_eq h
  subst this
  decide

end AcdpRegistry.Auth
