/-
  A challenge is used once.

  `Lawful` says what the three challenge stores have in common: a row is put under a
  nonce that has none, a `take` removes the row whatever it then makes of it, and
  eviction only removes.  From it follows what one move does to the table, and from
  that where a row comes from and that a taken nonce stays gone until it is drawn again.
-/
import AcdpRegistry.Auth.Challenge

namespace AcdpRegistry.Auth

open Lib

/-! ## Lawful stores -/

variable {nonce : String}

/-- A challenge store that keeps a record as the row `keep record`. -/
structure ChallengeStore.Lawful {ρ : Type} (store : ChallengeStore ρ) (keep : ChallengeRecord → ρ) :
    Prop where
  put : ∀ r t, store.put r t = insertNew r.nonce (keep r) t
  take_table : ∀ nonce now t, (store.take nonce now t).2 = Function.update t nonce none
  take_none : ∀ nonce now t, t nonce = none → (store.take nonce now t).1 = .ok none
  take_some : ∀ {nonce now t r record}, t nonce = some (keep r) →
    (store.take nonce now t).1 = .ok (some record) → record.agentId = r.agentId ∧
      Instant.unix record.expiresAt = Instant.unix r.expiresAt ∧ now < r.expiresAt
  evict : ∀ now t nonce, store.evictExpired now t nonce = t nonce ∨
    store.evictExpired now t nonce = none

theorem lawful_of_read {ρ : Type} {store : ChallengeStore ρ} {keep : ChallengeRecord → ρ}
    {read : String → ℤ → ρ → Except AuthError (Option ChallengeRecord)}
    (hput : ∀ r t, store.put r t = insertNew r.nonce (keep r) t)
    (htake : ∀ nonce now t, store.take nonce now t = removeRow nonce (read nonce now) t)
    (hread : ∀ {nonce now r record}, read nonce now (keep r) = .ok (some record) →
      record.agentId = r.agentId ∧ Instant.unix record.expiresAt = Instant.unix r.expiresAt ∧
        now < r.expiresAt)
    (hevict : ∀ now t nonce, ∃ live : ρ → Bool, store.evictExpired now t nonce = (t nonce).filter live) :
    store.Lawful keep := by
  refine ⟨hput, fun nonce now t => by rw [htake]; rfl, fun nonce now t hnone => ?_,
    fun hrow htaken => ?_, fun now t nonce => ?_⟩
  · rw [htake, removeRow, hnone]
    rfl
  · rw [htake, removeRow, hrow] at htaken
    exact hread htaken
  · obtain ⟨live, hlive⟩ := hevict now t nonce
    rw [hlive]
    cases t nonce with
    | none => exact .inl rfl
    | some row => cases h : live row <;> simp [Option.filter, h]

theorem inMemory_lawful : inMemoryChallengeStore.Lawful id := by
  refine lawful_of_read (fun _ _ => rfl) (fun _ _ _ => rfl) ?_ fun _ _ _ => ⟨_, rfl⟩
  intro nonce now r record h
  by_cases hexpired : r.expiresAt ≤ now
  · simp [hexpired] at h
  · simp only [id, hexpired, if_false, Except.ok.injEq, Option.some.injEq] at h
    exact ⟨h ▸ rfl, h ▸ rfl, not_le.1 hexpired⟩

theorem takenRecord_eq_some {agentId : String} {expiresAt now : ℤ} {r : ChallengeRecord}
    (h : takenRecord nonce agentId expiresAt now = some r) :
    r = ⟨nonce, agentId, expiresAt⟩ ∧ now < expiresAt := by
  unfold takenRecord at h
  split_ifs at h with hc
  exact ⟨by simpa using h.symm, not_le.1 (not_or.1 hc).1⟩

/-- An RFC 3339 text that reads back gives its instant; chrono does not read every text it writes. -/
def AuthApi.ReadsBack (api : AuthApi) : Prop :=
  ∀ t t', api.parseRfc3339 (api.toRfc3339 t) = .ok t' → t' = t

theorem sqlite_lawful {api : AuthApi} (htext : api.ReadsBack) :
    (sqliteChallengeStore api).Lawful fun r => ⟨r.agentId, api.toRfc3339 r.expiresAt⟩ := by
  refine lawful_of_read (fun _ _ => rfl) (fun _ _ _ => rfl) ?_ fun _ _ _ => ⟨_, rfl⟩
  intro nonce now r record h
  cases hparse : api.parseRfc3339 (api.toRfc3339 r.expiresAt) with
  | error e => simp [hparse] at h
  | ok expiresAt =>
    simp only [hparse, Except.ok.injEq] at h
    obtain ⟨rfl, hlt⟩ := takenRecord_eq_some h
    rw [htext _ _ hparse] at hlt ⊢
    exact ⟨rfl, rfl, hlt⟩

theorem postgres_lawful :
    pgChallengeStore.Lawful fun r => ⟨r.agentId, Backend.postgres.stamp r.expiresAt⟩ := by
  refine lawful_of_read (fun _ _ => rfl) (fun _ _ _ => rfl) ?_ fun _ _ _ => ⟨_, rfl⟩
  intro nonce now r record h
  simp only [Except.ok.injEq] at h
  obtain ⟨rfl, hlt⟩ := takenRecord_eq_some h
  -- whole microseconds are not after the instant, and in the same second
  simp only [Instant.unix, Backend.stamp] at hlt ⊢
  exact ⟨trivial, by omega, by omega⟩

/-- **The three stores are lawful.** -/
theorem challengeStore_lawful {api : AuthApi} (htext : api.ReadsBack) (b : Backend) :
    ∃ keep, (b.challengeStore api).Lawful keep := by
  cases b with
  | memory => exact ⟨_, inMemory_lawful⟩
  | sqlite => exact ⟨_, sqlite_lawful htext⟩
  | postgres => exact ⟨_, postgres_lawful⟩

/-! ## What a token rests on -/

variable {t : TokenResponse}

/-- `key` is a key of the request's DID, for its key id, and of its algorithm. -/
inductive KeyFor (api : AuthApi) (svc : AuthService) (draw : TokenDraw) (req : TokenRequest)
    (fragment : String) (key : List UInt8) : Prop
  | didWeb (doc : DidDocument) (vm : VerificationMethod) (hweb : isDidWeb req.agentId = true)
      (hdoc : draw.resolve req.agentId fragment = .ok doc) (hvm : doc.findByFragment fragment = some vm)
      (hassertion : doc.isAssertionMethod req.keyId = true)
      (hdeclared : ∀ declared, vm.declaredAlgorithm = some declared → declared = req.algorithm)
      (hkey : AuthService.decodeKey req.algorithm vm = .ok key)
  | didKey (material : DidKeyMaterial) (hdid : isDidKey req.agentId = true)
      (hmethod : "did:key" ∈ svc.config.didMethods)
      (hfragment : fragment = String.ofList (req.agentId.toList.drop "did:key:".length))
      (hmaterial : api.resolveDidKey req.agentId = .ok material)
      (halgorithm : material.algorithm = req.algorithm) (hkey : key = material.bytes)

/-- The signature verifies under the key with the verifier of its algorithm. -/
def Verifies (api : AuthApi) (algorithm : String) (key : List UInt8) (signature input : String) : Prop :=
  algorithm = "ed25519" ∧ key.length = 32 ∧ api.verifyEd25519 key signature input = .ok () ∨
    algorithm = "ecdsa-p256" ∧ api.verifyEcdsaP256 key signature input = .ok ()

/-- The token is for the DID of `r`, which was taken in time, and a signature over its signing input
    verified under a key of the DID. -/
structure IssuedOn (api : AuthApi) (svc : AuthService) (req : TokenRequest) (draw : TokenDraw)
    (r : ChallengeRecord) (t : TokenResponse) : Prop where
  nonce : req.nonce = r.nonce
  claims : ∃ claims, svc.encode claims = .ok t.token ∧ claims.sub = r.agentId ∧
    claims.keyId = req.keyId
  taken : draw.takenAt < r.expiresAt
  signed : ∃ fragment key, (AuthService.keyIdParts req.keyId)[0]? = some r.agentId ∧
    (AuthService.keyIdParts req.keyId)[1]? = some fragment ∧ req.agentId = r.agentId ∧
    KeyFor api svc draw req fragment key ∧ Verifies api req.algorithm key req.signature
      (signingInput r.nonce r.agentId svc.authority (Instant.unix r.expiresAt))

section

variable {api : AuthApi} {svc : AuthService} {req : TokenRequest} {draw : TokenDraw}

theorem required_ok {ε α : Type} {x : Option α} {e : ε} {a : α} :
    required x e = .ok a ↔ x = some a := by
  cases x <;> simp [required]

theorem checkDeclared_ok {algorithm : String} {declared : Option String}
    (h : AuthService.checkDeclared algorithm declared = .ok ()) :
    ∀ d, declared = some d → d = algorithm := by
  rintro d rfl
  simpa using ensure_ok.1 h

variable {key : List UInt8}

theorem didWebKey_ok {fragment : String} (hweb : isDidWeb req.agentId = true)
    (h : AuthService.didWebKey api draw req req.agentId fragment = .ok key) :
    KeyFor api svc draw req fragment key := by
  obtain ⟨doc, hdoc, h⟩ := except_bind_ok.1 h
  obtain ⟨vm, hvm, h⟩ := except_bind_ok.1 h
  obtain ⟨_, hassertion, h⟩ := except_bind_ok.1 h
  obtain ⟨_, hdeclared, hkey⟩ := except_bind_ok.1 h
  exact .didWeb doc vm hweb (except_mapError_ok.1 hdoc) (required_ok.1 hvm) (ensure_ok.1 hassertion)
    (checkDeclared_ok hdeclared) hkey

theorem didKeyKey_ok {fragment : String} (hdid : isDidKey req.agentId = true)
    (h : svc.didKeyKey api req req.agentId fragment = .ok key) :
    KeyFor api svc draw req fragment key := by
  obtain ⟨_, hmethod, h⟩ := except_bind_ok.1 h
  obtain ⟨_, hfragment, h⟩ := except_bind_ok.1 h
  obtain ⟨material, hmaterial, h⟩ := except_bind_ok.1 h
  obtain ⟨_, halgorithm, h⟩ := except_bind_ok.1 h
  cases h
  exact .didKey material hdid (by simpa using ensure_ok.1 hmethod)
    (by simpa using ensure_ok.1 hfragment) (except_mapError_ok.1 hmaterial)
    (by simpa using ensure_ok.1 halgorithm) rfl

theorem signingKey_ok {fragment : String}
    (h : svc.signingKey api draw req req.agentId fragment = .ok key) :
    KeyFor api svc draw req fragment key := by
  unfold AuthService.signingKey at h
  split_ifs at h with hweb hdid
  · exact didWebKey_ok hweb h
  · exact didKeyKey_ok hdid h

theorem verifySignature_ok {algorithm signature input : String}
    (h : AuthService.verifySignature api algorithm key signature input = .ok ()) :
    Verifies api algorithm key signature input := by
  unfold AuthService.verifySignature at h
  split_ifs at h with hed hec
  · obtain ⟨_, hlength, h⟩ := except_bind_ok.1 h
    exact .inl ⟨hed, by simpa using ensure_ok.1 hlength, except_mapError_ok.1 h⟩
  · exact .inr ⟨hec, except_mapError_ok.1 h⟩

theorem authenticate_ok {record : ChallengeRecord}
    (h : svc.authenticate api draw req record = .ok ()) :
    record.agentId = req.agentId ∧ Instant.unix record.expiresAt = req.expiresAt ∧
      ∃ fragment key, (AuthService.keyIdParts req.keyId)[0]? = some req.agentId ∧
        (AuthService.keyIdParts req.keyId)[1]? = some fragment ∧
        KeyFor api svc draw req fragment key ∧ Verifies api req.algorithm key req.signature
          (signingInput req.nonce req.agentId svc.authority req.expiresAt) := by
  obtain ⟨_, hagent, h⟩ := except_bind_ok.1 h
  obtain ⟨_, hexpires, h⟩ := except_bind_ok.1 h
  obtain ⟨-, -, h⟩ := except_bind_ok.1 h
  obtain ⟨-, -, h⟩ := except_bind_ok.1 h
  obtain ⟨did, hdid, h⟩ := except_bind_ok.1 h
  obtain ⟨_, hmatch, h⟩ := except_bind_ok.1 h
  obtain ⟨fragment, hfragment, h⟩ := except_bind_ok.1 h
  obtain ⟨key, hkey, hverify⟩ := except_bind_ok.1 h
  obtain rfl : did = req.agentId := by simpa using ensure_ok.1 hmatch
  refine ⟨by simpa using ensure_ok.1 hagent, by simpa using ensure_ok.1 hexpires, fragment, key, ?_,
    required_ok.1 hfragment, signingKey_ok hkey, verifySignature_ok hverify⟩
  exact (Option.filter_eq_some_iff.1 (required_ok.1 hdid)).1

theorem redeem_ok {ρ : Type} {taken : Option ChallengeRecord} {views : ℕ → AuthState ρ}
    (h : (svc.redeem api req draw taken).runOn views = .ok t) :
    ∃ record exp, taken = some record ∧ svc.authenticate api draw req record = .ok () ∧
      svc.encode (svc.claims draw req exp) = .ok t.token := by
  obtain ⟨record, hrecord, h⟩ := Proc.runOn_bind_ok.1 h
  obtain ⟨_, hauth, h⟩ := Proc.runOn_bind_ok.1 h
  obtain ⟨exp, -, h⟩ := Proc.runOn_bind_ok.1 h
  obtain ⟨token, htoken, h⟩ := Proc.runOn_bind_ok.1 h
  obtain ⟨-, -, h⟩ := Proc.runOn_bind_ok.1 h
  cases h
  rw [Proc.runOn_lift] at hrecord hauth htoken
  exact ⟨record, exp, required_ok.1 hrecord, except_mapError_ok.1 hauth,
    except_mapError_ok.1 (except_mapError_ok.1 htoken)⟩

end

/-! ## What a call does to the table -/

def AuthCall.Issues (api : AuthApi) (c : AuthCall) (r : ChallengeRecord) : Prop :=
  ∃ svc draw, c = .challenge svc r.agentId draw ∧ api.encodeNonce draw.nonceBytes = r.nonce ∧
    plusSeconds draw.now svc.config.challengeTtlSeconds = .ok r.expiresAt

def AuthCall.Attempts (c : AuthCall) (nonce : String) : Prop :=
  ∃ svc req draw, c = .token svc req draw ∧ req.nonce = nonce

/-- It is one that reaches the store, whatever becomes of the answer. -/
def AuthCall.Reaches (c : AuthCall) (nonce : String) : Prop :=
  ∃ svc req draw, c = .token svc req draw ∧ req.nonce = nonce ∧ ∀ e, draw.takeFault ≠ some (.notMade e)

/-- What the first action of a call can do: put a challenge under a free nonce, or remove rows. -/
inductive TableStep {ρ : Type} (api : AuthApi) (keep : ChallengeRecord → ρ) (c : AuthCall)
    (t t' : Challenges ρ) : Prop
  | issue (r : ChallengeRecord) (hr : c.Issues api r) (hfree : t r.nonce = none)
      (ht : t' = Function.update t r.nonce (some (keep r)))
  | remove (ht : ∀ nonce, t' nonce = t nonce ∨ t' nonce = none)

section

variable {api : AuthApi} {ρ : Type} {store : ChallengeStore ρ} {keep : ChallengeRecord → ρ}

theorem withFault_state {σ α : Type} (fault : Option Fault) (op : σ → Except AuthError α × σ) (s : σ) :
    (withFault fault op s).2 = s ∨ (withFault fault op s).2 = (op s).2 := by
  rcases fault with _ | e | e
  · exact .inr rfl
  · exact .inl rfl
  · exact .inr rfl

theorem withFault_ok {σ α : Type} {fault : Option Fault} {op : σ → Except AuthError α × σ} {s : σ}
    {a : α} (h : (withFault fault op s).1 = .ok a) : (op s).1 = .ok a := by
  rcases fault with _ | e | e
  · exact except_mapError_ok.1 h
  · cases h
  · cases h

theorem TableStep.withFault {c : AuthCall} {α : Type} {fault : Option Fault}
    {op : Challenges ρ → Except AuthError α × Challenges ρ} {t : Challenges ρ}
    (h : TableStep api keep c t (op t).2) : TableStep api keep c t (withFault fault op t).2 := by
  rcases withFault_state fault op t with hsame | hdone
  · rw [hsame]
    exact .remove fun _ => .inl rfl
  · rwa [hdone]

theorem keeps_recordIssued (svc : AuthService) (draw : TokenDraw) (record : RevocationRecord) :
    (svc.recordIssued draw record : Proc (AuthState ρ) AuthFailure Unit).Keeps
      AuthState.challenges := by
  unfold AuthService.recordIssued
  split
  · trivial
  · exact ⟨fun s => rfl, fun x => Proc.keeps_lift x⟩

theorem keeps_redeem (svc : AuthService) (req : TokenRequest) (draw : TokenDraw)
    (taken : Option ChallengeRecord) :
    (svc.redeem api req draw taken : Proc (AuthState ρ) AuthFailure TokenResponse).Keeps
      AuthState.challenges := by
  unfold AuthService.redeem
  generalize plusSeconds draw.now svc.config.tokenTtlSeconds = expiry
  refine Proc.keeps_bind (Proc.keeps_lift _) fun record => ?_
  refine Proc.keeps_bind (Proc.keeps_lift _) fun _ => ?_
  refine Proc.keeps_bind (Proc.keeps_lift _) fun exp => ?_
  refine Proc.keeps_bind (Proc.keeps_lift _) fun token => ?_
  exact Proc.keeps_bind (keeps_recordIssued svc draw _) fun _ => trivial

variable (api store) in
theorem issueChallenge_cases (svc : AuthService) (agentId : String) (draw : ChallengeDraw) :
    (∃ e, svc.issueChallenge api store agentId draw = .fail e) ∨
      ∃ r c, (AuthCall.challenge svc agentId draw).Issues api r ∧ svc.issueChallenge api store agentId draw =
        challengeCall draw.putFault (store.put r) >>= fun _ => .ret c := by
  unfold AuthService.issueChallenge
  generalize ensure (screensAgentId agentId) _ = screened
  cases screened with
  | error e => exact .inl ⟨e, rfl⟩
  | ok u =>
    cases hexp : plusSeconds draw.now svc.config.challengeTtlSeconds with
    | error e => exact .inl ⟨e, rfl⟩
    | ok expiresAt => exact .inr ⟨⟨_, agentId, expiresAt⟩, _, ⟨svc, draw, rfl, rfl, hexp⟩, rfl⟩

variable (api) in
theorem proc_cases (hs : store.Lawful keep) (c : AuthCall) :
    (∃ e, c.proc api store = .fail e) ∨ ∃ (β : Type) (op : Challenges ρ → β × Challenges ρ)
      (next : β → Proc (AuthState ρ) AuthFailure AuthReply),
      c.proc api store = .act β (onChallenges op) next ∧
        (∀ t, TableStep api keep c t (op t).2) ∧ ∀ x, (next x).Keeps AuthState.challenges := by
  cases c with
  | challenge svc agentId draw =>
    rw [AuthCall.proc]
    rcases issueChallenge_cases api store svc agentId draw with
      ⟨e, he⟩ | ⟨r, c, hr, hc⟩
    · rw [he]
      exact .inl ⟨e, rfl⟩
    · rw [hc]
      refine .inr ⟨_, withFault draw.putFault (store.put r), _, rfl, fun t => .withFault ?_, fun x => ?_⟩
      · rw [hs.put, insertNew]
        split
        · exact .remove fun _ => .inl rfl
        · next hfree => exact .issue r hr hfree rfl
      · exact Proc.keeps_bind (Proc.keeps_bind (Proc.keeps_lift _) fun _ => trivial) fun _ => trivial
  | token svc req draw =>
    refine .inr ⟨_, withFault draw.takeFault (store.take req.nonce draw.takenAt), _, rfl,
      fun t => .withFault (.remove fun nonce => ?_), fun x => ?_⟩
    · rw [hs.take_table]
      by_cases hn : nonce = req.nonce
      · subst hn
        exact .inr (Function.update_self _ _ _)
      · exact .inl (Function.update_of_ne hn _ _)
    · exact Proc.keeps_bind (Proc.keeps_bind (Proc.keeps_lift _) (keeps_redeem svc req draw))
        fun _ => trivial
  | evict now fault =>
    refine .inr ⟨_, withFault fault fun t => (.ok (), store.evictExpired now t), _, rfl,
      fun t => .withFault (.remove (hs.evict now t)), fun x => ?_⟩
    exact Proc.keeps_bind (Proc.keeps_lift _) fun _ => trivial

end

/-! ## Runs -/

def FirstAction {ι : Type} (moves : ℕ → AuthMove ι) (n : ℕ) (i : ι) : Prop :=
  moves n = .call i ∧ ∀ m < n, moves m ≠ .call i

section

variable {ι : Type} [DecidableEq ι] {api : AuthApi} {ρ : Type} {store : ChallengeStore ρ}
  {keep : ChallengeRecord → ρ} {calls : ι → AuthCall} {revocations : RevocationStore}
  {moves : ℕ → AuthMove ι}

omit [DecidableEq ι] in
theorem move_eq_proc {m : AuthMove ι} {i : ι} :
    (m.move : Move ι (AuthState ρ)) = .proc i ↔ m = .call i := by
  cases m <;> simp [AuthMove.move]

omit [DecidableEq ι] in
theorem firstMove_iff {n : ℕ} {i : ι} :
    Pool.FirstMove (fun n => ((moves n).move : Move ι (AuthState ρ))) n i ↔ FirstAction moves n i := by
  simp only [Pool.FirstMove, FirstAction, ne_eq, move_eq_proc]

omit [DecidableEq ι] in
theorem authPool_procs {i : ι} {c : AuthCall} (h : calls i = c) :
    (authPool api store calls revocations).procs i = c.proc api store := by
  rw [← h]
  rfl

variable (api calls revocations moves) in
theorem table_step (hs : store.Lawful keep) (n : ℕ) :
    (authRun api store calls revocations moves (n + 1)).state.challenges =
        (authRun api store calls revocations moves n).state.challenges ∨
      ∃ i, FirstAction moves n i ∧
        TableStep api keep (calls i) (authRun api store calls revocations moves n).state.challenges
          (authRun api store calls revocations moves (n + 1)).state.challenges := by
  cases hmove : moves n with
  | revocations f =>
    refine .inl ?_
    rw [authRun, Pool.run, hmove]
    rfl
  | call i =>
    have hmoved : ∃ m ≤ n, Pool.FirstMove (fun n => ((moves n).move : Move ι (AuthState ρ))) m i :=
      Pool.firstMove_of_move (move_eq_proc.2 hmove)
    obtain ⟨m, hm, hfirst⟩ := hmoved
    have hkept : ((authRun api store calls revocations moves n).procs i).Keeps AuthState.challenges →
        (authRun api store calls revocations moves (n + 1)).state.challenges =
          (authRun api store calls revocations moves n).state.challenges := by
      intro h
      rw [authRun, Pool.run, hmove]
      exact Pool.step_keeps h
    rcases proc_cases api hs (calls i) with ⟨e, he⟩ | ⟨β, op, next, hp, hop, hnext⟩
    · refine .inl (hkept ?_)
      have hlater : ((calls i).proc api store).Later
          ((authRun api store calls revocations moves n).procs i) :=
        Pool.procs_later (P := authPool api store calls revocations) (m := 0) (Nat.zero_le n)
      rw [he] at hlater
      rw [Proc.later_fail hlater]
      trivial
    · rcases hm.lt_or_eq with hlt | rfl
      · exact .inl (hkept (hfirst.keeps hlt hp hnext))
      · refine .inr ⟨i, firstMove_iff.1 hfirst, ?_⟩
        have hstate : (authRun api store calls revocations moves (m + 1)).state =
            (onChallenges op (authRun api store calls revocations moves m).state).2 :=
          hfirst.state_succ hp
        rw [hstate]
        exact hop _

theorem row_issued (hs : store.Lawful keep) {n : ℕ} {row : ρ}
    (h : (authRun api store calls revocations moves n).state.challenges nonce = some row) :
    ∃ m < n, ∃ k r, FirstAction moves m k ∧ (calls k).Issues api r ∧ r.nonce = nonce ∧ row = keep r := by
  induction n with
  | zero => cases h
  | succ n ih =>
    have hearlier : (authRun api store calls revocations moves n).state.challenges nonce = some row →
        ∃ m < n + 1, ∃ k r, FirstAction moves m k ∧ (calls k).Issues api r ∧ r.nonce = nonce ∧
          row = keep r := by
      intro hold
      obtain ⟨m, hm, hissued⟩ := ih hold
      exact ⟨m, by omega, hissued⟩
    rcases table_step api calls revocations moves hs n with hsame | ⟨i, hfirst, hstep⟩
    · rw [hsame] at h
      exact hearlier h
    · cases hstep with
      | issue r hr hfree ht =>
        rw [ht] at h
        by_cases hn : nonce = r.nonce
        · subst hn
          rw [Function.update_self] at h
          exact ⟨n, n.lt_succ_self, i, r, hfirst, hr, rfl, (Option.some.inj h).symm⟩
        · rw [Function.update_of_ne hn] at h
          exact hearlier h
      | remove ht =>
        rcases ht nonce with hkept | hgone
        · rw [hkept] at h
          exact hearlier h
        · rw [hgone] at h
          cases h

theorem gone_until_issued (hs : store.Lawful keep) {m n : ℕ} (hmn : m ≤ n)
    (h : (authRun api store calls revocations moves m).state.challenges nonce = none)
    (hno : ∀ l k r, m ≤ l → l < n → FirstAction moves l k → (calls k).Issues api r → r.nonce ≠ nonce) :
    (authRun api store calls revocations moves n).state.challenges nonce = none := by
  induction n, hmn using Nat.le_induction with
  | base => exact h
  | succ n hmn ih =>
    have hn := ih fun l k r hml hln => hno l k r hml (by omega)
    rcases table_step api calls revocations moves hs n with hsame | ⟨i, hfirst, hstep⟩
    · rw [hsame]
      exact hn
    · cases hstep with
      | issue r hr _ ht =>
        rw [ht, Function.update_of_ne (hno n i r hmn n.lt_succ_self hfirst hr).symm]
        exact hn
      | remove ht => exact (ht nonce).elim (fun hkept => hkept.trans hn) id

section Token

variable {svc : AuthService} {req : TokenRequest} {draw : TokenDraw} {i : ι} {n : ℕ}
  (hcall : calls i = .token svc req draw) (hfirst : FirstAction moves n i)

include hcall hfirst

theorem taken_state : (authRun api store calls revocations moves (n + 1)).state =
    (onChallenges (withFault draw.takeFault (store.take req.nonce draw.takenAt))
      (authRun api store calls revocations moves n).state).2 := by
  exact (firstMove_iff.2 hfirst).state_succ (authPool_procs hcall)

theorem taken_proc : (authRun api store calls revocations moves (n + 1)).procs i =
    ((.lift (withFault draw.takeFault (store.take req.nonce draw.takenAt)
      (authRun api store calls revocations moves n).state.challenges).1 >>= svc.redeem api req draw) >>=
        fun t => .ret (.token t)) := by
  exact (firstMove_iff.2 hfirst).procs_succ (authPool_procs hcall)

theorem gone_of_taken (hs : store.Lawful keep) (hreach : ∀ e, draw.takeFault ≠ some (.notMade e)) :
    (authRun api store calls revocations moves (n + 1)).state.challenges req.nonce = none := by
  rw [taken_state hcall hfirst, onChallenges]
  have hdone : ∀ t, (withFault draw.takeFault (store.take req.nonce draw.takenAt) t).2 =
      (store.take req.nonce draw.takenAt t).2 := by
    intro t
    rcases hfault : draw.takeFault with _ | e | e
    · rfl
    · exact absurd hfault (hreach e)
    · rfl
  dsimp only
  rw [hdone, hs.take_table, Function.update_self]

theorem fails_of_gone (hs : store.Lawful keep)
    (hgone : (authRun api store calls revocations moves n).state.challenges req.nonce = none) :
    ∃ e, (authRun api store calls revocations moves (n + 1)).procs i = .fail e := by
  rw [taken_proc hcall hfirst]
  cases htake : (withFault draw.takeFault (store.take req.nonce draw.takenAt)
      (authRun api store calls revocations moves n).state.challenges).1 with
  | error e => exact ⟨e, rfl⟩
  | ok taken =>
    have hnone := withFault_ok htake
    rw [hs.take_none _ _ _ hgone] at hnone
    cases hnone
    exact ⟨_, rfl⟩

variable {N : ℕ} (hlt : n < N)
  (h : (authRun api store calls revocations moves N).procs i = .ret (.token t))

include hlt h

theorem token_taken :
    ∃ record exp, (store.take req.nonce draw.takenAt
        (authRun api store calls revocations moves n).state.challenges).1 = .ok (some record) ∧
      svc.authenticate api draw req record = .ok () ∧
      svc.encode (svc.claims draw req exp) = .ok t.token := by
  have hlater : ((authRun api store calls revocations moves (n + 1)).procs i).Later
      ((authRun api store calls revocations moves N).procs i) := Pool.procs_later hlt
  rw [h, taken_proc hcall hfirst] at hlater
  obtain ⟨views, hviews⟩ := hlater.runOn_ok ⟨fun _ => none, revocations⟩
  obtain ⟨t', ht', hret⟩ := Proc.runOn_bind_ok.1 hviews
  obtain rfl : t' = t := by
    cases hret
    rfl
  obtain ⟨taken, htaken, hredeem⟩ := Proc.runOn_bind_ok.1 ht'
  rw [Proc.runOn_lift] at htaken
  obtain ⟨record, exp, rfl, hauth, hencode⟩ := redeem_ok hredeem
  exact ⟨record, exp, withFault_ok htaken, hauth, hencode⟩

theorem token_issuedOn (hs : store.Lawful keep) :
    ∃ m < n, ∃ k r, FirstAction moves m k ∧ (calls k).Issues api r ∧ IssuedOn api svc req draw r t := by
  obtain ⟨record, exp, htake, hauth, hencode⟩ := token_taken hcall hfirst hlt h
  cases hrow : (authRun api store calls revocations moves n).state.challenges req.nonce with
  | none =>
    rw [hs.take_none _ _ _ hrow] at htake
    cases htake
  | some row =>
    obtain ⟨m, hm, k, r, hk, hr, hnonce, rfl⟩ := row_issued hs hrow
    obtain ⟨hagent, hunix, htime⟩ := hs.take_some hrow htake
    obtain ⟨hagent', hunix', fragment, key, hdid, hfragment, hkey, hverify⟩ := authenticate_ok hauth
    have hsame : req.agentId = r.agentId := hagent'.symm.trans hagent
    rw [← hunix', hunix, ← hnonce, hsame] at hverify
    exact ⟨m, hm, k, r, hk, hr, hnonce.symm, ⟨_, hencode, hsame, rfl⟩, htime, fragment, key,
      hsame ▸ hdid, hfragment, hsame, hkey, hverify⟩

end Token

theorem firstAction_of_token {i : ι} (hcall : (calls i).Attempts nonce) {N : ℕ}
    (h : (authRun api store calls revocations moves N).procs i = .ret (.token t)) :
    ∃ n < N, FirstAction moves n i := by
  obtain ⟨svc, req, draw, hcall, -⟩ := hcall
  obtain ⟨n, hn, hfirst⟩ := Pool.firstMove_of_ret (authPool_procs hcall) h
  exact ⟨n, hn, firstMove_iff.1 hfirst⟩

theorem reaches_of_token {i : ι} (hcall : (calls i).Attempts nonce) {n N : ℕ}
    (hfirst : FirstAction moves n i) (hlt : n < N)
    (h : (authRun api store calls revocations moves N).procs i = .ret (.token t)) :
    (calls i).Reaches nonce := by
  obtain ⟨svc, req, draw, hcall, hnonce⟩ := hcall
  refine ⟨svc, req, draw, hcall, hnonce, fun e hfault => ?_⟩
  have hlater : ((authRun api store calls revocations moves (n + 1)).procs i).Later
      ((authRun api store calls revocations moves N).procs i) := Pool.procs_later hlt
  rw [taken_proc hcall hfirst, hfault, h] at hlater
  cases Proc.later_fail hlater

/-- After an attempt that reached the store, a later one fails unless the nonce is drawn again. -/
theorem fails_or_issued (hs : store.Lawful keep) {i j : ι} {m n : ℕ} (hmn : m < n)
    (hi : FirstAction moves m i) (hreach : (calls i).Reaches nonce) (hj : FirstAction moves n j)
    (hattempt : (calls j).Attempts nonce) :
    (∃ e, (authRun api store calls revocations moves (n + 1)).procs j = .fail e) ∨
      ∃ l k r, m < l ∧ l < n ∧ FirstAction moves l k ∧ (calls k).Issues api r ∧ r.nonce = nonce := by
  obtain ⟨svc, req, draw, hcall, rfl, hmade⟩ := hreach
  obtain ⟨svc', req', draw', hcall', hnonce⟩ := hattempt
  by_cases hissued : ∃ l k r, m < l ∧ l < n ∧ FirstAction moves l k ∧ (calls k).Issues api r ∧
      r.nonce = req.nonce
  · exact .inr hissued
  · refine .inl (fails_of_gone hcall' hj hs ?_)
    rw [hnonce]
    refine gone_until_issued hs hmn (gone_of_taken hcall hi hs hmade) ?_
    exact fun l k r hml hln hk hr hr' => hissued ⟨l, k, r, hml, hln, hk, hr, hr'⟩

end

def Unguessed {ι : Type} (api : AuthApi) (calls : ι → AuthCall) (moves : ℕ → AuthMove ι) : Prop :=
  ∀ m n i k r, m < n → FirstAction moves m i → FirstAction moves n k → (calls k).Issues api r →
    ¬(calls i).Attempts r.nonce

/-- **Challenges are used once.**  In every interleaving of `issue_challenge`, `issue_token` and
    eviction on each store: a token is issued on a challenge drawn for its DID, unexpired, with a
    signature under a key of that DID; and once an attempt has reached the store, later attempts with
    its nonce fail until the nonce is drawn again. -/
theorem challenge_single_use {ι : Type} [DecidableEq ι] (api : AuthApi) (htext : api.ReadsBack)
    (b : Backend) (calls : ι → AuthCall) (revocations : RevocationStore) (moves : ℕ → AuthMove ι) :
    (∀ i svc req draw N t, calls i = .token svc req draw →
      (authRun api (b.challengeStore api) calls revocations moves N).procs i = .ret (.token t) →
      ∃ m n k r, m < n ∧ n < N ∧ FirstAction moves m k ∧ (calls k).Issues api r ∧
        FirstAction moves n i ∧ IssuedOn api svc req draw r t) ∧
    (∀ i j m n nonce, m < n → FirstAction moves m i → (calls i).Reaches nonce →
      FirstAction moves n j → (calls j).Attempts nonce →
      (∃ e, (authRun api (b.challengeStore api) calls revocations moves (n + 1)).procs j = .fail e) ∨
        ∃ l k r, m < l ∧ l < n ∧ FirstAction moves l k ∧ (calls k).Issues api r ∧ r.nonce = nonce) ∧
    (Unguessed api calls moves →
      (∀ i j m n nonce, m < n → FirstAction moves m i → (calls i).Reaches nonce →
        FirstAction moves n j → (calls j).Attempts nonce →
        ∃ e, (authRun api (b.challengeStore api) calls revocations moves (n + 1)).procs j = .fail e) ∧
      ∀ i j nonce N t t', (calls i).Attempts nonce → (calls j).Attempts nonce →
        (authRun api (b.challengeStore api) calls revocations moves N).procs i = .ret (.token t) →
        (authRun api (b.challengeStore api) calls revocations moves N).procs j = .ret (.token t') →
        i = j) := by
  obtain ⟨keep, hs⟩ := challengeStore_lawful htext b
  have hlater : Unguessed api calls moves → ∀ i j m n nonce, m < n → FirstAction moves m i →
      (calls i).Reaches nonce → FirstAction moves n j → (calls j).Attempts nonce →
      ∃ e, (authRun api (b.challengeStore api) calls revocations moves (n + 1)).procs j = .fail e := by
    intro hfresh i j m n nonce hmn hi hreach hj hattempt
    rcases fails_or_issued hs hmn hi hreach hj hattempt with hfail | ⟨l, k, r, hml, -, hk, hr, rfl⟩
    · exact hfail
    · obtain ⟨svc, req, draw, hcall, hnonce, -⟩ := hreach
      exact absurd ⟨svc, req, draw, hcall, hnonce⟩ (hfresh m l i k r hml hi hk hr)
  -- of two attempts that answer a token, the later one would have failed
  have hnever : Unguessed api calls moves → ∀ i j m n nonce N t t', m < n → FirstAction moves m i →
      FirstAction moves n j → n < N → (calls i).Attempts nonce → (calls j).Attempts nonce →
      (authRun api (b.challengeStore api) calls revocations moves N).procs i = .ret (.token t) →
      (authRun api (b.challengeStore api) calls revocations moves N).procs j ≠ .ret (.token t') := by
    intro hfresh i j m n nonce N t t' hmn hi hj hnN hci hcj hti htj
    obtain ⟨e, he⟩ := hlater hfresh i j m n nonce hmn hi
      (reaches_of_token hci hi (hmn.trans hnN) hti) hj hcj
    have hend : ((authRun api (b.challengeStore api) calls revocations moves (n + 1)).procs j).Later
        ((authRun api (b.challengeStore api) calls revocations moves N).procs j) :=
      Pool.procs_later hnN
    rw [he, htj] at hend
    cases Proc.later_fail hend
  refine ⟨fun i svc req draw N t hcall h => ?_,
    fun i j m n nonce hmn hi hreach hj hattempt => fails_or_issued hs hmn hi hreach hj hattempt,
    fun hfresh => ⟨hlater hfresh, fun i j nonce N t t' hci hcj hti htj => ?_⟩⟩
  · obtain ⟨n, hn, hfirst⟩ := firstAction_of_token ⟨svc, req, draw, hcall, rfl⟩ h
    obtain ⟨m, hm, k, r, hk, hr, hissued⟩ := token_issuedOn hcall hfirst hn h hs
    exact ⟨m, n, k, r, hm, hn, hk, hr, hfirst, hissued⟩
  · obtain ⟨m, hm, hi⟩ := firstAction_of_token hci hti
    obtain ⟨n, hn, hj⟩ := firstAction_of_token hcj htj
    rcases lt_trichotomy m n with hlt | rfl | hlt
    · exact absurd htj (hnever hfresh i j m n nonce N t t' hlt hi hj hn hci hcj hti)
    · exact AuthMove.call.inj (hi.1.symm.trans hj.1)
    · exact absurd hti (hnever hfresh j i n m nonce N t' t hlt hj hi hm hcj hci htj)

namespace Sample

/-- An instant after 1970 as a tally of its nanoseconds. -/
def instantText (t : ℤ) : String := String.ofList (List.replicate t.toNat '|')

def readInstant (s : String) : Except String ℤ :=
  if s.length = 0 then .error "premature end of input" else .ok s.length

theorem readInstant_instantText {t t' : ℤ} (h : readInstant (instantText t) = .ok t') : t' = t := by
  simp only [readInstant, instantText, String.length_ofList, List.length_replicate] at h
  split_ifs at h
  cases h
  omega

def authApi : AuthApi where
  encodeNonce bytes := String.ofList (bytes.map fun b => Char.ofNat b.toNat)
  toRfc3339 := instantText
  parseRfc3339 := readInstant
  resolveDidKey _ := .ok (.ed25519 (List.replicate 32 7))
  verifyEd25519 _ signature input :=
    if signature = "signed:" ++ input then .ok () else .error (.invalidSignature "mismatch")
  verifyEcdsaP256 _ _ _ := .error (.invalidSignature "mismatch")
  display _ := "signature"

def authService : AuthService where
  config := { challengeTtlSeconds := 300, tokenTtlSeconds := 3600, didMethods := ["did:web", "did:key"] }
  authority := "registry.test"
  issuer := "https://registry.test"
  encode claims := .ok ("jwt:" ++ claims.jti)
  revocations := some .memory

def tokenRequest : TokenRequest where
  agentId := "did:key:zA"
  keyId := "did:key:zA#zA"
  nonce := "n"
  expiresAt := 300
  algorithm := "ed25519"
  signature := "signed:" ++ signingInput "n" "did:key:zA" "registry.test" 300

def authCalls : ℕ → AuthCall
  | 0 => .challenge authService "did:key:zA" ⟨[110], 0, none⟩
  | _ + 1 => .token authService tokenRequest
      ⟨10 ^ 9, 10 ^ 9, fun _ _ => .error (.keyResolution "no such host"), "jti-1", none, none⟩

def authMoves (n : ℕ) : AuthMove ℕ := .call (if n < 2 then n else n - 1)

theorem authMoves_first {n i : ℕ} (h : FirstAction authMoves n i) : i = if n < 2 then n else n - 1 :=
  (AuthMove.call.inj h.1).symm

theorem authMoves_unguessed : Unguessed authApi authCalls authMoves := by
  rintro m n i k r hmn - hk ⟨svc, draw, hcall, -⟩ -
  have hn := authMoves_first hk
  cases k with
  | zero => split at hn <;> omega
  | succ k => cases hcall

theorem authMoves_replay (n : ℕ) : FirstAction authMoves (n + 3) (n + 2) := by
  refine ⟨?_, fun m hm hcall => ?_⟩
  · rw [authMoves, if_neg (by omega)]
    rfl
  · have := AuthMove.call.inj hcall
    split at this <;> omega

end Sample

/-- The first request is answered with a token on the challenge, and all others fail. -/
theorem challenge_single_use_sample :
    (authRun Sample.authApi (Backend.postgres.challengeStore Sample.authApi) Sample.authCalls
      (fun _ => none) Sample.authMoves 3).procs 1 = .ret (.token ⟨"jwt:jti-1", "Bearer", 3601⟩) ∧
    (∃ r, IssuedOn Sample.authApi Sample.authService Sample.tokenRequest
      ⟨10 ^ 9, 10 ^ 9, fun _ _ => .error (.keyResolution "no such host"), "jti-1", none, none⟩ r
      ⟨"jwt:jti-1", "Bearer", 3601⟩) ∧
    ∀ n, ∃ e, (authRun Sample.authApi (Backend.postgres.challengeStore Sample.authApi)
      Sample.authCalls (fun _ => none) Sample.authMoves (n + 4)).procs (n + 2) = .fail e := by
  obtain ⟨hissued, -, honce⟩ := challenge_single_use Sample.authApi
    (fun _ _ => Sample.readInstant_instantText) .postgres Sample.authCalls (fun _ => none) Sample.authMoves
  have htoken : (authRun Sample.authApi (Backend.postgres.challengeStore Sample.authApi)
      Sample.authCalls (fun _ => none) Sample.authMoves 3).procs 1 =
        .ret (.token ⟨"jwt:jti-1", "Bearer", 3601⟩) := Proc.eq_ret_of_value? (by decide +kernel)
  have hfirst : FirstAction Sample.authMoves 1 1 := ⟨rfl, fun m hm => by
    obtain rfl : m = 0 := by omega
    simp [Sample.authMoves]⟩
  obtain ⟨m, n, k, r, -, -, -, -, -, hr⟩ := hissued 1 _ _ _ 3 _ rfl htoken
  refine ⟨htoken, ⟨r, hr⟩, fun n => ?_⟩
  exact (honce Sample.authMoves_unguessed).1 1 (n + 2) 1 (n + 3) "n" (by omega) hfirst
    ⟨_, _, _, rfl, rfl, nofun⟩ (Sample.authMoves_replay n) ⟨_, _, _, rfl, rfl⟩

end AcdpRegistry.Auth
