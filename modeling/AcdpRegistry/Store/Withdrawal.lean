/-
  Keyless publishes and the retraction of the attestation they rest on.

  The window gate reads the attestation's retracted flag.  SQLite has the whole
  database locked by then, so the flag is still what the publish commits on.
  Postgres reads it without a lock: a retraction that commits after the read and
  before the publish commits is not seen.
-/
import AcdpRegistry.Store.Read

namespace AcdpRegistry

open Lib

/-! ## SQLite -/

theorem Call.begun_subset (call : Call) (views : ℕ → Db) :
    call.store.dialect.begun 0 ⊆ (call.tx.run views {}).2.locks := by
  have hbegin : ∀ (st : SqlStore) {ρ α : Type} (f : Unit → Tx Db Part ρ α),
      st.dialect.begun 0 ⊆ ((st.begin >>= f).run views {}).2.locks := by
    intro st ρ α f e he
    exact (Tx.grows_bind st.begin f).locks (List.mem_append_right _ he)
  cases call with
  | publish st c draw => exact hbegin st _
  | lifecycle st event draw => exact hbegin st _
  | evictIdempotency st now =>
    show _ ⊆ ((st.evictIdempotencyTx now).run views {}).2.locks
    unfold SqlStore.evictIdempotencyTx
    exact hbegin st _

section Runs

variable {ι : Type} {call : ι → Call} (S : StoreSchedule call)

theorem sqlite_isolated (hd : ∀ i, (call i).store.dialect = .sqlite) {n : ℕ} {i : ι}
    (hn : S.commits n = some i) (k : ℕ) : S.db (S.moment i k) = S.db n := by
  have hwhole : ∀ j, (0, Lock.whole) ∈ (S.done (fun i => (call i).tx) j).locks := by
    intro j
    refine (call j).begun_subset _ ?_
    simp [hd j, Dialect.begun, Dialect.beginLocks]
  exact S.constant_of_lock (hwhole i) (fun j _ => ⟨0, .whole, hwhole j, trivial⟩)
    (S.ordered i (Nat.zero_le k)) (S.moment_le hn k) (S.finish_eq hn).ge

/-- **On SQLite calls take effect one after the other.**  A call that commits leaves the state, and
    gives the answer, that it does alone on the state it commits on; so every state is the one that the
    calls which have committed lead to, run alone in the order of their commits. -/
theorem sqlite_serializable (hd : ∀ i, (call i).store.dialect = .sqlite) :
    (∀ n i, S.commits n = some i → S.result i = ((call i).tx.run (fun _ => S.db n) {}).1) ∧
    ∀ n, S.db n = ((List.range n).filterMap S.commits).foldl
      (fun db i => Schedule.after (call i).tx db) (S.db 0) := by
  have halone : ∀ {n i}, S.commits n = some i →
      S.attempt (fun i => (call i).tx) i = (call i).tx.run (fun _ => S.db n) {} := by
    intro n i hn
    exact congrArg (fun views => (call i).tx.run views {}) (funext fun k => sqlite_isolated S hd hn k)
  refine ⟨fun n i hn => congrArg Prod.fst (halone hn), fun n => ?_⟩
  induction n with
  | zero => rfl
  | succ n ih =>
    rw [List.range_succ, List.filterMap_append, List.foldl_append, ← ih]
    cases hn : S.commits n with
    | none => simpa [hn] using S.idle n hn
    | some i =>
      obtain ⟨a, hrun⟩ := S.run_of_commit hn
      simp only [List.filterMap_cons, hn, List.filterMap_nil, List.foldl_cons, List.foldl_nil]
      rw [S.db_of_commit hn, Schedule.after, (halone hn).symm.trans hrun]

end Runs

/-! ## The gate -/

theorem InWindow.not_retracted {api : AcdpApi} {req : PublishRequest} {createdAt : ℤ}
    {r : KeyAttestationRef} {db : Db} (h : InWindow api req createdAt r db) :
    ¬db.Retracted r.ctxId := by
  obtain ⟨succ, hfound, -, hwithdrawn, -⟩ := h
  rintro ⟨row, hrow, hflag⟩
  obtain ⟨att, -, hfound⟩ := Option.bind_eq_some_iff.1 hfound
  obtain ⟨row', hrow', hfound⟩ := Option.bind_eq_some_iff.1 hfound
  cases hfound
  rw [hrow] at hrow'
  cases hrow'
  rw [hflag] at hwithdrawn
  cases hwithdrawn

/-- The gate reads in the statement before the one that inserts, and on Postgres locks, the context. -/
theorem publishTx_gate {st : SqlStore} {c : PublishCommit} {draw : PublishDraw} {r : KeyAttestationRef}
    {views : ℕ → Db} {s : Local Db Part} {resp : PublishResponse}
    (h : (st.publishTx c draw).run views {} = (.ok resp, s))
    (hr : keylessSuccessor st.api c.req = some r) :
    ∃ k, InWindow st.api c.req (wholeMs draw.now) r (views k) ∧
      (st.dialect = .postgres → (k + 1, .part (.context resp.ctxId)) ∈ s.locks) := by
  obtain ⟨_, s₀, h₀, h⟩ := Tx.bind_ok.1 h
  obtain ⟨_, s₁, h₁, h⟩ := Tx.bind_ok.1 h
  obtain ⟨firstV1, s₂, h₂, h⟩ := Tx.bind_ok.1 h
  obtain ⟨written, s₃, h₃, h⟩ := Tx.bind_ok.1 h
  obtain ⟨-, hs₀⟩ := Tx.query_ok.1 h₀
  have hb : st.dialect.begun 0 ⊆ s₀.locks := by
    rw [← hs₀]
    exact List.subset_append_right _ _
  have g₁ := Tx.grows_of_run h₁
  have g₂ := g₁.trans (Tx.grows_of_run h₂)
  have hown₀ : s₀.own = id := by rw [← hs₀]; rfl
  obtain ⟨evicts, -, hown₁⟩ := idempotencyLookup_ok h₁
  obtain ⟨hown₂, -, -⟩ := supersession_ok (fun _ he => g₁.locks (hb he)) h₂
  obtain ⟨att, leaf, -, hwrote⟩ := writeRows_ok (fun _ he => g₂.locks (hb he)) h₃
  -- what the transaction has done by then does not touch the attestations
  rw [hown₂, hown₁, hown₀] at hwrote
  obtain ⟨hwindow, hlock⟩ := hwrote.window r hr
  refine ⟨s₂.stmts, hwindow, fun hd => ?_⟩
  have hresp : resp.ctxId = written.1.ctxId := by
    obtain ⟨_, _, -, h⟩ := Tx.bind_ok.1 h
    obtain ⟨_, _, -, h⟩ := Tx.bind_ok.1 h
    obtain ⟨rfl, -⟩ := Tx.pure_ok.1 h
    rfl
  rw [hresp]
  exact (Tx.grows_of_run h).locks (hlock hd)

/-- **Keyless publishes and withdrawn attestations.**  A keyless publish that commits, in any
    interleaving, has read that its attestation is indexed and not retracted, in the statement before
    the insert of its context (which on Postgres locks the new row); when all calls are to SQLite, that
    is so in the very state it commits on. -/
theorem keyless_publish_not_withdrawn {ι : Type} {call : ι → Call} (S : StoreSchedule call) {n : ℕ}
    {i : ι} {st : SqlStore} {c : PublishCommit} {draw : PublishDraw} {r : KeyAttestationRef}
    (hn : S.commits n = some i) (hi : call i = .publish st c draw)
    (hr : keylessSuccessor st.api c.req = some r) :
    (∃ k p, S.result i = .ok (.inserted p) ∧ S.moment i (k + 1) ≤ n ∧
      (st.dialect = .postgres →
        (k + 1, .part (.context p.ctxId)) ∈ (S.done (fun i => (call i).tx) i).locks) ∧
      InWindow st.api c.req (wholeMs draw.now) r (S.db (S.moment i k)) ∧
      ¬(S.db (S.moment i k)).Retracted r.ctxId) ∧
    ((∀ j, (call j).store.dialect = .sqlite) →
      InWindow st.api c.req (wholeMs draw.now) r (S.db n) ∧ ¬(S.db n).Retracted r.ctxId) := by
  obtain ⟨a, hrun⟩ := S.run_of_commit hn
  have hresult : S.result i = .ok a := congrArg Prod.fst hrun
  rw [hi] at hrun
  obtain ⟨p, htx, rfl⟩ := Tx.mapEnd_ok.1 hrun
  obtain ⟨k, hwindow, hlock⟩ := publishTx_gate htx hr
  refine ⟨⟨k, p, hresult, S.moment_le hn _, hlock, hwindow, hwindow.not_retracted⟩, fun hd => ?_⟩
  rw [sqlite_isolated S hd hn k] at hwindow
  exact ⟨hwindow, hwindow.not_retracted⟩

/-! ## Sample runs -/

section

variable (d : Dialect)

def sampleKeylessStore : SqlStore := { dialect := d, api := Sample.api }

def sampleAttest : Call :=
  .publish (sampleKeylessStore d)
    { req := { Sample.request "did:web:registry.example.com" "hash1" with
        contextType := .custom keyAttestationType
        metadata := some (.array [.string "did:web:agents.example.com:ci", .number 0,
          .number (600 * 10 ^ 9), .string "sha256:a375"]) }
      authority := "registry.example.com" }
    { now := 0, ctxId := "att" }

def sampleKeyless : Call :=
  .publish (sampleKeylessStore d)
    { req := { Sample.request "did:web:agents.example.com:ci" "hash2" with
        signature := ⟨"did:web:agents.example.com:ci#acdp-kl-f7b7", "ed25519", ""⟩
        keyAttestation := some ⟨"att", "hash1"⟩ }
      authority := "registry.example.com" }
    { now := 10 ^ 9, ctxId := "ctx1" }

def sampleWithdraw : Call :=
  .lifecycle (sampleKeylessStore d)
    { eventId := "e1", ctxId := "att", eventType := .retracted, occurredAt := 10 ^ 9,
      actor := "did:web:registry.example.com" }
    { now := 10 ^ 9 }

end

def sampleKeylessCalls (i : Fin 2) : Call :=
  if (i : ℕ) = 0 then sampleAttest .sqlite else sampleKeyless .sqlite

def sampleKeylessRun : StoreSchedule sampleKeylessCalls := Schedule.serial _ {}

theorem keyless_publish_not_withdrawn_sample :
    sampleKeylessRun.commits 1 = some 1 ∧ ¬(sampleKeylessRun.db 1).Retracted "att" := by
  have hcommits : sampleKeylessRun.commits 1 = some 1 := by decide
  refine ⟨hcommits, ?_⟩
  have h := @keyless_publish_not_withdrawn _ _ sampleKeylessRun 1 1 _ _ _ ⟨"att", "hash1"⟩
    hcommits rfl rfl
  refine (h.2 fun j => ?_).2
  unfold sampleKeylessCalls
  split_ifs <;> rfl

theorem sqlite_serializable_sample : sampleKeylessRun.commits 1 = some 1 ∧ sampleKeylessRun.db 1 =
    Schedule.after (sampleKeylessCalls 0).tx {} := by
  refine ⟨by decide, ((sqlite_serializable sampleKeylessRun fun j => ?_).2 1).trans rfl⟩
  unfold sampleKeylessCalls
  split_ifs <;> rfl

/-- On Postgres, a publish and the retraction of its attestation. -/
def sampleWithdrawalCalls (i : Fin 2) : Call :=
  if (i : ℕ) = 0 then sampleKeyless .postgres else sampleWithdraw .postgres

def sampleAttested : Db := Schedule.after (sampleAttest .postgres).tx {}

-- the publish has locked nothing the retraction needs when it passes the window gate
theorem sampleWithdrawal_free :
    ∀ e ∈ ((sampleWithdrawalCalls 0).tx.run
        (Schedule.withinViews (fun i => (sampleWithdrawalCalls i).tx) 2 sampleAttested) {}).2.locks,
      e.1 < 2 → ∀ e' ∈ ((sampleWithdrawalCalls 1).tx.run (fun _ => sampleAttested) {}).2.locks,
        ¬e.2.Conflict e'.2 := by decide

/-- The retraction runs between the publish's window gate and its insert. -/
def sampleWithdrawalRace : StoreSchedule sampleWithdrawalCalls :=
  Schedule.within _ 2 sampleAttested sampleWithdrawal_free

/-- On Postgres a retraction commits first and the publish that rests on it still commits. -/
theorem keyless_publish_outlives_withdrawal :
    sampleWithdrawalRace.commits 1 = some 1 ∧ (sampleWithdrawalRace.db 2).Retracted "att" ∧
      sampleWithdrawalRace.commits 2 = some 0 ∧ (sampleWithdrawalRace.db 3).Retracted "att" ∧
      ((sampleWithdrawalRace.db 3).contexts.map (·.body.ctxId)) = ["att", "ctx1"] := by
  refine ⟨by decide, ⟨_, rfl, rfl⟩, by decide, ⟨_, rfl, rfl⟩, by decide⟩

end AcdpRegistry
