/-
  What a publish that commits has checked and what it writes.

  `Publication` is what one publish adds to the tables, and `Db.publish` adds it
  in one step.  `Accepted` says what must hold of a state for that step: it is
  the abstract publish.  `publishTx_ok` connects the two: on either backend,
  in any interleaving, a publish that commits takes this step from the very state
  it commits on.  The statements saw other states; what they saw under a lock is
  still there, what they saw without one they saw in some earlier state.
-/
import AcdpRegistry.Store.Guarded
import AcdpRegistry.Lib.Handler

namespace AcdpRegistry

open Lib

/-! ## The abstract publish -/

/-- What one publish adds to the tables, and the expired records it removes. -/
structure Publication where
  row : ContextRow
  attestation : Option KeyAttestationIndexRow
  leaf : Option LogLeafRow
  record : Option IdempotencyRecord
  evicts : IdempotencyRecord → Bool
  feed : List (FeedAppend × ℕ × ℤ)

def Db.publish (p : Publication) (db : Db) : Db where
  contexts :=
    match p.row.body.supersedes with
    | some prev => Db.supersede (db.contexts ++ [p.row]) prev
    | none => db.contexts ++ [p.row]
  idempotency := db.idempotency.filter (fun r => !p.evicts r) ++ p.record.toList
  keyAttestations := db.keyAttestations ++ p.attestation.toList
  logLeaves := db.logLeaves ++ p.leaf.toList
  lifecycleEvents := db.lifecycleEvents
  feed := Db.appendFeed db.feed p.feed

theorem Db.bodies_publish (p : Publication) (db : Db) :
    (db.publish p).contexts.map (·.body) = db.contexts.map (·.body) ++ [p.row.body] := by
  unfold Db.publish
  cases p.row.body.supersedes <;> simp

/-- What `checkTarget` asks of the target of a publish. -/
structure MaySupersede (c : PublishCommit) (row : ContextRow) : Prop where
  tenant : ∀ t ∈ c.tenant, row.tenantId = t
  owner : row.body.agentId = c.req.agentId ∨ c.req.agentId ∈ row.body.contributors
  lineage : ∀ l ∈ c.req.lineageId, l = row.body.lineageId
  version : c.req.version = row.body.version + 1

/-- The target of a publish fits it. -/
structure Target (c : PublishCommit) (row : ContextRow) : Prop extends MaySupersede c row where
  status : row.status ≠ .superseded

/-- The attestation lookups of a keyless successor, in the states `found` and `other`, let its signer
    supersede the predecessor's. -/
def SignerMay (api : AcdpApi) (req : PublishRequest) (prev : Body) (r : KeyAttestationRef)
    (found other : Db) : Prop :=
  ∃ succ att pred, found.attestation? r.ctxId = some succ ∧ succ.row.binds api req ∧
    predecessorAttestation api prev = .ok att ∧
    predecessorSigner att ((att.bind other.attestation?).map (·.row)) = .ok pred ∧
    api.maySupersede pred succ.row.signer = .ok ()

/-- The window lookup of a keyless request, in the state `found`, admits it. -/
def InWindow (api : AcdpApi) (req : PublishRequest) (createdAt : ℤ) (r : KeyAttestationRef)
    (found : Db) : Prop :=
  ∃ succ, found.attestation? r.ctxId = some succ ∧ succ.row.binds api req ∧
    succ.withdrawn = false ∧ succ.row.notBeforeMs ≤ timestampMillis createdAt ∧
    timestampMillis createdAt < succ.row.notAfterMs

def Publication.response (p : Publication) : PublishResponse where
  ctxId := p.row.body.ctxId
  lineageId := p.row.body.lineageId
  version := p.row.body.version
  createdAt := p.row.body.createdAt
  status := .active
  registryReceipt := p.row.receipt

/-- The state `db` lets the publish `p` of the call happen.  What no lock protects was read in one of
    the states `seen`. -/
structure Accepted (st : SqlStore) (c : PublishCommit) (draw : PublishDraw) (seen : Db → Prop)
    (db : Db) (p : Publication) : Prop where
  body : p.row.body = .fromPublishRequest c.req p.row.body.ctxId p.row.body.lineageId c.authority
    (wholeMs draw.now)
  row : p.row = SqlStore.newRow c p.row.body p.row.receipt
  receipt : SqlStore.mintReceipt c p.row.body = .ok p.row.receipt
  fresh : db.context? p.row.body.ctxId = none
  ids : ∃ firstV1, st.api.assignIdentifiers draw.ctxId c.authority c.req.supersedes firstV1
      c.req.contentHash = .ok (p.row.body.ctxId, p.row.body.lineageId) ∧
    (c.req.supersedes = none → firstV1 = none) ∧
    ∀ prev, c.req.supersedes = some prev → ∃ row, db.context? prev = some row ∧ Target c row ∧
      (∀ r, keylessSuccessor st.api c.req = some r → ∃ found other, seen found ∧ seen other ∧
        SignerMay st.api c.req row.body r found other) ∧
      ∃ d, seen d ∧ d.context? prev = some row ∧
        firstV1 = (d.firstOfLineage row.body.lineageId).map (·.body.ctxId)
  window : ∀ r, keylessSuccessor st.api c.req = some r → ∃ d, seen d ∧
    InWindow st.api c.req (wholeMs draw.now) r d
  attestation : indexRowFor st.api p.row.body c.authority = .ok p.attestation
  token : ∀ a ∈ p.attestation, a.notBeforeMs < a.notAfterMs ∧
    ∀ r ∈ db.keyAttestations, r.tokenHash ≠ a.tokenHash
  noLeaf : st.logEnabled = false → p.leaf = none
  leaf : st.logEnabled = true → ∃ r text, p.row.receipt = some r ∧
    st.buildLeafRecord p.row.body r = .ok text ∧
    p.leaf = some ⟨db.logLeaves.length, p.row.body.ctxId, text.1, text.2⟩
  evicts : ∀ r, p.evicts r → ∃ i ∈ c.idempotency,
    Db.expiredAt c.req.agentId i.key (st.dialect.stamp draw.now) r
  keyFree : ∀ i ∈ c.idempotency, ∀ r ∈ db.idempotency, r.agentId = c.req.agentId → r.key = i.key →
    p.evicts r
  record : p.record = c.idempotency.map fun i => st.record c draw i p.response
  feed : ∃ pred appends, feedAppendsForPublish st.api p.row.body p.row.receipt pred = .ok appends ∧
    p.feed = (appends.mapIdx fun i a => (a, draw.feedRow i)) ∧
    (p.row.receipt ≠ none → (c.req.supersedes = none → pred = none) ∧
      ∀ prev, c.req.supersedes = some prev → ∃ row, db.context? prev = some row ∧
        pred = some ⟨prev, row.body.agentId⟩)

/-! ## Statements -/

section Statements

variable {st : SqlStore} {ρ α : Type} {views : ℕ → Db} {s s' : Local Db Part}

theorem checked_ok {x : Except AcdpError α} {a : α} :
    (PublishTx.checked x).run views s = (.ok a, s') ↔ x = .ok a ∧ s = s' := by
  rw [PublishTx.checked, Tx.lift_ok, except_mapError_ok]

theorem refuseIf_ok {p : Prop} [Decidable p] {e : AcdpError} {u : Unit} :
    (PublishTx.refuseIf p e).run views s = (.ok u, s') ↔ ¬p ∧ s = s' :=
  Tx.refuse_ok

theorem select_ok {f : Db → α} {a : α} (h : (select f : Tx Db Part ρ α).run views s = (.ok a, s')) :
    f (s.own (views s.stmts)) = a ∧ s'.own = s.own := by
  obtain ⟨ha, rfl⟩ := Tx.query_ok.1 h
  exact ⟨ha, rfl⟩

theorem insertFeedRows_ok :
    ∀ (rows : List (FeedAppend × ℕ × ℤ)) {s s' : Local Db Part} {u : Unit},
    (SqlStore.insertFeedRows rows : Tx Db Part ρ Unit).run views s = (.ok u, s') →
    s'.own = (fun db => { db with feed := Db.appendFeed db.feed rows }) ∘ s.own
  | [], s, s', u, h => by
    obtain ⟨-, rfl⟩ := Tx.pure_ok.1 h
    rfl
  | r :: rows, s, s', u, h => by
    obtain ⟨_, s₁, h₁, h₂⟩ := Tx.bind_ok.1 h
    obtain ⟨-, rfl⟩ := Tx.stmt_ok.1 h₁
    rw [insertFeedRows_ok rows h₂]
    rfl

variable (hb : st.dialect.begun 0 ⊆ s.locks)

include hb

theorem held_of_rowLock {needs : Db → List (Lock Part)} {write : Db → Db → Db} {r : Part}
    {committed : Db} (hneeds : st.dialect.rowLock r ⊆ needs (s.own committed)) :
    (s.next needs write committed).Held s.stmts r := by
  rcases st.dialect.guarded 0 r with ⟨l, hl, hg⟩ | ⟨⟨k, l⟩, he, hg⟩
  · exact Local.held_next (hneeds hl) hg
  · obtain rfl : k = 0 := by simp [Dialect.begun] at he; omega
    exact ⟨0, Nat.zero_le _, l, (s.grows_next _ _ _).locks (hb he), hg⟩

theorem lockContext_ok {ctxId : String} {x : Option ContextRow}
    (h : (st.lockContext ctxId : Tx Db Part ρ _).run views s = (.ok x, s')) :
    (s.own (views s.stmts)).context? ctxId = x ∧ s'.own = s.own ∧
      (x.isSome → s'.Held s.stmts (.context ctxId)) := by
  obtain ⟨hx, rfl⟩ := Tx.query_ok.1 h
  refine ⟨hx, rfl, fun hsome => held_of_rowLock hb ?_⟩
  simp [hx, hsome]

theorem insertUnique_ok {r : Part} {free : Db → Bool} {insert : Db → Db} {b : Bool}
    (h : (st.insertUnique r free insert : Tx Db Part ρ Bool).run views s = (.ok b, s'))
    (hins : ¬b = false) :
    free (s.own (views s.stmts)) = true ∧ s'.own = insert ∘ s.own ∧ s'.Held s.stmts r := by
  obtain ⟨hfree, rfl⟩ := Tx.stmt_ok.1 h
  have htrue : free (s.own (views s.stmts)) = true := by rw [hfree]; simpa using hins
  refine ⟨htrue, ?_, held_of_rowLock hb (by simp [htrue])⟩
  funext db
  simp [Local.next, htrue]

theorem advisoryLock_ok {r : Part} {u : Unit}
    (h : (st.advisoryLock r : Tx Db Part ρ Unit).run views s = (.ok u, s')) :
    s'.own = s.own ∧ ∀ k, s'.stmts ≤ k → s'.Held k r := by
  unfold SqlStore.advisoryLock at h
  cases hd : st.dialect with
  | sqlite =>
    rw [hd] at h hb
    obtain ⟨-, rfl⟩ := Tx.pure_ok.1 h
    exact ⟨rfl, fun k _ => ⟨0, Nat.zero_le k, .whole,
      hb (by simp [Dialect.begun, Dialect.beginLocks]), trivial⟩⟩
  | postgres =>
    rw [hd] at h
    obtain ⟨-, rfl⟩ := Tx.query_ok.1 h
    refine ⟨rfl, fun k hk => ?_⟩
    exact (Local.held_next (l := .part r) (by simp) rfl).mono (.refl _) ((Nat.le_succ _).trans hk)

theorem insertAll_ok {rows : List (FeedAppend × ℕ × ℤ)} {u : Unit}
    (h : (st.insertAll rows : Tx Db Part ρ Unit).run views s = (.ok u, s')) :
    s'.own = (fun db => { db with feed := Db.appendFeed db.feed rows }) ∘ s.own := by
  unfold SqlStore.insertAll at h
  split at h
  · next hnil =>
    obtain ⟨-, rfl⟩ := Tx.pure_ok.1 h
    rw [List.isEmpty_iff.1 hnil]
    rfl
  · obtain ⟨_, s₁, h₁, h₂⟩ := Tx.bind_ok.1 h
    rw [insertFeedRows_ok rows h₂, (advisoryLock_ok hb h₁).1]

end Statements

/-! ## Steps -/

section Steps

variable {st : SqlStore} {c : PublishCommit} {draw : PublishDraw} {views : ℕ → Db}
  {s s' : Local Db Part} {u : Unit}

theorem evictKey_ok {ρ : Type} {agentId key : String} {now : ℤ}
    (h : (st.evictKey agentId key now : Tx Db Part ρ Unit).run views s = (.ok u, s')) :
    ∃ evicts : IdempotencyRecord → Bool,
      (∀ r, evicts r → Db.expiredAt agentId key (st.dialect.stamp now) r) ∧
      s'.own = (fun db => { db with idempotency := db.idempotency.filter fun r => !evicts r }) ∘
        s.own := by
  obtain ⟨-, rfl⟩ := Tx.stmt_ok.1 h
  by_cases hexp : (s.own (views s.stmts)).idempotency.any
      (Db.expiredAt agentId key (st.dialect.stamp now))
  · refine ⟨Db.expiredAt agentId key (st.dialect.stamp now), fun _ h => h, ?_⟩
    funext db
    simp [Local.next, hexp]
  · refine ⟨fun _ => false, by simp, ?_⟩
    funext db
    simp [Local.next, hexp]

theorem idempotencyLookup_ok (h : (st.idempotencyLookup c draw).run views s = (.ok u, s')) :
    ∃ evicts : IdempotencyRecord → Bool,
      (∀ r, evicts r → ∃ i ∈ c.idempotency,
        Db.expiredAt c.req.agentId i.key (st.dialect.stamp draw.now) r) ∧
      s'.own = (fun db => { db with idempotency := db.idempotency.filter fun r => !evicts r }) ∘
        s.own := by
  unfold SqlStore.idempotencyLookup at h
  cases hi : c.idempotency with
  | none =>
    rw [hi] at h
    obtain ⟨-, rfl⟩ := Tx.pure_ok.1 h
    exact ⟨fun _ => false, by simp, by funext db; simp⟩
  | some i =>
    rw [hi] at h
    obtain ⟨_, s₁, h₁, h⟩ := Tx.bind_ok.1 h
    obtain ⟨record, s₂, h₂, h⟩ := Tx.bind_ok.1 h
    obtain ⟨evicts, hexp, hown⟩ := evictKey_ok h₁
    obtain ⟨-, rfl⟩ := Tx.query_ok.1 h₂
    refine ⟨evicts, fun r hr => ⟨i, rfl, hexp r hr⟩, ?_⟩
    cases record with
    | none =>
      obtain ⟨-, rfl⟩ := Tx.pure_ok.1 h
      exact hown
    | some record =>
      obtain ⟨-, rfl⟩ := Tx.refuse_ok.1 h
      exact hown

theorem not_refuseSuperseded_ok {prev : String} :
    ¬(st.refuseSuperseded c draw prev).run views s = (.ok u, s') := by
  intro h
  unfold SqlStore.refuseSuperseded at h
  split at h
  · obtain ⟨record, _, -, h⟩ := Tx.bind_ok.1 h
    cases record <;> exact Tx.exit_ok h
  · exact Tx.exit_ok h

theorem checkTarget_ok {prev : String} {row : ContextRow}
    (h : (SqlStore.checkTarget c prev row).run views s = (.ok u, s')) :
    s = s' ∧ MaySupersede c row := by
  obtain ⟨_, _, h₁, h⟩ := Tx.bind_ok.1 h
  obtain ⟨ht, rfl⟩ := refuseIf_ok.1 h₁
  obtain ⟨_, _, h₂, h⟩ := Tx.bind_ok.1 h
  obtain ⟨ho, rfl⟩ := refuseIf_ok.1 h₂
  obtain ⟨_, _, h₃, h⟩ := Tx.bind_ok.1 h
  obtain ⟨hl, rfl⟩ := refuseIf_ok.1 h₃
  obtain ⟨hv, rfl⟩ := refuseIf_ok.1 h
  push Not at ht hl hv
  exact ⟨rfl, ht, not_not.1 ho, hl, hv⟩

theorem predecessorRow_ok {att : Option String} {row : Option KeyAttestationIndexRow}
    (h : (SqlStore.predecessorRow att).run views s = (.ok row, s')) :
    (att.bind (s.own (views s.stmts)).attestation?).map (·.row) = row ∧ s'.own = s.own := by
  cases att with
  | none =>
    obtain ⟨rfl, rfl⟩ := Tx.pure_ok.1 h
    exact ⟨rfl, rfl⟩
  | some att =>
    obtain ⟨x, s₁, h₁, h⟩ := Tx.bind_ok.1 h
    obtain ⟨rfl, rfl⟩ := Tx.pure_ok.1 h
    obtain ⟨rfl, hown⟩ := select_ok h₁
    exact ⟨rfl, hown⟩

theorem supersessionGate_ok {row : ContextRow}
    (h : (st.supersessionGate c row).run views s = (.ok u, s')) :
    s'.own = s.own ∧ ∀ r, keylessSuccessor st.api c.req = some r →
      ∃ k k', SignerMay st.api c.req row.body r (s.own (views k)) (s.own (views k')) := by
  unfold SqlStore.supersessionGate at h
  cases hr : keylessSuccessor st.api c.req with
  | none =>
    rw [hr] at h
    obtain ⟨-, rfl⟩ := Tx.pure_ok.1 h
    exact ⟨rfl, by simp⟩
  | some r =>
    rw [hr] at h
    obtain ⟨found, s₁, h₁, h⟩ := Tx.bind_ok.1 h
    obtain ⟨succ, hsucc, h⟩ := Tx.checked_bind_ok.1 h
    obtain ⟨att, hatt, h⟩ := Tx.checked_bind_ok.1 h
    obtain ⟨attRow, s₂, h₄, h⟩ := Tx.bind_ok.1 h
    obtain ⟨pred, hpred, h⟩ := Tx.checked_bind_ok.1 h
    obtain ⟨hmay, rfl⟩ := checked_ok.1 h
    obtain ⟨hfound, hown₁⟩ := select_ok h₁
    obtain ⟨rfl, hown₂⟩ := predecessorRow_ok h₄
    obtain ⟨hsome, hbinds, -⟩ := admitSuccessor_ok hsucc
    refine ⟨hown₂.trans hown₁, ?_⟩
    rintro r' ⟨⟩
    refine ⟨s.stmts, s₁.stmts, succ, att, pred, hfound.trans hsome, hbinds, hatt, ?_,
      checkSupersession_ok hmay⟩
    rwa [hown₁] at hpred

theorem windowGate_ok {createdAt : ℤ} (h : (st.windowGate c createdAt).run views s = (.ok u, s')) :
    s'.own = s.own ∧ ∀ r, keylessSuccessor st.api c.req = some r →
      s'.stmts = s.stmts + 1 ∧ InWindow st.api c.req createdAt r (s.own (views s.stmts)) := by
  unfold SqlStore.windowGate at h
  cases hr : keylessSuccessor st.api c.req with
  | none =>
    rw [hr] at h
    obtain ⟨-, rfl⟩ := Tx.pure_ok.1 h
    exact ⟨rfl, by simp⟩
  | some r =>
    rw [hr] at h
    obtain ⟨found, s₁, h₁, h⟩ := Tx.bind_ok.1 h
    obtain ⟨succ, hsucc, h⟩ := Tx.checked_bind_ok.1 h
    obtain ⟨hwin, rfl⟩ := checked_ok.1 h
    obtain ⟨hfound, hown⟩ := select_ok h₁
    obtain ⟨-, hs₁⟩ := Tx.query_ok.1 h₁
    obtain ⟨hsome, hbinds, hw⟩ := admitSuccessor_ok hsucc
    refine ⟨hown, ?_⟩
    rintro r' ⟨⟩
    exact ⟨by rw [← hs₁]; rfl, succ, hfound.trans hsome, hbinds, hw, checkWindow_ok hwin⟩

/-- What the supersession checks saw of the target, by the views `v` from statement `j` on. -/
structure SawTarget (st : SqlStore) (c : PublishCommit) (v : ℕ → Db) (j : ℕ) (s' : Local Db Part)
    (prev : String) (firstV1 : Option String) (row : ContextRow) : Prop where
  found : (v j).context? prev = some row
  held : s'.Held j (.context prev)
  target : Target c row
  signer : ∀ r, keylessSuccessor st.api c.req = some r →
    ∃ k k', SignerMay st.api c.req row.body r (v k) (v k')
  first : ∃ k, j ≤ k ∧ firstV1 = ((v k).firstOfLineage row.body.lineageId).map (·.body.ctxId)

variable (hb : st.dialect.begun 0 ⊆ s.locks)

include hb

theorem supersession_ok {firstV1 : Option String}
    (h : (st.supersession c draw).run views s = (.ok firstV1, s')) :
    s'.own = s.own ∧ (c.req.supersedes = none → firstV1 = none) ∧
      ∀ prev, c.req.supersedes = some prev → ∃ row,
        SawTarget st c (fun k => s.own (views k)) s.stmts s' prev firstV1 row := by
  unfold SqlStore.supersession at h
  cases hp : c.req.supersedes with
  | none =>
    rw [hp] at h
    obtain ⟨rfl, rfl⟩ := Tx.pure_ok.1 h
    exact ⟨rfl, fun _ => rfl, by simp⟩
  | some prev =>
    rw [hp] at h
    obtain ⟨x, s₁, h₁, h⟩ := Tx.bind_ok.1 h
    obtain ⟨row, _, h₂, h⟩ := Tx.bind_ok.1 h
    obtain ⟨rfl, rfl⟩ := Tx.require_ok.1 h₂
    obtain ⟨_, _, h₃, h⟩ := Tx.bind_ok.1 h
    obtain ⟨rfl, hmay⟩ := checkTarget_ok h₃
    obtain ⟨hfound, hown₁, hheld⟩ := lockContext_ok hb h₁
    split at h
    · obtain ⟨_, _, h₄, -⟩ := Tx.bind_ok.1 h
      exact absurd h₄ not_refuseSuperseded_ok
    · next hstatus =>
      obtain ⟨_, s₂, h₅, h⟩ := Tx.bind_ok.1 h
      obtain ⟨_, -, h⟩ := Tx.checked_bind_ok.1 h
      obtain ⟨x, s₃, h₇, h⟩ := Tx.bind_ok.1 h
      obtain ⟨rfl, rfl⟩ := Tx.pure_ok.1 h
      obtain ⟨hown₂, hsigner⟩ := supersessionGate_ok h₅
      obtain ⟨rfl, hown₃⟩ := select_ok h₇
      rw [hown₁] at hsigner hown₂
      refine ⟨hown₃.trans hown₂, by simp, ?_⟩
      rintro prev' ⟨⟩
      refine ⟨row, hfound, ?_, ⟨hmay, hstatus⟩, hsigner, s₂.stmts, ?_, by rw [hown₂]⟩
      · exact (hheld rfl).mono ((Tx.grows_of_run h₅).trans (Tx.grows_of_run h₇)) le_rfl
      · exact (Tx.grows_of_run h₁).stmts.trans (Tx.grows_of_run h₅).stmts

variable {receipt : Option Json} {body : Body}

theorem insertBody_ok (h : (st.insertBody c body receipt).run views s = (.ok u, s')) :
    (s.own (views s.stmts)).context? body.ctxId = none ∧ s'.Held s.stmts (.context body.ctxId) ∧
      s'.own = (fun db => { db with contexts := db.contexts ++ [SqlStore.newRow c body receipt] }) ∘
        s.own ∧
      (st.dialect = .postgres → (s.stmts, .part (.context body.ctxId)) ∈ s'.locks) := by
  obtain ⟨b, s₁, h₁, h⟩ := Tx.bind_ok.1 h
  obtain ⟨hb', rfl⟩ := refuseIf_ok.1 h
  obtain ⟨hfree, hown, hheld⟩ := insertUnique_ok hb h₁ hb'
  refine ⟨by simpa using hfree, hheld, hown, fun hd => ?_⟩
  obtain ⟨-, rfl⟩ := Tx.stmt_ok.1 h₁
  simp [Local.next, hfree, hd, Dialect.rowLock]

theorem indexAttestation_ok (h : (st.indexAttestation c body).run views s = (.ok u, s')) :
    ∃ att, indexRowFor st.api body c.authority = .ok att ∧
      s'.own = (fun db => { db with keyAttestations := db.keyAttestations ++ att.toList }) ∘ s.own ∧
      ∀ row ∈ att, row.notBeforeMs < row.notAfterMs ∧ ∃ k, s'.Held k (.token row.tokenHash) ∧
        ∀ r ∈ (s.own (views k)).keyAttestations, r.tokenHash ≠ row.tokenHash := by
  obtain ⟨att, hatt, h⟩ := Tx.checked_bind_ok.1 h
  refine ⟨att, hatt, ?_⟩
  cases att with
  | none =>
    obtain ⟨-, rfl⟩ := Tx.pure_ok.1 h
    exact ⟨by funext db; simp, by simp⟩
  | some row =>
    obtain ⟨_, _, h₂, h⟩ := Tx.bind_ok.1 h
    obtain ⟨hwin, rfl⟩ := refuseIf_ok.1 h₂
    obtain ⟨b, s₁, h₃, h⟩ := Tx.bind_ok.1 h
    obtain ⟨hb', rfl⟩ := refuseIf_ok.1 h
    obtain ⟨hfree, hown, hheld⟩ := insertUnique_ok hb h₃ hb'
    refine ⟨hown, ?_⟩
    rintro row' ⟨⟩
    refine ⟨not_le.1 hwin, s.stmts, hheld, fun r hr => ?_⟩
    simp only [Bool.not_eq_true', List.any_eq_false, decide_eq_true_eq] at hfree
    exact hfree r hr

theorem appendLeaf_ok (h : (st.appendLeaf body receipt).run views s = (.ok u, s')) :
    ∃ leaf : Option LogLeafRow,
      s'.own = (fun db => { db with logLeaves := db.logLeaves ++ leaf.toList }) ∘ s.own ∧
      (st.logEnabled = false → leaf = none) ∧
      (st.logEnabled = true → ∃ k r text, s'.Held k .log ∧ receipt = some r ∧
        st.buildLeafRecord body r = .ok text ∧
        leaf = some ⟨(s.own (views k)).logLeaves.length, body.ctxId, text.1, text.2⟩) := by
  unfold SqlStore.appendLeaf at h
  split at h
  · next hlog =>
    obtain ⟨r, _, h₁, h⟩ := Tx.bind_ok.1 h
    obtain ⟨hr, rfl⟩ := Tx.require_ok.1 h₁
    obtain ⟨text, htext, h⟩ := Tx.checked_bind_ok.1 h
    obtain ⟨_, s₁, h₃, h⟩ := Tx.bind_ok.1 h
    obtain ⟨b, s₂, h₄, h⟩ := Tx.bind_ok.1 h
    obtain ⟨hins, rfl⟩ := refuseIf_ok.1 h
    obtain ⟨hown₁, hheld⟩ := advisoryLock_ok hb h₃
    have hgrow := Tx.grows_of_run h₄
    obtain ⟨hfree, rfl⟩ := Tx.stmt_ok.1 h₄
    have htrue : SqlStore.leafFree body.ctxId (s.own (views s₁.stmts)) = true := by
      rw [← hown₁, hfree]; simpa using hins
    refine ⟨some ⟨(s.own (views s₁.stmts)).logLeaves.length, body.ctxId, text.1, text.2⟩, ?_,
      by simp [hlog], fun _ => ⟨s₁.stmts, r, text, (hheld _ le_rfl).mono hgrow le_rfl, hr, htext, rfl⟩⟩
    funext db
    simp [Local.next, htrue, hown₁]
  · next hlog =>
    obtain ⟨-, rfl⟩ := Tx.pure_ok.1 h
    exact ⟨none, by funext db; simp, fun _ => rfl, fun h => absurd h hlog⟩

omit hb in
theorem markSuperseded_ok (h : (st.markSuperseded c).run views s = (.ok u, s')) :
    s'.own = (fun db => { db with
      contexts := match c.req.supersedes with
        | some prev => Db.supersede db.contexts prev
        | none => db.contexts }) ∘ s.own := by
  unfold SqlStore.markSuperseded at h
  cases hp : c.req.supersedes with
  | none =>
    rw [hp] at h
    obtain ⟨-, rfl⟩ := Tx.pure_ok.1 h
    rfl
  | some prev =>
    rw [hp] at h
    obtain ⟨-, rfl⟩ := Tx.stmt_ok.1 h
    rfl

theorem claimKey_ok {response : PublishResponse}
    (h : (st.claimKey c draw response).run views s = (.ok u, s')) :
    s'.own = (fun db => { db with
      idempotency := db.idempotency ++
        (c.idempotency.map fun i => st.record c draw i response).toList }) ∘ s.own ∧
      ∀ i ∈ c.idempotency, ∃ k, s'.Held k (.idempotency c.req.agentId i.key) ∧
        (s.own (views k)).idempotency? c.req.agentId i.key = none := by
  unfold SqlStore.claimKey at h
  cases hi : c.idempotency with
  | none =>
    rw [hi] at h
    obtain ⟨-, rfl⟩ := Tx.pure_ok.1 h
    exact ⟨by funext db; simp, by simp⟩
  | some i =>
    rw [hi] at h
    obtain ⟨b, s₁, h₁, h⟩ := Tx.bind_ok.1 h
    obtain ⟨hb', rfl⟩ := Tx.refuse_ok.1 h
    obtain ⟨hfree, hown, hheld⟩ := insertUnique_ok hb h₁ hb'
    refine ⟨hown, ?_⟩
    rintro i' ⟨⟩
    exact ⟨s.stmts, hheld, by simpa using hfree⟩

omit hb in
theorem feedPredecessor_ok {pred : Option Predecessor}
    (h : (st.feedPredecessor c).run views s = (.ok pred, s')) :
    s'.own = s.own ∧ (c.req.supersedes = none → pred = none) ∧
      ∀ prev, c.req.supersedes = some prev → ∃ row,
        (s.own (views s.stmts)).context? prev = some row ∧ pred = some ⟨prev, row.body.agentId⟩ := by
  unfold SqlStore.feedPredecessor at h
  cases hp : c.req.supersedes with
  | none =>
    rw [hp] at h
    obtain ⟨rfl, rfl⟩ := Tx.pure_ok.1 h
    exact ⟨rfl, fun _ => rfl, by simp⟩
  | some prev =>
    rw [hp] at h
    obtain ⟨x, s₁, h₁, h⟩ := Tx.bind_ok.1 h
    obtain ⟨row, _, h₂, h⟩ := Tx.bind_ok.1 h
    obtain ⟨rfl, rfl⟩ := Tx.require_ok.1 h₂
    obtain ⟨rfl, rfl⟩ := Tx.pure_ok.1 h
    obtain ⟨hrow, hown⟩ := select_ok h₁
    refine ⟨hown, by simp, ?_⟩
    rintro prev' ⟨⟩
    exact ⟨row, hrow, rfl⟩

theorem appendPublish_ok (h : (st.appendPublish c draw body receipt).run views s = (.ok u, s')) :
    ∃ pred appends, feedAppendsForPublish st.api body receipt pred = .ok appends ∧
      s'.own = (fun db => { db with
        feed := Db.appendFeed db.feed (appends.mapIdx fun i a => (a, draw.feedRow i)) }) ∘ s.own ∧
      (receipt ≠ none → (c.req.supersedes = none → pred = none) ∧
        ∀ prev, c.req.supersedes = some prev → ∃ row,
          (s.own (views s.stmts)).context? prev = some row ∧
            pred = some ⟨prev, row.body.agentId⟩) := by
  unfold SqlStore.appendPublish at h
  split at h
  · next hnone =>
    obtain ⟨-, rfl⟩ := Tx.pure_ok.1 h
    obtain rfl : receipt = none := by simpa using hnone
    exact ⟨none, [], rfl, rfl, by simp⟩
  · obtain ⟨pred, s₁, h₁, h⟩ := Tx.bind_ok.1 h
    obtain ⟨appends, happ, h⟩ := Tx.checked_bind_ok.1 h
    obtain ⟨hown₁, hpred⟩ := feedPredecessor_ok h₁
    refine ⟨pred, appends, happ, ?_, fun _ => hpred⟩
    rw [insertAll_ok (fun _ he => (Tx.grows_of_run h₁).locks (hb he)) h, hown₁]

end Steps

/-! ## The publish transaction -/

theorem wholeMs_wholeMs (t : ℤ) : wholeMs (wholeMs t) = wholeMs t := by
  simp [wholeMs]

section Tx

variable {st : SqlStore} {c : PublishCommit} {draw : PublishDraw} {views : ℕ → Db}
  {s : Local Db Part} {db : Db}

theorem context?_of_part {db' : Db} {ctxId : String}
    (h : Db.part (.context ctxId) db = Db.part (.context ctxId) db') :
    db.context? ctxId = db'.context? ctxId :=
  congrArg Prod.fst h

theorem mem_of_idempotency_part {db' : Db} {agentId key : String}
    (h : Db.part (.idempotency agentId key) db = Db.part (.idempotency agentId key) db')
    {r : IdempotencyRecord} (hr : r ∈ db'.idempotency) (ha : r.agentId = agentId)
    (hk : r.key = key) : r ∈ db.idempotency := by
  have : r ∈ Db.part (.idempotency agentId key) db' := List.mem_filter.2 ⟨hr, by simp [ha, hk]⟩
  rw [← h] at this
  exact List.mem_of_mem_filter this

theorem mem_of_token_part {db' : Db} {hash : String}
    (h : Db.part (.token hash) db = Db.part (.token hash) db') {r : KeyAttestationIndexRow}
    (hr : r ∈ db'.keyAttestations) (ht : r.tokenHash = hash) : r ∈ db.keyAttestations := by
  have : r ∈ Db.part (.token hash) db' := List.mem_filter.2 ⟨hr, by simp [ht]⟩
  rw [← h] at this
  exact List.mem_of_mem_filter this

theorem body_of_superseded {prev : String} {row row' new : ContextRow}
    (h : db.context? prev = some row)
    (h' : (Db.supersede (db.contexts ++ [new]) prev).find? (·.body.ctxId = prev) = some row') :
    row'.body = row.body := by
  simp only [Db.context?] at h
  rw [Db.supersede, Db.find?_update (by exact fun _ => rfl), List.find?_append, h, Option.some_or,
    Option.map_some, Option.some.injEq] at h'
  rw [← h']
  split <;> rfl

/-- What steps 3 to 6 saw, by the views `v` from statement `j` on, and what they add to the tables. -/
structure Wrote (st : SqlStore) (c : PublishCommit) (draw : PublishDraw) (firstV1 : Option String)
    (v : ℕ → Db) (j : ℕ) (s' : Local Db Part) (w : Body × Option Json)
    (att : Option KeyAttestationIndexRow) (row : Option LogLeafRow) : Prop where
  ids : st.api.assignIdentifiers draw.ctxId c.authority c.req.supersedes firstV1 c.req.contentHash =
    .ok (w.1.ctxId, w.1.lineageId)
  body : w.1 = .fromPublishRequest c.req w.1.ctxId w.1.lineageId c.authority (wholeMs draw.now)
  window : ∀ r, keylessSuccessor st.api c.req = some r →
    InWindow st.api c.req (wholeMs draw.now) r (v j) ∧
      (st.dialect = .postgres → (j + 1, .part (.context w.1.ctxId)) ∈ s'.locks)
  receipt : SqlStore.mintReceipt c w.1 = .ok w.2
  fresh : ∃ k, s'.Held k (.context w.1.ctxId) ∧ (v k).context? w.1.ctxId = none
  attestation : indexRowFor st.api w.1 c.authority = .ok att
  token : ∀ a ∈ att, a.notBeforeMs < a.notAfterMs ∧ ∃ k, s'.Held k (.token a.tokenHash) ∧
    ∀ r ∈ (v k).keyAttestations, r.tokenHash ≠ a.tokenHash
  noLeaf : st.logEnabled = false → row = none
  leaf : st.logEnabled = true → ∃ k r text, s'.Held k .log ∧ w.2 = some r ∧
    st.buildLeafRecord w.1 r = .ok text ∧
    row = some ⟨(v k).logLeaves.length, w.1.ctxId, text.1, text.2⟩

/-- The rows of steps 3 to 6. -/
def Db.write (c : PublishCommit) (w : Body × Option Json) (att : Option KeyAttestationIndexRow)
    (row : Option LogLeafRow) (db : Db) : Db :=
  { db with
    contexts := match c.req.supersedes with
      | some prev => Db.supersede (db.contexts ++ [SqlStore.newRow c w.1 w.2]) prev
      | none => db.contexts ++ [SqlStore.newRow c w.1 w.2]
    keyAttestations := db.keyAttestations ++ att.toList
    logLeaves := db.logLeaves ++ row.toList }

theorem writeRows_ok {firstV1 : Option String} {s' : Local Db Part} {w : Body × Option Json}
    (hb : st.dialect.begun 0 ⊆ s.locks)
    (h : (st.writeRows c draw firstV1).run views s = (.ok w, s')) :
    ∃ att leaf, s'.own = Db.write c w att leaf ∘ s.own ∧
      Wrote st c draw firstV1 (fun k => s.own (views k)) s.stmts s' w att leaf := by
  simp only [SqlStore.writeRows, st.api.truncMs_eq] at h
  obtain ⟨ids, hids, h⟩ := Tx.checked_bind_ok.1 h
  obtain ⟨_, s₃, h₄, h⟩ := Tx.bind_ok.1 h
  obtain ⟨receipt, hreceipt, h⟩ := Tx.checked_bind_ok.1 h
  obtain ⟨_, s₄, h₆, h⟩ := Tx.bind_ok.1 h
  obtain ⟨_, s₅, h₇, h⟩ := Tx.bind_ok.1 h
  obtain ⟨_, s₆, h₈, h⟩ := Tx.bind_ok.1 h
  obtain ⟨_, s₇, h₉, h⟩ := Tx.bind_ok.1 h
  obtain ⟨rfl, rfl⟩ := Tx.pure_ok.1 h
  -- the locks of `BEGIN` are held at every step, and a step's own locks to the end
  have g₃ := Tx.grows_of_run h₄
  have g₄ := g₃.trans (Tx.grows_of_run h₆)
  have g₅ := g₄.trans (Tx.grows_of_run h₇)
  have e₆ := Tx.grows_of_run h₉
  have e₅ := (Tx.grows_of_run h₈).trans e₆
  have e₄ := (Tx.grows_of_run h₇).trans e₅
  obtain ⟨hown₃, hwindow⟩ := windowGate_ok h₄
  obtain ⟨hfresh, hheld, hown₄, hlock⟩ := insertBody_ok (fun _ he => g₃.locks (hb he)) h₆
  obtain ⟨att, hatt, hown₅, htoken⟩ := indexAttestation_ok (fun _ he => g₄.locks (hb he)) h₇
  obtain ⟨leaf, hown₆, hnoLeaf, hleaf⟩ := appendLeaf_ok (fun _ he => g₅.locks (hb he)) h₈
  have hown₇ := markSuperseded_ok h₉
  rw [hown₃] at hown₄ hfresh
  rw [hown₄] at hown₅ htoken
  rw [hown₅] at hown₆ hleaf
  rw [hown₆] at hown₇
  refine ⟨att, leaf, hown₇, hids, rfl, fun r hr => ⟨(hwindow r hr).2, fun hd => ?_⟩, hreceipt,
    ⟨_, hheld.mono e₄ le_rfl, hfresh⟩, hatt, fun row hrow => ?_, hnoLeaf, fun hlog => ?_⟩
  · rw [← (hwindow r hr).1]
    exact e₄.locks (hlock hd)
  · obtain ⟨hwin, k, hk, hfree⟩ := htoken row hrow
    exact ⟨hwin, k, hk.mono e₅ le_rfl, hfree⟩
  · obtain ⟨k, r, text, hk, hr, htext, hl⟩ := hleaf hlog
    exact ⟨k, r, text, hk.mono e₆ le_rfl, hr, htext, hl⟩

theorem publishTx_ok {resp : PublishResponse}
    (h : (st.publishTx c draw).run views {} = (.ok resp, s))
    (hst : ∀ k r, s.Held k r → Db.part r (views k) = Db.part r db) :
    ∃ p : Publication, s.own = Db.publish p ∧ resp = p.response ∧
      Accepted st c draw (fun d => ∃ k, d = views k) db p := by
  simp only [SqlStore.publishTx, st.api.truncMs_eq] at h
  obtain ⟨_, s₀, h₀, h⟩ := Tx.bind_ok.1 h
  obtain ⟨_, s₁, h₁, h⟩ := Tx.bind_ok.1 h
  obtain ⟨firstV1, s₂, h₂, h⟩ := Tx.bind_ok.1 h
  obtain ⟨⟨body, receipt⟩, s₃, h₃, h⟩ := Tx.bind_ok.1 h
  obtain ⟨_, s₄, h₄, h⟩ := Tx.bind_ok.1 h
  obtain ⟨_, s₅, h₅, h⟩ := Tx.bind_ok.1 h
  obtain ⟨rfl, rfl⟩ := Tx.pure_ok.1 h
  obtain ⟨-, hs₀⟩ := Tx.query_ok.1 h₀
  have hb₀ : st.dialect.begun 0 ⊆ s₀.locks := by
    rw [← hs₀]; exact List.subset_append_right _ _
  have g₁ := Tx.grows_of_run h₁
  have g₂ := g₁.trans (Tx.grows_of_run h₂)
  have g₃ := g₂.trans (Tx.grows_of_run h₃)
  have g₄ := g₃.trans (Tx.grows_of_run h₄)
  have e₄ := Tx.grows_of_run h₅
  have e₃ := (Tx.grows_of_run h₄).trans e₄
  have e₂' := (Tx.grows_of_run h₃).trans (Tx.grows_of_run h₄)
  have e₂ := e₂'.trans e₄
  have e₁ := Tx.grows_of_run h₂
  have hown₀ : s₀.own = id := by rw [← hs₀]; rfl
  obtain ⟨evicts, hevicts, hown₁⟩ := idempotencyLookup_ok h₁
  obtain ⟨hown₂, hnone, htarget⟩ := supersession_ok (fun _ he => g₁.locks (hb₀ he)) h₂
  obtain ⟨att, leaf, hown₃, hwrote⟩ := writeRows_ok (fun _ he => g₂.locks (hb₀ he)) h₃
  obtain ⟨hown₄, hclaim⟩ := claimKey_ok (fun _ he => g₃.locks (hb₀ he)) h₄
  obtain ⟨pred, appends, happ, hown₅, hpred⟩ := appendPublish_ok (fun _ he => g₄.locks (hb₀ he)) h₅
  rw [hown₀, Function.comp_id] at hown₁
  rw [hown₁] at hown₂ htarget
  rw [hown₂] at hown₃ hwrote
  rw [hown₃] at hown₄ hclaim
  rw [hown₄] at hown₅ hpred
  have hcreated : body.createdAt = wholeMs draw.now :=
    (congrArg Body.createdAt hwrote.body).trans (wholeMs_wholeMs _)
  have hversion : body.version = c.req.version := congrArg Body.version hwrote.body
  have hsupersedes : body.supersedes = c.req.supersedes := congrArg Body.supersedes hwrote.body
  -- the target's row is the same at its lock, at the reads under it, and at the commit
  have hrow : ∀ prev, c.req.supersedes = some prev → ∃ row,
      SawTarget st c views s₁.stmts s₂ prev firstV1 row ∧ db.context? prev = some row ∧
      ∀ k, s₁.stmts ≤ k → (views k).context? prev = some row := by
    intro prev hprev
    obtain ⟨row, hsaw⟩ := htarget prev hprev
    have hdb : db.context? prev = some row :=
      (context?_of_part (hst _ _ (hsaw.held.mono e₂ le_rfl))).symm.trans hsaw.found
    exact ⟨row, ⟨hsaw.found, hsaw.held, hsaw.target, hsaw.signer, hsaw.first⟩, hdb,
      fun k hk => (context?_of_part (hst _ _ (hsaw.held.mono e₂ hk))).trans hdb⟩
  refine ⟨⟨SqlStore.newRow c body receipt, att, leaf,
    c.idempotency.map fun i => st.record c draw i
      ⟨body.ctxId, body.lineageId, c.req.version, wholeMs draw.now, .active, receipt⟩,
    evicts, appends.mapIdx fun i a => (a, draw.feedRow i)⟩, ?_, ?_, ?_⟩
  · rw [hown₅]
    funext d
    simp [Db.publish, Db.write, SqlStore.newRow, hsupersedes]
  · simp [Publication.response, SqlStore.newRow, hcreated, hversion]
  · exact
    { body := hwrote.body
      row := rfl
      receipt := hwrote.receipt
      fresh := by
        obtain ⟨k, hk, hfresh⟩ := hwrote.fresh
        exact (context?_of_part (hst _ _ (hk.mono e₃ le_rfl))).symm.trans hfresh
      ids := by
        refine ⟨firstV1, hwrote.ids, hnone, fun prev hprev => ?_⟩
        obtain ⟨row, hsaw, hdb, hviews⟩ := hrow prev hprev
        obtain ⟨k, hk, hfirst⟩ := hsaw.first
        refine ⟨row, hdb, hsaw.target, fun r hr => ?_, views k, ⟨k, rfl⟩, hviews k hk, hfirst⟩
        obtain ⟨j, j', hmay⟩ := hsaw.signer r hr
        exact ⟨_, _, ⟨j, rfl⟩, ⟨j', rfl⟩, hmay⟩
      window := fun r hr => ⟨_, ⟨_, rfl⟩, (hwrote.window r hr).1⟩
      attestation := hwrote.attestation
      token := fun a ha => by
        obtain ⟨hwin, k, hk, hfree⟩ := hwrote.token a ha
        refine ⟨hwin, fun r hr ht => ?_⟩
        exact hfree r (mem_of_token_part (hst _ _ (hk.mono e₃ le_rfl)) hr ht) ht
      noLeaf := hwrote.noLeaf
      leaf := fun hlog => by
        obtain ⟨k, r, text, hk, hr, htext, hleaf⟩ := hwrote.leaf hlog
        refine ⟨r, text, hr, htext, ?_⟩
        have hlen : (views k).logLeaves = db.logLeaves := hst k .log (hk.mono e₃ le_rfl)
        rw [← hlen]
        exact hleaf
      evicts := hevicts
      keyFree := fun i hi r hr ha hkey => by
        obtain ⟨k, hk, hfree⟩ := hclaim i hi
        have hmem := mem_of_idempotency_part (hst _ _ (hk.mono e₄ le_rfl)) hr ha hkey
        by_contra hnot
        have hkept : r ∈ (views k).idempotency.filter fun r => !evicts r :=
          List.mem_filter.2 ⟨hmem, by simpa using hnot⟩
        exact absurd (List.find?_eq_none.1 hfree r hkept) (by simp [ha, hkey])
      record := by
        simp [Publication.response, SqlStore.newRow, hcreated, hversion]
      feed := by
        refine ⟨pred, appends, happ, rfl, fun hr => ⟨(hpred hr).1, fun prev hprev => ?_⟩⟩
        obtain ⟨row', hrow', rfl⟩ := (hpred hr).2 prev hprev
        obtain ⟨row, -, hdb, hviews⟩ := hrow prev hprev
        refine ⟨row, hdb, ?_⟩
        simp only [Function.comp_apply, Db.write, hprev] at hrow'
        rw [body_of_superseded (hviews s₄.stmts (e₁.trans e₂').stmts) hrow'] }

end Tx

end AcdpRegistry
