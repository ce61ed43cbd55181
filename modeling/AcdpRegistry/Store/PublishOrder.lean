/-
  The order in which a publish is refused (`acdp-registry-store/src/key_attestations.rs`).

  `documented` is that order, over the reads a backend supplies: the pre-checks,
  the attestation of a keyless successor and its supersession rule, the
  predecessor's admission, the window, the token.  It has no state: what ends a
  publish without a commit is its answer.

  The reads of a SQL backend are its tables, and a database that the backend's own
  calls have come to is sound: records expire at instants it can store, and the
  leaves of its log are numbered.
-/
import AcdpRegistry.Store.LifecycleSpec

namespace AcdpRegistry

open Lib

/-! ## Decisions -/

/-- A publish so far: it goes on with a value, or it has its answer. -/
abbrev Decision := Except (Except AcdpError PublishResponse)

namespace Decision

variable {α : Type}

/-- A check whose error refuses the publish. -/
def check (x : Except AcdpError α) : Decision α := x.mapError .error

def refuseIf (p : Prop) [Decidable p] (e : AcdpError) : Decision Unit :=
  check (if p then .error e else .ok ())

theorem check_ok (a : α) : check (.ok a) = pure a := rfl

theorem check_pure (a : α) : check (pure a) = pure a := rfl

theorem check_bind {β : Type} (x : Except AcdpError α) (f : α → Except AcdpError β) :
    check (x >>= f) = check x >>= fun a => check (f a) := by
  cases x <;> rfl

/-- What `commit_publish` answers. -/
def outcome : Decision PublishResponse → Except AcdpError PublishCommitOutcome
  | .ok response => .ok (.inserted response)
  | .error a => a.map .idempotentReplay

end Decision

/-! ## What a backend supplies -/

/-- What the checks of a target read of its row. -/
structure TargetRow where
  body : Body
  tenantId : String
  superseded : Bool

/-- The reads of a store's own checks. -/
structure StoreView where
  /-- The content hash and the response of an agent's live record. -/
  live : String → String → Option (String × PublishResponse)
  target : String → Option TargetRow
  /-- The first version of a lineage. -/
  first : String → Option String

/-- The reads of the keyless checks. -/
@[ext] structure KeylessView where
  attestation : String → Option SuccessorAttestation
  /-- The token has minted an attestation. -/
  used : String → Bool

/-! ## The documented order -/

/-- The target's tenant, producer, lineage and version fit the request. -/
def TargetRow.fits (c : PublishCommit) (prev : String) (row : TargetRow) : Decision Unit := do
  Decision.refuseIf (∃ t ∈ c.tenant, row.tenantId ≠ t) (targetNotFound prev)
  Decision.refuseIf (¬(row.body.agentId = c.req.agentId ∨ c.req.agentId ∈ row.body.contributors))
    (targetNotFound prev)
  let declared := c.req.lineageId.getD ""
  let lineage := row.body.lineageId
  Decision.refuseIf (∃ l ∈ c.req.lineageId, l ≠ lineage)
    (.supersededTarget .lineageMismatch
      s!"declared lineage_id '{declared}' ≠ predecessor's '{lineage}'")
  let version := c.req.version
  let expected := row.body.version + 1
  Decision.refuseIf (version ≠ expected)
    (.supersededTarget .versionMismatch
      s!"version {version} ≠ predecessor.version + 1 ({expected})")

namespace StoreView

variable (v : StoreView) (api : AcdpApi) (c : PublishCommit) (draw : PublishDraw)

def replay : Decision Unit :=
  match c.idempotency with
  | none => .ok ()
  | some i =>
    match v.live c.req.agentId i.key with
    | none => .ok ()
    | some r => .error (IdempotencyRecord.answer ⟨c.req.agentId, i.key, r.1, r.2, 0⟩ c.req)

/-- The existence, ownership, coherence and AlreadySuperseded checks of the target. -/
def supersedes : Decision (Option TargetRow) :=
  match c.req.supersedes with
  | none => .ok none
  | some prev =>
    match v.target prev with
    | none => .error (.error (targetNotFound prev))
    | some row => do
      row.fits c prev
      Decision.refuseIf (row.superseded = true)
        (.supersededTarget .alreadySuperseded
          s!"supersedes target '{prev}' has already been superseded")
      return some row

def assign (target : Option TargetRow) : Except AcdpError Body := do
  let ids ← api.assignIdentifiers draw.ctxId c.authority c.req.supersedes
    (target.bind fun row => v.first row.body.lineageId) c.req.contentHash
  return Body.fromPublishRequest c.req ids.1 ids.2 c.authority (api.truncMs draw.now)

theorem assign_ok {v : StoreView} {api : AcdpApi} {c : PublishCommit} {draw : PublishDraw}
    {target : Option TargetRow} {body : Body} (h : v.assign api c draw target = .ok body) :
    ∃ ctxId lineageId, body =
      Body.fromPublishRequest c.req ctxId lineageId c.authority (wholeMs draw.now) := by
  obtain ⟨ids, -, h⟩ := except_bind_ok.1 h
  cases h
  exact ⟨ids.1, ids.2, by rw [api.truncMs_eq]⟩

theorem assign_createdAt {v : StoreView} {api : AcdpApi} {c : PublishCommit} {draw : PublishDraw}
    {target : Option TargetRow} {body : Body} (h : v.assign api c draw target = .ok body) :
    body.createdAt = api.truncMs draw.now := by
  obtain ⟨ctxId, lineageId, rfl⟩ := assign_ok h
  simp [Body.fromPublishRequest, api.truncMs_eq, wholeMs]

end StoreView

namespace KeylessView

variable (k : KeylessView) (api : AcdpApi) (c : PublishCommit)

/-- A keyless successor's attestation exists, binds the request and is not retracted, and its signer
    may supersede. -/
def succession (req : PublishRequest) (pred : Body) : Except AcdpError Unit :=
  match keylessSuccessor api req with
  | none => .ok ()
  | some r => do
    let succ ← admitSuccessor api req r.ctxId (k.attestation r.ctxId)
    let att ← predecessorAttestation api pred
    let signer ← predecessorSigner att ((att.bind k.attestation).map (·.row))
    checkSupersession api signer succ

/-- The supersession rule, then the caller's admission of the predecessor. -/
def admission : Option TargetRow → Except AcdpError Unit
  | none => .ok ()
  | some row => do
    k.succession api c.req row.body
    (c.predecessorAdmission.map (· row.body)).getD (.ok ())

/-- A keyless request: its attestation, and the window. -/
def window (req : PublishRequest) (createdAt : ℤ) : Except AcdpError Unit :=
  match keylessSuccessor api req with
  | none => .ok ()
  | some r => do
    let succ ← admitSuccessor api req r.ctxId (k.attestation r.ctxId)
    checkWindow api succ createdAt

/-- The token of a mint is refused if it was used before. -/
def refuseToken (row : Option KeyAttestationIndexRow) : Except AcdpError Unit :=
  match row with
  | none => .ok ()
  | some row => if k.used row.tokenHash then .error (tokenReplayed row.tokenHash) else .ok ()

def token (body : Body) (authority : String) : Except AcdpError Unit := do
  k.refuseToken (← indexRowFor api body authority)

end KeylessView

theorem StoreView.assign_congr {draw draw' : PublishDraw} (hnow : draw.now = draw'.now)
    (hid : draw.ctxId = draw'.ctxId) (v : StoreView) (api : AcdpApi) (c : PublishCommit) :
    v.assign api c draw = v.assign api c draw' := by
  funext target
  rw [StoreView.assign, StoreView.assign, hnow, hid]

def PublishCommit.response (c : PublishCommit) (body : Body) (receipt : Option Json) :
    PublishResponse :=
  ⟨body.ctxId, body.lineageId, c.req.version, body.createdAt, .active, receipt⟩

def PublishCommit.predecessor (c : PublishCommit) (target : Option TargetRow) : Option Predecessor := do
  let prev ← c.req.supersedes
  let row ← target
  return ⟨prev, row.body.agentId⟩

def PublishCommit.feedRows (api : AcdpApi) (c : PublishCommit) (target : Option TargetRow) (body : Body)
    (receipt : Option Json) : Except AcdpError Unit := do
  let _ ← feedAppendsForPublish api body receipt (c.predecessor target)

/-- **The documented order of refusals.** -/
def documented (api : AcdpApi) (v : StoreView) (k : KeylessView) (c : PublishCommit)
    (draw : PublishDraw) : Decision PublishResponse := do
  -- 1. the store's own pre-checks
  v.replay c
  let target ← v.supersedes c
  -- 2., 3. and 4. of a publish with a predecessor
  Decision.check (k.admission api c target)
  let body ← Decision.check (v.assign api c draw target)
  -- 2. and 5.
  Decision.check (k.window api c.req body.createdAt)
  -- 6.
  Decision.check (k.token api body c.authority)
  let receipt ← Decision.check (SqlStore.mintReceipt c body)
  Decision.check (c.feedRows api target body receipt)
  return c.response body receipt

/-! ## The reads of a SQL backend -/

def ContextRow.target (row : ContextRow) : TargetRow :=
  ⟨row.body, row.tenantId, row.status = .superseded⟩

namespace Db

variable (db : Db)

def live? (now : ℤ) (agentId key : String) : Option IdempotencyRecord :=
  db.idempotency.find? fun r => (r.agentId = agentId ∧ r.key = key) ∧ now < r.expiresAt

def storeView (now : ℤ) : StoreView where
  live agentId key := (db.live? now agentId key).map fun r => (r.contentHash, r.response)
  target ctxId := (db.context? ctxId).map (·.target)
  first lineageId := (db.firstOfLineage lineageId).map (·.body.ctxId)

def keylessView : KeylessView where
  attestation := db.attestation?
  used token := db.keyAttestations.any (·.tokenHash = token)

/-! ## The tables of a backend -/

/-- Records expire at instants the backend can store, and the leaves of the log are numbered and have
    their contexts. -/
structure Sound (d : Dialect) : Prop where
  expiry : ∀ r ∈ db.idempotency, d.stamp r.expiresAt = r.expiresAt
  numbered : ∀ l ∈ db.logLeaves, l.leafIndex < db.logLeaves.length
  leaves : ∀ l ∈ db.logLeaves, l.ctxId ∈ db.contexts.map (·.body.ctxId)

/-- The database of a backend: some run of calls to its stores has come to it. -/
def Reached (d : Dialect) : Prop :=
  ∃ (ι : Type) (call : ι → Call) (S : StoreSchedule call) (n : ℕ),
    S.db 0 = {} ∧ (∀ i, (call i).store.dialect = d) ∧ S.db n = db

end Db

theorem Db.Sound.publish {st : SqlStore} {c : PublishCommit} {draw : PublishDraw} {seen : Db → Prop}
    {db : Db} {p : Publication} (h : db.Sound st.dialect) (hacc : Accepted st c draw seen db p) :
    (db.publish p).Sound st.dialect := by
  have hleaf : ∀ l ∈ p.leaf, l.leafIndex = db.logLeaves.length ∧ l.ctxId = p.row.body.ctxId := by
    intro l hl
    cases hlog : st.logEnabled with
    | false =>
      rw [hacc.noLeaf hlog] at hl
      cases hl
    | true =>
      obtain ⟨r, text, -, -, hnew⟩ := hacc.leaf hlog
      rw [hnew] at hl
      cases hl
      exact ⟨rfl, rfl⟩
  refine ⟨fun r hr => ?_, fun l hl => ?_, fun l hl => ?_⟩
  · rcases List.mem_append.1 hr with hold | hnew
    · exact h.expiry r (List.mem_of_mem_filter hold)
    · rw [hacc.record] at hnew
      obtain ⟨i, -, rfl⟩ := Option.map_eq_some_iff.1 (Option.mem_toList.1 hnew)
      exact st.dialect.stamp_stamp _
  · show l.leafIndex < (db.logLeaves ++ p.leaf.toList).length
    rcases List.mem_append.1 hl with hold | hnew
    · have := h.numbered l hold
      rw [List.length_append]
      omega
    · have hp := Option.mem_toList.1 hnew
      rw [(hleaf l hp).1, List.length_append, show p.leaf = some l from hp]
      simp
  · rw [Db.ctxIds_publish]
    rcases List.mem_append.1 hl with hold | hnew
    · exact List.mem_append_left _ (h.leaves l hold)
    · rw [(hleaf l (Option.mem_toList.1 hnew)).2]
      simp

theorem CommitStep.sound {seen : Db → Prop} {call : Call} {db db' : Db} {a : CallDone}
    (h : CommitStep seen call db db' a) (hdb : db.Sound call.store.dialect) :
    db'.Sound call.store.dialect := by
  cases h with
  | publish hacc => exact Db.Sound.publish hdb hacc
  | @event _ _ _ _ a =>
    refine ⟨hdb.expiry, hdb.numbered, ?_⟩
    rw [Db.ctxIds_applyEvent]
    exact hdb.leaves
  | evict => exact ⟨fun r hr => hdb.expiry r (List.mem_of_mem_filter hr), hdb.numbered, hdb.leaves⟩

/-- **The tables of every backend are sound.** -/
theorem Db.Reached.sound {db : Db} {d : Dialect} (h : db.Reached d) : db.Sound d := by
  obtain ⟨ι, call, S, n, h0, hd, rfl⟩ := h
  refine S.keeps (I := fun db => db.Sound d) ?_ (fun n i hn hI => ?_) n
  · rw [h0]
    exact ⟨fun _ h => absurd h List.not_mem_nil, fun _ h => absurd h List.not_mem_nil,
      fun _ h => absurd h List.not_mem_nil⟩
  · obtain ⟨a, -, hs⟩ := commit_step S hn
    have hsound := hI n le_rfl
    rw [← hd i] at hsound ⊢
    exact hs.sound hsound

end AcdpRegistry
