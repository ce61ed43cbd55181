/-
  `commit_publish` of the memory backend (`acdp-registry-server/src/memory_ext.rs`).

  The wrapper holds one mutex from its first read to its last write.  What the
  keyless checks need is read before the inner store's commit and handed to it in
  the closures it runs; the index row and the feed rows are derived after that
  commit, which cannot be undone.

  The inner store is the protocol crate's `InMemoryStore`: `InMemoryStore` is the
  part of it that the wrapper calls and `Lawful` what it promises.
-/
import AcdpRegistry.Server.MemoryFeed
import AcdpRegistry.Store.CommitLifecycle
import AcdpRegistry.Lib.Handler

namespace AcdpRegistry

open Lib

/-! ## The inner store -/

/-- `acdp::registry::InMemoryStore`, as far as a publish uses it. -/
structure InMemoryStore where
  State : Type
  get : State → String → Option FullContext
  commitPublish : PublishCommit → PublishDraw → State → Except AcdpError PublishCommitOutcome × State

/-- What a context of the store has for its body. -/
def InMemoryStore.body? (inner : InMemoryStore) (s : inner.State) (ctxId : String) : Option Body :=
  (inner.get s ctxId).map (·.body)

/-- The inner store commits atomically and mints before it commits. -/
structure InMemoryStore.Lawful (inner : InMemoryStore) : Prop where
  /-- A refused commit leaves every context as it was. -/
  refused : ∀ c draw s e s', inner.commitPublish c draw s = (.error e, s') →
    ∀ id, inner.get s' id = inner.get s id
  /-- An inserted context is new and has the request's body, and the minter has seen that body. -/
  inserted : ∀ c draw s resp s', inner.commitPublish c draw s = (.ok (.inserted resp), s') →
    inner.get s resp.ctxId = none ∧ ∃ lineageId createdAt,
      inner.body? s' resp.ctxId =
        some (Body.fromPublishRequest c.req resp.ctxId lineageId c.authority createdAt) ∧
      SqlStore.mintReceipt c (Body.fromPublishRequest c.req resp.ctxId lineageId c.authority createdAt) =
        .ok resp.registryReceipt

/-! ## The wrapper -/

/-- `State`, with the inner store's contexts; a publish does not touch its other members. -/
structure MemoryState (inner : InMemoryStore) where
  contexts : inner.State
  feed : MemoryFeed := {}
  /-- The index rows, by the context of their attestation. -/
  keyAttestations : String → Option KeyAttestationIndexRow := fun _ => none
  /-- Every token hash that minted an attestation. -/
  attestationTokens : Finset String := ∅
  /-- A thread panicked while it held the mutex. -/
  poisoned : Bool := false

/-- The inner store's draws, and the clocks of the placeholder body and of the feed rows. -/
structure MemoryDraw where
  inner : PublishDraw
  now : ℤ
  feedMs : ℤ

structure MemoryStore where
  inner : InMemoryStore
  api : AcdpApi

/-- `index_row_for_request`, with a placeholder for what the registry assigns. -/
def indexRowForRequest (api : AcdpApi) (req : PublishRequest) (authority : String) (now : ℤ) :
    Except AcdpError (Option KeyAttestationIndexRow) :=
  if !isMintedAttestation api req.contextType req.agentId authority then .ok none
  else
    let placeholder := s!"acdp://{authority}/00000000-0000-4000-8000-000000000000"
    indexRowFor api (Body.fromPublishRequest req placeholder placeholder authority now) authority

structure Snapshots where
  mint : Except AcdpError (Option KeyAttestationIndexRow)
  usedToken : Option String
  successor : Option String
  successorFound : Option SuccessorAttestation
  predecessorRow : Option KeyAttestationIndexRow

/-- The request is a mint, or would be one if its attestation were well formed. -/
def Snapshots.isMint (snap : Snapshots) : Bool :=
  match snap.mint with
  | .ok none => false
  | _ => true

namespace MemoryStore

variable (m : MemoryStore) (c : PublishCommit) (draw : MemoryDraw)

abbrev PublishHandler := Handler AcdpError (MemoryState m.inner)

def successorSnapshot (st : MemoryState m.inner) (att : String) : Option SuccessorAttestation := do
  let row ← st.keyAttestations att
  let withdrawn := (m.inner.get st.contexts att).any (·.status = .retracted)
  return ⟨row, withdrawn⟩

def snapshots (st : MemoryState m.inner) : Snapshots :=
  let mint := indexRowForRequest m.api c.req c.authority draw.now
  let successor := (keylessSuccessor m.api c.req).map (·.ctxId)
  { mint
    usedToken :=
      match mint with
      | .ok (some row) => if row.tokenHash ∈ st.attestationTokens then some row.tokenHash else none
      | _ => none
    successor
    successorFound := successor.bind (m.successorSnapshot st)
    predecessorRow :=
      match successor, c.req.supersedes with
      | some _, some prev => do
        let p ← m.inner.get st.contexts prev
        let att ← (predecessorAttestation m.api p.body).toOption.join
        st.keyAttestations att
      | _, _ => none }

variable (snap : Snapshots)

/-- `keyless_admission`: the supersession rule of a keyless successor, then the caller's admission. -/
def keylessAdmission (pred : Body) : Except AcdpError Unit := do
  match snap.successor with
  | some att =>
    let found ← admitSuccessor m.api c.req att snap.successorFound
    let predAtt ← predecessorAttestation m.api pred
    let row := snap.predecessorRow.filter fun r => predAtt.any (· = r.ctxId)
    let signer ← predecessorSigner predAtt row
    checkSupersession m.api signer found
  | none => pure ()
  (c.predecessorAdmission.map (· pred)).getD (.ok ())

/-- `keyless_minter`: the window and the token of the assigned body, then the real mint. -/
def keylessMinter (mint : Body → Except AcdpError Json) (body : Body) : Except AcdpError Json := do
  match snap.successor with
  | some att =>
    let found ← admitSuccessor m.api c.req att snap.successorFound
    checkWindow m.api found body.createdAt
  | none => pure ()
  let row ← indexRowFor m.api body c.authority
  if row.isSome then
    match snap.usedToken with
    | some token => throw (tokenReplayed token)
    | none => pure ()
  mint body

/-- What is decided before the commit if no minter will see the body. -/
def decideWithoutMinter : Except AcdpError Unit := do
  if snap.successor.isSome then
    throw (.registryInternal "a keyless publish needs a receipt minter on the memory backend")
  let _ ← snap.mint
  match snap.usedToken with
  | some token => throw (tokenReplayed token)
  | none => pure ()

def innerCommit : PublishCommit :=
  { c with
    receiptMinter :=
      if snap.successor.isSome || snap.isMint then c.receiptMinter.map (m.keylessMinter c snap)
      else c.receiptMinter
    predecessorAdmission :=
      if snap.successor.isSome && c.req.supersedes.isSome then some (m.keylessAdmission c snap)
      else c.predecessorAdmission }

def predecessor (contexts : m.inner.State) : Option Predecessor := do
  let prev ← c.req.supersedes
  let ctx ← m.inner.get contexts prev
  return ⟨prev, ctx.body.agentId⟩

def index (row : Option KeyAttestationIndexRow) (st : MemoryState m.inner) : MemoryState m.inner :=
  match row with
  | none => st
  | some row =>
    { st with
      attestationTokens := insert row.tokenHash st.attestationTokens
      keyAttestations := Function.update st.keyAttestations row.ctxId (some row) }

def pushRows (body : Body) (receipt : Option Json) : m.PublishHandler Unit := do
  let st ← get
  let rows ← Handler.lift (feedAppendsForPublish m.api body receipt (m.predecessor c st.contexts))
  modify fun st => { st with feed := st.feed.push draw.feedMs rows }

def record (resp : PublishResponse) : m.PublishHandler Unit := do
  if resp.registryReceipt.isSome || snap.isMint then
    let st ← get
    let ctx ← Handler.lift ((m.inner.get st.contexts resp.ctxId).elim
      (.error (.registryInternal "published context vanished")) .ok)
    let row ← Handler.lift (indexRowFor m.api ctx.body c.authority)
    modify (m.index row)
    if resp.registryReceipt.isSome then m.pushRows c draw ctx.body resp.registryReceipt

def commitInner : m.PublishHandler PublishCommitOutcome := fun st =>
  let result := m.inner.commitPublish (m.innerCommit c snap) draw.inner st.contexts
  (result.1, { st with contexts := result.2 })

/-- What follows the inner commit: only an inserted publish is recorded. -/
def recordOutcome : PublishCommitOutcome → m.PublishHandler Unit
  | .inserted resp => m.record c draw snap resp
  | .idempotentReplay _ => pure ()

/-- The lock, and what is decided before the inner commit. -/
def precheck (poisoned : Bool) : Except AcdpError Unit := do
  if poisoned then throw (.registryInternal "event receipt map lock poisoned")
  if c.receiptMinter.isNone then decideWithoutMinter snap

def commitPublish : m.PublishHandler PublishCommitOutcome := do
  let st ← get
  let snap := m.snapshots c draw st
  Handler.lift (precheck c snap st.poisoned)
  let outcome ← m.commitInner c draw snap
  m.recordOutcome c draw snap outcome
  return outcome

/-! ## All or nothing -/

/-- The contexts, the feed, the index and the used tokens are what they were. -/
structure Unchanged {inner : InMemoryStore} (st st' : MemoryState inner) : Prop where
  contexts : ∀ id, inner.get st'.contexts id = inner.get st.contexts id
  feed : st'.feed = st.feed
  keyAttestations : st'.keyAttestations = st.keyAttestations
  attestationTokens : st'.attestationTokens = st.attestationTokens

theorem Unchanged.refl {inner : InMemoryStore} (st : MemoryState inner) : Unchanged st st :=
  ⟨fun _ => rfl, rfl, rfl, rfl⟩

/-- A call that fails changes nothing, and one that inserts with a receipt appends the feed rows of
    the stored body. -/
structure AllOrNothing (st : MemoryState m.inner) : Prop where
  nothing : ∀ e st', (m.commitPublish c draw).exec st = (.error e, st') → Unchanged st st'
  all : ∀ resp receipt st', (m.commitPublish c draw).exec st = (.ok (.inserted resp), st') →
    resp.registryReceipt = some receipt → ∃ body rows,
      m.inner.body? st'.contexts resp.ctxId = some body ∧
      feedAppendsForPublish m.api body (some receipt) (m.predecessor c st'.contexts) = .ok rows ∧
      st'.feed = st.feed.push draw.feedMs rows

/-- The call gets to the inner store, which inserts and leaves `contexts`. -/
def Inserts (st : MemoryState m.inner) (resp : PublishResponse) (contexts : m.inner.State) : Prop :=
  precheck c (m.snapshots c draw st) st.poisoned = .ok () ∧
    m.inner.commitPublish (m.innerCommit c (m.snapshots c draw st)) draw.inner st.contexts =
      (.ok (.inserted resp), contexts)

/-- A key revocation that a receipt is minted for has no `metadata.revoked_key_controller`, or null, or
    a DID. -/
def ControllerReads (api : AcdpApi) (c : PublishCommit) : Prop :=
  c.receiptMinter.isSome = true → c.req.contextType = .keyRevocation →
    match c.req.metadata.bind (·.get? "revoked_key_controller") with
    | none | some .null => True
    | some (.string s) => ∃ did, api.changes.parseAgentDid s = .ok did
    | some _ => False

/-- What the protocol crate promises of minted receipts: ids that were accepted once parse to themselves,
    and a receipt is taken by both kinds of row, with the lineage of its body. -/
structure Serves : Prop where
  agent : m.api.changes.parseAgentDid c.req.agentId = .ok c.req.agentId
  controller : ∀ s did, m.api.changes.parseAgentDid s = .ok did → m.api.changes.parseAgentDid did = .ok did
  stored : ∀ contexts id ctx, m.inner.get contexts id = some ctx →
    (∃ ctxId, m.api.changes.parseCtxId id = .ok ctxId) ∧
      m.api.changes.parseAgentDid ctx.body.agentId = .ok ctx.body.agentId
  receipt : ∀ body receipt, SqlStore.mintReceipt c body = .ok (some receipt) →
    ∃ typed, m.api.changes.registryReceipt receipt = .ok typed ∧
      (∀ ctxId agent, ∃ change, m.api.changes.superseded 1 ctxId agent typed = .ok change ∧
        change.lineageId = body.lineageId ∧ change.agentId = agent) ∧
      ∀ agent, ∃ change, m.api.changes.keyRevocation 1 agent typed = .ok change ∧
        change.lineageId = body.lineageId ∧ change.agentId = agent

section Steps

variable {m c draw snap} {st : MemoryState m.inner} {resp : PublishResponse}

theorem index_contexts (row : Option KeyAttestationIndexRow) :
    (m.index row st).contexts = st.contexts := by
  cases row <;> rfl

theorem index_feed (row : Option KeyAttestationIndexRow) : (m.index row st).feed = st.feed := by
  cases row <;> rfl

theorem pushRows_exec (body : Body) (receipt : Option Json) :
    (m.pushRows c draw body receipt).exec st =
      match feedAppendsForPublish m.api body receipt (m.predecessor c st.contexts) with
      | .ok rows => (.ok (), { st with feed := st.feed.push draw.feedMs rows })
      | .error e => (.error e, st) := by
  simp only [pushRows, Handler.exec_bind, Handler.exec_get, Handler.exec_lift]
  cases feedAppendsForPublish m.api body receipt (m.predecessor c st.contexts) <;> rfl

theorem record_exec {ctx : FullContext} {row : Option KeyAttestationIndexRow}
    (hget : m.inner.get st.contexts resp.ctxId = some ctx)
    (hrow : indexRowFor m.api ctx.body c.authority = .ok row) :
    (m.record c draw snap resp).exec st =
      if resp.registryReceipt.isSome || snap.isMint then
        if resp.registryReceipt.isSome then
          (m.pushRows c draw ctx.body resp.registryReceipt).exec (m.index row st)
        else (.ok (), m.index row st)
      else (.ok (), st) := by
  unfold record
  split
  · simp only [Handler.exec_bind, Handler.exec_get, Handler.exec_lift, hget, Option.elim_some, hrow,
      Handler.exec_modify]
    split <;> rfl
  · rfl

variable {contexts : m.inner.State}

theorem commitInner_exec {outcome : Except AcdpError PublishCommitOutcome}
    (h : m.inner.commitPublish (m.innerCommit c snap) draw.inner st.contexts = (outcome, contexts)) :
    (m.commitInner c draw snap).exec st = (outcome, { st with contexts }) := by
  show (_, _) = _
  rw [h]

theorem commitPublish_inserts (h : m.Inserts c draw st resp contexts) :
    (m.commitPublish c draw).exec st =
      match (m.record c draw (m.snapshots c draw st) resp).exec { st with contexts } with
      | (.ok (), st') => (.ok (.inserted resp), st')
      | (.error e, st') => (.error e, st') := by
  obtain ⟨hpre, hinner⟩ := h
  simp only [commitPublish, Handler.exec_bind, Handler.exec_get, Handler.exec_lift, hpre,
    commitInner_exec hinner, recordOutcome]
  rcases (m.record c draw (m.snapshots c draw st) resp).exec { st with contexts } with ⟨_ | _, st'⟩ <;> rfl

/-- What a call can do: it is refused, before the inner store or by it, it replays, or it inserts. -/
theorem commitPublish_cases {outcome : Except AcdpError PublishCommitOutcome} {st' : MemoryState m.inner}
    (h : (m.commitPublish c draw).exec st = (outcome, st')) :
    (st' = st ∧ ∃ e, outcome = .error e) ∨
    (∃ e contexts, m.inner.commitPublish (m.innerCommit c (m.snapshots c draw st)) draw.inner
        st.contexts = (.error e, contexts) ∧ outcome = .error e ∧ st' = { st with contexts }) ∨
    (∃ r, outcome = .ok (.idempotentReplay r)) ∨
    ∃ resp contexts, m.Inserts c draw st resp contexts := by
  cases hpre : precheck c (m.snapshots c draw st) st.poisoned with
  | error e =>
    left
    simp only [commitPublish, Handler.exec_bind, Handler.exec_get, Handler.exec_lift, hpre] at h
    cases h
    exact ⟨rfl, e, rfl⟩
  | ok u =>
    right
    rcases hinner : m.inner.commitPublish (m.innerCommit c (m.snapshots c draw st)) draw.inner
      st.contexts with ⟨e | resp | r, contexts⟩
    · left
      simp only [commitPublish, Handler.exec_bind, Handler.exec_get, Handler.exec_lift, hpre,
        commitInner_exec hinner] at h
      cases h
      exact ⟨e, contexts, rfl, rfl, rfl⟩
    · exact .inr (.inr ⟨resp, contexts, hpre, hinner⟩)
    · right
      left
      simp only [commitPublish, Handler.exec_bind, Handler.exec_get, Handler.exec_lift, hpre,
        commitInner_exec hinner, recordOutcome, Handler.exec_pure] at h
      cases h
      exact ⟨r, rfl⟩

/-! ### The index row is known before the commit -/

/-- The attestation in a body is read from what the request gave it: what the registry assigns plays no
    part. -/
def ReadsRequest (api : AcdpApi) : Prop :=
  ∀ req authority ctxId lineageId createdAt ctxId' lineageId' createdAt',
    api.keyAttestationFromBody (Body.fromPublishRequest req ctxId lineageId authority createdAt) =
      api.keyAttestationFromBody (Body.fromPublishRequest req ctxId' lineageId' authority createdAt')

theorem indexRowFor_minted {body : Body} {authority : String}
    (h : isMintedAttestation m.api body.contextType body.agentId authority = true) :
    indexRowFor m.api body authority ≠ .ok none ∧
      ((∃ row, indexRowFor m.api body authority = .ok row) ↔
        ∃ att, m.api.keyAttestationFromBody body = .ok att) := by
  unfold indexRowFor
  rw [if_pos h]
  cases m.api.keyAttestationFromBody body with
  | ok att => simp
  | error e => simp

theorem indexRowFor_of_request (hapi : ReadsRequest m.api) {ctxId lineageId : String} {createdAt : ℤ}
    (hminted : isMintedAttestation m.api c.req.contextType c.req.agentId c.authority = true)
    {x : Option KeyAttestationIndexRow}
    (h : indexRowForRequest m.api c.req c.authority draw.now = .ok x) :
    ∃ row, indexRowFor m.api (Body.fromPublishRequest c.req ctxId lineageId c.authority createdAt)
      c.authority = .ok row := by
  rw [indexRowForRequest, if_neg (by simp [hminted])] at h
  obtain ⟨att, hatt⟩ := (indexRowFor_minted (by exact hminted)).2.1 ⟨x, h⟩
  rw [hapi _ _ _ _ _ ctxId lineageId createdAt] at hatt
  exact (indexRowFor_minted (by exact hminted)).2.2 ⟨att, hatt⟩

theorem keylessMinter_ok {mint : Body → Except AcdpError Json} {body : Body} {receipt : Json}
    (h : m.keylessMinter c snap mint body = .ok receipt) :
    (∃ row, indexRowFor m.api body c.authority = .ok row) ∧ mint body = .ok receipt := by
  unfold keylessMinter at h
  obtain ⟨row, hrow, h⟩ : ∃ row, indexRowFor m.api body c.authority = .ok row ∧
      (do if row.isSome then
            match snap.usedToken with
            | some token => throw (tokenReplayed token)
            | none => pure ()
          mint body) = Except.ok receipt := by
    cases hs : snap.successor with
    | none =>
      simp only [hs] at h
      obtain ⟨-, -, h⟩ := except_bind_ok.1 h
      exact except_bind_ok.1 h
    | some att =>
      simp only [hs] at h
      obtain ⟨found, -, h⟩ := except_bind_ok.1 h
      obtain ⟨-, -, h⟩ := except_bind_ok.1 h
      exact except_bind_ok.1 h
  refine ⟨⟨row, hrow⟩, ?_⟩
  cases row with
  | none => exact h
  | some row =>
    cases htoken : snap.usedToken with
    | none =>
      rw [htoken] at h
      exact h
    | some token =>
      rw [htoken] at h
      cases h

theorem mint_of_precheck {poisoned : Bool} (hminter : c.receiptMinter = none)
    (h : precheck c snap poisoned = .ok ()) : ∃ x, snap.mint = .ok x := by
  simp only [precheck, hminter, Option.isNone_none, if_true] at h
  cases poisoned with
  | true => cases h
  | false =>
    cases hs : snap.successor with
    | some att =>
      simp only [decideWithoutMinter, hs] at h
      cases h
    | none =>
      simp only [decideWithoutMinter, hs] at h
      obtain ⟨x, hx, -⟩ := except_bind_ok.1 h
      exact ⟨x, hx⟩

/-- **The index row of an inserted body can be derived.** -/
theorem indexRowFor_inserted (hinner : m.inner.Lawful) (hapi : ReadsRequest m.api)
    (h : m.Inserts c draw st resp contexts) :
    ∃ ctx row, m.inner.get contexts resp.ctxId = some ctx ∧
      indexRowFor m.api ctx.body c.authority = .ok row := by
  obtain ⟨hpre, hcommit⟩ := h
  obtain ⟨-, lineageId, createdAt, hbody, hmint⟩ := hinner.inserted _ _ _ _ _ hcommit
  obtain ⟨ctx, hget, hctx⟩ := Option.map_eq_some_iff.1 hbody
  set snap := m.snapshots c draw st with hsnap
  change ctx.body = Body.fromPublishRequest c.req resp.ctxId lineageId c.authority createdAt at hctx
  suffices ∃ row, indexRowFor m.api ctx.body c.authority = .ok row by
    obtain ⟨row, hrow⟩ := this
    exact ⟨ctx, row, hget, hrow⟩
  rw [hctx]
  cases hminted : isMintedAttestation m.api c.req.contextType c.req.agentId c.authority with
  | false => exact ⟨none, if_neg (Bool.eq_false_iff.1 hminted)⟩
  | true =>
    cases hminter : c.receiptMinter with
    | none =>
      obtain ⟨x, hx⟩ := mint_of_precheck hminter hpre
      exact indexRowFor_of_request hapi hminted hx
    | some mint =>
      have hisMint : snap.isMint = true := by
        have hmint : snap.mint = indexRowForRequest m.api c.req c.authority draw.now := rfl
        unfold Snapshots.isMint
        rw [hmint, indexRowForRequest, if_neg (by simp [hminted])]
        split
        · next hnone => exact absurd hnone (indexRowFor_minted (by exact hminted)).1
        · rfl
      have hwrapped : (m.innerCommit c snap).receiptMinter = some (m.keylessMinter c snap mint) := by
        simp [innerCommit, hisMint, hminter]
      rw [SqlStore.mintReceipt, hwrapped] at hmint
      obtain ⟨receipt, hreceipt, -⟩ := except_map_ok.1 hmint
      exact (keylessMinter_ok hreceipt).1

/-! ### The feed rows -/

theorem checkServable_derive {api : AcdpApi} {kind : ChangeKind} {ctxId lineageId agentId : String}
    {supersededBy : Option String} {event : Option Json} {receipt : Json} {change : Change}
    (hchange : FeedRow.toChange api.changes { FeedAppend.derive api kind ctxId lineageId agentId supersededBy
      event receipt with seq := 1, appendedAtMs := 0 } = .ok change)
    (hlineage : change.lineageId = lineageId) (hagent : change.agentId = agentId) :
    checkServable api (FeedAppend.derive api kind ctxId lineageId agentId supersededBy event receipt) =
      .ok () := by
  refine except_bind_ok.2 ⟨change, hchange, ?_⟩
  subst hlineage hagent
  simp [FeedAppend.derive, bind, Except.bind]

theorem mintReceipt_of_innerCommit {body : Body} {receipt : Json}
    (h : SqlStore.mintReceipt (m.innerCommit c snap) body = .ok (some receipt)) :
    SqlStore.mintReceipt c body = .ok (some receipt) := by
  by_cases hwraps : (snap.successor.isSome || snap.isMint) = true
  · cases hminter : c.receiptMinter with
    | none => simp [SqlStore.mintReceipt, innerCommit, hwraps, hminter] at h
    | some mint =>
      simp only [SqlStore.mintReceipt, innerCommit, hwraps, hminter, if_true, Option.map_some] at h
      obtain ⟨_, hwrapped, hreceipt⟩ := except_map_ok.1 h
      cases hreceipt
      rw [SqlStore.mintReceipt, hminter]
      exact except_map_ok.2 ⟨receipt, (keylessMinter_ok hwrapped).2, rfl⟩
  · simpa only [SqlStore.mintReceipt, innerCommit, if_neg hwraps] using h

section Rows

variable {body : Body} {ctxId lineageId : String} {createdAt : ℤ} {receipt : Json} (hserves : m.Serves c)
  (hbody : body = Body.fromPublishRequest c.req ctxId lineageId c.authority createdAt)
  (hmint : SqlStore.mintReceipt c body = .ok (some receipt))

include hmint

include hserves in
theorem Serves.superseded {prev : Predecessor} (hprev : m.predecessor c contexts = some prev) :
    checkServable m.api (supersededAppend m.api body receipt prev) = .ok () := by
  obtain ⟨id, -, hprev⟩ := Option.bind_eq_some_iff.1 hprev
  obtain ⟨ctx, hget, hprev⟩ := Option.bind_eq_some_iff.1 hprev
  cases hprev
  obtain ⟨⟨ctxId, hid⟩, hagent⟩ := hserves.stored contexts id ctx hget
  obtain ⟨typed, htyped, htakes, -⟩ := hserves.receipt body receipt hmint
  obtain ⟨change, hchange, hlineage, hagent'⟩ := htakes ctxId ctx.body.agentId
  refine checkServable_derive (except_mapError_ok.2 ?_) hlineage hagent'
  exact except_bind_ok.2 ⟨_, hagent, except_bind_ok.2 ⟨_, hid, except_bind_ok.2 ⟨_, htyped, hchange⟩⟩⟩

include hserves hbody in
theorem Serves.revocation {did : String} (hdid : revokedKeyController m.api body = .ok did) :
    checkServable m.api (FeedAppend.derive m.api .keyRevocation body.ctxId body.lineageId did none none
      receipt) = .ok () := by
  have hagent : body.agentId = c.req.agentId := by rw [hbody]; rfl
  have hparse : m.api.changes.parseAgentDid did = .ok did := by
    unfold revokedKeyController at hdid
    split at hdid
    · cases hdid
      rw [hagent]
      exact hserves.agent
    · cases hdid
      rw [hagent]
      exact hserves.agent
    · exact hserves.controller _ _ hdid
    · cases hdid
  obtain ⟨typed, htyped, -, htakes⟩ := hserves.receipt body receipt hmint
  obtain ⟨change, hchange, hlineage, hagent'⟩ := htakes did
  refine checkServable_derive (except_mapError_ok.2 ?_) hlineage hagent'
  exact except_bind_ok.2 ⟨_, hparse, except_bind_ok.2 ⟨_, htyped, hchange⟩⟩

include hbody in
theorem controllerReads_iff : ControllerReads m.api c ↔
      (body.contextType = .keyRevocation → ∃ did, revokedKeyController m.api body = .ok did) := by
  have hminter : c.receiptMinter.isSome = true := by
    unfold SqlStore.mintReceipt at hmint
    split at hmint
    · next h => rw [h]; rfl
    · cases hmint
  subst hbody
  simp only [ControllerReads, revokedKeyController, Body.fromPublishRequest, hminter, true_implies]
  refine imp_congr_right fun _ => ?_
  split <;> simp only [*, true_iff, false_iff, not_exists, reduceCtorEq, not_false_eq_true, implies_true]
  · exact ⟨_, rfl⟩
  · exact ⟨_, rfl⟩

include hserves hbody in
/-- **The rows of a minted receipt** can be derived if and only if the controller can be read. -/
theorem feedAppends_ok_iff :
    (∃ rows, feedAppendsForPublish m.api body (some receipt) (m.predecessor c contexts) = .ok rows) ↔
      ControllerReads m.api c := by
  rw [controllerReads_iff hbody hmint]
  have hsuperseded : ∀ a ∈ (m.predecessor c contexts).toList.map (supersededAppend m.api body receipt),
      checkServable m.api a = .ok () := by
    intro a ha
    obtain ⟨prev, hprev, rfl⟩ := List.mem_map.1 ha
    exact hserves.superseded hmint (Option.mem_toList.1 hprev)
  by_cases hrevocation : body.contextType = .keyRevocation
  · simp only [feedAppendsForPublish, hrevocation, true_implies]
    constructor
    · rintro ⟨rows, h⟩
      obtain ⟨did, hdid, -⟩ := except_bind_ok.1 h
      exact ⟨did, hdid⟩
    · rintro ⟨did, hdid⟩
      refine ⟨_, except_bind_ok.2 ⟨did, hdid, except_bind_ok.2 ⟨_, rfl,
        except_bind_ok.2 ⟨(), except_forM_ok.2 ?_, rfl⟩⟩⟩⟩
      intro a ha
      rcases List.mem_append.1 ha with ha | ha
      · exact hsuperseded a ha
      · rw [List.mem_singleton.1 ha]
        exact hserves.revocation hbody hmint hdid
  · simp only [feedAppendsForPublish, hrevocation, false_implies, iff_true]
    refine ⟨_, except_bind_ok.2 ⟨_, rfl, except_bind_ok.2 ⟨(), except_forM_ok.2 ?_, rfl⟩⟩⟩
    rw [List.append_nil]
    exact hsuperseded

end Rows

variable (hinner : m.inner.Lawful) (hapi : ReadsRequest m.api) (hserves : m.Serves c)
  (h : m.Inserts c draw st resp contexts)

include hinner h

include hapi in
/-- **What an inserted publish leaves.**  Only the feed rows can still fail. -/
theorem commitPublish_inserted :
    ∃ ctx row, m.inner.get contexts resp.ctxId = some ctx ∧
      (resp.registryReceipt = none →
        ∃ st', (m.commitPublish c draw).exec st = (.ok (.inserted resp), st')) ∧
      ∀ receipt, resp.registryReceipt = some receipt → (m.commitPublish c draw).exec st =
        match feedAppendsForPublish m.api ctx.body (some receipt) (m.predecessor c contexts) with
        | .ok rows => (.ok (.inserted resp),
            { m.index row { st with contexts } with feed := st.feed.push draw.feedMs rows })
        | .error e => (.error e, m.index row { st with contexts }) := by
  obtain ⟨ctx, row, hget, hrow⟩ := indexRowFor_inserted hinner hapi h
  refine ⟨ctx, row, hget, fun hnone => ?_, fun receipt hsome => ?_⟩
  · rw [commitPublish_inserts h, record_exec hget hrow, hnone]
    simp only [Option.isSome_none, Bool.false_or, Bool.false_eq_true, if_false]
    split_ifs
    · exact ⟨_, rfl⟩
    · exact ⟨_, rfl⟩
  · rw [commitPublish_inserts h, record_exec hget hrow, hsome]
    simp only [Option.isSome_some, Bool.true_or, if_true, pushRows_exec, index_contexts, index_feed]
    cases feedAppendsForPublish m.api ctx.body (some receipt) (m.predecessor c contexts) <;> rfl

include hserves in
theorem rows_of_inserts {ctx : FullContext} {receipt : Json}
    (hget : m.inner.get contexts resp.ctxId = some ctx) (hreceipt : resp.registryReceipt = some receipt) :
    (∃ rows, feedAppendsForPublish m.api ctx.body (some receipt) (m.predecessor c contexts) = .ok rows) ↔
      ControllerReads m.api c := by
  obtain ⟨-, lineageId, createdAt, hbody, hmint⟩ := hinner.inserted _ _ _ _ _ h.2
  rw [InMemoryStore.body?, hget, Option.map_some, Option.some_inj] at hbody
  rw [hreceipt, ← hbody] at hmint
  exact feedAppends_ok_iff hserves hbody (mintReceipt_of_innerCommit hmint)

include hapi hserves in
theorem commitPublish_derives (hreads : ControllerReads m.api c) :
    ∃ st', (m.commitPublish c draw).exec st = (.ok (.inserted resp), st') ∧
      ∀ receipt, resp.registryReceipt = some receipt → ∃ body rows,
        m.inner.body? st'.contexts resp.ctxId = some body ∧
        feedAppendsForPublish m.api body (some receipt) (m.predecessor c st'.contexts) = .ok rows ∧
        st'.feed = st.feed.push draw.feedMs rows := by
  obtain ⟨ctx, row, hget, hnone, hexec⟩ := commitPublish_inserted hinner hapi h
  cases hreceipt : resp.registryReceipt with
  | none =>
    obtain ⟨st', hst'⟩ := hnone hreceipt
    exact ⟨st', hst', fun receipt h => by cases h⟩
  | some receipt =>
    have hbody : m.inner.body? contexts resp.ctxId = some ctx.body := by
      rw [InMemoryStore.body?, hget, Option.map_some]
    obtain ⟨rows, hrows⟩ := (rows_of_inserts hinner hserves h hget hreceipt).2 hreads
    have hexec := hexec receipt hreceipt
    rw [hrows] at hexec
    refine ⟨_, hexec, fun receipt' h => ?_⟩
    cases h
    simp only [index_contexts]
    exact ⟨ctx.body, rows, hbody, hrows, rfl⟩

end Steps

/-- **When a publish is all or nothing.**  The wrapper's `commit_publish` changes nothing when it
    fails, and appends the rows of what it inserts, if the controller of a key revocation can be read;
    and only then, where it inserts with a receipt. -/
theorem commit_publish_all_or_nothing_iff (m : MemoryStore) (hinner : m.inner.Lawful)
    (hapi : ReadsRequest m.api) (c : PublishCommit) (hserves : m.Serves c) (draw : MemoryDraw)
    (st : MemoryState m.inner) :
    (ControllerReads m.api c → m.AllOrNothing c draw st) ∧
    ∀ resp contexts, m.Inserts c draw st resp contexts → resp.registryReceipt ≠ none →
      (m.AllOrNothing c draw st ↔ ControllerReads m.api c) := by
  have hall : ControllerReads m.api c → m.AllOrNothing c draw st := by
    intro hreads
    constructor
    · intro e st' h
      rcases commitPublish_cases h with ⟨rfl, -⟩ | ⟨e', contexts, hfail, -, rfl⟩ | ⟨r, hr⟩ |
        ⟨resp, contexts, hins⟩
      · exact .refl _
      · exact ⟨hinner.refused _ _ _ _ _ hfail, rfl, rfl, rfl⟩
      · cases hr
      · obtain ⟨st'', hexec, -⟩ := commitPublish_derives hinner hapi hserves hins hreads
        cases hexec.symm.trans h
    · intro resp receipt st' h hreceipt
      rcases commitPublish_cases h with ⟨-, e, he⟩ | ⟨e, contexts, -, he, -⟩ | ⟨r, hr⟩ |
        ⟨resp', contexts, hins⟩
      · cases he
      · cases he
      · cases hr
      · obtain ⟨st'', hexec, hrows⟩ := commitPublish_derives hinner hapi hserves hins hreads
        cases hexec.symm.trans h
        exact hrows receipt hreceipt
  refine ⟨hall, fun resp contexts hins hsome => ⟨fun h => ?_, hall⟩⟩
  obtain ⟨receipt, hreceipt⟩ := Option.ne_none_iff_exists'.1 hsome
  obtain ⟨ctx, row, hget, -, hexec⟩ := commitPublish_inserted hinner hapi hins
  have hexec := hexec receipt hreceipt
  rw [← rows_of_inserts hinner hserves hins hget hreceipt]
  cases hrows : feedAppendsForPublish m.api ctx.body (some receipt) (m.predecessor c contexts) with
  | ok rows => exact ⟨rows, rfl⟩
  | error e =>
    -- the context is there although the call fails
    rw [hrows] at hexec
    have hsame := (h.nothing e _ hexec).contexts resp.ctxId
    rw [index_contexts, (hinner.inserted _ _ _ _ _ hins.2).1, hget] at hsame
    cases hsame

end MemoryStore

/-! ## A revocation without a row -/

namespace Sample

/-- A store of first versions. -/
def publishPlain (c : PublishCommit) (draw : PublishDraw) (contexts : List FullContext) :
    Except AcdpError (PublishResponse × List FullContext) := do
  ensure c.req.supersedes.isNone (targetNotFound (c.req.supersedes.getD ""))
  ensure (contexts.all (·.body.ctxId ≠ draw.ctxId)) (.registryInternal "duplicate ctx_id")
  let body := Body.fromPublishRequest c.req draw.ctxId draw.ctxId c.authority draw.now
  let receipt ← SqlStore.mintReceipt c body
  return (⟨draw.ctxId, draw.ctxId, c.req.version, body.createdAt, .active, receipt⟩,
    contexts ++ [⟨body, .active, none, none, receipt⟩])

def plainStore : InMemoryStore where
  State := List FullContext
  get contexts ctxId := contexts.find? (·.body.ctxId = ctxId)
  commitPublish c draw contexts :=
    match publishPlain c draw contexts with
    | .ok r => (.ok (.inserted r.1), r.2)
    | .error e => (.error e, contexts)

theorem publishPlain_ok {c : PublishCommit} {draw : PublishDraw} {contexts : List FullContext}
    {r : PublishResponse × List FullContext} (h : publishPlain c draw contexts = .ok r) :
    let body := Body.fromPublishRequest c.req draw.ctxId draw.ctxId c.authority draw.now
    r.1.ctxId = draw.ctxId ∧ contexts.find? (·.body.ctxId = draw.ctxId) = none ∧
      (r.2.find? (·.body.ctxId = draw.ctxId)).map (·.body) = some body ∧
      SqlStore.mintReceipt c body = .ok r.1.registryReceipt := by
  obtain ⟨_, -, h⟩ := except_bind_ok.1 h
  obtain ⟨_, hfree, h⟩ := except_bind_ok.1 h
  obtain ⟨receipt, hreceipt, h⟩ := except_bind_ok.1 h
  cases h
  have hnew : contexts.find? (·.body.ctxId = draw.ctxId) = none := by simpa using ensure_ok.1 hfree
  refine ⟨rfl, hnew, ?_, hreceipt⟩
  rw [List.find?_append, hnew]
  simp [Body.fromPublishRequest]

theorem plainStore_lawful : plainStore.Lawful where
  refused c draw s e s' h := by
    cases hp : publishPlain c draw s with
    | ok r =>
      simp only [plainStore, hp] at h
      cases h
    | error e =>
      simp only [plainStore, hp] at h
      cases h
      exact fun _ => rfl
  inserted c draw s resp s' h := by
    cases hp : publishPlain c draw s with
    | error e =>
      simp only [plainStore, hp] at h
      cases h
    | ok r =>
      simp only [plainStore, hp] at h
      cases h
      obtain ⟨hid, hnew, hbody, hmint⟩ := publishPlain_ok hp
      rw [hid]
      exact ⟨hnew, draw.ctxId, draw.now, hbody, hmint⟩

def memoryStore : MemoryStore := ⟨plainStore, api⟩

def revocation (controller : Json) : PublishCommit where
  req := { request "agent" "hash" with
           contextType := .keyRevocation
           metadata := some (.object [("revoked_key_controller", controller)]) }
  authority := "registry"
  receiptMinter := some receipt

theorem revocation_serves (controller : Json) : memoryStore.Serves (revocation controller) where
  agent := rfl
  controller _ _ _ := rfl
  stored _ id _ _ := ⟨⟨id, rfl⟩, rfl⟩
  receipt body receipt h := by
    cases h
    exact ⟨_, rfl, fun _ _ => ⟨_, rfl, rfl, rfl⟩, fun _ => ⟨_, rfl, rfl, rfl⟩⟩

def memoryDraw : MemoryDraw := ⟨{ now := 0, ctxId := "ctx1" }, 0, 0⟩

end Sample

theorem readsRequest_sample : MemoryStore.ReadsRequest Sample.api := fun _ _ _ _ _ _ _ _ => rfl

/-- A revocation of the agent's own keys. -/
theorem commit_publish_all_or_nothing_sample :
    Sample.memoryStore.AllOrNothing (Sample.revocation .null) Sample.memoryDraw { contexts := [] } ∧
      (((Sample.memoryStore.commitPublish (Sample.revocation .null) Sample.memoryDraw).exec
        { contexts := [] }).2.feed.rows.map (·.seq)) = [1] := by
  refine ⟨(MemoryStore.commit_publish_all_or_nothing_iff Sample.memoryStore Sample.plainStore_lawful
    readsRequest_sample _ (Sample.revocation_serves .null) _ _).1 fun _ _ => ?_, by decide +kernel⟩
  show True
  trivial

/-- **A revocation stands without its row.**  With a controller that is no string the call fails, and
    the context is stored. -/
theorem revocation_without_row :
    let result := (Sample.memoryStore.commitPublish (Sample.revocation (.number 7))
      Sample.memoryDraw).exec { contexts := [] }
    (∃ e, result.1 = .error (.schemaViolation e)) ∧
      (Sample.plainStore.body? result.2.contexts "ctx1").isSome = true ∧ result.2.feed.rows.length = 0 ∧
      ¬Sample.memoryStore.AllOrNothing (Sample.revocation (.number 7)) Sample.memoryDraw
        { contexts := [] } := by
  refine ⟨⟨_, rfl⟩, rfl, rfl, fun h => ?_⟩
  have hsame := (h.nothing _ _ rfl).contexts "ctx1"
  cases hsame

end AcdpRegistry
