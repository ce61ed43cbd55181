/-
  The refusals of a keyless publish agree across the backends.

  The SQL backends decide inline, from the reads of their transaction.  The memory
  backend decides in the closures it hands to the inner store, from snapshots taken
  before.  Where the states are equivalent, both refuse in the documented order:
  `Equivalent.commitPublish` is the memory side, `commitPublishAlone_documented` the
  SQL side.
-/
import AcdpRegistry.Server.MemoryStore
import AcdpRegistry.Store.PublishAlone
import AcdpRegistry.Core.Keyless

namespace AcdpRegistry

open Lib

/-! ## The inner store -/

/-- The caller's admission of the predecessor. -/
def PublishCommit.admits (c : PublishCommit) : Option TargetRow → Except AcdpError Unit
  | none => .ok ()
  | some row => (c.predecessorAdmission.map (· row.body)).getD (.ok ())

structure Prepared where
  target : Option TargetRow
  body : Body
  receipt : Option Json

/-- A publish without keyless checks of its own: the pre-checks, the admission, the assigned body and
    its receipt. -/
def StoreView.publish (v : StoreView) (api : AcdpApi) (c : PublishCommit) (draw : PublishDraw) :
    Decision Prepared := do
  v.replay c
  let target ← v.supersedes c
  Decision.check (c.admits target)
  let body ← Decision.check (v.assign api c draw target)
  let receipt ← Decision.check (SqlStore.mintReceipt c body)
  return ⟨target, body, receipt⟩

variable {p : Prepared}

theorem StoreView.publish_ok {v : StoreView} {api : AcdpApi} {c : PublishCommit}
    {draw : PublishDraw} (h : v.publish api c draw = .ok p) :
    v.supersedes c = .ok p.target ∧ v.assign api c draw p.target = .ok p.body ∧
      SqlStore.mintReceipt c p.body = .ok p.receipt := by
  obtain ⟨_, -, h⟩ := except_bind_ok.1 h
  obtain ⟨target, htarget, h⟩ := except_bind_ok.1 h
  obtain ⟨_, -, h⟩ := except_bind_ok.1 h
  obtain ⟨body, hbody, h⟩ := except_bind_ok.1 h
  obtain ⟨receipt, hreceipt, h⟩ := except_bind_ok.1 h
  cases h
  exact ⟨htarget, except_mapError_ok.1 hbody, except_mapError_ok.1 hreceipt⟩

/-- The ids that the call may assign are new to the store. -/
def InMemoryStore.Fresh (inner : InMemoryStore) (api : AcdpApi) (c : PublishCommit) (draw : PublishDraw)
    (s : inner.State) : Prop :=
  ∀ v target body, StoreView.assign v api c draw target = .ok body → inner.get s body.ctxId = none

/-- The inner store makes its pre-checks in the documented order, then the admission, and calls the
    minter with the body it stores. -/
structure InMemoryStore.Ordered (inner : InMemoryStore) (api : AcdpApi) where
  view : ℤ → inner.State → StoreView
  answers : ∀ c draw s, inner.Fresh api c draw s → (inner.commitPublish c draw s).1 =
    Decision.outcome (do
      let p ← (view draw.now s).publish api c draw
      return c.response p.body p.receipt)
  stores : ∀ c draw s p, inner.Fresh api c draw s → (view draw.now s).publish api c draw = .ok p →
    ∀ id, inner.body? (inner.commitPublish c draw s).2 id =
      if id = p.body.ctxId then some p.body else inner.body? s id

/-! ## Equivalent states -/

/-- What the memory backend knows of attestations and tokens. -/
def MemoryStore.keylessView (m : MemoryStore) (st : MemoryState m.inner) : KeylessView where
  attestation := m.successorSnapshot st
  used token := token ∈ st.attestationTokens

/-- The states of the memory backend and of a SQL backend are equivalent at the clock `now`. -/
structure MemoryStore.Equivalent (m : MemoryStore) (law : m.inner.Ordered m.api) (now : ℤ)
    (st : MemoryState m.inner) (db : Db) : Prop where
  store : law.view now st.contexts = db.storeView now
  bodies : ∀ id, m.inner.body? st.contexts id = (db.context? id).map (·.body)
  keyless : m.keylessView st = db.keylessView

theorem Db.attestation?_ctxId {db : Db} {id : String} {succ : SuccessorAttestation}
    (h : db.attestation? id = some succ) : succ.row.ctxId = id := by
  obtain ⟨row, hrow, h⟩ := Option.bind_eq_some_iff.1 h
  obtain ⟨ctx, -, h⟩ := Option.bind_eq_some_iff.1 h
  cases h
  simpa using List.find?_some hrow

/-! ## The closures -/

namespace MemoryStore

variable {m : MemoryStore} {law : m.inner.Ordered m.api} {c : PublishCommit} {draw : MemoryDraw}
  {st : MemoryState m.inner} {db : Db}

theorem keylessView_attestation (st : MemoryState m.inner) (id : String) :
    (m.keylessView st).attestation id = m.successorSnapshot st id := rfl

theorem successorSnapshot_row (st : MemoryState m.inner) (id : String) :
    (m.successorSnapshot st id).map (·.row) = st.keyAttestations id := by
  simp only [successorSnapshot]
  cases st.keyAttestations id <;> rfl

variable (h : m.Equivalent law draw.inner.now st db)

include h in
theorem Equivalent.predecessorRow {r : KeyAttestationRef} (hr : keylessSuccessor m.api c.req = some r)
    {prev : String} (hprev : c.req.supersedes = some prev) {pred : Body}
    (hpred : m.inner.body? st.contexts prev = some pred) {att : Option String}
    (hatt : predecessorAttestation m.api pred = .ok att) :
    ((m.snapshots c draw st).predecessorRow.filter fun row => att.any (· = row.ctxId)) =
      (att.bind (m.keylessView st).attestation).map (·.row) := by
  obtain ⟨ctx, hctx, rfl⟩ := Option.map_eq_some_iff.1 hpred
  cases att with
  | none => simp
  | some id =>
    have hsnap : (m.snapshots c draw st).predecessorRow = st.keyAttestations id := by
      simp [snapshots, hr, hprev, hctx, hatt, Except.toOption]
    rw [hsnap, Option.bind_some, keylessView_attestation, successorSnapshot_row]
    cases hrow : st.keyAttestations id with
    | none => rfl
    | some row =>
      have hfound : ∃ succ, db.attestation? id = some succ ∧ succ.row = row := by
        have hview := successorSnapshot_row st id
        rw [← keylessView_attestation, h.keyless, hrow] at hview
        exact Option.map_eq_some_iff.1 hview
      obtain ⟨succ, hsucc, rfl⟩ := hfound
      simp [Db.attestation?_ctxId hsucc]

theorem Equivalent.target_body {now : ℤ} (h : m.Equivalent law now st db) {prev : String}
    {row : TargetRow} (hrow : (law.view now st.contexts).target prev = some row) :
    m.inner.body? st.contexts prev = some row.body := by
  rw [h.store] at hrow
  obtain ⟨old, hold, rfl⟩ := Option.map_eq_some_iff.1 hrow
  rw [h.bodies, hold]
  rfl

include h in
theorem Equivalent.admits {target : Option TargetRow}
    (htarget : (law.view draw.inner.now st.contexts).supersedes c = .ok target) :
    (m.innerCommit c (m.snapshots c draw st)).admits target =
      (m.keylessView st).admission m.api c target := by
  rcases StoreView.supersedes_ok htarget with ⟨-, rfl⟩ | ⟨prev, row, hprev, hrow, rfl⟩
  · rfl
  have hpred := h.target_body hrow
  unfold KeylessView.admission KeylessView.succession
  cases hr : keylessSuccessor m.api c.req with
  | none =>
    have hsuccessor : (m.snapshots c draw st).successor = none := by simp [snapshots, hr]
    simp only [PublishCommit.admits, innerCommit, hsuccessor, Option.isSome_none, Bool.false_and,
      Bool.false_eq_true, if_false]
    rfl
  | some r =>
    have hsuccessor : (m.snapshots c draw st).successor = some r.ctxId := by simp [snapshots, hr]
    have hfound : (m.snapshots c draw st).successorFound = (m.keylessView st).attestation r.ctxId := by
      simp [snapshots, hr, keylessView]
    simp only [PublishCommit.admits, innerCommit, hsuccessor, hprev, Option.isSome_some, Bool.and_self,
      if_true, Option.map_some, Option.getD_some, keylessAdmission, hfound, bind_assoc]
    refine except_bind_congr fun succ _ => except_bind_congr fun att hatt => ?_
    rw [h.predecessorRow hr hprev hpred hatt]

variable {mint : Body → Except AcdpError Json}

section Minter

variable {body : Body} {ctxId lineageId : String} {createdAt : ℤ} (hapi : ReadsRequest m.api)
  (hbody : body = Body.fromPublishRequest c.req ctxId lineageId c.authority createdAt)

include hapi hbody

theorem snapshots_mint {row : KeyAttestationIndexRow}
    (hrow : indexRowFor m.api body c.authority = .ok (some row)) :
    ∃ row', (m.snapshots c draw st).mint = .ok (some row') ∧ row'.tokenHash = row.tokenHash := by
  have hminted := isMinted_of_indexRowFor hrow
  obtain ⟨att, hatt, rfl⟩ := indexRowFor_ok hrow
  subst hbody
  have hmint : (m.snapshots c draw st).mint = indexRowForRequest m.api c.req c.authority draw.now := rfl
  have hrequest : isMintedAttestation m.api c.req.contextType c.req.agentId c.authority = true := hminted
  rw [hmint, indexRowForRequest, if_neg (by simp [hrequest])]
  generalize s!"acdp://{c.authority}/00000000-0000-4000-8000-000000000000" = placeholder
  rw [hapi _ _ _ _ _ placeholder placeholder draw.now] at hatt
  refine ⟨.new (Body.fromPublishRequest c.req placeholder placeholder c.authority draw.now) att, ?_, rfl⟩
  unfold indexRowFor
  rw [if_pos (by exact hrequest), hatt]

omit hapi in
theorem indexRowFor_not_mint (h : (m.snapshots c draw st).isMint = false) :
    indexRowFor m.api body c.authority = .ok none := by
  have hminted : isMintedAttestation m.api c.req.contextType c.req.agentId c.authority = false := by
    by_contra hne
    have hrequest := Bool.eq_true_of_not_eq_false hne
    have hmint : (m.snapshots c draw st).mint = .ok none := by
      cases hx : (m.snapshots c draw st).mint with
      | error e => simp [Snapshots.isMint, hx] at h
      | ok x =>
        cases x with
        | none => rfl
        | some row => simp [Snapshots.isMint, hx] at h
    change indexRowForRequest m.api c.req c.authority draw.now = .ok none at hmint
    rw [indexRowForRequest, if_neg (by simp [hrequest])] at hmint
    exact (indexRowFor_minted (by exact hrequest)).1 hmint
  subst hbody
  unfold indexRowFor
  rw [if_neg]
  exact fun hne => by simp [Body.fromPublishRequest, hminted] at hne

theorem usedToken_eq {row : KeyAttestationIndexRow}
    (hrow : indexRowFor m.api body c.authority = .ok (some row)) :
    (m.snapshots c draw st).usedToken =
      if (m.keylessView st).used row.tokenHash then some row.tokenHash else none := by
  obtain ⟨row', hmint, htoken⟩ : ∃ row', indexRowForRequest m.api c.req c.authority draw.now =
      .ok (some row') ∧ row'.tokenHash = row.tokenHash :=
    show ∃ row', (m.snapshots c draw st).mint = _ ∧ _ from snapshots_mint hapi hbody hrow
  simp [snapshots, hmint, htoken, keylessView]

theorem keylessMinter_eq (mint : Body → Except AcdpError Json) :
    m.keylessMinter c (m.snapshots c draw st) mint body = (do
      (m.keylessView st).window m.api c.req body.createdAt
      (m.keylessView st).token m.api body c.authority
      mint body) := by
  have hwindow : ∀ {r}, keylessSuccessor m.api c.req = r →
      (m.snapshots c draw st).successor = r.map (·.ctxId) ∧
      (m.snapshots c draw st).successorFound =
        r.bind fun r => (m.keylessView st).attestation r.ctxId := by
    rintro _ rfl
    cases hr : keylessSuccessor m.api c.req <;> simp [snapshots, hr, keylessView]
  unfold keylessMinter KeylessView.window KeylessView.token
  rcases hr : keylessSuccessor m.api c.req with _ | r
  on_goal 1 =>
    simp only [(hwindow hr).1, Option.map_none]
    show (indexRowFor m.api body c.authority >>= _) =
      ((indexRowFor m.api body c.authority >>= (m.keylessView st).refuseToken) >>= _)
    rw [bind_assoc]
  on_goal 2 =>
    simp only [(hwindow hr).1, (hwindow hr).2, Option.map_some, Option.bind_some, bind_assoc]
    refine except_bind_congr fun succ _ => except_bind_congr fun _ _ => ?_
  -- what is left is the token, in both cases
  all_goals
    refine except_bind_congr fun row hrow => ?_
    cases row with
    | none => rfl
    | some row =>
      simp only [usedToken_eq hapi hbody hrow, KeylessView.refuseToken, Option.isSome_some, if_true]
      cases (m.keylessView st).used row.tokenHash <;> rfl

theorem mintReceipt_innerCommit (hmint : c.receiptMinter = some mint) :
    SqlStore.mintReceipt (m.innerCommit c (m.snapshots c draw st)) body = (do
      (m.keylessView st).window m.api c.req body.createdAt
      (m.keylessView st).token m.api body c.authority
      SqlStore.mintReceipt c body) := by
  simp only [SqlStore.mintReceipt, innerCommit, hmint, Option.map_some]
  cases hwrap : (m.snapshots c draw st).successor.isSome || (m.snapshots c draw st).isMint with
  | true =>
    simp only [if_true, keylessMinter_eq hapi hbody]
    cases (m.keylessView st).window m.api c.req body.createdAt with
    | error e => rfl
    | ok _ => cases (m.keylessView st).token m.api body c.authority <;> rfl
  | false =>
    obtain ⟨hsuccessor, hmint⟩ := Bool.or_eq_false_iff.1 hwrap
    have hkeyless : keylessSuccessor m.api c.req = none := by
      simpa [snapshots] using hsuccessor
    have hwindow : (m.keylessView st).window m.api c.req body.createdAt = .ok () := by
      rw [KeylessView.window, hkeyless]
    have htoken : (m.keylessView st).token m.api body c.authority = .ok () := by
      rw [KeylessView.token, indexRowFor_not_mint hbody hmint]
      rfl
    rw [hwindow, htoken]
    rfl

end Minter

/-! ## The memory backend -/

include h in
theorem Equivalent.documented_eq (hapi : ReadsRequest m.api) (hmint : c.receiptMinter = some mint) :
    documented m.api (law.view draw.inner.now st.contexts) (m.keylessView st) c draw.inner = (do
      let p ← (law.view draw.inner.now st.contexts).publish m.api
        (m.innerCommit c (m.snapshots c draw st)) draw.inner
      Decision.check (c.feedRows m.api p.target p.body p.receipt)
      return c.response p.body p.receipt) := by
  simp only [StoreView.publish, bind_assoc, pure_bind]
  refine except_bind_congr fun _ _ => except_bind_congr fun target htarget => ?_
  rw [h.admits htarget]
  refine except_bind_congr fun _ _ => except_bind_congr fun body hbody => ?_
  obtain ⟨ctxId, lineageId, hbody⟩ := StoreView.assign_ok (except_mapError_ok.1 hbody)
  rw [mintReceipt_innerCommit hapi hbody hmint]
  simp only [Decision.check_bind, bind_assoc]

theorem commitPublish_answered {a : Except AcdpError PublishResponse}
    (hpre : precheck c (m.snapshots c draw st) st.poisoned = .ok ())
    (h : (m.inner.commitPublish (m.innerCommit c (m.snapshots c draw st)) draw.inner st.contexts).1 =
      a.map .idempotentReplay) :
    ((m.commitPublish c draw).exec st).1 = a.map .idempotentReplay := by
  rcases hinner : m.inner.commitPublish (m.innerCommit c (m.snapshots c draw st)) draw.inner
    st.contexts with ⟨outcome, contexts⟩
  rw [hinner] at h
  subst h
  simp only [MemoryStore.commitPublish, Handler.exec_bind, Handler.exec_get, Handler.exec_lift, hpre,
    commitInner_exec hinner]
  cases a <;> rfl

include h in
theorem Equivalent.predecessor_eq (hfresh : m.inner.get st.contexts p.body.ctxId = none)
    (htarget : (law.view draw.inner.now st.contexts).supersedes c = .ok p.target)
    {contexts : m.inner.State} (hstores : ∀ id, m.inner.body? contexts id =
      if id = p.body.ctxId then some p.body else m.inner.body? st.contexts id) :
    m.predecessor c contexts = c.predecessor p.target := by
  unfold MemoryStore.predecessor PublishCommit.predecessor
  rcases StoreView.supersedes_ok htarget with ⟨hprev, -⟩ | ⟨prev, row, hprev, hrow, htarget⟩
  · rw [hprev]
    rfl
  · have hpred : m.inner.body? st.contexts prev = some row.body := h.target_body hrow
    have hne : prev ≠ p.body.ctxId := by
      rintro rfl
      rw [InMemoryStore.body?, hfresh] at hpred
      cases hpred
    have hbody := hstores prev
    rw [if_neg hne, hpred] at hbody
    obtain ⟨ctx, hctx, hbody⟩ := Option.map_eq_some_iff.1 hbody
    simp [hprev, hctx, htarget, hbody]

theorem prepared_minted (hapi : ReadsRequest m.api)
    (hmint : ∀ body, ∃ receipt, SqlStore.mintReceipt c body = .ok (some receipt))
    (hminter : c.receiptMinter = some mint) {v : StoreView}
    (hpublish : v.publish m.api (m.innerCommit c (m.snapshots c draw st)) draw.inner = .ok p) :
    ∃ row receipt, indexRowFor m.api p.body c.authority = .ok row ∧ p.receipt = some receipt := by
  obtain ⟨-, hassign, hreceipt⟩ := StoreView.publish_ok hpublish
  change v.assign m.api c draw.inner p.target = .ok p.body at hassign
  obtain ⟨ctxId, lineageId, hbody⟩ := StoreView.assign_ok hassign
  rw [mintReceipt_innerCommit hapi hbody hminter] at hreceipt
  obtain ⟨_, -, hreceipt⟩ := except_bind_ok.1 hreceipt
  obtain ⟨_, htoken, hreceipt⟩ := except_bind_ok.1 hreceipt
  obtain ⟨row, hrow, -⟩ := except_bind_ok.1 htoken
  obtain ⟨receipt, hminted⟩ := hmint p.body
  exact ⟨row, receipt, hrow, Except.ok.inj (hreceipt.symm.trans hminted)⟩

include h in
theorem Equivalent.commitPublish_prepared
    (hpre : precheck c (m.snapshots c draw st) st.poisoned = .ok ())
    (hfresh : m.inner.Fresh m.api c draw.inner st.contexts)
    (hpublish : (law.view draw.inner.now st.contexts).publish m.api
      (m.innerCommit c (m.snapshots c draw st)) draw.inner = .ok p)
    {row : Option KeyAttestationIndexRow} (hrow : indexRowFor m.api p.body c.authority = .ok row)
    {receipt : Json} (hsome : p.receipt = some receipt) :
    ((m.commitPublish c draw).exec st).1 = Decision.outcome (do
      Decision.check (c.feedRows m.api p.target p.body p.receipt)
      return c.response p.body p.receipt) := by
  have hanswers := law.answers (m.innerCommit c (m.snapshots c draw st)) draw.inner st.contexts hfresh
  have hstores := law.stores (m.innerCommit c (m.snapshots c draw st)) draw.inner st.contexts p hfresh
    hpublish
  obtain ⟨htarget, hassign, -⟩ := StoreView.publish_ok hpublish
  have hnew : m.inner.get st.contexts p.body.ctxId = none := hfresh _ _ _ hassign
  rcases hinner : m.inner.commitPublish (m.innerCommit c (m.snapshots c draw st)) draw.inner
    st.contexts with ⟨outcome, contexts⟩
  rw [hinner, hpublish] at hanswers
  rw [hinner] at hstores
  change outcome = .ok (.inserted (c.response p.body p.receipt)) at hanswers
  subst hanswers
  obtain ⟨ctx, hctx, hbody⟩ : ∃ ctx, m.inner.get contexts p.body.ctxId = some ctx ∧
      ctx.body = p.body := by
    have hbody := hstores p.body.ctxId
    rw [if_pos rfl] at hbody
    exact Option.map_eq_some_iff.1 hbody
  have hpredecessor : m.predecessor c contexts = c.predecessor p.target :=
    h.predecessor_eq hnew htarget hstores
  rw [← hbody] at hrow
  rw [commitPublish_inserts ⟨hpre, hinner⟩, record_exec hctx hrow]
  simp only [PublishCommit.response, hsome, Option.isSome_some, Bool.true_or, if_true, pushRows_exec,
    index_contexts, hpredecessor, hbody, PublishCommit.feedRows]
  cases feedAppendsForPublish m.api p.body (some receipt) (c.predecessor p.target) <;> rfl

include h in
/-- **The memory backend refuses in the documented order.** -/
theorem Equivalent.commitPublish (hapi : ReadsRequest m.api) (hlock : st.poisoned = false)
    (hmint : ∀ body, ∃ receipt, SqlStore.mintReceipt c body = .ok (some receipt))
    (hfresh : m.inner.Fresh m.api c draw.inner st.contexts) :
    ((m.commitPublish c draw).exec st).1 = (documented m.api (law.view draw.inner.now st.contexts)
      (m.keylessView st) c draw.inner).outcome := by
  obtain ⟨mint, hminter⟩ : ∃ mint, c.receiptMinter = some mint := by
    cases hminter : c.receiptMinter with
    | some mint => exact ⟨mint, rfl⟩
    | none =>
      obtain ⟨receipt, hreceipt⟩ := hmint (.fromPublishRequest c.req "" "" c.authority 0)
      simp [SqlStore.mintReceipt, hminter] at hreceipt
  have hpre : precheck c (m.snapshots c draw st) st.poisoned = .ok () := by
    simp only [precheck, hlock, hminter]
    rfl
  rw [h.documented_eq hapi hminter]
  cases hpublish : (law.view draw.inner.now st.contexts).publish m.api
      (m.innerCommit c (m.snapshots c draw st)) draw.inner with
  | error a =>
    have hanswers := law.answers (m.innerCommit c (m.snapshots c draw st)) draw.inner st.contexts hfresh
    rw [hpublish] at hanswers
    exact commitPublish_answered hpre hanswers
  | ok p =>
    obtain ⟨row, receipt, hrow, hsome⟩ := prepared_minted hapi hmint hminter hpublish
    exact h.commitPublish_prepared hpre hfresh hpublish hrow hsome

/-! ## The three backends -/

/-- A request for an attestation of the registry's own comes from a mint. -/
def FromMint (api : AcdpApi) (c : PublishCommit) : Prop :=
  isMintedAttestation api c.req.contextType c.req.agentId c.authority = true →
    ∃ (mapi : MintApi) (run : MintRun), mapi.acdp = api ∧ mapi.ReadsBack ∧
      run.publishRequest mapi = .ok c.req

/-- A SQL backend that is given the same call as the memory backend, in an equivalent state. -/
structure Beside (m : MemoryStore) (law : m.inner.Ordered m.api) (c : PublishCommit) (draw : MemoryDraw)
    (st : MemoryState m.inner) (sql : SqlStore) (db : Db) (sqlDraw : PublishDraw) : Prop where
  api : sql.api = m.api
  reached : db.Reached sql.dialect
  equivalent : m.Equivalent law draw.inner.now st db
  now : sqlDraw.now = draw.inner.now
  ctxId : sqlDraw.ctxId = draw.inner.ctxId
  /-- If the backend keeps a log, a minted receipt gives a leaf. -/
  leaf : ∀ body receipt, SqlStore.mintReceipt c body = .ok (some receipt) → sql.logEnabled = true →
    ∃ leaf, sql.buildLeafRecord body receipt = .ok leaf

theorem Beside.storable {sql : SqlStore} {sqlDraw : PublishDraw}
    (h : m.Beside law c draw st sql db sqlDraw) (hrequest : FromMint m.api c)
    (hfresh : m.inner.Fresh m.api c draw.inner st.contexts) : Storable sql.api c sqlDraw db := by
  rw [h.api]
  refine ⟨fun v target body hassign => ?_, fun v target body row hassign hrow => ?_⟩
  · rw [v.assign_congr h.now h.ctxId] at hassign
    have hbody := h.equivalent.bodies body.ctxId
    rw [InMemoryStore.body?, hfresh v target body hassign] at hbody
    exact Option.map_eq_none_iff.1 hbody.symm
  · obtain ⟨ctxId, lineageId, rfl⟩ := StoreView.assign_ok hassign
    obtain ⟨mapi, run, hmapi, hreads, hrun⟩ := hrequest (isMinted_of_indexRowFor hrow)
    rw [← hmapi] at hrow
    exact (run.index_window hreads hrun rfl hrow).2.1

end MemoryStore

/-! ## A token used twice -/

namespace Sample

def tableStore : InMemoryStore where
  State := Db
  get db ctxId := (db.context? ctxId).map fun row =>
    { body := row.body, status := if row.retracted then .retracted else .active,
      registryReceipt := row.receipt }
  commitPublish c draw db :=
    match (db.storeView draw.now).publish api c draw with
    | .ok p =>
      let superseded := Db.supersede db.contexts (c.req.supersedes.getD "")
      (.ok (.inserted (c.response p.body p.receipt)),
        { db with contexts := superseded ++ [SqlStore.newRow c p.body p.receipt] })
    | .error a => (a.map .idempotentReplay, db)

theorem body?_tableStore (db : tableStore.State) (ctxId : String) :
    tableStore.body? db ctxId = ((Db.contexts db).map (·.body)).find? (·.ctxId = ctxId) := by
  rw [← Db.body_context? db]
  exact Option.map_map _ _ _

def tableStoreOrdered : tableStore.Ordered api where
  view now db := db.storeView now
  answers c draw db _ := by
    simp only [tableStore]
    cases (db.storeView draw.now).publish api c draw <;> rfl
  stores c draw db p hfresh hp id := by
    have hnew : tableStore.body? db p.body.ctxId = none := by
      rw [InMemoryStore.body?, hfresh _ _ _ (StoreView.publish_ok hp).2.1]
      rfl
    have hbodies : (Db.contexts (tableStore.commitPublish c draw db).2).map (·.body) =
        (Db.contexts db).map (·.body) ++ [p.body] := by
      simp [tableStore, hp, SqlStore.newRow]
    rw [body?_tableStore, hbodies, List.find?_append, ← body?_tableStore]
    by_cases hid : id = p.body.ctxId
    · subst hid
      simp [hnew]
    · simp [hid, Ne.symm hid]

def memoryOf (db : Db) : MemoryState tableStore where
  contexts := db
  keyAttestations ctxId := (db.attestation? ctxId).map (·.row)
  attestationTokens := (db.keyAttestations.map (·.tokenHash)).toFinset

def tableMemory : MemoryStore := ⟨tableStore, api⟩

theorem equivalent_memoryOf (now : ℤ) (db : Db) :
    tableMemory.Equivalent tableStoreOrdered now (memoryOf db) db := by
  refine ⟨rfl, fun id => ?_, ?_⟩
  · rw [db.body_context?]
    exact body?_tableStore db id
  · refine KeylessView.ext (funext fun id => ?_) (funext fun token => ?_)
    · show tableMemory.successorSnapshot (memoryOf db) id = db.attestation? id
      unfold MemoryStore.successorSnapshot
      cases hatt : db.attestation? id with
      | none => simp [memoryOf, hatt]
      | some succ =>
        obtain ⟨row, -, hsucc⟩ := Option.bind_eq_some_iff.1 hatt
        obtain ⟨ctx, hctx, hsucc⟩ := Option.bind_eq_some_iff.1 hsucc
        cases hsucc
        have hget : tableMemory.inner.get (memoryOf db).contexts id = some
            { body := ctx.body, status := if ctx.retracted then .retracted else .active,
              registryReceipt := ctx.receipt } := congrArg (Option.map _) hctx
        rw [hget]
        cases hretracted : ctx.retracted <;> simp [memoryOf, hatt, hretracted]
    · rw [Bool.eq_iff_iff]
      simp [MemoryStore.keylessView, memoryOf, Db.keylessView]

def firstMint : PublishCommit where
  req := mintedRequest
  authority := "registry.example.com"
  receiptMinter := some receipt

def mintOnce (d : Dialect) (_ : Fin 1) : Call :=
  .publish { dialect := d, api := api } firstMint { now := 0, ctxId := "att" }

def mintOnceRun (d : Dialect) : StoreSchedule (mintOnce d) := Schedule.serial _ {}

theorem mintOnceRun_same (d : Dialect) : (mintOnceRun d).db 1 = (mintOnceRun .sqlite).db 1 := by
  cases d <;> rfl

theorem mintOnce_beside (d : Dialect) :
    tableMemory.Beside tableStoreOrdered firstMint ⟨{ now := 10 ^ 9, ctxId := "att2" }, 0, 0⟩
      (memoryOf ((mintOnceRun .sqlite).db 1)) { dialect := d, api := api } ((mintOnceRun d).db 1)
      { now := 10 ^ 9, ctxId := "att2" } where
  api := rfl
  reached := ⟨Fin 1, mintOnce d, mintOnceRun d, 1, rfl, fun _ => rfl, rfl⟩
  equivalent := by
    rw [mintOnceRun_same]
    exact equivalent_memoryOf _ _
  now := rfl
  ctxId := rfl
  leaf _ _ _ h := by cases h

end Sample

end AcdpRegistry
