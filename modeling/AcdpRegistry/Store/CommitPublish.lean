/-
  `commit_publish` of the SQL backends: one transaction from the idempotency
  lookup to the feed rows.

  The two backends run the same statements; where they differ the `Dialect`
  decides (locks, the precision of a stored instant, and the second look at the
  idempotency record that only Postgres takes).  A call draws from outside the
  clock, the random context id, and for each feed row the positions its insert
  skips and its clock.

  Nothing is written before the transaction's end: an `Err`, a replay and a lost
  claim all end it by a rollback.
-/
import AcdpRegistry.Store.Db

namespace AcdpRegistry

open Lib

/-! ## Arguments and outcomes -/

structure IdempotencyKey where
  key : String
  ttl : ℤ
  deriving DecidableEq, Repr

structure PublishCommit where
  req : PublishRequest
  authority : String
  idempotency : Option IdempotencyKey := none
  tenant : Option String := none
  receiptMinter : Option (Body → Except AcdpError Json) := none
  predecessorAdmission : Option (Body → Except AcdpError Unit) := none

structure PublishDraw where
  now : ℤ
  ctxId : String
  feedRow : ℕ → ℕ × ℤ := fun _ => (0, 0)

inductive PublishCommitOutcome
  | inserted (r : PublishResponse)
  | idempotentReplay (r : PublishResponse)

/-- How a publish ends without committing: with a replay or an error, or because another has claimed
    its key. -/
inductive PublishExit
  | answered (a : Except AcdpError PublishResponse)
  | keyTaken

/-- A SQL store as it was constructed, with the text its driver gives an error. -/
structure SqlStore where
  dialect : Dialect
  api : AcdpApi
  logEnabled : Bool := false
  eventReceiptMinter : Option EventReceiptMinter := none
  driverText : String := ""

/-! ## Statements -/

/-- A plain `SELECT`. -/
def select {ρ α : Type} (f : Db → α) : Tx Db Part ρ α := .query (fun _ => []) f

namespace SqlStore

variable (st : SqlStore) {ρ : Type}

/-- `BEGIN` or `BEGIN IMMEDIATE`. -/
def begin : Tx Db Part ρ Unit := .query (fun _ => st.dialect.beginLocks) fun _ => ()

/-- `SELECT ... FROM contexts ... FOR UPDATE`: a row that is not there is not locked. -/
def lockContext (ctxId : String) : Tx Db Part ρ (Option ContextRow) :=
  .query (fun seen => if (seen.context? ctxId).isSome then st.dialect.rowLock (.context ctxId) else [])
    (·.context? ctxId)

/-- `SELECT ... FROM idempotency_records ... FOR UPDATE`. -/
def lockKey (agentId key : String) : Tx Db Part ρ (Option IdempotencyRecord) :=
  .query
    (fun seen =>
      if (seen.idempotency? agentId key).isSome then st.dialect.rowLock (.idempotency agentId key)
      else [])
    (·.idempotency? agentId key)

/-- `DELETE FROM idempotency_records` of one key's expired record; it locks what it deletes. -/
def evictKey (agentId key : String) (now : ℤ) : Tx Db Part ρ Unit :=
  .stmt
    (fun seen =>
      if seen.idempotency.any (Db.expiredAt agentId key (st.dialect.stamp now)) then
        st.dialect.rowLock (.idempotency agentId key)
      else [])
    (fun seen db =>
      if seen.idempotency.any (Db.expiredAt agentId key (st.dialect.stamp now)) then
        { db with
          idempotency := db.idempotency.filter
            fun r => !Db.expiredAt agentId key (st.dialect.stamp now) r }
      else db)
    fun _ => ()

/-- An insert under a unique key: it waits for others that insert the same key, and inserts when the
    key is free. -/
def insertUnique (r : Part) (free : Db → Bool) (insert : Db → Db) : Tx Db Part ρ Bool :=
  .stmt (fun seen => if free seen then st.dialect.rowLock r else [])
    (fun seen db => if free seen then insert db else db) free

/-- `pg_advisory_xact_lock`; SQLite has no such statement. -/
def advisoryLock (r : Part) : Tx Db Part ρ Unit :=
  match st.dialect with
  | .sqlite => pure ()
  | .postgres => .query (fun _ => [.part r]) fun _ => ()

/-- The inserts of feed rows, one statement each. -/
def insertFeedRows : List (FeedAppend × ℕ × ℤ) → Tx Db Part ρ Unit
  | [] => pure ()
  | r :: rows => do
    .stmt (fun _ => []) (fun _ db => { db with feed := db.feed.append r.2.1 r.1 r.2.2 }) fun _ => ()
    insertFeedRows rows

/-- `insert_all`: the feed rows of one transaction, under the feed's lock. -/
def insertAll (rows : List (FeedAppend × ℕ × ℤ)) : Tx Db Part ρ Unit :=
  if rows.isEmpty then pure ()
  else do
    st.advisoryLock .feed
    insertFeedRows rows

end SqlStore

/-! ## The steps of a publish -/

abbrev PublishTx := Tx Db Part PublishExit

namespace PublishTx

/-- A check whose error refuses the publish. -/
def checked {α : Type} (x : Except AcdpError α) : PublishTx α :=
  Tx.lift (x.mapError fun e => .answered (.error e))

/-- Refuse the publish if the condition holds. -/
def refuseIf (c : Prop) [Decidable c] (e : AcdpError) : PublishTx Unit :=
  Tx.refuse c (.answered (.error e))

end PublishTx

open PublishTx

def IdempotencyRecord.answer (record : IdempotencyRecord) (req : PublishRequest) :
    Except AcdpError PublishResponse :=
  if record.contentHash = req.contentHash then .ok record.response
  else
    let key := record.key
    let agent := req.agentId
    .error (.duplicatePublish
      s!"Idempotency-Key '{key}' was previously used by '{agent}' with a different content_hash")

/-- The refusal for a target that is absent, of another tenant, or of another producer. -/
def targetNotFound (prev : String) : AcdpError :=
  .supersededTarget .notFound s!"supersedes target '{prev}' not found in this registry"

namespace SqlStore

variable (st : SqlStore) (c : PublishCommit) (draw : PublishDraw)

/-- Step 1: replay or refuse a key that has a live record. -/
def idempotencyLookup : PublishTx Unit :=
  match c.idempotency with
  | none => pure ()
  | some i => do
    st.evictKey c.req.agentId i.key draw.now
    match ← st.lockKey c.req.agentId i.key with
    | none => pure ()
    | some record => Tx.refuse (draw.now < record.expiresAt) (.answered (record.answer c.req))

/-- `committed_idempotent_response`: the live record, read again. -/
def committedIdempotentResponse (key : String) : PublishTx (Option IdempotencyRecord) :=
  select fun db => (db.idempotency? c.req.agentId key).filter (draw.now < ·.expiresAt)

/-- A superseded target. On Postgres a keyed request, which may have waited for the row lock, looks for
    its own record first. -/
def refuseSuperseded (prev : String) : PublishTx Unit := do
  let already := AcdpError.supersededTarget .alreadySuperseded
    s!"supersedes target '{prev}' has already been superseded"
  match st.dialect, c.idempotency with
  | .postgres, some i =>
    match ← committedIdempotentResponse c draw i.key with
    | some record => Tx.exit (.answered (record.answer c.req))
    | none => Tx.exit (.answered (.error already))
  | _, _ => Tx.exit (.answered (.error already))

/-- The attestation a predecessor was signed under, with its index row. -/
def predecessorRow : Option String → PublishTx (Option KeyAttestationIndexRow)
  | some att => do return (← select (·.attestation? att)).map (·.row)
  | none => pure none

/-- `supersession_gate`: the attestation of a keyless successor, and whether its signer may supersede
    the predecessor's. -/
def supersessionGate (predecessor : ContextRow) : PublishTx Unit :=
  match keylessSuccessor st.api c.req with
  | none => pure ()
  | some r => do
    let found ← select (·.attestation? r.ctxId)
    let succ ← checked (admitSuccessor st.api c.req r.ctxId found)
    let att ← checked (predecessorAttestation st.api predecessor.body)
    let row ← predecessorRow att
    let signer ← checked (predecessorSigner att row)
    checked (checkSupersession st.api signer succ)

/-- `window_gate`: the attestation of a keyless request, and its window. -/
def windowGate (createdAt : ℤ) : PublishTx Unit :=
  match keylessSuccessor st.api c.req with
  | none => pure ()
  | some r => do
    let found ← select (·.attestation? r.ctxId)
    let succ ← checked (admitSuccessor st.api c.req r.ctxId found)
    checked (checkWindow st.api succ createdAt)

/-- The predecessor's tenant, producer, lineage and version fit the request. -/
def checkTarget (prev : String) (row : ContextRow) : PublishTx Unit := do
  refuseIf (∃ t ∈ c.tenant, row.tenantId ≠ t) (targetNotFound prev)
  refuseIf (¬(row.body.agentId = c.req.agentId ∨ c.req.agentId ∈ row.body.contributors))
    (targetNotFound prev)
  let declared := c.req.lineageId.getD ""
  let lineage := row.body.lineageId
  refuseIf (∃ l ∈ c.req.lineageId, l ≠ lineage)
    (.supersededTarget .lineageMismatch
      s!"declared lineage_id '{declared}' ≠ predecessor's '{lineage}'")
  let version := c.req.version
  let expected := row.body.version + 1
  refuseIf (version ≠ expected)
    (.supersededTarget .versionMismatch
      s!"version {version} ≠ predecessor.version + 1 ({expected})")

/-- Step 2: the supersession checks, under the predecessor's row lock, up to the first version of its
    lineage. -/
def supersession : PublishTx (Option String) :=
  match c.req.supersedes with
  | none => pure none
  | some prev => do
    let row ← Tx.require (← st.lockContext prev) (.answered (.error (targetNotFound prev)))
    checkTarget c prev row
    if row.status = .superseded then st.refuseSuperseded c draw prev
    st.supersessionGate c row
    checked ((c.predecessorAdmission.map (· row.body)).getD (.ok ()))
    return (← select (·.firstOfLineage row.body.lineageId)).map (·.body.ctxId)

variable (body : Body)

/-- Step 4.5: the receipt over the assigned body. -/
def mintReceipt : Except AcdpError (Option Json) :=
  match c.receiptMinter with
  | some mint => (mint body).map some
  | none => .ok none

variable (receipt : Option Json)

def newRow : ContextRow where
  body := body
  status := .active
  tenantId := c.tenant.getD "default"
  receipt := receipt

def insertBody : PublishTx Unit := do
  let inserted ← st.insertUnique (.context body.ctxId) (fun db => (db.context? body.ctxId).isNone)
    fun db => { db with contexts := db.contexts ++ [newRow c body receipt] }
  refuseIf (inserted = false) (st.dialect.sqlxError st.driverText)

/-- `index_attestation`: the index row of a minted attestation; a token indexes one. -/
def indexAttestation : PublishTx Unit := do
  match ← checked (indexRowFor st.api body c.authority) with
  | none => pure ()
  | some row =>
    let text := st.driverText
    -- `CHECK (not_before_ms < not_after_ms)`
    refuseIf (row.notAfterMs ≤ row.notBeforeMs) (.registryInternal s!"key_attestations insert: {text}")
    let inserted ← st.insertUnique (.token row.tokenHash)
      (fun db => !db.keyAttestations.any (·.tokenHash = row.tokenHash))
      fun db => { db with keyAttestations := db.keyAttestations ++ [row] }
    refuseIf (inserted = false) (tokenReplayed row.tokenHash)

/-- `build_leaf_record`: the leaf's text and hash. -/
def buildLeafRecord (receipt : Json) : Except AcdpError (String × String) :=
  match receipt.get? "key_fingerprint" with
  | some (.string keyFingerprint) => do
    let leafJson ← st.api.leafCanonical
      { leafVersion := st.api.logLeafVersion
        ctxId := body.ctxId
        lineageId := body.lineageId
        originRegistry := body.originRegistry
        createdAt := body.createdAt
        contentHash := body.contentHash
        keyFingerprint := keyFingerprint
        receiptHash := ← st.api.receiptHash receipt }
    return (leafJson, st.api.leafHash leafJson)
  | _ =>
    .error (.registryInternal
      ("minted receipt carries no key_fingerprint — cannot build the " ++
        "transparency-log leaf (RFC-ACDP-0012 §4)"))

def leafFree (ctxId : String) (db : Db) : Bool :=
  !db.logLeaves.any fun l => l.leafIndex = db.logLeaves.length || l.ctxId = ctxId

/-- The leaf `INSERT`: its index is the number of leaves the statement counts. -/
def insertLeaf (ctxId : String) (leaf : String × String) : PublishTx Bool :=
  .stmt (fun _ => [])
    (fun seen db =>
      if leafFree ctxId seen then
        { db with logLeaves := db.logLeaves ++ [⟨seen.logLeaves.length, ctxId, leaf.1, leaf.2⟩] }
      else db)
    (leafFree ctxId)

/-- Step 5.5: the transparency-log leaf, under the log's lock. -/
def appendLeaf : PublishTx Unit :=
  if st.logEnabled then do
    let receipt ← Tx.require receipt (.answered (.error (.registryInternal
      ("transparency log is enabled but no receipt was minted for this " ++
        "publish — the log profile's prerequisite is the receipts profile " ++
        "(RFC-ACDP-0012 §11) and there is no degraded mode (§7.1); " ++
        "aborting the publish"))))
    let leaf ← checked (st.buildLeafRecord body receipt)
    st.advisoryLock .log
    let inserted ← insertLeaf body.ctxId leaf
    refuseIf (inserted = false) (st.dialect.sqlxError st.driverText)
  else pure ()

/-- Step 6. -/
def markSuperseded : PublishTx Unit :=
  match c.req.supersedes with
  | none => pure ()
  | some prev =>
    .stmt (fun _ => st.dialect.rowLock (.context prev))
      (fun _ db => { db with contexts := Db.supersede db.contexts prev }) fun _ => ()

def record (i : IdempotencyKey) (response : PublishResponse) : IdempotencyRecord where
  agentId := c.req.agentId
  key := i.key
  contentHash := c.req.contentHash
  response := response
  expiresAt := st.dialect.stamp (draw.now + i.ttl)

/-- Step 7: claim the key; the loser of a race discards its publish. -/
def claimKey (response : PublishResponse) : PublishTx Unit :=
  match c.idempotency with
  | none => pure ()
  | some i => do
    let inserted ← st.insertUnique (.idempotency c.req.agentId i.key)
      (fun db => (db.idempotency? c.req.agentId i.key).isNone)
      fun db => { db with idempotency := db.idempotency ++ [st.record c draw i response] }
    Tx.refuse (inserted = false) .keyTaken

def feedPredecessor : PublishTx (Option Predecessor) :=
  match c.req.supersedes with
  | none => pure none
  | some prev => do
    let text := st.driverText
    let row ← Tx.require (← select (·.context? prev))
      (.answered (.error (.registryInternal s!"changes predecessor: {text}")))
    return some ⟨prev, row.body.agentId⟩

/-- `append_publish`: the feed rows; without a receipt there are none. -/
def appendPublish : PublishTx Unit :=
  if receipt.isNone then pure ()
  else do
    let predecessor ← st.feedPredecessor c
    let appends ← checked (feedAppendsForPublish st.api body receipt predecessor)
    st.insertAll (appends.mapIdx fun i a => (a, draw.feedRow i))

/-- Steps 3 to 6: the identifiers, the body and its receipt, and their rows. -/
def writeRows (firstV1 : Option String) : PublishTx (Body × Option Json) := do
  let ids ← checked (st.api.assignIdentifiers draw.ctxId c.authority c.req.supersedes firstV1
    c.req.contentHash)
  let createdAt := st.api.truncMs draw.now
  let body := Body.fromPublishRequest c.req ids.1 ids.2 c.authority createdAt
  st.windowGate c createdAt
  let receipt ← checked (mintReceipt c body)
  st.insertBody c body receipt
  st.indexAttestation c body
  st.appendLeaf body receipt
  st.markSuperseded c
  return (body, receipt)

/-- The transaction of `commit_publish`. -/
def publishTx : PublishTx PublishResponse := do
  st.begin
  st.idempotencyLookup c draw
  let firstV1 ← st.supersession c draw
  let written ← st.writeRows c draw firstV1
  let response : PublishResponse :=
    ⟨written.1.ctxId, written.1.lineageId, c.req.version, st.api.truncMs draw.now, .active, written.2⟩
  st.claimKey c draw response
  st.appendPublish c draw written.1 written.2
  return response

/-- What `commit_publish` answers; a call that lost its claim reads the winner's record from the
    database `later`. -/
def publishAnswer (outcome : Except PublishExit PublishResponse) (later : Db) :
    Except AcdpError PublishCommitOutcome :=
  match outcome with
  | .ok response => .ok (.inserted response)
  | .error (.answered a) => a.map .idempotentReplay
  | .error .keyTaken =>
    match c.idempotency.bind fun i => later.idempotency? c.req.agentId i.key with
    | none =>
      .error (.registryInternal ("idempotency key claimed by a concurrent publish but its record " ++
        "could not be read back"))
    | some record => (record.answer c.req).map .idempotentReplay

end SqlStore

end AcdpRegistry
