/-
  `commit_lifecycle_event` and `evict_idempotency` of the SQL backends, and the
  calls that a schedule interleaves.
-/
import AcdpRegistry.Store.CommitPublish

namespace AcdpRegistry

open Lib

/-- What one lifecycle call draws from outside: the clock it reads under the lock, and its feed row's
    position and clock. -/
structure LifecycleDraw where
  now : ℤ
  feedRow : ℕ × ℤ := (0, 0)

inductive LifecycleCommitOutcome
  | applied (ctx : FullContext)
  | idempotentReplay (ctx : FullContext)

/-- A lifecycle transaction ends without committing by an error or a replay. -/
abbrev LifecycleTx := Tx Db Part (Except AcdpError FullContext)

namespace LifecycleTx

/-- A check whose error refuses the event. -/
def checked {α : Type} (x : Except AcdpError α) : LifecycleTx α := Tx.lift (x.mapError .error)

/-- Refuse the event if the condition holds. -/
def refuseIf (c : Prop) [Decidable c] (e : AcdpError) : LifecycleTx Unit := Tx.refuse c (.error e)

end LifecycleTx

open LifecycleTx

/-- `row_to_context`: the retracted flag dominates the stored status. -/
def ContextRow.toContext (row : ContextRow) : FullContext where
  body := row.body
  status := if row.retracted then .retracted else row.status
  registryReceipt := row.receipt

/-- `slot_from_row` on a context's events in acceptance order. -/
def eventSlots (api : AcdpApi) (rows : List LifecycleEventRow) : List EventSlot :=
  rows.mapIdx fun i r => (r.event, StoredReceipt.decode api r.receipt r.event i)

namespace SqlStore

variable (st : SqlStore) (event : LifecycleEvent) (draw : LifecycleDraw)

def minting : Bool := st.eventReceiptMinter.isSome

/-- The stored form of an event: `occurred_at` has milliseconds. -/
def storedEvent : LifecycleEvent := { event with occurredAt := wholeMs event.occurredAt }

/-- Step 3: a resubmission is replayed, another event under the same id refused. -/
def checkEventId (ctx : FullContext) (slots : List EventSlot) : LifecycleTx Unit :=
  match slots.find? (·.1.eventId = event.eventId) with
  | none => pure ()
  | some prior =>
    let eventId := event.eventId
    if prior.1 = event then
      Tx.exit (.ok ((ctx.attachEvents slots st.minting).project draw.now))
    else
      Tx.exit (.error (.schemaViolation
        (s!"event_id '{eventId}' was already appended with different content " ++
          "(RFC-ACDP-0013 §4: event_id MUST be unique within lifecycle_events)")))

/-- Step 4: retractions and republications alternate. -/
def checkTransition (currentlyRetracted : Bool) : LifecycleTx Unit :=
  let ctxId := event.ctxId
  match event.eventType with
  | .retracted =>
    refuseIf (currentlyRetracted = true) (.invalidLifecycleTransition
      (s!"context '{ctxId}' is already retracted — double retract violates the " ++
        "strict alternation rule (RFC-ACDP-0013 §6 step 4)"))
  | .republished =>
    refuseIf (currentlyRetracted = false) (.invalidLifecycleTransition
      (s!"context '{ctxId}' is not retracted — republish requires a prior " ++
        "retraction (RFC-ACDP-0013 §6 step 4)"))
  | .other name =>
    Tx.exit (.error (.schemaViolation
      (s!"event_type '{name}' is not registered for acceptance in 0.3.0 — " ++
        "only 'retracted' and 'republished' transition state " ++
        "(RFC-ACDP-0013 §7.3)")))

def receiptPlan (createdAt : ℤ) (slots : List EventSlot) : Except AcdpError (Option ReceiptPlan) :=
  match st.eventReceiptMinter with
  | some m => (planEventReceipts st.api m event.ctxId createdAt slots event draw.now).map some
  | none => .ok none

/-- One fill: the event's receipt must be absent. -/
def fillReceipt (eventId : String) (r : EventReceipt) : LifecycleTx Unit := do
  let value ← checked (st.api.receiptValue r)
  let rows ← .stmt (fun _ => [])
    (fun _ db => { db with
      lifecycleEvents := Db.fillReceipt db.lifecycleEvents event.ctxId eventId value })
    fun db => db.lifecycleEvents.countP fun r =>
      r.event.ctxId = event.ctxId ∧ r.event.eventId = eventId ∧ r.receipt.isNone
  refuseIf (rows ≠ 1)
    (.registryInternal s!"event receipt fill for '{eventId}' matched {rows} rows")

def fillReceipts (slots : List EventSlot) : List (ℕ × EventReceipt) → LifecycleTx Unit
  | [] => pure ()
  | f :: fills => do
    st.fillReceipt event ((slots[f.1]?.map (·.1.eventId)).getD "") f.2
    fillReceipts slots fills

def insertEvent (tenantId : String) (receipt : Option Json) : LifecycleTx Unit :=
  .stmt (fun _ => [])
    (fun _ db => { db with
      lifecycleEvents := db.lifecycleEvents ++ [⟨storedEvent event, tenantId, receipt⟩] })
    fun _ => ()

def retractedNow : Bool := event.eventType = .retracted

def updateRetracted : LifecycleTx Unit :=
  .stmt (fun _ => st.dialect.rowLock (.context event.ctxId))
    (fun _ db => { db with
      contexts := Db.setRetracted db.contexts event.ctxId (retractedNow event) })
    fun _ => ()

def appendLifecycle (body : Body) (receipt : Option Json) : LifecycleTx Unit := do
  let append ← checked (lifecycleAppend st.api event body receipt)
  st.insertAll (append.toList.map fun a => (a, draw.feedRow))

def appliedContext (row : ContextRow) (slots : List EventSlot) (plan : Option ReceiptPlan) :
    FullContext :=
  let filled := slots.mapIdx fun i s =>
    match plan.bind fun p => p.fills.lookup i with
    | some r => (s.1, StoredReceipt.valid r)
    | none => s
  let new : EventSlot := (event, (plan.map fun p => StoredReceipt.valid p.new).getD .null)
  { row.toContext.attachEvents (filled ++ [new]) st.minting with
    status :=
      if retractedNow event then .retracted
      else projectStatusInline row.status row.body.expiresAt draw.now }

/-- The transaction of `commit_lifecycle_event`. -/
def lifecycleTx : LifecycleTx FullContext := do
  let ctxId := event.ctxId
  st.begin
  let row ← Tx.require (← st.lockContext event.ctxId)
    (.error (.notFound s!"context '{ctxId}' not found in this registry"))
  let slots := eventSlots st.api (← select (·.events event.ctxId))
  st.checkEventId event draw row.toContext slots
  checkTransition event (st.api.retractionState (slots.map Prod.fst))
  let plan ← checked (st.receiptPlan event draw row.body.createdAt slots)
  st.fillReceipts event slots ((plan.map ReceiptPlan.fills).getD [])
  let receipt ← checked (plan.mapM fun p => st.api.receiptValue p.new)
  insertEvent event row.tenantId receipt
  st.updateRetracted event
  st.appendLifecycle event draw row.body receipt
  return st.appliedContext event draw row slots plan

/-- What `commit_lifecycle_event` answers. -/
def lifecycleAnswer :
    Except (Except AcdpError FullContext) FullContext → Except AcdpError LifecycleCommitOutcome
  | .ok ctx => .ok (.applied ctx)
  | .error a => a.map .idempotentReplay

/-- `evict_idempotency`: one statement, which locks what it deletes. -/
def evictIdempotencyTx (now : ℤ) : Tx Db Part Empty Unit := do
  st.begin
  let expired (db : Db) (r : IdempotencyRecord) : Bool :=
    db.idempotency.any fun r' =>
      Db.expiredAt r.agentId r.key (st.dialect.stamp now) r'
  .stmt (fun seen => (seen.idempotency.filter (expired seen)).flatMap
      fun r => st.dialect.rowLock (.idempotency r.agentId r.key))
    (fun seen db => { db with
      idempotency := db.idempotency.filter
        fun r => !(expired seen r && r.expiresAt ≤ st.dialect.stamp now) })
    fun _ => ()

end SqlStore

/-! ## Calls -/

inductive Call
  | publish (st : SqlStore) (c : PublishCommit) (draw : PublishDraw)
  | lifecycle (st : SqlStore) (event : LifecycleEvent) (draw : LifecycleDraw)
  | evictIdempotency (st : SqlStore) (now : ℤ)

inductive CallExit
  | publish (e : PublishExit)
  | lifecycle (e : Except AcdpError FullContext)

inductive CallDone
  | inserted (r : PublishResponse)
  | applied (ctx : FullContext)
  | evicted

namespace Call

def store : Call → SqlStore
  | publish st _ _ | lifecycle st _ _ | evictIdempotency st _ => st

def tx : Call → Tx Db Part CallExit CallDone
  | publish st c draw => (st.publishTx c draw).mapEnd .publish .inserted
  | lifecycle st event draw => (st.lifecycleTx event draw).mapEnd .lifecycle .applied
  | evictIdempotency st now => (st.evictIdempotencyTx now).mapEnd Empty.elim fun _ => .evicted

end Call

/-- Any interleaving of any calls, to any number of stores of one database. -/
abbrev StoreSchedule {ι : Type} (call : ι → Call) := Schedule fun i => (call i).tx

/-! ## Sample functions

Stand-ins for the protocol crate, simple enough to compute with, for runs on fixed inputs. -/

namespace Sample

def changes : ChangeApi where
  parseAgentDid s := .ok s
  parseCtxId s := .ok s
  parseLineageId s := .ok s
  lifecycleEvent j := .ok j
  eventReceipt j := .ok j
  registryReceipt j := .ok j
  lifecycle seq lineage agent event receipt :=
    .ok ⟨seq, .lifecycle, "", lineage, agent, none, some event, receipt⟩
  superseded seq ctx agent receipt :=
    match receipt.get? "lineage_id" with
    | some (.string lineage) => .ok ⟨seq, .superseded, ctx, lineage, agent, none, none, receipt⟩
    | _ => .error (.schemaViolation "lineage_id")
  keyRevocation seq agent receipt :=
    match receipt.get? "lineage_id" with
    | some (.string lineage) => .ok ⟨seq, .keyRevocation, "", lineage, agent, none, none, receipt⟩
    | _ => .error (.schemaViolation "lineage_id")
  validateBucket _ _ := .ok ()
  display _ := ""

def encodeAttestation (att : KeyAttestation) : Json :=
  .array [.string att.controller, .number att.notBefore, .number att.notAfter, .string att.tokenHash]

def decodeAttestation : Option Json → Except AcdpError KeyAttestation
  | some (.array [.string controller, .number notBefore, .number notAfter, .string tokenHash]) =>
    .ok ⟨controller, .spiffe "spiffe://td/x", false, controller ++ "#acdp-kl-f7b7", "ed25519",
      "f7b7", notBefore, notAfter, tokenHash, ⟨"OKP", "Ed25519", "NLTZ", none⟩⟩
  | _ => .error (.schemaViolation "key attestation")

/-- A lineage is named by its first context. -/
def api : AcdpApi where
  truncMs := wholeMs
  truncMs_eq _ := rfl
  retractionState := lastRetracts
  retractionState_eq _ := rfl
  assignIdentifiers ctxId _ supersedes firstV1 _ :=
    match supersedes, firstV1 with
    | none, _ => .ok (ctxId, ctxId)
    | some _, some first => .ok (ctxId, first)
    | some _, none => .error (.registryInternal "no first version")
  authorityToDidWeb a := "did:web:" ++ a
  isKeylessKeyId k := "#acdp-kl-".toList.isPrefixOf (k.toList.dropWhile (· ≠ '#'))
  keylessKeyId controller fingerprint := .ok (controller ++ "#acdp-kl-" ++ fingerprint)
  maySupersede _ _ := .ok ()
  keyAttestationFromBody body := decodeAttestation body.metadata
  receiptHash _ := .ok ""
  leafCanonical leaf := .ok leaf.ctxId
  leafHash leaf := leaf
  logLeafVersion := "acdp-log-leaf/1"
  formatMs _ := ""
  display _ := ""
  displayJson _ := ""
  bucketHash s := s
  eventValue e := .ok (.string e.eventId)
  receiptValue r :=
    .ok (.array [.string r.ctxId, .string r.eventId, .number r.index, .number r.acceptedAt])
  eventReceiptFromValue
    | .array [.string ctxId, .string eventId, .number index, .number acceptedAt] =>
      .ok ⟨ctxId, eventId, index.toNat, acceptedAt, ""⟩
    | _ => .error (.schemaViolation "event receipt")
  changes := changes

/-- A receipt over a body. -/
def receipt (body : Body) : Except AcdpError Json :=
  .ok (.object [("key_fingerprint", .string "key"), ("lineage_id", .string body.lineageId)])

/-- A request of one agent for content named by its hash. -/
def request (agentId contentHash : String) : PublishRequest where
  agentId := agentId
  contentHash := contentHash
  signature := ⟨"key", "ed25519", ""⟩

end Sample

end AcdpRegistry
