/-
  Lifecycle events (`acdp-registry-store/src/lifecycle.rs` and
  `event_receipts.rs`), and the feed rows an event or a publish derives
  (`changes.rs` of the same crate).

  - `reconcileRetraction` is the status that the events of a context give it;
  - `planEventReceipts` is what a lifecycle commit writes beside its event:
    receipts for the events before it that have none, and its own;
  - `lifecycleAppend` and `feedAppendsForPublish` are the feed rows.
-/
import AcdpRegistry.Store.Records

namespace AcdpRegistry

variable (api : AcdpApi)

/-! ## Status -/

/-- `reconcile_retraction`: retraction wins from either source. -/
def reconcileRetraction (status : Status) (events : List LifecycleEvent) : Status :=
  if status = .retracted || api.retractionState events then .retracted else status

/-- `project_status_inline`: an active context expires. -/
def projectStatusInline (stored : Status) (expiresAt : Option ℤ) (now : ℤ) : Status :=
  match stored, expiresAt with
  | .active, some exp => if exp ≤ now then .expired else .active
  | s, _ => s

theorem projectStatusInline_retracted_iff {s : Status} {exp : Option ℤ} {now : ℤ} :
    projectStatusInline s exp now = .retracted ↔ s = .retracted := by
  cases s <;> cases exp <;> simp only [projectStatusInline, reduceCtorEq]
  split_ifs <;> simp

/-! ## Event receipts -/

/-- Signs a receipt for the event at an index, with a final `accepted_at`. -/
abbrev EventReceiptMinter := String → Json → ℕ → ℤ → Except AcdpError EventReceipt

/-- One persisted receipt slot, as decoded from storage. -/
inductive StoredReceipt
  | null
  | valid (r : EventReceipt)
  | corrupt
  deriving DecidableEq, Repr

namespace StoredReceipt

/-- A value that does not decode, or names another event or position, is corrupt. -/
def decode (value : Option Json) (event : LifecycleEvent) (index : ℕ) :
    StoredReceipt :=
  match value with
  | none => .null
  | some v =>
    match api.eventReceiptFromValue v with
    | .ok r =>
      if r.eventId = event.eventId ∧ r.index = index ∧ r.ctxId = event.ctxId then .valid r
      else .corrupt
    | .error _ => .corrupt

def intoOption : StoredReceipt → Option EventReceipt
  | .valid r => some r
  | .null | .corrupt => none

/-- `has_hole`: a corrupt slot, or an empty one before a receipt. -/
def hasHole : (seenNull : Bool) → List StoredReceipt → Bool
  | _, [] => false
  | _, .corrupt :: _ => true
  | _, .null :: slots => hasHole true slots
  | seenNull, .valid _ :: slots => seenNull || hasHole seenNull slots

end StoredReceipt

abbrev EventSlot := LifecycleEvent × StoredReceipt

def ceilMs (t : ℤ) : ℤ := if api.truncMs t = t then t else api.truncMs t + 10 ^ 6

/-- `clamp_accepted_at`: never before the context or the receipt before it. -/
def clampAcceptedAt (now createdAt : ℤ) (prev : Option ℤ) : ℤ :=
  let at_ := max (api.truncMs now) (ceilMs api createdAt)
  match prev with
  | some p => max at_ p
  | none => at_

/-- What a lifecycle commit must write: receipts for empty slots and the new event's. -/
structure ReceiptPlan where
  fills : List (ℕ × EventReceipt)
  new : EventReceipt
  hole : Bool

def latestAcceptedAt (prior : List EventSlot) : Option ℤ :=
  (prior.filterMap fun s => s.2.intoOption.map EventReceipt.acceptedAt).max?

/-- `fill_nulls`, from position `i` on: each clamp is chained from the last. -/
def fillNulls (api : AcdpApi) (minter : EventReceiptMinter) (ctxId : String) (createdAt now : ℤ) :
    ℕ → Option ℤ → List EventSlot → Except AcdpError (List (ℕ × EventReceipt) × Option ℤ)
  | _, prev, [] => .ok ([], prev)
  | i, prev, (event, .null) :: slots => do
    let r ← minter ctxId (← api.eventValue event) i (clampAcceptedAt api now createdAt prev)
    let (fills, last) ← fillNulls api minter ctxId createdAt now (i + 1) (some r.acceptedAt) slots
    return ((i, r) :: fills, last)
  | i, prev, _ :: slots => fillNulls api minter ctxId createdAt now (i + 1) prev slots

/-- `plan_event_receipts`: with a hole nothing is filled. -/
def planEventReceipts (minter : EventReceiptMinter) (ctxId : String) (createdAt : ℤ)
    (prior : List EventSlot) (newEvent : LifecycleEvent) (now : ℤ) :
    Except AcdpError ReceiptPlan := do
  let hole := StoredReceipt.hasHole false (prior.map Prod.snd)
  let (fills, prev) ←
    if hole then pure ([], latestAcceptedAt prior)
    else fillNulls api minter ctxId createdAt now 0 (latestAcceptedAt prior) prior
  let new ← minter ctxId (← api.eventValue newEvent) prior.length
    (clampAcceptedAt api now createdAt prev)
  return ⟨fills, new, hole⟩

/-! ## Served contexts -/

/-- `FullContext`, with the members of `registry_state` the store fills. -/
structure FullContext where
  body : Body
  status : Status
  lifecycleEvents : Option (List LifecycleEvent) := none
  eventReceipts : Option (List EventReceipt) := none
  registryReceipt : Option Json

/-- `attach_event_receipts`: served only when every served event has one. -/
def FullContext.attachEventReceipts (ctx : FullContext) (receipts : List (Option EventReceipt))
    (minting : Bool) : FullContext :=
  if !minting then ctx
  else
    let events := (ctx.lifecycleEvents.getD []).length
    if events = 0 ∨ ¬(receipts.length = events ∧ receipts.all Option.isSome) then
      { ctx with eventReceipts := none }
    else { ctx with eventReceipts := some (receipts.filterMap id) }

/-- `attach_events`: an empty history is left out. -/
def FullContext.attachEvents (ctx : FullContext) (slots : List EventSlot) (minting : Bool) :
    FullContext :=
  let events := slots.map Prod.fst
  FullContext.attachEventReceipts
    { ctx with lifecycleEvents := if events.isEmpty then none else some events }
    (slots.map fun s => s.2.intoOption) minting

/-- `project_context`. -/
def FullContext.project (ctx : FullContext) (now : ℤ) : FullContext :=
  { ctx with status := projectStatusInline ctx.status ctx.body.expiresAt now }

/-! ## Feed rows -/

def FeedAppend.derive (kind : ChangeKind) (ctxId lineageId agentId : String)
    (supersededBy : Option String) (event : Option Json) (receipt : Json) : FeedAppend where
  kind := kind
  ctxId := ctxId
  lineageId := lineageId
  agentId := agentId
  supersededBy := supersededBy
  event := event
  receipt := receipt
  lineageHash := api.bucketHash lineageId
  agentHash := api.bucketHash agentId

/-- `check_servable`: refuse a row the read path could not serve, or would serve in another
    bucket. -/
def checkServable (a : FeedAppend) : Except AcdpError Unit := do
  let change ← FeedRow.toChange api.changes { a with seq := 1, appendedAtMs := 0 }
  let bucketed (member served column hash : String) : Except AcdpError Unit :=
    if served ≠ column ∨ hash ≠ api.bucketHash served then
      let kind := a.kind.asStr
      let ctxId := a.ctxId
      let servedText := served.quote
      let columnText := column.quote
      .error (.registryInternal
        (s!"{kind} row for {ctxId} would serve {member} {servedText} but bucket {columnText} " ++
          "(RFC-ACDP-0018 §6.1)"))
    else .ok ()
  bucketed "lineage_id" change.lineageId a.lineageId a.lineageHash
  bucketed "agent_id" change.agentId a.agentId a.agentHash

/-- `lifecycle_append`: the row for an event just appended, or none without a receipt. -/
def lifecycleAppend (event : LifecycleEvent) (body : Body) :
    Option Json → Except AcdpError (Option FeedAppend)
  | none => .ok none
  | some receipt => do
    let value ← api.eventValue event
    let append := FeedAppend.derive api .lifecycle body.ctxId body.lineageId body.agentId none
      (some value) receipt
    checkServable api append
    return some append

structure Predecessor where
  ctxId : String
  agentId : String
  deriving DecidableEq, Repr

/-- `revoked_key_controller`: the declared controller, else the body's agent. -/
def revokedKeyController (body : Body) : Except AcdpError String :=
  match body.metadata.bind (·.get? "revoked_key_controller") with
  | none | some .null => .ok body.agentId
  | some (.string s) => api.changes.parseAgentDid s
  | some other =>
    let got := api.displayJson other
    .error (.schemaViolation s!"metadata.revoked_key_controller must be a DID string, got {got}")

/-- The `superseded` row of a publish with a predecessor. -/
def supersededAppend (body : Body) (receipt : Json) (prev : Predecessor) : FeedAppend :=
  FeedAppend.derive api .superseded prev.ctxId body.lineageId prev.agentId (some body.ctxId) none
    receipt

/-- `feed_appends_for_publish`: `superseded` for the predecessor, then `key_revocation`. -/
def feedAppendsForPublish (body : Body) (receipt : Option Json) (predecessor : Option Predecessor) :
    Except AcdpError (List FeedAppend) :=
  match receipt with
  | none => .ok []
  | some receipt => do
    let superseded := predecessor.toList.map (supersededAppend api body receipt)
    let revocation ←
      if body.contextType = .keyRevocation then
        pure [FeedAppend.derive api .keyRevocation body.ctxId body.lineageId
          (← revokedKeyController api body) none none receipt]
      else pure []
    let out := superseded ++ revocation
    out.forM (checkServable api)
    return out

end AcdpRegistry
