/-
  The tables of the SQL backends and the statements that read and write them.

  A `Db` is a committed state.  Rows are kept in the order they were inserted.
  A `Part` is what a lock can be taken on: one context with its events, one
  idempotency key, one token hash, the log, or the feed.  The two backends differ
  in the locks their statements take, which is what `Dialect` holds:

  - SQLite begins with `BEGIN IMMEDIATE`, which locks the whole database;
  - Postgres locks rows (`FOR UPDATE`, updates, inserts under a unique key) and
    takes advisory locks for the log and the feed.
-/
import AcdpRegistry.Store.KeyAttestations
import AcdpRegistry.Store.Lifecycle
import AcdpRegistry.Lib.Schedule

namespace AcdpRegistry

open Lib

/-! ## Tables -/

/-- A `contexts` row.  The other columns are copies of the body's members. -/
structure ContextRow where
  body : Body
  /-- Tracks supersession only. -/
  status : Status
  retracted : Bool := false
  tenantId : String
  receipt : Option Json

structure IdempotencyRecord where
  agentId : String
  key : String
  contentHash : String
  response : PublishResponse
  expiresAt : ℤ

structure LogLeafRow where
  leafIndex : ℕ
  ctxId : String
  leafJson : String
  leafHash : String
  deriving DecidableEq, Repr

structure LifecycleEventRow where
  event : LifecycleEvent
  tenantId : String
  receipt : Option Json

structure Db where
  contexts : List ContextRow := []
  idempotency : List IdempotencyRecord := []
  keyAttestations : List KeyAttestationIndexRow := []
  logLeaves : List LogLeafRow := []
  lifecycleEvents : List LifecycleEventRow := []
  feed : FeedStore := .empty

inductive Part
  | context (ctxId : String)
  | idempotency (agentId key : String)
  | token (hash : String)
  | log
  | feed
  deriving DecidableEq, Repr

namespace Db

variable (db : Db)

/-! ## Queries -/

def context? (ctxId : String) : Option ContextRow := db.contexts.find? (·.body.ctxId = ctxId)

def idempotency? (agentId key : String) : Option IdempotencyRecord :=
  db.idempotency.find? fun r => r.agentId = agentId ∧ r.key = key

def events (ctxId : String) : List LifecycleEventRow :=
  db.lifecycleEvents.filter (·.event.ctxId = ctxId)

def lineageRows (lineageId : String) : List ContextRow :=
  db.contexts.filter (·.body.lineageId = lineageId)

/-- `ORDER BY version ASC, created_at ASC`. -/
def rowLe (a b : ContextRow) : Bool :=
  a.body.version < b.body.version ||
    (a.body.version = b.body.version && a.body.createdAt ≤ b.body.createdAt)

/-- `ORDER BY version ASC, created_at ASC LIMIT 1`. -/
def firstOfLineage (lineageId : String) : Option ContextRow :=
  match db.lineageRows lineageId with
  | [] => none
  | r :: rs => some (rs.foldl (fun best r => if rowLe best r then best else r) r)

/-- The attestation at `ctxId` joined to its context. -/
def attestation? (ctxId : String) : Option SuccessorAttestation := do
  let row ← db.keyAttestations.find? (·.ctxId = ctxId)
  let ctx ← db.context? ctxId
  return ⟨row, ctx.retracted⟩

/-! ## Writes -/

variable (rows : List ContextRow)

variable (ctxId : String)

/-- `UPDATE contexts SET ... WHERE ctx_id = ...`. -/
def update (f : ContextRow → ContextRow) :
    List ContextRow :=
  rows.map fun r => if r.body.ctxId = ctxId then f r else r

/-- `UPDATE contexts SET status = 'superseded'`. -/
def supersede : List ContextRow :=
  update rows ctxId fun r => { r with status := .superseded }

/-- `UPDATE contexts SET retracted = ...`. -/
def setRetracted (b : Bool) : List ContextRow :=
  update rows ctxId fun r => { r with retracted := b }

theorem map_body_update {rows : List ContextRow} {ctxId : String} {f : ContextRow → ContextRow}
    (hf : ∀ r, (f r).body = r.body) : (update rows ctxId f).map (·.body) = rows.map (·.body) := by
  simp only [update, List.map_map]
  refine List.map_congr_left fun r _ => ?_
  simp only [Function.comp_apply]
  split
  · exact hf r
  · rfl

@[simp] theorem map_body_supersede :
    (supersede rows ctxId).map (·.body) = rows.map (·.body) := map_body_update fun _ => rfl

@[simp] theorem map_body_setRetracted (b : Bool) :
    (setRetracted rows ctxId b).map (·.body) = rows.map (·.body) := map_body_update fun _ => rfl

theorem find?_update {rows : List ContextRow} {ctxId : String} {f : ContextRow → ContextRow}
    (hf : ∀ r, (f r).body = r.body) (c : String) :
    (update rows ctxId f).find? (·.body.ctxId = c) =
      (rows.find? (·.body.ctxId = c)).map fun r => if r.body.ctxId = ctxId then f r else r := by
  rw [update, List.find?_map]
  congr 2
  funext row
  simp only [Function.comp_apply]
  split
  · rw [hf]
  · rfl

/-- A record that the `DELETE` of expired records of one key matches. -/
def expiredAt (agentId key : String) (cutoff : ℤ) (r : IdempotencyRecord) : Bool :=
  r.agentId = agentId && r.key = key && r.expiresAt ≤ cutoff

/-- `UPDATE lifecycle_events SET receipt = ... AND receipt IS NULL`. -/
def fillReceipt (rows : List LifecycleEventRow) (ctxId eventId : String) (receipt : Json) :
    List LifecycleEventRow :=
  rows.map fun r =>
    if r.event.ctxId = ctxId ∧ r.event.eventId = eventId ∧ r.receipt.isNone then
      { r with receipt := some receipt }
    else r

/-- The feed rows of one transaction, each with the positions its insert skips and its clock. -/
def appendFeed (feed : FeedStore) (rows : List (FeedAppend × ℕ × ℤ)) : FeedStore :=
  rows.foldl (fun f r => f.append r.2.1 r.1 r.2.2) feed

/-! ## Parts -/

abbrev PartValue : Part → Type
  | .context _ => Option ContextRow × List LifecycleEventRow
  | .idempotency _ _ => List IdempotencyRecord
  | .token _ => List KeyAttestationIndexRow
  | .log => List LogLeafRow
  | .feed => FeedStore

def part : (r : Part) → Db → PartValue r
  | .context ctxId, db => (db.context? ctxId, db.events ctxId)
  | .idempotency agentId key, db => db.idempotency.filter fun r => r.agentId = agentId ∧ r.key = key
  | .token hash, db => db.keyAttestations.filter (·.tokenHash = hash)
  | .log, db => db.logLeaves
  | .feed, db => db.feed

end Db

/-! ## Backends -/

inductive Dialect
  | sqlite
  | postgres
  deriving DecidableEq, Repr

namespace Dialect

/-- The locks of the statement that begins a transaction. -/
def beginLocks : Dialect → List (Lock Part)
  | sqlite => [.whole]
  | postgres => []

/-- `FOR UPDATE`, or the row lock of a write; SQLite has its write lock already. -/
def rowLock : Dialect → Part → List (Lock Part)
  | sqlite, _ => []
  | postgres, r => [.part r]

/-- How a backend keeps an instant: SQLite in milliseconds, Postgres in microseconds. -/
def stamp : Dialect → ℤ → ℤ
  | sqlite, t => t / 10 ^ 6 * 10 ^ 6
  | postgres, t => t / 10 ^ 3 * 10 ^ 3

theorem stamp_le (d : Dialect) (t : ℤ) : d.stamp t ≤ t := by
  cases d <;> simp only [stamp] <;> omega

theorem stamp_mono (d : Dialect) {t t' : ℤ} (h : t ≤ t') : d.stamp t ≤ d.stamp t' := by
  cases d <;> simp only [stamp] <;> omega

theorem stamp_stamp (d : Dialect) (t : ℤ) : d.stamp (d.stamp t) = d.stamp t := by
  cases d <;> simp [stamp]

/-- `map_sqlx_err`, with the driver's text. -/
def sqlxError (d : Dialect) (text : String) : AcdpError :=
  match d with
  | sqlite => .registryInternal s!"sqlite: {text}"
  | postgres => .registryInternal s!"postgres: {text}"

end Dialect

end AcdpRegistry
