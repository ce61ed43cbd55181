/-
  `lifecycle_transition` (`acdp-registry-core/src/handlers/context.rs`) as a task.

  A retraction or republication passes the profile gate, its parsers, the limiter's `peek`
  on the event's actor and the tenant gate; then the actor's identity is proven, the guard
  armed, and the event committed.  For a did:key actor this is work of the blocking pool,
  and the guard is dropped as soon as the work hands it back.
-/
import AcdpRegistry.Core.PublishTask
import AcdpRegistry.Store.CommitLifecycle

namespace AcdpRegistry

open Lib PublishTask

inductive LifecycleEndpoint
  | retract
  | republish
  deriving DecidableEq, Repr

structure LifecycleApi where
  parseLifecycleRequest : Json → Except AcdpError LifecycleEvent
  /-- `CtxId::parse`. -/
  parseCtxId : String → Except AcdpError String
  /-- `prove_lifecycle_identity`, for a requester. -/
  prove : LifecycleEvent → LifecycleEndpoint → Option String → Db → Except AcdpError Unit
  proveDidKey : LifecycleEvent → LifecycleEndpoint → Option String → Db → Except AcdpError Unit
  /-- `validate_bearer`. -/
  validateBearer : String → Except RegistryError String

structure LifecycleServer where
  app : AppState
  api : LifecycleApi
  /-- `lifecycle.enabled`. -/
  enabled : Bool

def isReadToken (token : String) : Bool := "acdp_rt_".toList.isPrefixOf token.toList

/-- `commit_lifecycle_event` without a concurrent writer. -/
def SqlStore.commitLifecycleEvent (st : SqlStore) (event : LifecycleEvent) (draw : LifecycleDraw)
    (db : Db) : Except AcdpError LifecycleCommitOutcome × Db :=
  (SqlStore.lifecycleAnswer ((st.lifecycleTx event draw).run (fun _ => db) {}).1,
    Schedule.after (st.lifecycleTx event draw) db)

def LifecycleCommitOutcome.intoContext : LifecycleCommitOutcome → FullContext
  | .applied ctx | .idempotentReplay ctx => ctx

/-! ## Gates -/

def refuseKeylessEvent (state : AppState) (event : LifecycleEvent) : Except RegistryError Unit :=
  if !state.keyless then .ok ()
  else
    match event.signature with
    | some sig =>
      let keyId := sig.keyId
      if state.store.api.isKeylessKeyId keyId then
        .error (.withReason (.keyResolution (s!"lifecycle event signed with keyless key id '{keyId}': " ++
          "keyless keys do not sign RFC-ACDP-0013 events in this version (RFC-ACDP-0021 §6.3)"))
          "keyless_event_unsupported")
      else .ok ()
    | none => .ok ()

def checkPathCtx (event : LifecycleEvent) (pathCtx : String) : Except RegistryError Unit :=
  let ctxId := event.ctxId
  if ctxId ≠ pathCtx then
    .error (.acdp (.schemaViolation (s!"event.ctx_id '{ctxId}' does not match the request path ctx_id " ++
      s!"'{pathCtx}' (RFC-ACDP-0013 §6 step 2)")))
  else .ok ()

def checkTenant (requested stored : Option String) : Except RegistryError Unit :=
  match requested with
  | some tenant =>
    if stored.getD "default" ≠ tenant then .error (.acdp (.notFound "context not found")) else .ok ()
  | none => .ok ()

def LifecycleServer.callerFromHeaders (server : LifecycleServer) (headers : Headers) :
    Except RegistryError (Option String) :=
  if !server.app.tenants.authEnabled then .ok none
  else
    match headers.authorization.bind extractBearer with
    | none => .ok none
    | some token =>
      if isReadToken token then
        .error (.authToken "a bearer_static read token cannot authorize this operation")
      else (server.api.validateBearer token).map some

/-! ## The handler -/

namespace LifecycleTask

variable (server : LifecycleServer) (event : LifecycleEvent) (draw : LifecycleDraw)

/-- `commit_lifecycle_proven`, whose error is the caller's to report. -/
def commitProven (s : RequestState) :
    Except RegistryError (Except AcdpError LifecycleCommitOutcome) × RequestState :=
  let done := server.app.store.commitLifecycleEvent event draw s.db
  (.ok done.1, { s with db := done.2 })

def didKeyCode (endpoint : LifecycleEndpoint) (requester : Option String) :
    RequestCode (Except AcdpError LifecycleCommitOutcome) := do
  match ← Code.run fun s => (.ok (server.api.proveDidKey event endpoint requester s.db), s) with
  | .error e => return .error e
  | .ok () =>
    Code.set RequestState.prove
    Code.set RequestState.arm
    Code.run (commitProven server event draw)

/-- The answer; wake-ups and the webhook are one step here. -/
def finish (outcome : Except AcdpError LifecycleCommitOutcome) : RequestTask FullContext := do
  let outcome ← Task.ofExcept (outcome.mapError .acdp)
  Task.compute (.ok ())
  return outcome.intoContext

def pipeline (endpoint : LifecycleEndpoint) (requester : Option String) (join : String) :
    RequestTask FullContext :=
  if "did:key:".toList.isPrefixOf event.actor.toList then do
    let outcome ← Task.spawnBlocking (joinError join) (didKeyCode server event draw endpoint requester)
    Task.discard (finish outcome)
  else do
    Task.awaiting fun s => ((server.api.prove event endpoint requester s.db).mapError .acdp, s)
    Task.set RequestState.prove
    Task.set RequestState.arm
    finish (← Task.run (commitProven server event draw))

end LifecycleTask

open LifecycleTask in
/-- `lifecycle_transition`, for a body that is JSON or is not. -/
def lifecycleTask (server : LifecycleServer) (headers : Headers) (peer : Option IpAddr) (ctxId : String)
    (body : Except String Json) (eventType : LifecycleEventType) (draw : LifecycleDraw) (join : String) :
    RequestTask FullContext := do
  Task.compute (ensure server.enabled (.acdp (.notImplemented
    ("this registry does not advertise acdp-registry-lifecycle " ++
      "(RFC-ACDP-0013 §6: lifecycle endpoints are not implemented)"))))
  let raw ← Task.compute (body.mapError fun e => .acdp (.schemaViolation e))
  let event ← Task.compute ((server.api.parseLifecycleRequest raw).mapError .acdp)
  Task.compute (refuseKeylessEvent server.app event)
  let pathCtx ← Task.compute ((server.api.parseCtxId ctxId).mapError .acdp)
  Task.compute (checkPathCtx event pathCtx)
  Task.run (peek server.app event.actor)
  Task.set (·.newCharge event.actor)
  let requested ← Task.compute (server.app.tenants.tenantForRequest headers peer)
  let stored ← Task.awaiting fun s => (.ok ((s.db.context? pathCtx).map (·.tenantId)), s)
  Task.compute (checkTenant requested stored)
  let requester ← Task.compute (server.callerFromHeaders headers)
  let endpoint : LifecycleEndpoint :=
    match eventType with
    | .retracted => .retract
    | _ => .republish
  pipeline server event draw endpoint requester join

end AcdpRegistry
