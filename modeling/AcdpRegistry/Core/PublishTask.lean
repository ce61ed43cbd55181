/-
  `publish_inner` as a task: where it awaits, what it hands to the blocking pool, and the
  guard that charges the publish to its agent.

  The pieces are those of `publishInner`.  The guard is created after the limiter's
  `peek`, armed once an identity proof has returned or the publish is accepted, and moves
  into the blocking pool with the work of three of the five branches.
-/
import AcdpRegistry.Core.Publish
import AcdpRegistry.Core.RateLimit
import AcdpRegistry.Lib.Task

namespace AcdpRegistry

open Lib

/-! ## State -/

/-- What a request works on: the tables and the limiter, which it shares with other requests, the
    clock, and its guard. -/
structure RequestState where
  db : Db
  limiter : Option AgentRateLimiter
  clock : ℤ
  charge : Option PublishCharge := none
  /-- An identity proof has returned `Ok` for the request. -/
  proven : Bool := false

namespace RequestState

variable (s : RequestState)

def newCharge (agentId : String) : RequestState := { s with charge := some ⟨agentId, false⟩ }

def arm : RequestState := { s with charge := s.charge.map PublishCharge.arm }

def prove : RequestState := { s with proven := true }

def release : RequestState :=
  { s with limiter := s.charge.elim s.limiter (·.drop s.clock s.limiter), charge := none }

/-- Other requests, and time, change anything but the request's own guard. -/
def Others (t : RequestState) : Prop := t.charge = s.charge ∧ t.proven = s.proven

/-- `peek` on every agent, as the limiter stands. -/
def peeking : Option (String → Option ℕ) :=
  s.limiter.map fun l agentId =>
    match l.peekAt agentId s.clock with
    | .ok () => none
    | .error retryAfter => some retryAfter

/-- The handler's view: its tables, and whether the publish will be charged. -/
def handler : HandlerState where
  db := s.db
  charged := s.charge.any (·.armed)

end RequestState

/-- The charge of a request as the guard of its task. -/
def chargeGuard : Guard RequestState (Option AgentRateLimiter) Bool where
  others := RequestState.Others
  release := RequestState.release
  part := RequestState.limiter
  mark := RequestState.proven
  gone s := s.charge = none
  others_refl _ := ⟨rfl, rfl⟩
  mark_others _ _ h := h.2
  mark_release _ := rfl
  gone_others _ _ h hs := h.1.trans hs
  gone_release _ := rfl
  part_release s hs := by simp [RequestState.release, hs]

abbrev RequestTask := Task RequestState RegistryError

abbrev RequestCode := Code RequestState RegistryError

/-- A call that runs a step of the handler. -/
def RequestState.serve {α : Type} (m : PublishHandler α) (s : RequestState) :
    Except RegistryError α × RequestState :=
  let r := m.exec s.handler
  (r.1, { s with db := r.2.db })

/-! ## Reply -/

def isVisible (c : Char) : Bool := (32 ≤ c.toNat && c.toNat < 127) || c = '\t'

/-- `HeaderValue::from_str`. -/
def headerValue (value : String) : Except String String :=
  if value.toList.all isVisible then .ok value else .error "failed to parse header value"

/-- `publish_reply`, with its `Location`. -/
def locatedReply (isReplay : Bool) (response : PublishResponse) : Except RegistryError PublishReply := do
  let _ ← (headerValue (locationFor response.ctxId)).mapError fun e =>
    .internal s!"publish Location header: {e}"
  return publishReply isReplay response

theorem forall_byte {P : UInt8 → Prop} (h : ∀ n : Fin 256, P (UInt8.ofNat n)) (b : UInt8) : P b := by
  simpa using h ⟨b.toNat, b.toNat_lt⟩

theorem visible_locationFor (ctxId : String) : (locationFor ctxId).toList.all isVisible = true := by
  have hpath : "/contexts/".toList.all isVisible = true := by decide +kernel
  rw [locationFor, String.toList_append, List.all_append, hpath, Bool.true_and, String.toList_ofList,
    List.all_flatMap]
  refine List.all_eq_true.2 fun b hb => ?_
  clear hb
  revert b
  refine forall_byte ?_
  decide +kernel

theorem locatedReply_eq (isReplay : Bool) (response : PublishResponse) :
    locatedReply isReplay response = .ok (publishReply isReplay response) := by
  rw [locatedReply, headerValue, if_pos (visible_locationFor response.ctxId)]
  rfl

/-! ## Branches -/

namespace PublishHandler

def checkFingerprint (proven : Proven) (expected : String) : Except RegistryError Unit :=
  match proven.keyFingerprint with
  | some fp =>
    if fp ≠ expected then
      .error (.internal (s!"the pinned fingerprint {fp} of the attested key is not the attestation's " ++
        s!"key_fingerprint {expected}"))
    else .ok ()
  | none => .ok ()

end PublishHandler

namespace PublishTask

open PublishHandler

variable (state : AppState) (draw : RequestDraw) (join : String) (req : PublishRequest)
  (key tenant : Option String)

def joinError : RegistryError := .internal s!"join: {join}"

/-- The budget test on the limiter as it stands. -/
def peek (agentId : String) (s : RequestState) : Except RegistryError Unit × RequestState :=
  (rateLimitPeek { state with rateLimiter := s.peeking } agentId, s)

/-- The end of a commit: its answer, or its error as the branch reports it. -/
def answer (wrap : AcdpError → RegistryError) (outcome : Except AcdpError PublishCommitOutcome) :
    Except RegistryError (Bool × PublishResponse) := (outcome.mapError wrap).map (·.split)

def proveCode (proof : Except AcdpError Proven) : RequestCode Proven := do
  let proven ← Code.compute (proof.mapError .acdp)
  Code.set RequestState.prove
  return proven

def commitCode (proven : Proven) (wrap : AcdpError → RegistryError) :
    RequestCode (Bool × PublishResponse) := do
  Code.set RequestState.arm
  let outcome ← Code.run (RequestState.serve (commitProven state draw req proven key tenant))
  Code.ofExcept (answer wrap outcome)

/-- The did:key branch and the pinned one. -/
def proveAndCommit (proof : Except AcdpError Proven) : RequestTask (Bool × PublishResponse) :=
  Task.spawnBlocking (joinError join) do
    let proven ← proveCode proof
    commitCode state draw req key tenant proven .acdp

def publishKeyless : RequestTask (Bool × PublishResponse) := do
  let attested ← Task.awaiting fun s => (checkKeylessPublish state draw req s.db, s)
  let pinned ← Task.compute (pinnedKeyB64 state.api attested.publicKeyJwk)
  Task.spawnBlocking (joinError join) do
    let proven ← proveCode (state.api.provePinned req pinned attested.algorithm)
    Code.ofExcept (checkFingerprint proven attested.keyFingerprint)
    commitCode state draw req key tenant proven (withKeylessReason state.api)

/-- The production branch: the proof resolves the producer's DID, the commit runs on the task. -/
def production : RequestTask (Bool × PublishResponse) := do
  let proven ← Task.awaiting fun s => ((state.api.prove req).mapError .acdp, s)
  Task.set RequestState.prove
  Task.set RequestState.arm
  let outcome ← Task.run (RequestState.serve (commitProven state draw req proven key tenant))
  Task.ofExcept (answer .acdp outcome)

/-- The lookup of the unpinned branch, for a request with a key. -/
def lookup : RequestTask (Option PublishResponse) :=
  match key with
  | none => pure none
  | some _ => Task.offloaded (joinError join) (RequestState.serve (unpinnedLookup draw req key))

def record (response : PublishResponse) : RequestTask Unit :=
  match key with
  | none => pure ()
  | some _ =>
    Task.offloaded (joinError join) (RequestState.serve (unpinnedRecord state draw req key response))

/-- The unpinned playground branch: nothing is proven, and only a reply arms the guard. -/
def unpinned : RequestTask BranchEnd := do
  match ← lookup draw join req key with
  | some response =>
    Task.set RequestState.arm
    return .answered (← Task.ofExcept (locatedReply true response))
  | none =>
    let response ← Task.offloaded (joinError join)
      (RequestState.serve (unpinnedCommit state draw req))
    record state draw join req key response
    return .joined false response

def branch : RequestTask BranchEnd := do
  if state.keyless && state.store.api.isKeylessKeyId req.signature.keyId then
    return joined (← publishKeyless state draw join req key tenant)
  else if "did:key:".toList.isPrefixOf req.agentId.toList then
    return joined (← proveAndCommit state draw join req key tenant (state.api.proveDidKey req))
  else if state.playground.enabled then
    match ← Task.compute (enforcePinnedSignature state.api state.playground req draw.unixSeconds) with
    | .verified publicKeyB64 algorithm =>
      let proof := state.api.provePinned req publicKeyB64 algorithm
      return joined (← proveAndCommit state draw join req key tenant proof)
    | _ => unpinned state draw join req (key.filter fun _ => state.supportsIdempotencyKey)
  else return joined (← production state draw req key tenant)

/-- The tenant stamp of a playground registry, then wake-ups, webhook and metrics as one step, and the
    reply. -/
def finish (isReplay : Bool) (response : PublishResponse) : RequestTask PublishReply := do
  if state.playground.enabled && tenant.isSome then
    Task.awaiting (RequestState.serve (stampTenant state tenant response.ctxId))
  Task.compute (.ok ())
  Task.set RequestState.arm
  Task.ofExcept (locatedReply isReplay response)

/-- The branches, and what follows them. -/
def reply : RequestTask PublishReply := do
  match ← branch state draw join req key tenant with
  | .answered reply => return reply
  | .joined isReplay response => finish state tenant isReplay response

end PublishTask

open PublishTask in
/-- `publish_inner`. -/
def publishTask (state : AppState) (headers : Headers) (peer : Option IpAddr)
    (body : Except String PublishRequest) (draw : RequestDraw) (join : String) :
    RequestTask PublishReply := do
  let req ← Task.compute (body.mapError fun e => .acdp (.schemaViolation e))
  Task.compute (versionGates state req)
  let key := idempotencyKeyOf headers
  Task.run (peek state req.agentId)
  Task.set (·.newCharge req.agentId)
  let tenant ← Task.compute (state.tenants.tenantForPublish headers req.agentId peer)
  reply state draw join req key tenant

end AcdpRegistry
