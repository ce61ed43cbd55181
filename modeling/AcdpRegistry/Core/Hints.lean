/-
  Change-hint delivery (`acdp-registry-core/src/hints.rs`) and the creation of a
  subscription (`handlers/subscriptions.rs`).

  A claim batch, an attempt and a request are programs of store actions; appends to
  the feed and prunes come between them.  The tasks a batch spawns are kept in
  `running`, where the attempts find them; a task that fails or overruns its bound is
  one that makes no further action.  `delivered` and `scans` record what the workers
  have done: the hints a receiver answered with 2xx, and the scans that found nothing
  for the owner, with the snapshots they read.
-/
import AcdpRegistry.Core.Subscriptions
import AcdpRegistry.Store.FeedHistory
import AcdpRegistry.Lib.Rely

namespace AcdpRegistry

open Lib

/-! ## Hints -/

/-- `ChangeHint`; the cursor is what its text names. -/
structure ChangeHint where
  subscriptionId : String
  registryAuthority : String
  cursor : DecodedCursor
  deriving DecidableEq, Repr

inductive SealError
  | unknownKey
  | corrupt
  | rng
  deriving DecidableEq, Repr

inductive Delivery
  | delivered
  | failed (why : String)
  | refused (why : String)
  deriving DecidableEq, Repr

inductive HintOutcome
  | delivered
  | nothingVisible
  | failed
  | ssrfRefused
  | unknownKey
  | disabled
  | leaseLost
  deriving DecidableEq, Repr

def claimBatch : ℕ := 32

def leaseMs : ℤ := 60000

def retryBaseMs : ℤ := 60000

def retryCapMs : ℤ := 3600000

def disableAfterMs : ℤ := 72 * 3600000

def hintMinIntervalMs : ℤ := 1000

def retryDelayMs (attempts : ℕ) : ℤ := min (retryBaseMs * 2 ^ min (attempts - 1) 16) retryCapMs

def failedLongEnough (failingSinceMs nowMs : ℤ) : Bool := disableAfterMs ≤ nowMs - failingSinceMs

/-- A failed attempt's progress: backed off, or disabled. -/
def retryOrDisable (sub : SubscriptionRecord) (nowMs : ℤ) : SubscriptionProgress :=
  let failingSince := sub.failingSinceMs.getD nowMs
  let attempts := min (sub.attempts + 1) (2 ^ 32 - 1)
  if failedLongEnough failingSince nowMs then .disabled sub nowMs
  else ⟨sub.lastHintedSeq, .active, nowMs + retryDelayMs attempts, some failingSince, attempts⟩

theorem retryOrDisable_last (sub : SubscriptionRecord) (nowMs : ℤ) :
    (retryOrDisable sub nowMs).lastHintedSeq = sub.lastHintedSeq := by
  unfold retryOrDisable
  dsimp only
  split <;> rfl

theorem le_retryOrDisable_next (sub : SubscriptionRecord) (nowMs : ℤ) :
    nowMs ≤ (retryOrDisable sub nowMs).nextAttemptAtMs := by
  simp only [retryOrDisable]
  split
  · exact le_rfl
  · refine le_add_of_nonneg_right ?_
    unfold retryDelayMs retryBaseMs retryCapMs
    positivity

def failedOutcome (p : SubscriptionProgress) (o : HintOutcome) : HintOutcome :=
  if p.status = .disabled then .disabled else o

/-- `hint_authority`: without its port. -/
def hintAuthority (authority : String) : String :=
  match authority.toList.splitOn ':' with
  | [host, port] => if port.all Char.isDigit then String.ofList host else authority
  | _ => authority

/-! ## The system -/

/-- A scan of the feed on behalf of a subscription that found nothing to hint. -/
structure ScanNote where
  subscriptionId : String
  env : ChangesEnv
  after : ℕ
  upTo : ℕ
  reads : ℕ → FeedHistory

/-- The feed, the subscriptions and the tasks of the batches.  `created` holds every subscription as it
    was created. -/
structure HintSystem (ι : Type) where
  feed : FeedHistory
  subs : Subscriptions := []
  running : ι → ℕ → Option SubscriptionRecord := fun _ _ => none
  created : String → Option NewSubscription := fun _ => none
  delivered : List ChangeHint := []
  scans : List ScanNote := []

structure HintWorker where
  sha256 : Sha256
  requireTenant : Bool
  authority : String
  parseAgentDid : String → Except AcdpError String
  openSecret : (subscriptionId : String) → (keyId : ℕ) → (sealed : List UInt8) → Except SealError String
  /-- `serde_json::to_vec`. -/
  hintBody : ChangeHint → Except String (List UInt8)
  signHint : (secret : String) → (t : ℤ) → (body : List UInt8) → String

/-- What an attempt draws from outside: the owner's view, its clock readings, and what comes of the
    delivery. -/
structure HintDraw where
  env : (owner : String) → (tenant : Option String) → ChangesEnv
  startMs : ℤ
  signMs : ℤ
  endMs : ℤ
  deliver : (url : String) → (body : List UInt8) → (signature : String) → Delivery

section

variable {ι : Type} [DecidableEq ι]

abbrev HintProc (ι : Type) := Proc (HintSystem ι) RegistryError

namespace HintSystem

def claim (batch : ι) (nowMs : ℤ) (head : ℕ) (locked : String → Bool) (s : HintSystem ι) :
    List SubscriptionRecord × HintSystem ι :=
  let r := s.subs.claimDue nowMs head (nowMs + leaseMs) claimBatch locked
  (r.1, { s with subs := r.2, running := Function.update s.running batch fun k => r.1[k]? })

/-- The end of a task: the conditional write of its progress. -/
def finish (batch : ι) (k : ℕ) (id : String) (lease : ℤ) (p : SubscriptionProgress)
    (scan : Option ScanNote) (s : HintSystem ι) : Bool × HintSystem ι :=
  let r := s.subs.finishAttempt id lease p
  (r.1, { s with
    subs := r.2
    running := Function.update s.running batch (Function.update (s.running batch) k none)
    scans := s.scans ++ scan.toList })

def receive (hint : ChangeHint) (d : Delivery) (s : HintSystem ι) : Delivery × HintSystem ι :=
  (d, if d = .delivered then { s with delivered := s.delivered ++ [hint] } else s)

def insert (new : NewSubscription) (maxPerOwner : ℕ) (s : HintSystem ι) :
    Except AcdpError CreateSubscriptionOutcome × HintSystem ι :=
  let r := s.subs.create new maxPerOwner
  (r.1, { s with
    subs := r.2
    created := if r.1 = .ok .created
      then Function.update s.created new.subscriptionId (some new) else s.created })

end HintSystem

/-! ## One subscription's turn -/

def snapshots : ℕ → HintProc ι (ℕ → FeedHistory)
  | 0 => do
    let f ← .read HintSystem.feed
    return fun _ => f
  | n + 1 => do
    let f ← .read HintSystem.feed
    let rest ← snapshots n
    return fun k => match k with
      | 0 => f
      | k + 1 => rest k

/-- `evaluate_changes` of one entry past the subscription's position, or of the oldest one if that was
    pruned, with its snapshots. -/
def evaluateHint (env : ChangesEnv) (sub : SubscriptionRecord) :
    HintProc ι (ChangesResponse × (ℕ → FeedHistory)) := do
  let reads ← snapshots 7
  match evaluateChanges env (fun k => (reads k).store)
      ⟨.position sub.lastHintedSeq, 1, sub.filter⟩ with
  | .ok (resp, _) => return (resp, reads)
  | .error (.acdp .cursorExpired) =>
    let reads ← snapshots 7
    let (resp, _) ← .lift (evaluateChanges env (fun k => (reads k).store) ⟨.oldest, 1, sub.filter⟩)
    return (resp, reads)
  | .error e => .fail e

/-- The end of an attempt: its outcome, if the lease was kept. -/
def finishTask (batch : ι) (k : ℕ) (sub : SubscriptionRecord) (draw : HintDraw)
    (p : SubscriptionProgress) (scan : Option ScanNote) (o : HintOutcome) : HintProc ι HintOutcome :=
  let lease := sub.leaseUntilMs.getD (draw.startMs + leaseMs)
  .act Bool (HintSystem.finish batch k sub.subscriptionId lease p scan) fun kept =>
    .ret (if kept then o else .leaseLost)

variable (w : HintWorker)

/-- The signed hint for everything up to the head `feed`, its delivery, and what follows from it. -/
def deliverHint (batch : ι) (k : ℕ) (sub : SubscriptionRecord) (draw : HintDraw) (feed : FeedHead)
    (secret : String) : HintProc ι HintOutcome := do
  let hint : ChangeHint := ⟨sub.subscriptionId, hintAuthority w.authority, headCursor feed⟩
  let body ← .lift ((w.hintBody hint).mapError fun e => .internal s!"change hint: {e}")
  let signature := w.signHint secret (draw.signMs / 1000) body
  let delivery ← .act Delivery
    (HintSystem.receive hint (draw.deliver sub.callbackUrl body signature)) .ret
  match delivery with
  | .delivered =>
    finishTask batch k sub draw (.healthy feed.head (draw.endMs + hintMinIntervalMs)) none .delivered
  | .failed _ =>
    let p := retryOrDisable sub draw.endMs
    finishTask batch k sub draw p none (failedOutcome p .failed)
  | .refused _ =>
    let p := retryOrDisable sub draw.endMs
    finishTask batch k sub draw p none (failedOutcome p .ssrfRefused)

def hintOne (batch : ι) (k : ℕ) (sub : SubscriptionRecord) (draw : HintDraw) :
    HintProc ι HintOutcome :=
  match w.parseAgentDid sub.ownerDid with
  | .error _ => finishTask batch k sub draw (.disabled sub draw.startMs) none .disabled
  | .ok owner =>
    if w.requireTenant && sub.tenantId.isNone then
      finishTask batch k sub draw (.disabled sub draw.startMs) none .disabled
    else do
      let env := draw.env owner sub.tenantId
      let feed ← .read fun s => s.feed.store.readHead w.sha256
      let (resp, reads) ← evaluateHint env sub
      if resp.changes.isEmpty then
        finishTask batch k sub draw (.healthy resp.nextCursor.pos draw.startMs)
          (some ⟨sub.subscriptionId, env, sub.lastHintedSeq, resp.nextCursor.pos, reads⟩) .nothingVisible
      else
        match w.openSecret sub.subscriptionId sub.secretKeyId sub.secretCt with
        | .ok secret => deliverHint w batch k sub draw feed secret
        | .error .unknownKey =>
          let p := retryOrDisable sub draw.startMs
          finishTask batch k sub draw p none (failedOutcome p .unknownKey)
        | .error _ => finishTask batch k sub draw (.disabled sub draw.startMs) none .disabled

/-! ## Calls side by side -/

/-- The requests on subscriptions, and the claim batches of the hint workers. -/
inductive HintCall
  | create (new : NewSubscription) (maxPerOwner : ℕ)
  | delete (ownerDid id : String)
  | batch (nowMs : ℤ) (locked : String → Bool)

/-- `create`, from its read of the head on. -/
def createSubscription (new : NewSubscription) (maxPerOwner : ℕ) : HintProc ι Unit := do
  let feed ← .read fun s => s.feed.store.readHead w.sha256
  let outcome ← .act _ (HintSystem.insert { new with lastHintedSeq := feed.head } maxPerOwner) .ret
  match outcome with
  | .ok .created => return ()
  | .ok .limitReached => .fail (.fieldViolation "limits.max_subscriptions_per_requester"
      (s!"the requester already holds limits.max_subscriptions_per_requester ({maxPerOwner}) " ++
        "subscriptions (RFC-ACDP-0018 §8.1)"))
  | .error e => .fail (.acdp e)

/-- A call, or an attempt at the `k`-th task of a batch. -/
inductive HintTask (ι : Type)
  | call (i : ι)
  | attempt (batch : ι) (k : ℕ)
  deriving DecidableEq

def HintCall.proc (i : ι) : HintCall → HintProc ι Unit
  | .create new maxPerOwner => createSubscription w new maxPerOwner
  | .delete ownerDid id =>
    .act Bool (fun s => ((s.subs.delete ownerDid id).1, { s with subs := (s.subs.delete ownerDid id).2 }))
      fun found => if found then .ret () else .fail (.acdp (.notFound "subscription not found"))
  | .batch nowMs locked => do
    let feed ← .read fun s => s.feed.store.readHead w.sha256
    .act _ (HintSystem.claim i nowMs feed.head locked) fun _ => .ret ()

/-- The program of a task: nothing until its batch has claimed one. -/
def attemptProc (draws : ι → ℕ → HintDraw) (batch : ι) (k : ℕ) : HintProc ι Unit := do
  let task ← .read fun s => s.running batch k
  match task with
  | none => return ()
  | some sub => do
    let _ ← hintOne w batch k sub (draws batch k)
    return ()

/-- What happens next: an action of a call or an attempt, an append to the feed, or a prune. -/
inductive HintMove (ι : Type)
  | task (t : HintTask ι)
  | append (gap : ℕ) (a : FeedAppend) (nowMs : ℤ)
  | prune (olderThanMs : ℤ) (batch : ℕ)

def HintMove.move (sha256 : Sha256) : HintMove ι → Move (HintTask ι) (HintSystem ι)
  | .task t => .proc t
  | .append gap a nowMs => .env fun s => { s with feed := s.feed.append gap a nowMs }
  | .prune olderThanMs batch => .env fun s => { s with feed := s.feed.prune sha256 olderThanMs batch }

/-- All calls and attempts, from a feed without subscriptions. -/
def hintPool (feed : FeedHistory) (calls : ι → HintCall) (draws : ι → ℕ → HintDraw) :
    Pool (HintTask ι) (HintSystem ι) RegistryError Unit where
  state := { feed }
  procs
    | .call i => (calls i).proc w i
    | .attempt batch k => attemptProc w draws batch k

/-- The system after the first `n` moves. -/
def hintRun (feed : FeedHistory) (calls : ι → HintCall) (draws : ι → ℕ → HintDraw)
    (moves : ℕ → HintMove ι) (n : ℕ) : HintSystem ι :=
  ((hintPool w feed calls draws).run (fun n => (moves n).move w.sha256) n).state

end

end AcdpRegistry
