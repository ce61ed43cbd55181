/-
  Webhook delivery.

  Handlers put events into a bounded queue and never wait; one worker takes them out in
  order and posts each until the receiver answers for good or the attempts are used up.
  The step function follows the worker from one await to the next.  `WebhookInv` keeps what
  was posted as runs of one request for each delivery that was taken.
-/
import AcdpRegistry.Core.ClientIp
import AcdpRegistry.Store.SearchCursor

namespace AcdpRegistry

variable {ε : Type}

/-! ## The worker -/

structure WebhookConfig where
  enabled : Bool
  url : String
  secret : String
  maxRetries : ℕ
  queueCapacity : ℕ

inductive WebhookError
  | encode (text : String)
  | config (text : String)

/-- What delivery takes from other crates; `hmacHex` is the hexadecimal text of the HMAC. -/
structure WebhookApi (ε : Type) where
  name : ε → String
  /-- The bytes of an envelope: the event's id, the schema version and the event. -/
  envelope : String → String → ε → Except String (List UInt8)
  hmacHex : List UInt8 → List UInt8 → String
  checkUrl : String → Except String Unit

/-- A queued event; its id is drawn once. -/
structure WebhookDelivery (ε : Type) where
  eventId : String
  event : ε
  tenantId : Option String

/-- One request, as it is sent. -/
structure WebhookPost where
  url : String
  signature : String
  eventName : String
  eventId : String
  timestamp : ℤ
  timestampedSignature : String
  tenantId : Option String
  body : List UInt8

def webhookSchemaVersion : String := "1.0"

def WebhookApi.sign (api : WebhookApi ε) (secret : String) (body : List UInt8) : String :=
  "sha256=" ++ api.hmacHex (utf8 secret) body

def WebhookApi.signWithTimestamp (api : WebhookApi ε) (secret : String) (timestamp : ℤ)
    (body : List UInt8) : String :=
  "sha256=" ++ api.hmacHex (utf8 secret) (utf8 (toString timestamp) ++ 46 :: body)

namespace WebhookConfig

variable (cfg : WebhookConfig) (api : WebhookApi ε)

def active : Bool := cfg.enabled && !cfg.url.isEmpty

/-- The attempts at one delivery. -/
def limit : ℕ := max 1 cfg.maxRetries

/-- The start of `deliver`: the request that all its attempts send. -/
def post (d : WebhookDelivery ε) (sentAt : ℤ) : Except WebhookError WebhookPost := do
  let body ← (api.envelope d.eventId webhookSchemaVersion d.event).mapError .encode
  return {
    url := cfg.url, signature := api.sign cfg.secret body, eventName := api.name d.event
    eventId := d.eventId, timestamp := sentAt
    timestampedSignature := api.signWithTimestamp cfg.secret sentAt body
    tenantId := d.tenantId, body }

/-- What is sent for a delivery: nothing if the webhook is off or the event cannot be encoded. -/
def request (d : WebhookDelivery ε) (sentAt : ℤ) : Option WebhookPost :=
  if cfg.active then (cfg.post api d sentAt).toOption else none

end WebhookConfig

/-- Where the worker is; waits are in milliseconds. -/
inductive WebhookPhase
  | starting
  | stopped
  | receiving
  | posting (post : WebhookPost) (attempt backoff : ℕ)
  | sleeping (post : WebhookPost) (attempt backoff : ℕ)

/-- The request in hand, the attempts at it and the next wait. -/
def WebhookPhase.inHand : WebhookPhase → Option (WebhookPost × ℕ × ℕ)
  | .posting p attempt backoff | .sleeping p attempt backoff => some (p, attempt, backoff)
  | _ => none

/-- The queue and the worker, with the deliveries that `try_send` took and the requests sent so far. -/
structure Webhook (ε : Type) where
  queue : List (WebhookDelivery ε) := []
  phase : WebhookPhase := .starting
  accepted : List (WebhookDelivery ε) := []
  posts : List WebhookPost := []

/-- What happens next; a response without a status is a transport error. -/
inductive WebhookMove (ε : Type)
  | emit (d : WebhookDelivery ε)
  | clientBuilt (ok : Bool)
  | receive (sentAt : ℤ)
  | respond (status : Option ℕ)
  | wake

namespace Webhook

variable (cfg : WebhookConfig) (api : WebhookApi ε)

def trySpawn : Except WebhookError (Webhook ε) := do
  if cfg.active then
    (api.checkUrl cfg.url).mapError fun e =>
      .config s!"webhook.url '{cfg.url}' rejected by SSRF policy: {e}"
    if (trimWhitespace cfg.secret).isEmpty then
      throw (.config ("webhook.secret must be non-empty when webhook.enabled and webhook.url " ++
        "are set; HMAC over an empty key accepts every signature"))
  return {}

variable (s : Webhook ε)

/-- `emit_with_tenant`: a full queue, or one whose worker is gone, drops the event. -/
def emit (d : WebhookDelivery ε) : Webhook ε :=
  match s.phase with
  | .stopped => s
  | _ => if s.queue.length < max 1 cfg.queueCapacity then
      { s with queue := s.queue ++ [d], accepted := s.accepted ++ [d] } else s

def queueStatus : ℕ × ℕ := (s.queue.length, max 1 cfg.queueCapacity)

/-- The worker takes a delivery and makes its first attempt. -/
def take (d : WebhookDelivery ε) (queue : List (WebhookDelivery ε)) (sentAt : ℤ) : Webhook ε :=
  match cfg.request api d sentAt with
  | some p => { s with queue, phase := .posting p 1 250, posts := s.posts ++ [p] }
  | none => { s with queue }

/-- After an attempt: done on success or a client error other than 429, or with no attempt left. -/
def respond (p : WebhookPost) (attempt backoff : ℕ) (status : Option ℕ) : WebhookPhase :=
  if status.any (fun c => 200 ≤ c ∧ c < 300 ∨ 400 ≤ c ∧ c < 500 ∧ c ≠ 429) ∨ cfg.maxRetries ≤ attempt then
    .receiving
  else .sleeping p attempt backoff

/-- `worker` and `deliver`, from one await to the next.  What cannot happen changes nothing. -/
def step : WebhookMove ε → Webhook ε
  | .emit d => s.emit cfg d
  | .clientBuilt ok =>
    match s.phase with
    | .starting => if ok then { s with phase := .receiving } else { s with phase := .stopped, queue := [] }
    | _ => s
  | .receive sentAt =>
    match s.phase, s.queue with
    | .receiving, d :: queue => s.take cfg api d queue sentAt
    | _, _ => s
  | .respond status =>
    match s.phase with
    | .posting p attempt backoff => { s with phase := respond cfg p attempt backoff status }
    | _ => s
  | .wake =>
    match s.phase with
    | .sleeping p attempt backoff =>
      { s with phase := .posting p (attempt + 1) (min (backoff * 2) 15000), posts := s.posts ++ [p] }
    | _ => s

def run (moves : List (WebhookMove ε)) : Webhook ε := moves.foldl (fun s => s.step cfg api) s

end Webhook

/-! ## Every run -/

section Runs

variable {cfg : WebhookConfig} {api : WebhookApi ε} {s : Webhook ε}
  {runs : List (WebhookDelivery ε × List WebhookPost)}

/-- The requests sent for a delivery: one request, if there is any, as often as it was tried. -/
def SentFor (cfg : WebhookConfig) (api : WebhookApi ε) (r : WebhookDelivery ε × List WebhookPost) : Prop :=
  ∃ sentAt n, 1 ≤ n ∧ n ≤ cfg.limit ∧ r.2 = (List.replicate n (cfg.request api r.1 sentAt)).reduceOption

/-- The last run is that of the request in hand. -/
structure InHand (cfg : WebhookConfig) (api : WebhookApi ε)
    (runs : List (WebhookDelivery ε × List WebhookPost)) (p : WebhookPost) (attempt backoff : ℕ) : Prop where
  last : ∃ before d sentAt, runs = before ++ [(d, List.replicate attempt p)] ∧
    cfg.request api d sentAt = some p
  pos : 1 ≤ attempt
  backoff : backoff = min (250 * 2 ^ (attempt - 1)) 15000

/-- What holds after any moves; `runs` are the deliveries that the worker took, with their requests. -/
structure WebhookInv (cfg : WebhookConfig) (api : WebhookApi ε) (s : Webhook ε)
    (runs : List (WebhookDelivery ε × List WebhookPost)) : Prop where
  bound : s.queue.length ≤ max 1 cfg.queueCapacity
  posts : s.posts = runs.flatMap Prod.snd
  accepted : s.phase ≠ .stopped → s.accepted = runs.map Prod.fst ++ s.queue
  idle : s.phase = .starting ∨ s.phase = .stopped → runs = []
  sent : ∀ r ∈ runs, SentFor cfg api r
  inHand : ∀ p k b, s.phase.inHand = some (p, k, b) → InHand cfg api runs p k b
  sleeping : ∀ p k b, s.phase = .sleeping p k b → k < cfg.maxRetries

theorem sentFor_replicate {d : WebhookDelivery ε} {p : WebhookPost} {sentAt : ℤ} {n : ℕ}
    (hp : cfg.request api d sentAt = some p) (hpos : 1 ≤ n) (hle : n ≤ cfg.limit) :
    SentFor cfg api (d, List.replicate n p) :=
  ⟨sentAt, n, hpos, hle, by
    rw [hp]
    exact (List.filterMap_replicate_of_some (f := id) rfl).symm⟩

namespace WebhookInv

section Steps

variable (h : WebhookInv cfg api s runs)

include h

theorem emit (d : WebhookDelivery ε) :
    WebhookInv cfg api (s.emit cfg d) runs := by
  unfold Webhook.emit
  split
  · exact h
  · split_ifs with hroom
    · refine ⟨by simpa using hroom, h.posts, fun hne => ?_, h.idle, h.sent, h.inHand, h.sleeping⟩
      rw [h.accepted hne, List.append_assoc]
    · exact h

theorem take (hphase : s.phase = .receiving) {d : WebhookDelivery ε}
    {queue : List (WebhookDelivery ε)} (hqueue : s.queue = d :: queue) (sentAt : ℤ) :
    ∃ posts, WebhookInv cfg api (s.take cfg api d queue sentAt) (runs ++ [(d, posts)]) := by
  have haccepted : s.accepted = runs.map Prod.fst ++ d :: queue := by
    rw [h.accepted (by simp [hphase]), hqueue]
  have hbound : queue.length ≤ max 1 cfg.queueCapacity := by
    have := h.bound
    rw [hqueue, List.length_cons] at this
    omega
  have hsent : ∀ {posts}, SentFor cfg api (d, posts) → ∀ r ∈ runs ++ [(d, posts)], SentFor cfg api r := by
    intro posts hlast r hr
    rcases List.mem_append.1 hr with hr | hr
    · exact h.sent r hr
    · rwa [List.mem_singleton.1 hr]
  unfold Webhook.take
  split
  · next p hp =>
    refine ⟨[p], hbound, by simp [h.posts], fun _ => by simp [haccepted], by simp,
      hsent (sentFor_replicate (n := 1) hp le_rfl (le_max_left _ _)), ?_, by simp⟩
    rintro _ _ _ ⟨⟩
    exact ⟨⟨runs, d, sentAt, rfl, hp⟩, le_rfl, rfl⟩
  · next hp =>
    refine ⟨[], hbound, by simp [h.posts], fun _ => by simp [haccepted], by simp [hphase],
      hsent ⟨sentAt, 1, le_rfl, le_max_left _ _, by rw [hp]; rfl⟩, ?_, ?_⟩ <;>
    simp [hphase, WebhookPhase.inHand]

/-- A response ends the attempts at the delivery, or leaves it in hand. -/
theorem respond {p : WebhookPost} {k b : ℕ}
    (hphase : s.phase = .posting p k b) (status : Option ℕ) :
    WebhookInv cfg api { s with phase := Webhook.respond cfg p k b status } runs := by
  have haccepted := h.accepted (by simp [hphase])
  unfold Webhook.respond
  split_ifs with hdone
  · exact ⟨h.bound, h.posts, fun _ => haccepted, by simp, h.sent, by simp [WebhookPhase.inHand], by simp⟩
  · refine ⟨h.bound, h.posts, fun _ => haccepted, by simp, h.sent, ?_, ?_⟩
    · rintro _ _ _ ⟨⟩
      exact h.inHand p k b (by rw [hphase]; rfl)
    · rintro _ _ _ ⟨⟩
      exact not_le.1 (not_or.1 hdone).2

theorem wake {p : WebhookPost} {k b : ℕ}
    (hphase : s.phase = .sleeping p k b) : ∃ runs', WebhookInv cfg api { s with
      phase := .posting p (k + 1) (min (b * 2) 15000), posts := s.posts ++ [p] } runs' := by
  obtain ⟨⟨before, d, sentAt, rfl, hp⟩, hpos, rfl⟩ := h.inHand p k b (by rw [hphase]; rfl)
  have hlt := h.sleeping p k _ hphase
  refine ⟨before ++ [(d, List.replicate (k + 1) p)], h.bound, ?_, fun _ => ?_, by simp, ?_, ?_, by simp⟩
  · rw [h.posts]
    simp [List.replicate_succ']
  · simpa using h.accepted (by simp [hphase])
  · intro r hr
    rcases List.mem_append.1 hr with hr | hr
    · exact h.sent r (List.mem_append_left _ hr)
    · rw [List.mem_singleton.1 hr]
      exact sentFor_replicate hp (Nat.le_add_left 1 k) (hlt.trans_le (le_max_right _ _))
  · rintro _ _ _ ⟨⟩
    refine ⟨⟨before, d, sentAt, rfl, hp⟩, Nat.le_add_left 1 k, ?_⟩
    obtain ⟨j, rfl⟩ : ∃ j, k = j + 1 := ⟨k - 1, by omega⟩
    rw [Nat.add_sub_cancel, Nat.add_sub_cancel, pow_succ]
    omega

theorem step (move : WebhookMove ε) :
    ∃ runs', WebhookInv cfg api (s.step cfg api move) runs' := by
  cases move with
  | emit d => exact ⟨runs, h.emit d⟩
  | clientBuilt ok =>
    simp only [Webhook.step]
    split
    · next hphase =>
      obtain rfl := h.idle (.inl hphase)
      have haccepted := h.accepted (by simp [hphase])
      cases ok with
      | true => exact ⟨[], h.bound, h.posts, fun _ => haccepted, by simp, h.sent,
          by simp [WebhookPhase.inHand], by simp⟩
      | false => exact ⟨[], by simp, h.posts, by simp, by simp, h.sent, by simp [WebhookPhase.inHand],
          by simp⟩
    · exact ⟨runs, h⟩
  | receive sentAt =>
    simp only [Webhook.step]
    split
    · next hphase hqueue =>
      obtain ⟨posts, hnext⟩ := h.take hphase hqueue sentAt
      exact ⟨_, hnext⟩
    · exact ⟨runs, h⟩
  | respond status =>
    simp only [Webhook.step]
    split
    · next hphase => exact ⟨runs, h.respond hphase status⟩
    · exact ⟨runs, h⟩
  | wake =>
    simp only [Webhook.step]
    split
    · next hphase => exact h.wake hphase
    · exact ⟨runs, h⟩

end Steps

theorem run (cfg : WebhookConfig) (api : WebhookApi ε) (moves : List (WebhookMove ε)) :
    ∃ runs, WebhookInv cfg api (Webhook.run cfg api {} moves) runs := by
  induction moves using List.reverseRecOn with
  | nil => exact ⟨[], Nat.zero_le _, rfl, fun _ => rfl, fun _ => rfl, by simp, by simp [WebhookPhase.inHand,
      Webhook.run], by simp [Webhook.run]⟩
  | append_singleton moves move ih =>
    obtain ⟨runs, h⟩ := ih
    rw [Webhook.run, List.foldl_append]
    exact h.step move

/-- A webhook that sends is one whose address and secret were checked. -/
theorem checked (h : WebhookInv cfg api s runs) (hposts : s.posts ≠ []) {w : Webhook ε}
    (hspawn : Webhook.trySpawn cfg api = .ok w) :
    api.checkUrl cfg.url = .ok () ∧ (trimWhitespace cfg.secret).isEmpty = false := by
  have hactive : cfg.active = true := by
    by_contra hoff
    refine hposts (h.posts.trans (List.flatMap_eq_nil_iff.2 fun r hr => ?_))
    obtain ⟨sentAt, n, -, -, hr⟩ := h.sent r hr
    rw [hr, WebhookConfig.request, if_neg hoff]
    exact List.filterMap_replicate_of_none (f := id) rfl
  simp only [Webhook.trySpawn, hactive, if_true] at hspawn
  cases hurl : api.checkUrl cfg.url with
  | error e => simp [hurl, Except.mapError, bind, Except.bind] at hspawn
  | ok u =>
    refine ⟨rfl, ?_⟩
    cases hblank : (trimWhitespace cfg.secret).isEmpty with
    | false => rfl
    | true => simp [hurl, hblank, Except.mapError, bind, Except.bind, throw, throwThe, MonadExceptOf.throw]
        at hspawn

end WebhookInv

end Runs

/-- **Webhook delivery.**  Whatever is emitted and answered: the queue is bounded; the worker, unless
    its client could not be built, takes the accepted events in order, and sends for each in turn the
    same request, if there is any, at most `max_retries` times (at least once); it waits from 250 ms on,
    doubling up to 15 s; and a webhook that passed `try_spawn` sends to an address that passed its
    checks, under a secret that is not blank. -/
theorem webhook_delivers_in_order (cfg : WebhookConfig) (api : WebhookApi ε)
    (moves : List (WebhookMove ε)) :
    let s := Webhook.run cfg api {} moves
    (s.queueStatus cfg).1 ≤ (s.queueStatus cfg).2 ∧
    (∃ runs : List (WebhookDelivery ε × List WebhookPost), s.posts = runs.flatMap Prod.snd ∧
      (s.phase ≠ .stopped → s.accepted = runs.map Prod.fst ++ s.queue) ∧
      ∀ r ∈ runs, SentFor cfg api r) ∧
    (∀ p k b, s.phase = .sleeping p k b → k < cfg.maxRetries ∧ b = min (250 * 2 ^ (k - 1)) 15000) ∧
    (s.posts ≠ [] → ∀ w, Webhook.trySpawn cfg api = .ok w →
      api.checkUrl cfg.url = .ok () ∧ (trimWhitespace cfg.secret).isEmpty = false) := by
  obtain ⟨runs, h⟩ := WebhookInv.run cfg api moves
  refine ⟨h.bound, ⟨runs, h.posts, h.accepted, h.sent⟩, fun p k b hphase => ?_, fun hposts w =>
    h.checked hposts⟩
  exact ⟨h.sleeping p k b hphase, (h.inHand p k b (by rw [hphase]; rfl)).backoff⟩

end AcdpRegistry
