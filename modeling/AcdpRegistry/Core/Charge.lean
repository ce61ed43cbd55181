/-
  What a request is charged for.

  A request that names an agent may end in any way: with an answer, an error, a panic, or
  dropped at an await.  Its guard is armed exactly when an identity proof has returned
  (`Due`), or the request is answered with success (`Armed`), and it is dropped once; so
  the agent's bucket is charged once for these requests and for no other
  (`publish_budget_charged`).

  One check stands between a proof and the guard: the keyless branch compares the proven
  key's fingerprint with the attestation's.  `FingerprintsAgree` says that it never fails.
-/
import AcdpRegistry.Core.LifecycleTask

namespace AcdpRegistry

open Lib PublishTask

/-! ## Invariant -/

/-- The agent that the request names, if it has got that far. -/
def Due (named : Option String) (s : RequestState) : Prop :=
  (s.charge = none ∧ s.proven = false) ∨
    ∃ agent, named = some agent ∧ s.charge = some ⟨agent, s.proven⟩

def Armed (named : Option String) (s : RequestState) : Prop :=
  ∃ agent, named = some agent ∧ s.charge = some ⟨agent, true⟩

def At (charge : Option PublishCharge) (proven : Bool) (s : RequestState) : Prop :=
  s.charge = charge ∧ s.proven = proven

section Stable

variable {named : Option String} {charge : Option PublishCharge} {proven : Bool} {agent : String}
  {s : RequestState}

theorem stable_at : chargeGuard.Stable (At charge proven) := fun _ _ h hs =>
  ⟨h.1.trans hs.1, h.2.trans hs.2⟩

theorem stable_due : chargeGuard.Stable (Due named) := by
  rintro s t ⟨hcharge, hproven⟩ hs
  unfold Due
  rw [hcharge, hproven]
  exact hs

theorem stable_armed : chargeGuard.Stable (Armed named) := by
  rintro s t ⟨hcharge, -⟩ hs
  unfold Armed
  rw [hcharge]
  exact hs

theorem At.due_none (h : At none false s) : Due named s := .inl h

theorem At.due (hnamed : named = some agent) (h : At (some ⟨agent, proven⟩) proven s) : Due named s :=
  .inr ⟨agent, hnamed, h.2.symm ▸ h.1⟩

theorem At.arm {armed : Bool} (h : At (some ⟨agent, armed⟩) proven s) :
    At (some ⟨agent, true⟩) proven s.arm :=
  ⟨by simp [RequestState.arm, h.1, PublishCharge.arm], h.2⟩

theorem At.prove (h : At charge proven s) : At charge true s.prove :=
  ⟨h.1, rfl⟩

theorem At.armed (hnamed : named = some agent) (h : At (some ⟨agent, true⟩) proven s) : Armed named s :=
  ⟨agent, hnamed, h.1⟩

end Stable

/-! ## Rules -/

section Rules

variable {α : Type} {charge : Option PublishCharge} {proven : Bool} {I : RequestState → Prop}
  {Q : α → RequestState → Prop} {s : RequestState}

/-- A call that leaves the guard, the note of the proof and the limiter alone. -/
def Quiet (op : RequestState → Except RegistryError α × RequestState) : Prop :=
  ∀ s, (op s).2.limiter = s.limiter ∧ (op s).2.charge = s.charge ∧ (op s).2.proven = s.proven

theorem quiet_read (f : RequestState → Except RegistryError α) : Quiet fun s => (f s, s) :=
  fun _ => ⟨rfl, rfl, rfl⟩

theorem quiet_serve (m : PublishHandler α) : Quiet (RequestState.serve m) := fun _ => ⟨rfl, rfl, rfl⟩

section Quiet

variable {op : RequestState → Except RegistryError α × RequestState} (hop : Quiet op)
  (hI : ∀ t, At charge proven t → I t) (hs : At charge proven s)
  (hQ : ∀ a t, (∃ t₀, (op t₀).1 = .ok a) → At charge proven t → Q a t)

include hop hI hs hQ

theorem safe_run : (Task.run op).Safe chargeGuard I Q s := by
  refine ⟨hI s hs, fun t ht => ?_⟩
  obtain ⟨hlimiter, hcharge, hproven⟩ := hop t
  have hnext : At charge proven (op t).2 := by
    obtain ⟨hc, hp⟩ := stable_at s t ht hs
    exact ⟨hcharge.trans hc, hproven.trans hp⟩
  exact ⟨hlimiter, hI _ hnext, fun a ha => hQ a _ ⟨t, ha⟩ hnext⟩

theorem safe_offloaded (joinError : RegistryError) :
    (Task.offloaded joinError op).Safe chargeGuard I Q s := safe_run hop hI hs hQ

theorem safe_code_run : (Code.run op).Safe chargeGuard I Q s := safe_run hop hI hs hQ

end Quiet

theorem safe_run_bind {β : Type} {op : RequestState → Except RegistryError β × RequestState}
    {next : β → RequestTask α} (hop : Quiet op) (hI : ∀ t, At charge proven t → I t)
    (hs : At charge proven s)
    (hnext : ∀ b t, (∃ t₀, (op t₀).1 = .ok b) → At charge proven t → (next b).Safe chargeGuard I Q t) :
    (Task.run op >>= next).Safe chargeGuard I Q s :=
  Task.safe_bind (fun _ => trivial) (safe_run hop hI hs hnext)

theorem safe_read_bind {β : Type} {f : RequestState → Except RegistryError β}
    {next : β → RequestTask α} (hI : ∀ t, At charge proven t → I t) (hs : At charge proven s)
    (hnext : ∀ b t, (∃ t₀, f t₀ = .ok b) → At charge proven t → (next b).Safe chargeGuard I Q t) :
    (Task.run (fun s => (f s, s)) >>= next).Safe chargeGuard I Q s :=
  safe_run_bind (quiet_read f) hI hs hnext

section Set

variable {f : RequestState → RequestState} {Q : Unit → RequestState → Prop}
  (hf : ∀ t, (f t).limiter = t.limiter) (hs : At charge proven s)
  (hQ : ∀ t, At charge proven t → Q () (f t))

include hf hs hQ

theorem safe_set : (Task.set f : RequestTask Unit).Safe chargeGuard I Q s := fun t ht =>
  ⟨hf t, hQ t (stable_at s t ht hs)⟩

theorem safe_code_set : (Code.set f : RequestCode Unit).Safe chargeGuard I Q s :=
  safe_set (I := I) hf hs hQ

end Set

theorem safe_spawnBlocking {work : RequestCode α} (joinError : RegistryError) (hs : I s)
    (hwork : work.Safe chargeGuard I (fun a t => I t ∧ Q a t) s) :
    (Task.spawnBlocking joinError work).Safe chargeGuard I Q s := ⟨hs, hwork⟩

theorem safe_discard {p : RequestTask α} (hs : I s)
    (h : ∀ t, s.Others t → p.Safe chargeGuard (chargeGuard.Released t)
      (fun a w => chargeGuard.Released t w ∧ Q a t) t.release) :
    (Task.discard p).Safe chargeGuard I Q s := ⟨hs, h⟩

theorem safe_ofExcept {x : Except RegistryError α} (hI : I s) (hQ : ∀ a, x = .ok a → Q a s) :
    (Task.ofExcept x).Safe chargeGuard I Q s := by
  cases x with
  | ok a => exact hQ a rfl
  | error e => exact hI

theorem safe_code_ofExcept {x : Except RegistryError α} (hI : I s) (hQ : ∀ a, x = .ok a → Q a s) :
    (Code.ofExcept x).Safe chargeGuard I Q s := by
  cases x with
  | ok a => exact hQ a rfl
  | error e => exact hI

end Rules

/-! ## Publish -/

/-- The fingerprint that a proof reports for an attested key is the attestation's. -/
def AppState.FingerprintsAgree (state : AppState) : Prop :=
  ∀ draw req db att pinned proven fp, checkKeylessPublish state draw req db = .ok att →
    pinnedKeyB64 state.api att.publicKeyJwk = .ok pinned →
    state.api.provePinned req pinned att.algorithm = .ok proven →
    proven.keyFingerprint = some fp → fp = att.keyFingerprint

namespace PublishTask

variable {state : AppState} {draw : RequestDraw} {join : String} {req : PublishRequest}
  {key tenant named : Option String} {agent : String} (hnamed : named = some agent)
  {s : RequestState} {proof : Except AcdpError Proven} {response : PublishResponse}

/-- A branch has replied with the guard armed, or joins the others with it armed as it should be. -/
def Ended (agent : String) : BranchEnd → RequestState → Prop
  | .answered _, t => ∃ proven, At (some ⟨agent, true⟩) proven t
  | .joined _ _, t => ∃ proven, At (some ⟨agent, proven⟩) proven t

theorem holds_lookup : (lookup draw join req key).Holds := by
  cases key with
  | none => trivial
  | some key => exact fun _ => trivial

theorem holds_record : (record state draw join req key response).Holds := by
  cases key with
  | none => trivial
  | some key => exact fun _ => trivial

theorem safe_joined {p : RequestTask (Bool × PublishResponse)} (hp : p.Holds)
    (h : p.Safe chargeGuard (Due named) (fun _ t => At (some ⟨agent, true⟩) true t) s) :
    (do return PublishHandler.joined (← p) : RequestTask BranchEnd).Safe chargeGuard (Due named)
      (Ended agent) s := by
  exact Task.safe_bind hp (Task.safe_mono (fun _ t ht => ⟨true, ht⟩) h)

theorem holds_publishKeyless : (publishKeyless state draw join req key tenant).Holds :=
  fun _ _ _ => trivial

theorem holds_proveAndCommit :
    (proveAndCommit state draw join req key tenant proof).Holds := fun _ => trivial

theorem holds_production : (production state draw req key tenant).Holds :=
  fun _ _ => Task.holds_ofExcept _

theorem holds_unpinned : (unpinned state draw join req key).Holds := by
  refine Task.holds_bind holds_lookup fun prior => ?_
  cases prior with
  | some response =>
    refine Task.holds_bind trivial fun _ => Task.holds_bind (Task.holds_ofExcept _) fun _ => trivial
  | none =>
    refine Task.holds_bind (fun _ => trivial) fun _ => Task.holds_bind holds_record fun _ => trivial

theorem holds_branch : (branch state draw join req key tenant).Holds := by
  unfold branch
  split
  · exact Task.holds_bind holds_publishKeyless fun _ => trivial
  · split
    · exact Task.holds_bind holds_proveAndCommit fun _ => trivial
    · split
      · refine Task.holds_bind (fun _ => trivial) fun outcome => ?_
        cases outcome with
        | verified publicKeyB64 algorithm => exact Task.holds_bind holds_proveAndCommit fun _ => trivial
        | skipped => exact holds_unpinned
        | unpinned => exact holds_unpinned
      · exact Task.holds_bind holds_production fun _ => trivial

variable (hs : At (some ⟨agent, false⟩) false s)

include hnamed hs

theorem safe_proveCode {Q : Proven → RequestState → Prop}
    (hQ : ∀ proven t, proof = .ok proven → At (some ⟨agent, false⟩) true t → Q proven t) :
    (proveCode proof).Safe chargeGuard (Due named) Q s := by
  refine Code.safe_bind ?_
  refine safe_code_run (quiet_read _) (fun t ht => ht.due hnamed) hs fun proven t hproof ht => ?_
  obtain ⟨_, hproof⟩ := hproof
  refine Code.safe_bind (safe_code_set (fun _ => rfl) ht fun t ht => ?_)
  exact hQ proven _ (except_mapError_ok.1 hproof) ⟨ht.1, rfl⟩

omit hs in
theorem safe_commitCode {proven : Proven} {wrap : AcdpError → RegistryError}
    (hs : At (some ⟨agent, false⟩) true s) :
    (commitCode state draw req key tenant proven wrap).Safe chargeGuard (Due named)
      (fun _ t => Due named t ∧ At (some ⟨agent, true⟩) true t) s := by
  refine Code.safe_bind (safe_code_set (fun _ => rfl) hs fun t ht => ?_)
  have harmed : At (some ⟨agent, true⟩) true t.arm := ht.arm
  refine Code.safe_bind ?_
  refine safe_code_run (quiet_serve _) (fun t ht => ht.due hnamed) harmed fun outcome t _ ht => ?_
  exact safe_code_ofExcept (ht.due hnamed) fun _ _ => ⟨ht.due hnamed, ht⟩

theorem safe_proveAndCommit :
    (proveAndCommit state draw join req key tenant proof).Safe chargeGuard (Due named)
      (fun _ t => At (some ⟨agent, true⟩) true t) s := by
  refine safe_spawnBlocking _ (hs.due hnamed) (Code.safe_bind ?_)
  exact safe_proveCode hnamed hs fun proven t _ ht => safe_commitCode hnamed ht

theorem safe_publishKeyless (hfp : state.FingerprintsAgree) :
    (publishKeyless state draw join req key tenant).Safe chargeGuard (Due named)
      (fun _ t => At (some ⟨agent, true⟩) true t) s := by
  have hdue : ∀ t, At (some ⟨agent, false⟩) false t → Due named t := fun t ht => ht.due hnamed
  refine safe_read_bind hdue hs fun attested t hchecked ht => ?_
  obtain ⟨t₀, hchecked⟩ := hchecked
  refine safe_read_bind hdue ht fun pinned t hpinned ht => ?_
  obtain ⟨_, hpinned⟩ := hpinned
  refine safe_spawnBlocking _ (hdue t ht) (Code.safe_bind ?_)
  refine safe_proveCode hnamed ht fun proven t hproof ht => Code.safe_bind ?_
  -- the check passes, and the guard is armed before anything can go wrong
  have hagree : PublishHandler.checkFingerprint proven attested.keyFingerprint = .ok () := by
    unfold PublishHandler.checkFingerprint
    cases hproven : proven.keyFingerprint with
    | none => rfl
    | some fp =>
      have heq := hfp draw req t₀.db attested pinned proven fp hchecked hpinned hproof hproven
      simp [heq]
  rw [hagree]
  exact safe_commitCode hnamed ht

theorem safe_production :
    (production state draw req key tenant).Safe chargeGuard (Due named)
      (fun _ t => At (some ⟨agent, true⟩) true t) s := by
  refine safe_read_bind (fun t ht => ht.due hnamed) hs fun proven t _ ht => ?_
  refine Task.safe_bind trivial (safe_set (fun _ => rfl) ht fun t ht => ?_)
  have hproven : At (some ⟨agent, false⟩) true t.prove := ht.prove
  refine Task.safe_bind trivial (safe_set (fun _ => rfl) hproven fun t ht => ?_)
  have harmed : At (some ⟨agent, true⟩) true t.arm := ht.arm
  refine safe_run_bind (quiet_serve _) (fun t ht => ht.due hnamed) harmed fun outcome t _ ht => ?_
  exact safe_ofExcept (ht.due hnamed) fun _ _ => ht

theorem safe_lookup {Q : Option PublishResponse → RequestState → Prop}
    (hQ : ∀ prior t, At (some ⟨agent, false⟩) false t → Q prior t) :
    (lookup draw join req key).Safe chargeGuard (Due named) Q s := by
  cases key with
  | none => exact hQ none s hs
  | some key =>
    exact safe_offloaded (quiet_serve _) (fun t ht => ht.due hnamed) hs (fun a t _ ht => hQ a t ht) _

theorem safe_record {Q : Unit → RequestState → Prop}
    (hQ : ∀ t, At (some ⟨agent, false⟩) false t → Q () t) :
    (record state draw join req key response).Safe chargeGuard (Due named) Q s := by
  cases key with
  | none => exact hQ s hs
  | some key =>
    exact safe_offloaded (quiet_serve _) (fun t ht => ht.due hnamed) hs (fun _ t _ ht => hQ t ht) _

theorem safe_unpinned :
    (unpinned state draw join req key).Safe chargeGuard (Due named) (Ended agent) s := by
  refine Task.safe_bind holds_lookup (safe_lookup hnamed hs fun prior t ht => ?_)
  cases prior with
  | some response =>
    refine Task.safe_bind trivial (safe_set (fun _ => rfl) ht fun t ht => ?_)
    rw [locatedReply_eq]
    exact ⟨false, ht.arm⟩
  | none =>
    refine Task.safe_bind (fun _ => trivial) ?_
    refine safe_offloaded (quiet_serve _) (fun t ht => ht.due hnamed) ht (fun response t _ ht => ?_) _
    exact Task.safe_bind holds_record (safe_record hnamed ht fun t ht => ⟨false, ht⟩)

theorem safe_branch (hfp : state.FingerprintsAgree) :
    (branch state draw join req key tenant).Safe chargeGuard (Due named) (Ended agent) s := by
  unfold branch
  split
  · exact safe_joined holds_publishKeyless (safe_publishKeyless hnamed hs hfp)
  · split
    · exact safe_joined holds_proveAndCommit (safe_proveAndCommit hnamed hs)
    · split
      · refine safe_read_bind (fun t ht => ht.due hnamed) hs fun outcome t _ ht => ?_
        cases outcome with
        | verified publicKeyB64 algorithm =>
          exact safe_joined holds_proveAndCommit (safe_proveAndCommit hnamed ht)
        | skipped => exact safe_unpinned hnamed ht
        | unpinned => exact safe_unpinned hnamed ht
      · exact safe_joined holds_production (safe_production hnamed hs)

omit hs in
theorem safe_finish {isReplay proven : Bool} (hs : At (some ⟨agent, proven⟩) proven s) :
    (finish state tenant isReplay response).Safe chargeGuard (Due named) (fun _ => Armed named) s := by
  have hdue : ∀ t, At (some ⟨agent, proven⟩) proven t → Due named t := fun t ht => ht.due hnamed
  have hreply : ∀ t, At (some ⟨agent, proven⟩) proven t → (do
      Task.compute (.ok ())
      Task.set RequestState.arm
      Task.ofExcept (locatedReply isReplay response) : RequestTask _).Safe chargeGuard (Due named)
        (fun _ => Armed named) t := by
    intro t ht
    refine safe_read_bind hdue ht fun _ t _ ht => ?_
    refine Task.safe_bind trivial (safe_set (fun _ => rfl) ht fun t ht => ?_)
    rw [locatedReply_eq]
    exact ht.arm.armed hnamed
  unfold finish
  split
  · exact safe_run_bind (quiet_serve _) hdue hs fun _ t _ ht => hreply t ht
  · exact hreply s hs

end PublishTask

theorem safe_publishTask {state : AppState} (hfp : state.FingerprintsAgree) (headers : Headers)
    (peer : Option IpAddr) (body : Except String PublishRequest) (draw : RequestDraw) (join : String)
    {named : Option String} (hnamed : ∀ req, body = .ok req → named = some req.agentId)
    {s : RequestState} (hs : At none false s) :
    (publishTask state headers peer body draw join).Safe chargeGuard (Due named)
      (fun _ => Armed named) s := by
  have hnone : ∀ t, At none false t → Due named t := fun t ht => ht.due_none
  refine safe_read_bind hnone hs fun req t hreq ht => ?_
  obtain ⟨_, hreq⟩ := hreq
  have hagent := hnamed req (except_mapError_ok.1 hreq)
  refine safe_read_bind hnone ht fun _ t _ ht => ?_
  refine safe_read_bind hnone ht fun _ t _ ht => ?_
  refine Task.safe_bind trivial (safe_set (fun _ => rfl) ht fun t ht => ?_)
  have hnew : At (some ⟨req.agentId, false⟩) false (t.newCharge req.agentId) := ⟨rfl, ht.2⟩
  refine safe_read_bind (fun t ht => ht.due hagent) hnew fun tenant t _ ht => ?_
  refine Task.safe_bind holds_branch (Task.safe_mono ?_ (safe_branch hagent ht hfp))
  intro e t he
  cases e with
  | answered reply =>
    obtain ⟨proven, ht⟩ := he
    exact ht.armed hagent
  | joined isReplay response =>
    obtain ⟨proven, ht⟩ := he
    exact safe_finish hagent ht

/-! ## Lifecycle transitions -/

namespace LifecycleTask

variable {server : LifecycleServer} {event : LifecycleEvent} {draw : LifecycleDraw}
  {endpoint : LifecycleEndpoint} {requester named : Option String} {join agent : String}
  (hnamed : named = some agent) {s : RequestState}

theorem quiet_commitProven : Quiet (commitProven server event draw) := fun _ => ⟨rfl, rfl, rfl⟩

include hnamed

theorem safe_didKeyCode (hs : At (some ⟨agent, false⟩) false s) :
    (didKeyCode server event draw endpoint requester).Safe chargeGuard (Due named)
      (fun outcome t => ∃ proven, At (some ⟨agent, proven⟩) proven t ∧
        ∀ o, outcome = .ok o → proven = true) s := by
  refine Code.safe_bind ?_
  refine safe_code_run (quiet_read _) (fun t ht => ht.due hnamed) hs fun proof t _ ht => ?_
  cases proof with
  | error e =>
    refine ⟨false, ht, fun o ho => ?_⟩
    cases ho
  | ok u =>
    refine Code.safe_bind (safe_code_set (fun _ => rfl) ht fun t ht => ?_)
    have hproven : At (some ⟨agent, false⟩) true t.prove := ht.prove
    refine Code.safe_bind (safe_code_set (fun _ => rfl) hproven fun t ht => ?_)
    have harmed : At (some ⟨agent, true⟩) true t.arm := ht.arm
    exact safe_code_run quiet_commitProven (fun t ht => ht.due hnamed) harmed
      fun outcome t _ ht => ⟨true, ht, fun _ _ => rfl⟩

omit hnamed in
theorem safe_finish {outcome : Except AcdpError LifecycleCommitOutcome} {P I : RequestState → Prop}
    {Q : FullContext → RequestState → Prop} (hP : chargeGuard.Stable P) (hI : ∀ t, P t → I t)
    (hs : P s) (hQ : ∀ o, outcome = .ok o → ∀ t, P t → Q o.intoContext t) :
    (finish outcome).Safe chargeGuard I Q s := by
  cases outcome with
  | error e => exact hI s hs
  | ok o =>
    refine ⟨hI s hs, fun t ht => ?_⟩
    have hPt : P t := hP s t ht hs
    exact ⟨rfl, hI t hPt, fun _ _ => hQ o rfl t hPt⟩

theorem safe_pipeline (hs : At (some ⟨agent, false⟩) false s) :
    (pipeline server event draw endpoint requester join).Safe chargeGuard (Due named)
      (fun _ => Armed named) s := by
  unfold pipeline
  split
  · refine Task.safe_bind (fun _ => trivial) (safe_spawnBlocking _ (hs.due hnamed) ?_)
    refine Code.safe_mono (fun outcome t ht => ?_) (safe_didKeyCode hnamed hs)
    obtain ⟨proven, ht, hok⟩ := ht
    refine ⟨ht.due hnamed, safe_discard (ht.due hnamed) fun v hv => ?_⟩
    -- the guard is gone; what is left to show was known where it was dropped
    refine safe_finish (Guard.stable_released v) (fun _ hw => hw) ⟨rfl, rfl⟩ fun o ho w hw => ?_
    have harmed : At (some ⟨agent, proven⟩) proven v := stable_at t v hv ht
    rw [hok o ho] at harmed
    exact ⟨hw, harmed.armed hnamed⟩
  · refine safe_read_bind (fun t ht => ht.due hnamed) hs fun _ t _ ht => ?_
    refine Task.safe_bind trivial (safe_set (fun _ => rfl) ht fun t ht => ?_)
    have hproven : At (some ⟨agent, false⟩) true t.prove := ht.prove
    refine Task.safe_bind trivial (safe_set (fun _ => rfl) hproven fun t ht => ?_)
    have harmed : At (some ⟨agent, true⟩) true t.arm := ht.arm
    refine safe_run_bind quiet_commitProven (fun t ht => ht.due hnamed) harmed fun outcome t _ ht => ?_
    exact safe_finish stable_at (fun t ht => ht.due hnamed) ht fun _ _ t ht => ht.armed hnamed

end LifecycleTask

def LifecycleServer.eventOf (server : LifecycleServer) (body : Except String Json) :
    Option LifecycleEvent :=
  body.toOption.bind fun raw => (server.api.parseLifecycleRequest raw).toOption

theorem safe_lifecycleTask (server : LifecycleServer) (headers : Headers) (peer : Option IpAddr)
    (ctxId : String) (body : Except String Json) (eventType : LifecycleEventType)
    (draw : LifecycleDraw) (join : String) {s : RequestState} (hs : At none false s) :
    (lifecycleTask server headers peer ctxId body eventType draw join).Safe chargeGuard
      (Due ((server.eventOf body).map (·.actor)))
      (fun _ => Armed ((server.eventOf body).map (·.actor))) s := by
  have hnone : ∀ t, At none false t → Due ((server.eventOf body).map (·.actor)) t :=
    fun t ht => ht.due_none
  refine safe_read_bind hnone hs fun _ t _ ht => ?_
  refine safe_read_bind hnone ht fun raw t hraw ht => ?_
  refine safe_read_bind hnone ht fun event t hevent ht => ?_
  obtain ⟨_, hraw⟩ := hraw
  obtain ⟨_, hevent⟩ := hevent
  have hagent : (server.eventOf body).map (·.actor) = some event.actor := by
    rw [LifecycleServer.eventOf, except_mapError_ok.1 hraw]
    simp [Except.toOption, except_mapError_ok.1 hevent]
  refine safe_read_bind hnone ht fun _ t _ ht => ?_
  refine safe_read_bind hnone ht fun pathCtx t _ ht => ?_
  refine safe_read_bind hnone ht fun _ t _ ht => ?_
  refine safe_read_bind hnone ht fun _ t _ ht => ?_
  refine Task.safe_bind trivial (safe_set (fun _ => rfl) ht fun t ht => ?_)
  have hnew : At (some ⟨event.actor, false⟩) false (t.newCharge event.actor) := ⟨rfl, ht.2⟩
  have hdue : ∀ t, At (some ⟨event.actor, false⟩) false t →
      Due ((server.eventOf body).map (·.actor)) t := fun t ht => ht.due hagent
  refine safe_read_bind hdue hnew fun requested t _ ht => ?_
  refine safe_read_bind hdue ht fun stored t _ ht => ?_
  refine safe_read_bind hdue ht fun _ t _ ht => ?_
  refine safe_read_bind hdue ht fun requester t _ ht => ?_
  exact LifecycleTask.safe_pipeline hagent ht

/-! ## The charge -/

/-- Exactly one action of the run charges the agent, if there is a limiter, and no other changes any
    bucket. -/
def ChargedOnce (agent : String) (trace : List (RequestState × RequestState)) : Prop :=
  ∃ before v w after, trace = before ++ (v, w) :: after ∧
    (∀ q ∈ before ++ after, q.2.limiter = q.1.limiter) ∧
    ((v.limiter = none ∧ w.limiter = none) ∨ ∃ l l', v.limiter = some l ∧ w.limiter = some l' ∧
      l.Charged agent v.clock l')

/-- A request that names an agent is charged once if an identity proof returned `Ok` or the answer is a
    success, else nothing. -/
structure Accounted {α : Type} (named : Option String) (trace : List (RequestState × RequestState))
    (x : Exit RegistryError α) (u : RequestState) : Prop where
  charged : (u.proven = true ∨ ∃ a, x = .answered (.ok a)) →
    ∃ agent, named = some agent ∧ ChargedOnce agent trace
  uncharged : u.proven = false → (∀ a, x ≠ .answered (.ok a)) → ∀ q ∈ trace, q.2.limiter = q.1.limiter

theorem release_armed {agent : String} {v : RequestState} (h : v.charge = some ⟨agent, true⟩) :
    v.release.limiter = v.limiter.map (·.recordAt agent v.clock) := by
  simp [RequestState.release, h, PublishCharge.drop]

theorem release_disarmed {v : RequestState} (h : ∀ c, v.charge = some c → c.armed = false) :
    v.release.limiter = v.limiter := by
  unfold RequestState.release
  cases hc : v.charge with
  | none => rfl
  | some c => simp [PublishCharge.drop, h c hc]

theorem chargedOnce_of_armed {agent : String} {l l' : List (RequestState × RequestState)}
    {v : RequestState} (hl : chargeGuard.Keeps l) (hl' : chargeGuard.Keeps l')
    (h : v.charge = some ⟨agent, true⟩) : ChargedOnce agent (l ++ (v, v.release) :: l') := by
  refine ⟨l, v, v.release, l', rfl, hl.append hl', ?_⟩
  rw [release_armed h]
  cases v.limiter with
  | none => exact .inl ⟨rfl, rfl⟩
  | some limiter => exact .inr ⟨limiter, _, rfl, rfl, limiter.charged_recordAt agent v.clock⟩

theorem accounted {α : Type} {named : Option String} {p : RequestTask α} {s u : RequestState}
    {trace : List (RequestState × RequestState)} {x : Exit RegistryError α}
    (h : p.Safe chargeGuard (Due named) (fun _ => Armed named) s)
    (hrun : p.Run chargeGuard s trace x u) : Accounted named trace x u := by
  obtain ⟨l, v, l', rfl, hl, hl', ⟨hok, hfail⟩, hproven⟩ :=
    h.once stable_due (fun _ => stable_armed) hrun
  replace hproven : u.proven = v.proven := hproven
  constructor
  · intro hearned
    by_cases hx : ∃ a, x = .answered (.ok a)
    · obtain ⟨a, ha⟩ := hx
      obtain ⟨agent, hnamed, hcharge⟩ := hok a ha
      exact ⟨agent, hnamed, chargedOnce_of_armed hl hl' hcharge⟩
    · have hv : v.proven = true := hproven.symm.trans (hearned.resolve_right hx)
      rcases hfail fun a ha => hx ⟨a, ha⟩ with ⟨-, hfalse⟩ | ⟨agent, hnamed, hcharge⟩
      · rw [hv] at hfalse
        cases hfalse
      · rw [hv] at hcharge
        exact ⟨agent, hnamed, chargedOnce_of_armed hl hl' hcharge⟩
  · intro hu hx
    have hv : v.proven = false := hproven.symm.trans hu
    have hrelease : v.release.limiter = v.limiter := by
      refine release_disarmed fun c hc => ?_
      rcases hfail hx with ⟨hnone, -⟩ | ⟨agent, -, hcharge⟩
      · rw [hnone] at hc
        cases hc
      · rw [hcharge, hv] at hc
        cases hc
        rfl
    exact hl.append (hl'.cons hrelease)

/-- **The publish budget.**  However a publish or a lifecycle transition ends, and whatever other
    requests do: the agent it names is charged once if an identity proof returned `Ok` or the answer is
    a success, and otherwise no bucket changes. -/
theorem publish_budget_charged (state : AppState) (hfp : state.FingerprintsAgree)
    (server : LifecycleServer) (headers : Headers) (peer : Option IpAddr) (join : String) (db : Db)
    (limiter : Option AgentRateLimiter) (clock : ℤ) :
    (∀ (body : Except String PublishRequest) (draw : RequestDraw)
      (trace : List (RequestState × RequestState)) (x : Exit RegistryError PublishReply)
      (u : RequestState),
      (publishTask state headers peer body draw join).Run chargeGuard
          { db := db, limiter := limiter, clock := clock } trace x u →
        Accounted (body.toOption.map (·.agentId)) trace x u) ∧
    (∀ (ctxId : String) (body : Except String Json) (eventType : LifecycleEventType)
      (draw : LifecycleDraw) (trace : List (RequestState × RequestState))
      (x : Exit RegistryError FullContext) (u : RequestState),
      (lifecycleTask server headers peer ctxId body eventType draw join).Run chargeGuard
          { db := db, limiter := limiter, clock := clock } trace x u →
        Accounted ((server.eventOf body).map (·.actor)) trace x u) := by
  constructor
  · intro body draw trace x u hrun
    refine accounted (safe_publishTask hfp headers peer body draw join ?_ ⟨rfl, rfl⟩) hrun
    rintro req rfl
    rfl
  · intro ctxId body eventType draw trace x u hrun
    exact accounted (safe_lifecycleTask server headers peer ctxId body eventType draw join ⟨rfl, rfl⟩) hrun

/-! ## Runs -/

theorem checkKeylessPublish_ok {state : AppState} {draw : RequestDraw} {req : PublishRequest} {db : Db}
    {att : KeyAttestation} (h : checkKeylessPublish state draw req db = .ok att) :
    ∃ ctxId record, keyAttestationRecord state ctxId db = .ok (some record) ∧
      record.attestation = att := by
  unfold checkKeylessPublish at h
  obtain ⟨hash, _, h⟩ := except_bind_ok.1 h
  cases hr : req.keyAttestation with
  | none =>
    rw [hr] at h
    cases h
  | some r =>
    rw [hr] at h
    obtain ⟨record?, hrecord, h⟩ := except_bind_ok.1 (except_ite_error_ok h)
    cases record? with
    | none => cases h
    | some record =>
      refine ⟨_, record, except_mapError_ok.1 hrecord, ?_⟩
      replace h := except_ite_error_ok (except_ite_error_ok (except_ite_error_ok h))
      dsimp only at h
      cases hnow : Instant.check (draw.keylessNowMs * 10 ^ 6) with
      | none =>
        rw [hnow] at h
        cases h
      | some now =>
        rw [hnow] at h
        obtain ⟨listed, _, h⟩ := except_bind_ok.1 (except_ite_error_ok h)
        replace h := except_ite_error_ok h
        revert h
        cases state.api.verifyJwk record.attestation.publicKeyJwk req.signature.algorithm
            req.signature.value hash with
        | ok u =>
          intro h
          cases h
          rfl
        | error e => cases e <;> intro h <;> cases h

theorem keyAttestationRecord_ok {state : AppState} {ctxId : String} {db : Db}
    {record : KeyAttestationRecord} (h : keyAttestationRecord state ctxId db = .ok (some record)) :
    ∃ metadata, state.api.keyAttestationFromMetadata metadata = .ok record.attestation := by
  unfold keyAttestationRecord at h
  split at h
  · split at h
    · cases h
    · next metadata _ =>
      split at h
      · cases h
      · next att hatt =>
        cases h
        exact ⟨metadata, hatt⟩
  · cases h

namespace Sample

/-- An attestation of a key with the fingerprint `fp`. -/
def attestation : KeyAttestation where
  controller := "did:web:a"
  identity := .spiffe "spiffe://a/w"
  orgWide := false
  keyId := "did:web:a#acdp-kl-1"
  algorithm := "ed25519"
  keyFingerprint := "fp"
  notBefore := 0
  notAfter := 1
  tokenHash := ""
  publicKeyJwk := ⟨"OKP", "Ed25519", "", none⟩

def chargeState : AppState where
  store := { dialect := .sqlite, api := api }
  api := { publishApi with
    provePinned := fun _ _ _ => .ok { keyFingerprint := some "fp" }
    keyAttestationFromMetadata := fun _ => .ok attestation }
  authority := "registry"
  idempotencyKeyTtl := 10 ^ 9
  keyless := true

theorem chargeState_agrees : chargeState.FingerprintsAgree := by
  intro draw req db att pinned proven fp hchecked _ hproof hfp
  obtain ⟨ctxId, record, hrecord, rfl⟩ := checkKeylessPublish_ok hchecked
  obtain ⟨metadata, hmetadata⟩ := keyAttestationRecord_ok hrecord
  have hatt : record.attestation = attestation := (Except.ok.inj hmetadata).symm
  have hproven : proven = { keyFingerprint := some "fp" } := (Except.ok.inj hproof).symm
  rw [hproven] at hfp
  rw [hatt]
  exact (Option.some.inj hfp).symm

def lifecycleServer : LifecycleServer where
  app := chargeState
  enabled := true
  api :=
    { parseLifecycleRequest := fun _ => .ok ⟨"e1", "ctx1", .retracted, 0, "did:web:a", none, none⟩
      parseCtxId := .ok
      prove := fun _ _ _ _ => .ok ()
      proveDidKey := fun _ _ _ _ => .ok ()
      validateBearer := .ok }

def chargeLimiter : AgentRateLimiter where
  limit := 1
  buckets := []
  keys := List.nodup_nil

end Sample

namespace Sample

def chargeRequest : PublishRequest := request "did:web:a" "hash"

def chargeDraw : RequestDraw := { commit := { now := 0, ctxId := "ctx1" } }

def chargeStart : RequestState where
  db := {}
  limiter := some chargeLimiter
  clock := 0

theorem exists_panicked_publish : ∃ trace x u,
    (publishTask chargeState {} none (.ok chargeRequest) chargeDraw "").Run chargeGuard chargeStart
      trace x u ∧ u.proven = true := by
  have hrefl := chargeGuard.others_refl
  have hbranch : ∃ l u, (reply chargeState chargeDraw "" chargeRequest (idempotencyKeyOf {}) none).Ends
      chargeGuard (chargeStart.newCharge chargeRequest.agentId) l .panicked u ∧ u.proven = true := by
    rw [reply, branch, if_neg (by decide +kernel), if_neg (by decide +kernel), if_neg (by decide +kernel)]
    exact ⟨_, _, .await (hrefl _) rfl (.assign (hrefl _) (.assign (hrefl _) (.callLost none (hrefl _)))),
      rfl⟩
  have hgates : versionGates chargeState chargeRequest = .ok () := rfl
  have hpeek : (peek chargeState chargeRequest.agentId chargeStart).1 = .ok () := rfl
  have htenant : chargeState.tenants.tenantForPublish {} chargeRequest.agentId none = .ok none := rfl
  obtain ⟨l, u, hends, hproven⟩ := hbranch
  exact ⟨_, _, _, .mk (.call (hrefl _) rfl (.call (hrefl _) hgates (.call (hrefl _) hpeek
    (.assign (hrefl _) (.call (hrefl _) htenant hends))))) (hrefl _), hproven⟩

theorem exists_dropped_retraction : ∃ trace u,
    (lifecycleTask lifecycleServer {} none "ctx1" (.ok default) .retracted { now := 0 } "").Run chargeGuard
      chargeStart trace .dropped u ∧ u.proven = false := by
  have hrefl := chargeGuard.others_refl
  have hdropped : ∀ a : FullContext, (.dropped : Exit RegistryError FullContext) ≠ .answered (.ok a) := by
    intro a ha
    cases ha
  exact ⟨_, _, .mk (.call (hrefl _) rfl (.call (hrefl _) rfl (.call (hrefl _) rfl (.call (hrefl _) rfl
    (.call (hrefl _) rfl (.call (hrefl _) rfl (.call (hrefl _) rfl (.assign (hrefl _)
    (.call (hrefl _) rfl (.awaitNotMade .dropped hdropped)))))))))) (hrefl _), rfl⟩

end Sample

theorem publish_budget_charged_sample :
    (∃ trace x u, (publishTask Sample.chargeState {} none (.ok Sample.chargeRequest) Sample.chargeDraw
        "").Run chargeGuard Sample.chargeStart trace x u ∧
      u.proven = true ∧ ChargedOnce "did:web:a" trace) ∧
    ∃ trace u, (lifecycleTask Sample.lifecycleServer {} none "ctx1" (.ok default) .retracted
        { now := 0 } "").Run chargeGuard Sample.chargeStart trace .dropped u ∧
      u.proven = false ∧ ∀ q ∈ trace, q.2.limiter = q.1.limiter := by
  have hbudget := publish_budget_charged Sample.chargeState Sample.chargeState_agrees
    Sample.lifecycleServer {} none "" {} (some Sample.chargeLimiter) 0
  constructor
  · obtain ⟨trace, x, u, hrun, hproven⟩ := Sample.exists_panicked_publish
    obtain ⟨agent, hagent, hcharged⟩ := (hbudget.1 _ _ trace x u hrun).charged (.inl hproven)
    obtain rfl : "did:web:a" = agent := Option.some.inj hagent
    exact ⟨trace, x, u, hrun, hproven, hcharged⟩
  · obtain ⟨trace, u, hrun, hproven⟩ := Sample.exists_dropped_retraction
    refine ⟨trace, u, hrun, hproven, (hbudget.2 _ _ _ _ trace _ u hrun).uncharged hproven ?_⟩
    intro a ha
    cases ha

end AcdpRegistry
