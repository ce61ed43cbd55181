/-
  What an idempotent replay changes.

  A replay commits nothing.  But a registry in playground mode stamps the tenant
  after its branches have joined, replays included, so a replay that resolves to
  another tenant than the first request moves the stored context into it.
-/
import AcdpRegistry.Core.Publish
import AcdpRegistry.Store.PublishExits

namespace AcdpRegistry

open Lib

/-! ## The store -/

variable {r : PublishResponse}

def Db.KeysUnique (db : Db) : Prop := (db.idempotency.map fun r => (r.agentId, r.key)).Nodup

def Db.recorded (db : Db) (agentId : String) (key : Option String) : Option PublishResponse :=
  (key.bind (db.idempotency? agentId)).map (·.response)

theorem Db.KeysUnique.idempotency? {db : Db} (h : db.KeysUnique) {r : IdempotencyRecord}
    (hr : r ∈ db.idempotency) : db.idempotency? r.agentId r.key = some r := by
  cases hfind : db.idempotency? r.agentId r.key with
  | none => exact absurd hr fun hr => by simpa using List.find?_eq_none.1 hfind r hr
  | some r' =>
    have hkey := List.find?_some hfind
    simp only [decide_eq_true_eq] at hkey
    rw [List.inj_on_of_nodup_map h (List.mem_of_find?_eq_some hfind) hr (Prod.ext hkey.1 hkey.2)]

theorem recorded_of_answer {record : IdempotencyRecord} {req : PublishRequest}
    (h : (record.answer req).map PublishCommitOutcome.idempotentReplay = .ok (.idempotentReplay r)) :
    record.response = r := by
  unfold IdempotencyRecord.answer at h
  split at h
  · cases h
    rfl
  · cases h

theorem commitPublish_replay {st : SqlStore} {c : PublishCommit} {draw : PublishDraw} {db : Db}
    (h : (st.commitPublish c draw db).1 = .ok (.idempotentReplay r)) :
    (st.commitPublish c draw db).2 = db ∧
      (db.KeysUnique → db.recorded c.req.agentId (c.idempotency.map (·.key)) = some r) := by
  unfold SqlStore.commitPublish Schedule.after at h ⊢
  rcases hrun : (st.publishTx c draw).run (fun _ => db) {} with ⟨e | resp, s⟩
  · refine ⟨rfl, fun hkeys => ?_⟩
    have hmet := publishTx_error hrun
    simp only [hrun, SqlStore.publishAnswer] at h
    cases e with
    | answered a =>
      cases a with
      | error e => cases h
      | ok resp =>
        cases h
        obtain ⟨_, record, hrecord, ⟨hagent, i, hi, hkey⟩, -, rfl⟩ := hmet
        have hfind := hkeys.idempotency? hrecord
        rw [hagent, hkey] at hfind
        simp [Db.recorded, show c.idempotency = some i from hi, hfind]
    | keyTaken =>
      simp only at h
      cases hi : c.idempotency with
      | none => simp [hi] at h
      | some i =>
        rw [hi, Option.bind_some] at h
        cases hfind : db.idempotency? c.req.agentId i.key with
        | none => simp [hfind] at h
        | some record =>
          simp only [hfind] at h
          simp [Db.recorded, hfind, recorded_of_answer h]
  · simp [hrun, SqlStore.publishAnswer] at h

theorem setTenantOfCtx_eq_iff {ctxId tenantId : String} (ht : tenantId ≠ "default") {db : Db} :
    setTenantOfCtx ctxId tenantId db = db ↔
      ∀ row ∈ db.contexts, row.body.ctxId = ctxId → row.tenantId = tenantId := by
  rw [setTenantOfCtx, if_neg ht]
  constructor
  · intro h row hrow hid
    have hmap : db.contexts.map (fun r => if r.body.ctxId = ctxId then
        { r with tenantId := tenantId } else r) = db.contexts.map id := by
      rw [List.map_id]
      exact congrArg Db.contexts h
    have hsame := List.map_inj_left.1 hmap row hrow
    rw [if_pos hid] at hsame
    exact (congrArg ContextRow.tenantId hsame).symm
  · intro h
    have hrows : Db.update db.contexts ctxId (fun r => { r with tenantId := tenantId }) =
        db.contexts := by
      refine (List.map_congr_left fun row hrow => ?_).trans (List.map_id _)
      split
      · next hid => rw [← h row hrow hid]; rfl
      · rfl
    rw [hrows]

/-! ## The tenant -/

theorem tenantFromHeaders_unbound {config : TenantConfig} {header : Option String}
    {peer : Option IpAddr} {t : String} (h : config.unboundHeaderTenant header peer = .ok (some t)) :
    header = some t := by
  unfold TenantConfig.unboundHeaderTenant at h
  cases header with
  | none => cases h
  | some value =>
    simp only at h
    split at h
    · cases h
      rfl
    · cases h

theorem tenantForPublish_ne {config : TenantConfig} {headers : Headers} {agentId : String}
    {peer : Option IpAddr} {t : String}
    (h : config.tenantForPublish headers agentId peer = .ok (some t)) : t ≠ "default" := by
  rintro rfl
  obtain ⟨_, hheader, h⟩ := except_bind_ok.1 h
  have hheader := rejectReservedTenant_ok hheader
  split at h
  · exact hheader (tenantFromHeaders_unbound h)
  · obtain ⟨resolved, -, h⟩ := except_bind_ok.1 h
    split at h
    · cases h
    · obtain ⟨_, hres, h⟩ := except_bind_ok.1 h
      cases h
      exact rejectReservedTenant_ok hres rfl

/-! ## The branches -/

section Branches

variable {state : AppState} {draw : RequestDraw} {req : PublishRequest} {key tenant : Option String}
  {s s' : HandlerState}

/-- A replay of `r`: the tables are as before, and `r` is recorded for the key. -/
structure Replays (req : PublishRequest) (key : Option String) (r : PublishResponse)
    (s s' : HandlerState) : Prop where
  db : s'.db = s.db
  recorded : s.db.KeysUnique → s.db.recorded req.agentId key = some r

theorem arm_ok {u : Unit} (h : PublishHandler.arm.exec s = (.ok u, s')) : s'.db = s.db := by
  rw [← Handler.modify_ok.1 h]

theorem commitProven_ok {proven : Proven} {outcome : Except AcdpError PublishCommitOutcome}
    (h : (PublishHandler.commitProven state draw req proven key tenant).exec s = (.ok outcome, s')) :
    ∀ r, outcome = .ok (.idempotentReplay r) → Replays req key r s s' := by
  obtain ⟨s₀, s₁, h₁, h⟩ := Handler.bind_ok.1 h
  obtain ⟨rfl, rfl⟩ := Handler.get_ok.1 h₁
  obtain ⟨_, s₂, h₂, h⟩ := Handler.bind_ok.1 h
  obtain ⟨rfl, rfl⟩ := Handler.pure_ok.1 h
  intro r hr
  cases h₂
  obtain ⟨hdb, hrecorded⟩ := commitPublish_replay hr
  refine ⟨hdb, fun hkeys => ?_⟩
  have hrec := hrecorded hkeys
  rw [state.api.commitProven_req, state.api.commitProven_key] at hrec
  cases key with
  | none => exact hrec
  | some k =>
    cases hs : state.supportsIdempotencyKey with
    | false =>
      rw [hs] at hrec
      cases hrec
    | true =>
      rw [hs] at hrec
      exact hrec

theorem split_replay {outcome : PublishCommitOutcome} (h : outcome.split = (true, r)) :
    outcome = .idempotentReplay r := by
  cases outcome <;> cases h
  rfl

theorem armAndCommit_replay {proven : Proven} {wrap : AcdpError → RegistryError}
    (h : (PublishHandler.armAndCommit state draw req proven key tenant wrap).exec s =
      (.ok (true, r), s')) : Replays req key r s s' := by
  obtain ⟨_, s₁, h₁, h⟩ := Handler.bind_ok.1 h
  obtain ⟨outcome, s₂, h₂, h⟩ := Handler.bind_ok.1 h
  obtain ⟨o, s₃, h₃, h⟩ := Handler.bind_ok.1 h
  obtain ⟨ho, rfl⟩ := Handler.pure_ok.1 h
  obtain ⟨hout, rfl⟩ := Handler.lift_ok.1 h₃
  rw [split_replay ho] at hout
  cases outcome with
  | error e => cases hout
  | ok o' =>
    cases hout
    have hreplay := commitProven_ok h₂ r rfl
    have harm := arm_ok h₁
    exact ⟨hreplay.db.trans harm, harm ▸ hreplay.recorded⟩

theorem proveAndCommit_replay {proof : Except AcdpError Proven}
    (h : (PublishHandler.proveAndCommit state draw req proof key tenant).exec s =
      (.ok (true, r), s')) : Replays req key r s s' := by
  obtain ⟨proven, _, h₁, h⟩ := Handler.bind_ok.1 h
  obtain ⟨-, rfl⟩ := Handler.lift_ok.1 h₁
  exact armAndCommit_replay h

theorem publishKeyless_replay
    (h : (PublishHandler.publishKeyless state draw req key tenant).exec s = (.ok (true, r), s')) :
    Replays req key r s s' := by
  obtain ⟨_, _, h₀, h⟩ := Handler.bind_ok.1 h
  obtain ⟨rfl, rfl⟩ := Handler.get_ok.1 h₀
  obtain ⟨attested, _, h₁, h⟩ := Handler.bind_ok.1 h
  obtain ⟨-, rfl⟩ := Handler.lift_ok.1 h₁
  obtain ⟨pinned, _, h₂, h⟩ := Handler.bind_ok.1 h
  obtain ⟨-, rfl⟩ := Handler.lift_ok.1 h₂
  obtain ⟨proven, _, h₃, h⟩ := Handler.bind_ok.1 h
  obtain ⟨-, rfl⟩ := Handler.lift_ok.1 h₃
  simp only at h
  split at h
  · split at h
    · exact absurd h Handler.throw_ok
    · exact armAndCommit_replay h
  · exact armAndCommit_replay h

theorem unpinnedLookup_ok {found : Option PublishResponse}
    (h : (PublishHandler.unpinnedLookup draw req key).exec s = (.ok found, s')) : s = s' := by
  obtain ⟨_, _, h₀, h⟩ := Handler.bind_ok.1 h
  obtain ⟨rfl, rfl⟩ := Handler.get_ok.1 h₀
  split at h
  · exact (Handler.pure_ok.1 h).2
  · split at h
    · obtain ⟨_, _, h₁, h⟩ := Handler.bind_ok.1 h
      obtain ⟨-, rfl⟩ := Handler.lift_ok.1 h₁
      exact (Handler.pure_ok.1 h).2
    · exact (Handler.pure_ok.1 h).2

theorem unpinnedPublish_not_replay :
    ¬(PublishHandler.unpinnedPublish state draw req key).exec s = (.ok (true, r), s') := by
  intro h
  obtain ⟨_, _, -, h⟩ := Handler.bind_ok.1 h
  obtain ⟨_, _, -, h⟩ := Handler.bind_ok.1 h
  cases (Handler.pure_ok.1 h).1

structure Unpinned (state : AppState) (draw : RequestDraw) (req : PublishRequest) : Prop where
  notKeyless : ¬(state.keyless && state.store.api.isKeylessKeyId req.signature.keyId) = true
  notDidKey : ¬"did:key:".toList.isPrefixOf req.agentId.toList = true
  enabled : state.playground.enabled = true
  notVerified : ∃ pin, enforcePinnedSignature state.api state.playground req draw.unixSeconds =
    .ok pin ∧ ∀ k a, pin ≠ .verified k a

theorem branch_replay {out : BranchEnd}
    (h : (PublishHandler.branch state draw req key tenant).exec s = (.ok out, s')) :
    (∀ reply, out = .answered reply → s'.db = s.db ∧ Unpinned state draw req) ∧
    ∀ r, out = .joined true r → Replays req key r s s' ∧ ¬Unpinned state draw req := by
  have hjoined : ∀ {m : PublishHandler (Bool × PublishResponse)} {s s' : HandlerState} {out : BranchEnd},
      (m >>= fun o => pure (PublishHandler.joined o)).exec s = (.ok out, s') →
      (∀ reply, out ≠ .answered reply) ∧
      ∀ r, out = .joined true r → m.exec s = (.ok (true, r), s') := by
    intro m s s' out h
    obtain ⟨⟨isReplay, response⟩, s₁, h₁, h⟩ := Handler.bind_ok.1 h
    obtain ⟨rfl, rfl⟩ := Handler.pure_ok.1 h
    refine ⟨fun reply hr => ?_, fun r hr => ?_⟩
    · cases hr
    · cases hr
      exact h₁
  unfold PublishHandler.branch at h
  split at h
  · next hk =>
    obtain ⟨hno, hyes⟩ := hjoined h
    exact ⟨fun reply hr => absurd hr (hno reply), fun r hr =>
      ⟨publishKeyless_replay (hyes r hr), fun hu => hu.notKeyless hk⟩⟩
  · next hk =>
    split at h
    · next hd =>
      obtain ⟨hno, hyes⟩ := hjoined h
      exact ⟨fun reply hr => absurd hr (hno reply), fun r hr =>
        ⟨proveAndCommit_replay (hyes r hr), fun hu => hu.notDidKey hd⟩⟩
    · next hd =>
      split at h
      · next hp =>
        obtain ⟨pin, _, h₁, h⟩ := Handler.bind_ok.1 h
        obtain ⟨hpin, rfl⟩ := Handler.lift_ok.1 h₁
        split at h
        · next k a =>
          obtain ⟨hno, hyes⟩ := hjoined h
          refine ⟨fun reply hr => absurd hr (hno reply), fun r hr =>
            ⟨proveAndCommit_replay (hyes r hr), fun hu => ?_⟩⟩
          obtain ⟨pin, hpin', hnot⟩ := hu.notVerified
          rw [hpin] at hpin'
          cases hpin'
          exact hnot k a rfl
        · next hnot =>
          obtain ⟨found, s₁, h₂, h⟩ := Handler.bind_ok.1 h
          obtain rfl := unpinnedLookup_ok h₂
          split at h
          · obtain ⟨_, s₂, h₃, h⟩ := Handler.bind_ok.1 h
            obtain ⟨rfl, rfl⟩ := Handler.pure_ok.1 h
            refine ⟨fun reply hr => ⟨arm_ok h₃, hk, hd, hp, pin, hpin, fun k a => hnot k a⟩, fun r hr => ?_⟩
            cases hr
          · obtain ⟨hno, hyes⟩ := hjoined h
            exact ⟨fun reply hr => absurd hr (hno reply), fun r hr =>
              absurd (hyes r hr) unpinnedPublish_not_replay⟩
      · next hp =>
        obtain ⟨hno, hyes⟩ := hjoined h
        exact ⟨fun reply hr => absurd hr (hno reply), fun r hr =>
          ⟨proveAndCommit_replay (hyes r hr), fun hu => hp hu.enabled⟩⟩

end Branches

/-! ## Replays -/

theorem stampTenant_ok {state : AppState} {tenant : Option String} {ctxId : String}
    {s s' : HandlerState} {u : Unit}
    (h : (PublishHandler.stampTenant state tenant ctxId).exec s = (.ok u, s')) :
    (state.playground.enabled = true ∧ ∃ t, tenant = some t ∧ s'.db = setTenantOfCtx ctxId t s.db) ∨
      ((state.playground.enabled = false ∨ tenant = none) ∧ s'.db = s.db) := by
  unfold PublishHandler.stampTenant at h
  cases hp : state.playground.enabled with
  | false =>
    rw [hp] at h
    obtain ⟨-, rfl⟩ := Handler.pure_ok.1 h
    exact .inr ⟨.inl rfl, rfl⟩
  | true =>
    rw [hp] at h
    cases tenant with
    | none =>
      obtain ⟨-, rfl⟩ := Handler.pure_ok.1 h
      exact .inr ⟨.inr rfl, rfl⟩
    | some t =>
      obtain rfl := Handler.modify_ok.1 h
      exact .inl ⟨rfl, t, rfl, rfl⟩

/-- The request's tenant would be stamped on the recorded context, which has another one. -/
def Restamps (state : AppState) (headers : Headers) (peer : Option IpAddr) (req : PublishRequest)
    (draw : RequestDraw) (db : Db) : Prop :=
  state.playground.enabled = true ∧ ¬Unpinned state draw req ∧
    ∃ t r, state.tenants.tenantForPublish headers req.agentId peer = .ok (some t) ∧
      db.recorded req.agentId (idempotencyKeyOf headers) = some r ∧
      ∃ row ∈ db.contexts, row.body.ctxId = r.ctxId ∧ row.tenantId ≠ t

/-- **When a replay changes nothing.**  A publish answered as a replay leaves every table as it was exactly
    when it does not stamp the recorded context with another tenant, which takes playground mode and a
    branch other than the unpinned one. -/
theorem replay_changes_nothing_iff {state : AppState} {headers : Headers} {peer : Option IpAddr}
    {req : PublishRequest} {draw : RequestDraw} {s s' : HandlerState} {reply : PublishReply}
    (hkeys : s.db.KeysUnique)
    (h : (PublishHandler.publishInner state headers peer (.ok req) draw).exec s = (.ok reply, s'))
    (hreplay : reply.status = 200) :
    s'.db = s.db ↔ ¬Restamps state headers peer req draw s.db := by
  obtain ⟨_, _, h₁, h⟩ := Handler.bind_ok.1 h
  obtain ⟨hreq, rfl⟩ := Handler.lift_ok.1 h₁
  cases hreq
  obtain ⟨_, _, h₂, h⟩ := Handler.bind_ok.1 h
  obtain ⟨-, rfl⟩ := Handler.lift_ok.1 h₂
  obtain ⟨_, _, h₃, h⟩ := Handler.bind_ok.1 h
  obtain ⟨-, rfl⟩ := Handler.lift_ok.1 h₃
  obtain ⟨tenant, _, h₄, h⟩ := Handler.bind_ok.1 h
  obtain ⟨htenant, rfl⟩ := Handler.lift_ok.1 h₄
  obtain ⟨out, s₁, h₅, h⟩ := Handler.bind_ok.1 h
  obtain ⟨hanswered, hjoined⟩ := branch_replay h₅
  cases out with
  | answered reply' =>
    obtain ⟨rfl, rfl⟩ := Handler.pure_ok.1 h
    obtain ⟨hdb, hu⟩ := hanswered _ rfl
    exact ⟨fun _ hre => hre.2.1 hu, fun _ => hdb⟩
  | joined isReplay response =>
    obtain ⟨_, s₂, h₆, h⟩ := Handler.bind_ok.1 h
    obtain ⟨_, s₃, h₇, h⟩ := Handler.bind_ok.1 h
    obtain ⟨rfl, rfl⟩ := Handler.pure_ok.1 h
    obtain rfl : isReplay = true := by
      cases isReplay
      · simp [publishReply] at hreplay
      · rfl
    obtain ⟨⟨hdb, hrecorded⟩, hu⟩ := hjoined response rfl
    have hrec := hrecorded hkeys
    rw [arm_ok h₇]
    rcases stampTenant_ok h₆ with ⟨hp, t, rfl, hstamp⟩ | ⟨hno, hstamp⟩
    · rw [hstamp, hdb, setTenantOfCtx_eq_iff (tenantForPublish_ne htenant)]
      constructor
      · rintro hall ⟨-, -, t', r, ht', hr, row, hrow, hid, hne⟩
        rw [htenant] at ht'
        cases ht'
        rw [hrec] at hr
        cases hr
        exact hne (hall row hrow hid)
      · intro hnot row hrow hid
        by_contra hne
        exact hnot ⟨hp, hu, t, response, htenant, hrec, row, hrow, hid, hne⟩
    · refine ⟨?_, fun _ => hstamp.trans hdb⟩
      rintro - ⟨hp, -, t, r, ht, -⟩
      rw [htenant] at ht
      rcases hno with hno | rfl
      · rw [hp] at hno
        cases hno
      · cases ht

/-! ## Runs -/

def sampleState : AppState where
  store := { dialect := .sqlite, api := Sample.api }
  api := Sample.publishApi
  authority := "registry"
  idempotencyKeyTtl := 10 ^ 9
  tenants := { tenantHeaderTrust := .anyPeer }
  playground := { enabled := true }

def samplePublish (tenant : String) : PublishHandler PublishReply :=
  .publishInner sampleState { idempotencyKey := some "key", tenantId := some tenant } none
    (.ok (Sample.request "did:key:z1" "hash")) { commit := { now := 0, ctxId := "ctx1" } }

def sampleStored : HandlerState := { db := ((samplePublish "a").exec { db := {} }).2.db }

/-- The same publish for tenant `b` is answered as a replay and moves the context. -/
theorem replay_moves_context :
    ∃ reply s', (samplePublish "b").exec sampleStored = (.ok reply, s') ∧ reply.status = 200 ∧
      sampleStored.db.contexts.map (·.tenantId) = ["a"] ∧
      s'.db.contexts.map (·.tenantId) = ["b"] :=
  ⟨_, _, rfl, by decide, by decide, by decide⟩

theorem replay_changes_nothing_sample :
    ∃ reply s', (samplePublish "a").exec sampleStored = (.ok reply, s') ∧ reply.status = 200 ∧
      s'.db = sampleStored.db := by
  obtain ⟨reply, s', h, hstatus⟩ : ∃ reply s', (samplePublish "a").exec sampleStored =
      (.ok reply, s') ∧ reply.status = 200 := ⟨_, _, rfl, by decide⟩
  have hkeys : sampleStored.db.KeysUnique := by
    unfold Db.KeysUnique
    decide
  refine ⟨reply, s', h, hstatus, (replay_changes_nothing_iff hkeys h hstatus).2 ?_⟩
  rintro ⟨-, -, t, r, ht, -, row, hrow, -, hne⟩
  have hrows : ∀ row ∈ sampleStored.db.contexts, row.tenantId = "a" := by decide
  have ht' : t = "a" := by
    have : sampleState.tenants.tenantForPublish
        { idempotencyKey := some "key", tenantId := some "a" } "did:key:z1" none = .ok (some "a") := rfl
    rw [show (Sample.request "did:key:z1" "hash").agentId = "did:key:z1" from rfl, this] at ht
    cases ht
    rfl
  exact hne ((hrows row hrow).trans ht'.symm)

end AcdpRegistry
