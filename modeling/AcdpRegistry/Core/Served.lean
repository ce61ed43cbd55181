/-
  What a feed row is served as.

  A row is filtered, and its visibility decided, on its columns; what a consumer reads
  is the entry that `to_change` builds, with ids from the columns or from the receipt,
  depending on the kind.  `check_servable` builds the entry once at write time and pins
  its lineage and its agent; the context ids follow from what the receipt was minted
  for.  So every derived row is served with its own ids (`toChange_of_derived`), and
  filter and visibility are those of the entry (`rows_judged_as_served`).
-/
import AcdpRegistry.Core.Changes
import AcdpRegistry.Store.CommitLifecycle
import AcdpRegistry.Lib.Handler

namespace AcdpRegistry

open Lib

/-! ## The protocol crate's constructors -/

structure ChangeIds where
  seq : ℕ
  kind : ChangeKind
  ctxId : String
  lineageId : String
  agentId : String
  supersededBy : Option String

def Change.ids (c : Change) : ChangeIds :=
  ⟨c.seq, c.kind, c.ctxId, c.lineageId, c.agentId, c.supersededBy⟩

def FeedRow.ids (r : FeedRow) : ChangeIds :=
  ⟨r.seq, r.kind, r.ctxId, r.lineageId, r.agentId, r.supersededBy⟩

/-- The row that an append is stored as. -/
def FeedAppend.row (a : FeedAppend) (seq : ℕ) (appendedAtMs : ℤ) : FeedRow := { a with seq, appendedAtMs }

structure ReceiptIds where
  /-- `EventReceipt::ctx_id`. -/
  eventCtxId : Json → String
  /-- `RegistryReceipt::ctx_id`. -/
  registryCtxId : Json → String
  /-- `RegistryReceipt::lineage_id`. -/
  registryLineageId : Json → String

/-- The `Change` constructors take their ids from the arguments and the receipt, whatever the positive
    position; `CtxId::parse` keeps the text. -/
structure ChangeApi.TakesIds (api : ChangeApi) (ids : ReceiptIds) : Prop where
  lifecycle : ∀ seq lineage agent event receipt c, api.lifecycle seq lineage agent event receipt = .ok c →
    c.ids = ⟨seq, .lifecycle, ids.eventCtxId receipt, lineage, agent, none⟩
  superseded : ∀ seq ctx agent receipt c, api.superseded seq ctx agent receipt = .ok c →
    c.ids = ⟨seq, .superseded, ctx, ids.registryLineageId receipt, agent, some (ids.registryCtxId receipt)⟩
  keyRevocation : ∀ seq agent receipt c, api.keyRevocation seq agent receipt = .ok c →
    c.ids = ⟨seq, .keyRevocation, ids.registryCtxId receipt, ids.registryLineageId receipt, agent, none⟩
  lifecycle_seq : ∀ seq seq' lineage agent event receipt c, 0 < seq → 0 < seq' →
    api.lifecycle seq lineage agent event receipt = .ok c →
    ∃ c', api.lifecycle seq' lineage agent event receipt = .ok c'
  superseded_seq : ∀ seq seq' ctx agent receipt c, 0 < seq → 0 < seq' →
    api.superseded seq ctx agent receipt = .ok c → ∃ c', api.superseded seq' ctx agent receipt = .ok c'
  keyRevocation_seq : ∀ seq seq' agent receipt c, 0 < seq → 0 < seq' →
    api.keyRevocation seq agent receipt = .ok c → ∃ c', api.keyRevocation seq' agent receipt = .ok c'
  parseCtxId : ∀ text ctx, api.parseCtxId text = .ok ctx → ctx = text

/-! ## The entry of a row -/

section Entry

variable {api : ChangeApi} {ids : ReceiptIds} {r : FeedRow} {c : Change}

theorem toChange_lifecycle (hkind : r.kind = .lifecycle) : r.toChange api = .ok c ↔
    ∃ agent, api.parseAgentDid r.agentId = .ok agent ∧ ∃ raw, r.event = some raw ∧
      ∃ event, api.lifecycleEvent raw = .ok event ∧ ∃ receipt, api.eventReceipt r.receipt = .ok receipt ∧
        ∃ lineage, api.parseLineageId r.lineageId = .ok lineage ∧
          api.lifecycle r.seq lineage agent event receipt = .ok c := by
  rw [FeedRow.toChange, except_mapError_ok, except_bind_ok]
  refine exists_congr fun agent => and_congr Iff.rfl ?_
  rw [hkind]
  cases r.event with
  | none => simp [throw, throwThe, MonadExceptOf.throw]
  | some raw => simp only [except_bind_ok, Option.some.injEq, exists_eq_left']

theorem toChange_superseded (hkind : r.kind = .superseded) : r.toChange api = .ok c ↔
    ∃ agent, api.parseAgentDid r.agentId = .ok agent ∧ ∃ ctx, api.parseCtxId r.ctxId = .ok ctx ∧
      ∃ receipt, api.registryReceipt r.receipt = .ok receipt ∧
        api.superseded r.seq ctx agent receipt = .ok c := by
  rw [FeedRow.toChange, except_mapError_ok, except_bind_ok]
  refine exists_congr fun agent => and_congr Iff.rfl ?_
  rw [hkind]
  simp only [except_bind_ok]

theorem toChange_keyRevocation (hkind : r.kind = .keyRevocation) : r.toChange api = .ok c ↔
    ∃ agent, api.parseAgentDid r.agentId = .ok agent ∧
      ∃ receipt, api.registryReceipt r.receipt = .ok receipt ∧
        api.keyRevocation r.seq agent receipt = .ok c := by
  rw [FeedRow.toChange, except_mapError_ok, except_bind_ok]
  refine exists_congr fun agent => and_congr Iff.rfl ?_
  rw [hkind]
  simp only [except_bind_ok]

/-- **An entry at one position is an entry at every other**, with the same ids. -/
theorem ChangeApi.TakesIds.toChange_row (h : api.TakesIds ids) {a : FeedAppend} {seq seq' : ℕ}
    {ms : ℤ} (hseq : 0 < seq) (hseq' : 0 < seq') (ms' : ℤ) (hc : (a.row seq ms).toChange api = .ok c) :
    ∃ c', (a.row seq' ms').toChange api = .ok c' ∧ c'.ids = { c.ids with seq := seq' } := by
  cases hkind : a.kind with
  | lifecycle =>
    obtain ⟨agent, hagent, raw, hraw, event, hevent, receipt, hreceipt, lineage, hlineage, hc⟩ :=
      (toChange_lifecycle hkind).1 hc
    obtain ⟨c', hc'⟩ := h.lifecycle_seq _ seq' _ _ _ _ _ hseq hseq' hc
    refine ⟨c', (toChange_lifecycle hkind).2
      ⟨agent, hagent, raw, hraw, event, hevent, receipt, hreceipt, lineage, hlineage, hc'⟩, ?_⟩
    rw [h.lifecycle _ _ _ _ _ _ hc, h.lifecycle _ _ _ _ _ _ hc']
  | superseded =>
    obtain ⟨agent, hagent, ctx, hctx, receipt, hreceipt, hc⟩ := (toChange_superseded hkind).1 hc
    obtain ⟨c', hc'⟩ := h.superseded_seq _ seq' _ _ _ _ hseq hseq' hc
    refine ⟨c', (toChange_superseded hkind).2 ⟨agent, hagent, ctx, hctx, receipt, hreceipt, hc'⟩, ?_⟩
    rw [h.superseded _ _ _ _ _ hc, h.superseded _ _ _ _ _ hc']
  | keyRevocation =>
    obtain ⟨agent, hagent, receipt, hreceipt, hc⟩ := (toChange_keyRevocation hkind).1 hc
    obtain ⟨c', hc'⟩ := h.keyRevocation_seq _ seq' _ _ _ hseq hseq' hc
    refine ⟨c', (toChange_keyRevocation hkind).2 ⟨agent, hagent, receipt, hreceipt, hc'⟩, ?_⟩
    rw [h.keyRevocation _ _ _ _ hc, h.keyRevocation _ _ _ _ hc']

end Entry

/-! ## Derived rows -/

section Derived

variable {api : AcdpApi} {ids : ReceiptIds} {a : FeedAppend}

/-- A row that `lifecycle_append` or `feed_appends_for_publish` has accepted, with a receipt that was
    minted for the body. -/
inductive Derived (api : AcdpApi) (ids : ReceiptIds) : FeedAppend → Prop
  | lifecycle (event : LifecycleEvent) (body : Body) (receipt : Json) (a : FeedAppend) :
    (∀ parsed, api.changes.eventReceipt receipt = .ok parsed → ids.eventCtxId parsed = body.ctxId) →
    lifecycleAppend api event body (some receipt) = .ok (some a) → Derived api ids a
  | publish (body : Body) (receipt : Json) (predecessor : Option Predecessor) (rows : List FeedAppend)
    (a : FeedAppend) :
    (∀ parsed, api.changes.registryReceipt receipt = .ok parsed → ids.registryCtxId parsed = body.ctxId) →
    feedAppendsForPublish api body (some receipt) predecessor = .ok rows → a ∈ rows → Derived api ids a

theorem checkServable_ok (h : checkServable api a = .ok ()) :
    ∃ c, (a.row 1 0).toChange api.changes = .ok c ∧ c.lineageId = a.lineageId ∧ c.agentId = a.agentId ∧
      a.lineageHash = api.bucketHash a.lineageId ∧ a.agentHash = api.bucketHash a.agentId := by
  obtain ⟨c, hc, h⟩ := except_bind_ok.1 h
  obtain ⟨_, hlineage, hagent⟩ := except_bind_ok.1 h
  have hpinned : ∀ {e : AcdpError} {served column hash : String},
      (if served ≠ column ∨ hash ≠ api.bucketHash served then Except.error e else .ok ()) = .ok () →
      served = column ∧ hash = api.bucketHash column := by
    intro e served column hash hok
    split at hok
    · cases hok
    · next hsame =>
      obtain ⟨rfl, hhash⟩ := not_or.1 hsame |>.imp not_not.1 not_not.1
      exact ⟨rfl, hhash⟩
  obtain ⟨hl, hlh⟩ := hpinned hlineage
  obtain ⟨ha, hah⟩ := hpinned hagent
  exact ⟨c, hc, hl, ha, hlh, hah⟩

theorem feedAppendsForPublish_rows {body : Body} {receipt : Json} {predecessor : Option Predecessor}
    {rows : List FeedAppend} (h : feedAppendsForPublish api body (some receipt) predecessor = .ok rows) :
    ∀ a ∈ rows, checkServable api a = .ok () ∧
      ((∃ prev, a = supersededAppend api body receipt prev) ∨
        ∃ controller, a = FeedAppend.derive api .keyRevocation body.ctxId body.lineageId controller
          none none receipt) := by
  intro a ha
  have hout : ∀ revocation : List FeedAppend,
      (do (predecessor.toList.map (supersededAppend api body receipt) ++ revocation).forM (checkServable api)
          pure (predecessor.toList.map (supersededAppend api body receipt) ++ revocation)) = Except.ok rows →
      (∀ b ∈ rows, checkServable api b = .ok ()) ∧
        ((∃ prev, a = supersededAppend api body receipt prev) ∨ a ∈ revocation) := by
    intro revocation hok
    obtain ⟨_, hcheck, hrows⟩ := except_bind_ok.1 hok
    cases hrows
    refine ⟨except_forM_ok.1 hcheck, (List.mem_append.1 ha).imp_left fun ha => ?_⟩
    obtain ⟨prev, -, rfl⟩ := List.mem_map.1 ha
    exact ⟨prev, rfl⟩
  unfold feedAppendsForPublish at h
  simp only at h
  split at h
  · obtain ⟨controller, -, h⟩ := except_bind_ok.1 h
    obtain ⟨hcheck, hform⟩ := hout _ h
    exact ⟨hcheck a ha, hform.imp_right fun hin => ⟨controller, List.mem_singleton.1 hin⟩⟩
  · obtain ⟨hcheck, hform⟩ := hout _ h
    exact ⟨hcheck a ha, hform.imp_right fun hin => absurd hin List.not_mem_nil⟩

/-- The row's context ids are those of its receipt, where the entry takes them from there. -/
structure FeedAppend.Minted (api : AcdpApi) (ids : ReceiptIds) (a : FeedAppend) : Prop where
  lifecycle : a.kind = .lifecycle → a.supersededBy = none ∧
    ∀ parsed, api.changes.eventReceipt a.receipt = .ok parsed → ids.eventCtxId parsed = a.ctxId
  superseded : a.kind = .superseded → ∀ parsed, api.changes.registryReceipt a.receipt = .ok parsed →
    a.supersededBy = some (ids.registryCtxId parsed)
  keyRevocation : a.kind = .keyRevocation → a.supersededBy = none ∧
    ∀ parsed, api.changes.registryReceipt a.receipt = .ok parsed → ids.registryCtxId parsed = a.ctxId

theorem Derived.checked (h : Derived api ids a) : checkServable api a = .ok () ∧ a.Minted api ids := by
  cases h with
  | lifecycle event body receipt _ hminted h =>
    obtain ⟨value, -, h⟩ := except_bind_ok.1 h
    obtain ⟨_, hcheck, h⟩ := except_bind_ok.1 h
    cases h
    exact ⟨hcheck, fun _ => ⟨rfl, hminted⟩, by rintro ⟨⟩, by rintro ⟨⟩⟩
  | publish body receipt predecessor rows _ hminted h ha =>
    obtain ⟨hcheck, hrows⟩ := feedAppendsForPublish_rows h a ha
    refine ⟨hcheck, ?_⟩
    rcases hrows with ⟨prev, rfl⟩ | ⟨controller, rfl⟩
    · refine ⟨by rintro ⟨⟩, fun _ parsed hparsed => ?_, by rintro ⟨⟩⟩
      rw [hminted parsed hparsed]
      rfl
    · exact ⟨by rintro ⟨⟩, by rintro ⟨⟩, fun _ => ⟨rfl, hminted⟩⟩

theorem FeedAppend.Minted.ctxIds (hminted : a.Minted api ids) (hapi : api.changes.TakesIds ids)
    {seq : ℕ} {ms : ℤ} {c : Change} (hc : (a.row seq ms).toChange api.changes = .ok c) :
    c.seq = seq ∧ c.kind = a.kind ∧ c.ctxId = a.ctxId ∧ c.supersededBy = a.supersededBy := by
  have hfields : ∀ {i : ChangeIds}, c.ids = i →
      c.seq = i.seq ∧ c.kind = i.kind ∧ c.ctxId = i.ctxId ∧ c.supersededBy = i.supersededBy := by
    rintro _ rfl
    exact ⟨rfl, rfl, rfl, rfl⟩
  cases hkind : a.kind with
  | lifecycle =>
    obtain ⟨agent, -, raw, -, event, -, receipt, hreceipt, lineage, -, hc⟩ :=
      (toChange_lifecycle hkind).1 hc
    obtain ⟨hnone, hctx⟩ := hminted.lifecycle hkind
    rw [hnone, ← hctx receipt hreceipt]
    exact hfields (hapi.lifecycle _ _ _ _ _ _ hc)
  | superseded =>
    obtain ⟨agent, -, ctx, hctx, receipt, hreceipt, hc⟩ := (toChange_superseded hkind).1 hc
    have hkeep : ctx = a.ctxId := hapi.parseCtxId _ _ hctx
    rw [hminted.superseded hkind receipt hreceipt, ← hkeep]
    exact hfields (hapi.superseded _ _ _ _ _ hc)
  | keyRevocation =>
    obtain ⟨agent, -, receipt, hreceipt, hc⟩ := (toChange_keyRevocation hkind).1 hc
    obtain ⟨hnone, hctx⟩ := hminted.keyRevocation hkind
    rw [hnone, ← hctx receipt hreceipt]
    exact hfields (hapi.keyRevocation _ _ _ _ hc)

/-- **A derived row is served at every position**, with the ids in its columns. -/
theorem toChange_of_derived (hapi : api.changes.TakesIds ids) (h : Derived api ids a) {seq : ℕ}
    (hseq : 0 < seq) (ms : ℤ) :
    ∃ c, (a.row seq ms).toChange api.changes = .ok c ∧ c.ids = (a.row seq ms).ids ∧
      a.lineageHash = api.bucketHash c.lineageId ∧ a.agentHash = api.bucketHash c.agentId := by
  obtain ⟨hcheck, hminted⟩ := h.checked
  obtain ⟨c₁, hc₁, hlineage, hagent, hlh, hah⟩ := checkServable_ok hcheck
  obtain ⟨c, hc, hids⟩ := hapi.toChange_row Nat.one_pos hseq ms hc₁
  have hl : c.lineageId = a.lineageId := (congrArg ChangeIds.lineageId hids).trans hlineage
  have ha : c.agentId = a.agentId := (congrArg ChangeIds.agentId hids).trans hagent
  obtain ⟨hseq', hkind, hctx, hsup⟩ := hminted.ctxIds hapi hc
  refine ⟨c, hc, ?_, by rw [hl, hlh], by rw [ha, hah]⟩
  simp only [Change.ids, hseq', hkind, hctx, hsup, hl, ha]
  rfl

end Derived

/-! ## Filter and visibility of an entry -/

/-- The bucket of a value, as long as `digits`. -/
def inBucket (api : AcdpApi) (value digits : String) : Prop :=
  (api.bucketHash value).toList.take digits.length = digits.toList

/-- The filter names the entry's kind, and an id or a bucket of it, or it is a key revocation of a
    watched context's producer. -/
def WatchFilter.AsksFor (api : AcdpApi) (env : ChangesEnv) (f : WatchFilter) (c : Change) : Prop :=
  (f.kind = [] ∨ c.kind ∈ f.kind) ∧
    (f.ctxId = [] ∧ f.lineageId = [] ∧ f.agentId = [] ∧ f.lineageBucket = [] ∧ f.agentBucket = [] ∨
      c.ctxId ∈ f.ctxId ∨ c.lineageId ∈ f.lineageId ∨ c.agentId ∈ f.agentId ∨
      (c.kind = .keyRevocation ∧ c.agentId ∈ env.revocationAgents f.ctxId) ∨
      (∃ b ∈ f.lineageBucket, inBucket api c.lineageId b) ∨ ∃ b ∈ f.agentBucket, inBucket api c.agentId b)

def Change.Names (c : Change) (ctxId : String) : Prop := c.ctxId = ctxId ∨ c.supersededBy = some ctxId

theorem mapM_parse {api : ChangeApi} {maxLen : ℕ} {raws : List String} {bs : List Bucket}
    (h : (raws.mapM fun b => Bucket.parse api b maxLen) = .ok bs) : bs = raws.map Bucket.mk := by
  induction except_mapM_ok.1 h with
  | nil => rfl
  | cons hb hbs ih =>
    obtain ⟨_, -, hb⟩ := except_bind_ok.1 hb
    cases hb
    rw [ih (except_mapM_ok.2 hbs), List.map_cons]

theorem filterQuery_ok {env : ChangesEnv} {f : WatchFilter} {q : FeedQuery}
    (h : filterQuery env f = .ok q) :
    q = { ctxIds := f.ctxId, lineageIds := f.lineageId, agentIds := f.agentId,
          revocationAgents := env.revocationAgents f.ctxId,
          lineageBuckets := f.lineageBucket.map Bucket.mk, agentBuckets := f.agentBucket.map Bucket.mk,
          kinds := f.kind } := by
  obtain ⟨lineageBuckets, hl, h⟩ := except_bind_ok.1 h
  obtain ⟨agentBuckets, ha, h⟩ := except_bind_ok.1 h
  cases h
  rw [mapM_parse (except_mapError_ok.1 hl), mapM_parse (except_mapError_ok.1 ha)]

theorem contains_iff_inBucket {api : AcdpApi} {digits value hash : String}
    (h : hash = api.bucketHash value) :
    (Bucket.mk digits).contains hash = true ↔ inBucket api value digits := by
  rw [Bucket.contains, List.isPrefixOf_iff_prefix, List.prefix_iff_eq_take, inBucket, h,
    String.length_toList, eq_comm]

/-- **A row is selected exactly if its entry is asked for.** -/
theorem matches_iff_asksFor {api : AcdpApi} {env : ChangesEnv} {f : WatchFilter} {q : FeedQuery}
    {r : FeedRow} {c : Change} (hq : filterQuery env f = .ok q) (hids : c.ids = r.ids)
    (hl : r.lineageHash = api.bucketHash c.lineageId) (ha : r.agentHash = api.bucketHash c.agentId) :
    q.matches r = true ↔ f.AsksFor api env c := by
  have hnone : f.ctxId = [] → env.revocationAgents f.ctxId = [] := by
    intro h
    rw [h]
    rfl
  have hbuckets : ∀ {raws : List String} {value hash : String}, hash = api.bucketHash value →
      ((raws.map Bucket.mk).any (·.contains hash) = true ↔ ∃ b ∈ raws, inBucket api value b) := by
    intro raws value hash hhash
    simp only [List.any_map, List.any_eq_true, Function.comp, contains_iff_inBucket hhash]
  injection hids with hseq hkind hctx hlineage hagent hsup
  rw [filterQuery_ok hq]
  simp only [FeedQuery.matches, FeedQuery.hasIdClause, WatchFilter.AsksFor, Bool.and_eq_true,
    Bool.or_eq_true, hbuckets hl, hbuckets ha, Bool.not_not, List.isEmpty_iff, List.contains_iff_mem,
    beq_iff_eq, List.map_eq_nil_iff, hkind, hctx, hlineage, hagent, or_assoc, and_assoc]
  rw [and_comm]
  refine and_congr Iff.rfl (or_congr ?_ Iff.rfl)
  constructor
  · rintro ⟨h₁, h₂, h₃, -, h⟩
    exact ⟨h₁, h₂, h₃, h⟩
  · rintro ⟨h₁, h₂, h₃, h⟩
    exact ⟨h₁, h₂, h₃, hnone h₁, h⟩

/-- **Filters and visibility are judged on what is served.**  A derived row is served at every
    position, with the row's ids and hashes; a filter selects the row exactly if it asks for the entry;
    and visibility is decided on a context the entry names. -/
theorem rows_judged_as_served {api : AcdpApi} {ids : ReceiptIds} (hapi : api.changes.TakesIds ids)
    {a : FeedAppend} (h : Derived api ids a) (seq : ℕ) (hseq : 0 < seq) (ms : ℤ) :
    ∃ c, (a.row seq ms).toChange api.changes = .ok c ∧ c.ids = (a.row seq ms).ids ∧
      a.lineageHash = api.bucketHash c.lineageId ∧ a.agentHash = api.bucketHash c.agentId ∧
      (∀ env f q, filterQuery env f = .ok q →
        (q.matches (a.row seq ms) = true ↔ f.AsksFor api env c)) ∧
      ∀ ctxId, visibilitySubject (a.row seq ms) = some ctxId → c.Names ctxId := by
  obtain ⟨c, hc, hids, hl, ha⟩ := toChange_of_derived hapi h hseq ms
  refine ⟨c, hc, hids, hl, ha, fun env f q hq => matches_iff_asksFor hq hids hl ha, fun ctxId hsubject => ?_⟩
  injection hids with hseq hkind hctx hlineage hagent hsup
  rw [visibilitySubject] at hsubject
  cases hrow : a.kind with
  | lifecycle =>
    rw [show (a.row seq ms).kind = .lifecycle from hrow] at hsubject
    exact .inl (hctx.trans (Option.some.inj hsubject))
  | superseded =>
    rw [show (a.row seq ms).kind = .superseded from hrow] at hsubject
    obtain ⟨agent, -, ctx, -, receipt, -, hentry⟩ := (toChange_superseded hrow).1 hc
    have hby := congrArg ChangeIds.supersededBy (hapi.superseded _ _ _ _ _ hentry)
    right
    rw [← hsup, show c.supersededBy = _ from hby] at hsubject
    rw [← Option.some.inj hsubject]
    exact hby
  | keyRevocation =>
    rw [show (a.row seq ms).kind = .keyRevocation from hrow] at hsubject
    cases hsubject

namespace Sample

def textAt (member : String) (j : Json) : String :=
  match j.get? member with
  | some (.string s) => s
  | _ => ""

def receiptIds : ReceiptIds := ⟨textAt "ctx_id", textAt "ctx_id", textAt "lineage_id"⟩

def servedChanges : ChangeApi :=
  { changes with
    lifecycle := fun seq lineage agent event receipt =>
      if seq = 0 then .error (.schemaViolation "seq")
      else .ok ⟨seq, .lifecycle, textAt "ctx_id" receipt, lineage, agent, none, some event, receipt⟩
    superseded := fun seq ctx agent receipt =>
      if seq = 0 then .error (.schemaViolation "seq")
      else .ok ⟨seq, .superseded, ctx, textAt "lineage_id" receipt, agent, some (textAt "ctx_id" receipt),
        none, receipt⟩
    keyRevocation := fun seq agent receipt =>
      if seq = 0 then .error (.schemaViolation "seq")
      else .ok ⟨seq, .keyRevocation, textAt "ctx_id" receipt, textAt "lineage_id" receipt, agent, none,
        none, receipt⟩ }

def servedApi : AcdpApi := { api with changes := servedChanges }

theorem servedChanges_takesIds : servedApi.changes.TakesIds receiptIds where
  lifecycle seq lineage agent event receipt c h := by
    by_cases h0 : seq = 0
    · cases (if_pos h0).symm.trans h
    · cases (if_neg h0).symm.trans h
      rfl
  superseded seq ctx agent receipt c h := by
    by_cases h0 : seq = 0
    · cases (if_pos h0).symm.trans h
    · cases (if_neg h0).symm.trans h
      rfl
  keyRevocation seq agent receipt c h := by
    by_cases h0 : seq = 0
    · cases (if_pos h0).symm.trans h
    · cases (if_neg h0).symm.trans h
      rfl
  lifecycle_seq seq seq' lineage agent event receipt c _ h' _ := ⟨_, if_neg h'.ne'⟩
  superseded_seq seq seq' ctx agent receipt c _ h' _ := ⟨_, if_neg h'.ne'⟩
  keyRevocation_seq seq seq' agent receipt c _ h' _ := ⟨_, if_neg h'.ne'⟩
  parseCtxId text ctx h := (Except.ok.inj h).symm

def servedBody : Body :=
  Body.fromPublishRequest { request "agent" "hash" with contextType := .keyRevocation } "ctx2" "lin1"
    "registry" 0

def servedReceipt : Json := .object [("ctx_id", .string "ctx2"), ("lineage_id", .string "lin1")]

def servedRow : FeedAppend := supersededAppend servedApi servedBody servedReceipt ⟨"ctx1", "other"⟩

theorem servedRow_derived : Derived servedApi receiptIds servedRow := by
  refine .publish servedBody servedReceipt (some ⟨"ctx1", "other"⟩) _ _ ?_ rfl List.mem_cons_self
  intro parsed h
  cases h
  rfl

end Sample

/-- A superseded row at position 5: its visibility is decided on the new version, which the entry
    names. -/
theorem rows_judged_as_served_sample :
    Sample.servedApi.changes.TakesIds Sample.receiptIds ∧
      Derived Sample.servedApi Sample.receiptIds Sample.servedRow ∧
      visibilitySubject (Sample.servedRow.row 5 0) = some "ctx2" ∧
      ∃ c, (Sample.servedRow.row 5 0).toChange Sample.servedApi.changes = .ok c ∧ c.Names "ctx2" := by
  refine ⟨Sample.servedChanges_takesIds, Sample.servedRow_derived, rfl, ?_⟩
  obtain ⟨c, hc, -, -, -, -, hnames⟩ := rows_judged_as_served Sample.servedChanges_takesIds
    Sample.servedRow_derived 5 (by decide) 0
  exact ⟨c, hc, hnames "ctx2" rfl⟩

end AcdpRegistry
