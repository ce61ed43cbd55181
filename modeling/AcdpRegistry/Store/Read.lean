/-
  `get`, `lineage` and `current` of the SQL backends.

  Each reads the rows with one query and the events with another, without a
  shared snapshot, so a call is given two states: the one its rows come from and
  the later one its events come from.  The status is reconciled in one direction
  only.  What is served agrees with itself unless the context was retracted at the
  first read and is no longer at the second.
-/
import AcdpRegistry.Store.History
import Mathlib.Data.List.Sort

namespace AcdpRegistry

open Lib

/-! ## The reads -/

def Db.lineageEvents (db : Db) (lineageId : String) : List LifecycleEventRow :=
  db.lifecycleEvents.filter fun r =>
    (db.context? r.event.ctxId).any (·.body.lineageId = lineageId)

/-- `retrieve_visible`: who may retrieve a body. -/
def Body.retrieveVisible (body : Body) (requester : Option String) (publicArmOpen : Bool) : Bool :=
  match body.visibility with
  | .public_ => publicArmOpen || requester.isSome
  | .restricted | .private_ =>
    match requester with
    | none => false
    | some r => r = body.agentId || body.audience.any (·.any (· = r))

namespace SqlStore

variable (st : SqlStore)

def withEvents (ctx : FullContext) (slots : List EventSlot) : FullContext :=
  FullContext.attachEvents
    { ctx with status := reconcileRetraction st.api ctx.status (slots.map Prod.fst) } slots st.minting

def get (ctxId : String) (now : ℤ) (atRow atEvents : Db) : Option FullContext :=
  (atRow.context? ctxId).map fun row =>
    (st.withEvents row.toContext (eventSlots st.api (atEvents.events ctxId))).project now

/-- `RegistryServer::retrieve`: what the requester may retrieve of `get`. -/
def retrieve (ctxId : String) (requester : Option String) (publicArmOpen : Bool) (now : ℤ)
    (atRow atEvents : Db) : Option FullContext :=
  (st.get ctxId now atRow atEvents).filter (·.body.retrieveVisible requester publicArmOpen)

/-- One version of `lineage`: without a group of events the row is served as it is. -/
def lineageEntry (now : ℤ) (events : List LifecycleEventRow) (row : ContextRow) : FullContext :=
  let group := events.filter (·.event.ctxId = row.body.ctxId)
  if group.isEmpty then row.toContext.project now
  else (st.withEvents row.toContext (eventSlots st.api group)).project now

def lineage (lineageId : String) (now : ℤ) (atRows atEvents : Db) : List FullContext :=
  ((atRows.lineageRows lineageId).insertionSort fun a b => Db.rowLe a b = true).map
    (st.lineageEntry now (atEvents.lineageEvents lineageId))

/-- `current`: the newest version that is neither superseded nor retracted. -/
def current (lineageId : String) (now : ℤ) (atRows atEvents : Db) : Option FullContext :=
  (st.lineage lineageId now atRows atEvents).reverse.find? fun ctx =>
    ctx.status ≠ .superseded ∧ ctx.status ≠ .retracted

end SqlStore

/-! ## Agreement -/

/-- The served status is `retracted` exactly when the last served event is a retraction. -/
def FullContext.Agrees (ctx : FullContext) : Prop :=
  ctx.status = .retracted ↔ EndsRetracted (ctx.lifecycleEvents.getD [])

def Db.Retracted (db : Db) (ctxId : String) : Prop :=
  ∃ row, db.context? ctxId = some row ∧ row.retracted = true

/-- A retraction ends between the two states. -/
def Restored (db db' : Db) (ctxId : String) : Prop := db.Retracted ctxId ∧ ¬db'.Retracted ctxId

theorem Alternates.endsRetracted_iff {events : List LifecycleEvent} (h : Alternates events) :
    EndsRetracted events ↔ lastRetracts events = true := by
  induction events using List.reverseRecOn with
  | nil => simp [not_endsRetracted_nil, lastRetracts]
  | append_singleton events e _ =>
    obtain ⟨-, he⟩ := alternates_concat.1 h
    rw [endsRetracted_concat, lastRetracts_concat, he]
    split_ifs <;> simp

theorem History.retracted_iff {db : Db} (h : History db) (ctxId : String) :
    db.Retracted ctxId ↔ lastRetracts (db.history ctxId) = true := by
  rw [← (h.alternates ctxId).endsRetracted_iff]
  constructor
  · rintro ⟨row, hrow, hflag⟩
    exact (h.flag ctxId row hrow).1 hflag
  · intro hends
    cases hrow : db.context? ctxId with
    | none =>
      rw [h.known ctxId hrow] at hends
      exact absurd hends not_endsRetracted_nil
    | some row => exact ⟨row, hrow, (h.flag ctxId row hrow).2 hends⟩

theorem reconcileRetraction_retracted_iff {api : AcdpApi} {status : Status}
    {events : List LifecycleEvent} : reconcileRetraction api status events = .retracted ↔
      status = .retracted ∨ lastRetracts events = true := by
  unfold reconcileRetraction
  rw [api.retractionState_eq]
  split_ifs with h
  · simpa using h
  · simp only [Bool.or_eq_true, decide_eq_true_eq] at h
    exact ⟨.inl, fun hor => absurd hor h⟩

theorem toContext_retracted_iff {row : ContextRow} (h : row.status ≠ .retracted) :
    row.toContext.status = .retracted ↔ row.retracted = true := by
  unfold ContextRow.toContext
  cases row.retracted <;> simp [h]

section Served

variable (st : SqlStore) (ctx : FullContext) (slots : List EventSlot) (now : ℤ)

theorem attachEventReceipts_frame (receipts : List (Option EventReceipt)) (minting : Bool) :
    ∃ served, ctx.attachEventReceipts receipts minting = { ctx with eventReceipts := served } := by
  unfold FullContext.attachEventReceipts
  split
  · exact ⟨ctx.eventReceipts, rfl⟩
  · simp only
    split
    · exact ⟨none, rfl⟩
    · exact ⟨_, rfl⟩

theorem withEvents_frame : ∃ served, st.withEvents ctx slots = { ctx with
    status := reconcileRetraction st.api ctx.status (slots.map Prod.fst)
    lifecycleEvents := if (slots.map Prod.fst).isEmpty then none else some (slots.map Prod.fst)
    eventReceipts := served } :=
  attachEventReceipts_frame _ _ st.minting

theorem withEvents_body : ((st.withEvents ctx slots).project now).body = ctx.body := by
  obtain ⟨served, h⟩ := withEvents_frame st ctx slots
  rw [h]
  rfl

theorem withEvents_status_iff : ((st.withEvents ctx slots).project now).status = .retracted ↔
    ctx.status = .retracted ∨ lastRetracts (slots.map Prod.fst) = true := by
  obtain ⟨served, h⟩ := withEvents_frame st ctx slots
  rw [FullContext.project, projectStatusInline_retracted_iff, h]
  exact reconcileRetraction_retracted_iff

theorem withEvents_events :
    ((st.withEvents ctx slots).project now).lifecycleEvents.getD [] = slots.map Prod.fst := by
  obtain ⟨served, h⟩ := withEvents_frame st ctx slots
  rw [FullContext.project, h]
  simp only
  split_ifs with hempty
  · exact (List.isEmpty_iff.1 hempty).symm
  · rfl

variable {row : ContextRow} {rows : List LifecycleEventRow}

theorem withEvents_agrees_iff (hstatus : row.status ≠ .retracted)
    (halt : Alternates (rows.map (·.event))) :
    ((st.withEvents row.toContext (eventSlots st.api rows)).project now).Agrees ↔
      ¬(row.retracted = true ∧ ¬lastRetracts (rows.map (·.event)) = true) := by
  rw [FullContext.Agrees, withEvents_status_iff, withEvents_events, eventSlots_fst,
    halt.endsRetracted_iff, toContext_retracted_iff hstatus]
  tauto

theorem lineageEntry_agrees_iff (hstatus : row.status ≠ .retracted)
    (halt : Alternates ((rows.filter (·.event.ctxId = row.body.ctxId)).map (·.event))) :
    (st.lineageEntry now rows row).Agrees ↔ ¬(row.retracted = true ∧ ¬lastRetracts
      ((rows.filter (·.event.ctxId = row.body.ctxId)).map (·.event)) = true) := by
  unfold SqlStore.lineageEntry
  simp only
  split_ifs with hempty
  · rw [List.isEmpty_iff.1 hempty, FullContext.Agrees, FullContext.project,
      projectStatusInline_retracted_iff, toContext_retracted_iff hstatus]
    simp [ContextRow.toContext, not_endsRetracted_nil, lastRetracts]
  · exact withEvents_agrees_iff st now hstatus halt

theorem lineageEntry_body : (st.lineageEntry now rows row).body = row.body := by
  unfold SqlStore.lineageEntry
  simp only
  split_ifs
  · rfl
  · exact withEvents_body st _ _ now

theorem lineageEntry_retracted (h : row.retracted = true) :
    (st.lineageEntry now rows row).status = .retracted := by
  have hrow : row.toContext.status = .retracted := by simp [ContextRow.toContext, h]
  unfold SqlStore.lineageEntry
  simp only
  split_ifs
  · rw [FullContext.project, projectStatusInline_retracted_iff]
    exact hrow
  · exact (withEvents_status_iff st _ _ now).2 (.inl hrow)

end Served

theorem Db.lineageEvents_filter {db : Db} {ctxId : String} {row : ContextRow}
    (h : db.context? ctxId = some row) :
    (db.lineageEvents row.body.lineageId).filter (·.event.ctxId = ctxId) = db.events ctxId := by
  rw [Db.lineageEvents, List.filter_filter, Db.events]
  refine List.filter_congr fun r _ => ?_
  by_cases hr : r.event.ctxId = ctxId
  · simp [hr, h]
  · simp [hr]

/-! ## Runs -/

section Runs

variable {ι : Type} {call : ι → Call} (S : StoreSchedule call)

theorem forall_update {P : ContextRow → Prop} {rows : List ContextRow} {ctxId : String}
    {f : ContextRow → ContextRow} (h : ∀ row ∈ rows, P row) (hf : ∀ row, P row → P (f row)) :
    ∀ row ∈ Db.update rows ctxId f, P row := by
  intro row hrow
  obtain ⟨old, hold, rfl⟩ := List.mem_map.1 hrow
  split_ifs
  · exact hf old (h old hold)
  · exact h old hold

theorem CommitStep.status {seen : Db → Prop} {call : Call} {db db' : Db} {a : CallDone}
    (h : CommitStep seen call db db' a) (hdb : ∀ row ∈ db.contexts, row.status ≠ .retracted) :
    ∀ row ∈ db'.contexts, row.status ≠ .retracted := by
  cases h with
  | @publish st c draw _ p hacc =>
    have happ : ∀ row ∈ db.contexts ++ [p.row], row.status ≠ .retracted := by
      intro row hrow
      rcases List.mem_append.1 hrow with hold | hnew
      · exact hdb row hold
      · rw [List.mem_singleton.1 hnew, hacc.row]
        simp [SqlStore.newRow]
    simp only [Db.publish]
    split
    · exact forall_update happ (by exact fun _ _ => by simp)
    · exact happ
  | event => exact forall_update hdb fun _ h => h
  | evict => exact hdb

theorem status_reachable (h0 : S.db 0 = {}) (n : ℕ) :
    ∀ row ∈ (S.db n).contexts, row.status ≠ .retracted := by
  refine S.keeps (I := fun db => ∀ row ∈ db.contexts, row.status ≠ .retracted) ?_
    (fun n i hn hI => ?_) n
  · simp [h0]
  · obtain ⟨a, -, hs⟩ := commit_step S hn
    exact hs.status (hI n le_rfl)

theorem not_restored_iff (h0 : S.db 0 = {}) {m n : ℕ} {row : ContextRow}
    (hrow : (S.db m).context? row.body.ctxId = some row) :
    ¬Restored (S.db m) (S.db n) row.body.ctxId ↔ ¬(row.retracted = true ∧
      ¬lastRetracts ((S.db n).history row.body.ctxId) = true) := by
  have hm : (S.db m).Retracted row.body.ctxId ↔ row.retracted = true := by
    constructor
    · rintro ⟨row', hrow', hflag⟩
      rw [hrow] at hrow'
      cases hrow'
      exact hflag
    · exact fun hflag => ⟨row, hrow, hflag⟩
  rw [Restored, hm, (history_reachable S h0 n).retracted_iff]

theorem lineage_entry {st : SqlStore} {now : ℤ} (h0 : S.db 0 = {}) {m n : ℕ} (hmn : m ≤ n)
    {lineageId : String} {ctx : FullContext} (h : ctx ∈ st.lineage lineageId now (S.db m) (S.db n)) :
    ∃ row, (S.db m).context? row.body.ctxId = some row ∧ ctx.body = row.body ∧
      (row.retracted = true → ctx.status = .retracted) ∧
      (ctx.Agrees ↔ ¬Restored (S.db m) (S.db n) row.body.ctxId) := by
  obtain ⟨row, hmem, rfl⟩ := List.mem_map.1 h
  rw [List.mem_insertionSort, Db.lineageRows, List.mem_filter, decide_eq_true_eq] at hmem
  obtain ⟨hmem, rfl⟩ := hmem
  have hrow := (unique_ids S h0 m).context? hmem
  obtain ⟨row', hrow', hsame⟩ := row_kept S hmn hrow
  have hevents := Db.lineageEvents_filter hrow'
  rw [hsame.body] at hevents
  refine ⟨row, hrow, lineageEntry_body st now, lineageEntry_retracted st now, ?_⟩
  rw [not_restored_iff S h0 hrow, lineageEntry_agrees_iff st now (status_reachable S h0 m row hmem),
    hevents]
  · rfl
  · rw [hevents]
    exact (history_reachable S h0 n).alternates _

end Runs

/-- **When the served status agrees with the served events.**  In every interleaving of calls, for rows
    read at one moment and events then or later: what `get` or `lineage` serves agrees unless it was
    retracted at the first read and no longer at the second; what `current` serves always agrees. -/
theorem served_status_agrees_iff {ι : Type} {call : ι → Call} (S : StoreSchedule call)
    (h0 : S.db 0 = {}) {m n : ℕ} (hmn : m ≤ n) (st : SqlStore) (now : ℤ) :
    (∀ ctxId ctx, st.get ctxId now (S.db m) (S.db n) = some ctx →
      (ctx.Agrees ↔ ¬Restored (S.db m) (S.db n) ctxId)) ∧
    (∀ lineageId, ∀ ctx ∈ st.lineage lineageId now (S.db m) (S.db n),
      (ctx.Agrees ↔ ¬Restored (S.db m) (S.db n) ctx.body.ctxId)) ∧
    (∀ lineageId ctx, st.current lineageId now (S.db m) (S.db n) = some ctx → ctx.Agrees) := by
  refine ⟨?_, ?_, ?_⟩
  · intro ctxId ctx hget
    obtain ⟨row, hrow, rfl⟩ := Option.map_eq_some_iff.1 hget
    obtain ⟨hmem, rfl⟩ := Db.context?_eq_some hrow
    rw [not_restored_iff S h0 hrow]
    exact withEvents_agrees_iff st now (status_reachable S h0 m row hmem)
      ((history_reachable S h0 n).alternates _)
  · intro lineageId ctx hctx
    obtain ⟨row, -, hbody, -, hagrees⟩ := lineage_entry S h0 hmn hctx
    rw [hbody]
    exact hagrees
  · intro lineageId ctx hcurrent
    have hctx := List.mem_reverse.1 (List.mem_of_find?_eq_some hcurrent)
    have hhead := List.find?_some hcurrent
    simp only [decide_eq_true_eq] at hhead
    obtain ⟨row, hrow, -, hretracted, hagrees⟩ := lineage_entry S h0 hmn hctx
    refine hagrees.2 ?_
    rintro ⟨⟨row', hrow', hflag⟩, -⟩
    rw [hrow] at hrow'
    cases hrow'
    exact hhead.2 (hretracted hflag)

/-- **A published context is served for ever.**  Of a publish that committed, in any interleaving, every
    later `get` at its id serves the body that the request makes with the ids and the time of the answer,
    and the receipt of the answer. -/
theorem published_context_served {ι : Type} {call : ι → Call} (S : StoreSchedule call) {n : ℕ} {i : ι}
    {st : SqlStore} {c : PublishCommit} {draw : PublishDraw} (hn : S.commits n = some i)
    (hi : call i = .publish st c draw) :
    ∃ r, S.result i = .ok (.inserted r) ∧ ∀ m, n < m → ∀ m' (reader : SqlStore) now,
      ∃ ctx, reader.get r.ctxId now (S.db m) (S.db m') = some ctx ∧
        ctx.body = .fromPublishRequest c.req r.ctxId r.lineageId c.authority r.createdAt ∧
        ctx.registryReceipt = r.registryReceipt := by
  obtain ⟨a, hresult, hs⟩ := commit_step S hn
  rw [hi] at hs
  generalize hdb : S.db (n + 1) = db' at hs
  cases hs with
  | @publish _ _ _ _ p hacc =>
    obtain ⟨row, hrow, hsame⟩ := hacc.context?_publish
    refine ⟨p.response, hresult, fun m hm m' reader now => ?_⟩
    obtain ⟨row', hrow', hsame'⟩ := row_kept S hm (hdb ▸ hrow)
    refine ⟨_, congrArg _ hrow', ?_, ?_⟩
    · have hcreated : p.row.body.createdAt = wholeMs draw.now :=
        (congrArg Body.createdAt hacc.body).trans (wholeMs_wholeMs _)
      rw [withEvents_body, Publication.response, hcreated]
      exact (hsame.trans hsame').body.trans hacc.body
    · obtain ⟨served, h⟩ := withEvents_frame reader row'.toContext
        (eventSlots reader.api ((S.db m').events p.row.body.ctxId))
      exact (congrArg FullContext.registryReceipt h).trans (hsame.trans hsame').receipt

def sampleReader : SqlStore := { dialect := .sqlite, api := Sample.api }

def sampleRepublishCalls : Fin 3 → Call := fun i =>
  let event (id : String) (t : LifecycleEventType) : LifecycleEvent :=
    { eventId := id, ctxId := "ctx1", eventType := t, occurredAt := 10 ^ 6, actor := "agent" }
  if (i : ℕ) = 0 then
    .publish sampleReader { req := Sample.request "agent" "hash1", authority := "registry" }
      { now := 0, ctxId := "ctx1" }
  else if (i : ℕ) = 1 then .lifecycle sampleReader (event "e1" .retracted) { now := 2 * 10 ^ 6 }
  else .lifecycle sampleReader (event "e2" .republished) { now := 3 * 10 ^ 6 }

def sampleRepublish : StoreSchedule sampleRepublishCalls := Schedule.serial _ {}

/-- After its retraction and its republication the context is still the one that was published. -/
theorem published_context_sample : sampleRepublish.commits 0 = some 0 ∧
    (sampleReader.get "ctx1" 0 (sampleRepublish.db 3) (sampleRepublish.db 3)).map (·.body.contentHash) =
      some "hash1" := by
  have hcommits : sampleRepublish.commits 0 = some 0 := by decide
  obtain ⟨r, hresult, hserved⟩ := published_context_served sampleRepublish hcommits rfl
  obtain ⟨ctx, hget, hbody, -⟩ := hserved 3 (by decide) 3 sampleReader 0
  cases hresult
  exact ⟨hcommits, (congrArg _ hget).trans (congrArg (fun b : Body => some b.contentHash) hbody)⟩

/-- A retraction that commits between the two reads is served as one. -/
theorem served_status_agrees_sample :
    sampleRepublish.commits 1 = some 1 ∧
      ∃ ctx, sampleReader.get "ctx1" 0 (sampleRepublish.db 1) (sampleRepublish.db 2) = some ctx ∧
        ctx.status = .retracted ∧ ctx.Agrees := by
  refine ⟨by decide, _, rfl, by decide, ?_⟩
  refine ((served_status_agrees_iff sampleRepublish rfl (Nat.le_succ 1) sampleReader 0).1 "ctx1" _
    rfl).2 ?_
  rintro ⟨-, h⟩
  exact h ⟨_, rfl, rfl⟩

/-- A republication between the two reads: the context is served as retracted, with the event that ends
    the retraction. -/
theorem republished_between_reads_disagrees :
    sampleRepublish.commits 2 = some 2 ∧
      ∃ ctx, sampleReader.get "ctx1" 0 (sampleRepublish.db 2) (sampleRepublish.db 3) = some ctx ∧
        ctx.status = .retracted ∧
        (ctx.lifecycleEvents.map fun events => events.map (·.eventType)) =
          some [.retracted, .republished] ∧ ¬ctx.Agrees := by
  refine ⟨by decide, _, rfl, by decide, by decide, fun hagrees => ?_⟩
  obtain ⟨e, he, htype⟩ := hagrees.1 (by decide)
  cases he
  cases htype

end AcdpRegistry
