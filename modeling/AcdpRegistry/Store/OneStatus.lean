/-
  One status on every read path of the SQL backends.

  `Db.statusOf` is the status a context has by what happened to it: its last event, a
  successor, its expiry.  In every reachable state the status column is superseded just
  where there is a successor, and the flag follows the last event; so the status of a row
  with its flag and its expiry projected, which `get`, `lineage`, `current`, `search` and a
  lifecycle commit serve, is that status.  `list_contexts` leaves the expiry out.
-/
import AcdpRegistry.Store.PublishExits
import AcdpRegistry.Store.Read
import AcdpRegistry.Store.Search

namespace AcdpRegistry

open Lib

/-! ## The status of a context -/

def Db.Succeeded (db : Db) (ctxId : String) : Prop := ∃ row ∈ db.contexts, row.body.supersedes = some ctxId

instance (db : Db) (ctxId : String) : Decidable (db.Succeeded ctxId) :=
  inferInstanceAs (Decidable (∃ row ∈ db.contexts, _))

def Db.LastRetracts (db : Db) (ctxId : String) : Prop :=
  ∃ e ∈ (db.history ctxId).getLast?, e.eventType = .retracted

instance (db : Db) (ctxId : String) : Decidable (db.LastRetracts ctxId) :=
  inferInstanceAs (Decidable (∃ e ∈ (db.history ctxId).getLast?, _))

/-- Retracted, superseded, expired or active, in this order. -/
def Db.statusOf (db : Db) (body : Body) (now : ℤ) : Status :=
  if db.LastRetracts body.ctxId then .retracted
  else if db.Succeeded body.ctxId then .superseded
  else if ∃ e ∈ body.expiresAt, e ≤ now then .expired
  else .active

theorem projectStatusInline_active (expiresAt : Option ℤ) (now : ℤ) :
    projectStatusInline .active expiresAt now =
      if ∃ e ∈ expiresAt, e ≤ now then .expired else .active := by
  cases expiresAt with
  | none => rfl
  | some e => simp [projectStatusInline]

/-! ## The status column -/

variable {ctxId : String}

/-- The status column tracks supersession, and only stored contexts have successors. -/
structure Tracks (db : Db) : Prop where
  column : ∀ row ∈ db.contexts, row.status = if db.Succeeded row.body.ctxId then .superseded else .active
  target : ∀ ctxId, db.Succeeded ctxId → ∃ row ∈ db.contexts, row.body.ctxId = ctxId

theorem succeeded_iff_bodies {db : Db} :
    db.Succeeded ctxId ↔ ∃ body ∈ db.contexts.map (·.body), body.supersedes = some ctxId := by
  simp [Db.Succeeded]

theorem succeeded_publish_iff {p : Publication} {db : Db} :
    (db.publish p).Succeeded ctxId ↔ db.Succeeded ctxId ∨ p.row.body.supersedes = some ctxId := by
  rw [succeeded_iff_bodies, succeeded_iff_bodies, Db.bodies_publish]
  simp [or_and_right, exists_or]

theorem succeeded_applyEvent_iff {a : EventAppend} {db : Db} :
    (db.applyEvent a).Succeeded ctxId ↔ db.Succeeded ctxId := by
  rw [succeeded_iff_bodies, succeeded_iff_bodies, Db.bodies_applyEvent]

theorem mem_contexts_publish {p : Publication} {db : Db} {row : ContextRow}
    (h : row ∈ (db.publish p).contexts) :
    ∃ old ∈ db.contexts ++ [p.row], row =
      if p.row.body.supersedes = some old.body.ctxId then { old with status := .superseded } else old := by
  unfold Db.publish at h
  simp only at h
  split at h
  · next prev hprev =>
    obtain ⟨old, hold, rfl⟩ := List.mem_map.1 h
    refine ⟨old, hold, ?_⟩
    simp only [hprev, Option.some.injEq, eq_comm]
  · next hprev => exact ⟨row, h, by simp [hprev]⟩

theorem Tracks.publish {st : SqlStore} {c : PublishCommit} {draw : PublishDraw} {seen : Db → Prop}
    {db : Db} {p : Publication} (h : Tracks db) (hacc : Accepted st c draw seen db p) : Tracks (db.publish p) := by
  have hsupersedes : p.row.body.supersedes = c.req.supersedes := by
    rw [hacc.body]
    rfl
  have hfresh : ∀ row ∈ db.contexts, row.body.ctxId ≠ p.row.body.ctxId := by
    have hnone := List.find?_eq_none.1 hacc.fresh
    simpa using hnone
  -- the predecessor is stored already, so the new context has no successor
  have htarget : ∀ prev, p.row.body.supersedes = some prev →
      ∃ row ∈ db.contexts, row.body.ctxId = prev := by
    intro prev hprev
    obtain ⟨_, -, -, hids⟩ := hacc.ids
    obtain ⟨row, hrow, -⟩ := hids prev (hsupersedes ▸ hprev)
    exact ⟨row, (Db.context?_eq_some hrow).1, (Db.context?_eq_some hrow).2⟩
  have hnew : ¬ (db.publish p).Succeeded p.row.body.ctxId := by
    rw [succeeded_publish_iff]
    rintro (hold | hself)
    · obtain ⟨row, hrow, hid⟩ := h.target _ hold
      exact hfresh row hrow hid
    · obtain ⟨row, hrow, hid⟩ := htarget _ hself
      exact hfresh row hrow hid
  constructor
  · intro row hrow
    obtain ⟨old, hold, rfl⟩ := mem_contexts_publish hrow
    rcases List.mem_append.1 hold with hold | hold
    · have hcolumn := h.column old hold
      by_cases hprev : p.row.body.supersedes = some old.body.ctxId
      · simp [hprev, succeeded_publish_iff]
      · simp [hprev, succeeded_publish_iff, hcolumn]
    · obtain rfl := List.mem_singleton.1 hold
      have hactive : p.row.status = .active := by
        rw [hacc.row]
        rfl
      have hself : p.row.body.supersedes ≠ some p.row.body.ctxId := fun hs =>
        hnew (succeeded_publish_iff.2 (.inr hs))
      simp [hself, hnew, hactive]
  · intro ctxId hctx
    have hstored : ∃ row ∈ db.contexts, row.body.ctxId = ctxId := by
      rcases succeeded_publish_iff.1 hctx with hold | hprev
      · exact h.target ctxId hold
      · exact htarget ctxId hprev
    obtain ⟨row, hrow, rfl⟩ := hstored
    have hbody : row.body ∈ (db.publish p).contexts.map (·.body) := by
      rw [Db.bodies_publish]
      exact List.mem_append_left _ (List.mem_map_of_mem hrow)
    obtain ⟨row', hrow', heq⟩ := List.mem_map.1 hbody
    exact ⟨row', hrow', by rw [heq]⟩

theorem Tracks.applyEvent {db : Db} (h : Tracks db) (a : EventAppend) : Tracks (db.applyEvent a) := by
  constructor
  · intro row hrow
    obtain ⟨old, hold, rfl⟩ := List.mem_map.1 hrow
    have hcolumn := h.column old hold
    simp only [succeeded_applyEvent_iff]
    by_cases hid : old.body.ctxId = a.event.ctxId
    · rw [if_pos hid]
      exact hcolumn
    · rw [if_neg hid]
      exact hcolumn
  · intro ctxId hctx
    obtain ⟨row, hrow, rfl⟩ := h.target ctxId (succeeded_applyEvent_iff.1 hctx)
    have hbody : row.body ∈ (db.applyEvent a).contexts.map (·.body) := by
      rw [Db.bodies_applyEvent]
      exact List.mem_map_of_mem hrow
    obtain ⟨row', hrow', heq⟩ := List.mem_map.1 hbody
    exact ⟨row', hrow', by rw [heq]⟩

theorem Tracks.step {seen : Db → Prop} {call : Call} {db db' : Db} {a : CallDone} (h : Tracks db)
    (hs : CommitStep seen call db db' a) : Tracks db' := by
  cases hs with
  | publish hacc => exact h.publish hacc
  | event => exact h.applyEvent _
  | evict => exact ⟨h.column, h.target⟩

theorem tracks_reachable {ι : Type} {call : ι → Call} (S : StoreSchedule call) (h0 : S.db 0 = {}) (n : ℕ) :
    Tracks (S.db n) := by
  refine S.keeps ?_ (fun n i hn hI => ?_) n
  · rw [h0]
    refine ⟨fun row hrow => ?_, fun ctxId hctx => ?_⟩
    · cases hrow
    · obtain ⟨row, hrow, -⟩ := hctx
      cases hrow
  · obtain ⟨a, -, hs⟩ := commit_step S hn
    exact (hI n le_rfl).step hs

/-- What every reachable state keeps of the statuses. -/
structure Statuses (db : Db) : Prop where
  unique : db.Unique
  tracks : Tracks db
  history : History db

theorem statuses_reachable {ι : Type} {call : ι → Call} (S : StoreSchedule call) (h0 : S.db 0 = {})
    (n : ℕ) :
    Statuses (S.db n) :=
  ⟨unique_ids S h0 n, tracks_reachable S h0 n, history_reachable S h0 n⟩

/-! ## Rows -/

section Rows

variable {db : Db} (h : Statuses db) {row : ContextRow} (hrow : row ∈ db.contexts)

theorem lastRetracts_iff (ctxId : String) : db.LastRetracts ctxId ↔ EndsRetracted (db.history ctxId) := by
  simp [Db.LastRetracts, EndsRetracted]

include h hrow

theorem Statuses.retracted_iff : row.retracted = true ↔ db.LastRetracts row.body.ctxId := by
  rw [lastRetracts_iff]
  exact h.history.flag _ row (h.unique.context? hrow)

theorem Statuses.lastRetracts_eq : lastRetracts (db.history row.body.ctxId) = row.retracted := by
  rw [Bool.eq_iff_iff, ← (h.history.alternates _).endsRetracted_iff, h.retracted_iff hrow,
    lastRetracts_iff]

theorem Statuses.toContext_status : row.toContext.status =
    if db.LastRetracts row.body.ctxId then .retracted
    else if db.Succeeded row.body.ctxId then .superseded
    else .active := by
  have hcolumn := h.tracks.column row hrow
  simp only [ContextRow.toContext, h.retracted_iff hrow, hcolumn]

/-- **A row is served with the status its context has.** -/
theorem Statuses.servedStatus (now : ℤ) : row.servedStatus now = db.statusOf row.body now := by
  unfold ContextRow.servedStatus FullContext.project
  rw [h.toContext_status hrow, Db.statusOf]
  show projectStatusInline _ row.body.expiresAt now = _
  split_ifs with hretracted hsucceeded hexpired
  · rfl
  · rfl
  · exact (projectStatusInline_active _ now).trans (if_pos hexpired)
  · exact (projectStatusInline_active _ now).trans (if_neg hexpired)

theorem Statuses.reconcile {api : AcdpApi} {events : List LifecycleEvent} (hevents : events = db.history row.body.ctxId) :
    reconcileRetraction api row.toContext.status events = row.toContext.status := by
  have hstate := h.lastRetracts_eq hrow
  rw [reconcileRetraction, hevents, api.retractionState_eq, hstate]
  cases hflag : row.retracted with
  | false =>
    split_ifs with hretracted
    · rw [Bool.or_false, decide_eq_true_eq] at hretracted
      exact hretracted.symm
    · rfl
  | true => simp [ContextRow.toContext, hflag]

theorem Statuses.withEvents_status (st : SqlStore) {slots : List EventSlot}
    (hslots : slots.map Prod.fst = db.history row.body.ctxId) (now : ℤ) :
    ((st.withEvents row.toContext slots).project now).status = db.statusOf row.body now := by
  obtain ⟨served, hframe⟩ := withEvents_frame st row.toContext slots
  rw [hframe, FullContext.project, h.reconcile hrow hslots]
  exact h.servedStatus hrow now

theorem Statuses.toContext_status_iff (now : ℤ) :
    row.toContext.status = db.statusOf row.body now ↔ db.statusOf row.body now ≠ .expired := by
  rw [h.toContext_status hrow, Db.statusOf]
  split_ifs <;> simp

end Rows

/-! ## Reads -/

section Reads

variable {db : Db} (h : Statuses db) (st : SqlStore) {now : ℤ} {ctx : FullContext}

include h

theorem Statuses.get (hget : st.get ctxId now db db = some ctx) :
    ctx.status = db.statusOf ctx.body now := by
  obtain ⟨row, hrow, rfl⟩ := Option.map_eq_some_iff.1 hget
  obtain ⟨hmem, rfl⟩ := Db.context?_eq_some hrow
  rw [withEvents_body]
  exact h.withEvents_status hmem st (eventSlots_fst st.api _) now

theorem Statuses.lineage {lineageId : String} (hctx : ctx ∈ st.lineage lineageId now db db) :
    ctx.status = db.statusOf ctx.body now := by
  obtain ⟨row, hmem, rfl⟩ := List.mem_map.1 hctx
  rw [List.mem_insertionSort, Db.lineageRows, List.mem_filter, decide_eq_true_eq] at hmem
  obtain ⟨hmem, rfl⟩ := hmem
  rw [lineageEntry_body, SqlStore.lineageEntry, Db.lineageEvents_filter (h.unique.context? hmem)]
  split_ifs
  · exact h.servedStatus hmem now
  · exact h.withEvents_status hmem st (eventSlots_fst st.api _) now

theorem Statuses.current {lineageId : String} (hctx : st.current lineageId now db db = some ctx) :
    ctx.status = db.statusOf ctx.body now :=
  h.lineage st (List.mem_reverse.1 (List.mem_of_find?_eq_some hctx))

omit st in
theorem Statuses.search {api : SearchApi} {d : Dialect} {p : SearchParams}
    {requester tenant : Option String} {publicArmOpen : Bool} {clock : PageClock} {r : SearchResponse}
    (hr : searchInner api d p requester publicArmOpen tenant clock db = .ok r) {m : SearchResult}
    (hm : m ∈ r.matches) :
    ∃ row, db.context? m.ctxId = some row ∧ m.status = db.statusOf row.body clock.now := by
  obtain ⟨b, -, hr⟩ := except_bind_ok.1 hr
  obtain ⟨anchor, -, hr⟩ := except_bind_ok.1 hr
  cases hr
  obtain ⟨row, hrow, rfl⟩ := List.mem_map.1 hm
  have hscan : row ∈ scan api d p b requester publicArmOpen tenant clock.now anchor db :=
    api.pages.mem_of_take hrow
  obtain ⟨hmem, -⟩ := Listing.mem_scan hscan
  exact ⟨row, h.unique.context? hmem, h.servedStatus hmem clock.now⟩

omit st in
theorem Statuses.listContexts_iff {api : ListingApi} {d : Dialect} {limit : ℕ}
    {cursor requester tenant : Option String} {publicArmOpen : Bool} {decodeMs : ℤ} {mintMs : Int64}
    {page : Keyset.Page FullContext String}
    (hpage : listContexts api d limit cursor requester tenant publicArmOpen decodeMs mintMs db =
      .ok page)
    (hctx : ctx ∈ page.items) :
    ctx.status = db.statusOf ctx.body now ↔ db.statusOf ctx.body now ≠ .expired := by
  obtain ⟨anchor, -, hpage⟩ := except_bind_ok.1 hpage
  cases hpage
  obtain ⟨row, hrow, rfl⟩ := List.mem_map.1 hctx
  have hscan : row ∈ (contextListing api.collation d).scan (listed requester publicArmOpen tenant d) anchor
      db.contexts := api.pages.mem_of_take hrow
  obtain ⟨hmem, -⟩ := Listing.mem_scan hscan
  exact h.toContext_status_iff hmem now

end Reads

/-! ## Answers of a lifecycle commit -/

section Lifecycle

variable {st : SqlStore} {event : LifecycleEvent} {draw : LifecycleDraw} {db : Db} {s : Local Db Part}
  {ctx : FullContext}

def Refuses (a : Except AcdpError FullContext) : Prop := ∃ e, a = .error e

variable {views : ℕ → Db}

theorem exits_checked_refuses {α : Type} (x : Except AcdpError α) :
    (LifecycleTx.checked x).Exits views (fun _ => True) Refuses := by
  refine Tx.exits_lift fun a ha => ?_
  cases x with
  | ok a => simp [Except.mapError] at ha
  | error e =>
    cases ha
    exact ⟨e, rfl⟩

theorem exits_refuseIf_refuses (c : Prop) [Decidable c] (e : AcdpError) :
    (LifecycleTx.refuseIf c e).Exits views (fun _ => True) Refuses :=
  Tx.exits_refuse fun _ => ⟨e, rfl⟩

theorem exits_checkTransition (retracted : Bool) :
    (SqlStore.checkTransition event retracted).Exits views (fun _ => True) Refuses := by
  unfold SqlStore.checkTransition
  simp only
  split
  · exact exits_refuseIf_refuses _ _
  · exact exits_refuseIf_refuses _ _
  · exact Tx.exits_exit ⟨_, rfl⟩

theorem exits_fillReceipts (slots : List EventSlot) (fills : List (ℕ × EventReceipt)) :
    (st.fillReceipts event slots fills).Exits views (fun _ => True) Refuses := by
  induction fills with
  | nil => exact Tx.exits_pure ()
  | cons f fills ih =>
    refine Tx.Exits.bind ?_ fun _ => ih
    refine (exits_checked_refuses _).bind fun value =>
      Tx.Exits.bind ?_ fun rows => exits_refuseIf_refuses _ _
    exact Tx.exits_stmt fun _ _ => trivial

/-- The call after its id check. -/
def SqlStore.afterCheck (st : SqlStore) (event : LifecycleEvent) (draw : LifecycleDraw) (row : ContextRow)
    (slots : List EventSlot) : LifecycleTx FullContext := do
  SqlStore.checkTransition event (st.api.retractionState (slots.map Prod.fst))
  let plan ← LifecycleTx.checked (st.receiptPlan event draw row.body.createdAt slots)
  st.fillReceipts event slots ((plan.map ReceiptPlan.fills).getD [])
  let receipt ← LifecycleTx.checked (plan.mapM fun p => st.api.receiptValue p.new)
  SqlStore.insertEvent event row.tenantId receipt
  st.updateRetracted event
  st.appendLifecycle event draw row.body receipt
  return st.appliedContext event draw row slots plan

theorem exits_afterCheck (row : ContextRow) (slots : List EventSlot) :
    (st.afterCheck event draw row slots).Exits views (fun _ => True) Refuses := by
  refine (exits_checkTransition _).bind fun _ => (exits_checked_refuses _).bind fun plan =>
    (exits_fillReceipts _ _).bind fun _ => (exits_checked_refuses _).bind fun receipt =>
    Tx.Exits.bind (Tx.exits_stmt fun _ _ => trivial) fun _ =>
    Tx.Exits.bind (Tx.exits_stmt fun _ _ => trivial) fun _ => Tx.Exits.bind ?_ fun _ => Tx.exits_pure _
  exact (exits_checked_refuses _).bind fun append => exits_insertAll _

theorem lifecycleTx_run {row : ContextRow} (hrow : db.context? event.ctxId = some row) :
    ∃ s : Local Db Part, (st.lifecycleTx event draw).run (fun _ => db) {} =
      (st.checkEventId event draw row.toContext (eventSlots st.api (db.events event.ctxId)) >>= fun _ =>
        st.afterCheck event draw row (eventSlots st.api (db.events event.ctxId))).run (fun _ => db) s := by
  obtain ⟨s, hown, -, hlock⟩ :=
    @lockContext_run st (Except AcdpError FullContext) FullContext event.ctxId fun _ => db
  have hselect : (select (·.events event.ctxId) : LifecycleTx _).run (fun _ => db) s =
      (.ok (db.events event.ctxId), s.next (fun _ => []) (fun _ => id) db) := by
    refine Tx.query_ok.2 ⟨?_, rfl⟩
    rw [hown]
    rfl
  refine ⟨s.next (fun _ => []) (fun _ => id) db, ?_⟩
  rw [SqlStore.lifecycleTx, hlock, hrow, Tx.bind_run_ok (Tx.require_ok.2 ⟨rfl, rfl⟩),
    Tx.bind_run_ok hselect]
  rfl

theorem checkEventId_error {slots : List EventSlot} {s' : Local Db Part} {ctx₀ : FullContext}
    (h : (st.checkEventId event draw ctx₀ slots).run views s = (.error (.ok ctx), s')) :
    ctx = (ctx₀.attachEvents slots st.minting).project draw.now := by
  unfold SqlStore.checkEventId at h
  split at h
  · cases h
  · simp only at h
    split at h
    · cases h
      rfl
    · cases h

theorem lifecycleTx_replay (h : ((st.lifecycleTx event draw).run (fun _ => db) {}).1 = .error (.ok ctx)) :
    ∃ row slots, db.context? event.ctxId = some row ∧
      ctx = (row.toContext.attachEvents slots st.minting).project draw.now := by
  cases hrow : db.context? event.ctxId with
  | none =>
    rw [lifecycleTx_run_missing hrow] at h
    cases h
  | some row =>
    obtain ⟨s, hrun⟩ := @lifecycleTx_run st event draw db row hrow
    rw [hrun] at h
    obtain ⟨s', h⟩ : ∃ s',
        (st.checkEventId event draw row.toContext _ >>= fun _ => _).run (fun _ => db) s =
      (.error (.ok ctx), s') := ⟨_, Prod.ext h rfl⟩
    rcases Tx.bind_error.1 h with hcheck | ⟨_, s₁, -, hrest⟩
    · exact ⟨row, _, rfl, checkEventId_error hcheck⟩
    · obtain ⟨e, he⟩ := (exits_afterCheck row _).of_error trivial hrest
      cases he

theorem lifecycleTx_applied (h : (st.lifecycleTx event draw).run (fun _ => db) {} = (.ok ctx, s)) :
    ∃ row slots plan, db.context? event.ctxId = some row ∧
      ctx = st.appliedContext event draw row slots plan := by
  cases hrow : db.context? event.ctxId with
  | none =>
    have hmissing := @lifecycleTx_run_missing st event draw (fun _ => db) hrow
    rw [h] at hmissing
    cases hmissing
  | some row =>
    obtain ⟨s₀, hrun⟩ := @lifecycleTx_run st event draw db row hrow
    rw [hrun] at h
    obtain ⟨_, _, -, h⟩ := Tx.bind_ok.1 h
    obtain ⟨_, _, -, h⟩ := Tx.bind_ok.1 h
    obtain ⟨plan, _, -, h⟩ := Tx.bind_ok.1 h
    obtain ⟨_, _, -, h⟩ := Tx.bind_ok.1 h
    obtain ⟨_, _, -, h⟩ := Tx.bind_ok.1 h
    obtain ⟨_, _, -, h⟩ := Tx.bind_ok.1 h
    obtain ⟨_, _, -, h⟩ := Tx.bind_ok.1 h
    obtain ⟨_, _, -, h⟩ := Tx.bind_ok.1 h
    obtain ⟨rfl, -⟩ := Tx.pure_ok.1 h
    exact ⟨row, _, plan, rfl, rfl⟩

theorem attachEvents_status (ctx : FullContext) (slots : List EventSlot) (minting : Bool) :
    (ctx.attachEvents slots minting).status = ctx.status ∧
      (ctx.attachEvents slots minting).body = ctx.body := by
  obtain ⟨served, hframe⟩ := attachEventReceipts_frame
    { ctx with lifecycleEvents := if (slots.map Prod.fst).isEmpty then none else some (slots.map Prod.fst) }
    (slots.map fun s => s.2.intoOption) minting
  rw [FullContext.attachEvents, hframe]
  exact ⟨rfl, rfl⟩

variable (h : Statuses db)

include h

theorem Statuses.replay (hrun : ((st.lifecycleTx event draw).run (fun _ => db) {}).1 = .error (.ok ctx)) :
    ctx.status = db.statusOf ctx.body draw.now := by
  obtain ⟨row, slots, hrow, rfl⟩ := lifecycleTx_replay hrun
  obtain ⟨hmem, -⟩ := Db.context?_eq_some hrow
  obtain ⟨hstatus, hbody⟩ := attachEvents_status row.toContext slots st.minting
  rw [FullContext.project, hstatus, hbody]
  exact h.servedStatus hmem draw.now

theorem Statuses.applied (hrun : (st.lifecycleTx event draw).run (fun _ => db) {} = (.ok ctx, s)) :
    ctx.status = (s.own db).statusOf ctx.body draw.now := by
  obtain ⟨row, slots, plan, hrow, rfl⟩ := lifecycleTx_applied hrun
  obtain ⟨hmem, hid⟩ := Db.context?_eq_some hrow
  have hseen : ∀ k r, s.Held k r → Db.part r db = Db.part r db := fun _ _ _ => rfl
  obtain ⟨a, hown, happ⟩ := lifecycleTx_ok hrun hseen
  have hbody : (st.appliedContext event draw row slots plan).body = row.body :=
    (attachEvents_status row.toContext _ st.minting).2
  -- the event is the context's last one now
  have hlast : (db.applyEvent a).LastRetracts row.body.ctxId ↔ SqlStore.retractedNow event = true := by
    rw [lastRetracts_iff, Db.history_applyEvent, happ.isEvent, if_pos hid, endsRetracted_concat,
      SqlStore.retractedNow, decide_eq_true_iff]
    rfl
  have hstatus : (st.appliedContext event draw row slots plan).status =
      if SqlStore.retractedNow event then .retracted
      else projectStatusInline row.status row.body.expiresAt draw.now := rfl
  rw [hbody, hown, hstatus, Db.statusOf]
  simp only [hlast, succeeded_applyEvent_iff]
  rw [h.tracks.column row hmem]
  split_ifs with hretracted hsucceeded hexpired
  · rfl
  · rfl
  · exact (projectStatusInline_active _ _).trans (if_pos hexpired)
  · exact (projectStatusInline_active _ _).trans (if_neg hexpired)

end Lifecycle

/-- **One status on every read path but `list_contexts`.**  In every reachable state of a SQL backend, for
    every clock value, `get`, `lineage`, `current`, `search` and lifecycle answers serve the status that a
    context's last event, successors and expiry give it; `list_contexts` does unless it is expired. -/
theorem one_status_on_every_read_path {ι : Type} {call : ι → Call} (S : StoreSchedule call)
    (h0 : S.db 0 = {}) (n : ℕ) (st : SqlStore) :
    (∀ ctxId now ctx, st.get ctxId now (S.db n) (S.db n) = some ctx →
      ctx.status = (S.db n).statusOf ctx.body now) ∧
    (∀ lineageId now, ∀ ctx ∈ st.lineage lineageId now (S.db n) (S.db n),
      ctx.status = (S.db n).statusOf ctx.body now) ∧
    (∀ lineageId now ctx, st.current lineageId now (S.db n) (S.db n) = some ctx →
      ctx.status = (S.db n).statusOf ctx.body now) ∧
    (∀ api p requester publicArmOpen tenant clock r,
      searchInner api st.dialect p requester publicArmOpen tenant clock (S.db n) = .ok r →
        ∀ m ∈ r.matches, ∃ row, (S.db n).context? m.ctxId = some row ∧
          m.status = (S.db n).statusOf row.body clock.now) ∧
    (∀ event draw ctx s, (st.lifecycleTx event draw).run (fun _ => S.db n) {} = (.ok ctx, s) →
      ctx.status = (s.own (S.db n)).statusOf ctx.body draw.now) ∧
    (∀ event draw ctx, ((st.lifecycleTx event draw).run (fun _ => S.db n) {}).1 = .error (.ok ctx) →
      ctx.status = (S.db n).statusOf ctx.body draw.now) ∧
    (∀ api limit cursor requester tenant publicArmOpen decodeMs mintMs page,
      listContexts api st.dialect limit cursor requester tenant publicArmOpen decodeMs mintMs (S.db n) =
        .ok page → ∀ ctx ∈ page.items, ∀ now,
          (ctx.status = (S.db n).statusOf ctx.body now ↔ (S.db n).statusOf ctx.body now ≠ .expired)) := by
  have h := statuses_reachable S h0 n
  refine ⟨fun _ _ _ => h.get st, fun _ _ _ => h.lineage st, fun _ _ _ => h.current st, ?_,
    fun _ _ _ _ => h.applied, fun _ _ _ => h.replay, ?_⟩
  · intro api p requester publicArmOpen tenant clock r hr m hm
    exact h.search hr hm
  · intro api limit cursor requester tenant publicArmOpen decodeMs mintMs page hpage ctx hctx now
    exact h.listContexts_iff hpage hctx

def sampleExpiringCalls : Fin 1 → Call := fun _ =>
  .publish sampleReader
    { req := { Sample.request "agent" "hash1" with expiresAt := some (5 * 10 ^ 6) }, authority := "registry" }
    { now := 0, ctxId := "ctx1" }

def sampleListing : ListingApi where
  collation := { Key := String, key := id, injective := Function.injective_id }
  pages := .firstRows

def sampleExpiring : StoreSchedule sampleExpiringCalls := Schedule.serial _ {}

/-- At ten milliseconds `get` serves the context as expired, and the first page of `list_contexts` as
    active. -/
theorem expired_context_listed_active :
    let db := sampleExpiring.db 1
    (sampleReader.get "ctx1" (10 * 10 ^ 6) db db).map (·.status) = some .expired ∧
      ∃ page, listContexts sampleListing .sqlite 50 none none none true 10 0 db = .ok page ∧
        page.items.map (·.status) = [.active] := by
  refine ⟨by decide +kernel, _, rfl, by decide +kernel⟩

/-- At four milliseconds both serve it with its status. -/
theorem one_status_before_expiry :
    let db := sampleExpiring.db 1
    (∃ ctx, sampleReader.get "ctx1" (4 * 10 ^ 6) db db = some ctx ∧
      ctx.status = db.statusOf ctx.body (4 * 10 ^ 6)) ∧
    ∃ page, listContexts sampleListing .sqlite 50 none none none true 4 0 db = .ok page ∧
      page.items.length = 1 ∧ ∀ ctx ∈ page.items, ctx.status = db.statusOf ctx.body (4 * 10 ^ 6) := by
  obtain ⟨hget, -, -, -, -, -, hlist⟩ := one_status_on_every_read_path sampleExpiring rfl 1 sampleReader
  constructor
  · obtain ⟨ctx, hctx⟩ := Option.isSome_iff_exists.1 (show (sampleReader.get "ctx1" (4 * 10 ^ 6)
      (sampleExpiring.db 1) (sampleExpiring.db 1)).isSome = true by decide +kernel)
    exact ⟨ctx, hctx, hget _ _ _ hctx⟩
  · refine ⟨_, rfl, by decide +kernel, fun ctx hctx => ?_⟩
    have hunexpired : (sampleExpiring.db 1).statusOf ctx.body (4 * 10 ^ 6) ≠ .expired := by
      revert ctx
      decide +kernel
    exact (hlist sampleListing 50 none none none true 4 0 _ rfl ctx hctx _).2 hunexpired

end AcdpRegistry
