/-
  The lifecycle history of a context.

  The events of a context alternate, starting with a retraction, and the
  denormalised flag follows the last of them.  An event has a feed row exactly when
  it was appended with a receipt.  A resubmission finds its id in the history and
  ends before the receipts are planned.
-/
import AcdpRegistry.Store.LifecycleSpec

namespace AcdpRegistry

open Lib

/-! ## Histories -/

variable {events : List LifecycleEvent} {e : LifecycleEvent}

def Db.history (db : Db) (ctxId : String) : List LifecycleEvent := (db.events ctxId).map (·.event)

/-- Retracted, republished, retracted, ... -/
def Alternates (events : List LifecycleEvent) : Prop :=
  ∀ k e, events[k]? = some e → e.eventType = if k % 2 = 0 then .retracted else .republished

def EndsRetracted (events : List LifecycleEvent) : Prop :=
  ∃ e, events.getLast? = some e ∧ e.eventType = .retracted

/-- What every reachable state keeps about lifecycle events. -/
structure History (db : Db) : Prop where
  alternates : ∀ ctxId, Alternates (db.history ctxId)
  ids : ∀ ctxId, ((db.history ctxId).map (·.eventId)).Nodup
  flag : ∀ ctxId row, db.context? ctxId = some row →
    (row.retracted = true ↔ EndsRetracted (db.history ctxId))
  known : ∀ ctxId, db.context? ctxId = none → db.history ctxId = []

theorem lastRetracts_concat (events : List LifecycleEvent) (e : LifecycleEvent) :
    lastRetracts (events ++ [e]) =
      match e.eventType with
      | .retracted => true
      | .republished => false
      | .other _ => lastRetracts events := by
  unfold lastRetracts
  rw [List.foldl_append]
  rfl

theorem alternates_concat :
    Alternates (events ++ [e]) ↔ Alternates events ∧
      e.eventType = if events.length % 2 = 0 then .retracted else .republished := by
  constructor
  · intro h
    refine ⟨fun k x hk => h k x ?_, h events.length e (by simp)⟩
    obtain ⟨hlt, -⟩ := List.getElem?_eq_some_iff.1 hk
    rw [List.getElem?_append_left hlt, hk]
  · rintro ⟨h, he⟩ k x hk
    rcases lt_trichotomy k events.length with hlt | rfl | hgt
    · rw [List.getElem?_append_left hlt] at hk
      exact h k x hk
    · obtain rfl : e = x := by simpa using hk
      exact he
    · have hlen : (events ++ [e]).length ≤ k := by simpa using hgt
      rw [List.getElem?_eq_none hlen] at hk
      cases hk

theorem Alternates.lastRetracts_iff (h : Alternates events) :
    lastRetracts events = true ↔ events.length % 2 = 1 := by
  induction events using List.reverseRecOn with
  | nil => simp [lastRetracts]
  | append_singleton events e ih =>
    obtain ⟨-, he⟩ := alternates_concat.1 h
    rw [lastRetracts_concat, he, List.length_append, List.length_singleton]
    split_ifs with hlen
    · simp only [true_iff]
      omega
    · simp only [false_iff]
      omega

theorem Alternates.append (h : Alternates events)
    (he : e.eventType = if lastRetracts events then .republished else .retracted) :
    Alternates (events ++ [e]) := by
  refine alternates_concat.2 ⟨h, he.trans ?_⟩
  have hstate := h.lastRetracts_iff
  rcases Nat.mod_two_eq_zero_or_one events.length with hlen | hlen
  · have hfalse : lastRetracts events = false := by
      rw [Bool.eq_false_iff, ne_eq, hstate]
      omega
    simp [hfalse, hlen]
  · simp [hstate.2 hlen, hlen]

theorem endsRetracted_concat : EndsRetracted (events ++ [e]) ↔ e.eventType = .retracted := by
  simp [EndsRetracted]

theorem not_endsRetracted_nil : ¬EndsRetracted [] := by
  rintro ⟨e, he, -⟩
  cases he

/-! ## What a commit does to a history -/

variable {seen : Db → Prop} {a : EventAppend} {ctxId : String} {db : Db}

theorem map_event_fillReceipts (ctxId : String) :
    ∀ (fills : List (String × Json)) (rows : List LifecycleEventRow),
    (Db.fillReceipts rows ctxId fills).map (·.event) = rows.map (·.event)
  | [], _ => rfl
  | f :: fills, rows => by
    refine (map_event_fillReceipts ctxId fills (Db.fillReceipt rows ctxId f.1 f.2)).trans ?_
    rw [Db.fillReceipt, List.map_map]
    refine List.map_congr_left fun row _ => ?_
    simp only [Function.comp_apply]
    split_ifs <;> rfl

theorem Db.history_eq (db : Db) (ctxId : String) :
    db.history ctxId = (db.lifecycleEvents.map (·.event)).filter (·.ctxId = ctxId) := by
  rw [Db.history, Db.events, List.filter_map]
  rfl

theorem Db.history_publish (p : Publication) (db : Db) (ctxId : String) :
    (db.publish p).history ctxId = db.history ctxId := rfl

theorem Db.history_applyEvent (a : EventAppend) (db : Db) (ctxId : String) :
    (db.applyEvent a).history ctxId =
      if ctxId = a.event.ctxId then db.history ctxId ++ [SqlStore.storedEvent a.event]
      else db.history ctxId := by
  simp only [Db.history_eq, Db.applyEvent, List.map_append, map_event_fillReceipts, List.map_singleton,
    List.filter_append]
  split_ifs with h
  · simp [EventAppend.row, SqlStore.storedEvent, h]
  · simp [EventAppend.row, SqlStore.storedEvent, Ne.symm h]

variable {st : SqlStore} {row : ContextRow} {p : Publication}

theorem Accepted.retracted_publish {c : PublishCommit} {draw : PublishDraw}
    (h : Accepted st c draw seen db p) (hrow : (db.publish p).context? ctxId = some row) :
    row.retracted = ((db.context? ctxId).map (·.retracted)).getD false := by
  have hnew : p.row.retracted = false := by rw [h.row]; rfl
  have happ : ∀ r, (db.contexts ++ [p.row]).find? (·.body.ctxId = ctxId) = some r →
      r.retracted = ((db.context? ctxId).map (·.retracted)).getD false := by
    intro r hr
    rw [List.find?_append] at hr
    rw [Db.context?]
    rcases Option.or_eq_some_iff.1 hr with hold | ⟨hnone, hlast⟩
    · rw [hold]
      rfl
    · obtain rfl := List.mem_singleton.1 (List.mem_of_find?_eq_some hlast)
      rw [hnone, hnew]
      rfl
  simp only [Db.publish, Db.context?] at hrow
  split at hrow
  · rw [Db.supersede, Db.find?_update (by exact fun _ => rfl)] at hrow
    obtain ⟨r, hr, rfl⟩ := Option.map_eq_some_iff.1 hrow
    rw [← happ r hr]
    split_ifs <;> rfl
  · exact happ row hrow

theorem retracted_applyEvent (hrow : (db.applyEvent a).context? ctxId = some row) :
    ∃ old, db.context? ctxId = some old ∧
      row.retracted =
        if ctxId = a.event.ctxId then SqlStore.retractedNow a.event else old.retracted := by
  simp only [Db.applyEvent, Db.context?] at hrow
  rw [Db.setRetracted, Db.find?_update (by exact fun _ => rfl)] at hrow
  obtain ⟨old, hold, rfl⟩ := Option.map_eq_some_iff.1 hrow
  refine ⟨old, hold, ?_⟩
  have hid : old.body.ctxId = ctxId := by simpa using List.find?_some hold
  rw [hid]
  split_ifs <;> rfl

theorem context?_applyEvent_none (h : (db.applyEvent a).context? ctxId = none) :
    db.context? ctxId = none := by
  simp only [Db.applyEvent, Db.context?] at h
  rw [Db.setRetracted, Db.find?_update (by exact fun _ => rfl)] at h
  exact Option.map_eq_none_iff.1 h

theorem context?_publish_none (h : (db.publish p).context? ctxId = none) :
    db.context? ctxId = none := by
  rw [Db.context?, List.find?_eq_none] at h ⊢
  intro row hrow hid
  have hbody : row.body ∈ (db.publish p).contexts.map (·.body) := by
    rw [Db.bodies_publish]
    exact List.mem_append_left _ (List.mem_map_of_mem hrow)
  obtain ⟨row', hrow', heq⟩ := List.mem_map.1 hbody
  exact h row' hrow' (heq ▸ hid)

theorem History.publish {c : PublishCommit} {draw : PublishDraw}
    (h : History db) (hacc : Accepted st c draw seen db p) : History (db.publish p) := by
  refine ⟨h.alternates, h.ids, fun ctxId row hrow => ?_, fun ctxId hnone =>
    h.known ctxId (context?_publish_none hnone)⟩
  rw [hacc.retracted_publish hrow, Db.history_publish]
  cases hold : db.context? ctxId with
  | some old => exact h.flag ctxId old hold
  | none =>
    -- the published context, which has no events
    rw [h.known ctxId hold]
    simp [not_endsRetracted_nil]

variable {event : LifecycleEvent} {draw : LifecycleDraw}

theorem History.applyEvent
    (h : History db) (happ : Applies st event draw db a) : History (db.applyEvent a) := by
  obtain rfl := happ.isEvent
  constructor
  · intro ctxId
    rw [Db.history_applyEvent]
    split_ifs with hid
    · subst hid
      exact (h.alternates _).append happ.transition
    · exact h.alternates ctxId
  · intro ctxId
    rw [Db.history_applyEvent]
    split_ifs with hid
    · subst hid
      rw [List.map_append, List.map_singleton, List.nodup_append]
      refine ⟨h.ids _, List.nodup_singleton _, ?_⟩
      rintro id hold id' hnew rfl
      obtain ⟨e, he, rfl⟩ := List.mem_map.1 hold
      obtain ⟨r, hr, rfl⟩ := List.mem_map.1 he
      exact happ.newId r hr (List.mem_singleton.1 hnew)
    · exact h.ids ctxId
  · intro ctxId row hrow
    obtain ⟨old, hold, hflag⟩ := retracted_applyEvent hrow
    rw [Db.history_applyEvent, hflag]
    split_ifs with hid
    · rw [endsRetracted_concat]
      exact decide_eq_true_iff
    · exact h.flag ctxId old hold
  · intro ctxId hnone
    have hnone' := context?_applyEvent_none hnone
    rw [Db.history_applyEvent, if_neg, h.known ctxId hnone']
    rintro rfl
    obtain ⟨row, hrow, -⟩ := happ.row
    rw [hrow] at hnone'
    cases hnone'

theorem History.step {call : Call} {db' : Db} {a : CallDone} (h : History db)
    (hs : CommitStep seen call db db' a) : History db' := by
  cases hs with
  | publish hacc => exact h.publish hacc
  | event happ => exact h.applyEvent happ
  | evict => exact ⟨h.alternates, h.ids, h.flag, h.known⟩

theorem CommitStep.history {call : Call} {db' : Db} {a : CallDone}
    (h : CommitStep seen call db db' a) (ctxId : String) :
    db.history ctxId <+: db'.history ctxId := by
  cases h with
  | publish => exact List.prefix_rfl
  | event =>
    rw [Db.history_applyEvent]
    split_ifs
    · exact List.prefix_append _ _
    · exact List.prefix_rfl
  | evict => exact List.prefix_rfl

/-! ## Feed rows -/

theorem rows_appendFeed : ∀ (rows : List (FeedAppend × ℕ × ℤ)) (feed : FeedStore),
    ∃ new, (Db.appendFeed feed rows).rows = feed.rows ++ new ∧
      new.map (·.toFeedAppend) = rows.map (·.1)
  | [], feed => ⟨[], by simp [Db.appendFeed]⟩
  | r :: rows, feed => by
    obtain ⟨new, hrows, hmap⟩ := rows_appendFeed rows (feed.append r.2.1 r.1 r.2.2)
    refine ⟨feed.nextRow r.2.1 r.1 r.2.2 :: new, ?_, ?_⟩
    · show (Db.appendFeed (feed.append r.2.1 r.1 r.2.2) rows).rows = _
      rw [hrows]
      simp [FeedStore.append]
    · rw [List.map_cons, hmap]
      rfl

/-- The feed after an event that was appended with this receipt: one row for the event, and none
    without a receipt. -/
def FeedFollows (api : AcdpApi) (event : LifecycleEvent) (receipt : Option Json)
    (feed feed' : FeedStore) : Prop :=
  match receipt with
  | none => feed'.rows = feed.rows
  | some r => ∃ row value, feed'.rows = feed.rows ++ [row] ∧ row.kind = .lifecycle ∧
      row.ctxId = event.ctxId ∧ api.eventValue event = .ok value ∧ row.event = some value ∧
      row.receipt = r

theorem lifecycleAppend_some {api : AcdpApi} {body : Body} {r : Json}
    {append : Option FeedAppend} (h : lifecycleAppend api event body (some r) = .ok append) :
    ∃ value, api.eventValue event = .ok value ∧
      append = some (.derive api .lifecycle body.ctxId body.lineageId body.agentId none
        (some value) r) := by
  unfold lifecycleAppend at h
  obtain ⟨value, hvalue, h⟩ := except_bind_ok.1 h
  obtain ⟨_, -, h⟩ := except_bind_ok.1 h
  cases h
  exact ⟨value, hvalue, rfl⟩

theorem Applies.feedFollows (h : Applies st event draw db a) :
    FeedFollows st.api event a.receipt db.feed (db.applyEvent a).feed := by
  obtain ⟨row, hrow, -, append, happend, hfeed⟩ := h.row
  have hid : row.body.ctxId = event.ctxId := by simpa using List.find?_some hrow
  obtain ⟨new, hrows, hmap⟩ := rows_appendFeed a.feed db.feed
  rw [hfeed, List.map_map] at hmap
  unfold FeedFollows
  cases hreceipt : a.receipt with
  | none =>
    rw [hreceipt] at happend
    cases happend
    obtain rfl : new = [] := by simpa using hmap
    exact hrows.trans (List.append_nil _)
  | some r =>
    rw [hreceipt] at happend
    obtain ⟨value, hvalue, rfl⟩ := lifecycleAppend_some happend
    obtain ⟨feedRow, hnew, hderive⟩ : ∃ feedRow, new = [feedRow] ∧ feedRow.toFeedAppend = _ :=
      List.map_eq_singleton_iff.1 hmap
    subst hnew
    refine ⟨feedRow, value, hrows, ?_, ?_, hvalue, ?_, ?_⟩
    · rw [hderive]; rfl
    · rw [hderive]; exact hid
    · rw [hderive]; rfl
    · rw [hderive]; rfl

theorem Applies.receipt_isSome (h : Applies st event draw db a) : a.receipt.isSome = st.minting := by
  rw [SqlStore.minting]
  cases hm : st.eventReceiptMinter with
  | none => rw [(h.unminted hm).1]; rfl
  | some m => exact Option.isSome_iff_ne_none.2 (h.minted (by simp [hm]))

theorem feedAppendsForPublish_kind {api : AcdpApi} {body : Body} {receipt : Option Json}
    {pred : Option Predecessor} {appends : List FeedAppend}
    (h : feedAppendsForPublish api body receipt pred = .ok appends) :
    ∀ a ∈ appends, a.kind ≠ .lifecycle := by
  unfold feedAppendsForPublish at h
  cases receipt with
  | none =>
    cases h
    simp
  | some r =>
    have hsup : ∀ a ∈ pred.toList.map (supersededAppend api body r), a.kind ≠ .lifecycle := by
      intro a ha
      obtain ⟨prev, -, rfl⟩ := List.mem_map.1 ha
      simp [supersededAppend, FeedAppend.derive]
    simp only at h
    split at h
    · obtain ⟨agent, -, h⟩ := except_bind_ok.1 h
      obtain ⟨_, hrev, h⟩ := except_bind_ok.1 h
      obtain ⟨_, -, h⟩ := except_bind_ok.1 h
      cases hrev
      cases h
      intro a ha
      rcases List.mem_append.1 ha with ha | ha
      · exact hsup a ha
      · obtain rfl := List.mem_singleton.1 ha
        simp [FeedAppend.derive]
    · obtain ⟨_, hrev, h⟩ := except_bind_ok.1 h
      obtain ⟨_, -, h⟩ := except_bind_ok.1 h
      cases hrev
      cases h
      simpa using hsup

theorem CommitStep.feed {call : Call} {db' : Db} {a : CallDone}
    (h : CommitStep seen call db db' a) :
    ∃ new, db'.feed.rows = db.feed.rows ++ new ∧
      ((∃ row ∈ new, row.kind = .lifecycle) → ∃ st event draw, call = .lifecycle st event draw) := by
  cases h with
  | @publish st c draw _ p hacc =>
    obtain ⟨pred, appends, happends, hfeed, -⟩ := hacc.feed
    obtain ⟨new, hrows, hmap⟩ := rows_appendFeed p.feed db.feed
    refine ⟨new, hrows, ?_⟩
    rintro ⟨row, hrow, hkind⟩
    have hmem : row.toFeedAppend ∈ p.feed.map (·.1) := hmap ▸ List.mem_map_of_mem hrow
    have hfst : p.feed.map (·.1) = appends := by
      rw [hfeed]
      refine List.ext_getElem? fun i => ?_
      simp [Function.comp_def]
    rw [hfst] at hmem
    exact absurd hkind (feedAppendsForPublish_kind happends _ hmem)
  | @event st event draw _ a ctx happ =>
    obtain ⟨new, hrows, -⟩ := rows_appendFeed a.feed db.feed
    exact ⟨new, hrows, fun _ => ⟨st, event, draw, rfl⟩⟩
  | evict => exact ⟨[], (List.append_nil _).symm, by simp⟩

/-! ## Resubmissions -/

section Resubmission

variable {views : ℕ → Db}

def SqlStore.withMinter (st : SqlStore) (minter : Option EventReceiptMinter) : SqlStore :=
  { st with eventReceiptMinter := minter }

/-- An event of this id is in the context's history. -/
def Resubmits (event : LifecycleEvent) (db : Db) : Prop :=
  ∃ e ∈ db.history event.ctxId, e.eventId = event.eventId

theorem checkEventId_withMinter {minter : Option EventReceiptMinter} (hm : minter.isSome = st.minting)
    (ctx : FullContext) (slots : List EventSlot) :
    (st.withMinter minter).checkEventId event draw ctx slots =
      st.checkEventId event draw ctx slots := by
  unfold SqlStore.checkEventId
  rw [show (st.withMinter minter).minting = st.minting from hm]

theorem checkEventId_found {ctx : FullContext} {slots : List EventSlot}
    (h : ∃ e ∈ slots.map Prod.fst, e.eventId = event.eventId) :
    ∃ a, ∀ s, ((st.checkEventId event draw ctx slots).run views s).1 = .error a := by
  obtain ⟨_, he, hid⟩ := h
  obtain ⟨slot, hslot, rfl⟩ := List.mem_map.1 he
  unfold SqlStore.checkEventId
  split
  · next hnone => exact absurd hid (by simpa using List.find?_eq_none.1 hnone slot hslot)
  · simp only
    split
    · exact ⟨_, fun _ => rfl⟩
    · exact ⟨_, fun _ => rfl⟩

theorem checkEventId_replay {ctx : FullContext} {slots : List EventSlot}
    (hmem : event ∈ slots.map Prod.fst) (hids : ((slots.map Prod.fst).map (·.eventId)).Nodup)
    (s : Local Db Part) :
    ((st.checkEventId event draw ctx slots).run views s).1 =
      .error (.ok ((ctx.attachEvents slots st.minting).project draw.now)) := by
  obtain ⟨slot, hslot, hevent⟩ := List.mem_map.1 hmem
  cases hfind : slots.find? (·.1.eventId = event.eventId) with
  | none =>
    have hne := List.find?_eq_none.1 hfind slot hslot
    exact absurd (congrArg (·.eventId) hevent) (by simpa using hne)
  | some prior =>
    have hid : prior.1.eventId = event.eventId := by simpa using List.find?_some hfind
    have hprior : prior.1 = event := List.inj_on_of_nodup_map hids
      (List.mem_map_of_mem (List.mem_of_find?_eq_some hfind)) hmem hid
    unfold SqlStore.checkEventId
    rw [hfind]
    simp only [if_pos hprior]
    rfl

theorem lockContext_run (st : SqlStore) {ρ β : Type} (ctxId : String) (views : ℕ → Db) :
    ∃ s : Local Db Part, s.own = id ∧ s.stmts = 2 ∧
      ∀ f : Option ContextRow → Tx Db Part ρ β, (st.begin >>= fun _ => st.lockContext ctxId >>= f).run
        views {} = (f ((views 1).context? ctxId)).run views s := by
  obtain ⟨s₁, h₁⟩ : ∃ s₁, (st.begin : Tx Db Part ρ Unit).run views {} = (.ok (), s₁) := ⟨_, rfl⟩
  obtain ⟨-, rfl⟩ := Tx.query_ok.1 h₁
  refine ⟨_, ?_, ?_, fun f => (Tx.bind_run_ok h₁).trans (Tx.bind_run_ok (Tx.query_ok.2 ⟨rfl, rfl⟩))⟩
  · rfl
  · rfl

theorem lifecycleTx_run_check (hrow : (views 1).context? event.ctxId = some row) :
    ∃ s : Local Db Part, ∀ a,
      ((st.checkEventId event draw row.toContext
        (eventSlots st.api ((views 2).events event.ctxId))).run views s).1 = .error a →
      ((st.lifecycleTx event draw).run views {}).1 = .error a := by
  obtain ⟨s, hown, hstmts, hlock⟩ :=
    @lockContext_run st (Except AcdpError FullContext) FullContext event.ctxId views
  have hselect : (select (·.events event.ctxId) : LifecycleTx _).run views s =
      (.ok ((views 2).events event.ctxId), s.next (fun _ => []) (fun _ => id) (views 2)) := by
    refine Tx.query_ok.2 ⟨?_, ?_⟩
    · rw [hown, hstmts]
      rfl
    · rw [hstmts]
  refine ⟨s.next (fun _ => []) (fun _ => id) (views 2), fun a ha => ?_⟩
  rw [SqlStore.lifecycleTx, hlock, hrow, Tx.bind_run_ok (Tx.require_ok.2 ⟨rfl, rfl⟩),
    Tx.bind_run_ok hselect]
  exact Tx.bind_fst_error ha

theorem lifecycleTx_run_missing (hrow : (views 1).context? event.ctxId = none) :
    let ctxId := event.ctxId
    ((st.lifecycleTx event draw).run views {}).1 =
      .error (.error (.notFound s!"context '{ctxId}' not found in this registry")) := by
  obtain ⟨s, -, -, hlock⟩ := lockContext_run st event.ctxId views
  rw [SqlStore.lifecycleTx, hlock, hrow]
  exact Tx.bind_fst_error rfl

theorem lifecycleTx_resubmitted (st : SqlStore) (draw : LifecycleDraw)
    (h : Resubmits event (views 2)) :
    ∃ a : Except AcdpError FullContext, (∀ minter, minter.isSome = st.minting →
        (((st.withMinter minter).lifecycleTx event draw).run views {}).1 = .error a) ∧
      ((views 1).context? event.ctxId ≠ none → event ∈ (views 2).history event.ctxId →
        (((views 2).history event.ctxId).map (·.eventId)).Nodup → ∃ ctx, a = .ok ctx) := by
  cases hrow : (views 1).context? event.ctxId with
  | none => exact ⟨_, fun minter _ => lifecycleTx_run_missing hrow, fun hne => absurd rfl hne⟩
  | some row =>
    have hslots := eventSlots_fst st.api ((views 2).events event.ctxId)
    obtain ⟨a, ha⟩ := @checkEventId_found st event draw views row.toContext
      (eventSlots st.api ((views 2).events event.ctxId)) (hslots ▸ h)
    refine ⟨a, fun minter hm => ?_, fun _ hmem hids => ?_⟩
    · obtain ⟨s, hs⟩ := @lifecycleTx_run_check (st.withMinter minter) row event draw views hrow
      refine hs a ?_
      rw [checkEventId_withMinter hm]
      exact ha s
    · have hreplay := ha {}
      rw [checkEventId_replay (hslots ▸ hmem) (hslots ▸ hids)] at hreplay
      exact ⟨_, (Except.error.inj hreplay).symm⟩

end Resubmission

/-! ## Runs -/

section Runs

variable {ι : Type} {call : ι → Call} (S : StoreSchedule call)

theorem history_reachable (h0 : S.db 0 = {}) (n : ℕ) : History (S.db n) := by
  refine S.keeps ?_ (fun n i hn hI => ?_) n
  · rw [h0]
    refine ⟨fun _ k e he => ?_, fun _ => List.nodup_nil, fun _ _ h => ?_, fun _ _ => rfl⟩
    · cases he
    · cases h
  · obtain ⟨a, -, hs⟩ := commit_step S hn
    exact (hI n le_rfl).step hs

theorem history_kept {m n : ℕ} (hmn : m ≤ n) :
    (S.db m).history ctxId <+: (S.db n).history ctxId := by
  refine S.rel (R := fun db db' => db.history ctxId <+: db'.history ctxId) (fun _ => List.prefix_rfl)
    (fun _ _ _ => List.IsPrefix.trans) hmn fun t i _ _ hi => ?_
  obtain ⟨a, -, hs⟩ := commit_step S hi
  exact hs.history ctxId

theorem feed_kept {m n : ℕ} (hmn : m ≤ n) : (S.db m).feed.rows <+: (S.db n).feed.rows := by
  refine S.rel (R := fun db db' => db.feed.rows <+: db'.feed.rows) (fun _ => List.prefix_rfl)
    (fun _ _ _ => List.IsPrefix.trans) hmn fun t i _ _ hi => ?_
  obtain ⟨a, -, hs⟩ := commit_step S hi
  obtain ⟨new, hnew, -⟩ := hs.feed
  exact ⟨new, hnew.symm⟩

theorem result_lifecycle_error {i : ι}
    (hi : call i = .lifecycle st event draw) {a : Except AcdpError FullContext}
    (h : ((st.lifecycleTx event draw).run (fun k => S.db (S.moment i k)) {}).1 = .error a) :
    S.result i = .error (.lifecycle a) := by
  have hrun : ((call i).tx.run (fun k => S.db (S.moment i k)) {}).1 = .error (.lifecycle a) := by
    rw [hi]
    exact congrArg Prod.fst (Tx.mapEnd_error.2 ⟨a, Prod.ext h rfl, rfl⟩)
  exact hrun

theorem resubmission_not_commits {i : ι}
    (hi : call i = .lifecycle st event draw) {m n : ℕ} (hmn : m ≤ n)
    (h : Resubmits event (S.db m)) : S.commits n ≠ some i := by
  intro hn
  obtain ⟨e, he, hid⟩ := h
  obtain ⟨r, hr, rfl⟩ := List.mem_map.1 ((history_kept S hmn).subset he)
  obtain ⟨a, -, hs⟩ := commit_step S hn
  rw [hi] at hs
  generalize S.db (n + 1) = db' at hs
  cases hs with
  | event happ => exact happ.newId r hr hid

end Runs

/-- **The lifecycle history.**  In every interleaving of calls, from an empty database: a context's
    events alternate from a retraction on, under distinct ids, and its flag follows the last one; a
    feed row is written with each minted receipt, and stays; a stored event is replayed or refused,
    never committed again; and tables change by commits only. -/
theorem lifecycle_history {ι : Type} {call : ι → Call} (S : StoreSchedule call) (h0 : S.db 0 = {}) :
    (∀ n, History (S.db n)) ∧
    (∀ n i st event draw, S.commits n = some i → call i = .lifecycle st event draw →
      ∃ tenantId receipt, (S.db (n + 1)).lifecycleEvents.getLast? =
          some ⟨SqlStore.storedEvent event, tenantId, receipt⟩ ∧
        receipt.isSome = st.minting ∧
        FeedFollows st.api event receipt (S.db n).feed (S.db (n + 1)).feed) ∧
    (∀ m n, m ≤ n → (S.db m).feed.rows <+: (S.db n).feed.rows) ∧
    (∀ n i, S.commits n = some i → (∀ st event draw, call i ≠ .lifecycle st event draw) →
      ∀ row ∈ (S.db (n + 1)).feed.rows, row.kind = .lifecycle → row ∈ (S.db n).feed.rows) ∧
    (∀ i st event draw, call i = .lifecycle st event draw →
      (∀ m n, m ≤ n → Resubmits event (S.db m) → S.commits n ≠ some i) ∧
      (Resubmits event (S.db (S.moment i 2)) → ∃ a, S.result i = .error (.lifecycle a) ∧
        (∀ minter, minter.isSome = st.minting → (((st.withMinter minter).lifecycleTx event draw).run
          (fun k => S.db (S.moment i k)) {}).1 = .error a) ∧
        ((S.db (S.moment i 1)).context? event.ctxId ≠ none →
          event ∈ (S.db (S.moment i 2)).history event.ctxId → ∃ ctx, a = .ok ctx))) ∧
    (∀ i st event draw, call i = .lifecycle st event draw →
      (∀ ctx, SqlStore.lifecycleAnswer ((st.lifecycleTx event draw).run
        (fun k => S.db (S.moment i k)) {}).1 ≠ .ok (.applied ctx)) → ∀ n, S.commits n ≠ some i) ∧
    (∀ n, S.commits n = none → S.db (n + 1) = S.db n) := by
  refine ⟨history_reachable S h0, ?_, fun m n hmn => feed_kept S hmn, ?_, ?_, ?_, S.idle⟩
  · intro n i st event draw hn hi
    obtain ⟨a, -, hs⟩ := commit_step S hn
    rw [hi] at hs
    generalize S.db (n + 1) = db' at hs ⊢
    cases hs with
    | @event _ _ _ _ a _ happ =>
      refine ⟨a.tenantId, a.receipt, ?_, happ.receipt_isSome, happ.feedFollows⟩
      rw [← happ.isEvent]
      exact List.getLast?_concat
  · intro n i hn hother row hrow hkind
    obtain ⟨a, -, hs⟩ := commit_step S hn
    obtain ⟨new, hnew, hevent⟩ := hs.feed
    rw [hnew] at hrow
    rcases List.mem_append.1 hrow with hold | hmem
    · exact hold
    · obtain ⟨st, event, draw, hi⟩ := hevent ⟨row, hmem, hkind⟩
      exact absurd hi (hother st event draw)
  · intro i st event draw hi
    refine ⟨fun m n hmn h => resubmission_not_commits S hi hmn h, fun h => ?_⟩
    obtain ⟨a, hrun, hreplay⟩ :=
      @lifecycleTx_resubmitted event (fun k => S.db (S.moment i k)) st draw h
    refine ⟨a, ?_, hrun, fun hrow hmem => hreplay hrow hmem ((history_reachable S h0 _).ids _)⟩
    exact result_lifecycle_error S hi (hrun st.eventReceiptMinter rfl)
  · intro i st event draw hi hanswer n hn
    obtain ⟨a, hrun⟩ := S.run_of_commit hn
    rw [hi] at hrun
    obtain ⟨ctx, htx, -⟩ := Tx.mapEnd_ok.1 hrun
    exact hanswer ctx (by rw [htx]; rfl)

/-- A context is published, retracted, and the retraction is submitted again, on Postgres with
    receipts. -/
def sampleLifecycleCalls : Fin 3 → Call := fun i =>
  let minter : EventReceiptMinter := fun ctxId value index acceptedAt =>
    match value with
    | .string eventId => .ok ⟨ctxId, eventId, index, acceptedAt, ""⟩
    | _ => .error (.registryInternal "event")
  let st : SqlStore :=
    { dialect := .postgres, api := Sample.api, eventReceiptMinter := some minter }
  if (i : ℕ) = 0 then
    .publish st { req := Sample.request "agent" "hash1", authority := "registry" }
      { now := 0, ctxId := "ctx1" }
  else
    .lifecycle st
      { eventId := "e1", ctxId := "ctx1", eventType := .retracted, occurredAt := 10 ^ 6,
        actor := "agent" }
      { now := 2 * 10 ^ 6 }

def sampleLifecycle : StoreSchedule sampleLifecycleCalls := Schedule.serial _ {}

theorem lifecycle_history_sample :
    History (sampleLifecycle.db 3) ∧
      ((sampleLifecycle.db 3).history "ctx1").map (·.eventType) = [.retracted] ∧
      (sampleLifecycle.db 3).feed.rows.length = 1 ∧ sampleLifecycle.commits 1 = some 1 ∧
      ∀ n, 2 ≤ n → sampleLifecycle.commits n ≠ some 2 := by
  have h := lifecycle_history sampleLifecycle rfl
  refine ⟨h.1 3, by decide, by decide, by decide, fun n hn => ?_⟩
  refine (h.2.2.2.2.1 2 _ _ _ rfl).1 2 n hn ?_
  unfold Resubmits
  decide

end AcdpRegistry
