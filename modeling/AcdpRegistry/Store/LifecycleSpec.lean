/-
  What a lifecycle event that commits has checked and what it writes, and what
  every commit of a schedule does to the tables.

  `Db.applyEvent` is the event's step on the tables and `Applies` says what holds
  of the state it is taken from.  `commit_step` is the one place where commits
  are taken apart: a publish, an event, or an eviction.
-/
import AcdpRegistry.Store.PublishSpec

namespace AcdpRegistry

open Lib

/-! ## The abstract event -/

/-- What one lifecycle event adds to the tables: its row, the receipts it fills in, its feed rows. -/
structure EventAppend where
  event : LifecycleEvent
  tenantId : String
  receipt : Option Json
  fills : List (String × Json)
  feed : List (FeedAppend × ℕ × ℤ)

namespace EventAppend

def row (a : EventAppend) : LifecycleEventRow :=
  ⟨SqlStore.storedEvent a.event, a.tenantId, a.receipt⟩

end EventAppend

def Db.fillReceipts (rows : List LifecycleEventRow) (ctxId : String) (fills : List (String × Json)) :
    List LifecycleEventRow :=
  fills.foldl (fun rows f => Db.fillReceipt rows ctxId f.1 f.2) rows

def Db.applyEvent (a : EventAppend) (db : Db) : Db :=
  { db with
    contexts := Db.setRetracted db.contexts a.event.ctxId (SqlStore.retractedNow a.event)
    lifecycleEvents := Db.fillReceipts db.lifecycleEvents a.event.ctxId a.fills ++ [a.row]
    feed := Db.appendFeed db.feed a.feed }

theorem Db.bodies_applyEvent (a : EventAppend) (db : Db) :
    (db.applyEvent a).contexts.map (·.body) = db.contexts.map (·.body) := by
  simp [Db.applyEvent]

/-- The state `db` lets the event happen. -/
structure Applies (st : SqlStore) (event : LifecycleEvent) (draw : LifecycleDraw) (db : Db)
    (a : EventAppend) : Prop where
  isEvent : a.event = event
  row : ∃ row, db.context? event.ctxId = some row ∧ a.tenantId = row.tenantId ∧
    ∃ append, lifecycleAppend st.api event row.body a.receipt = .ok append ∧
      a.feed = append.toList.map fun f => (f, draw.feedRow)
  newId : ∀ r ∈ db.events event.ctxId, r.event.eventId ≠ event.eventId
  transition : event.eventType =
    if lastRetracts ((db.events event.ctxId).map (·.event)) then .republished else .retracted
  unminted : st.eventReceiptMinter = none → a.receipt = none ∧ a.fills = []
  minted : st.eventReceiptMinter ≠ none → a.receipt ≠ none

/-- What a fill of a plan writes: the receipt, as it is stored, to the event at its position. -/
def SqlStore.Fills (st : SqlStore) (slots : List EventSlot) (f : ℕ × EventReceipt)
    (written : String × Json) : Prop :=
  written.1 = (slots[f.1]?.map (·.1.eventId)).getD "" ∧ st.api.receiptValue f.2 = .ok written.2

/-- The receipts that an event writes are those of its plan. -/
def Planned (st : SqlStore) (event : LifecycleEvent) (draw : LifecycleDraw) (db : Db)
    (a : EventAppend) : Prop :=
  ∃ row plan, db.context? event.ctxId = some row ∧
    st.receiptPlan event draw row.body.createdAt (eventSlots st.api (db.events event.ctxId)) = .ok plan ∧
    List.Forall₂ (st.Fills (eventSlots st.api (db.events event.ctxId)))
      ((plan.map ReceiptPlan.fills).getD []) a.fills ∧
    plan.mapM (fun p => st.api.receiptValue p.new) = .ok a.receipt

/-! ## Steps -/

variable {db : Db} {slots : List EventSlot} {ctx : FullContext}

section Steps

variable {st : SqlStore} {event : LifecycleEvent} {draw : LifecycleDraw} {views : ℕ → Db}
  {s s' : Local Db Part} {u : Unit} {α : Type}

theorem LifecycleTx.checked_ok {x : Except AcdpError α} {a : α} :
    (LifecycleTx.checked x).run views s = (.ok a, s') ↔ x = .ok a ∧ s = s' := by
  rw [LifecycleTx.checked, Tx.lift_ok, except_mapError_ok]

theorem LifecycleTx.refuseIf_ok {p : Prop} [Decidable p] {e : AcdpError} :
    (LifecycleTx.refuseIf p e).run views s = (.ok u, s') ↔ ¬p ∧ s = s' :=
  Tx.refuse_ok

theorem checkEventId_ok (h : (st.checkEventId event draw ctx slots).run views s = (.ok u, s')) :
    s = s' ∧ ∀ slot ∈ slots, slot.1.eventId ≠ event.eventId := by
  unfold SqlStore.checkEventId at h
  split at h
  · next hnone =>
    obtain ⟨-, rfl⟩ := Tx.pure_ok.1 h
    exact ⟨rfl, by simpa using hnone⟩
  · simp only at h
    split at h <;> exact absurd h Tx.exit_ok

theorem checkTransition_ok {b : Bool}
    (h : (SqlStore.checkTransition event b).run views s = (.ok u, s')) :
    s = s' ∧ event.eventType = if b then .republished else .retracted := by
  unfold SqlStore.checkTransition at h
  split at h
  · next he =>
    obtain ⟨hb, rfl⟩ := LifecycleTx.refuseIf_ok.1 h
    exact ⟨rfl, by simp [he, hb]⟩
  · next he =>
    obtain ⟨hb, rfl⟩ := LifecycleTx.refuseIf_ok.1 h
    exact ⟨rfl, by simp [he, hb]⟩
  · exact absurd h Tx.exit_ok

theorem fillReceipts_ok :
    ∀ {fills : List (ℕ × EventReceipt)} {s s' : Local Db Part} {u : Unit},
    (st.fillReceipts event slots fills).run views s = (.ok u, s') →
    ∃ written : List (String × Json), List.Forall₂ (st.Fills slots) fills written ∧
      s'.own = (fun db => { db with
        lifecycleEvents := Db.fillReceipts db.lifecycleEvents event.ctxId written }) ∘ s.own
  | [], s, s', u, h => by
    obtain ⟨-, rfl⟩ := Tx.pure_ok.1 h
    exact ⟨[], .nil, rfl⟩
  | f :: fills, s, s', u, h => by
    obtain ⟨_, s₁, h₁, h⟩ := Tx.bind_ok.1 h
    obtain ⟨value, hvalue, h₁⟩ := Tx.checked_bind_ok.1 h₁
    obtain ⟨n, _, h₃, h₁⟩ := Tx.bind_ok.1 h₁
    obtain ⟨-, rfl⟩ := Tx.stmt_ok.1 h₃
    obtain ⟨-, rfl⟩ := LifecycleTx.refuseIf_ok.1 h₁
    obtain ⟨written, hwritten, hown⟩ := fillReceipts_ok h
    refine ⟨((slots[f.1]?.map (·.1.eventId)).getD "", value) :: written, .cons ⟨rfl, hvalue⟩ hwritten, ?_⟩
    rw [hown]
    rfl

theorem receiptPlan_ok {createdAt : ℤ} {plan : Option ReceiptPlan}
    (h : st.receiptPlan event draw createdAt slots = .ok plan) :
    (st.eventReceiptMinter = none ↔ plan = none) := by
  unfold SqlStore.receiptPlan at h
  split at h
  · next m hm =>
    cases hp : planEventReceipts st.api m event.ctxId createdAt slots event draw.now with
    | error e => simp [hp, Except.map] at h
    | ok p =>
      obtain rfl : some p = plan := by simpa [hp, Except.map] using h
      simp [hm]
  · next hm =>
    obtain rfl : none = plan := by simpa using h
    simp [hm]

theorem mapM_receipt_ok {plan : Option ReceiptPlan} {f : ReceiptPlan → Except AcdpError Json}
    {receipt : Option Json} (h : plan.mapM f = .ok receipt) : receipt = none ↔ plan = none := by
  cases plan with
  | none => simp_all [pure, Except.pure]
  | some p =>
    cases hp : f p with
    | error e => simp [hp, Functor.map, Except.map] at h
    | ok v =>
      obtain rfl : some v = receipt := by simpa [hp, Functor.map, Except.map] using h
      simp

theorem eventSlots_fst (api : AcdpApi) (rows : List LifecycleEventRow) :
    (eventSlots api rows).map Prod.fst = rows.map (·.event) := by
  refine List.ext_getElem? fun i => ?_
  simp [eventSlots, Function.comp_def]

theorem lifecycleTx_planned (h : (st.lifecycleTx event draw).run views {} = (.ok ctx, s))
    (hst : ∀ k r, s.Held k r → Db.part r (views k) = Db.part r db) :
    ∃ a : EventAppend, s.own = Db.applyEvent a ∧ Applies st event draw db a ∧
      Planned st event draw db a := by
  obtain ⟨_, s₀, h₀, h⟩ := Tx.bind_ok.1 h
  obtain ⟨x, s₁, h₁, h⟩ := Tx.bind_ok.1 h
  obtain ⟨row, _, h₂, h⟩ := Tx.bind_ok.1 h
  obtain ⟨rfl, rfl⟩ := Tx.require_ok.1 h₂
  obtain ⟨rows, s₂, h₃, h⟩ := Tx.bind_ok.1 h
  obtain ⟨_, _, h₄, h⟩ := Tx.bind_ok.1 h
  obtain ⟨rfl, hnew⟩ := checkEventId_ok h₄
  obtain ⟨_, _, h₅, h⟩ := Tx.bind_ok.1 h
  obtain ⟨rfl, htrans⟩ := checkTransition_ok h₅
  obtain ⟨plan, hplan, h⟩ := Tx.checked_bind_ok.1 h
  obtain ⟨_, s₃, h₇, h⟩ := Tx.bind_ok.1 h
  obtain ⟨receipt, hreceipt, h⟩ := Tx.checked_bind_ok.1 h
  obtain ⟨_, s₄, h₉, h⟩ := Tx.bind_ok.1 h
  obtain ⟨_, s₅, h₁₀, h⟩ := Tx.bind_ok.1 h
  obtain ⟨_, s₆, h₁₁, h⟩ := Tx.bind_ok.1 h
  obtain ⟨-, rfl⟩ := Tx.pure_ok.1 h
  obtain ⟨append, happend, h₁₁'⟩ := Tx.checked_bind_ok.1 h₁₁
  obtain ⟨-, hs₀⟩ := Tx.query_ok.1 h₀
  have hb₀ : st.dialect.begun 0 ⊆ s₀.locks := by
    rw [← hs₀]; exact List.subset_append_right _ _
  have hown₀ : s₀.own = id := by rw [← hs₀]; rfl
  have g₁ := (Tx.grows_of_run h₁).trans (Tx.grows_of_run h₃)
  have g₂ := g₁.trans ((Tx.grows_of_run h₇).trans ((Tx.grows_of_run h₉).trans (Tx.grows_of_run h₁₀)))
  have e₂ := (Tx.grows_of_run h₇).trans ((Tx.grows_of_run h₉).trans ((Tx.grows_of_run h₁₀).trans
    (Tx.grows_of_run h₁₁)))
  have e₁ := (Tx.grows_of_run h₃).trans e₂
  obtain ⟨hrow, hown₁, hheld⟩ := lockContext_ok hb₀ h₁
  obtain ⟨rfl, hown₂⟩ := select_ok h₃
  obtain ⟨written, hwritten, hown₃⟩ := fillReceipts_ok h₇
  obtain ⟨-, hs₄⟩ := Tx.stmt_ok.1 h₉
  obtain ⟨-, hs₅⟩ := Tx.stmt_ok.1 h₁₀
  have hown₆ := insertAll_ok (fun _ he => g₂.locks (hb₀ he)) h₁₁'
  rw [hown₁, hown₀] at hown₂
  rw [hown₂] at hown₃
  rw [hown₀] at hrow
  -- the row and the events were read under the context's lock
  have hpart := hst s₁.stmts (.context event.ctxId)
    ((hheld rfl).mono e₁ (Tx.grows_of_run h₁).stmts)
  have hdb : db.context? event.ctxId = some row :=
    (context?_of_part (hst _ _ ((hheld rfl).mono e₁ le_rfl))).symm.trans hrow
  have hevents : (s₁.own (views s₁.stmts)).events event.ctxId = db.events event.ctxId := by
    rw [hown₁, hown₀]; exact congrArg Prod.snd hpart
  rw [hevents] at hnew htrans hplan
  refine ⟨⟨event, row.tenantId, receipt, written, append.toList.map fun f => (f, draw.feedRow)⟩,
    ?_, ⟨rfl, ⟨row, hdb, rfl, append, happend, rfl⟩, fun r hr => ?_, ?_, fun hm => ?_, fun hm => ?_⟩,
    row, plan, hdb, hplan, ?_, hreceipt⟩
  · rw [hown₆, ← hs₅, ← hs₄]
    simp only [Local.next, hown₃]
    rfl
  · have hmem : r.event ∈ (eventSlots st.api (db.events event.ctxId)).map Prod.fst := by
      rw [eventSlots_fst]; exact List.mem_map_of_mem hr
    obtain ⟨slot, hslot, hr'⟩ := List.mem_map.1 hmem
    rw [← hr']
    exact hnew slot hslot
  · rw [htrans, st.api.retractionState_eq, eventSlots_fst]
  · obtain rfl := (receiptPlan_ok hplan).1 hm
    exact ⟨(mapM_receipt_ok hreceipt).2 rfl, List.forall₂_nil_left_iff.1 hwritten⟩
  · exact fun hr => hm ((receiptPlan_ok hplan).2 ((mapM_receipt_ok hreceipt).1 hr))
  · rwa [hevents] at hwritten

theorem lifecycleTx_ok (h : (st.lifecycleTx event draw).run views {} = (.ok ctx, s))
    (hst : ∀ k r, s.Held k r → Db.part r (views k) = Db.part r db) :
    ∃ a : EventAppend, s.own = Db.applyEvent a ∧ Applies st event draw db a := by
  obtain ⟨a, hown, happ, -⟩ := lifecycleTx_planned h hst
  exact ⟨a, hown, happ⟩

theorem evictIdempotencyTx_ok {now : ℤ}
    (h : (st.evictIdempotencyTx now).run views {} = (.ok u, s)) :
    ∃ evicts : IdempotencyRecord → Bool, (∀ r, evicts r → r.expiresAt ≤ st.dialect.stamp now) ∧
      s.own = fun db => { db with idempotency := db.idempotency.filter fun r => !evicts r } := by
  obtain ⟨_, s₀, h₀, h⟩ := Tx.bind_ok.1 h
  obtain ⟨-, rfl⟩ := Tx.query_ok.1 h₀
  obtain ⟨-, rfl⟩ := Tx.stmt_ok.1 h
  exact ⟨_, fun r hr => by simpa using (Bool.and_eq_true_iff.1 hr).2, rfl⟩

end Steps

/-! ## Commits -/

variable {c : PublishCommit} {row : ContextRow} {ctxId : String} {seen : Db → Prop}

/-- The step a call takes from `db`, having seen the states `seen` on the way, and what it returns. -/
inductive CommitStep (seen : Db → Prop) : Call → Db → Db → CallDone → Prop
  | publish {st c draw db p} : Accepted st c draw seen db p →
      CommitStep seen (.publish st c draw) db (db.publish p) (.inserted p.response)
  | event {st event draw db a ctx} : Applies st event draw db a →
      CommitStep seen (.lifecycle st event draw) db (db.applyEvent a) (.applied ctx)
  | evict {st now db} {evicts : IdempotencyRecord → Bool} :
      (∀ r, evicts r → r.expiresAt ≤ st.dialect.stamp now) →
      CommitStep seen (.evictIdempotency st now) db
        { db with idempotency := db.idempotency.filter fun r => !evicts r } .evicted

/-- A call that gets to its end, on states that agree with `db` where it has locks, takes one step from
    `db`. -/
theorem call_step {call : Call} {views : ℕ → Db} {s : Local Db Part} {a : CallDone}
    (h : call.tx.run views {} = (.ok a, s))
    (hst : ∀ k r, s.Held k r → Db.part r (views k) = Db.part r db) :
    CommitStep (fun d => ∃ k, d = views k) call db (s.own db) a := by
  cases call with
  | publish st c draw =>
    obtain ⟨resp, htx, rfl⟩ := Tx.mapEnd_ok.1 h
    obtain ⟨p, hown, rfl, hacc⟩ := publishTx_ok htx hst
    rw [hown]
    exact .publish hacc
  | lifecycle st event draw =>
    obtain ⟨ctx, htx, rfl⟩ := Tx.mapEnd_ok.1 h
    obtain ⟨e, hown, happ⟩ := lifecycleTx_ok htx hst
    rw [hown]
    exact .event happ
  | evictIdempotency st now =>
    obtain ⟨_, htx, rfl⟩ := Tx.mapEnd_ok.1 h
    obtain ⟨evicts, hev, hown⟩ := evictIdempotencyTx_ok htx
    rw [hown]
    exact .evict hev

/-- What a commit keeps of a context row: all but its status, which can only become superseded, and
    its retracted flag. -/
structure SameRow (row row' : ContextRow) : Prop where
  body : row'.body = row.body
  tenantId : row'.tenantId = row.tenantId
  receipt : row'.receipt = row.receipt
  superseded : row.status = .superseded → row'.status = .superseded

theorem SameRow.refl (row : ContextRow) : SameRow row row := ⟨rfl, rfl, rfl, id⟩

theorem SameRow.trans {a b c : ContextRow} (h : SameRow a b) (h' : SameRow b c) : SameRow a c :=
  ⟨h'.body.trans h.body, h'.tenantId.trans h.tenantId, h'.receipt.trans h.receipt,
    h'.superseded ∘ h.superseded⟩

theorem find?_update_row {rows : List ContextRow} {c : String} {f : ContextRow → ContextRow}
    (hf : ∀ row, SameRow row (f row)) (h : rows.find? (·.body.ctxId = ctxId) = some row) :
    ∃ row', (Db.update rows c f).find? (·.body.ctxId = ctxId) = some row' ∧ SameRow row row' := by
  rw [Db.find?_update fun row => (hf row).body, h]
  refine ⟨_, rfl, ?_⟩
  show SameRow row (if row.body.ctxId = c then f row else row)
  split
  · exact hf row
  · exact .refl row

theorem CommitStep.keeps_row {call : Call} {db' : Db} {a : CallDone}
    (h : CommitStep seen call db db' a) (hrow : db.context? ctxId = some row) :
    ∃ row', db'.context? ctxId = some row' ∧ SameRow row row' := by
  cases h with
  | @publish st c draw _ p =>
    have happ : (db.contexts ++ [p.row]).find? (·.body.ctxId = ctxId) = some row := by
      rw [List.find?_append]
      simp only [Db.context?] at hrow
      rw [hrow, Option.some_or]
    simp only [Db.publish, Db.context?]
    split
    · exact find?_update_row (by exact fun _ => ⟨rfl, rfl, rfl, fun _ => rfl⟩) happ
    · exact ⟨row, happ, .refl row⟩
  | event => exact find?_update_row (by exact fun _ => ⟨rfl, rfl, rfl, id⟩) hrow
  | evict => exact ⟨row, hrow, .refl row⟩

variable {draw : PublishDraw} {st : SqlStore}

theorem Accepted.context?_publish {p : Publication} (h : Accepted st c draw seen db p) :
    ∃ row, (db.publish p).context? p.row.body.ctxId = some row ∧ SameRow p.row row := by
  have happ : (db.contexts ++ [p.row]).find? (·.body.ctxId = p.row.body.ctxId) = some p.row := by
    have hfresh := h.fresh
    simp only [Db.context?] at hfresh
    rw [List.find?_append, hfresh]
    simp
  simp only [Db.publish, Db.context?]
  split
  · exact find?_update_row (by exact fun _ => ⟨rfl, rfl, rfl, fun _ => rfl⟩) happ
  · exact ⟨p.row, happ, .refl _⟩

/-! ## Context ids -/

theorem map_ctxId (rows : List ContextRow) :
    rows.map (·.body.ctxId) = (rows.map (·.body)).map (·.ctxId) := by
  simp [Function.comp_def]

theorem Db.context?_eq_none :
    db.context? ctxId = none ↔ ctxId ∉ db.contexts.map (·.body.ctxId) := by
  simp only [Db.context?, List.find?_eq_none, decide_eq_true_eq, List.mem_map, not_exists, not_and]

theorem Db.context?_eq_some (h : db.context? ctxId = some row) :
    row ∈ db.contexts ∧ row.body.ctxId = ctxId :=
  ⟨List.mem_of_find?_eq_some h, by simpa using List.find?_some h⟩

theorem Db.ctxIds_publish (p : Publication) (db : Db) :
    (db.publish p).contexts.map (·.body.ctxId) =
      db.contexts.map (·.body.ctxId) ++ [p.row.body.ctxId] := by
  rw [map_ctxId, Db.bodies_publish, map_ctxId, List.map_append, List.map_singleton]

theorem Db.ctxIds_applyEvent (a : EventAppend) (db : Db) :
    (db.applyEvent a).contexts.map (·.body.ctxId) = db.contexts.map (·.body.ctxId) := by
  rw [map_ctxId, Db.bodies_applyEvent, ← map_ctxId]

def Db.Unique (db : Db) : Prop := (db.contexts.map (·.body.ctxId)).Nodup

theorem Db.Unique.context? (h : db.Unique) (hrow : row ∈ db.contexts) :
    db.context? row.body.ctxId = some row := by
  cases hfind : db.context? row.body.ctxId with
  | none => exact absurd (List.mem_map_of_mem hrow) (Db.context?_eq_none.1 hfind)
  | some other =>
    obtain ⟨hother, hid⟩ := Db.context?_eq_some hfind
    rw [List.inj_on_of_nodup_map h hother hrow hid]

theorem Accepted.unique {p : Publication}
    (h : Accepted st c draw seen db p) (hdb : db.Unique) : (db.publish p).Unique := by
  rw [Db.Unique, Db.ctxIds_publish, List.nodup_append]
  refine ⟨hdb, List.nodup_singleton _, ?_⟩
  rintro a ha b hb rfl
  rw [List.mem_singleton] at hb
  exact Db.context?_eq_none.1 h.fresh (hb ▸ ha)

theorem CommitStep.unique {call : Call} {db' : Db} {a : CallDone}
    (h : CommitStep seen call db db' a) (hdb : db.Unique) : db'.Unique := by
  cases h with
  | publish hacc => exact hacc.unique hdb
  | event =>
    rw [Db.Unique, Db.ctxIds_applyEvent]
    exact hdb
  | evict => exact hdb

section Schedule

variable {ι : Type} {call : ι → Call} (S : StoreSchedule call) {i : ι}

/-- A state that a statement of call `i` saw. -/
def Saw (i : ι) (d : Db) : Prop := ∃ k, d = S.db (S.moment i k)

theorem Saw.past {d : Db} (h : Saw S i d) {n : ℕ} (hn : S.commits n = some i) :
    ∃ m ≤ n, d = S.db m := by
  obtain ⟨k, rfl⟩ := h
  exact ⟨_, S.moment_le hn k, rfl⟩

/-- **Commits are atomic.**  On either backend and in any interleaving, a call that commits takes one
    step from the state it commits on. -/
theorem commit_step {n : ℕ} (hn : S.commits n = some i) :
    ∃ a, S.result i = .ok a ∧ CommitStep (Saw S i) (call i) (S.db n) (S.db (n + 1)) a := by
  obtain ⟨a, hrun⟩ := S.run_of_commit hn
  rw [S.db_of_commit hn]
  exact ⟨a, congrArg Prod.fst hrun, call_step hrun fun k r =>
    S.stable (fun j => call_safe (call j)) hn⟩

theorem unique_ids (h0 : S.db 0 = {}) (n : ℕ) : (S.db n).Unique := by
  refine S.keeps ?_ (fun n i hn hI => ?_) n
  · rw [h0]
    exact List.nodup_nil
  · obtain ⟨a, -, hs⟩ := commit_step S hn
    exact hs.unique (hI n le_rfl)

theorem row_kept {m n : ℕ} (hmn : m ≤ n) (hrow : (S.db m).context? ctxId = some row) :
    ∃ row', (S.db n).context? ctxId = some row' ∧ SameRow row row' := by
  refine S.kept (I := fun db => ∃ row', db.context? ctxId = some row' ∧ SameRow row row') hmn
    ⟨row, hrow, .refl row⟩ fun t i _ _ hi ⟨row', h', hsame⟩ => ?_
  obtain ⟨a, -, hs⟩ := commit_step S hi
  obtain ⟨row'', h'', hsame'⟩ := hs.keeps_row h'
  exact ⟨row'', h'', hsame.trans hsame'⟩

theorem publish_attempt (hcall : call i = .publish st c draw) :
    S.attempt (fun i => (call i).tx) i = ((st.publishTx c draw).mapEnd CallExit.publish .inserted).run
      (fun k => S.db (S.moment i k)) {} := by
  simp only [Interleaving.attempt, hcall, Call.tx]

theorem publish_run_error (hcall : call i = .publish st c draw) {e : PublishExit}
    (he : S.result i = .error (.publish e)) :
    (st.publishTx c draw).run (fun k => S.db (S.moment i k)) {} =
      (.error e, S.done (fun i => (call i).tx) i) := by
  have hrun : S.attempt (fun i => (call i).tx) i =
      (.error (.publish e), S.done (fun i => (call i).tx) i) := Prod.ext he rfl
  rw [publish_attempt S hcall] at hrun
  obtain ⟨e', htx, he'⟩ := Tx.mapEnd_error.1 hrun
  cases he'
  exact htx

/-- Publish call `i` answers `a` at the moment `m`; after a lost claim it reads the state of that
    moment. -/
def Answers (i : ι) (c : PublishCommit) (m : ℕ) (a : Except AcdpError PublishCommitOutcome) : Prop :=
  (∀ k, S.moment i k ≤ S.finish i) ∧ S.finish i ≤ m ∧
    ((∃ r n, S.result i = .ok (.inserted r) ∧ S.commits n = some i ∧
        a = SqlStore.publishAnswer c (.ok r) (S.db m)) ∨
      ∃ e, S.result i = .error (.publish e) ∧ a = SqlStore.publishAnswer c (.error e) (S.db m))

theorem Answers.not_commits {m : ℕ} {a : Except AcdpError PublishCommitOutcome}
    (h : Answers S i c m a) (hnot : ∀ r, a ≠ .ok (.inserted r)) (n : ℕ) : S.commits n ≠ some i := by
  intro hn
  rcases h.2.2 with ⟨r, -, -, -, rfl⟩ | ⟨e, he, -⟩
  · exact hnot r rfl
  · obtain ⟨b, hb, -⟩ := commit_step S hn
    rw [he] at hb
    cases hb

end Schedule

end AcdpRegistry
