/-
  The startup sweep of event receipts (`plan_backfill` of `event_receipts.rs` and
  `backfill_ctx` of the SQL backends), and schedules of it beside the other calls.

  A sweep of one context runs under the lock that an append takes, plans as
  fill-on-append does, and either fills every empty slot or writes nothing.
-/
import AcdpRegistry.Store.LifecycleSpec

namespace AcdpRegistry

open Lib

/-! ## The plan -/

/-- What the sweep must do for one context's history. -/
inductive BackfillPlan
  | complete
  | fill (fills : List (ℕ × EventReceipt))
  | hole

/-- `plan_backfill`: the rules of fill-on-append, without a new event. -/
def planBackfill (api : AcdpApi) (minter : EventReceiptMinter) (ctxId : String) (createdAt : ℤ)
    (prior : List EventSlot) (now : ℤ) : Except AcdpError BackfillPlan :=
  if StoredReceipt.hasHole false (prior.map Prod.snd) then .ok .hole
  else do
    let (fills, _) ← fillNulls api minter ctxId createdAt now 0 (latestAcceptedAt prior) prior
    return if fills.isEmpty then .complete else .fill fills

/-! ## The transaction -/

inductive SweepExit
  | off
  | complete
  | skipped
  | failed (e : AcdpError)

abbrev SweepTx := Tx Db Part SweepExit

namespace SqlStore

variable (st : SqlStore) (ctxId : String)

def sweepFill (eventId : String) (r : EventReceipt) : SweepTx Unit := do
  let value ← Tx.lift ((st.api.receiptValue r).mapError .failed)
  let rows ← .stmt (fun _ => [])
    (fun _ db => { db with
      lifecycleEvents := Db.fillReceipt db.lifecycleEvents ctxId eventId value })
    fun db => db.lifecycleEvents.countP fun r =>
      r.event.ctxId = ctxId ∧ r.event.eventId = eventId ∧ r.receipt.isNone
  Tx.refuse (rows ≠ 1) (.failed
    (.registryInternal s!"event receipt sweep fill for '{eventId}' matched {rows} rows"))

def sweepFills (slots : List EventSlot) : List (ℕ × EventReceipt) → SweepTx Unit
  | [] => pure ()
  | f :: fills => do
    st.sweepFill ctxId ((slots[f.1]?.map (·.1.eventId)).getD "") f.2
    sweepFills slots fills

/-- The fills of a plan; without any the transaction is rolled back. -/
def backfillFills : BackfillPlan → SweepTx (List (ℕ × EventReceipt))
  | .complete => Tx.exit .complete
  | .hole => Tx.exit .skipped
  | .fill fills => pure fills

/-- The transaction of `backfill_ctx`; it answers the number of receipts. -/
def backfillTx (now : ℤ) : SweepTx ℕ := do
  let minter ← Tx.require st.eventReceiptMinter .off
  st.begin
  let row ← Tx.require (← st.lockContext ctxId) .skipped
  let slots := eventSlots st.api (← select (·.events ctxId))
  let plan ← Tx.lift ((planBackfill st.api minter row.body.ctxId row.body.createdAt slots now).mapError
    .failed)
  let fills ← backfillFills plan
  st.sweepFills ctxId slots fills
  return fills.length

end SqlStore

/-- A writing call to a store, or the sweep of one context. -/
inductive SweptCall
  | call (c : Call)
  | backfill (st : SqlStore) (ctxId : String) (now : ℤ)

namespace SweptCall

def store : SweptCall → SqlStore
  | call c => c.store
  | backfill st _ _ => st

def tx : SweptCall → Tx Db Part (CallExit ⊕ SweepExit) (CallDone ⊕ ℕ)
  | call c => c.tx.mapEnd .inl .inl
  | backfill st ctxId now => (st.backfillTx ctxId now).mapEnd .inr .inr

end SweptCall

/-- Any interleaving of calls and sweeps, of any number of stores of one database. -/
abbrev SweptSchedule {ι : Type} (call : ι → SweptCall) := Schedule fun i => (call i).tx

/-! ## Locks -/

namespace SqlStore

variable {st : SqlStore} {ctxId : String} {held : List (ℕ × Lock Part)}

theorem safe_sweepFills (hctx : ∃ e ∈ held, e.2.Guards (.context ctxId)) (slots : List EventSlot) :
    ∀ fills, (st.sweepFills ctxId slots fills).Safe Db.part held
  | [] => Tx.safe_pure _
  | f :: fills => by
    refine Tx.Safe.bind ?_ fun _ => safe_sweepFills hctx slots fills
    refine Tx.Safe.bind (Tx.safe_lift _) fun _ => Tx.Safe.bind ?_ fun _ => Tx.safe_refuse _ _
    exact safe_stmt_context hctx fun _ _ _ hr => Db.part_fillReceipt hr

theorem safe_backfillTx (now : ℤ) : (st.backfillTx ctxId now).Safe Db.part [] := by
  refine Tx.Safe.bind (Tx.safe_require _ _) fun minter => ?_
  refine Tx.safe_query_bind fun _ k => Tx.safe_query_bind fun seen j =>
    Tx.safe_require_bind fun row hrow => ?_
  have hctx := st.dialect.guarded k (.context ctxId)
  refine (safe_select _).bind fun _ => (Tx.safe_lift _).bind fun plan => Tx.Safe.bind ?_ fun _ =>
    (safe_sweepFills ?_ _ _).bind fun _ => Tx.safe_pure _
  · cases plan with
    | complete => exact Tx.safe_exit _
    | hole => exact Tx.safe_exit _
    | fill fills => exact Tx.safe_pure _
  · -- the row was found, so it is locked
    rcases hctx with ⟨l, hl, hg⟩ | ⟨e, he, hg⟩
    · exact ⟨(j, l), List.mem_append_right _ (by simp [hrow, hl]), hg⟩
    · exact ⟨e, List.mem_append_left _ he, hg⟩

end SqlStore

/-- **Sweeps write only under locks.** -/
theorem sweptCall_safe (call : SweptCall) : call.tx.Safe Db.part [] := by
  cases call with
  | call c => exact (call_safe c).mapEnd
  | backfill st ctxId now => exact (SqlStore.safe_backfillTx now).mapEnd

/-! ## What commits -/

def Db.fill (ctxId : String) (written : List (String × Json)) (db : Db) : Db :=
  { db with lifecycleEvents := Db.fillReceipts db.lifecycleEvents ctxId written }

/-- The receipts that a sweep fills in are those of its plan. -/
def Sweeps (st : SqlStore) (ctxId : String) (now : ℤ) (db : Db) (written : List (String × Json)) : Prop :=
  ∃ minter row fills, st.eventReceiptMinter = some minter ∧ db.context? ctxId = some row ∧
    planBackfill st.api minter ctxId row.body.createdAt (eventSlots st.api (db.events ctxId)) now =
      .ok (.fill fills) ∧
    List.Forall₂ (st.Fills (eventSlots st.api (db.events ctxId))) fills written

section Steps

variable {st : SqlStore} {ctxId : String} {now : ℤ} {views : ℕ → Db} {s : Local Db Part} {db : Db}

theorem sweepFills_ok {slots : List EventSlot} :
    ∀ {fills : List (ℕ × EventReceipt)} {s s' : Local Db Part} {u : Unit},
    (st.sweepFills ctxId slots fills).run views s = (.ok u, s') →
    ∃ written, List.Forall₂ (st.Fills slots) fills written ∧ s'.own = Db.fill ctxId written ∘ s.own
  | [], s, s', u, h => by
    obtain ⟨-, rfl⟩ := Tx.pure_ok.1 h
    exact ⟨[], .nil, rfl⟩
  | f :: fills, s, s', u, h => by
    obtain ⟨_, s₁, h₁, h⟩ := Tx.bind_ok.1 h
    obtain ⟨value, _, h₂, h₁⟩ := Tx.bind_ok.1 h₁
    obtain ⟨hvalue, rfl⟩ := Tx.lift_ok.1 h₂
    obtain ⟨n, _, h₃, h₁⟩ := Tx.bind_ok.1 h₁
    obtain ⟨-, rfl⟩ := Tx.stmt_ok.1 h₃
    obtain ⟨-, rfl⟩ := Tx.refuse_ok.1 h₁
    obtain ⟨written, hwritten, hown⟩ := sweepFills_ok h
    refine ⟨((slots[f.1]?.map (·.1.eventId)).getD "", value) :: written,
      .cons ⟨rfl, except_mapError_ok.1 hvalue⟩ hwritten, ?_⟩
    rw [hown]
    rfl

theorem backfillTx_reads {row : ContextRow} {s₀ s₁ s₂ : Local Db Part} {u : Unit}
    {rows : List LifecycleEventRow}
    (h₀ : (st.begin : SweepTx Unit).run views {} = (.ok u, s₀))
    (h₁ : (st.lockContext ctxId : SweepTx _).run views s₀ = (.ok (some row), s₁))
    (h₂ : (select (·.events ctxId) : SweepTx _).run views s₁ = (.ok rows, s₂))
    (hgrows : s₂.Grows s) (hst : ∀ k r, s.Held k r → Db.part r (views k) = Db.part r db) :
    db.context? ctxId = some row ∧ rows = db.events ctxId ∧ s₂.own = id := by
  obtain ⟨-, hs₀⟩ := Tx.query_ok.1 h₀
  have hb₀ : st.dialect.begun 0 ⊆ s₀.locks := by
    rw [← hs₀]
    exact List.subset_append_right _ _
  have hown₀ : s₀.own = id := by rw [← hs₀]; rfl
  obtain ⟨hrow, hown₁, hheld⟩ := lockContext_ok hb₀ h₁
  obtain ⟨rfl, hown₂⟩ := select_ok h₂
  have g₁ := (Tx.grows_of_run h₂).trans hgrows
  rw [hown₀] at hrow hown₁
  have hpart := hst s₁.stmts (.context ctxId) ((hheld rfl).mono g₁ (Tx.grows_of_run h₁).stmts)
  refine ⟨(context?_of_part (hst _ _ ((hheld rfl).mono g₁ le_rfl))).symm.trans hrow, ?_,
    hown₂.trans hown₁⟩
  rw [hown₁]
  exact congrArg Prod.snd hpart

theorem backfillTx_ok {n : ℕ} (h : (st.backfillTx ctxId now).run views {} = (.ok n, s))
    (hst : ∀ k r, s.Held k r → Db.part r (views k) = Db.part r db) :
    ∃ written, s.own = Db.fill ctxId written ∧ Sweeps st ctxId now db written := by
  obtain ⟨minter, _, h', h⟩ := Tx.bind_ok.1 h
  obtain ⟨hminter, rfl⟩ := Tx.require_ok.1 h'
  obtain ⟨_, s₀, h₀, h⟩ := Tx.bind_ok.1 h
  obtain ⟨x, s₁, h₁, h⟩ := Tx.bind_ok.1 h
  obtain ⟨row, _, h', h⟩ := Tx.bind_ok.1 h
  obtain ⟨rfl, rfl⟩ := Tx.require_ok.1 h'
  obtain ⟨rows, s₂, h₂, h⟩ := Tx.bind_ok.1 h
  obtain ⟨plan, _, h', h⟩ := Tx.bind_ok.1 h
  obtain ⟨hplan, rfl⟩ := Tx.lift_ok.1 h'
  obtain ⟨fills, _, h', h⟩ := Tx.bind_ok.1 h
  obtain ⟨_, s₃, h₃, h⟩ := Tx.bind_ok.1 h
  obtain ⟨-, rfl⟩ := Tx.pure_ok.1 h
  cases plan with
  | complete => exact absurd h' Tx.exit_ok
  | hole => exact absurd h' Tx.exit_ok
  | fill fills' =>
    obtain ⟨rfl, rfl⟩ := Tx.pure_ok.1 h'
    obtain ⟨written, hwritten, hown⟩ := sweepFills_ok h₃
    obtain ⟨hrow, rfl, hown₂⟩ := backfillTx_reads h₀ h₁ h₂ (Tx.grows_of_run h₃) hst
    refine ⟨written, by rw [hown, hown₂]; rfl, minter, row, fills', hminter, hrow, ?_, hwritten⟩
    rw [(Db.context?_eq_some hrow).2] at hplan
    exact except_mapError_ok.1 hplan

theorem sweepFills_error {slots : List EventSlot} {e : SweepExit} :
    ∀ {fills : List (ℕ × EventReceipt)} {s s' : Local Db Part},
    (st.sweepFills ctxId slots fills).run views s = (.error e, s') → ∃ err, e = .failed err
  | [], s, s', h => by cases h
  | f :: fills, s, s', h => by
    rcases Tx.bind_error.1 h with h | ⟨_, _, -, h⟩
    · rcases Tx.bind_error.1 h with h | ⟨_, _, -, h⟩
      · obtain ⟨err, -, rfl⟩ := except_mapError_error.1 (Tx.lift_error.1 h).1
        exact ⟨err, rfl⟩
      · rcases Tx.bind_error.1 h with h | ⟨n, _, -, h⟩
        · exact absurd h Tx.not_stmt_error
        · obtain ⟨-, rfl, -⟩ := Tx.refuse_error.1 h
          exact ⟨_, rfl⟩
    · exact sweepFills_error h

theorem backfillTx_error {e : SweepExit} (h : (st.backfillTx ctxId now).run views {} = (.error e, s))
    (hst : ∀ k r, s.Held k r → Db.part r (views k) = Db.part r db) :
    e = .off ∨ (∃ err, e = .failed err) ∨ (e = .skipped ∧ (views 1).context? ctxId = none) ∨
      ∃ minter row plan, db.context? ctxId = some row ∧
        planBackfill st.api minter ctxId row.body.createdAt (eventSlots st.api (db.events ctxId)) now =
          .ok plan ∧ (e = .complete ∧ plan = .complete ∨ e = .skipped ∧ plan = .hole) := by
  rcases Tx.bind_error.1 h with h | ⟨minter, _, h', h⟩
  · exact .inl (Tx.require_error.1 h).2.1.symm
  obtain ⟨-, rfl⟩ := Tx.require_ok.1 h'
  rcases Tx.bind_error.1 h with h | ⟨_, s₀, h₀, h⟩
  · cases h
  rcases Tx.bind_error.1 h with h | ⟨x, s₁, h₁, h⟩
  · cases h
  rcases Tx.bind_error.1 h with h | ⟨row, _, h', h⟩
  · obtain ⟨rfl, rfl, -⟩ := Tx.require_error.1 h
    obtain ⟨-, rfl⟩ := Tx.query_ok.1 h₀
    exact .inr (.inr (.inl ⟨rfl, (Tx.query_ok.1 h₁).1⟩))
  obtain ⟨rfl, rfl⟩ := Tx.require_ok.1 h'
  rcases Tx.bind_error.1 h with h | ⟨rows, s₂, h₂, h⟩
  · cases h
  rcases Tx.bind_error.1 h with h | ⟨plan, _, h', h⟩
  · obtain ⟨err, -, rfl⟩ := except_mapError_error.1 (Tx.lift_error.1 h).1
    exact .inr (.inl ⟨err, rfl⟩)
  obtain ⟨hplan, rfl⟩ := Tx.lift_ok.1 h'
  rcases Tx.bind_error.1 h with hend | ⟨fills, _, h', h⟩
  · -- the plan has nothing to fill
    have hs : s₂ = s := by
      cases plan with
      | complete => exact (Tx.lift_error.1 hend).2
      | hole => exact (Tx.lift_error.1 hend).2
      | fill fills => cases hend
    obtain ⟨hrow, rfl, -⟩ := backfillTx_reads h₀ h₁ h₂ (hs ▸ .refl _) hst
    rw [(Db.context?_eq_some hrow).2] at hplan
    refine .inr (.inr (.inr ⟨minter, row, plan, hrow, except_mapError_ok.1 hplan, ?_⟩))
    cases plan with
    | complete => exact .inl ⟨(Except.error.inj (Tx.lift_error.1 hend).1).symm, rfl⟩
    | hole => exact .inr ⟨(Except.error.inj (Tx.lift_error.1 hend).1).symm, rfl⟩
    | fill fills => cases hend
  rcases Tx.bind_error.1 h with h | ⟨_, s₃, -, h⟩
  · exact .inr (.inl (sweepFills_error h))
  · exact absurd h (by simp [Tx.pure_run])

end Steps

/-- The step that a commit takes: a call's, with the plan of its receipts, or a sweep's. -/
inductive SweptStep (seen : Db → Prop) : SweptCall → Db → Db → Prop
  | other {c db db' a} : CommitStep seen c db db' a → (∀ st event draw, c ≠ .lifecycle st event draw) →
      SweptStep seen (.call c) db db'
  | event {st event draw db a} : Applies st event draw db a → Planned st event draw db a →
      SweptStep seen (.call (.lifecycle st event draw)) db (db.applyEvent a)
  | sweep {st ctxId now db written} : Sweeps st ctxId now db written →
      SweptStep seen (.backfill st ctxId now) db (db.fill ctxId written)

/-- **Commits are atomic, beside sweeps too.** -/
theorem swept_step {ι : Type} {call : ι → SweptCall} (S : SweptSchedule call) {n : ℕ} {i : ι}
    (hn : S.commits n = some i) :
    SweptStep (fun d => ∃ k, d = S.db (S.moment i k)) (call i) (S.db n) (S.db (n + 1)) := by
  obtain ⟨a, hrun⟩ := S.run_of_commit hn
  have hst : ∀ k r, (S.done (fun i => (call i).tx) i).Held k r →
      Db.part r (S.db (S.moment i k)) = Db.part r (S.db n) :=
    fun k r hheld => S.stable (fun j => sweptCall_safe (call j)) hn hheld
  rw [S.db_of_commit hn]
  cases hcall : call i with
  | call c =>
    rw [hcall] at hrun
    obtain ⟨b, htx, -⟩ := Tx.mapEnd_ok.1 hrun
    have hstep := call_step htx hst
    cases c with
    | lifecycle st event draw =>
      obtain ⟨ctx, htx, -⟩ := Tx.mapEnd_ok.1 htx
      obtain ⟨a, hown, happ, hplan⟩ := lifecycleTx_planned htx hst
      rw [hown]
      exact .event happ hplan
    | publish st c draw => exact .other hstep fun _ _ _ h => by cases h
    | evictIdempotency st now => exact .other hstep fun _ _ _ h => by cases h
  | backfill st ctxId now =>
    rw [hcall] at hrun
    obtain ⟨b, htx, -⟩ := Tx.mapEnd_ok.1 hrun
    obtain ⟨written, hown, hsweep⟩ := backfillTx_ok htx hst
    rw [hown]
    exact .sweep hsweep

end AcdpRegistry
