/-
  Every call writes only to what it has locked.

  The frame lemmas say which part each write touches; the `safe_` lemmas say
  that the statement that makes it runs under a lock on that part, on either
  backend.  `call_safe` is the result: it is what makes a row read under a lock
  the row that is there at the commit.
-/
import AcdpRegistry.Store.CommitLifecycle

namespace AcdpRegistry

open Lib

/-! ## Frame lemmas -/

variable {ctxId : String}

namespace Db

variable {db : Db} {r : Part}

theorem part_insertContext (row : ContextRow) (h : r ≠ .context row.body.ctxId) :
    part r { db with contexts := db.contexts ++ [row] } = part r db := by
  cases r with
  | context ctxId =>
    have hne : row.body.ctxId ≠ ctxId := fun he => h (by rw [he])
    simp [part, context?, events, List.find?_append, hne]
  | _ => rfl

theorem part_updateContext {f : ContextRow → ContextRow} (hf : ∀ row, (f row).body = row.body)
    (h : r ≠ .context ctxId) :
    part r { db with contexts := update db.contexts ctxId f } = part r db := by
  cases r with
  | context c =>
    have hne : c ≠ ctxId := fun he => h (by rw [he])
    simp only [part, context?, events, find?_update hf, Prod.mk.injEq, and_true]
    cases hfind : db.contexts.find? (·.body.ctxId = c) with
    | none => rfl
    | some row =>
      have hc : row.body.ctxId = c := by simpa using List.find?_some hfind
      simp [hc, hne]
  | _ => rfl

theorem part_evictKey {agentId key : String} {cutoff : ℤ} (h : r ≠ .idempotency agentId key) :
    part r { db with
      idempotency := db.idempotency.filter fun rec => !expiredAt agentId key cutoff rec } =
      part r db := by
  cases r with
  | idempotency a k =>
    simp only [part, List.filter_filter]
    refine List.filter_congr fun rec _ => ?_
    by_cases hk : rec.agentId = a ∧ rec.key = k
    · obtain ⟨rfl, rfl⟩ := hk
      have hne : ¬(rec.agentId = agentId ∧ rec.key = key) := fun hk => h (by rw [hk.1, hk.2])
      simpa [expiredAt] using Or.inl (not_and_or.1 hne)
    · simp [hk]
  | _ => rfl

theorem part_insertKey {rec : IdempotencyRecord} (h : r ≠ .idempotency rec.agentId rec.key) :
    part r { db with idempotency := db.idempotency ++ [rec] } = part r db := by
  cases r with
  | idempotency a k =>
    have : ¬(rec.agentId = a ∧ rec.key = k) := fun hk => h (by rw [hk.1, hk.2])
    simp [part, this]
  | _ => rfl

theorem part_insertAttestation {row : KeyAttestationIndexRow} (h : r ≠ .token row.tokenHash) :
    part r { db with keyAttestations := db.keyAttestations ++ [row] } = part r db := by
  cases r with
  | token hash =>
    have : row.tokenHash ≠ hash := fun he => h (by rw [he])
    simp [part, this]
  | _ => rfl

theorem part_insertLeaf {leaves : List LogLeafRow} (h : r ≠ .log) :
    part r { db with logLeaves := leaves } = part r db := by
  cases r with
  | log => exact absurd rfl h
  | _ => rfl

theorem part_feed {feed : FeedStore} (h : r ≠ .feed) :
    part r { db with feed := feed } = part r db := by
  cases r with
  | feed => exact absurd rfl h
  | _ => rfl

theorem part_insertEvent {row : LifecycleEventRow} (h : r ≠ .context row.event.ctxId) :
    part r { db with lifecycleEvents := db.lifecycleEvents ++ [row] } = part r db := by
  cases r with
  | context ctxId =>
    have hne : row.event.ctxId ≠ ctxId := fun he => h (by rw [he])
    simp [part, context?, events, hne]
  | _ => rfl

theorem filter_fillReceipt {rows : List LifecycleEventRow} {eventId : String} {value : Json}
    {c : String} (h : c ≠ ctxId) :
    (fillReceipt rows ctxId eventId value).filter (·.event.ctxId = c) =
      rows.filter (·.event.ctxId = c) := by
  induction rows with
  | nil => rfl
  | cons row rows ih =>
    simp only [fillReceipt, List.map_cons] at ih ⊢
    by_cases hrow : row.event.ctxId = ctxId ∧ row.event.eventId = eventId ∧ row.receipt.isNone
    · have hne : row.event.ctxId ≠ c := fun he => h (he.symm.trans hrow.1)
      rw [if_pos hrow, List.filter_cons_of_neg (by simpa using hne),
        List.filter_cons_of_neg (by simpa using hne), ih]
    · rw [if_neg hrow]
      simp only [List.filter_cons, ih]

theorem part_fillReceipt {eventId : String} {value : Json} (h : r ≠ .context ctxId) :
    part r { db with lifecycleEvents := fillReceipt db.lifecycleEvents ctxId eventId value } =
      part r db := by
  cases r with
  | context c =>
    have hne : c ≠ ctxId := fun he => h (by rw [he])
    simp only [part, context?, events, filter_fillReceipt hne]
  | _ => rfl

end Db

/-! ## Locks of the two backends -/

namespace Dialect

variable (d : Dialect)

/-- The locks a transaction has held since its `BEGIN`, statement `k`. -/
def begun (k : ℕ) : List (ℕ × Lock Part) := d.beginLocks.map fun l => (k, l)

theorem guarded (k : ℕ) (r : Part) :
    (∃ l ∈ d.rowLock r, l.Guards r) ∨ ∃ e ∈ d.begun k, e.2.Guards r := by
  cases d <;> simp [rowLock, begun, beginLocks, Lock.Guards]

end Dialect

namespace SqlStore

variable {st : SqlStore} {ρ α : Type} {k : ℕ} {held : List (ℕ × Lock Part)}

theorem safe_stmt_rowLock {needs : Db → List (Lock Part)} {write : Db → Db → Db} {result : Db → α}
    (r : Part) (hheld : st.dialect.begun k ⊆ held)
    (hneeds : ∀ seen, (∀ db, write seen db = db) ∨ st.dialect.rowLock r ⊆ needs seen)
    (hframe : ∀ seen r' db, r' ≠ r → Db.part r' (write seen db) = Db.part r' db) :
    (Tx.stmt needs write result : Tx Db Part ρ α).Safe Db.part held := by
  refine Tx.safe_stmt fun seen r' db => ?_
  by_cases hr : r' = r
  · subst hr
    rcases hneeds seen with hid | hlock
    · exact Or.inl (by rw [hid])
    · rcases st.dialect.guarded k r' with ⟨l, hl, hg⟩ | ⟨e, he, hg⟩
      · exact Or.inr (Or.inl ⟨l, hlock hl, hg⟩)
      · exact Or.inr (Or.inr ⟨e, hheld he, hg⟩)
  · exact Or.inl (hframe seen r' db hr)

theorem safe_select (f : Db → α) : (select f : Tx Db Part ρ α).Safe Db.part held :=
  Tx.safe_query _ _

theorem safe_insertUnique {r : Part} {free : Db → Bool} {insert : Db → Db}
    (hheld : st.dialect.begun k ⊆ held)
    (hframe : ∀ r' db, r' ≠ r → Db.part r' (insert db) = Db.part r' db) :
    (st.insertUnique r free insert : Tx Db Part ρ Bool).Safe Db.part held := by
  refine safe_stmt_rowLock r hheld (fun seen => ?_) fun seen r' db hr => ?_
  · cases free seen with
    | true => exact Or.inr (by simp)
    | false => exact Or.inl (by simp)
  · split
    · exact hframe r' db hr
    · rfl

/-- Once the log or the feed is locked, the statements that follow may write it. -/
theorem safe_advisoryLock_bind {r : Part} {f : Unit → Tx Db Part ρ α}
    (hheld : st.dialect.begun k ⊆ held)
    (hf : ∀ held', st.dialect.begun k ⊆ held' → (∃ e ∈ held', e.2.Guards r) →
      (f ()).Safe Db.part held') :
    (st.advisoryLock r >>= f).Safe Db.part held := by
  unfold advisoryLock
  cases hd : st.dialect with
  | sqlite =>
    refine (Tx.safe_pure ()).bind fun _ => hf held hheld ?_
    exact ⟨(k, .whole), hheld (by simp [hd, Dialect.begun, Dialect.beginLocks]), trivial⟩
  | postgres =>
    refine Tx.safe_query_bind fun _ j => hf _ (fun e he => List.mem_append_left _ (hheld he)) ?_
    exact ⟨(j, .part r), by simp, rfl⟩

theorem safe_insertFeedRows (hheld : ∃ e ∈ held, e.2.Guards .feed) :
    ∀ rows, (insertFeedRows rows : Tx Db Part ρ Unit).Safe Db.part held
  | [] => Tx.safe_pure _
  | r :: rows => by
    refine Tx.Safe.bind (Tx.safe_stmt fun seen r' db => ?_) fun _ => safe_insertFeedRows hheld rows
    by_cases hr : r' = .feed
    · subst hr; exact Or.inr (Or.inr hheld)
    · exact Or.inl (Db.part_feed hr)

theorem safe_insertAll (hheld : st.dialect.begun k ⊆ held) (rows : List (FeedAppend × ℕ × ℤ)) :
    (st.insertAll rows : Tx Db Part ρ Unit).Safe Db.part held := by
  unfold insertAll
  split
  · exact Tx.safe_pure _
  · exact safe_advisoryLock_bind hheld fun _ _ h => safe_insertFeedRows h rows

/-! ## The publish transaction -/

section Publish

variable (c : PublishCommit) (draw : PublishDraw) (hheld : st.dialect.begun k ⊆ held)

theorem safe_checked (x : Except AcdpError α) : (PublishTx.checked x).Safe Db.part held :=
  Tx.safe_lift _

theorem safe_refuseIf (p : Prop) [Decidable p] (e : AcdpError) :
    (PublishTx.refuseIf p e).Safe Db.part held :=
  Tx.safe_refuse _ _

include hheld in
theorem safe_idempotencyLookup : (st.idempotencyLookup c draw).Safe Db.part held := by
  unfold idempotencyLookup
  split
  · exact Tx.safe_pure _
  · next i _ =>
    refine Tx.Safe.bind ?_ fun _ => Tx.Safe.bind (Tx.safe_query _ _) fun record => ?_
    · refine safe_stmt_rowLock (.idempotency c.req.agentId i.key) hheld (fun seen => ?_)
        fun seen r db hr => ?_
      · split
        · exact Or.inr fun _ h => h
        · exact Or.inl fun _ => rfl
      · split
        · exact Db.part_evictKey hr
        · rfl
    · cases record with
      | none => exact Tx.safe_pure _
      | some record => exact Tx.safe_refuse _ _

theorem safe_refuseSuperseded (prev : String) :
    (st.refuseSuperseded c draw prev).Safe Db.part held := by
  unfold refuseSuperseded
  split
  · refine Tx.Safe.bind (safe_select _) fun record => ?_
    cases record <;> exact Tx.safe_exit _
  · exact Tx.safe_exit _

theorem safe_predecessorRow (att : Option String) : (predecessorRow att).Safe Db.part held := by
  cases att with
  | none => exact Tx.safe_pure _
  | some att => exact Tx.Safe.bind (safe_select _) fun _ => Tx.safe_pure _

theorem safe_supersessionGate (row : ContextRow) : (st.supersessionGate c row).Safe Db.part held := by
  unfold supersessionGate
  split
  · exact Tx.safe_pure _
  · exact (safe_select _).bind fun _ => (safe_checked _).bind fun _ => (safe_checked _).bind fun _ =>
      (safe_predecessorRow _).bind fun _ => (safe_checked _).bind fun _ => safe_checked _

theorem safe_windowGate (createdAt : ℤ) : (st.windowGate c createdAt).Safe Db.part held := by
  unfold windowGate
  split
  · exact Tx.safe_pure _
  · exact (safe_select _).bind fun _ => (safe_checked _).bind fun _ => safe_checked _

theorem safe_checkTarget (prev : String) (row : ContextRow) :
    (checkTarget c prev row).Safe Db.part held :=
  (safe_refuseIf _ _).bind fun _ => (safe_refuseIf _ _).bind fun _ => (safe_refuseIf _ _).bind
    fun _ => safe_refuseIf _ _

theorem safe_supersession : (st.supersession c draw).Safe Db.part held := by
  unfold supersession
  split
  · exact Tx.safe_pure _
  · refine (Tx.safe_query _ _).bind fun _ => (Tx.safe_require _ _).bind fun row =>
      (safe_checkTarget c _ row).bind fun _ => ?_
    have rest : (do
        st.supersessionGate c row
        PublishTx.checked ((c.predecessorAdmission.map (· row.body)).getD (.ok ()))
        return (← select (·.firstOfLineage row.body.lineageId)).map (·.body.ctxId) :
          PublishTx (Option String)).Safe Db.part held :=
      (safe_supersessionGate c row).bind fun _ => (safe_checked _).bind fun _ =>
        (safe_select _).bind fun _ => Tx.safe_pure _
    split
    · exact (safe_refuseSuperseded c draw _).bind fun _ => rest
    · exact rest

include hheld in
theorem safe_insertBody (body : Body) (receipt : Option Json) :
    (st.insertBody c body receipt).Safe Db.part held := by
  refine Tx.Safe.bind (safe_insertUnique hheld fun r db hr => ?_) fun _ => safe_refuseIf _ _
  exact Db.part_insertContext (newRow c body receipt) hr

include hheld in
theorem safe_indexAttestation (body : Body) : (st.indexAttestation c body).Safe Db.part held := by
  refine (safe_checked _).bind fun row => ?_
  cases row with
  | none => exact Tx.safe_pure _
  | some row =>
    exact (safe_refuseIf _ _).bind fun _ =>
      (safe_insertUnique hheld fun _ _ hr => Db.part_insertAttestation hr).bind fun _ =>
        safe_refuseIf _ _

theorem safe_insertLeaf (ctxId : String) (leaf : String × String)
    (hlog : ∃ e ∈ held, e.2.Guards .log) : (insertLeaf ctxId leaf).Safe Db.part held := by
  unfold insertLeaf
  refine Tx.safe_stmt fun seen r db => ?_
  by_cases hr : r = .log
  · subst hr; exact Or.inr (Or.inr hlog)
  · refine Or.inl ?_
    split
    · exact Db.part_insertLeaf hr
    · rfl

include hheld in
theorem safe_appendLeaf (body : Body) (receipt : Option Json) :
    (st.appendLeaf body receipt).Safe Db.part held := by
  unfold appendLeaf
  split
  · exact (Tx.safe_require _ _).bind fun _ => (safe_checked _).bind fun _ =>
      safe_advisoryLock_bind hheld fun _ _ hlog => (safe_insertLeaf _ _ hlog).bind fun _ =>
        safe_refuseIf _ _
  · exact Tx.safe_pure _

include hheld in
theorem safe_markSuperseded : (st.markSuperseded c).Safe Db.part held := by
  unfold markSuperseded
  split
  · exact Tx.safe_pure _
  · next prev _ =>
    exact safe_stmt_rowLock (.context prev) hheld (fun _ => Or.inr fun _ h => h)
      fun _ r db hr => Db.part_updateContext (fun _ => rfl) hr

include hheld in
theorem safe_claimKey (response : PublishResponse) :
    (st.claimKey c draw response).Safe Db.part held := by
  unfold claimKey
  split
  · exact Tx.safe_pure _
  · next i _ =>
    refine Tx.Safe.bind (safe_insertUnique hheld fun r db hr => ?_) fun _ => Tx.safe_refuse _ _
    exact Db.part_insertKey hr

include hheld in
theorem safe_appendPublish (body : Body) (receipt : Option Json) :
    (st.appendPublish c draw body receipt).Safe Db.part held := by
  unfold appendPublish feedPredecessor
  split
  · exact Tx.safe_pure _
  · refine Tx.Safe.bind ?_ fun _ => (safe_checked _).bind fun _ => safe_insertAll hheld _
    split
    · exact Tx.safe_pure _
    · exact (safe_select _).bind fun _ => (Tx.safe_require _ _).bind fun _ => Tx.safe_pure _

include hheld in
theorem safe_writeRows (firstV1 : Option String) : (st.writeRows c draw firstV1).Safe Db.part held :=
  (safe_checked _).bind fun _ => (safe_windowGate c _).bind fun _ => (safe_checked _).bind fun _ =>
    (safe_insertBody c hheld _ _).bind fun _ => (safe_indexAttestation c hheld _).bind fun _ =>
    (safe_appendLeaf hheld _ _).bind fun _ => (safe_markSuperseded c hheld).bind fun _ =>
    Tx.safe_pure _

theorem safe_publishTx : (st.publishTx c draw).Safe Db.part [] := by
  refine Tx.safe_query_bind fun _ k => ?_
  have hheld : st.dialect.begun k ⊆ [] ++ st.dialect.beginLocks.map fun l => (k, l) :=
    fun _ h => h
  exact (safe_idempotencyLookup c draw hheld).bind fun _ => (safe_supersession c draw).bind fun _ =>
    (safe_writeRows c draw hheld _).bind fun _ => (safe_claimKey c draw hheld _).bind fun _ =>
    (safe_appendPublish c draw hheld _ _).bind fun _ => Tx.safe_pure _

end Publish

/-! ## The other transactions -/

section Lifecycle

variable (event : LifecycleEvent) (draw : LifecycleDraw)

theorem safe_stmt_context {write : Db → Db → Db} {result : Db → α}
    (hctx : ∃ e ∈ held, e.2.Guards (.context ctxId))
    (hframe : ∀ seen r db, r ≠ .context ctxId → Db.part r (write seen db) = Db.part r db) :
    (Tx.stmt (fun _ => []) write result : Tx Db Part ρ α).Safe Db.part held := by
  refine Tx.safe_stmt fun seen r db => ?_
  by_cases hr : r = .context ctxId
  · subst hr; exact Or.inr (Or.inr hctx)
  · exact Or.inl (hframe seen r db hr)

theorem safe_fillReceipts (hctx : ∃ e ∈ held, e.2.Guards (.context event.ctxId))
    (slots : List EventSlot) :
    ∀ fills, (st.fillReceipts event slots fills).Safe Db.part held
  | [] => Tx.safe_pure _
  | f :: fills => by
    refine Tx.Safe.bind ?_ fun _ => safe_fillReceipts hctx slots fills
    refine Tx.Safe.bind (Tx.safe_lift _) fun _ => Tx.Safe.bind ?_ fun _ => Tx.safe_refuse _ _
    exact safe_stmt_context hctx fun _ _ _ hr => Db.part_fillReceipt hr

theorem safe_checkEventId (ctx : FullContext) (slots : List EventSlot) :
    (st.checkEventId event draw ctx slots).Safe Db.part held := by
  unfold checkEventId
  split
  · exact Tx.safe_pure _
  · simp only
    split <;> exact Tx.safe_exit _

theorem safe_checkTransition (b : Bool) : (checkTransition event b).Safe Db.part held := by
  unfold checkTransition
  split
  · exact Tx.safe_refuse _ _
  · exact Tx.safe_refuse _ _
  · exact Tx.safe_exit _

theorem safe_lifecycleTx : (st.lifecycleTx event draw).Safe Db.part [] := by
  refine Tx.safe_query_bind fun _ k => Tx.safe_query_bind fun seen j =>
    Tx.safe_require_bind fun row hrow => ?_
  set held := [] ++ st.dialect.beginLocks.map (fun l => (k, l)) ++
    (if (seen.context? event.ctxId).isSome then st.dialect.rowLock (.context event.ctxId)
      else []).map fun l => (j, l) with hheldEq
  have hheld : st.dialect.begun k ⊆ held := List.subset_append_left _ _
  -- the row was found, so it is locked
  have hctx : ∃ e ∈ held, e.2.Guards (.context event.ctxId) := by
    rcases st.dialect.guarded k (.context event.ctxId) with ⟨l, hl, hg⟩ | ⟨e, he, hg⟩
    · exact ⟨(j, l), List.mem_append_right _ (by simp [hrow, hl]), hg⟩
    · exact ⟨e, hheld he, hg⟩
  refine (safe_select _).bind fun _ => (safe_checkEventId event draw _ _).bind fun _ =>
    (safe_checkTransition event _).bind fun _ => (Tx.safe_lift _).bind fun _ =>
    (safe_fillReceipts event hctx _ _).bind fun _ => (Tx.safe_lift _).bind fun _ =>
    Tx.Safe.bind ?_ fun _ => Tx.Safe.bind ?_ fun _ => Tx.Safe.bind ?_ fun _ => Tx.safe_pure _
  · exact safe_stmt_context hctx fun _ _ _ hr => Db.part_insertEvent hr
  · exact safe_stmt_rowLock _ hheld (fun _ => Or.inr fun _ h => h)
      fun _ _ _ hr => Db.part_updateContext (fun _ => rfl) hr
  · exact (Tx.safe_lift _).bind fun _ => safe_insertAll hheld _

end Lifecycle

theorem safe_evictIdempotencyTx (now : ℤ) : (st.evictIdempotencyTx now).Safe Db.part [] := by
  refine Tx.safe_query_bind fun _ k => Tx.safe_stmt fun seen r db => ?_
  cases r with
  | idempotency agentId key =>
    by_cases hexp : seen.idempotency.any (Db.expiredAt agentId key (st.dialect.stamp now))
    · -- the record of this key is deleted, so it is locked
      obtain ⟨rec, hrec, hx⟩ := List.any_eq_true.1 hexp
      have hkey : rec.agentId = agentId ∧ rec.key = key := by
        simp only [Db.expiredAt, Bool.and_eq_true, decide_eq_true_eq] at hx; exact hx.1
      obtain ⟨rfl, rfl⟩ := hkey
      refine Or.inr ?_
      rcases st.dialect.guarded k (.idempotency rec.agentId rec.key) with ⟨l, hl, hg⟩ | h
      · exact Or.inl ⟨l, List.mem_flatMap.2 ⟨rec, List.mem_filter.2 ⟨hrec, hexp⟩, hl⟩, hg⟩
      · exact Or.inr h
    · refine Or.inl ?_
      simp only [Db.part, List.filter_filter]
      refine List.filter_congr fun rec _ => ?_
      by_cases hk : rec.agentId = agentId ∧ rec.key = key
      · obtain ⟨rfl, rfl⟩ := hk
        simp [hexp]
      · simp [hk]
  | _ => exact Or.inl rfl

end SqlStore

/-- **Every call writes only under locks.** -/
theorem call_safe (call : Call) : call.tx.Safe Db.part [] := by
  cases call with
  | publish st c draw => exact (SqlStore.safe_publishTx c draw).mapEnd
  | lifecycle st event draw => exact (SqlStore.safe_lifecycleTx event draw).mapEnd
  | evictIdempotency st now => exact (SqlStore.safe_evictIdempotencyTx now).mapEnd

end AcdpRegistry
