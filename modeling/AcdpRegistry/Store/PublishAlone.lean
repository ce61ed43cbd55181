/-
  A SQL publish that runs alone is refused in the documented order.

  Each step of `publishTx` is compared with the step of `documented` that it makes
  (`Decides`).  Before the body is inserted the transaction sees the tables as they
  were (`Untouched`); after that, each stage keeps what the later steps still read.
-/
import AcdpRegistry.Lib.Alone
import AcdpRegistry.Store.PublishOrder

namespace AcdpRegistry

open Lib

/-! ## Steps that run alone -/

section Alone

variable {α β : Type} {db : Db} {P : Db → Prop} {Q : α → Db → Prop} {R : β → Db → Prop}

/-- Run alone on `db` from a state with `P`, the step decides `x`, and goes on from a state with `Q`. -/
def Decides (db : Db) (P : Db → Prop) (p : PublishTx α) (x : Decision α) (Q : α → Db → Prop) : Prop :=
  Tx.Alone db P p (x.mapError .answered) Q

theorem Decides.bind {p : PublishTx α} {f : α → PublishTx β} {x : Decision α} {y : α → Decision β}
    (hp : Decides db P p x Q) (hf : ∀ a, x = .ok a → Decides db (Q a) (f a) (y a) R) :
    Decides db P (p >>= f) (x >>= y) R := by
  have h := Tx.Alone.bind hp fun a ha => hf a (except_mapError_ok.1 ha)
  cases x with
  | ok a => exact h
  | error e => exact h

theorem Decides.step {p : PublishTx α} {f : α → PublishTx β} {a : α} {y : Decision β}
    (hp : Tx.Alone db P p (.ok a) Q) (hf : Decides db (Q a) (f a) y R) :
    Decides db P (p >>= f) y R := Tx.Alone.step hp hf

theorem Decides.pure (a : α) : Decides db P (Pure.pure a) (.ok a) fun _ => P := Tx.Alone.pure a

theorem Decides.exit (a : Except AcdpError PublishResponse) :
    Decides db P (Tx.exit (.answered a) : PublishTx α) (.error a) Q :=
  fun _ _ => ⟨rfl, fun _ h => by cases h⟩

theorem decides_checked (x : Except AcdpError α) :
    Decides db P (PublishTx.checked x) (Decision.check x) fun _ => P := by
  cases x with
  | ok a => exact Tx.Alone.lift _
  | error e => exact Tx.Alone.lift _

theorem decides_refuseIf (p : Prop) [Decidable p] (e : AcdpError) :
    Decides db P (PublishTx.refuseIf p e) (Decision.refuseIf p e) fun _ => P := by
  unfold PublishTx.refuseIf Decision.refuseIf Tx.refuse Decides
  split
  · exact Tx.Alone.lift _
  · exact Tx.Alone.lift _

theorem alone_refuseIf {p : Prop} [Decidable p] {e : AcdpError} (h : ¬p) :
    Tx.Alone db P (PublishTx.refuseIf p e) (.ok ()) fun _ => P := by
  unfold PublishTx.refuseIf Tx.refuse
  rw [if_neg h]
  exact Tx.Alone.lift _

end Alone

/-! ## The steps of a publish, alone -/

/-- The transaction has written no row yet, and the request's key is free. -/
structure Untouched (c : PublishCommit) (db cur : Db) : Prop where
  contexts : cur.contexts = db.contexts
  keyAttestations : cur.keyAttestations = db.keyAttestations
  logLeaves : cur.logLeaves = db.logLeaves
  keyFree : ∀ i ∈ c.idempotency, cur.idempotency? c.req.agentId i.key = none

/-- The transaction has inserted the body, and has its feed rows to append. -/
structure Appending (body : Body) (db cur : Db) : Prop where
  bodies : cur.contexts.map (·.body) = db.contexts.map (·.body) ++ [body]

/-- It has its key to claim. -/
structure Claiming (c : PublishCommit) (body : Body) (db cur : Db) : Prop
    extends Appending body db cur where
  keyFree : ∀ i ∈ c.idempotency, cur.idempotency? c.req.agentId i.key = none

/-- It has its leaf to append. -/
structure Logging (c : PublishCommit) (body : Body) (db cur : Db) : Prop
    extends Claiming c body db cur where
  logLeaves : cur.logLeaves = db.logLeaves

/-- It has its index row to insert. -/
structure Indexing (c : PublishCommit) (body : Body) (db cur : Db) : Prop
    extends Logging c body db cur where
  keyAttestations : cur.keyAttestations = db.keyAttestations

variable {c : PublishCommit}

theorem Untouched.context? {db cur : Db} (h : Untouched c db cur) (ctxId : String) :
    cur.context? ctxId = db.context? ctxId := by
  rw [Db.context?, h.contexts]
  rfl

theorem Untouched.attestation? {db cur : Db} (h : Untouched c db cur)
    (ctxId : String) : cur.attestation? ctxId = db.attestation? ctxId := by
  rw [Db.attestation?, h.keyAttestations, h.context?]
  rfl

theorem Untouched.firstOfLineage {db cur : Db} (h : Untouched c db cur)
    (lineageId : String) : cur.firstOfLineage lineageId = db.firstOfLineage lineageId := by
  rw [Db.firstOfLineage, Db.lineageRows, h.contexts]
  rfl

theorem Db.body_context? (db : Db) (ctxId : String) :
    (db.context? ctxId).map (·.body) = (db.contexts.map (·.body)).find? (·.ctxId = ctxId) := by
  rw [Db.context?, List.find?_map]
  rfl

section Steps

variable {st : SqlStore} {draw : PublishDraw} {db : Db} {P : Db → Prop}

theorem idempotency?_evicted {d : Dialect} (hdb : db.Sound d) (now : ℤ) (agentId key : String) :
    (db.idempotency.filter fun r => !Db.expiredAt agentId key (d.stamp now) r).find?
      (fun r => r.agentId = agentId ∧ r.key = key) = db.live? now agentId key := by
  rw [List.find?_filter, Db.live?]
  refine List.find?_congr fun r hr => ?_
  have hlive : r.expiresAt ≤ d.stamp now ↔ r.expiresAt ≤ now := by
    constructor
    · exact fun h => h.trans (d.stamp_le now)
    · intro h
      have hmono := d.stamp_mono h
      rwa [hdb.expiry r hr] at hmono
  by_cases hkey : r.agentId = agentId ∧ r.key = key
  · simp [Db.expiredAt, hkey.1, hkey.2, hlive]
  · simp [hkey]

theorem alone_evictKey (hdb : db.Sound st.dialect) (agentId key : String) (now : ℤ) :
    Tx.Alone db (· = db) (st.evictKey agentId key now : PublishTx Unit) (.ok ()) fun _ cur =>
      cur.contexts = db.contexts ∧ cur.keyAttestations = db.keyAttestations ∧
        cur.logLeaves = db.logLeaves ∧ cur.idempotency? agentId key = db.live? now agentId key := by
  refine Tx.Alone.stmt (fun _ _ => rfl) fun cur hcur => ?_
  subst hcur
  split
  · exact ⟨rfl, rfl, rfl, idempotency?_evicted hdb now agentId key⟩
  · next hnone =>
    refine ⟨rfl, rfl, rfl, ?_⟩
    rw [← idempotency?_evicted hdb, List.filter_eq_self.2 fun r hr => ?_]
    · rfl
    · have hold : ¬Db.expiredAt agentId key (st.dialect.stamp now) r = true :=
        fun h => hnone (List.any_eq_true.2 ⟨r, hr, h⟩)
      simpa using hold

theorem decides_idempotencyLookup (hdb : db.Sound st.dialect) :
    Decides db (· = db) (st.idempotencyLookup c draw) ((db.storeView draw.now).replay c)
      fun _ => Untouched c db := by
  unfold SqlStore.idempotencyLookup StoreView.replay
  cases hc : c.idempotency with
  | none =>
    refine Tx.Alone.weaken (Decides.pure ()) (fun _ h => h) fun _ cur hcur => ?_
    subst hcur
    exact ⟨rfl, rfl, rfl, fun i hi => by simp [hc] at hi⟩
  | some i =>
    refine Decides.step (alone_evictKey hdb c.req.agentId i.key draw.now) ?_
    refine Decides.step (Tx.Alone.query fun cur hcur => hcur.2.2.2) ?_
    cases hlive : db.live? draw.now c.req.agentId i.key with
    | none =>
      simp only [Db.storeView, hlive, Option.map_none]
      refine Tx.Alone.weaken (Decides.pure ()) (fun _ h => h) fun _ cur hcur => ?_
      obtain ⟨hcontexts, hattestations, hleaves, hkey⟩ := hcur
      refine ⟨hcontexts, hattestations, hleaves, fun i' hi' => ?_⟩
      obtain rfl : i = i' := by simpa [hc] using hi'
      exact hkey
    | some r =>
      have hr := List.find?_some hlive
      simp only [decide_eq_true_eq] at hr
      have hrefuse : (Tx.refuse (draw.now < r.expiresAt) (.answered (r.answer c.req)) : PublishTx Unit) =
          Tx.exit (.answered (r.answer c.req)) := by
        rw [Tx.refuse, if_pos hr.2]
        rfl
      simp only [Db.storeView, hlive, Option.map_some, hrefuse]
      have hanswer : r.answer c.req =
          IdempotencyRecord.answer ⟨c.req.agentId, i.key, r.contentHash, r.response, 0⟩ c.req := by
        simp only [IdempotencyRecord.answer, hr.1.2]
      rw [hanswer]
      exact Decides.exit _

theorem decides_checkTarget (prev : String) (row : ContextRow) :
    Decides db P (SqlStore.checkTarget c prev row) (row.target.fits c prev) fun _ => P :=
  Decides.bind (decides_refuseIf _ _) fun _ _ =>
    Decides.bind (decides_refuseIf _ _) fun _ _ =>
      Decides.bind (decides_refuseIf _ _) fun _ _ => decides_refuseIf _ _

theorem decides_refuseSuperseded (prev : String) :
    Decides db (Untouched c db) (st.refuseSuperseded c draw prev)
      (.error (.error (.supersededTarget .alreadySuperseded
        s!"supersedes target '{prev}' has already been superseded"))) fun _ => Untouched c db := by
  unfold SqlStore.refuseSuperseded
  split
  · next i _ hi =>
    have hnone : Tx.Alone db (Untouched c db) (SqlStore.committedIdempotentResponse c draw i.key)
        (.ok none) fun _ => Untouched c db := by
      unfold SqlStore.committedIdempotentResponse
      refine Tx.Alone.query fun cur hcur => ?_
      rw [hcur.keyFree i hi]
      rfl
    exact Decides.step hnone (Decides.exit _)
  · exact Decides.exit _

theorem alone_attestation? (ctxId : String) :
    Tx.Alone db (Untouched c db) (select (·.attestation? ctxId) : PublishTx _)
      (.ok (db.keylessView.attestation ctxId)) fun _ => Untouched c db :=
  Tx.Alone.query fun _ hcur => hcur.attestation? ctxId

theorem alone_predecessorRow (att : Option String) :
    Tx.Alone db (Untouched c db) (SqlStore.predecessorRow att)
      (.ok ((att.bind db.keylessView.attestation).map (·.row))) fun _ => Untouched c db := by
  cases att with
  | none => exact Tx.Alone.pure _
  | some id =>
    have hrow : Tx.Alone db (Untouched c db) (select (·.attestation? id) : PublishTx _)
        (.ok (db.keylessView.attestation id)) fun _ => Untouched c db := alone_attestation? id
    exact Tx.Alone.step hrow (Tx.Alone.pure _)

theorem decides_supersessionGate (row : ContextRow) :
    Decides db (Untouched c db) (st.supersessionGate c row)
      (Decision.check (db.keylessView.succession st.api c.req row.body)) fun _ => Untouched c db := by
  unfold SqlStore.supersessionGate KeylessView.succession
  cases keylessSuccessor st.api c.req with
  | none => exact Decides.pure ()
  | some r =>
    simp only [Decision.check_bind]
    refine Decides.step (alone_attestation? r.ctxId) ?_
    refine Decides.bind (decides_checked _) fun succ _ => ?_
    refine Decides.bind (decides_checked _) fun att _ => ?_
    refine Decides.step (alone_predecessorRow att) ?_
    exact Decides.bind (decides_checked _) fun signer _ => decides_checked _

theorem decides_windowGate (createdAt : ℤ) :
    Decides db (Untouched c db) (st.windowGate c createdAt)
      (Decision.check (db.keylessView.window st.api c.req createdAt)) fun _ => Untouched c db := by
  unfold SqlStore.windowGate KeylessView.window
  cases keylessSuccessor st.api c.req with
  | none => exact Decides.pure ()
  | some r =>
    simp only [Decision.check_bind]
    refine Decides.step (alone_attestation? r.ctxId) ?_
    exact Decides.bind (decides_checked _) fun succ _ => decides_checked _

theorem decides_supersession :
    Decides db (Untouched c db) (st.supersession c draw)
      (do
        let target ← (db.storeView draw.now).supersedes c
        Decision.check (db.keylessView.admission st.api c target)
        return target.bind fun row => (db.storeView draw.now).first row.body.lineageId)
      fun _ => Untouched c db := by
  unfold SqlStore.supersession StoreView.supersedes
  cases hprev : c.req.supersedes with
  | none => exact Decides.pure none
  | some prev =>
    have hlock : Tx.Alone db (Untouched c db) (st.lockContext prev : PublishTx _)
        (.ok (db.context? prev)) fun _ => Untouched c db := Tx.Alone.query fun _ hcur => hcur.context? prev
    refine Decides.step hlock ?_
    cases hrow : db.context? prev with
    | none =>
      simp only [Db.storeView, hrow, Option.map_none]
      exact Decides.exit _
    | some row =>
      simp only [Db.storeView, hrow, Option.map_some, bind_assoc, pure_bind]
      refine Decides.step (Tx.Alone.lift (.ok row)) ?_
      refine Decides.bind (decides_checkTarget prev row) fun _ _ => ?_
      by_cases hstatus : row.status = .superseded
      · rw [if_pos hstatus]
        simp only [Decision.refuseIf, ContextRow.target, hstatus, decide_true, if_true]
        exact Decides.bind (decides_refuseSuperseded prev) fun _ h => by cases h
      · rw [if_neg hstatus]
        simp only [Decision.refuseIf, ContextRow.target, hstatus, decide_false, Bool.false_eq_true,
          if_false, Decision.check_ok, pure_bind]
        have hfirst : Tx.Alone db (Untouched c db)
            (select (·.firstOfLineage row.body.lineageId) : PublishTx _)
            (.ok (db.firstOfLineage row.body.lineageId)) fun _ => Untouched c db :=
          Tx.Alone.query fun _ hcur => hcur.firstOfLineage _
        simp only [KeylessView.admission, Decision.check_bind, bind_assoc]
        refine Decides.bind (decides_supersessionGate row) fun _ _ => ?_
        refine Decides.bind (decides_checked _) fun _ _ => ?_
        exact Decides.step hfirst (Decides.pure _)

/-! ### The rows -/

variable {body : Body}

theorem alone_insertUnique {ρ : Type} {r : Part} {free : Db → Bool} {insert : Db → Db}
    (Q : Db → Prop) (b : Bool) (hfree : ∀ cur, P cur → free cur = b)
    (hinsert : ∀ cur, P cur → Q (if b then insert cur else cur)) :
    Tx.Alone db P (st.insertUnique r free insert : Tx Db Part ρ Bool) (.ok b) fun _ => Q := by
  refine Tx.Alone.stmt hfree fun cur hcur => ?_
  simp only [hfree cur hcur]
  exact hinsert cur hcur

theorem alone_insertBody (hfresh : db.context? body.ctxId = none) (receipt : Option Json) :
    Tx.Alone db (Untouched c db) (st.insertBody c body receipt) (.ok ()) fun _ =>
      Indexing c body db := by
  refine Tx.Alone.step (alone_insertUnique (Indexing c body db) true (fun cur hcur => ?_)
    fun cur hcur => ?_) (alone_refuseIf (by simp))
  · rw [hcur.context?, hfresh]
    rfl
  · refine ⟨⟨⟨⟨?_⟩, hcur.keyFree⟩, hcur.logLeaves⟩, hcur.keyAttestations⟩
    simp [hcur.contexts, SqlStore.newRow]

theorem decides_indexAttestation
    (hopen : ∀ row, indexRowFor st.api body c.authority = .ok (some row) →
      row.notBeforeMs < row.notAfterMs) :
    Decides db (Indexing c body db) (st.indexAttestation c body)
      (Decision.check (db.keylessView.token st.api body c.authority)) fun _ => Logging c body db := by
  unfold SqlStore.indexAttestation KeylessView.token
  rw [Decision.check_bind]
  refine Decides.bind (decides_checked _) fun row hrow => ?_
  cases row with
  | none => exact Tx.Alone.weaken (Decides.pure ()) (fun _ h => h) fun _ _ hcur => hcur.toLogging
  | some row =>
    have hrow : indexRowFor st.api body c.authority = .ok (some row) := except_mapError_ok.1 hrow
    refine Decides.step (alone_refuseIf (not_le.2 (hopen row hrow))) ?_
    refine Decides.step (alone_insertUnique (Logging c body db)
      (!db.keylessView.used row.tokenHash) (fun cur hcur => ?_) fun cur hcur => ?_) ?_
    · rw [hcur.keyAttestations]
      rfl
    · split
      · exact ⟨⟨⟨hcur.bodies⟩, hcur.keyFree⟩, hcur.logLeaves⟩
      · exact hcur.toLogging
    · have hrefuse : Decision.check (db.keylessView.refuseToken (some row)) =
          Decision.refuseIf ((!db.keylessView.used row.tokenHash) = false)
            (tokenReplayed row.tokenHash) := by
        simp [Decision.refuseIf, KeylessView.refuseToken]
      rw [hrefuse]
      exact decides_refuseIf _ _

theorem alone_advisoryLock (r : Part) :
    Tx.Alone db P (st.advisoryLock r : PublishTx Unit) (.ok ()) fun _ => P := by
  unfold SqlStore.advisoryLock
  cases st.dialect with
  | sqlite => exact Tx.Alone.pure ()
  | postgres => exact Tx.Alone.query fun _ _ => rfl

theorem leafFree_fresh (hdb : db.Sound st.dialect) {ctxId : String}
    (hfresh : db.context? ctxId = none) : SqlStore.leafFree ctxId db = true := by
  simp only [SqlStore.leafFree, Bool.not_eq_true', List.any_eq_false, Bool.or_eq_true,
    decide_eq_true_eq, not_or]
  intro l hl
  refine ⟨(hdb.numbered l hl).ne, ?_⟩
  rintro rfl
  exact Db.context?_eq_none.1 hfresh (hdb.leaves l hl)

theorem alone_insertLeaf (hdb : db.Sound st.dialect) (hfresh : db.context? body.ctxId = none)
    (leaf : String × String) :
    Tx.Alone db (Logging c body db) (SqlStore.insertLeaf body.ctxId leaf) (.ok true) fun _ =>
      Claiming c body db := by
  have hfree : ∀ cur : Db, cur.logLeaves = db.logLeaves → SqlStore.leafFree body.ctxId cur = true := by
    intro cur hcur
    rw [SqlStore.leafFree, hcur]
    exact leafFree_fresh hdb hfresh
  refine Tx.Alone.stmt (fun cur hcur => hfree cur hcur.logLeaves) fun cur hcur => ?_
  rw [if_pos (hfree cur hcur.logLeaves)]
  exact ⟨⟨hcur.bodies⟩, hcur.keyFree⟩

theorem alone_appendLeaf (hdb : db.Sound st.dialect) {receipt : Json}
    (hfresh : db.context? body.ctxId = none)
    (hleaf : st.logEnabled = true → ∃ leaf, st.buildLeafRecord body receipt = .ok leaf) :
    Tx.Alone db (Logging c body db) (st.appendLeaf body (some receipt)) (.ok ()) fun _ =>
      Claiming c body db := by
  unfold SqlStore.appendLeaf
  split
  · next hlog =>
    obtain ⟨leaf, hleaf⟩ := hleaf hlog
    refine Tx.Alone.step (Tx.Alone.lift (.ok receipt)) ?_
    rw [hleaf]
    refine Tx.Alone.step (Tx.Alone.lift (.ok leaf)) ?_
    refine Tx.Alone.step (alone_advisoryLock .log) ?_
    exact Tx.Alone.step (alone_insertLeaf hdb hfresh leaf) (alone_refuseIf (by simp))
  · exact Tx.Alone.weaken (Tx.Alone.pure ()) (fun _ h => h) fun _ _ hcur => hcur.toClaiming

theorem alone_markSuperseded :
    Tx.Alone db (Claiming c body db) (st.markSuperseded c) (.ok ()) fun _ => Claiming c body db := by
  unfold SqlStore.markSuperseded
  cases c.req.supersedes with
  | none => exact Tx.Alone.pure ()
  | some prev =>
    refine Tx.Alone.stmt (fun _ _ => rfl) fun cur hcur => ⟨⟨?_⟩, hcur.keyFree⟩
    rw [Db.map_body_supersede]
    exact hcur.bodies

theorem alone_claimKey (response : PublishResponse) :
    Tx.Alone db (Claiming c body db) (st.claimKey c draw response) (.ok ()) fun _ =>
      Appending body db := by
  unfold SqlStore.claimKey
  cases hi : c.idempotency with
  | none => exact Tx.Alone.weaken (Tx.Alone.pure ()) (fun _ h => h) fun _ _ hcur => hcur.toAppending
  | some i =>
    refine Tx.Alone.step (alone_insertUnique (Appending body db) true (fun cur hcur => ?_)
      fun cur hcur => ⟨hcur.bodies⟩) (Tx.Alone.lift (.ok ()))
    rw [hcur.keyFree i hi]
    rfl

theorem alone_insertAll (rows : List (FeedAppend × ℕ × ℤ)) :
    Tx.Alone db (Appending body db) (st.insertAll rows : PublishTx Unit) (.ok ()) fun _ =>
      Appending body db := by
  have hrows : Tx.Alone db (Appending body db) (SqlStore.insertFeedRows rows : PublishTx Unit) (.ok ())
      fun _ => Appending body db := by
    induction rows with
    | nil => exact Tx.Alone.pure ()
    | cons r rows ih =>
      exact Tx.Alone.step (Tx.Alone.stmt (fun _ _ => rfl) fun _ hcur => ⟨hcur.bodies⟩) ih
  unfold SqlStore.insertAll
  split
  · exact Tx.Alone.pure ()
  · exact Tx.Alone.step (alone_advisoryLock .feed) hrows

/-! ### The publish -/

variable {target : Option TargetRow}

theorem StoreView.supersedes_ok {v : StoreView} (h : v.supersedes c = .ok target) :
    (c.req.supersedes = none ∧ target = none) ∨
      ∃ prev row, c.req.supersedes = some prev ∧ v.target prev = some row ∧ target = some row := by
  unfold StoreView.supersedes at h
  cases hprev : c.req.supersedes with
  | none =>
    rw [hprev] at h
    cases h
    exact .inl ⟨rfl, rfl⟩
  | some prev =>
    rw [hprev] at h
    right
    cases hrow : v.target prev with
    | none =>
      simp only [hrow] at h
      cases h
    | some row =>
      simp only [hrow] at h
      obtain ⟨_, -, h⟩ := except_bind_ok.1 h
      obtain ⟨_, -, h⟩ := except_bind_ok.1 h
      cases h
      exact ⟨prev, row, rfl, hrow, rfl⟩

theorem alone_feedPredecessor (htarget : (db.storeView draw.now).supersedes c = .ok target) :
    Tx.Alone db (Appending body db) (st.feedPredecessor c) (.ok (c.predecessor target)) fun _ =>
      Appending body db := by
  unfold SqlStore.feedPredecessor PublishCommit.predecessor
  rcases StoreView.supersedes_ok htarget with ⟨hprev, rfl⟩ | ⟨prev, row, hprev, hrow, rfl⟩
  · rw [hprev]
    exact Tx.Alone.pure none
  · rw [hprev]
    obtain ⟨old, hold, rfl⟩ := Option.map_eq_some_iff.1 hrow
    refine Tx.Alone.read fun cur hcur => ?_
    obtain ⟨new, hnew, hbody⟩ : ∃ new, cur.context? prev = some new ∧ new.body = old.body := by
      have hfind := cur.body_context? prev
      rw [hcur.bodies, List.find?_append, ← db.body_context?, hold] at hfind
      exact Option.map_eq_some_iff.1 hfind
    rw [hnew]
    refine Tx.Alone.step (Tx.Alone.lift (.ok new)) ?_
    rw [hbody]
    exact Tx.Alone.pure _

theorem decides_appendPublish {receipt : Json}
    (htarget : (db.storeView draw.now).supersedes c = .ok target) :
    Decides db (Appending body db) (st.appendPublish c draw body (some receipt))
      (Decision.check (c.feedRows st.api target body (some receipt))) fun _ => Appending body db := by
  unfold SqlStore.appendPublish PublishCommit.feedRows
  rw [if_neg (by simp), Decision.check_bind]
  refine Decides.step (alone_feedPredecessor htarget) ?_
  exact Decides.bind (decides_checked _) fun appends _ => alone_insertAll _

/-- Minting succeeds, and if the backend keeps a log the receipt gives a leaf. -/
structure SqlStore.Mints (st : SqlStore) (c : PublishCommit) : Prop where
  receipt : ∀ body, ∃ receipt, SqlStore.mintReceipt c body = .ok (some receipt) ∧
    (st.logEnabled = true → ∃ leaf, st.buildLeafRecord body receipt = .ok leaf)

/-- The bodies the publish can store are new, and the windows of their attestations are open. -/
structure Storable (api : AcdpApi) (c : PublishCommit) (draw : PublishDraw) (db : Db) : Prop where
  fresh : ∀ v target body, StoreView.assign v api c draw target = .ok body →
    db.context? body.ctxId = none
  opens : ∀ v target body row, StoreView.assign v api c draw target = .ok body →
    indexRowFor api body c.authority = .ok (some row) → row.notBeforeMs < row.notAfterMs

variable (hdb : db.Sound st.dialect) (hmints : st.Mints c)
  (hstorable : Storable st.api c draw db)

include hdb hmints hstorable

theorem decides_writeRows {v : StoreView} :
    Decides db (Untouched c db)
      (st.writeRows c draw (target.bind fun row => v.first row.body.lineageId))
      (do
        let body ← Decision.check (v.assign st.api c draw target)
        Decision.check (db.keylessView.window st.api c.req body.createdAt)
        Decision.check (db.keylessView.token st.api body c.authority)
        let receipt ← Decision.check (SqlStore.mintReceipt c body)
        return (body, receipt))
      fun written => Claiming c written.1 db := by
  unfold SqlStore.writeRows
  simp only [StoreView.assign, Decision.check_bind, Decision.check_pure, bind_assoc, pure_bind]
  refine Decides.bind (decides_checked _) fun ids hids => ?_
  have hassign : v.assign st.api c draw target =
      .ok (Body.fromPublishRequest c.req ids.1 ids.2 c.authority (st.api.truncMs draw.now)) := by
    rw [StoreView.assign, except_mapError_ok.1 hids]
    rfl
  have hfresh := hstorable.fresh v target _ hassign
  have hopens := fun row => hstorable.opens v target _ row hassign
  have hcreated := StoreView.assign_createdAt hassign
  generalize Body.fromPublishRequest c.req ids.1 ids.2 c.authority (st.api.truncMs draw.now) = body at *
  obtain ⟨receipt, hreceipt, hleaf⟩ := hmints.receipt body
  simp only [hreceipt, Decision.check_ok, pure_bind]
  rw [← hcreated]
  refine Decides.bind (decides_windowGate body.createdAt) fun _ _ => ?_
  refine Decides.step (Tx.Alone.lift (.ok (some receipt))) ?_
  refine Decides.step (alone_insertBody hfresh (some receipt)) ?_
  refine Decides.bind (decides_indexAttestation hopens) fun _ _ => ?_
  refine Decides.step (alone_appendLeaf hdb hfresh hleaf) ?_
  refine Decides.step alone_markSuperseded ?_
  exact Tx.Alone.value (Q := fun written => Claiming c written.1 db) (body, some receipt)

theorem decides_commit (htarget : (db.storeView draw.now).supersedes c = .ok target) :
    Decides db (Untouched c db)
      (do
        let written ← st.writeRows c draw
          (target.bind fun row => (db.storeView draw.now).first row.body.lineageId)
        let response : PublishResponse :=
          ⟨written.1.ctxId, written.1.lineageId, c.req.version, st.api.truncMs draw.now, .active, written.2⟩
        st.claimKey c draw response
        st.appendPublish c draw written.1 written.2
        return response)
      (do
        let body ← Decision.check ((db.storeView draw.now).assign st.api c draw target)
        Decision.check (db.keylessView.window st.api c.req body.createdAt)
        Decision.check (db.keylessView.token st.api body c.authority)
        let receipt ← Decision.check (SqlStore.mintReceipt c body)
        Decision.check (c.feedRows st.api target body receipt)
        return c.response body receipt)
      fun _ _ => True := by
  have hspec : ∀ (x : Decision Body) (y z : Body → Decision Unit) (r : Body → Decision (Option Json))
      (g : Body → Option Json → Decision PublishResponse),
      (do
        let body ← x
        y body
        z body
        g body (← r body)) =
      (do
        let written ← (do
          let body ← x
          y body
          z body
          return (body, ← r body))
        g written.1 written.2) := fun x y z r g => by simp only [bind_assoc, pure_bind]
  rw [hspec]
  refine Decides.bind (decides_writeRows hdb hmints hstorable) fun written hwritten => ?_
  obtain ⟨body, hbody, hwritten⟩ := except_bind_ok.1 hwritten
  obtain ⟨_, -, hwritten⟩ := except_bind_ok.1 hwritten
  obtain ⟨_, -, hwritten⟩ := except_bind_ok.1 hwritten
  obtain ⟨_, hminted, hwritten⟩ := except_bind_ok.1 hwritten
  cases hwritten
  obtain ⟨receipt, hreceipt, -⟩ := hmints.receipt body
  rw [hreceipt] at hminted
  cases hminted
  simp only [PublishCommit.response, StoreView.assign_createdAt (except_mapError_ok.1 hbody)]
  refine Decides.step (alone_claimKey _) ?_
  refine Decides.bind (decides_appendPublish htarget) fun _ _ => ?_
  exact Tx.Alone.weaken (Decides.pure _) (fun _ h => h) fun _ _ _ => trivial

/-- **A SQL backend whose publish runs alone refuses in the documented order.** -/
theorem publishTx_documented :
    ((st.publishTx c draw).run (fun _ => db) {}).1 =
      (documented st.api (db.storeView draw.now) db.keylessView c draw).mapError .answered := by
  have h : Decides db (· = db) (st.publishTx c draw)
      (documented st.api (db.storeView draw.now) db.keylessView c draw) fun _ _ => True := by
    unfold SqlStore.publishTx documented
    refine Decides.step (Tx.Alone.query fun _ _ => rfl) ?_
    refine Decides.bind (decides_idempotencyLookup hdb) fun _ _ => ?_
    have hsup : Decides db (Untouched c db) (st.supersession c draw) _ fun _ => Untouched c db :=
      decides_supersession
    cases htarget : (db.storeView draw.now).supersedes c with
    | error a =>
      rw [htarget] at hsup
      exact Decides.bind (y := fun _ => .error a) hsup fun _ h => by cases h
    | ok target =>
      rw [htarget] at hsup
      cases hadmission : db.keylessView.admission st.api c target with
      | error e =>
        rw [show (Except.ok target : Decision _) = pure target from rfl, pure_bind, hadmission] at hsup ⊢
        exact Decides.bind (y := fun _ => .error (.error e)) hsup fun _ h => by cases h
      | ok u =>
        rw [show (Except.ok target : Decision _) = pure target from rfl, pure_bind, hadmission] at hsup ⊢
        exact Decides.step hsup (decides_commit hdb hmints hstorable htarget)
  exact h.answer

end Steps

/-- The answer of `commit_publish` if no other transaction runs beside it. -/
def SqlStore.commitPublishAlone (st : SqlStore) (c : PublishCommit) (draw : PublishDraw) (db : Db) :
    Except AcdpError PublishCommitOutcome :=
  publishAnswer c ((st.publishTx c draw).run (fun _ => db) {}).1 db

theorem commitPublishAlone_documented {st : SqlStore} {draw : PublishDraw} {db : Db}
    (hdb : db.Sound st.dialect) (hmints : st.Mints c) (hstorable : Storable st.api c draw db) :
    st.commitPublishAlone c draw db =
      (documented st.api (db.storeView draw.now) db.keylessView c draw).outcome := by
  rw [SqlStore.commitPublishAlone, publishTx_documented hdb hmints hstorable]
  cases documented st.api (db.storeView draw.now) db.keylessView c draw <;> rfl

end AcdpRegistry
