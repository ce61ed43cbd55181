/-
  How a publish ends without committing.

  A refusal can come from any step.  A replay and a lost claim come from a record
  of the request's key, met at one of three places: at the first lookup, after
  the wait for the predecessor's row lock, and at the claim.
-/
import AcdpRegistry.Store.LifecycleSpec

namespace AcdpRegistry

open Lib

structure RecordOf (c : PublishCommit) (r : IdempotencyRecord) : Prop where
  agent : r.agentId = c.req.agentId
  key : ∃ i ∈ c.idempotency, r.key = i.key

/-- Why a publish on the states `views` ends as it does: a replay, or a lost claim, has met a record. -/
def MetRecord (c : PublishCommit) (views : ℕ → Db) : PublishExit → Prop
  | .answered (.ok resp) => ∃ k, ∃ r ∈ (views k).idempotency, RecordOf c r ∧
      r.contentHash = c.req.contentHash ∧ r.response = resp
  | .answered (.error _) => True
  | .keyTaken => ∃ k, ∃ r ∈ (views k).idempotency, RecordOf c r

def NoNewRecord (s : Local Db Part) : Prop := ∀ db, (s.own db).idempotency ⊆ db.idempotency

section Exits

variable {st : SqlStore} {c : PublishCommit} {draw : PublishDraw} {views : ℕ → Db}
  {P : Local Db Part → Prop} {E : PublishExit → Prop} {α : Type}

theorem noNewRecord_start : NoNewRecord {} := fun _ => List.Subset.refl _

variable {needs : Db → List (Lock Part)} {s : Local Db Part}

theorem NoNewRecord.next (hs : NoNewRecord s) {write : Db → Db → Db} {committed : Db}
    (h : ∀ seen db, (write seen db).idempotency ⊆ db.idempotency) :
    NoNewRecord (s.next needs write committed) := fun db => List.Subset.trans (h _ _) (hs db)

theorem exits_checked (x : Except AcdpError α) :
    (PublishTx.checked x).Exits views P (MetRecord c views) := by
  refine Tx.exits_lift fun r hr => ?_
  cases x with
  | ok a => simp [Except.mapError] at hr
  | error e => cases hr; trivial

theorem exits_refuseIf (p : Prop) [Decidable p] (e : AcdpError) :
    (PublishTx.refuseIf p e).Exits views P (MetRecord c views) :=
  Tx.exits_refuse fun _ => trivial

theorem exits_stmt_records {write : Db → Db → Db} {result : Db → α}
    (h : ∀ seen db, (write seen db).idempotency ⊆ db.idempotency) :
    (Tx.stmt needs write result : PublishTx α).Exits views NoNewRecord E :=
  Tx.exits_stmt fun _ hs => hs.next h

theorem exits_query (needs : Db → List (Lock Part)) (result : Db → α) :
    (Tx.query needs result : PublishTx α).Exits views NoNewRecord E :=
  exits_stmt_records fun _ _ => List.Subset.refl _

theorem exits_begin : (st.begin : PublishTx Unit).Exits views NoNewRecord E := exits_query _ _

theorem exits_read_bind {β : Type} {result : Db → α} {f : α → PublishTx β}
    (hf : ∀ s, NoNewRecord s → (f (result (s.own (views s.stmts)))).Exits views NoNewRecord E) :
    (Tx.query needs result >>= f).Exits views NoNewRecord E :=
  Tx.exits_query_bind (fun _ hs => hs.next fun _ _ => List.Subset.refl _) hf

theorem exits_insertUnique {r : Part} {free : Db → Bool} {insert : Db → Db}
    (h : ∀ db, (insert db).idempotency ⊆ db.idempotency) :
    (st.insertUnique r free insert : PublishTx Bool).Exits views NoNewRecord (MetRecord c views) := by
  refine exits_stmt_records fun seen db => ?_
  split
  · exact h db
  · exact List.Subset.refl _

theorem exits_advisoryLock (r : Part) :
    (st.advisoryLock r : PublishTx Unit).Exits views NoNewRecord (MetRecord c views) := by
  unfold SqlStore.advisoryLock
  cases st.dialect with
  | sqlite => exact Tx.exits_pure ()
  | postgres => exact exits_query _ _

theorem RecordOf.found {db : Db} {i : IdempotencyKey} {r : IdempotencyRecord} (hs : NoNewRecord s)
    (hi : c.idempotency = some i) (h : (s.own db).idempotency? c.req.agentId i.key = some r) :
    r ∈ db.idempotency ∧ RecordOf c r := by
  have hprop := List.find?_some h
  simp only [decide_eq_true_eq] at hprop
  exact ⟨hs _ (List.mem_of_find?_eq_some h), hprop.1, i, hi, hprop.2⟩

theorem MetRecord.of_answer {k : ℕ} {r : IdempotencyRecord} (hr : r ∈ (views k).idempotency)
    (hof : RecordOf c r) : MetRecord c views (.answered (r.answer c.req)) := by
  unfold IdempotencyRecord.answer
  split
  · next hhash => exact ⟨k, r, hr, hof, hhash, rfl⟩
  · trivial

theorem exits_idempotencyLookup_of
    (hE : ∀ k r, r ∈ (views k).idempotency → RecordOf c r → draw.now < r.expiresAt →
      E (.answered (r.answer c.req))) :
    (st.idempotencyLookup c draw).Exits views NoNewRecord E := by
  unfold SqlStore.idempotencyLookup
  cases hi : c.idempotency with
  | none => exact Tx.exits_pure ()
  | some i =>
    refine Tx.Exits.bind (exits_stmt_records fun seen db => ?_) fun _ => ?_
    · split
      · exact List.filter_subset_self _
      · exact List.Subset.refl _
    · refine exits_read_bind fun s hs => ?_
      cases hx : (s.own (views s.stmts)).idempotency? c.req.agentId i.key with
      | none => exact Tx.exits_pure ()
      | some r =>
        obtain ⟨hr, hof⟩ := RecordOf.found hs hi hx
        exact Tx.exits_refuse fun hlive => hE _ r hr hof hlive

theorem exits_idempotencyLookup :
    (st.idempotencyLookup c draw).Exits views NoNewRecord (MetRecord c views) :=
  exits_idempotencyLookup_of fun _ _ hr hof _ => .of_answer hr hof

theorem exits_refuseSuperseded (prev : String) :
    (st.refuseSuperseded c draw prev).Exits views NoNewRecord (MetRecord c views) := by
  unfold SqlStore.refuseSuperseded
  split
  · next i _ hi =>
    unfold SqlStore.committedIdempotentResponse select
    refine exits_read_bind fun s hs => ?_
    cases hx : ((s.own (views s.stmts)).idempotency? c.req.agentId i.key).filter
        (draw.now < ·.expiresAt) with
    | none => exact Tx.exits_exit trivial
    | some r =>
      obtain ⟨hr, hof⟩ := RecordOf.found hs hi (Option.filter_eq_some_iff.1 hx).1
      exact Tx.exits_exit (.of_answer hr hof)
  · exact Tx.exits_exit trivial

theorem exits_checkTarget (prev : String) (row : ContextRow) :
    (SqlStore.checkTarget c prev row).Exits views NoNewRecord (MetRecord c views) :=
  (exits_refuseIf _ _).bind fun _ => (exits_refuseIf _ _).bind fun _ =>
    (exits_refuseIf _ _).bind fun _ => exits_refuseIf _ _

theorem exits_predecessorRow (att : Option String) :
    (SqlStore.predecessorRow att).Exits views NoNewRecord (MetRecord c views) := by
  cases att with
  | none => exact Tx.exits_pure _
  | some att => exact (exits_query _ _).bind fun _ => Tx.exits_pure _

theorem exits_supersessionGate (row : ContextRow) :
    (st.supersessionGate c row).Exits views NoNewRecord (MetRecord c views) := by
  unfold SqlStore.supersessionGate
  cases keylessSuccessor st.api c.req with
  | none => exact Tx.exits_pure ()
  | some r =>
    exact (exits_query _ _).bind fun _ => (exits_checked _).bind fun _ =>
      (exits_checked _).bind fun _ => (exits_predecessorRow _).bind fun _ =>
      (exits_checked _).bind fun _ => exits_checked _

theorem exits_windowGate (createdAt : ℤ) :
    (st.windowGate c createdAt).Exits views NoNewRecord (MetRecord c views) := by
  unfold SqlStore.windowGate
  cases keylessSuccessor st.api c.req with
  | none => exact Tx.exits_pure ()
  | some r =>
    exact (exits_query _ _).bind fun _ => (exits_checked _).bind fun _ => exits_checked _

theorem exits_supersession :
    (st.supersession c draw).Exits views NoNewRecord (MetRecord c views) := by
  unfold SqlStore.supersession
  cases c.req.supersedes with
  | none => exact Tx.exits_pure none
  | some prev =>
    refine Tx.Exits.bind (exits_query _ _) fun _ => Tx.Exits.bind (Tx.exits_require trivial) fun row =>
      Tx.Exits.bind (exits_checkTarget prev row) fun _ => ?_
    split
    · exact (exits_refuseSuperseded prev).bind fun _ => (exits_supersessionGate row).bind fun _ =>
        (exits_checked _).bind fun _ => (exits_query _ _).bind fun _ => Tx.exits_pure _
    · exact (exits_supersessionGate row).bind fun _ => (exits_checked _).bind fun _ =>
        (exits_query _ _).bind fun _ => Tx.exits_pure _

theorem exits_indexAttestation (body : Body) :
    (st.indexAttestation c body).Exits views NoNewRecord (MetRecord c views) := by
  refine Tx.Exits.bind (exits_checked _) fun att => ?_
  cases att with
  | none => exact Tx.exits_pure ()
  | some row =>
    refine (exits_refuseIf _ _).bind fun _ => Tx.Exits.bind ?_ fun _ => exits_refuseIf _ _
    exact exits_insertUnique fun _ => List.Subset.refl _

theorem exits_appendLeaf (body : Body) (receipt : Option Json) :
    (st.appendLeaf body receipt).Exits views NoNewRecord (MetRecord c views) := by
  unfold SqlStore.appendLeaf
  split
  · refine Tx.Exits.bind (Tx.exits_require trivial) fun _ => (exits_checked _).bind fun leaf =>
      (exits_advisoryLock _).bind fun _ => Tx.Exits.bind (exits_stmt_records fun seen db => ?_) fun _ =>
      exits_refuseIf _ _
    split <;> exact List.Subset.refl _
  · exact Tx.exits_pure ()

theorem exits_markSuperseded :
    (st.markSuperseded c).Exits views NoNewRecord (MetRecord c views) := by
  unfold SqlStore.markSuperseded
  cases c.req.supersedes with
  | none => exact Tx.exits_pure ()
  | some prev => exact exits_stmt_records fun _ _ => List.Subset.refl _

theorem exits_writeRows (firstV1 : Option String) :
    (st.writeRows c draw firstV1).Exits views NoNewRecord (MetRecord c views) := by
  refine Tx.Exits.bind (exits_checked _) fun ids => (exits_windowGate _).bind fun _ =>
    (exits_checked _).bind fun receipt => Tx.Exits.bind ?_ fun _ =>
    (exits_indexAttestation _).bind fun _ => (exits_appendLeaf _ _).bind fun _ =>
    exits_markSuperseded.bind fun _ => Tx.exits_pure _
  refine Tx.Exits.bind ?_ fun _ => exits_refuseIf _ _
  exact exits_insertUnique fun _ => List.Subset.refl _

theorem exits_insertAll {ρ : Type} {E : ρ → Prop} (rows : List (FeedAppend × ℕ × ℤ)) :
    (st.insertAll rows : Tx Db Part ρ Unit).Exits views (fun _ => True) E := by
  have hrows : ∀ rows : List (FeedAppend × ℕ × ℤ),
      (SqlStore.insertFeedRows rows : Tx Db Part ρ Unit).Exits views (fun _ => True) E := by
    intro rows
    induction rows with
    | nil => exact Tx.exits_pure ()
    | cons r rows ih => exact (Tx.exits_stmt fun _ _ => trivial).bind fun _ => ih
  unfold SqlStore.insertAll SqlStore.advisoryLock
  split
  · exact Tx.exits_pure ()
  · refine Tx.Exits.bind ?_ fun _ => hrows rows
    cases st.dialect with
    | sqlite => exact Tx.exits_pure ()
    | postgres => exact Tx.exits_stmt fun _ _ => trivial

theorem exits_appendPublish (body : Body) (receipt : Option Json) :
    (st.appendPublish c draw body receipt).Exits views (fun _ => True) (MetRecord c views) := by
  unfold SqlStore.appendPublish SqlStore.feedPredecessor
  split
  · exact Tx.exits_pure ()
  · refine Tx.Exits.bind ?_ fun _ => (exits_checked _).bind fun _ => exits_insertAll _
    cases c.req.supersedes with
    | none => exact Tx.exits_pure none
    | some prev =>
      refine Tx.Exits.bind ?_ fun _ => Tx.Exits.bind ?_ fun _ => Tx.exits_pure _
      · exact fun _ _ => trivial
      · exact Tx.exits_require trivial

theorem claimKey_error {response : PublishResponse} {e : PublishExit} {s' : Local Db Part}
    (hs : NoNewRecord s) (h : (st.claimKey c draw response).run views s = (.error e, s')) :
    MetRecord c views e := by
  unfold SqlStore.claimKey at h
  cases hi : c.idempotency with
  | none => rw [hi] at h; cases h
  | some i =>
    rw [hi] at h
    rcases Tx.bind_error.1 h with h | ⟨b, s₁, h₁, h⟩
    · cases h
    · obtain ⟨hb, -⟩ := Tx.stmt_ok.1 h₁
      cases hx : (s.own (views s.stmts)).idempotency? c.req.agentId i.key with
      | none =>
        rw [hx] at hb
        subst hb
        cases h
      | some r =>
        rw [hx] at hb
        subst hb
        cases h
        exact ⟨s.stmts, r, RecordOf.found hs hi hx⟩

theorem publishTx_error {e : PublishExit} (h : (st.publishTx c draw).run views {} = (.error e, s)) :
    MetRecord c views e := by
  rcases Tx.bind_error.1 h with h | ⟨_, s₀, h₀, h⟩
  · exact exits_begin.of_error noNewRecord_start h
  have g₀ := (exits_begin (E := MetRecord c views)).of_ok noNewRecord_start h₀
  rcases Tx.bind_error.1 h with h | ⟨_, s₁, h₁, h⟩
  · exact exits_idempotencyLookup.of_error g₀ h
  have g₁ := exits_idempotencyLookup.of_ok g₀ h₁
  rcases Tx.bind_error.1 h with h | ⟨firstV1, s₂, h₂, h⟩
  · exact exits_supersession.of_error g₁ h
  have g₂ := exits_supersession.of_ok g₁ h₂
  rcases Tx.bind_error.1 h with h | ⟨w, s₃, h₃, h⟩
  · exact (exits_writeRows firstV1).of_error g₂ h
  have g₃ := (exits_writeRows firstV1).of_ok g₂ h₃
  rcases Tx.bind_error.1 h with h | ⟨_, s₄, h₄, h⟩
  · exact claimKey_error g₃ h
  rcases Tx.bind_error.1 h with h | ⟨_, s₅, h₅, h⟩
  · exact (exits_appendPublish _ _).of_error trivial h
  · cases h

end Exits

end AcdpRegistry
