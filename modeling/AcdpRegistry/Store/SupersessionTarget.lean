/-
  Supersession is no existence oracle.

  A publish that supersedes a context of another producer or of another tenant ends
  like one whose target is absent, and before it has read anything else about the
  target.  So two stores that differ in such contexts cannot be told apart by it.
-/
import AcdpRegistry.Store.PublishExits
import AcdpRegistry.Lib.Alike

namespace AcdpRegistry

open Lib

variable {st : SqlStore} {c : PublishCommit} {draw : PublishDraw} {prev : String}

/-! ## Contexts that are not the requester's -/

/-- The requester neither produced the context nor contributes to it, or it is of another tenant. -/
def PublishCommit.Foreign (c : PublishCommit) (row : ContextRow) : Prop :=
  ¬(row.body.agentId = c.req.agentId ∨ c.req.agentId ∈ row.body.contributors) ∨
    ∃ t ∈ c.tenant, row.tenantId ≠ t

/-- At this id there is no context, or a foreign one. -/
def PublishCommit.Hides (c : PublishCommit) (ctxId : String) (db : Db) : Prop :=
  ∀ row, db.context? ctxId = some row → c.Foreign row

/-- The stores differ at most in foreign contexts and in what is stored about contexts. -/
structure PublishCommit.SameOwn (c : PublishCommit) (db db' : Db) : Prop where
  idempotency : db.idempotency = db'.idempotency
  contexts : ∀ ctxId row, ¬c.Foreign row →
    (db.context? ctxId = some row ↔ db'.context? ctxId = some row)

theorem PublishCommit.Hides.same {db db' : Db} (h : c.Hides prev db) (hsame : c.SameOwn db db') :
    c.Hides prev db' := by
  intro row hrow
  by_contra hown
  exact hown (h row ((hsame.contexts prev row hown).2 hrow))

/-- What the checks have in common on two stores that hide the target. -/
structure BothHide (c : PublishCommit) (prev : String) (db db' : Db) : Prop where
  idempotency : db.idempotency = db'.idempotency
  left : c.Hides prev db
  right : c.Hides prev db'

/-! ## The refusal -/

theorem checkTarget_foreign {row : ContextRow} (h : c.Foreign row) (views : ℕ → Db)
    (s : Local Db Part) :
    ((SqlStore.checkTarget c prev row).run views s).1 = .error (.answered (.error (targetNotFound prev))) := by
  unfold SqlStore.checkTarget PublishTx.refuseIf
  by_cases htenant : ∃ t ∈ c.tenant, row.tenantId ≠ t
  · exact Tx.bind_fst_error (by simp only [Tx.refuse, Tx.lift, if_pos htenant])
  · rw [Tx.bind_run_ok (Tx.refuse_ok (u := ()).2 ⟨htenant, rfl⟩)]
    exact Tx.bind_fst_error (by simp only [Tx.refuse, Tx.lift, if_pos (h.resolve_right htenant)])

theorem target_refused {row : Option ContextRow} (h : ∀ r, row = some r → c.Foreign r)
    (rest : ContextRow → PublishTx (Option String)) (views : ℕ → Db) (s : Local Db Part) :
    ((do
      let row ← Tx.require row (.answered (.error (targetNotFound prev)))
      SqlStore.checkTarget c prev row
      rest row : PublishTx (Option String)).run views s).1 =
        .error (.answered (.error (targetNotFound prev))) := by
  cases row with
  | none => exact Tx.bind_fst_error rfl
  | some row =>
    rw [Tx.bind_run_ok (Tx.require_ok.2 ⟨rfl, rfl⟩)]
    exact Tx.bind_fst_error (checkTarget_foreign (h row rfl) views s)

/-! ## Two stores -/

theorem alike_idempotencyLookup :
    Tx.Alike (BothHide c prev) Eq (st.idempotencyLookup c draw) (st.idempotencyLookup c draw) := by
  unfold SqlStore.idempotencyLookup
  cases c.idempotency with
  | none => exact Tx.alike_pure rfl
  | some i =>
    refine Tx.Alike.bind (Q := Eq) (Tx.alike_stmt (fun _ _ _ => rfl) ?_) fun _ _ _ => ?_
    · intro d e d' e' hde hde'
      rw [hde.idempotency]
      split
      · exact ⟨by rw [hde'.idempotency], hde'.left, hde'.right⟩
      · exact hde'
    · refine Tx.Alike.bind (Q := Eq) (Tx.alike_query fun d e hde => ?_) fun x y hxy => ?_
      · unfold Db.idempotency?
        rw [hde.idempotency]
      · subst hxy
        cases x with
        | none => exact Tx.alike_pure rfl
        | some record => exact Tx.alike_lift (fun _ => rfl) _

theorem alike_supersession (hprev : c.req.supersedes = some prev) :
    Tx.Alike (BothHide c prev) (fun _ _ => False) (st.supersession c draw) (st.supersession c draw) := by
  unfold SqlStore.supersession
  rw [hprev]
  refine Tx.Alike.bind
    (Q := fun x y => (∀ r, x = some r → c.Foreign r) ∧ ∀ r, y = some r → c.Foreign r)
    (Tx.alike_query fun d e hde => ⟨hde.left, hde.right⟩) fun x y hxy => ?_
  exact Tx.alike_exit (target_refused hxy.1 _) (target_refused hxy.2 _)

variable (st draw) in
theorem alike_publishTx (hprev : c.req.supersedes = some prev) :
    Tx.Alike (BothHide c prev) Eq (st.publishTx c draw) (st.publishTx c draw) := by
  refine Tx.Alike.bind (Q := Eq) (Tx.alike_query fun _ _ _ => rfl) fun _ _ _ => ?_
  refine Tx.Alike.bind alike_idempotencyLookup fun _ _ _ => ?_
  exact Tx.Alike.bind (alike_supersession hprev) fun _ _ h => h.elim

/-! ## The answer -/

/-- How a publish with a hidden target ends: as a live record of its key answers, or refused. -/
def HiddenExit (c : PublishCommit) (draw : PublishDraw) (prev : String) (views : ℕ → Db)
    (e : PublishExit) : Prop :=
  e = .answered (.error (targetNotFound prev)) ∨
    ∃ k, ∃ r ∈ (views k).idempotency, RecordOf c r ∧ draw.now < r.expiresAt ∧
      e = .answered (r.answer c.req)

theorem supersession_hidden (hprev : c.req.supersedes = some prev) {views : ℕ → Db}
    {s : Local Db Part} (hhidden : c.Hides prev (s.own (views s.stmts))) :
    ((st.supersession c draw).run views s).1 = .error (.answered (.error (targetNotFound prev))) := by
  unfold SqlStore.supersession
  rw [hprev]
  exact target_refused hhidden _ views _

variable (st draw) in
theorem publishTx_hidden (hprev : c.req.supersedes = some prev) {views : ℕ → Db}
    (hhidden : ∀ k, c.Hides prev (views k)) :
    ∃ e, ((st.publishTx c draw).run views {}).1 = .error e ∧ HiddenExit c draw prev views e := by
  have hlookup : (st.idempotencyLookup c draw).Exits views NoNewRecord (HiddenExit c draw prev views) :=
    exits_idempotencyLookup_of fun k r hr hof hlive => .inr ⟨k, r, hr, hof, hlive, rfl⟩
  let s₀ : Local Db Part := (({} : Local Db Part).next (fun _ => st.dialect.beginLocks) (fun _ => id)
    (views 0))
  have h₀ : (st.begin : PublishTx Unit).run views {} = (.ok (), s₀) := rfl
  have g₀ : NoNewRecord s₀ := (exits_begin (E := HiddenExit c draw prev views)).of_ok noNewRecord_start h₀
  unfold SqlStore.publishTx
  rw [Tx.bind_run_ok h₀]
  rcases h₁ : (st.idempotencyLookup c draw).run views s₀ with ⟨e | u, s₁⟩
  · exact ⟨e, Tx.bind_fst_error (congrArg Prod.fst h₁), hlookup.of_error g₀ h₁⟩
  · -- the lookup writes no context
    obtain ⟨evicts, -, hown⟩ := idempotencyLookup_ok h₁
    have hhidden₁ : c.Hides prev (s₁.own (views s₁.stmts)) := by
      rw [hown]
      exact hhidden s₁.stmts
    rw [Tx.bind_run_ok h₁]
    exact ⟨_, Tx.bind_fst_error (supersession_hidden hprev hhidden₁), .inl rfl⟩

/-- **Supersession is no existence oracle.**  A publish that supersedes a context which is absent, of
    another producer or of another tenant gives the same answer, with the same text, on any two stores that
    agree on the requester's own contexts and on the idempotency records. -/
theorem supersession_no_existence_oracle (st : SqlStore) (c : PublishCommit) (draw : PublishDraw)
    (prev : String) (hprev : c.req.supersedes = some prev) (views views' : ℕ → Db)
    (hsame : ∀ k, c.SameOwn (views k) (views' k)) (hhidden : ∀ k, c.Hides prev (views k))
    (later later' : Db) :
    let answer := SqlStore.publishAnswer c ((st.publishTx c draw).run views {}).1 later
    answer = SqlStore.publishAnswer c ((st.publishTx c draw).run views' {}).1 later' ∧
      (answer = .error (targetNotFound prev) ∨
        ∃ k, ∃ r ∈ (views k).idempotency, RecordOf c r ∧ draw.now < r.expiresAt ∧
          answer = (r.answer c.req).map .idempotentReplay) := by
  have hboth : ∀ k, BothHide c prev (views k) (views' k) := fun k =>
    ⟨(hsame k).idempotency, hhidden k, (hhidden k).same (hsame k)⟩
  have houtcome := (alike_publishTx st draw hprev).outcome_eq hboth
  obtain ⟨e, he, hexit⟩ := publishTx_hidden st draw hprev hhidden
  dsimp only
  rw [← houtcome, he]
  rcases hexit with rfl | ⟨k, r, hr, hof, hlive, rfl⟩
  · exact ⟨rfl, .inl rfl⟩
  · exact ⟨rfl, .inr ⟨k, r, hr, hof, hlive, rfl⟩⟩

namespace Sample

def foreignRow : ContextRow where
  body := .fromPublishRequest (request "other" "hash") "ctx1" "ctx1" "registry" 0
  status := .superseded
  tenantId := "default"
  receipt := none

def takeover : PublishCommit where
  req := { request "agent" "hash2" with supersedes := some "ctx1", version := 7 }
  authority := "registry"
  tenant := some "default"

theorem takeover_foreign : takeover.Foreign foreignRow := .inl (by decide)

end Sample

/-- An absent target and a superseded one of another producer. -/
theorem supersession_no_existence_oracle_sample :
    let answer (db : Db) := SqlStore.publishAnswer Sample.takeover
      (((SqlStore.publishTx { dialect := .postgres, api := Sample.api } Sample.takeover
        { now := 0, ctxId := "ctx2" }).run (fun _ => db) {}).1) db
    answer {} = .error (targetNotFound "ctx1") ∧
      answer {} = answer { contexts := [Sample.foreignRow] } := by
  have hsame : Sample.takeover.SameOwn {} { contexts := [Sample.foreignRow] } := by
    refine ⟨rfl, fun ctxId row hown => ⟨nofun, fun hrow => ?_⟩⟩
    obtain rfl : row = Sample.foreignRow := List.mem_singleton.1 (List.mem_of_find?_eq_some hrow)
    exact absurd Sample.takeover_foreign hown
  obtain ⟨heq, hrefused | ⟨_, _, hr, -⟩⟩ := supersession_no_existence_oracle
    { dialect := .postgres, api := Sample.api } Sample.takeover { now := 0, ctxId := "ctx2" } "ctx1" rfl
    (fun _ => {}) (fun _ => { contexts := [Sample.foreignRow] }) (fun _ => hsame) (fun _ _ => nofun)
    {} { contexts := [Sample.foreignRow] }
  · exact ⟨hrefused, heq⟩
  · cases hr

end AcdpRegistry
