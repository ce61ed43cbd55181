/-
  Publishing under an idempotency key.

  While the key's record lives, at most one of the calls that carry the key
  commits, and the record stands in the table from its commit on.  Every other
  call commits nothing and answers with the winner's response or with an error.
  A call that meets the record answers as the record says; a Postgres call that
  looked before the winner's commit may still fail a check of its own.
-/
import AcdpRegistry.Store.PublishExits

namespace AcdpRegistry

open Lib

/-! ## Calls with one key -/

variable {r : IdempotencyRecord}

structure Keyed (agentId key : String) (call : Call) (st : SqlStore) (c : PublishCommit)
    (draw : PublishDraw) (ttl : ℤ) : Prop where
  isPublish : call = .publish st c draw
  agent : c.req.agentId = agentId
  idempotency : c.idempotency = some ⟨key, ttl⟩

/-- The clock a call brings to the records of the key. -/
def Call.clock (agentId key : String) : Call → Option ℤ
  | publish _ c draw =>
    if c.req.agentId = agentId ∧ ∃ i ∈ c.idempotency, i.key = key then some draw.now else none
  | lifecycle _ _ _ => none
  | evictIdempotency _ now => some now

variable {draw : PublishDraw} {c : PublishCommit} {st : SqlStore} {ttl : ℤ}

theorem Keyed.clock {agentId key : String} {call : Call} (h : Keyed agentId key call st c draw ttl) :
    call.clock agentId key = some draw.now := by
  simp [h.isPublish, Call.clock, h.agent, h.idempotency]

theorem Keyed.mem_part {agentId key : String} {call : Call}
    (h : Keyed agentId key call st c draw ttl) {db : Db}
    (hr : r ∈ db.idempotency) (hof : RecordOf c r) : r ∈ Db.part (.idempotency agentId key) db := by
  obtain ⟨i, hi, hkey⟩ := hof.key
  rw [h.idempotency] at hi
  cases hi
  exact List.mem_filter.2 ⟨hr, by simp [hof.agent, h.agent, hkey]⟩

section Schedule

variable {ι : Type} {call : ι → Call} (S : StoreSchedule call) (agentId key : String)

/-- The key is unused at first, and every clock that meets its record is before the record's end. -/
structure WithinTtl : Prop where
  unused : Db.part (.idempotency agentId key) (S.db 0) = []
  live : ∀ i st c draw ttl, Keyed agentId key (call i) st c draw ttl →
    ∀ j, ∀ now ∈ (call j).clock agentId key, now < st.dialect.stamp (draw.now + ttl)

/-- Call `i` with the key commits the publication `p` at the moment `n`. -/
structure Winner (n : ℕ) (i : ι) (st : SqlStore) (c : PublishCommit) (draw : PublishDraw) (ttl : ℤ)
    (p : Publication) : Prop where
  commits : S.commits n = some i
  keyed : Keyed agentId key (call i) st c draw ttl
  result : S.result i = .ok (.inserted p.response)
  publish : S.db (n + 1) = (S.db n).publish p
  accepted : Accepted st c draw (Saw S i) (S.db n) p

variable {S agentId key}

theorem Keyed.winner {n : ℕ} {i : ι}
    (h : Keyed agentId key (call i) st c draw ttl) (hn : S.commits n = some i) :
    ∃ p, Winner S agentId key n i st c draw ttl p := by
  obtain ⟨a, ha, hs⟩ := commit_step S hn
  rw [h.isPublish] at hs
  generalize hdb : S.db (n + 1) = db' at hs
  cases hs with
  | publish hacc => exact ⟨_, hn, h, ha, hdb, hacc⟩

theorem Keyed.done {j : ι} (h : Keyed agentId key (call j) st c draw ttl) :
    S.done (fun i => (call i).tx) j =
      ((st.publishTx c draw).run (fun k => S.db (S.moment j k)) {}).2 :=
  congrArg Prod.snd (publish_attempt S h.isPublish)

theorem Keyed.error {j : ι} (h : Keyed agentId key (call j) st c draw ttl) {e : PublishExit}
    (he : S.result j = .error (.publish e)) :
    (st.publishTx c draw).run (fun k => S.db (S.moment j k)) {} =
      (.error e, S.done (fun i => (call i).tx) j) := publish_run_error S h.isPublish he

/-! ## The record -/

theorem part_filter {evicts : IdempotencyRecord → Bool} {db : Db}
    (h : ∀ r ∈ Db.part (.idempotency agentId key) db, ¬evicts r) :
    Db.part (.idempotency agentId key)
      { db with idempotency := db.idempotency.filter fun r => !evicts r } =
      Db.part (.idempotency agentId key) db := by
  simp only [Db.part, List.filter_filter] at h ⊢
  refine List.filter_congr fun r hr => ?_
  by_cases hk : r.agentId = agentId ∧ r.key = key
  · have := h r (List.mem_filter.2 ⟨hr, by simpa using hk⟩)
    simp [hk, this]
  · simp [hk]

theorem part_publish (p : Publication) (db : Db) :
    Db.part (.idempotency agentId key) (db.publish p) =
      Db.part (.idempotency agentId key)
        { db with idempotency := db.idempotency.filter fun r => !p.evicts r } ++
      p.record.toList.filter fun r => r.agentId = agentId ∧ r.key = key :=
  List.filter_append ..

theorem CommitStep.part_eq {seen : Db → Prop} {x : Call} {db db' : Db} {a : CallDone}
    (h : CommitStep seen x db db' a) (hx : ∀ st c draw ttl, ¬Keyed agentId key x st c draw ttl)
    (hlive : ∀ r ∈ Db.part (.idempotency agentId key) db, ∀ now ∈ x.clock agentId key,
      now < r.expiresAt) :
    Db.part (.idempotency agentId key) db' = Db.part (.idempotency agentId key) db := by
  cases h with
  | @publish st c draw _ p hacc =>
    -- neither the records it removes nor the one it adds is of the key
    have hother : ∀ i, c.idempotency = some i → ¬(c.req.agentId = agentId ∧ i.key = key) := by
      rintro i hi ⟨ha, rfl⟩
      exact hx st c draw i.ttl ⟨rfl, ha, hi⟩
    have hrec : p.record.toList.filter (fun r => r.agentId = agentId ∧ r.key = key) = [] := by
      rw [hacc.record]
      cases hi : c.idempotency with
      | none => rfl
      | some i => simpa [SqlStore.record] using hother i hi
    rw [part_publish, hrec, List.append_nil]
    refine part_filter fun r hr hev => ?_
    obtain ⟨i, hi, hexp⟩ := hacc.evicts r hev
    have hr := (List.mem_filter.1 hr).2
    simp only [Db.expiredAt, Bool.and_eq_true, decide_eq_true_eq] at hexp hr
    exact hother i hi ⟨hexp.1.1.symm.trans hr.1, hexp.1.2.symm.trans hr.2⟩
  | event => rfl
  | @evict st now _ evicts hev =>
    refine part_filter fun r hr he => ?_
    have := hlive r hr now rfl
    have := hev r he
    have := st.dialect.stamp_le now
    omega

theorem Winner.part_succ {n : ℕ} {i : ι}
    {p : Publication} (w : Winner S agentId key n i st c draw ttl p)
    (hlive : ∀ r ∈ Db.part (.idempotency agentId key) (S.db n), draw.now < r.expiresAt) :
    Db.part (.idempotency agentId key) (S.db n) = [] ∧
      Db.part (.idempotency agentId key) (S.db (n + 1)) = [st.record c draw ⟨key, ttl⟩ p.response] := by
  have hempty : Db.part (.idempotency agentId key) (S.db n) = [] := by
    refine List.eq_nil_iff_forall_not_mem.2 fun r hr => ?_
    have hlt := hlive r hr
    obtain ⟨hmem, hk⟩ := List.mem_filter.1 hr
    simp only [decide_eq_true_eq] at hk
    have hev := w.accepted.keyFree _ w.keyed.idempotency r hmem (hk.1.trans w.keyed.agent.symm) hk.2
    obtain ⟨j, -, hexp⟩ := w.accepted.evicts r hev
    simp only [Db.expiredAt, Bool.and_eq_true, decide_eq_true_eq] at hexp
    have := st.dialect.stamp_le draw.now
    omega
  refine ⟨hempty, ?_⟩
  rw [w.publish, part_publish, part_filter (by simp [hempty]), hempty, w.accepted.record,
    w.keyed.idempotency]
  simp [SqlStore.record, w.keyed.agent]

/-- **One winner.**  There is no record of the key before the first commit of a publish with it, and
    afterwards its record and no other such commit. -/
theorem WithinTtl.record (h : WithinTtl S agentId key) (m : ℕ) :
    (Db.part (.idempotency agentId key) (S.db m) = [] ∧
      ∀ n < m, ∀ j, S.commits n = some j → ∀ st c draw ttl, ¬Keyed agentId key (call j) st c draw ttl) ∨
    ∃ n < m, ∃ i st c draw ttl p, Winner S agentId key n i st c draw ttl p ∧
      Db.part (.idempotency agentId key) (S.db m) = [st.record c draw ⟨key, ttl⟩ p.response] ∧
      ∀ n' < m, ∀ j, S.commits n' = some j →
        ∀ st c draw ttl, Keyed agentId key (call j) st c draw ttl → n' = n := by
  induction m with
  | zero => exact .inl ⟨h.unused, by simp⟩
  | succ m ih =>
    have hlive : ∀ r ∈ Db.part (.idempotency agentId key) (S.db m), ∀ j,
        ∀ now ∈ (call j).clock agentId key, now < r.expiresAt := by
      rcases ih with ⟨hempty, -⟩ | ⟨n, -, i, st, c, draw, ttl, p, w, hrec, -⟩
      · simp [hempty]
      · rw [hrec]
        intro r hr
        rw [List.mem_singleton.1 hr]
        exact h.live i st c draw ttl w.keyed
    by_cases hkeyed : ∃ j st c draw ttl, S.commits m = some j ∧ Keyed agentId key (call j) st c draw ttl
    · obtain ⟨j, st, c, draw, ttl, hc, hk⟩ := hkeyed
      obtain ⟨p, w⟩ := hk.winner hc
      obtain ⟨hempty, hrec⟩ := w.part_succ fun r hr => hlive r hr j _ hk.clock
      refine .inr ⟨m, Nat.lt_succ_self m, j, st, c, draw, ttl, p, w, hrec, ?_⟩
      intro n' hn' j' hc' st' c' draw' ttl' hk'
      by_contra hne
      rcases ih with ⟨-, hno⟩ | ⟨n, -, i, _, _, _, _, _, -, hrec', -⟩
      · exact hno n' (by omega) j' hc' st' c' draw' ttl' hk'
      · rw [hempty] at hrec'
        cases hrec'
    · push Not at hkeyed
      -- a commit without the key keeps the record, and is none of those counted
      have hpart : Db.part (.idempotency agentId key) (S.db (m + 1)) =
          Db.part (.idempotency agentId key) (S.db m) := by
        cases hc : S.commits m with
        | none => rw [S.idle m hc]
        | some j =>
          obtain ⟨a, -, hs⟩ := commit_step S hc
          exact hs.part_eq (fun st c draw ttl => hkeyed j st c draw ttl hc) fun r hr => hlive r hr j
      rw [hpart]
      rcases ih with ⟨hempty, hno⟩ | ⟨n, hn, i, st, c, draw, ttl, p, w, hrec, honly⟩
      · refine .inl ⟨hempty, fun n hn j hc => ?_⟩
        rcases Nat.lt_succ_iff_lt_or_eq.1 hn with hlt | rfl
        · exact hno n hlt j hc
        · exact fun st c draw ttl => hkeyed j st c draw ttl hc
      · refine .inr ⟨n, by omega, i, st, c, draw, ttl, p, w, hrec, fun n' hn' j hc => ?_⟩
        rcases Nat.lt_succ_iff_lt_or_eq.1 hn' with hlt | rfl
        · exact honly n' hlt j hc
        · exact fun st c draw ttl hk => absurd hk (hkeyed j st c draw ttl hc)

section Winner

variable {n : ℕ} {i : ι} {p : Publication} (w : Winner S agentId key n i st c draw ttl p)
  (h : WithinTtl S agentId key)

include w h

theorem Winner.unique {m : ℕ} {j : ι} (hm : S.commits m = some j) {st' : SqlStore} {c' : PublishCommit}
    {draw' : PublishDraw} {ttl' : ℤ} (hk : Keyed agentId key (call j) st' c' draw' ttl') :
    m = n ∧ j = i := by
  rcases h.record (max m n + 1) with ⟨-, hno⟩ | ⟨n', -, -, -, -, -, -, -, -, -, honly⟩
  · exact absurd hk (hno m (by omega) j hm st' c' draw' ttl')
  · have hmn : m = n := (honly m (by omega) j hm _ _ _ _ hk).trans
      (honly n (by omega) i w.commits _ _ _ _ w.keyed).symm
    subst hmn
    exact ⟨rfl, Option.some.inj (hm.symm.trans w.commits)⟩

theorem Winner.mem_part {m : ℕ} (hr : r ∈ Db.part (.idempotency agentId key) (S.db m)) :
    n < m ∧ r = st.record c draw ⟨key, ttl⟩ p.response := by
  rcases h.record m with ⟨hempty, -⟩ | ⟨n', hn', j, st', c', draw', ttl', p', w', hrec, -⟩
  · rw [hempty] at hr
    cases hr
  · obtain ⟨rfl, rfl⟩ := w.unique h w'.commits w'.keyed
    have hcall := w.keyed.isPublish.symm.trans w'.keyed.isPublish
    simp only [Call.publish.injEq] at hcall
    obtain ⟨rfl, rfl, rfl⟩ := hcall
    have hkey := w.keyed.idempotency.symm.trans w'.keyed.idempotency
    have hresp := w.result.symm.trans w'.result
    simp only [Option.some.injEq, IdempotencyKey.mk.injEq, Except.ok.injEq, CallDone.inserted.injEq,
      true_and] at hkey hresp
    rw [hrec, List.mem_singleton] at hr
    exact ⟨hn', by rw [hr, hkey, hresp]⟩

theorem Winner.part_after {m : ℕ} (hm : n < m) :
    Db.part (.idempotency agentId key) (S.db m) = [st.record c draw ⟨key, ttl⟩ p.response] := by
  rcases h.record m with ⟨-, hno⟩ | ⟨_, _, _, _, _, _, _, _, _, hrec, -⟩
  · exact absurd w.keyed (hno n hm i w.commits st c draw ttl)
  · rw [hrec, List.singleton_inj]
    exact (w.mem_part h (by rw [hrec]; exact List.mem_singleton.2 rfl)).2

end Winner

/-! ## The other calls -/

/-- What a record of the publish `c` with the response `r` makes of another request with its key. -/
def secondAnswer (key : String) (c c' : PublishCommit) (r : PublishResponse) :
    Except AcdpError PublishCommitOutcome :=
  if c.req.contentHash = c'.req.contentHash then .ok (.idempotentReplay r)
  else
    let agent := c'.req.agentId
    .error (.duplicatePublish
      s!"Idempotency-Key '{key}' was previously used by '{agent}' with a different content_hash")

theorem answer_record (c' : PublishCommit) (r : PublishResponse) :
    ((st.record c draw ⟨key, ttl⟩ r).answer c'.req).map .idempotentReplay =
      secondAnswer key c c' r := by
  unfold IdempotencyRecord.answer secondAnswer SqlStore.record
  split <;> rfl

theorem idempotency?_of_part {db : Db} (h : Db.part (.idempotency agentId key) db = [r]) :
    db.idempotency? agentId key = some r := by
  simp only [Db.part] at h
  rw [Db.idempotency?, ← List.head?_filter, h, List.head?_cons]

theorem mem_part_of_idempotency? {db : Db} (h : db.idempotency? agentId key = some r) :
    r ∈ Db.part (.idempotency agentId key) db := by
  rw [Db.idempotency?, ← List.head?_filter] at h
  exact List.mem_of_mem_head? h

section Lookup

variable {views : ℕ → Db} {prev : String} {i : IdempotencyKey} {s : Local Db Part} {row : ContextRow}

theorem checkTarget_run (h : MaySupersede c row) :
    (SqlStore.checkTarget c prev row).run views s = (.ok (), s) := by
  have hpass : ∀ (q : Prop) [Decidable q] (e : AcdpError), ¬q →
      (PublishTx.refuseIf q e).run views s = (.ok (), s) :=
    fun q _ e hq => refuseIf_ok.2 ⟨hq, rfl⟩
  refine (Tx.bind_run_ok (hpass _ _ ?_)).trans ((Tx.bind_run_ok (hpass _ _ ?_)).trans
    ((Tx.bind_run_ok (hpass _ _ ?_)).trans (hpass _ _ ?_)))
  · push Not; exact h.tenant
  · exact not_not.2 h.owner
  · push Not; exact h.lineage
  · exact not_not.2 h.version

theorem refuseSuperseded_run
    (hd : st.dialect = .postgres) (hi : c.idempotency = some i) (hown : s.own = id)
    (hr : (views s.stmts).idempotency? c.req.agentId i.key = some r)
    (hlive : draw.now < r.expiresAt) :
    ((st.refuseSuperseded c draw prev).run views s).1 = .error (.answered (r.answer c.req)) := by
  unfold SqlStore.refuseSuperseded
  rw [hd, hi]
  obtain ⟨s', h'⟩ : ∃ s', (SqlStore.committedIdempotentResponse c draw i.key).run views s =
      (.ok (some r), s') :=
    ⟨_, Prod.ext (by simp [SqlStore.committedIdempotentResponse, select, Tx.query, Tx.stmt, hown, hr,
      hlive]) rfl⟩
  exact congrArg Prod.fst (Tx.bind_run_ok h')

variable (hi : c.idempotency = some i)
  (hlive : ∀ k, ∀ r ∈ Db.part (.idempotency c.req.agentId i.key) (views k), draw.now < r.expiresAt)

include hi hlive

theorem idempotencyLookup_run (hown : s.own = id) :
    ∃ s', s'.own = id ∧ s'.stmts = s.stmts + 2 ∧ (st.idempotencyLookup c draw).run views s =
      (match (views (s.stmts + 1)).idempotency? c.req.agentId i.key with
        | none => .ok ()
        | some r => .error (.answered (r.answer c.req)), s') := by
  -- there is nothing to evict
  have hany : ∀ k, (views k).idempotency.any
      (Db.expiredAt c.req.agentId i.key (st.dialect.stamp draw.now)) = false := by
    intro k
    refine List.any_eq_false.2 fun r hr hexp => ?_
    simp only [Db.expiredAt, Bool.and_eq_true, decide_eq_true_eq] at hexp
    have := hlive k r (List.mem_filter.2 ⟨hr, by simpa using hexp.1⟩)
    have := st.dialect.stamp_le draw.now
    omega
  obtain ⟨s₁, h₁⟩ : ∃ s₁, (st.evictKey c.req.agentId i.key draw.now : PublishTx Unit).run views s =
      (.ok (), s₁) := ⟨_, rfl⟩
  obtain ⟨-, hs₁⟩ := Tx.stmt_ok.1 h₁
  have hown₁ : s₁.own = id := by
    funext db
    simp [← hs₁, Local.next, hown, hany]
  have hstmts₁ : s₁.stmts = s.stmts + 1 := by rw [← hs₁]; rfl
  obtain ⟨s₂, h₂⟩ : ∃ s₂, (st.lockKey c.req.agentId i.key : PublishTx _).run views s₁ =
      (.ok ((views (s.stmts + 1)).idempotency? c.req.agentId i.key), s₂) :=
    ⟨_, Prod.ext (by rw [← hstmts₁]; simp [SqlStore.lockKey, Tx.query, Tx.stmt, hown₁]) rfl⟩
  obtain ⟨-, hs₂⟩ := Tx.query_ok.1 h₂
  refine ⟨s₂, by rw [← hs₂]; exact hown₁, by rw [← hs₂]; exact congrArg (· + 1) hstmts₁, ?_⟩
  unfold SqlStore.idempotencyLookup
  rw [hi]
  refine (Tx.bind_run_ok h₁).trans ((Tx.bind_run_ok h₂).trans ?_)
  cases hx : (views (s.stmts + 1)).idempotency? c.req.agentId i.key with
  | none => rfl
  | some r =>
    have hlt := hlive _ r (mem_part_of_idempotency? hx)
    simp [Tx.refuse, Tx.lift, hlt]

theorem lookup_run {β : Type} :
    ∃ s : Local Db Part, s.own = id ∧ s.stmts = 3 ∧ ∀ f : Unit → PublishTx β,
      (st.begin >>= fun _ => st.idempotencyLookup c draw >>= f).run views {} =
        match (views 2).idempotency? c.req.agentId i.key with
        | none => (f ()).run views s
        | some r => (.error (.answered (r.answer c.req)), s) := by
  obtain ⟨s₀, h₀⟩ : ∃ s₀, (st.begin : PublishTx Unit).run views {} = (.ok (), s₀) := ⟨_, rfl⟩
  obtain ⟨-, hs₀⟩ := Tx.query_ok.1 h₀
  have hown : s₀.own = id := by rw [← hs₀]; rfl
  have hstmts : s₀.stmts = 1 := by rw [← hs₀]; rfl
  obtain ⟨s₁, hown₁, hstmts₁, h₁⟩ := idempotencyLookup_run hi hlive hown
  rw [hstmts] at h₁ hstmts₁
  refine ⟨s₁, hown₁, hstmts₁, fun f => ?_⟩
  rw [Tx.bind_run_ok h₀]
  cases hx : (views 2).idempotency? c.req.agentId i.key with
  | none => rw [hx] at h₁; exact Tx.bind_run_ok h₁
  | some r => rw [hx] at h₁; exact Tx.bind_run_error h₁

theorem publishTx_run_of_record (hr : (views 2).idempotency? c.req.agentId i.key = some r) :
    ((st.publishTx c draw).run views {}).1 = .error (.answered (r.answer c.req)) := by
  obtain ⟨s, -, -, hrun⟩ := lookup_run hi hlive
  rw [SqlStore.publishTx, hrun, hr]

/-- A Postgres publish whose first lookup finds no record locks its target, and if that is superseded a
    record that is there by now answers. -/
theorem publishTx_run_of_none (hd : st.dialect = .postgres)
    (hnone : (views 2).idempotency? c.req.agentId i.key = none)
    (hprev : c.req.supersedes = some prev) (hrow : (views 3).context? prev = some row) :
    (3, .part (.context prev)) ∈ ((st.publishTx c draw).run views {}).2.locks ∧
    ∀ r, MaySupersede c row → row.status = .superseded →
    (views 4).idempotency? c.req.agentId i.key = some r →
    ((st.publishTx c draw).run views {}).1 = .error (.answered (r.answer c.req)) := by
  obtain ⟨s, hown, hstmts, hrun⟩ := lookup_run hi hlive
  have hx : (s.own (views s.stmts)).context? prev = some row := by rw [hown, hstmts]; exact hrow
  obtain ⟨s₁, h₁⟩ : ∃ s₁, (st.lockContext prev : PublishTx _).run views s = (.ok (some row), s₁) :=
    ⟨_, Prod.ext (congrArg Except.ok hx) rfl⟩
  obtain ⟨-, hs₁⟩ := Tx.query_ok.1 h₁
  have hlock : (3, .part (.context prev)) ∈ s₁.locks := by
    rw [← hs₁]
    simp [Local.next, hd, Dialect.rowLock, hstmts, hown, hrow]
  rw [SqlStore.publishTx, hrun, hnone]
  refine ⟨?_, fun r hmay hs hr => ?_⟩
  · refine (Tx.grows_bind _ _).locks ?_
    unfold SqlStore.supersession
    rw [hprev]
    show _ ∈ ((st.lockContext prev >>= _).run views s).2.locks
    rw [Tx.bind_run_ok h₁]
    exact (Tx.grows _ _ _).locks hlock
  · have hown₁ : s₁.own = id := by rw [← hs₁]; exact hown
    have hstmts₁ : s₁.stmts = 4 := by rw [← hs₁]; exact congrArg (· + 1) hstmts
    rw [← hstmts₁] at hr
    have hsup : ((st.supersession c draw).run views s).1 = .error (.answered (r.answer c.req)) := by
      unfold SqlStore.supersession
      rw [hprev]
      show ((st.lockContext prev >>= fun x => Tx.require x _ >>= fun row => _).run views s).1 = _
      rw [Tx.bind_run_ok h₁, Tx.bind_run_ok (Tx.require_ok.2 ⟨rfl, rfl⟩),
        Tx.bind_run_ok (checkTarget_run hmay), if_pos hs]
      exact Tx.bind_fst_error
        (refuseSuperseded_run hd hi hown₁ hr (hlive _ r (mem_part_of_idempotency? hr)))
    exact Tx.bind_fst_error hsup

end Lookup

theorem Winner.locks_target {n : ℕ} {i : ι} {p : Publication} {prev : String}
    (w : Winner S agentId key n i st c draw ttl p) (hprev : c.req.supersedes = some prev) :
    ∃ k l, (k, l) ∈ (S.done (fun i => (call i).tx) i).locks ∧ l.Guards (.context prev) := by
  obtain ⟨a, hrun⟩ := S.run_of_commit w.commits
  rw [w.keyed.isPublish] at hrun
  obtain ⟨resp, htx, -⟩ := Tx.mapEnd_ok.1 hrun
  obtain ⟨_, s₀, h₀, h⟩ := Tx.bind_ok.1 htx
  obtain ⟨_, s₁, h₁, h⟩ := Tx.bind_ok.1 h
  obtain ⟨firstV1, s₂, h₂, h⟩ := Tx.bind_ok.1 h
  obtain ⟨-, hs₀⟩ := Tx.query_ok.1 h₀
  have hb : st.dialect.begun 0 ⊆ s₁.locks := by
    refine List.Subset.trans ?_ (Tx.grows_of_run h₁).locks
    rw [← hs₀]
    exact List.subset_append_right _ _
  obtain ⟨-, -, htarget⟩ := supersession_ok hb h₂
  obtain ⟨row, hsaw⟩ := htarget prev hprev
  obtain ⟨k, -, l, hl, hg⟩ := hsaw.held
  exact ⟨k, l, (Tx.grows_of_run h).locks hl, hg⟩

/-- Why a call meets the winner's record: its first lookup is after the commit; or it lost its claim; or
    on SQLite it was not over before the commit; or on Postgres it has a right to its target, and that was
    superseded and its second lookup is after the commit, or is the winner's and it was not over before. -/
inductive Meets (S : StoreSchedule call) (n : ℕ) (st : SqlStore) (c : PublishCommit) (j : ι)
    (st' : SqlStore) (c' : PublishCommit) : Prop
  | after (h : n < S.moment j 2)
  | lostClaim (h : S.result j = .error (.publish .keyTaken))
  | sqlite (hd : st.dialect = .sqlite) (hd' : st'.dialect = .sqlite) (h : n ≤ S.finish j)
  | superseded {prev : String} {row : ContextRow} (hd : st'.dialect = .postgres)
      (hprev : c'.req.supersedes = some prev) (hrow : (S.db (S.moment j 3)).context? prev = some row)
      (hmay : MaySupersede c' row) (hstatus : row.status = .superseded) (h : n < S.moment j 4)
  | waited {prev : String} {row : ContextRow} (hd : st'.dialect = .postgres)
      (hprev : c.req.supersedes = some prev) (hprev' : c'.req.supersedes = some prev)
      (hrow : (S.db (S.moment j 3)).context? prev = some row) (hmay : MaySupersede c' row)
      (h : n ≤ S.finish j)

section Loser

variable {n : ℕ} {i j : ι} {p : Publication} {st' : SqlStore} {c' : PublishCommit} {draw' : PublishDraw}
  {ttl' : ℤ} {prev : String} (w : Winner S agentId key n i st c draw ttl p) (h : WithinTtl S agentId key)
  (hk : Keyed agentId key (call j) st' c' draw' ttl')

include w h hk

theorem Winner.live (m : ℕ) (hr : r ∈ Db.part (.idempotency agentId key) (S.db m)) : draw'.now < r.expiresAt := by
  rw [(w.mem_part h hr).2]
  exact h.live i st c draw ttl w.keyed j _ hk.clock

omit h in
theorem Winner.sqlite_after (hij : j ≠ i) (hd : st.dialect = .sqlite)
    (hd' : st'.dialect = .sqlite) (hstart : S.moment j 0 ≤ S.finish j) (hfin : n ≤ S.finish j) :
    n < S.moment j 0 := by
  have hwhole : ∀ (st : SqlStore) (c : PublishCommit) (draw : PublishDraw) (views : ℕ → Db),
      st.dialect = .sqlite → (0, .whole) ∈ ((st.publishTx c draw).run views {}).2.locks := by
    intro st c draw views hd
    refine (Tx.grows_bind _ _).locks ?_
    simp [SqlStore.begin, Tx.query, Tx.stmt, Local.next, hd, Dialect.beginLocks]
  have hi : (0, .whole) ∈ (S.done (fun i => (call i).tx) i).locks := by
    rw [w.keyed.done]
    exact hwhole st c draw _ hd
  have hj : (0, .whole) ∈ (S.done (fun i => (call i).tx) j).locks := by
    rw [hk.done]
    exact hwhole st' c' draw' _ hd'
  have hle := S.moment_le w.commits 0
  have hfi := S.finish_eq w.commits
  rcases S.exclusive j i hij 0 .whole 0 .whole hj hi trivial hstart (by omega) with h | h <;> omega

/-- A superseding request that found its target and was not over before the winner's commit found it
    after that commit. -/
theorem Winner.waited_after (hij : j ≠ i) (hd : st'.dialect = .postgres) (hprev : c.req.supersedes = some prev)
    (hprev' : c'.req.supersedes = some prev) {row : ContextRow}
    (hrow : (S.db (S.moment j 3)).context? prev = some row) (hstart : S.moment j 3 ≤ S.finish j)
    (hfin : n ≤ S.finish j) (hnone : (S.db (S.moment j 2)).idempotency? agentId key = none) :
    n < S.moment j 3 := by
  obtain ⟨k, l, hl, hg⟩ := w.locks_target hprev
  have hlive : ∀ k, ∀ r ∈ Db.part (.idempotency c'.req.agentId key) (S.db (S.moment j k)),
      draw'.now < r.expiresAt := by
    rw [hk.agent]
    exact fun k r hr => w.live h hk _ hr
  rw [← hk.agent] at hnone
  have hlock := (publishTx_run_of_none hk.idempotency hlive hd hnone hprev' hrow).1
  have hj : (3, .part (.context prev)) ∈ (S.done (fun i => (call i).tx) j).locks := by
    rw [hk.done]
    exact hlock
  have hle := S.moment_le w.commits k
  have hfi := S.finish_eq w.commits
  rcases S.exclusive j i hij 3 (.part (.context prev)) k l hj hl
    (Lock.conflict_of_guards rfl hg) hstart (by omega) with h | h <;> omega

omit h hk in
theorem Winner.target_after (hprev : c.req.supersedes = some prev) {m : ℕ} (hm : n < m) :
    ∃ row, (S.db m).context? prev = some row ∧ row.status = .superseded := by
  obtain ⟨_, -, -, htarget⟩ := w.accepted.ids
  obtain ⟨row, hrow, -, -⟩ := htarget prev hprev
  have hstep : (S.db (n + 1)).context? prev = some { row with status := .superseded } := by
    have hsup : p.row.body.supersedes = some prev := by
      rw [w.accepted.body]
      exact hprev
    have hid : row.body.ctxId = prev := by simpa using List.find?_some hrow
    simp only [Db.context?] at hrow
    simp only [w.publish, Db.publish, hsup, Db.context?, Db.supersede]
    rw [Db.find?_update (by exact fun _ => rfl), List.find?_append, hrow, Option.some_or,
      Option.map_some, if_pos hid]
  obtain ⟨row', hrow', hsame⟩ := row_kept S hm hstep
  exact ⟨row', hrow', hsame.superseded rfl⟩

variable {m : ℕ} {a : Except AcdpError PublishCommitOutcome}

omit w h hk in
theorem Answers.of_not_commits (ha : Answers S j c' m a) (hno : ∀ n, S.commits n ≠ some j) :
    ∃ e, S.result j = .error (.publish e) ∧ a = SqlStore.publishAnswer c' (.error e) (S.db m) := by
  rcases ha.2.2 with ⟨r, n', -, hn', -⟩ | he
  · exact absurd hn' (hno n')
  · exact he

theorem Winner.answer_of_keyTaken (ha : Answers S j c' m a) (he : S.result j = .error (.publish .keyTaken)) :
    SqlStore.publishAnswer c' (.error .keyTaken) (S.db m) = secondAnswer key c c' p.response := by
  obtain ⟨k, r, hr, hof⟩ := publishTx_error (hk.error he)
  have hn := (w.mem_part h (hk.mem_part hr hof)).1
  have hrec := idempotency?_of_part (w.part_after h (by have := ha.1 k; have := ha.2.1; omega : n < m))
  simp only [SqlStore.publishAnswer, hk.idempotency, Option.bind_some, hk.agent, hrec]
  exact answer_record c' p.response

theorem Winner.answer_cases (hij : j ≠ i) (ha : Answers S j c' m a) :
    (c.req.contentHash = c'.req.contentHash ∧ a = .ok (.idempotentReplay p.response)) ∨
      ∃ e, a = .error e := by
  have hno : ∀ n', S.commits n' ≠ some j := fun n' hn' => hij (w.unique h hn' hk).2
  obtain ⟨e, he, rfl⟩ := ha.of_not_commits hno
  have hmet := publishTx_error (hk.error he)
  match e, hmet with
  | .answered (.error e), _ => exact .inr ⟨e, rfl⟩
  | .answered (.ok resp), ⟨k, r, hr, hof, hhash, hresp⟩ =>
    obtain ⟨-, rfl⟩ := w.mem_part h (hk.mem_part hr hof)
    exact .inl ⟨hhash, by rw [← hresp]; rfl⟩
  | .keyTaken, _ =>
    rw [w.answer_of_keyTaken h hk ha he]
    unfold secondAnswer
    split
    · next hhash => exact .inl ⟨hhash, rfl⟩
    · exact .inr ⟨_, rfl⟩

theorem Winner.answer_of_meets (hij : j ≠ i) (ha : Answers S j c' m a) (hmeets : Meets S n st c j st' c') :
    a = secondAnswer key c c' p.response := by
  have hno : ∀ n', S.commits n' ≠ some j := fun n' hn' => hij (w.unique h hn' hk).2
  obtain ⟨e, he, rfl⟩ := ha.of_not_commits hno
  have hrun := hk.error he
  -- it is enough that the transaction ended with the record's answer
  have hanswered : ((st'.publishTx c' draw').run (fun k => S.db (S.moment j k)) {}).1 =
      .error (.answered ((st.record c draw ⟨key, ttl⟩ p.response).answer c'.req)) →
      SqlStore.publishAnswer c' (.error e) (S.db m) = secondAnswer key c c' p.response := by
    intro hend
    rw [hrun] at hend
    cases hend
    exact answer_record c' p.response
  have hlive : ∀ k, ∀ r ∈ Db.part (.idempotency c'.req.agentId key) (S.db (S.moment j k)),
      draw'.now < r.expiresAt := by
    rw [hk.agent]
    exact fun k r hr => w.live h hk _ hr
  have hrec : ∀ {k}, n < S.moment j k → (S.db (S.moment j k)).idempotency? c'.req.agentId key =
      some (st.record c draw ⟨key, ttl⟩ p.response) := by
    intro k hk'
    rw [hk.agent]
    exact idempotency?_of_part (w.part_after h hk')
  cases hx : (S.db (S.moment j 2)).idempotency? c'.req.agentId key with
  | some r =>
    have hmem := mem_part_of_idempotency? hx
    rw [hk.agent] at hmem
    obtain ⟨-, rfl⟩ := w.mem_part h hmem
    exact hanswered (publishTx_run_of_record hk.idempotency hlive hx)
  | none =>
    have hlookup : ¬n < S.moment j 2 := by
      intro hn
      rw [hrec hn] at hx
      cases hx
    have hsuperseded : ∀ {prev row}, st'.dialect = .postgres → c'.req.supersedes = some prev →
        (S.db (S.moment j 3)).context? prev = some row → MaySupersede c' row →
        row.status = .superseded → n < S.moment j 4 →
        SqlStore.publishAnswer c' (.error e) (S.db m) = secondAnswer key c c' p.response := by
      intro prev row hd hprev hrow hmay hstatus hn
      exact hanswered ((publishTx_run_of_none hk.idempotency hlive hd hx hprev hrow).2 _ hmay hstatus
        (hrec hn))
    cases hmeets with
    | after hn => exact absurd hn hlookup
    | lostClaim hlost =>
      rw [he] at hlost
      cases hlost
      exact w.answer_of_keyTaken h hk ha he
    | sqlite hd hd' hfin =>
      have hn := w.sqlite_after hk hij hd hd' (ha.1 0) hfin
      exact absurd (hn.trans_le (S.ordered j (by omega))) hlookup
    | superseded hd hprev hrow hmay hstatus hn => exact hsuperseded hd hprev hrow hmay hstatus hn
    | waited hd hprev hprev' hrow hmay hfin =>
      -- it waited for the row lock until the winner had committed
      have hn := w.waited_after h hk hij hd hprev hprev' hrow (ha.1 3) hfin (by rw [← hk.agent]; exact hx)
      obtain ⟨row', hrow', hstatus⟩ := w.target_after hprev hn
      obtain rfl : row' = _ := Option.some.inj (hrow'.symm.trans hrow)
      exact hsuperseded hd hprev' hrow hmay hstatus (hn.trans_le (S.ordered j (by omega)))

end Loser

end Schedule

def sampleCommit (req : PublishRequest) : PublishCommit where
  req := req
  authority := "registry"
  idempotency := some ⟨"key", 10 ^ 9⟩

def sampleKeyed (ctxId : String) (req : PublishRequest) : Call :=
  .publish { dialect := .postgres, api := Sample.api } (sampleCommit req) { now := 0, ctxId := ctxId }

theorem sampleKeyed_live {ι : Type} {call : ι → Call} {S : StoreSchedule call} (h0 : S.db 0 = {})
    (hcall : ∀ i, ∃ ctxId req, call i = sampleKeyed ctxId req) : WithinTtl S "agent" "key" := by
  refine ⟨by rw [h0]; rfl, fun i st c draw ttl hk j now hnow => ?_⟩
  obtain ⟨_, _, hi⟩ := hcall i
  obtain ⟨_, _, hj⟩ := hcall j
  have hi := hi.symm.trans hk.isPublish
  have hkey := hk.idempotency
  simp only [sampleKeyed, Call.publish.injEq] at hi
  obtain ⟨rfl, rfl, rfl⟩ := hi
  cases hkey
  have hnow' : now = 0 := by
    simp only [hj, sampleKeyed, Call.clock] at hnow
    split at hnow <;> simp_all
  rw [hnow']
  show (0 : ℤ) < Dialect.postgres.stamp (0 + 10 ^ 9)
  decide

def sampleRetry : Fin 2 → Call :=
  ![sampleKeyed "ctx1" (Sample.request "agent" "hash"),
    sampleKeyed "ctx2" (Sample.request "agent" "hash")]

def sampleRace : Fin 2 → Call :=
  ![sampleKeyed "ctx2" { Sample.request "agent" "hash2" with version := 2, supersedes := some "ctx0" },
    sampleKeyed "ctx1" (Sample.request "agent" "hash1")]

end AcdpRegistry
