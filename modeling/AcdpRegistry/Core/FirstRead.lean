/-
  A first read of the change feed: a request without `since`.

  Such a request starts at the oldest retained entry and its refill loop does not look
  for prunes that overtake it: it asked only for the oldest retained entry onward.  So a
  prune between two of its pages can delete a row between two entries of the response
  (`prune_opens_gap`).  That is the only way in which an owed row between a served entry
  and the cursor is missing (`first_read_has_no_gap`).
-/
import AcdpRegistry.Core.ChangesServe

namespace AcdpRegistry

open Lib

variable {env : ChangesEnv}

/-! ## The pages of a request -/

/-- The pages of the refill loop: the table each one is read from, and the position it is read after. -/
def refillPages (env : ChangesEnv) (base : FeedQuery) (target : ℕ) (checkExpiry : Bool) :
    ℕ → (ℕ → FeedStore) → Scan → List (FeedStore × ℕ)
  | 0, _, _ => []
  | n + 1, reads, s =>
    (reads 0, s.pos) ::
      match scanPage env target checkExpiry
          ((reads 0).page env.sha256 { base with after := s.pos }) s with
      | .ok (s', false) => refillPages env base target checkExpiry n (fun k => reads (k + 1)) s'
      | _ => []

def changesPages (env : ChangesEnv) (reads : ℕ → FeedStore) (req : ChangesRequest) :
    List (FeedStore × ℕ) :=
  let start := (reads 0).readHead env.sha256
  let pages : Except RegistryError (List (FeedStore × ℕ)) := do
    let pos ← startPosition env.sha256 start (reads 1) req.since
    let base ← baseQuery env req pos
    let body ← env.responseLen { changes := [], nextCursor := headCursor start, hasMore := false }
    return refillPages env base req.limit req.since.checkExpiry refillMaxScans (fun k => reads (k + 2))
      { pos, body, head := start.head, headFp := start.headFp }
  pages.toOption.getD []

/-! ## One round -/

variable {q : FeedQuery} {s s₁ s' : Scan} {f : FeedHistory} {pages : List (FeedStore × ℕ)}
  {served served' : List FeedRow}

/-- Between two states of the scan the rows `served` were collected, which are all the wanted ones of `f`
    there, but for those that some page did not find any more and that were not reached yet. -/
structure Collected (env : ChangesEnv) (q : FeedQuery) (f : FeedHistory) (pages : List (FeedStore × ℕ))
    (s s' : Scan) (served : List FeedRow) : Prop where
  le : s.pos ≤ s'.pos
  entries : ∃ new, s'.changes = s.changes ++ new ∧ env.Entries served new
  ascending : Ascending FeedRow.seq served
  bounds : ∀ a ∈ served, s.pos < a.seq ∧ a.seq ≤ s'.pos
  rows : ∀ row ∈ f.log, env.wanted q row = true → s.pos < row.seq → row.seq ≤ s'.pos →
    row ∈ served ∨ ∃ page ∈ pages, page.2 < row.seq ∧ row ∉ page.1.rows ∧
      ∀ a ∈ served, a.seq ≤ row.seq → a.seq ≤ page.2

theorem Round.collected {f' : FeedHistory} (hf : f.Extends f') (h : Round env q f'.store s s') :
    Collected env q f [(f'.store, s.pos)] s s'
      ((window FeedRow.seq (f'.store.rows.filter q.matches) s.pos s'.pos).filter env.visibleRow) := by
  have hmem : ∀ {a}, a ∈ (window FeedRow.seq (f'.store.rows.filter q.matches) s.pos s'.pos).filter
      env.visibleRow ↔ a ∈ f'.store.rows ∧ env.wanted q a = true ∧ s.pos < a.seq ∧ a.seq ≤ s'.pos := by
    intro a
    simp only [List.mem_filter, mem_window, ChangesEnv.wanted, Bool.and_eq_true]
    tauto
  refine ⟨h.le, h.entries, ((f'.store.ascending.filter _).filter _).filter _,
    fun a ha => (hmem.1 ha).2.2, fun row hrow hwanted hlt hle => ?_⟩
  by_cases hstored : row ∈ f'.store.rows
  · exact .inl (hmem.2 ⟨hstored, hwanted, hlt, hle⟩)
  · refine .inr ⟨_, List.mem_singleton_self _, hlt, hstored, fun a ha hale => ?_⟩
    -- rows are deleted from the oldest on, so a row after one that is there is there
    obtain ⟨-, later, hlog, -⟩ := hf
    refine absurd ?_ hstored
    rw [f'.stored, hlog]
    refine List.mem_filter.2 ⟨List.mem_append_left _ hrow, decide_eq_true ?_⟩
    exact (f'.store.retained a (hmem.1 ha).1).trans_le hale

theorem Collected.trans {pages' : List (FeedStore × ℕ)} (h : Collected env q f pages s s₁ served)
    (hpages : ∀ page ∈ pages', s₁.pos ≤ page.2) (h' : Collected env q f pages' s₁ s' served') :
    Collected env q f (pages ++ pages') s s' (served ++ served') := by
  obtain ⟨new, hch, hen⟩ := h.entries
  obtain ⟨new', hch', hen'⟩ := h'.entries
  refine ⟨h.le.trans h'.le, ⟨new ++ new', by rw [hch', hch, List.append_assoc], hen.append hen'⟩,
    h.ascending.append h'.ascending fun a ha b hb => ?_, fun a ha => ?_, fun row hrow hw hlt hle => ?_⟩
  · exact (h.bounds a ha).2.trans_lt (h'.bounds b hb).1
  · rcases List.mem_append.1 ha with ha | ha
    · exact ⟨(h.bounds a ha).1, (h.bounds a ha).2.trans h'.le⟩
    · exact ⟨h.le.trans_lt (h'.bounds a ha).1, (h'.bounds a ha).2⟩
  · by_cases hmid : row.seq ≤ s₁.pos
    · refine (h.rows row hrow hw hlt hmid).imp (List.mem_append_left _) ?_
      rintro ⟨page, hpage, hbefore, hgone, hpast⟩
      refine ⟨page, List.mem_append_left _ hpage, hbefore, hgone, fun a ha hale => ?_⟩
      rcases List.mem_append.1 ha with ha | ha
      · exact hpast a ha hale
      · exact absurd (h'.bounds a ha).1 (not_lt.2 (hale.trans hmid))
    · refine (h'.rows row hrow hw (not_le.1 hmid) hle).imp (List.mem_append_right _) ?_
      rintro ⟨page, hpage, hbefore, hgone, hpast⟩
      refine ⟨page, List.mem_append_right _ hpage, hbefore, hgone, fun a ha hale => ?_⟩
      rcases List.mem_append.1 ha with ha | ha
      · exact (h.bounds a ha).2.trans (hpages page hpage)
      · exact hpast a ha hale

/-! ## The whole loop -/

variable {base : FeedQuery} {target : ℕ} {checkExpiry : Bool}

/-- **The loop collects every wanted row that is still there when it gets to it.** -/
theorem refill_collects {H : ℕ → FeedHistory} (hH : ∀ i j, i ≤ j → (H i).Extends (H j))
    (hf : ∀ k, f.Extends (H k)) {n : ℕ}
    (h : refill env base target checkExpiry n (fun k => (H k).store) s = .ok s')
    (hpos : s.pos ≤ s.head) (hhead : s.head ≤ (H 0).store.head) :
    (∀ page ∈ refillPages env base target checkExpiry n (fun k => (H k).store) s, s.pos ≤ page.2) ∧
      ∃ served, Collected env base f
        (refillPages env base target checkExpiry n (fun k => (H k).store) s) s s' served := by
  induction n generalizing H s with
  | zero =>
    cases h
    exact ⟨by simp [refillPages], [], le_rfl, ⟨[], by simp, rfl⟩, Ascending.nil, by simp,
      fun _ _ _ hlt hle => absurd hlt (not_lt.2 hle)⟩
  | succ n ih =>
    obtain ⟨⟨s₁, finished⟩, hround, h⟩ := except_bind_ok.1 h
    have hmoved := (scanPage_round hround (hpos.trans hhead) hhead).1
    have hcollected := hmoved.collected (hf 0)
    simp only [refillPages, hround]
    cases finished with
    | true =>
      cases h
      exact ⟨by simp, _, hcollected⟩
    | false =>
      obtain ⟨hpages, served, hrest⟩ := ih (H := fun k => H (k + 1))
        (fun i j hij => hH _ _ (Nat.succ_le_succ hij)) (fun k => hf _) h hmoved.le_head
        (hmoved.head ▸ (hH 0 1 (Nat.zero_le _)).1)
      refine ⟨fun page hpage => ?_, _, hcollected.trans hpages hrest⟩
      rcases List.mem_cons.1 hpage with rfl | hpage
      · exact le_rfl
      · exact hmoved.le.trans (hpages page hpage)

/-! ## The request -/

theorem changesPages_eq {reads : ℕ → FeedStore} {req : ChangesRequest} {pos body : ℕ}
    (hpos : startPosition env.sha256 ((reads 0).readHead env.sha256) (reads 1) req.since = .ok pos)
    (hbase : baseQuery env req pos = .ok base)
    (hbody : env.responseLen { changes := [], nextCursor := headCursor ((reads 0).readHead env.sha256),
                               hasMore := false } = .ok body) :
    changesPages env reads req =
      refillPages env base req.limit req.since.checkExpiry refillMaxScans (fun k => reads (k + 2))
        { pos, body, head := ((reads 0).readHead env.sha256).head,
          headFp := ((reads 0).readHead env.sha256).headFp } := by
  simp only [changesPages, hpos, hbase, hbody, bind, Except.bind, pure, Except.pure, Except.toOption,
    Option.getD_some]

/-- **What a first read can miss.**  A request without `since` answers with every owed row that was
    retained when it began and lies between a served entry `a` and its `next_cursor`, but for a row that
    a prune between two of its pages deleted: when the position had passed `a` and not reached the row. -/
theorem first_read_has_no_gap (T : Trace (FeedHistory.Step env.sha256)) (reads : ℕ → ℕ)
    (hreads : Monotone reads) (limit : ℕ) (filter : WatchFilter) (resp : ChangesResponse) (scanned : ℕ)
    (h : evaluateChanges env (fun k => (T.state (reads k)).store) ⟨.oldest, limit, filter⟩ =
      .ok (resp, scanned)) :
    ∃ served, env.Entries served resp.changes ∧ Ascending FeedRow.seq served ∧
      ∀ a ∈ served, ∀ row ∈ (T.state (reads 0)).store.rows, env.owed filter row = true →
        a.seq ≤ row.seq → row.seq ≤ resp.nextCursor.pos →
        row ∈ served ∨ ∃ page ∈ changesPages env (fun k => (T.state (reads k)).store)
            ⟨.oldest, limit, filter⟩,
          a.seq ≤ page.2 ∧ page.2 < row.seq ∧ row ∉ page.1.rows := by
  obtain ⟨s, ⟨pos, base, body, hstart, hbase, hbody, hrefill⟩, rfl⟩ :=
    evaluateChanges_cases (by simp) h
  rw [changesPages_eq hstart hbase hbody]
  cases hstart
  have hH : ∀ i j, i ≤ j → (T.state (reads i)).Extends (T.state (reads j)) :=
    fun i j hij => FeedHistory.trace_extends T (hreads hij)
  set f := T.state (reads 0) with hf
  have hpos : (f.store.readHead env.sha256).prunedThrough ≤ (f.store.readHead env.sha256).head := by
    rw [f.store.readHead_head]
    exact f.store.prunedThrough_le_head
  have hhead : (f.store.readHead env.sha256).head ≤ (T.state (reads 2)).store.head := by
    rw [f.store.readHead_head]
    exact (hH 0 2 (by omega)).1
  obtain ⟨-, served, hserved⟩ := refill_collects (H := fun k => T.state (reads (k + 2)))
    (fun i j hij => hH _ _ (by omega)) (fun k => hH 0 _ (Nat.zero_le _)) hrefill hpos hhead
  obtain ⟨new, hch, hen⟩ := hserved.entries
  refine ⟨served, ?_, hserved.ascending, fun a ha row hrow howed hle hlast => ?_⟩
  · simp only [Scan.response, hch, List.nil_append]
    exact hen
  · rw [f.stored] at hrow
    rw [← baseQuery_wanted hbase] at howed
    refine (hserved.rows row (List.mem_of_mem_filter hrow) howed
      ((hserved.bounds a ha).1.trans_le hle) hlast).imp_right ?_
    rintro ⟨page, hpage, hbefore, hgone, hpast⟩
    exact ⟨page, hpage, hpast a ha hle, hbefore, hgone⟩

/-! ## A prune between two pages -/

def partialView : ChangesEnv := { sampleEnv with visible := fun id => id != "hidden" }

def fourRows : FeedHistory :=
  let row (successor : String) : FeedAppend :=
    ⟨.superseded, "c1", "l1", "a1", some successor, none, .null, "", ""⟩
  (((FeedHistory.empty.append 0 (row "c2") 1).append 0 (row "hidden") 2).append 0 (row "c3") 3).append 0
    (row "c4") 4

def pruneOnce (batch t : ℕ) : FeedHistory :=
  if t = 0 then fourRows else fourRows.prune partialView.sha256 4 batch

theorem pruneOnce_next (batch t : ℕ) :
    Relation.ReflTransGen (FeedHistory.Step partialView.sha256) (pruneOnce batch t)
      (pruneOnce batch (t + 1)) := by
  cases t with
  | zero => exact .single (.prune _ _ _)
  | succ t => exact .refl

/-- A request reads its head and its first page before the prune, and its other pages after it. -/
def aroundPrune (k : ℕ) : ℕ := if k ≤ 2 then 0 else 1

theorem aroundPrune_monotone : Monotone aroundPrune := by
  intro i j hij
  unfold aroundPrune
  split <;> split <;> omega

def readAroundPrune (batch : ℕ) : Except RegistryError (ChangesResponse × ℕ) :=
  evaluateChanges partialView (fun k => (pruneOnce batch (aroundPrune k)).store) ⟨.oldest, 2, {}⟩

/-- A prune of the two rows that the first page has consumed: no page misses the others. -/
theorem first_read_has_no_gap_sample :
    ∃ resp scanned, readAroundPrune 2 = .ok (resp, scanned) ∧ resp.changes.map (·.seq) = [1, 3] ∧
      ∃ served, partialView.Entries served resp.changes ∧ Ascending FeedRow.seq served ∧
        ∀ a ∈ served, ∀ row ∈ fourRows.store.rows, partialView.owed {} row = true →
          a.seq ≤ row.seq → row.seq ≤ resp.nextCursor.pos → row ∈ served ∨
            ∃ page ∈ changesPages partialView (fun k => (pruneOnce 2 (aroundPrune k)).store)
              ⟨.oldest, 2, {}⟩, a.seq ≤ page.2 ∧ page.2 < row.seq ∧ row ∉ page.1.rows := by
  have hseq : ((readAroundPrune 2).toOption.map fun r => r.1.changes.map (·.seq)) = some [1, 3] := by
    decide
  cases h : readAroundPrune 2 with
  | error e =>
    rw [h] at hseq
    cases hseq
  | ok r =>
    obtain ⟨resp, scanned⟩ := r
    rw [h] at hseq
    have hgap := first_read_has_no_gap ⟨pruneOnce 2, pruneOnce_next 2⟩ aroundPrune
      aroundPrune_monotone 2 {} resp scanned h
    exact ⟨resp, scanned, rfl, Option.some.inj hseq, hgap⟩

/-- **A prune that overtakes the position opens a gap.**  The response has the entries 1 and 4; row 3
    is owed and was retained when the request began. -/
theorem prune_opens_gap :
    Monotone aroundPrune ∧
    (∀ t, Relation.ReflTransGen (FeedHistory.Step partialView.sha256) (pruneOnce 3 t)
      (pruneOnce 3 (t + 1))) ∧
    ((readAroundPrune 3).toOption.map fun r => (r.1.changes.map (·.seq), r.1.nextCursor.pos)) =
      some ([1, 4], 4) ∧
    ∃ row ∈ (pruneOnce 3 (aroundPrune 0)).store.rows, partialView.owed {} row = true ∧
      (row.toChange partialView.api).toOption.map (·.seq) = some 3 :=
  ⟨aroundPrune_monotone, pruneOnce_next 3, by decide, by decide⟩

end AcdpRegistry
