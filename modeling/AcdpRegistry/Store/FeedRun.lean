/-
  Runs of a feed backend.

  A backend is a transition system whose steps are labelled with the appends that
  were asked of it; a run keeps the list of them.  `FeedBackend.Refines` is the link
  to the abstract feed: every step of the backend is a number of appends and prunes
  of a `FeedHistory`, with a row for each append that was asked for.  What holds of
  every abstract history then holds of every run of the backend (`FeedRun.sound`).
-/
import AcdpRegistry.Store.FeedHistory

namespace AcdpRegistry

open Lib Relation

variable {sha256 : Sha256}

/-! ## The marker and the fingerprints of a history -/

variable {f : FeedHistory}

namespace FeedHistory

/-- Positions start at 1, and the marker is at a row that was appended, with that row's fingerprint. -/
structure Stamped (sha256 : Sha256) (f : FeedHistory) : Prop where
  positive : ∀ r ∈ f.log, 0 < r.seq
  marker : f.store.prunedThrough = 0 ∧ f.store.prunedThroughFp = none ∨
    ∃ r ∈ f.log, r.seq = f.store.prunedThrough ∧
      f.store.prunedThroughFp = some (r.fingerprint sha256)

theorem stamped_empty : FeedHistory.empty.Stamped sha256 :=
  ⟨fun _ h => absurd h List.not_mem_nil, .inl ⟨rfl, rfl⟩⟩

variable {f' : FeedHistory}

/-- **One step keeps the marker on a row.** -/
theorem Stamped.step (h : f.Stamped sha256) (hs : Step sha256 f f') : f'.Stamped sha256 := by
  cases hs with
  | append gap a nowMs =>
    constructor
    · intro r hr
      rcases List.mem_append.1 hr with hr | hr
      · exact h.positive r hr
      · simp only [List.mem_singleton] at hr
        subst hr
        simp only [FeedStore.nextRow]
        omega
    · refine h.marker.imp id ?_
      rintro ⟨r, hr, hseq, hfp⟩
      exact ⟨r, List.mem_append_left _ hr, hseq, hfp⟩
  | prune olderThanMs batch =>
    refine ⟨h.positive, ?_⟩
    rcases prune_cases sha256 f.store olderThanMs batch with hsame | ⟨last, hmem, hp, hfp, -⟩
    · simp only [prune, hsame]
      exact h.marker
    · right
      rw [f.stored] at hmem
      exact ⟨last, List.mem_of_mem_filter hmem, hp.symm, hfp⟩

theorem Stamped.head (h : f.Stamped sha256) :
    f.log = [] ∧ f.store.head = 0 ∧ (f.store.readHead sha256).headFp = some feedOriginFp ∨
      ∃ r ∈ f.log, r.seq = f.store.head ∧
        (f.store.readHead sha256).headFp = some (r.fingerprint sha256) := by
  have hsub : ∀ r ∈ f.store.rows, r ∈ f.log := fun r hr => by
    rw [f.stored] at hr
    exact List.mem_of_mem_filter hr
  cases hl : f.store.rows.getLast? with
  | some top =>
    right
    have hmem := List.mem_of_getLast? hl
    refine ⟨top, hsub top hmem, ?_, ?_⟩
    · simp [FeedStore.head, hl]
    · simp [FeedStore.readHead, FeedHead.fromSnapshot, hl, f.store.retained top hmem]
  | none =>
    have hhead : f.store.head = f.store.prunedThrough := by simp [FeedStore.head, hl]
    rcases h.marker with ⟨hzero, -⟩ | ⟨r, hr, hseq, hfp⟩
    · left
      refine ⟨List.eq_nil_iff_forall_not_mem.2 fun r hr => ?_, by omega, ?_⟩
      · have := h.positive r hr
        have := f.logged r hr
        omega
      · simp [FeedStore.readHead, FeedHead.fromSnapshot, hl, hzero]
    · right
      have hpos := h.positive r hr
      refine ⟨r, hr, by omega, ?_⟩
      have hne : f.store.prunedThrough ≠ 0 := by omega
      simp [FeedStore.readHead, FeedHead.fromSnapshot, hl, hne, hfp]

theorem prunedThrough_step (h : Step sha256 f f') :
    f.store.prunedThrough ≤ f'.store.prunedThrough := by
  cases h with
  | append gap a nowMs => exact le_rfl
  | prune olderThanMs batch =>
    rcases prune_cases sha256 f.store olderThanMs batch with hsame | ⟨last, hmem, hp, -⟩
    · simp only [prune, hsame, le_refl]
    · simp only [prune, hp]
      exact (f.store.retained last hmem).le

theorem prunedThrough_steps (h : ReflTransGen (Step sha256) f f') :
    f.store.prunedThrough ≤ f'.store.prunedThrough := by
  induction h with
  | refl => exact le_rfl
  | tail _ hstep ih => exact ih.trans (prunedThrough_step hstep)

theorem extends_steps (h : ReflTransGen (Step sha256) f f') : f.Extends f' := by
  induction h with
  | refl => exact .refl f
  | tail _ hstep ih => exact Extends.trans _ _ _ ih (step_extends sha256 hstep)

theorem append_row (f : FeedHistory) (row : FeedRow) (h : f.store.head < row.seq) :
    f.store.nextRow (row.seq - f.store.head - 1) row.toFeedAppend row.appendedAtMs = row := by
  have hseq : f.store.head + 1 + (row.seq - f.store.head - 1) = row.seq := by omega
  simp only [FeedStore.nextRow, hseq]

/-- **Rows past the head, in ascending order, are a number of appends.** -/
theorem append_rows (f : FeedHistory) (rows : List FeedRow) (hasc : Ascending FeedRow.seq rows)
    (hhead : ∀ r ∈ rows, f.store.head < r.seq) :
    ∃ f', ReflTransGen (Step sha256) f f' ∧ f'.log = f.log ++ rows ∧
      f'.store.rows = f.store.rows ++ rows ∧ f'.store.prunedThrough = f.store.prunedThrough ∧
      f'.store.prunedThroughFp = f.store.prunedThroughFp ∧
      f'.store.head = (rows.getLast?.map (·.seq)).getD f.store.head := by
  induction rows generalizing f with
  | nil => exact ⟨f, .refl, by simp, by simp, rfl, rfl, rfl⟩
  | cons row rows ih =>
    obtain ⟨hrow, hasc⟩ := List.pairwise_cons.1 hasc
    have hnext := f.append_row row (hhead row List.mem_cons_self)
    set f₁ := f.append (row.seq - f.store.head - 1) row.toFeedAppend row.appendedAtMs with hf₁
    have hhead₁ : f₁.store.head = row.seq := by
      have := hhead row List.mem_cons_self
      rw [hf₁, FeedHistory.append, head_append]
      omega
    have hlog₁ : f₁.log = f.log ++ [row] := by
      rw [← hnext]
      rfl
    have hrows₁ : f₁.store.rows = f.store.rows ++ [row] := by
      rw [← hnext]
      rfl
    obtain ⟨f', hsteps, hlog, hrows, hp, hfp, hlast⟩ := ih f₁ hasc fun r hr => by
      rw [hhead₁]
      exact hrow r hr
    refine ⟨f', .head (.append f _ _ _) hsteps, ?_, ?_, hp, hfp, ?_⟩
    · rw [hlog, hlog₁, List.append_assoc, List.singleton_append]
    · rw [hrows, hrows₁, List.append_assoc, List.singleton_append]
    · rw [hlast, hhead₁]
      cases h : rows.getLast? <;> simp [List.getLast?_cons, h]

end FeedHistory

/-! ## Backends and their runs -/

/-- What was asked of the feed for this row: the append, at a reading of the clock. -/
def FeedRow.request (r : FeedRow) : FeedAppend × ℤ := (r.toFeedAppend, r.appendedAtMs)

theorem FeedHistory.requests_append (f : FeedHistory) (gap : ℕ) (a : FeedAppend) (nowMs : ℤ) :
    (f.append gap a nowMs).log.map FeedRow.request = f.log.map FeedRow.request ++ [(a, nowMs)] := by
  simp [FeedHistory.append, FeedStore.nextRow, FeedRow.request]

/-- A feed backend: its steps, with the appends each of them was asked for, and what a reader sees. -/
structure FeedBackend where
  State : Type
  init : State
  step : State → List (FeedAppend × ℤ) → State → Prop
  rows : State → List FeedRow
  head : State → FeedHead

/-- A run: moment by moment a step of the backend, or nothing. -/
structure FeedRun (b : FeedBackend) where
  state : ℕ → b.State
  appended : ℕ → List (FeedAppend × ℤ)
  start : state 0 = b.init
  next : ∀ n, b.step (state n) (appended n) (state (n + 1)) ∨
    (state (n + 1) = state n ∧ appended n = [])

namespace FeedRun

variable {b : FeedBackend} (run : FeedRun b)

/-- The appends that were asked for before the moment. -/
def requests (n : ℕ) : List (FeedAppend × ℤ) := (List.range n).flatMap run.appended

theorem requests_succ (n : ℕ) : run.requests (n + 1) = run.requests n ++ run.appended n := by
  simp [requests, List.range_succ]

def head (n : ℕ) : FeedHead := b.head (run.state n)

def rows (n : ℕ) : List FeedRow := b.rows (run.state n)

/-- **The feed store invariant**, over a whole run in which the rows of `log` were appended. -/
structure Sound (sha256 : Sha256) (log : ℕ → List FeedRow) : Prop where
  /-- There is a row for each append that was asked for, with what was asked for. -/
  appended : ∀ n, (log n).map FeedRow.request = run.requests n
  /-- A row is never changed. -/
  kept : ∀ n m, n ≤ m → log n <+: log m
  /-- The stored rows are the appended ones past the marker. -/
  stored : ∀ n, run.rows n = (log n).filter fun r => decide ((run.head n).prunedThrough < r.seq)
  prunedThrough_mono : Monotone fun n => (run.head n).prunedThrough
  prunedThrough_le_head : ∀ n, (run.head n).prunedThrough ≤ (run.head n).head
  head_mono : Monotone fun n => (run.head n).head
  /-- No position is used twice. -/
  unique : ∀ n, ((log n).map (·.seq)).Nodup
  /-- What is gone is below what is left. -/
  oldest_first : ∀ n, ∀ gone ∈ log n, gone ∉ run.rows n → ∀ left ∈ run.rows n, gone.seq < left.seq
  headFp : ∀ n, log n = [] ∧ (run.head n).head = 0 ∧ (run.head n).headFp = some feedOriginFp ∨
    ∃ r ∈ log n, r.seq = (run.head n).head ∧ (run.head n).headFp = some (r.fingerprint sha256)
  prunedThroughFp : ∀ n, (run.head n).prunedThrough = 0 ∧ (run.head n).prunedThroughFp = none ∨
    ∃ r ∈ log n, r.seq = (run.head n).prunedThrough ∧
      (run.head n).prunedThroughFp = some (r.fingerprint sha256)

end FeedRun

/-! ## Refinement -/

/-- Every step of the backend is a number of appends and prunes of an abstract history that shows the
    same rows and markers; it appends what the step was asked for. -/
structure FeedBackend.Refines (b : FeedBackend) (sha256 : Sha256)
    (R : b.State → FeedHistory → Prop) : Prop where
  init : R b.init .empty
  step : ∀ s f appends s', R s f → b.step s appends s' →
    ∃ f', ReflTransGen (FeedHistory.Step sha256) f f' ∧
      f'.log.map FeedRow.request = f.log.map FeedRow.request ++ appends ∧ R s' f'
  rows : ∀ s f, R s f → b.rows s = f.store.rows
  head : ∀ s f, R s f → b.head s = f.store.readHead sha256

namespace FeedRun

variable {b : FeedBackend} {R : b.State → FeedHistory → Prop} (run : FeedRun b)

/-- **A run is seen as a trace of the abstract feed.** -/
theorem exists_trace (h : b.Refines sha256 R) : ∃ T : Trace (FeedHistory.Step sha256),
    T.state 0 = .empty ∧ ∀ n, (T.state n).log.map FeedRow.request = run.requests n ∧
      run.rows n = (T.state n).store.rows ∧ run.head n = (T.state n).store.readHead sha256 := by
  have hnext : ∀ n (f : { f // f.log.map FeedRow.request = run.requests n ∧ R (run.state n) f }),
      ∃ f' : { f // f.log.map FeedRow.request = run.requests (n + 1) ∧ R (run.state (n + 1)) f },
        ReflTransGen (FeedHistory.Step sha256) f.1 f'.1 := by
    rintro n ⟨f, hlog, hR⟩
    rcases run.next n with hstep | ⟨hsame, hnone⟩
    · obtain ⟨f', hsteps, hlog', hR'⟩ := h.step _ _ _ _ hR hstep
      exact ⟨⟨f', by rw [hlog', hlog, run.requests_succ], hR'⟩, hsteps⟩
    · exact ⟨⟨f, by rw [hlog, run.requests_succ, hnone, List.append_nil], by rw [hsame]; exact hR⟩, .refl⟩
  choose next hsteps using hnext
  let H (n : ℕ) : { f // f.log.map FeedRow.request = run.requests n ∧ R (run.state n) f } :=
    n.rec ⟨.empty, rfl, by rw [run.start]; exact h.init⟩ next
  refine ⟨⟨fun n => (H n).1, fun n => hsteps n (H n)⟩, rfl, fun n => ?_⟩
  obtain ⟨hlog, hR⟩ := (H n).2
  exact ⟨hlog, h.rows _ _ hR, h.head _ _ hR⟩

/-- **A backend that refines the abstract feed keeps the feed store invariant.** -/
theorem sound (h : b.Refines sha256 R) : ∃ log, run.Sound sha256 log := by
  obtain ⟨T, hempty, hT⟩ := run.exists_trace h
  have hhead : ∀ n, run.head n = (T.state n).store.readHead sha256 := fun n => (hT n).2.2
  have hstamped : ∀ n, (T.state n).Stamped sha256 := by
    intro n
    refine T.keeps (fun _ _ hs hf => hf.step hs) (Nat.zero_le n) ?_
    rw [hempty]
    exact FeedHistory.stamped_empty
  have hstored : ∀ n, run.rows n =
      (T.state n).log.filter fun r => decide ((run.head n).prunedThrough < r.seq) := by
    intro n
    rw [(hT n).2.1, hhead]
    exact (T.state n).stored
  refine ⟨fun n => (T.state n).log, fun n => (hT n).1, fun n m hnm => ?_, hstored, fun n m hnm => ?_,
    fun n => ?_, fun n m hnm => ?_, fun n => ?_, fun n gone hgone hout left hleft => ?_, fun n => ?_,
    fun n => ?_⟩
  · obtain ⟨-, new, hnew, -⟩ := FeedHistory.extends_steps (T.reach hnm)
    exact ⟨new, hnew.symm⟩
  · simp only [hhead]
    exact FeedHistory.prunedThrough_steps (T.reach hnm)
  · rw [hhead, FeedStore.readHead_head]
    exact (T.state n).store.prunedThrough_le_head
  · simp only [hhead, FeedStore.readHead_head]
    exact (FeedHistory.extends_steps (T.reach hnm)).1
  · exact (List.pairwise_map.2 (T.state n).ascending).imp Nat.ne_of_lt
  · rw [hstored] at hout hleft
    simp only [List.mem_filter, decide_eq_true_eq, not_and, not_lt] at hout hleft
    exact (hout hgone).trans_lt hleft.2
  · rw [hhead, FeedStore.readHead_head]
    exact (hstamped n).head
  · rw [hhead]
    exact (hstamped n).marker

theorem stored_at_head (h : b.Refines sha256 R) {n m : ℕ} (hnm : n ≤ m) {r : FeedRow}
    (hr : r ∈ run.rows m) (hle : r.seq ≤ (run.head n).head) : r ∈ run.rows n := by
  obtain ⟨T, -, hT⟩ := run.exists_trace h
  rw [(hT m).2.1, (T.state m).stored] at hr
  rw [(hT n).2.2, FeedStore.readHead_head] at hle
  rw [(hT n).2.1, (T.state n).stored]
  obtain ⟨hr, hpruned⟩ := List.mem_filter.1 hr
  obtain ⟨-, new, hnew, habove⟩ := FeedHistory.extends_steps (T.reach hnm)
  refine List.mem_filter.2 ⟨?_, ?_⟩
  · rw [hnew] at hr
    -- A row that was appended in between is past the head.
    refine (List.mem_append.1 hr).resolve_right fun hin => ?_
    exact absurd hle (not_le.2 (habove r hin))
  · have := FeedHistory.prunedThrough_steps (T.reach hnm)
    simp only [decide_eq_true_eq] at hpruned ⊢
    omega

end FeedRun

end AcdpRegistry
