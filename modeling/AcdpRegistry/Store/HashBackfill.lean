/-
  The backfill of bucket hashes (`backfill_hashes` of the SQLite crate's `changes.rs`).

  Migration 021 adds the hash columns without values, and `backfill_hashes` fills them,
  a batch of rows in each transaction, until a scan finds no row that lacks one.  Every
  transaction takes the write lock when it begins, so it is one step, and other writers
  append and prune between the steps.  A transaction that fails, or a process that stops
  in the middle of one, leaves the table that the transaction found.

  - `HashBackfill.Move` says what a step of the program does;
  - `HashBackfill.State.need` bounds the steps that are left, and no other writer raises
    it;
  - `HashBackfill.backfill_hashes_correct` is about every table and every sequence of
    steps.
-/
import AcdpRegistry.Store.ChangesTable
import AcdpRegistry.Lib.History

namespace AcdpRegistry

open Lib

/-! ## The program -/

namespace HashBackfill

inductive Op
  | begin
  | scan
  | update (seq : ℕ)
  | commit
  | check
  deriving DecidableEq

def Op.what : Op → String
  | begin => "backfill begin"
  | scan => "backfill scan"
  | update _ => "backfill update"
  | commit => "backfill commit"
  | check => "backfill check"

/-- Which calls fail, and the driver's text. -/
abbrev Driver := Op → Option String

def dbErr (op : Op) (e : String) : AcdpError :=
  let what := op.what
  .registryInternal s!"changes {what}: {e}"

def Driver.call (driver : Driver) (op : Op) : Except AcdpError Unit :=
  (driver op).elim (.ok ()) fun e => .error (dbErr op e)

variable (bucket : String → ℕ → String) (driver : Driver)

def fillRows : List (ℕ × String × String) → ChangesTable → Except AcdpError ChangesTable
  | [], t => .ok t
  | (seq, lineageId, agentId) :: batch, t => do
    driver.call (.update seq)
    if t.rowsAffected seq ≠ 1 then
      throw (.registryInternal s!"changes backfill: row {seq} was not updated")
    fillRows batch (t.update seq (bucketHash bucket lineageId) (bucketHash bucket agentId))

/-- One transaction of the loop, up to its commit. -/
def batchTx (t : ChangesTable) : Except AcdpError ChangesTable := do
  driver.call .begin
  driver.call .scan
  fillRows bucket driver t.backfillScan t

def finalCheck (t : ChangesTable) (filled : ℕ) : Except AcdpError ℕ := do
  driver.call .check
  let missing := t.missing
  if missing ≠ 0 then
    throw (.registryInternal
      s!"changes backfill: {missing} rows still lack bucket hashes after migration 021")
  return filled

/-- What comes next: a transaction of the loop, the check, or nothing. -/
inductive Phase
  | batch (filled : ℕ)
  | check (filled : ℕ)
  | done (result : Except AcdpError ℕ)

structure State where
  table : ChangesTable
  phase : Phase

/-- What happens next.  A commit that fails may have taken place all the same. -/
inductive Event
  | append (nowMs : ℤ) (appends : List FeedAppend)
  | prune (last : ℕ)
  | next (driver : Driver) (committed : Bool)

def Event.isNext : Event → Bool
  | next _ _ => true
  | _ => false

/-- One transaction of the loop and what the loop does then, with the rows that were filled. -/
def batchStep (committed : Bool) (t : ChangesTable) (filled : ℕ) : State × List ChangesRow :=
  match batchTx bucket driver t with
  | .error e => (⟨t, .done (.error e)⟩, [])
  | .ok t' =>
    match driver .commit with
    | some e =>
      if committed then (⟨t', .done (.error (dbErr .commit e))⟩, t.backfillRows)
      else (⟨t, .done (.error (dbErr .commit e))⟩, [])
    | none =>
      if t.backfillScan.isEmpty then (⟨t', .check filled⟩, t.backfillRows)
      else (⟨t', .batch (filled + t.backfillScan.length)⟩, t.backfillRows)

/-- One step, with the rows that `backfill_hashes` filled in it, as its batch read them. -/
def step (s : State) : Event → State × List ChangesRow
  | .append nowMs appends => ({ s with table := appends.foldl (·.insert nowMs) s.table }, [])
  | .prune last => ({ s with table := s.table.deleteThrough last }, [])
  | .next driver committed =>
    match s.phase with
    | .batch filled => batchStep bucket driver committed s.table filled
    | .check filled => (⟨s.table, .done (finalCheck driver s.table filled)⟩, [])
    | .done _ => (s, [])

/-! ## The steps of the program -/

variable {bucket driver} {rows : List ChangesRow} {s s' : State}

theorem call_ok {op : Op} : driver.call op = .ok () ↔ driver op = none := by
  unfold Driver.call
  cases driver op <;> simp

/-- **The updates of a batch fill its rows**: none of them misses its row, and only the driver can fail
    them. -/
theorem fillRows_eq {t : ChangesTable} (hrows : ∀ r ∈ rows, r ∈ t.rows)
    (hnodup : (rows.map (·.seq)).Nodup) :
    fillRows bucket driver (rows.map fun r => (r.seq, r.lineageId, r.agentId)) t =
      rows.forM (fun r => driver.call (.update r.seq)) >>= fun _ => .ok (t.fill bucket rows) := by
  induction rows generalizing t with
  | nil => simp [fillRows, t.fill_nil]
  | cons r rows ih =>
    have hr := hrows r List.mem_cons_self
    obtain ⟨hfresh, hnodup⟩ := List.nodup_cons.1 hnodup
    -- the rows that are left have other keys
    have hkept : ∀ x ∈ rows, x ∈ (t.update r.seq (bucketHash bucket r.lineageId)
        (bucketHash bucket r.agentId)).rows := by
      intro x hx
      refine List.mem_map.2 ⟨x, hrows x (List.mem_cons_of_mem r hx), if_neg fun hseq => hfresh ?_⟩
      exact List.mem_map.2 ⟨x, hx, hseq⟩
    have ih := ih hkept hnodup
    rw [ChangesTable.update_fill hr hfresh] at ih
    simp only [List.map_cons, fillRows, t.rowsAffected_of_mem hr, ne_eq, not_true, if_false, List.forM,
      ih]
    cases driver.call (.update r.seq) with
    | error e => rfl
    | ok u => rfl

theorem batchTx_eq (t : ChangesTable) : batchTx bucket driver t =
    driver.call .begin >>= fun _ => driver.call .scan >>= fun _ =>
      t.backfillRows.forM (fun r => driver.call (.update r.seq)) >>= fun _ =>
        .ok (t.fill bucket t.backfillRows) := by
  rw [batchTx, ChangesTable.backfillScan,
    fillRows_eq (fun r hr => (ChangesTable.mem_backfillRows hr).1) t.nodup_backfillRows]

theorem batchTx_ok {t t' : ChangesTable} (h : batchTx bucket driver t = .ok t') :
    t' = t.fill bucket t.backfillRows := by
  rw [batchTx_eq] at h
  obtain ⟨-, -, h⟩ := except_bind_ok.1 h
  obtain ⟨-, -, h⟩ := except_bind_ok.1 h
  obtain ⟨-, -, h⟩ := except_bind_ok.1 h
  exact (Except.ok.inj h).symm

theorem batchTx_error {t : ChangesTable} {e : AcdpError} (h : batchTx bucket driver t = .error e) :
    ∃ op, driver op ≠ none := by
  by_contra hnone
  push Not at hnone
  have hcall : ∀ op, driver.call op = .ok () := fun op => call_ok.2 (hnone op)
  rw [batchTx_eq, except_forM_ok.2 fun r _ => hcall (.update r.seq), hcall, hcall] at h
  cases h

/-- What a step of the program does. -/
inductive Move (bucket : String → ℕ → String) (driver : Driver) :
    State → State → List ChangesRow → Prop
  | fill {t : ChangesTable} {n : ℕ} (hrows : t.backfillRows ≠ []) :
    Move bucket driver ⟨t, .batch n⟩
      ⟨t.fill bucket t.backfillRows, .batch (n + t.backfillRows.length)⟩ t.backfillRows
  | last {t : ChangesTable} {n : ℕ} (hnone : t.missing = 0) :
    Move bucket driver ⟨t, .batch n⟩ ⟨t, .check n⟩ []
  | checked {t : ChangesTable} {n : ℕ} (hnone : t.missing = 0) :
    Move bucket driver ⟨t, .check n⟩ ⟨t, .done (.ok n)⟩ []
  | refused {t : ChangesTable} {n : ℕ} {e : AcdpError} (hsome : t.missing ≠ 0) :
    Move bucket driver ⟨t, .check n⟩ ⟨t, .done (.error e)⟩ []
  | fail {t : ChangesTable} {p : Phase} {e : AcdpError} {op : Op} (hop : driver op ≠ none) :
    Move bucket driver ⟨t, p⟩ ⟨t, .done (.error e)⟩ []
  | failCommitted {t : ChangesTable} {n : ℕ} {e : AcdpError} {op : Op} (hop : driver op ≠ none) :
    Move bucket driver ⟨t, .batch n⟩ ⟨t.fill bucket t.backfillRows, .done (.error e)⟩ t.backfillRows
  | idle {t : ChangesTable} {r : Except AcdpError ℕ} : Move bucket driver ⟨t, .done r⟩ ⟨t, .done r⟩ []

theorem backfillRows_eq_nil {t : ChangesTable} : t.backfillRows = [] ↔ t.missing = 0 := by
  rw [← List.length_eq_zero_iff, t.length_backfillRows, backfillBatch]
  omega

theorem batchStep_move (committed : Bool) (t : ChangesTable) (n : ℕ) :
    Move bucket driver ⟨t, .batch n⟩ (batchStep bucket driver committed t n).1
      (batchStep bucket driver committed t n).2 := by
  unfold batchStep
  cases htx : batchTx bucket driver t with
  | error e =>
    obtain ⟨op, hop⟩ := batchTx_error htx
    exact .fail hop
  | ok t' =>
    rw [batchTx_ok htx]
    cases hcommit : driver .commit with
    | some e =>
      have hop : driver .commit ≠ none := by simp [hcommit]
      cases committed with
      | false => exact .fail hop
      | true => exact .failCommitted hop
    | none =>
      by_cases hrows : t.backfillRows = []
      · simp only [ChangesTable.backfillScan, hrows, List.map_nil, List.isEmpty_nil, if_true, t.fill_nil]
        exact .last (backfillRows_eq_nil.1 hrows)
      · simp only [ChangesTable.backfillScan, List.isEmpty_iff, List.map_eq_nil_iff, hrows, if_false,
          List.length_map]
        exact .fill hrows

theorem next_move (committed : Bool) (s : State) :
    Move bucket driver s (step bucket s (.next driver committed)).1
      (step bucket s (.next driver committed)).2 := by
  obtain ⟨t, p⟩ := s
  cases p with
  | batch n => exact batchStep_move committed t n
  | check n =>
    show Move bucket driver ⟨t, .check n⟩ ⟨t, .done (finalCheck driver t n)⟩ []
    cases hcheck : driver .check with
    | some e =>
      have herror : finalCheck driver t n = .error (dbErr .check e) := by
        rw [finalCheck, Driver.call, hcheck]
        rfl
      rw [herror]
      exact .fail (by simp [hcheck] : driver .check ≠ none)
    | none =>
      rw [finalCheck, call_ok.2 hcheck]
      by_cases hnone : t.missing = 0
      · simp only [hnone]
        exact .checked hnone
      · simp only [ne_eq, hnone, not_false_eq_true, if_true]
        exact .refused hnone
  | done r => exact .idle

theorem Move.rows_read (h : Move bucket driver s s' rows) :
    rows = [] ∧ s'.table = s.table ∨
      rows = s.table.backfillRows ∧ s'.table = s.table.fill bucket rows := by
  cases h with
  | fill _ => exact .inr ⟨rfl, rfl⟩
  | failCommitted _ => exact .inr ⟨rfl, rfl⟩
  | last _ => exact .inl ⟨rfl, rfl⟩
  | checked _ => exact .inl ⟨rfl, rfl⟩
  | refused _ => exact .inl ⟨rfl, rfl⟩
  | fail _ => exact .inl ⟨rfl, rfl⟩
  | idle => exact .inl ⟨rfl, rfl⟩

theorem Move.becomes (h : Move bucket driver s s' rows) : s.table.Becomes bucket s'.table := by
  rcases h.rows_read with ⟨-, hsame⟩ | ⟨rfl, hfill⟩
  · rw [hsame]
    exact .refl _
  · rw [hfill]
    exact ChangesTable.becomes_fill fun _ hr => ChangesTable.mem_backfillRows hr

theorem Move.rows_mem (h : Move bucket driver s s' rows) :
    (rows.map (·.seq)).Nodup ∧
      ∀ r ∈ rows, r ∈ s.table.backfillRows ∧ r.filled bucket ∈ s'.table.rows := by
  rcases h.rows_read with ⟨rfl, -⟩ | ⟨hread, hfill⟩
  · exact ⟨List.nodup_nil, fun _ h => absurd h List.not_mem_nil⟩
  · rw [hfill]
    refine ⟨hread ▸ s.table.nodup_backfillRows, fun r hr => ⟨hread ▸ hr, ?_⟩⟩
    exact ChangesTable.mem_fill_of_mem hr (ChangesTable.mem_backfillRows (hread ▸ hr)).1

/-- What a step of another writer does. -/
structure Writes (bucket : String → ℕ → String) (s : State) (e : Event) : Prop where
  isNext : e.isNext = false
  becomes : s.table.Becomes bucket (step bucket s e).1.table
  phase : (step bucket s e).1.phase = s.phase
  rows : (step bucket s e).2 = []

/-- **A step is one of another writer or of the program.** -/
theorem step_cases (bucket : String → ℕ → String) (s : State) (e : Event) : Writes bucket s e ∨
    ∃ driver committed, e = .next driver committed ∧
      Move bucket driver s (step bucket s e).1 (step bucket s e).2 := by
  cases e with
  | append nowMs appends =>
    exact .inl ⟨rfl, ChangesTable.becomes_inserts nowMs appends s.table, rfl, rfl⟩
  | prune last => exact .inl ⟨rfl, s.table.becomes_deleteThrough last, rfl, rfl⟩
  | next driver committed => exact .inr ⟨driver, committed, rfl, next_move committed s⟩

theorem step_becomes (s : State) (e : Event) : s.table.Becomes bucket (step bucket s e).1.table := by
  rcases step_cases bucket s e with hwriter | ⟨driver, committed, rfl, hmove⟩
  · exact hwriter.becomes
  · exact hmove.becomes

/-! ### Termination -/

/-- A bound on the steps of the program that are left. -/
def State.need (s : State) : ℕ :=
  match s.phase with
  | .batch _ => (s.table.missing + (backfillBatch - 1)) / backfillBatch + 2
  | .check _ => 1
  | .done _ => 0

theorem State.done_of_need (h : s.need = 0) : ∃ result, s.phase = .done result := by
  unfold need at h
  cases hphase : s.phase with
  | batch n => simp [hphase] at h
  | check n => simp [hphase] at h
  | done result => exact ⟨result, rfl⟩

theorem Writes.need {e : Event} (h : Writes bucket s e) : (step bucket s e).1.need ≤ s.need := by
  have hmissing := h.becomes.missing_le
  unfold State.need
  rw [h.phase]
  cases s.phase with
  | batch n => exact Nat.add_le_add_right (Nat.div_le_div_right (by omega)) 2
  | check n => exact le_rfl
  | done r => exact le_rfl

theorem Move.need (h : Move bucket driver s s' rows) : s'.need ≤ s.need - 1 := by
  cases h with
  | @fill t n hrows =>
    have hmissing := t.missing_fill bucket
    have hlen := t.length_backfillRows
    have hpos : t.missing ≠ 0 := mt backfillRows_eq_nil.2 hrows
    simp only [State.need, hmissing, hlen, backfillBatch]
    omega
  | last _ => simp [State.need]
  | checked _ => simp [State.need]
  | refused _ => simp [State.need]
  | fail _ => simp [State.need]
  | failCommitted _ => simp [State.need]
  | idle => simp [State.need]

theorem need_step (bucket : String → ℕ → String) (s : State) (e : Event) :
    (step bucket s e).1.need ≤ s.need - if e.isNext then 1 else 0 := by
  rcases step_cases bucket s e with hwriter | ⟨driver, committed, rfl, hmove⟩
  · rw [hwriter.isNext]
    exact hwriter.need
  · exact hmove.need

/-! ### Rows that are filled -/

/-- The row lacked a hash, and wherever its key is in the table, it has the hashes of its own ids. -/
structure Filled (bucket : String → ℕ → String) (t : ChangesTable) (row : ChangesRow) : Prop where
  lacked : row.Lacks
  sequenced : row.seq ≤ t.sqliteSequence
  eq_filled : ∀ r ∈ t.rows, r.seq = row.seq → r = row.filled bucket

theorem Filled.becomes {t t' : ChangesTable} {row : ChangesRow} (h : Filled bucket t row)
    (ht : t.Becomes bucket t') : Filled bucket t' row := by
  refine ⟨h.lacked, h.sequenced.trans ht.sequence, fun r' hr' hseq => ?_⟩
  have hrow := h.sequenced
  rcases ht.rows r' hr' with ⟨hnew, -⟩ | ⟨r, hr, hsame⟩
  · omega
  · rcases hsame with rfl | ⟨hlacks, rfl⟩
    · exact h.eq_filled r' hr hseq
    · rw [h.eq_filled r hr hseq] at hlacks
      exact absurd hlacks (row.not_lacks_filled bucket)

theorem Move.filled (h : Move bucket driver s s' rows) :
    ∀ row ∈ rows, Filled bucket s'.table row := by
  intro row hrow
  obtain ⟨hread, hfilled⟩ := h.rows_mem.2 row hrow
  obtain ⟨hmem, hlacks⟩ := ChangesTable.mem_backfillRows hread
  refine ⟨hlacks, (s.table.sequenced row hmem).trans h.becomes.sequence, ?_⟩
  exact fun r hr hseq => s'.table.eq_of_seq hr hfilled hseq

/-- The counter of the program, beside the number of rows that were filled and of those that are missing
    a hash. -/
def Phase.Counts (filled missing : ℕ) : Phase → Prop
  | .batch n => n = filled
  | .check n => n = filled ∧ missing = 0
  | .done (.ok n) => n = filled ∧ missing = 0
  | .done (.error _) => True

theorem Phase.Counts.mono {p : Phase} {filled missing missing' : ℕ} (h : p.Counts filled missing)
    (hle : missing' ≤ missing) : p.Counts filled missing' := by
  cases p with
  | batch n => exact h
  | check n => exact ⟨h.1, by have := h.2; omega⟩
  | done r =>
    cases r with
    | error e => trivial
    | ok n => exact ⟨h.1, by have := h.2; omega⟩

theorem Move.counts {filled : ℕ} (h : Move bucket driver s s' rows)
    (hs : s.phase.Counts filled s.table.missing) :
    s'.phase.Counts (filled + rows.length) s'.table.missing := by
  cases h with
  | @fill t n _ => exact congrArg (· + t.backfillRows.length) (hs : n = filled)
  | last hnone => exact ⟨hs, hnone⟩
  | checked hnone => exact ⟨hs.1, hnone⟩
  | refused _ => trivial
  | fail _ => trivial
  | failCommitted _ => trivial
  | idle => exact hs

theorem Move.not_error {filled : ℕ} {e : AcdpError} (h : Move bucket driver s s' rows)
    (hdriver : ∀ op, driver op = none) (hcounts : s.phase.Counts filled s.table.missing)
    (hs : s.phase ≠ .done (.error e)) : s'.phase ≠ .done (.error e) := by
  cases h with
  | fill _ => exact fun h => by cases h
  | last _ => exact fun h => by cases h
  | checked _ => exact fun h => by cases h
  | refused hsome => exact absurd hcounts.2 hsome
  | fail hop => exact absurd (hdriver _) hop
  | failCommitted hop => exact absurd (hdriver _) hop
  | idle => exact hs

/-- What holds in every state of a run, beside the rows that were filled so far. -/
structure Inv (bucket : String → ℕ → String) (s : State) (filled : List ChangesRow) : Prop where
  hashed : ∀ row ∈ filled, Filled bucket s.table row
  distinct : (filled.map (·.seq)).Nodup
  counts : s.phase.Counts filled.length s.table.missing

theorem inv_start (t : ChangesTable) : Inv bucket ⟨t, .batch 0⟩ [] :=
  ⟨fun _ h => absurd h List.not_mem_nil, List.nodup_nil, rfl⟩

theorem Inv.move {filled : List ChangesRow} (hs : Inv bucket s filled)
    (h : Move bucket driver s s' rows) : Inv bucket s' (filled ++ rows) := by
  obtain ⟨hnodup, hread⟩ := h.rows_mem
  refine ⟨fun row hrow => ?_, ?_, ?_⟩
  · rcases List.mem_append.1 hrow with hold | hnew
    · exact (hs.hashed row hold).becomes h.becomes
    · exact h.filled row hnew
  · rw [List.map_append, List.nodup_append]
    refine ⟨hs.distinct, hnodup, ?_⟩
    -- a row that was filled before lacks no hash, so no scan reads its key again
    rintro seq hold seq' hnew rfl
    obtain ⟨row, hrow, rfl⟩ := List.mem_map.1 hold
    obtain ⟨r, hr, hseq⟩ := List.mem_map.1 hnew
    obtain ⟨hr, hlacks⟩ := ChangesTable.mem_backfillRows (hread r hr).1
    rw [(hs.hashed row hrow).eq_filled r hr hseq] at hlacks
    exact row.not_lacks_filled bucket hlacks
  · rw [List.length_append]
    exact h.counts hs.counts

theorem Inv.step {filled : List ChangesRow} (hs : Inv bucket s filled) (e : Event) :
    Inv bucket (step bucket s e).1 (filled ++ (step bucket s e).2) := by
  rcases step_cases bucket s e with hwriter | ⟨driver, committed, rfl, hmove⟩
  · rw [hwriter.rows, List.append_nil]
    refine ⟨fun row hrow => (hs.hashed row hrow).becomes hwriter.becomes, hs.distinct, ?_⟩
    rw [hwriter.phase]
    exact hs.counts.mono hwriter.becomes.missing_le
  · exact hs.move hmove

/-! ## Runs -/

section Run

variable (bucket) (t : ChangesTable) (events : List Event)

/-- A run of `backfill_hashes` from the table `t`, and the rows that each step filled. -/
def run : State × List (List ChangesRow) := History.run (step bucket) ⟨t, .batch 0⟩ events

def filledRows : List ChangesRow := (run bucket t events).2.flatten

theorem run_inv : Inv bucket (run bucket t events).1 (filledRows bucket t events) := by
  refine History.induction (I := fun _ s log => Inv bucket s log.flatten) (inv_start t) ?_ events
  intro events e ih
  simpa only [List.flatten_append, List.flatten_singleton] using ih.step e

/-- **The steps of the program are bounded**, whatever the other writers do between them. -/
theorem run_need : (run bucket t events).1.need ≤
    (⟨t, .batch 0⟩ : State).need - events.countP Event.isNext := by
  refine History.induction (I := fun events (s : State) _ => s.need ≤
    (⟨t, .batch 0⟩ : State).need - events.countP Event.isNext) le_rfl ?_ events
  intro events e ih
  have hstep := need_step bucket (History.run (step bucket) ⟨t, .batch 0⟩ events).1 e
  rw [List.countP_append, List.countP_singleton]
  omega

theorem run_append (before after : List Event) : (run bucket t (before ++ after)).1 =
    (History.run (step bucket) (run bucket t before).1 after).1 := by
  rw [run, History.run_append]
  rfl

theorem run_becomes (before after : List Event) : (run bucket t before).1.table.Becomes bucket
    (run bucket t (before ++ after)).1.table := by
  rw [run_append]
  refine History.induction (I := fun _ (s : State) _ =>
    (run bucket t before).1.table.Becomes bucket s.table) (.refl _) ?_ after
  intro after e ih
  exact ih.trans (step_becomes _ e)

theorem filledRows_read {row : ChangesRow} (h : row ∈ filledRows bucket t events) :
    ∃ before driver committed after, events = before ++ .next driver committed :: after ∧
      row ∈ (run bucket t before).1.table.backfillRows := by
  obtain ⟨rows, hrows, hrow⟩ := List.mem_flatten.1 h
  obtain ⟨logBefore, logAfter, hlog⟩ := List.append_of_mem hrows
  obtain ⟨before, e, after, hevents, -, hstep, -⟩ := History.log_split hlog
  rcases step_cases bucket (run bucket t before).1 e with hwriter | ⟨driver, committed, rfl, hmove⟩
  · rw [← hstep] at hrow
    exact absurd (hwriter.rows ▸ hrow) List.not_mem_nil
  · refine ⟨before, driver, committed, after, hevents, (hmove.rows_mem.2 row ?_).1⟩
    rw [← hstep] at hrow
    exact hrow

theorem run_not_error (hdriver : ∀ driver committed, .next driver committed ∈ events →
    ∀ op, driver op = none) (e : AcdpError) : (run bucket t events).1.phase ≠ .done (.error e) := by
  induction events using List.reverseRecOn with
  | nil => exact fun h => by cases h
  | append_singleton events last ih =>
    have ih := ih fun driver committed hmem => hdriver driver committed (List.mem_append_left _ hmem)
    rw [run_append]
    show (step bucket (run bucket t events).1 last).1.phase ≠ _
    rcases step_cases bucket (run bucket t events).1 last with hwriter | ⟨driver, committed, rfl, hmove⟩
    · rw [hwriter.phase]
      exact ih
    · exact hmove.not_error (hdriver driver committed (by simp)) (run_inv bucket t events).counts ih

end Run

/-- **The backfill of bucket hashes**, from any table and under any appends and prunes: it returns
    within a bounded number of steps; when it has returned a count, no row lacks a hash, and the count
    is the number of rows it filled, each once and with the hashes of its own ids; and a row with both
    hashes stays as it is until it is deleted. -/
theorem backfill_hashes_correct (bucket : String → ℕ → String) (t : ChangesTable)
    (events : List Event) :
    ((t.missing + 999) / 1000 + 2 ≤ events.countP Event.isNext →
      ∃ result, (run bucket t events).1.phase = .done result) ∧
    ((∀ driver committed, .next driver committed ∈ events → ∀ op, driver op = none) →
      ∀ e, (run bucket t events).1.phase ≠ .done (.error e)) ∧
    (∀ n, (run bucket t events).1.phase = .done (.ok n) →
      (∀ r ∈ (run bucket t events).1.table.rows, ¬r.Lacks) ∧
        n = (filledRows bucket t events).length) ∧
    ((filledRows bucket t events).map (·.seq)).Nodup ∧
    (∀ row ∈ filledRows bucket t events, row.Lacks ∧
      (∃ before driver committed after, events = before ++ .next driver committed :: after ∧
        row ∈ (run bucket t before).1.table.backfillRows) ∧
      ∀ r ∈ (run bucket t events).1.table.rows, r.seq = row.seq → r = row.filled bucket) ∧
    ∀ before after, events = before ++ after → ∀ r ∈ (run bucket t before).1.table.rows, ¬r.Lacks →
      ∀ r' ∈ (run bucket t events).1.table.rows, r'.seq = r.seq → r' = r := by
  have hinv := run_inv bucket t events
  refine ⟨fun hsteps => ?_, run_not_error bucket t events, fun n hdone => ?_, hinv.distinct, ?_, ?_⟩
  · have hstart : (⟨t, .batch 0⟩ : State).need = (t.missing + 999) / 1000 + 2 := rfl
    have hneed := run_need bucket t events
    exact State.done_of_need (by omega)
  · have hcounts := hinv.counts
    rw [hdone] at hcounts
    exact ⟨ChangesTable.missing_eq_zero.1 hcounts.2, hcounts.1⟩
  · intro row hrow
    have hfilled := hinv.hashed row hrow
    exact ⟨hfilled.lacked, filledRows_read bucket t events hrow, hfilled.eq_filled⟩
  · rintro before after rfl r hr hhas r' hr' hseq
    exact (run_becomes bucket t before after).eq_of_seq hr hhas hr' hseq

def sampleRow (seq : ℕ) (lineageHash agentHash : Option String) : ChangesRow :=
  { seq, lineageHash, agentHash, kind := .keyRevocation, ctxId := "acdp://reg/ctx-1",
    lineageId := "lin:sha256:1", agentId := "did:web:a.example", supersededBy := none, event := none,
    receipt := .null, appendedAtMs := 0 }

def sampleRows : List ChangesRow :=
  [sampleRow 1 none none, sampleRow 2 (some "11") none, sampleRow 5 (some "12") (some "22")]

theorem sampleRows_keyed : (sampleRows.map (·.seq)).Nodup := by decide

theorem sampleRows_sequenced : ∀ r ∈ sampleRows, r.seq ≤ 5 := by decide

def sampleTable : ChangesTable := ⟨sampleRows, 5, sampleRows_keyed, sampleRows_sequenced⟩

/-- The first two rows are filled in one batch; before the next one a row is appended and the first is
    pruned. -/
theorem backfill_hashes_sample :
    let bucket (value : String) (_ : ℕ) : String := "hash of " ++ value
    let appended : FeedAppend :=
      { kind := .keyRevocation, ctxId := "acdp://reg/ctx-2", lineageId := "lin:sha256:2",
        agentId := "did:web:a.example", supersededBy := none, event := none, receipt := .null,
        lineageHash := "13", agentHash := "23" }
    let next : Event := .next (fun _ => none) true
    let events : List Event := [next, .append 1 [appended], .prune 1, next, next]
    (∃ result, (run bucket sampleTable events).1.phase = .done result) ∧
      (run bucket sampleTable events).1.phase = .done (.ok 2) ∧
      (run bucket sampleTable events).1.table.rows.map (·.seq) = [2, 5, 6] ∧
      ∀ r ∈ (run bucket sampleTable events).1.table.rows, ¬r.Lacks := by
  intro bucket appended next events
  obtain ⟨hterminates, -, hok, -⟩ := backfill_hashes_correct bucket sampleTable events
  have hphase : (run bucket sampleTable events).1.phase = .done (.ok 2) := rfl
  exact ⟨hterminates (by decide), hphase, rfl, (hok 2 hphase).1⟩

end HashBackfill

end AcdpRegistry
