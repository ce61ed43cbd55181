/-
  The `changes` and `changes_meta` tables and the statements on them (`changes.rs`
  of the SQLite and Postgres crates, whose statements are the same), and the feed
  of SQLite.

  A table has its rows in the order they were inserted; a query that orders by
  `seq` sorts them.  On SQLite every transaction that writes holds the database,
  so an append or a prune is one step, and `AUTOINCREMENT` draws positions from
  `sqlite_sequence`, which rolls back with its transaction.
-/
import AcdpRegistry.Store.FeedRun
import AcdpRegistry.Lib.Handler
import Mathlib.Data.List.Sort

namespace AcdpRegistry

open Lib

/-! ## The statements -/

/-- The `changes` table and the `changes_meta` row. -/
structure FeedTable where
  rows : List FeedRow := []
  prunedThrough : ℕ := 0
  prunedThroughFp : Option (List UInt8) := none

namespace FeedTable

variable (sha256 : Sha256) (t : FeedTable)

/-- `ORDER BY seq ASC`. -/
def orderBySeq (rows : List FeedRow) : List FeedRow := rows.insertionSort fun a b => a.seq ≤ b.seq

/-- `FeedFingerprint::try_from`: a stored value of the wrong width is unusable. -/
def storedFp (bytes : List UInt8) : Option FeedFingerprint :=
  if bytes.length = 8 then some bytes else none

def readHead : FeedHead :=
  FeedHead.fromSnapshot ((orderBySeq t.rows).getLast?.map fun r => (r.seq, r.fingerprint sha256))
    t.prunedThrough (t.prunedThroughFp.bind storedFp)

/-- The prune scan: position and age of the oldest rows. -/
def oldest (batch : ℕ) : List (ℕ × ℤ) :=
  ((orderBySeq t.rows).take (max batch 1)).map fun r => (r.seq, r.appendedAtMs)

/-- The last position before the first young row of the scan. -/
def lastOld (olderThanMs : ℤ) (oldest : List (ℕ × ℤ)) : Option ℕ :=
  ((oldest.takeWhile fun r => decide (r.2 < olderThanMs)).map Prod.fst).getLast?

def boundaryFp (seq : ℕ) : Option FeedFingerprint :=
  (t.rows.find? fun r => r.seq = seq).map (·.fingerprint sha256)

/-- The positions that `DELETE FROM changes WHERE seq <= last` deletes. -/
def deleted (last : ℕ) : List ℕ := (t.rows.filter fun r => decide (r.seq ≤ last)).map (·.seq)

def delete (seqs : List ℕ) : FeedTable := { t with rows := t.rows.filter fun r => r.seq ∉ seqs }

/-- The marker update: both columns read the old marker. -/
def moveMarker (last : ℕ) (fp : FeedFingerprint) : FeedTable :=
  { t with
    prunedThroughFp := if last ≥ t.prunedThrough then some fp else t.prunedThroughFp
    prunedThrough := max t.prunedThrough last }

/-- `prune`, in one transaction; `text` is what the driver says of a missing row. -/
def prune (text : String) (olderThanMs : ℤ) (batch : ℕ) : Except AcdpError (FeedTable × ℕ) :=
  match lastOld olderThanMs (t.oldest batch) with
  | none => .ok (t, 0)
  | some last =>
    match t.boundaryFp sha256 last with
    | none => .error (.registryInternal s!"changes prune boundary: {text}")
    | some fp => .ok ((t.delete (t.deleted last)).moveMarker last fp, (t.deleted last).length)

/-! ## The abstract table -/

/-- The table holds the rows and the marker of the abstract one; a stored fingerprint is usable. -/
structure Shows (s : FeedStore) : Prop where
  rows : t.rows = s.rows
  prunedThrough : t.prunedThrough = s.prunedThrough
  prunedThroughFp : t.prunedThroughFp = s.prunedThroughFp
  width : ∀ fp ∈ s.prunedThroughFp, fp.length = 8

variable {sha256 t} {s : FeedStore}

theorem orderBySeq_ascending {rows : List FeedRow} (h : Ascending FeedRow.seq rows) :
    orderBySeq rows = rows :=
  List.Pairwise.insertionSort_eq (h.imp Nat.le_of_lt)

theorem Shows.orderBySeq (h : t.Shows s) : orderBySeq t.rows = s.rows := by
  rw [h.rows, orderBySeq_ascending s.ascending]

theorem Shows.readHead (h : t.Shows s) : t.readHead sha256 = s.readHead sha256 := by
  have hfp : t.prunedThroughFp.bind storedFp = s.prunedThroughFp := by
    rw [h.prunedThroughFp]
    cases hfp : s.prunedThroughFp with
    | none => rfl
    | some fp => exact if_pos (h.width fp (by simp [hfp]))
  rw [FeedTable.readHead, FeedStore.readHead, h.orderBySeq, h.prunedThrough, hfp]

theorem Shows.lastOld (h : t.Shows s) (olderThanMs : ℤ) (batch : ℕ) :
    lastOld olderThanMs (t.oldest batch) =
      ((s.rows.take (max batch 1)).takeWhile fun r => decide (r.appendedAtMs < olderThanMs)).getLast?.map
        (·.seq) := by
  rw [FeedTable.lastOld, FeedTable.oldest, h.orderBySeq, List.takeWhile_map, List.map_map,
    List.getLast?_map]
  rfl

theorem Shows.boundaryFp (h : t.Shows s) {row : FeedRow} (hr : row ∈ s.rows) :
    t.boundaryFp sha256 row.seq = some (row.fingerprint sha256) := by
  have hfind : (s.rows.find? fun r => r.seq = row.seq) = some row :=
    s.ascending.find?_eq_some hr (by simp) fun b _ hb => (of_decide_eq_true hb).ge
  rw [FeedTable.boundaryFp, h.rows, hfind, Option.map_some]

theorem notMem_deleted {last : ℕ} {r : FeedRow} (hr : r ∈ t.rows) :
    r.seq ∉ t.deleted last ↔ last < r.seq := by
  simp only [deleted, List.mem_map, List.mem_filter, decide_eq_true_eq]
  constructor
  · intro hout
    by_contra hle
    exact hout ⟨r, ⟨hr, not_lt.1 hle⟩, rfl⟩
  · rintro hlt ⟨r', ⟨-, hle⟩, heq⟩
    omega

theorem delete_deleted (last : ℕ) :
    (t.delete (t.deleted last)).rows = t.rows.filter fun r => decide (last < r.seq) :=
  List.filter_congr fun _ hr => decide_eq_decide.2 (notMem_deleted hr)

theorem Shows.pruneThrough (h : t.Shows s) (hsha : ∀ m, (sha256 m).length = 32) {row : FeedRow}
    (hr : row ∈ s.rows) {t' : FeedTable}
    (hrows : t'.rows = s.rows.filter fun r => decide (row.seq < r.seq))
    (hmarker : t'.prunedThrough = max t.prunedThrough row.seq)
    (hfp : t'.prunedThroughFp = if row.seq ≥ t.prunedThrough then some (row.fingerprint sha256)
      else t.prunedThroughFp) :
    t'.Shows (s.pruneThrough sha256 row) := by
  have hlt := s.retained row hr
  rw [h.prunedThrough] at hmarker hfp
  rw [if_pos hlt.le] at hfp
  refine ⟨hrows, hmarker, ?_, ?_⟩
  · rw [hfp, FeedStore.pruneThrough, if_pos hlt.le]
  · intro fp hmem
    rw [FeedStore.pruneThrough, if_pos hlt.le, Option.mem_some_iff] at hmem
    rw [← hmem, FeedRow.fingerprint, feedFingerprint, List.length_take, hsha]
    rfl

/-- **A prune in one transaction is the abstract prune**, and finds its boundary row. -/
theorem Shows.prune (h : t.Shows s) (hsha : ∀ m, (sha256 m).length = 32) (text : String)
    (olderThanMs : ℤ) (batch : ℕ) :
    ∃ t' n, t.prune sha256 text olderThanMs batch = .ok (t', n) ∧
      t'.Shows (s.prune sha256 olderThanMs batch).1 := by
  unfold FeedTable.prune FeedStore.prune
  rw [h.lastOld]
  cases hlast : ((s.rows.take (max batch 1)).takeWhile
      fun r => decide (r.appendedAtMs < olderThanMs)).getLast? with
  | none => exact ⟨t, 0, rfl, h⟩
  | some row =>
    have hr : row ∈ s.rows :=
      List.mem_of_mem_take ((List.takeWhile_sublist _).mem (List.mem_of_getLast? hlast))
    simp only [Option.map_some, h.boundaryFp hr]
    refine ⟨_, _, rfl, h.pruneThrough hsha hr ?_ rfl rfl⟩
    exact (delete_deleted row.seq).trans (by rw [h.rows])

end FeedTable

/-! ## SQLite -/

/-- The tables with the feed's entry in `sqlite_sequence`. -/
structure SqliteFeed extends FeedTable where
  sqliteSequence : ℕ := 0

namespace SqliteFeed

variable (t : SqliteFeed)

def maxRowid : ℕ := (t.rows.map (·.seq)).foldr max 0

def newRow (nowMs : ℤ) (a : FeedAppend) : FeedRow :=
  { a with seq := max t.sqliteSequence t.maxRowid + 1, appendedAtMs := nowMs }

def insert (nowMs : ℤ) (a : FeedAppend) : SqliteFeed :=
  { t with
    rows := t.rows ++ [t.newRow nowMs a]
    sqliteSequence := (t.newRow nowMs a).seq }

/-- The inserts of one transaction. -/
def insertAll (nowMs : ℤ) (appends : List FeedAppend) : SqliteFeed :=
  appends.foldl (fun t a => t.insert nowMs a) t

/-- One committed transaction: the appends of a publish or of a lifecycle event, or a prune. -/
inductive Step (sha256 : Sha256) :
    SqliteFeed → List (FeedAppend × ℤ) → SqliteFeed → Prop
  | append (t : SqliteFeed) (nowMs : ℤ) (appends : List FeedAppend) :
    Step sha256 t (appends.map (·, nowMs)) (t.insertAll nowMs appends)
  | prune (t : SqliteFeed) (text : String) (olderThanMs : ℤ) (batch : ℕ) (t' : FeedTable) (n : ℕ) :
    t.prune sha256 text olderThanMs batch = .ok (t', n) → Step sha256 t [] { t with toFeedTable := t' }

def backend (sha256 : Sha256) : FeedBackend where
  State := SqliteFeed
  init := {}
  step := Step sha256
  rows t := t.rows
  head t := t.readHead sha256

/-- The tables show the history's, and the sequence stands at the head. -/
structure Shows (f : FeedHistory) : Prop where
  table : t.toFeedTable.Shows f.store
  sequence : t.sqliteSequence = f.store.head

variable {t} {sha256 : Sha256} {f : FeedHistory}

theorem Shows.maxRowid_le (h : t.Shows f) : t.maxRowid ≤ t.sqliteSequence := by
  rw [h.sequence, maxRowid, h.table.rows]
  refine List.max_le_of_forall_le _ _ fun n hn => ?_
  obtain ⟨r, hr, rfl⟩ := List.mem_map.1 hn
  exact f.store.seq_le_head hr

theorem Shows.insert (h : t.Shows f) (nowMs : ℤ) (a : FeedAppend) :
    (t.insert nowMs a).Shows (f.append 0 a nowMs) := by
  have hrow : t.newRow nowMs a = f.store.nextRow 0 a nowMs := by
    rw [newRow, max_eq_left h.maxRowid_le, h.sequence]
    rfl
  refine ⟨⟨?_, h.table.prunedThrough, h.table.prunedThroughFp, h.table.width⟩, ?_⟩
  · simp only [SqliteFeed.insert, hrow, h.table.rows]
    rfl
  · rw [SqliteFeed.insert, hrow, FeedHistory.append, FeedHistory.head_append]
    rfl

theorem Shows.insertAll (h : t.Shows f) (nowMs : ℤ) (appends : List FeedAppend) :
    ∃ f', Relation.ReflTransGen (FeedHistory.Step sha256) f f' ∧
      f'.log.map FeedRow.request = f.log.map FeedRow.request ++ appends.map (·, nowMs) ∧
      (t.insertAll nowMs appends).Shows f' := by
  induction appends generalizing t f with
  | nil => exact ⟨f, .refl, (List.append_nil _).symm, h⟩
  | cons a appends ih =>
    obtain ⟨f', hsteps, hlog, hshows⟩ := ih (h.insert nowMs a)
    refine ⟨f', .head (.append f 0 a nowMs) hsteps, ?_, hshows⟩
    rw [hlog, FeedHistory.requests_append, List.append_assoc]
    rfl

/-- **SQLite refines the abstract feed.** -/
theorem refines (hsha : ∀ m, (sha256 m).length = 32) :
    (backend sha256).Refines sha256 fun t f => t.Shows f where
  init := ⟨⟨rfl, rfl, rfl, fun _ h => by cases h⟩, rfl⟩
  rows t f h := h.table.rows
  head t f h := h.table.readHead
  step t f new t' h hstep := by
    cases hstep with
    | append nowMs appends => exact h.insertAll nowMs appends
    | prune text olderThanMs batch t' n hprune =>
      obtain ⟨t'', n', hprune', hshows⟩ := h.table.prune hsha text olderThanMs batch
      cases hprune.symm.trans hprune'
      refine ⟨f.prune sha256 olderThanMs batch, .single (.prune f olderThanMs batch), ?_, hshows, ?_⟩
      · exact (List.append_nil _).symm
      · exact h.sequence.trans (FeedHistory.head_prune sha256 f.store olderThanMs batch).symm

end SqliteFeed

end AcdpRegistry
