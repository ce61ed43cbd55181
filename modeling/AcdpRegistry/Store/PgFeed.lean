/-
  The change feed on Postgres, statement by statement (`changes.rs` of the Postgres
  crate).

  Any number of transactions are open at once: publishes and lifecycle commits that
  append rows, and prunes.  Each sees what is committed when its statement runs, and
  may roll back at any point.  The identity sequence is outside of them: a drawn
  position is never given back.

  - `insert_all` takes the feed's advisory lock before its first insert, and the
    lock is held until the transaction ends;
  - a prune holds the marker's row lock from its first statement on.

  `refines` says that these two locks are enough: what the committed tables go
  through is a run of the abstract feed.
-/
import AcdpRegistry.Store.FeedTable
import Mathlib.Data.List.TakeWhile

namespace AcdpRegistry

open Lib

/-! ## Transactions -/

inductive PrunePhase
  | begun
  /-- The marker's row is locked. -/
  | locked
  | scanned (last : ℕ)
  | fingerprinted (last : ℕ) (fp : FeedFingerprint)
  /-- The rows at the positions `gone` are deleted. -/
  | deleted (last : ℕ) (fp : FeedFingerprint) (gone : List ℕ)
  | marked (gone : List ℕ) (prunedThrough : ℕ) (prunedThroughFp : Option (List UInt8))

/-- An open transaction, as far as it touches the feed. -/
inductive PgTx
  | idle
  /-- A publish or a lifecycle commit: what it was asked for, each append with the reading of the clock
      at its insert; what it has still to insert; and the rows it has inserted. -/
  | appending (appends : List (FeedAppend × ℤ)) (locked : Bool) (todo : List (FeedAppend × ℤ))
    (inserted : List FeedRow)
  | pruning (olderThanMs : ℤ) (batch : ℕ) (phase : PrunePhase)

/-- The committed tables, the identity sequence, the two locks and the open transactions. -/
structure PgFeed (ι : Type) where
  table : FeedTable := {}
  lastSeq : ℕ := 0
  feedLock : Option ι := none
  markerLock : Option ι := none
  tx : ι → PgTx := fun _ => .idle

namespace PgFeed

section Machine

variable {ι : Type} [DecidableEq ι]

/-- Transaction `i` goes on. -/
def set (p : PgFeed ι) (i : ι) (x : PgTx) : PgFeed ι := { p with tx := Function.update p.tx i x }

/-- Transaction `i` ends and its locks are released. -/
def finish (p : PgFeed ι) (i : ι) : PgFeed ι :=
  { p.set i .idle with
    feedLock := if p.feedLock = some i then none else p.feedLock
    markerLock := if p.markerLock = some i then none else p.markerLock }

def newRow (p : PgFeed ι) (nowMs : ℤ) (a : FeedAppend) : FeedRow :=
  { a with seq := p.lastSeq + 1, appendedAtMs := nowMs }

/-- What the scan of a prune leads to; with nothing old the transaction is dropped. -/
def afterScan (p : PgFeed ι) (i : ι) (olderThanMs : ℤ) (batch : ℕ) : PgFeed ι :=
  match FeedTable.lastOld olderThanMs (p.table.oldest batch) with
  | none => p.finish i
  | some last => p.set i (.pruning olderThanMs batch (.scanned last))

/-- What `boundary_fp` leads to; without the row it fails, and the transaction rolls back. -/
def afterBoundary (sha256 : Sha256) (p : PgFeed ι) (i : ι) (olderThanMs : ℤ)
    (batch last : ℕ) : PgFeed ι :=
  match p.table.boundaryFp sha256 last with
  | none => p.finish i
  | some fp => p.set i (.pruning olderThanMs batch (.fingerprinted last fp))

/-- One statement of one transaction; a commit is labelled with what the transaction was asked for. -/
inductive Step (sha256 : Sha256) (p : PgFeed ι) : List (FeedAppend × ℤ) → PgFeed ι → Prop
  /-- A publish or a lifecycle commit gets to `insert_all`. -/
  | begin (i : ι) (appends : List (FeedAppend × ℤ)) : p.tx i = .idle →
    Step sha256 p [] (p.set i (.appending appends false appends []))
  /-- `SELECT pg_advisory_xact_lock($1)`, if there is a row to insert. -/
  | lock (i : ι) (appends : List (FeedAppend × ℤ)) (a : FeedAppend × ℤ) (todo : List (FeedAppend × ℤ)) :
    p.tx i = .appending appends false (a :: todo) [] → p.feedLock = none →
    Step sha256 p [] { p.set i (.appending appends true (a :: todo) []) with feedLock := some i }
  /-- `INSERT INTO changes`. -/
  | insert (i : ι) (appends : List (FeedAppend × ℤ)) (a : FeedAppend) (nowMs : ℤ)
    (todo : List (FeedAppend × ℤ)) (inserted : List FeedRow) :
    p.tx i = .appending appends true ((a, nowMs) :: todo) inserted →
    Step sha256 p [] { p.set i (.appending appends true todo (inserted ++ [p.newRow nowMs a])) with
                       lastSeq := p.lastSeq + 1 }
  | commit (i : ι) (appends : List (FeedAppend × ℤ)) (locked : Bool) (inserted : List FeedRow) :
    p.tx i = .appending appends locked [] inserted →
    Step sha256 p appends
      (finish { p with table := { p.table with rows := p.table.rows ++ inserted } } i)
  /-- Any transaction, at any statement. -/
  | rollback (i : ι) : Step sha256 p [] (p.finish i)
  /-- The sequence skips positions, after a crash for one. -/
  | skip (n : ℕ) : Step sha256 p [] { p with lastSeq := p.lastSeq + n }
  | beginPrune (i : ι) (olderThanMs : ℤ) (batch : ℕ) : p.tx i = .idle →
    Step sha256 p [] (p.set i (.pruning olderThanMs batch .begun))
  /-- `SELECT pruned_through FROM changes_meta WHERE id = 1 FOR UPDATE`. -/
  | lockMarker (i : ι) (olderThanMs : ℤ) (batch : ℕ) :
    p.tx i = .pruning olderThanMs batch .begun → p.markerLock = none →
    Step sha256 p [] { p.set i (.pruning olderThanMs batch .locked) with markerLock := some i }
  /-- `SELECT seq, appended_at_ms FROM changes ORDER BY seq ASC LIMIT $1`. -/
  | scan (i : ι) (olderThanMs : ℤ) (batch : ℕ) : p.tx i = .pruning olderThanMs batch .locked →
    Step sha256 p [] (p.afterScan i olderThanMs batch)
  /-- `SELECT appended_at_ms, kind, ctx_id FROM changes WHERE seq = $1`. -/
  | boundary (i : ι) (olderThanMs : ℤ) (batch last : ℕ) :
    p.tx i = .pruning olderThanMs batch (.scanned last) →
    Step sha256 p [] (p.afterBoundary sha256 i olderThanMs batch last)
  /-- `DELETE FROM changes WHERE seq <= $1`. -/
  | delete (i : ι) (olderThanMs : ℤ) (batch last : ℕ) (fp : FeedFingerprint) :
    p.tx i = .pruning olderThanMs batch (.fingerprinted last fp) →
    Step sha256 p []
      (p.set i (.pruning olderThanMs batch (.deleted last fp (p.table.deleted last))))
  /-- `UPDATE changes_meta SET ..`. -/
  | update (i : ι) (olderThanMs : ℤ) (batch last : ℕ) (fp : FeedFingerprint) (gone : List ℕ) :
    p.tx i = .pruning olderThanMs batch (.deleted last fp gone) →
    Step sha256 p [] (p.set i (.pruning olderThanMs batch
      (.marked gone (p.table.moveMarker last fp).prunedThrough
        (p.table.moveMarker last fp).prunedThroughFp)))
  | commitPrune (i : ι) (olderThanMs : ℤ) (batch : ℕ) (gone : List ℕ)
    (prunedThrough : ℕ) (prunedThroughFp : Option (List UInt8)) :
    p.tx i = .pruning olderThanMs batch (.marked gone prunedThrough prunedThroughFp) →
    Step sha256 p []
      (finish { p with table := { p.table.delete gone with prunedThrough, prunedThroughFp } } i)

/-- The feed of Postgres; a reader's snapshot is what is committed. -/
def backend (ι : Type) [DecidableEq ι] (sha256 : Sha256) : FeedBackend where
  State := PgFeed ι
  init := {}
  step := Step sha256
  rows p := p.table.rows
  head p := p.table.readHead sha256

end Machine

/-! ## What the locks keep -/

variable {olderThanMs : ℤ} {new : List FeedRow} {s' : FeedStore} {x : PgTx}

/-- The row is the last of a first part of the table in which every row is old. -/
def Boundary (s : FeedStore) (olderThanMs : ℤ) (row : FeedRow) : Prop :=
  ∃ old young, s.rows = old ++ young ∧ old.getLast? = some row ∧ ∀ r ∈ old, r.appendedAtMs < olderThanMs

/-- The positions up to `last`, and no others that are in use. -/
def Gone (s : FeedStore) (last : ℕ) (gone : List ℕ) : Prop :=
  (∀ n ∈ gone, n ≤ last) ∧ ∀ r ∈ s.rows, r.seq ≤ last → r.seq ∈ gone

/-- What a prune has found out, once it holds the marker. -/
def PhaseShows (sha256 : Sha256) (s : FeedStore) (olderThanMs : ℤ) : PrunePhase → Prop
  | .begun | .locked => True
  | .scanned last => ∃ row, Boundary s olderThanMs row ∧ row.seq = last
  | .fingerprinted last fp =>
    ∃ row, Boundary s olderThanMs row ∧ row.seq = last ∧ fp = row.fingerprint sha256
  | .deleted last fp gone =>
    ∃ row, Boundary s olderThanMs row ∧ row.seq = last ∧ fp = row.fingerprint sha256 ∧ Gone s last gone
  | .marked gone prunedThrough prunedThroughFp =>
    ∃ row, Boundary s olderThanMs row ∧ Gone s row.seq gone ∧
      prunedThrough = max s.prunedThrough row.seq ∧
      prunedThroughFp = if row.seq ≥ s.prunedThrough then some (row.fingerprint sha256)
        else s.prunedThroughFp

variable {ι : Type}

/-- Rows are those that were asked for, drawn under the feed's lock, past everything committed, and a
    prune works under the marker's. -/
def TxShows (sha256 : Sha256) (p : PgFeed ι) (s : FeedStore) (i : ι) : PgTx → Prop
  | .idle => True
  | .appending appends locked todo inserted =>
    (locked = true → p.feedLock = some i) ∧ (locked = false → inserted = []) ∧
      Ascending FeedRow.seq inserted ∧ (∀ r ∈ inserted, s.head < r.seq ∧ r.seq ≤ p.lastSeq) ∧
      inserted.map FeedRow.request ++ todo = appends
  | .pruning olderThanMs _ phase =>
    (phase = .begun ∨ p.markerLock = some i) ∧ PhaseShows sha256 s olderThanMs phase

/-- The committed tables are the history's, and every open transaction is as its locks promise. -/
structure Shows (sha256 : Sha256) (p : PgFeed ι) (f : FeedHistory) : Prop where
  table : p.table.Shows f.store
  sequence : f.store.head ≤ p.lastSeq
  tx : ∀ i, TxShows sha256 p f.store i (p.tx i)

variable {sha256 : Sha256} {p : PgFeed ι} {f : FeedHistory} {s : FeedStore}

theorem Boundary.mem {row : FeedRow} (h : Boundary s olderThanMs row) : row ∈ s.rows := by
  obtain ⟨old, young, hrows, hlast, -⟩ := h
  rw [hrows]
  exact List.mem_append_left _ (List.mem_of_getLast? hlast)

theorem Boundary.prune (sha256 : Sha256) {row : FeedRow}
    (h : Boundary s olderThanMs row) :
    ∃ batch, (s.prune sha256 olderThanMs batch).1 = s.pruneThrough sha256 row := by
  obtain ⟨old, young, hrows, hlast, hold⟩ := h
  have hpos : 0 < old.length := List.length_pos_iff.2 fun h0 => by simp [h0] at hlast
  have htake : (s.rows.take (max old.length 1)).takeWhile
      (fun r => decide (r.appendedAtMs < olderThanMs)) = old := by
    rw [max_eq_left hpos, hrows, List.take_left, List.takeWhile_eq_self_iff]
    intro r hr
    simpa using hold r hr
  exact ⟨old.length, by rw [FeedStore.prune, htake, hlast]⟩

theorem Boundary.append {row : FeedRow} (h : Boundary s olderThanMs row)
    (hrows : s'.rows = s.rows ++ new) : Boundary s' olderThanMs row := by
  obtain ⟨old, young, hsplit, hlast, hold⟩ := h
  exact ⟨old, young ++ new, by rw [hrows, hsplit, List.append_assoc], hlast, hold⟩

theorem Gone.append {last : ℕ} {gone : List ℕ} (h : Gone s last gone)
    (hrows : s'.rows = s.rows ++ new) (hnew : ∀ r ∈ new, last < r.seq) : Gone s' last gone := by
  refine ⟨h.1, fun r hr hle => ?_⟩
  rw [hrows] at hr
  rcases List.mem_append.1 hr with hr | hr
  · exact h.2 r hr hle
  · have := hnew r hr
    omega

theorem PhaseShows.append {phase : PrunePhase} (h : PhaseShows sha256 s olderThanMs phase)
    (hrows : s'.rows = s.rows ++ new) (hnew : ∀ r ∈ new, s.head < r.seq)
    (hmarker : s'.prunedThrough = s.prunedThrough) (hfp : s'.prunedThroughFp = s.prunedThroughFp) :
    PhaseShows sha256 s' olderThanMs phase := by
  have hgone : ∀ {row gone}, Boundary s olderThanMs row → Gone s row.seq gone → Gone s' row.seq gone := by
    intro row gone hb hg
    refine hg.append hrows fun r hr => ?_
    exact (s.seq_le_head hb.mem).trans_lt (hnew r hr)
  cases phase with
  | begun => trivial
  | locked => trivial
  | scanned last =>
    obtain ⟨row, hb, hrow⟩ := h
    exact ⟨row, hb.append hrows, hrow⟩
  | fingerprinted last fp =>
    obtain ⟨row, hb, hrow⟩ := h
    exact ⟨row, hb.append hrows, hrow⟩
  | deleted last fp gone =>
    obtain ⟨row, hb, rfl, hfp', hg⟩ := h
    exact ⟨row, hb.append hrows, rfl, hfp', hgone hb hg⟩
  | marked gone prunedThrough prunedThroughFp =>
    obtain ⟨row, hb, hg, hm, hf⟩ := h
    rw [← hmarker] at hm hf
    rw [← hfp] at hf
    exact ⟨row, hb.append hrows, hgone hb hg, hm, hf⟩

variable {i : ι}

theorem TxShows.frame (h : TxShows sha256 p s i x) {p' : PgFeed ι}
    (hfeed : p.feedLock = some i → p'.feedLock = some i)
    (hmarker : p.markerLock = some i → p'.markerLock = some i) (hseq : p.lastSeq ≤ p'.lastSeq) :
    TxShows sha256 p' s i x := by
  cases x with
  | idle => trivial
  | appending appends locked todo inserted =>
    obtain ⟨hlock, hnone, hasc, hins, hasked⟩ := h
    exact ⟨fun hl => hfeed (hlock hl), hnone, hasc,
      fun r hr => ⟨(hins r hr).1, (hins r hr).2.trans hseq⟩, hasked⟩
  | pruning olderThanMs batch phase => exact ⟨h.1.imp_right hmarker, h.2⟩

theorem TxShows.append {j : ι} (h : TxShows sha256 p s j x) (hrows : s'.rows = s.rows ++ new)
    (hnew : ∀ r ∈ new, s.head < r.seq) (hmarker : s'.prunedThrough = s.prunedThrough)
    (hfp : s'.prunedThroughFp = s.prunedThroughFp) (hhead : new = [] → s'.head = s.head)
    (hlock : new ≠ [] → p.feedLock ≠ some j) : TxShows sha256 p s' j x := by
  cases x with
  | idle => trivial
  | appending appends locked todo inserted =>
    obtain ⟨hheld, hnone, hasc, hins, hasked⟩ := h
    refine ⟨hheld, hnone, hasc, fun r hr => ?_, hasked⟩
    by_cases hempty : new = []
    · rw [hhead hempty]
      exact hins r hr
    · cases locked with
      | true => exact absurd (hheld rfl) (hlock hempty)
      | false =>
        rw [hnone rfl] at hr
        cases hr
  | pruning olderThanMs batch phase => exact ⟨h.1, h.2.append hrows hnew hmarker hfp⟩

theorem TxShows.pruned {j : ι} (h : TxShows sha256 p s j x) (hhead : s'.head = s.head)
    (hlock : p.markerLock ≠ some j) : TxShows sha256 p s' j x := by
  cases x with
  | idle => trivial
  | appending appends locked todo inserted =>
    unfold TxShows at h ⊢
    rw [hhead]
    exact h
  | pruning olderThanMs batch phase =>
    rcases h.1 with rfl | hheld
    · exact ⟨.inl rfl, trivial⟩
    · exact absurd hheld hlock

variable [DecidableEq ι]

theorem set_tx (i j : ι) (x : PgTx) : (p.set i x).tx j = if j = i then x else p.tx j :=
  Function.update_apply _ _ _ _

/-- **A statement that commits nothing.**  Transaction `i` goes on to `x`, which must be as its locks
    promise. -/
theorem Shows.go_on (h : Shows sha256 p f) {p' : PgFeed ι} (htable : p'.table = p.table)
    (htx : ∀ j, p'.tx j = if j = i then x else p.tx j) (hseq : p.lastSeq ≤ p'.lastSeq)
    (hfeed : ∀ j, j ≠ i → p.feedLock = some j → p'.feedLock = some j)
    (hmarker : ∀ j, j ≠ i → p.markerLock = some j → p'.markerLock = some j)
    (hx : TxShows sha256 p' f.store i x) : Shows sha256 p' f := by
  refine ⟨htable ▸ h.table, h.sequence.trans hseq, fun j => ?_⟩
  rw [htx]
  by_cases hj : j = i
  · subst hj
    rw [if_pos rfl]
    exact hx
  · rw [if_neg hj]
    exact (h.tx j).frame (hfeed j hj) (hmarker j hj) hseq

theorem Shows.set (h : Shows sha256 p f) (hx : TxShows sha256 p f.store i x) :
    Shows sha256 (p.set i x) f :=
  h.go_on rfl (fun j => set_tx i j x) le_rfl (fun _ _ => id) (fun _ _ => id)
    (hx.frame id id le_rfl)

theorem finish_feedLock {j : ι} (hj : j ≠ i) (h : p.feedLock = some j) :
    (p.finish i).feedLock = some j := by
  simp [finish, h, hj]

theorem finish_markerLock {j : ι} (hj : j ≠ i) (h : p.markerLock = some j) :
    (p.finish i).markerLock = some j := by
  simp [finish, h, hj]

theorem Shows.finish (h : Shows sha256 p f) (i : ι) : Shows sha256 (p.finish i) f :=
  h.go_on rfl (fun j => set_tx i j .idle) le_rfl (fun _ => finish_feedLock) (fun _ => finish_markerLock)
    trivial

/-! ## One statement -/

section Statement

variable {batch : ℕ} {appends todo : List (FeedAppend × ℤ)} (h : Shows sha256 p f)

include h

theorem Shows.lock (hi : p.tx i = .appending appends false todo []) (hfree : p.feedLock = none) :
    Shows sha256 { p.set i (.appending appends true todo []) with feedLock := some i } f := by
  have hown := h.tx i
  rw [hi] at hown
  refine h.go_on rfl (fun j => set_tx i j _) le_rfl (fun j _ hj => ?_) (fun _ _ => id) ?_
  · rw [hfree] at hj
    cases hj
  · exact ⟨fun _ => rfl, fun _ => rfl, Ascending.nil, by simp, hown.2.2.2.2⟩

/-- **An insert draws past everything drawn before.** -/
theorem Shows.insert {a : FeedAppend} {nowMs : ℤ} {inserted : List FeedRow}
    (hi : p.tx i = .appending appends true ((a, nowMs) :: todo) inserted) :
    Shows sha256 { p.set i (.appending appends true todo (inserted ++ [p.newRow nowMs a])) with
                   lastSeq := p.lastSeq + 1 } f := by
  refine h.go_on rfl (fun j => set_tx i j _) (Nat.le_succ _) (fun _ _ => id) (fun _ _ => id) ?_
  have hown := h.tx i
  rw [hi] at hown
  obtain ⟨hlock, -, hasc, hins, hasked⟩ := hown
  refine ⟨hlock, by simp, hasc.append (List.pairwise_singleton _ _) fun r hr r' hr' => ?_,
    fun r hr => ?_, ?_⟩
  · obtain rfl := List.mem_singleton.1 hr'
    exact Nat.lt_succ_of_le (hins r hr).2
  · rcases List.mem_append.1 hr with hr | hr
    · exact ⟨(hins r hr).1, (hins r hr).2.trans (Nat.le_succ _)⟩
    · obtain rfl := List.mem_singleton.1 hr
      exact ⟨Nat.lt_succ_of_le h.sequence, le_rfl⟩
  · rw [← hasked, List.map_append, List.append_assoc]
    rfl

/-- **A commit of rows is a number of appends.**  The lock is what makes the drawn positions the next
    ones. -/
theorem Shows.commit {locked : Bool} {inserted : List FeedRow}
    (hi : p.tx i = .appending appends locked [] inserted) :
    ∃ f', Relation.ReflTransGen (FeedHistory.Step sha256) f f' ∧
      f'.log.map FeedRow.request = f.log.map FeedRow.request ++ appends ∧
      Shows sha256
        (PgFeed.finish { p with table := { p.table with rows := p.table.rows ++ inserted } } i) f' := by
  have hown := h.tx i
  rw [hi] at hown
  obtain ⟨hlock, hnone, hasc, hins, hasked⟩ := hown
  obtain ⟨f', hsteps, hlog, hrows, hmarker, hfp, hhead⟩ := f.append_rows inserted hasc
    fun r hr => (hins r hr).1
  refine ⟨f', hsteps, ?_, ⟨?_, ?_, ?_, ?_⟩, ?_, fun j => ?_⟩
  · rw [hlog, List.map_append, ← hasked, List.append_nil]
  · rw [hrows, ← h.table.rows]
    rfl
  · rw [hmarker]
    exact h.table.prunedThrough
  · rw [hfp]
    exact h.table.prunedThroughFp
  · rw [hfp]
    exact h.table.width
  · rw [hhead]
    cases hlast : inserted.getLast? with
    | none => exact h.sequence
    | some last => exact (hins last (List.mem_of_getLast? hlast)).2
  · have htx : (PgFeed.finish { p with table := { p.table with rows := p.table.rows ++ inserted } } i).tx j =
        if j = i then .idle else p.tx j := set_tx i j .idle
    rw [htx]
    by_cases hj : j = i
    · rw [if_pos hj]
      trivial
    rw [if_neg hj]
    have hother : TxShows sha256 p f'.store j (p.tx j) := by
      refine (h.tx j).append hrows (fun r hr => (hins r hr).1) hmarker hfp (fun hempty => ?_)
        fun hne hheld => ?_
      · rw [hhead, hempty]
        rfl
      · cases locked with
        | false => exact hne (hnone rfl)
        | true =>
          rw [hlock rfl] at hheld
          exact hj (Option.some.inj hheld).symm
    exact hother.frame (finish_feedLock hj) (finish_markerLock hj) le_rfl

theorem Shows.lockMarker (hfree : p.markerLock = none) :
    Shows sha256 { p.set i (.pruning olderThanMs batch .locked) with markerLock := some i } f := by
  refine h.go_on rfl (fun j => set_tx i j _) le_rfl (fun _ _ => id) (fun j _ hj => ?_) ?_
  · rw [hfree] at hj
    cases hj
  · exact ⟨.inr rfl, trivial⟩

theorem Shows.scan (hi : p.tx i = .pruning olderThanMs batch .locked) :
    Shows sha256 (p.afterScan i olderThanMs batch) f := by
  have hown := h.tx i
  rw [hi] at hown
  have hscan := h.table.lastOld olderThanMs batch
  unfold afterScan
  split
  · exact h.finish i
  · next last hlast =>
    rw [hlast] at hscan
    obtain ⟨row, hrow, hseq⟩ := Option.map_eq_some_iff.1 hscan.symm
    refine h.set ⟨.inr (hown.1.resolve_left (by simp)), row, ?_, hseq⟩
    obtain ⟨young, hyoung⟩ := (List.takeWhile_prefix
      (fun r : FeedRow => decide (r.appendedAtMs < olderThanMs))).trans
      (List.take_prefix (max batch 1) f.store.rows)
    refine ⟨_, young, hyoung.symm, hrow, fun r hr => ?_⟩
    simpa using List.mem_takeWhile_imp hr

theorem Shows.boundary {last : ℕ} (hi : p.tx i = .pruning olderThanMs batch (.scanned last)) :
    Shows sha256 (p.afterBoundary sha256 i olderThanMs batch last) f := by
  have hown := h.tx i
  rw [hi] at hown
  obtain ⟨hheld, row, hb, rfl⟩ := hown
  unfold afterBoundary
  rw [h.table.boundaryFp hb.mem]
  exact h.set ⟨.inr (hheld.resolve_left (by simp)), row, hb, rfl, rfl⟩

theorem Shows.delete {last : ℕ} {fp : FeedFingerprint}
    (hi : p.tx i = .pruning olderThanMs batch (.fingerprinted last fp)) :
    Shows sha256 (p.set i (.pruning olderThanMs batch (.deleted last fp (p.table.deleted last)))) f := by
  have hown := h.tx i
  rw [hi] at hown
  obtain ⟨hheld, row, hb, hrow, hfp⟩ := hown
  refine h.set ⟨.inr (hheld.resolve_left (by simp)), row, hb, hrow, hfp, fun n hn => ?_, fun r hr hle => ?_⟩
  · obtain ⟨r, hr, rfl⟩ := List.mem_map.1 hn
    simpa using (List.mem_filter.1 hr).2
  · by_contra hout
    rw [← h.table.rows] at hr
    exact absurd hle (not_le.2 ((FeedTable.notMem_deleted hr).1 hout))

theorem Shows.update {last : ℕ} {fp : FeedFingerprint} {gone : List ℕ}
    (hi : p.tx i = .pruning olderThanMs batch (.deleted last fp gone)) :
    Shows sha256 (p.set i (.pruning olderThanMs batch
      (.marked gone (p.table.moveMarker last fp).prunedThrough
        (p.table.moveMarker last fp).prunedThroughFp))) f := by
  have hown := h.tx i
  rw [hi] at hown
  obtain ⟨hheld, row, hb, rfl, rfl, hgone⟩ := hown
  refine h.set ⟨.inr (hheld.resolve_left (by simp)), row, hb, hgone, ?_, ?_⟩
  · rw [FeedTable.moveMarker, h.table.prunedThrough]
  · simp only [FeedTable.moveMarker, h.table.prunedThrough, h.table.prunedThroughFp]

/-- **The commit of a prune is a prune of what is committed by then.** -/
theorem Shows.commitPrune (hsha : ∀ m, (sha256 m).length = 32) {gone : List ℕ} {prunedThrough : ℕ}
    {prunedThroughFp : Option (List UInt8)}
    (hi : p.tx i = .pruning olderThanMs batch (.marked gone prunedThrough prunedThroughFp)) :
    ∃ batch', Shows sha256
      (PgFeed.finish { p with table := { p.table.delete gone with prunedThrough, prunedThroughFp } } i)
      (f.prune sha256 olderThanMs batch') := by
  have hown := h.tx i
  rw [hi] at hown
  obtain ⟨hheld, row, hb, hgone, hmarker, hfp⟩ := hown
  have hheld : p.markerLock = some i := hheld.resolve_left (by simp)
  obtain ⟨batch', hprune⟩ := hb.prune sha256
  have hstore : (f.prune sha256 olderThanMs batch').store = f.store.pruneThrough sha256 row := hprune
  have hhead : (f.prune sha256 olderThanMs batch').store.head = f.store.head :=
    FeedHistory.head_prune sha256 f.store olderThanMs batch'
  refine ⟨batch', ?_, ?_, fun j => ?_⟩
  · rw [hstore]
    refine h.table.pruneThrough hsha hb.mem ?_ ?_ ?_
    · refine (congrArg (List.filter _) h.table.rows).trans (List.filter_congr fun r hr => ?_)
      rw [decide_eq_decide]
      constructor
      · intro hout
        by_contra hle
        exact hout (hgone.2 r hr (not_lt.1 hle))
      · intro hlt hin
        exact absurd (hgone.1 _ hin) (not_le.2 hlt)
    · rw [h.table.prunedThrough]
      exact hmarker
    · rw [h.table.prunedThrough, h.table.prunedThroughFp]
      exact hfp
  · rw [hhead]
    exact h.sequence
  · have htx : (PgFeed.finish
        { p with table := { p.table.delete gone with prunedThrough, prunedThroughFp } } i).tx j =
        if j = i then .idle else p.tx j := set_tx i j .idle
    rw [htx]
    by_cases hj : j = i
    · rw [if_pos hj]
      trivial
    · rw [if_neg hj]
      have hother : TxShows sha256 p (f.prune sha256 olderThanMs batch').store j (p.tx j) := by
        refine (h.tx j).pruned hhead ?_
        rw [hheld]
        exact fun heq => hj (Option.some.inj heq).symm
      exact hother.frame (finish_feedLock hj) (finish_markerLock hj) le_rfl

end Statement

/-- **Postgres refines the abstract feed**, statement by statement. -/
theorem refines (hsha : ∀ m, (sha256 m).length = 32) :
    (backend ι sha256).Refines sha256 (Shows sha256) where
  init := ⟨⟨rfl, rfl, rfl, fun _ h => by cases h⟩, le_rfl, fun _ => trivial⟩
  rows p f h := h.table.rows
  head p f h := h.table.readHead
  step p f new p' h hstep := by
    have stays : ∀ {p' : PgFeed ι}, Shows sha256 p' f →
        ∃ f', Relation.ReflTransGen (FeedHistory.Step sha256) f f' ∧
          f'.log.map FeedRow.request = f.log.map FeedRow.request ++ [] ∧ Shows sha256 p' f' :=
      fun h' => ⟨f, .refl, (List.append_nil _).symm, h'⟩
    cases hstep with
    | begin i appends hi =>
      exact stays (h.set ⟨by simp, fun _ => rfl, Ascending.nil, by simp, rfl⟩)
    | lock i appends a todo hi hfree => exact stays (h.lock hi hfree)
    | insert i appends a nowMs todo inserted hi => exact stays (h.insert hi)
    | commit i appends locked inserted hi => exact h.commit hi
    | rollback i => exact stays (h.finish i)
    | skip n =>
      exact stays ⟨h.table, h.sequence.trans (Nat.le_add_right _ _),
        fun j => (h.tx j).frame id id (Nat.le_add_right _ _)⟩
    | beginPrune i olderThanMs batch hi => exact stays (h.set ⟨.inl rfl, trivial⟩)
    | lockMarker i olderThanMs batch hi hfree => exact stays (h.lockMarker hfree)
    | scan i olderThanMs batch hi => exact stays (h.scan hi)
    | boundary i olderThanMs batch last hi => exact stays (h.boundary hi)
    | delete i olderThanMs batch last fp hi => exact stays (h.delete hi)
    | update i olderThanMs batch last fp gone hi => exact stays (h.update hi)
    | commitPrune i olderThanMs batch gone prunedThrough prunedThroughFp hi =>
      obtain ⟨batch', hshows⟩ := h.commitPrune hsha hi
      exact ⟨_, .single (.prune f olderThanMs batch'), (List.append_nil _).symm, hshows⟩

/-- **On Postgres the order of positions is the order of commits.**  No snapshot has a row up to a head
    that an earlier one has shown, without it. -/
theorem seq_order_is_commit_order (hsha : ∀ m, (sha256 m).length = 32)
    (run : FeedRun (backend ι sha256)) {n m : ℕ} (hnm : n ≤ m) {r : FeedRow} (hr : r ∈ run.rows m)
    (hle : r.seq ≤ (run.head n).head) : r ∈ run.rows n :=
  run.stored_at_head (refines hsha) hnm hr hle

end PgFeed

namespace Sample

def zeroSha : Sha256 := fun _ => List.replicate 32 0

def pgAppend : FeedAppend where
  kind := .lifecycle
  ctxId := "acdp://r.example/c1"
  lineageId := "lin:sha256:1"
  agentId := "did:web:a.example"
  supersededBy := none
  event := none
  receipt := .null
  lineageHash := "1f"
  agentHash := "7a"

def pgRow : FeedRow := { pgAppend with seq := 2, appendedAtMs := 20 }

/-- One transaction rolls back after it has drawn a position, another one commits, a third begins. -/
def pgMoves : List (PgFeed Bool → PgFeed Bool) :=
  let begun (i : Bool) (nowMs : ℤ) (p : PgFeed Bool) : PgFeed Bool :=
    p.set i (.appending [(pgAppend, nowMs)] false [(pgAppend, nowMs)] [])
  let locked (i : Bool) (nowMs : ℤ) (p : PgFeed Bool) : PgFeed Bool :=
    { p.set i (.appending [(pgAppend, nowMs)] true [(pgAppend, nowMs)] []) with feedLock := some i }
  let inserted (i : Bool) (nowMs : ℤ) (p : PgFeed Bool) : PgFeed Bool :=
    { p.set i (.appending [(pgAppend, nowMs)] true [] [p.newRow nowMs pgAppend]) with
      lastSeq := p.lastSeq + 1 }
  [begun false 10, locked false 10, inserted false 10, fun p => p.finish false,
   begun true 20, locked true 20, inserted true 20,
   fun p => PgFeed.finish { p with table := { p.table with rows := p.table.rows ++ [pgRow] } } true,
   begun false 30]

def pgState (n : ℕ) : PgFeed Bool := (pgMoves.take n).foldl (fun p move => move p) {}

def pgAppended (n : ℕ) : List (FeedAppend × ℤ) := if n = 7 then [(pgAppend, 20)] else []

theorem pgState_next (n : ℕ) :
    PgFeed.Step zeroSha (pgState n) (pgAppended n) (pgState (n + 1)) ∨
      (pgState (n + 1) = pgState n ∧ pgAppended n = []) := by
  rcases n with _ | _ | _ | _ | _ | _ | _ | _ | _ | n
  · exact .inl (.begin false [(pgAppend, 10)] rfl)
  · exact .inl (.lock false _ _ [] rfl rfl)
  · exact .inl (.insert false _ pgAppend 10 [] [] rfl)
  · exact .inl (.rollback false)
  · exact .inl (.begin true [(pgAppend, 20)] rfl)
  · exact .inl (.lock true _ _ [] rfl rfl)
  · exact .inl (.insert true _ pgAppend 20 [] [] rfl)
  · exact .inl (.commit true _ true [pgRow] rfl)
  · exact .inl (.begin false [(pgAppend, 30)] rfl)
  · right
    constructor
    · simp [pgState, pgMoves]
    · simp [pgAppended]

def pgRun : FeedRun (PgFeed.backend Bool zeroSha) where
  state := pgState
  appended := pgAppended
  start := rfl
  next := pgState_next

end Sample

/-- The row committed at moment 8 is still the only one up to position 2 at moment 9. -/
theorem PgFeed.seq_order_is_commit_order_sample :
    Sample.pgRow ∈ Sample.pgRun.rows 9 ∧ Sample.pgRow.seq ≤ (Sample.pgRun.head 8).head ∧
      Sample.pgRow ∈ Sample.pgRun.rows 8 := by
  have hrow : Sample.pgRow ∈ Sample.pgRun.rows 9 := List.mem_singleton_self _
  have hhead : Sample.pgRow.seq ≤ (Sample.pgRun.head 8).head := le_of_eq rfl
  exact ⟨hrow, hhead, PgFeed.seq_order_is_commit_order (fun _ => List.length_replicate) Sample.pgRun
    (Nat.le_succ 8) hrow hhead⟩

end AcdpRegistry
