/-
  The change feed of the memory backend (`acdp-registry-server/src/memory_ext.rs`).

  Rows are a vector in `seq` order beside a counter and the marker; everything
  happens under one mutex.  `Shows` says which feed table the vector stands for:
  a push is an append that skips no position, and head, page and prune are the
  table's own, so every run is one of the abstract feed (`refines`).
-/
import AcdpRegistry.Store.FeedRun

namespace AcdpRegistry

open Lib

/-- `Feed`. -/
structure MemoryFeed where
  rows : List FeedRow := []
  /-- The last position assigned. -/
  lastSeq : ℕ := 0
  prunedThrough : ℕ := 0
  prunedThroughFp : Option FeedFingerprint := none

namespace MemoryFeed

variable (sha256 : Sha256)

/-- One round of the loop of `push`. -/
def pushRow (nowMs : ℤ) (feed : MemoryFeed) (a : FeedAppend) : MemoryFeed :=
  { feed with
    lastSeq := feed.lastSeq + 1
    rows := feed.rows ++ [{ a with seq := feed.lastSeq + 1, appendedAtMs := nowMs }] }

variable (feed : MemoryFeed)

/-- `Feed::push`; the clock is read once. -/
def push (nowMs : ℤ) (appends : List FeedAppend) : MemoryFeed :=
  appends.foldl (pushRow nowMs) feed

def head : FeedHead :=
  FeedHead.fromSnapshot (feed.rows.getLast?.map fun r => (r.seq, r.fingerprint sha256))
    feed.prunedThrough feed.prunedThroughFp

/-- `partition_point`, on a slice where the rows that satisfy `p` come first. -/
def partitionPoint (p : FeedRow → Bool) (rows : List FeedRow) : ℕ := rows.findIdx fun r => !p r

def changesPage (query : FeedQuery) : FeedPage :=
  let start := partitionPoint (fun r => decide (r.seq ≤ query.after)) feed.rows
  let rows := ((feed.rows.drop start).filter query.matches).take query.limit
  FeedPage.fromScan query rows (feed.head sha256)

/-- The number of rows a prune deletes: the oldest ones, up to the first young one. -/
def prunable (olderThanMs : ℤ) (batch : ℕ) : ℕ :=
  ((feed.rows.take (max batch 1)).takeWhile fun r => decide (r.appendedAtMs < olderThanMs)).length

/-- Move the marker to the last of the first `n` rows. -/
def mark (n : ℕ) : MemoryFeed :=
  match if 0 < n then feed.rows[n - 1]? else none with
  | some last =>
    if last.seq ≥ feed.prunedThrough then
      { feed with prunedThrough := last.seq, prunedThroughFp := some (last.fingerprint sha256) }
    else feed
  | none => feed

/-- `prune_changes`. -/
def prune (olderThanMs : ℤ) (batch : ℕ) : MemoryFeed × ℕ :=
  let n := feed.prunable olderThanMs batch
  ({ feed.mark sha256 n with rows := feed.rows.drop n }, n)

/-! ## The feed table it stands for -/

/-- The vector holds the rows and the marker of the table, and the counter stands at its head. -/
structure Shows (feed : MemoryFeed) (s : FeedStore) : Prop where
  rows : feed.rows = s.rows
  prunedThrough : feed.prunedThrough = s.prunedThrough
  prunedThroughFp : feed.prunedThroughFp = s.prunedThroughFp
  lastSeq : feed.lastSeq = s.head

variable {sha256 feed} {s : FeedStore}

theorem shows_empty : ({} : MemoryFeed).Shows FeedStore.empty := ⟨rfl, rfl, rfl, rfl⟩

/-- **A pushed row** is one the table appends at the position after its head. -/
theorem Shows.pushRow (h : feed.Shows s) (nowMs : ℤ) (a : FeedAppend) :
    (feed.pushRow nowMs a).Shows (s.append 0 a nowMs) := by
  refine ⟨?_, h.prunedThrough, h.prunedThroughFp, ?_⟩
  · simp only [MemoryFeed.pushRow, FeedStore.append, FeedStore.nextRow, h.rows, h.lastSeq]
  · rw [FeedHistory.head_append]
    simp only [MemoryFeed.pushRow, h.lastSeq]

theorem Shows.head (h : feed.Shows s) : feed.head sha256 = s.readHead sha256 := by
  simp only [MemoryFeed.head, FeedStore.readHead, h.rows, h.prunedThrough, h.prunedThroughFp]

theorem drop_partitionPoint {rows : List FeedRow} (h : Ascending FeedRow.seq rows) (after : ℕ) :
    rows.drop (partitionPoint (fun r => decide (r.seq ≤ after)) rows) =
      rows.filter fun r => decide (after < r.seq) := by
  induction rows with
  | nil => rfl
  | cons r rows ih =>
    obtain ⟨hr, hrows⟩ := List.pairwise_cons.1 h
    by_cases hle : r.seq ≤ after
    · have hidx : partitionPoint (fun r => decide (r.seq ≤ after)) (r :: rows) =
          partitionPoint (fun r => decide (r.seq ≤ after)) rows + 1 := by
        simp [partitionPoint, List.findIdx_cons, hle]
      rw [hidx, List.drop_succ_cons, ih hrows, List.filter_cons_of_neg (by simpa using hle)]
    · have hidx : partitionPoint (fun r => decide (r.seq ≤ after)) (r :: rows) = 0 := by
        simp [partitionPoint, List.findIdx_cons, hle]
      rw [hidx, List.drop_zero, eq_comm, List.filter_eq_self]
      intro r' hr'
      rcases List.mem_cons.1 hr' with rfl | hr'
      · simpa using hle
      · have := hr r' hr'
        simp only [decide_eq_true_eq]
        omega

theorem take_prunable (olderThanMs : ℤ) (batch : ℕ) :
    feed.rows.take (feed.prunable olderThanMs batch) =
      (feed.rows.take (max batch 1)).takeWhile fun r => decide (r.appendedAtMs < olderThanMs) := by
  have hpre := (List.takeWhile_prefix (l := feed.rows.take (max batch 1))
    fun r => decide (r.appendedAtMs < olderThanMs)).trans (List.take_prefix _ _)
  exact (List.prefix_iff_eq_take.1 hpre).symm

theorem drop_eq_filter {rows : List FeedRow} (h : Ascending FeedRow.seq rows) {n : ℕ} {last : FeedRow}
    (hlast : (rows.take n).getLast? = some last) :
    rows.drop n = rows.filter fun r => decide (last.seq < r.seq) := by
  have hsplit : rows = rows.take n ++ rows.drop n := (List.take_append_drop n rows).symm
  have hpair := hsplit ▸ h
  obtain ⟨htake, -, hcross⟩ := List.pairwise_append.1 hpair
  rw [hsplit, List.filter_append, List.filter_eq_nil_iff.2, List.filter_eq_self.2, List.nil_append]
  · rw [← hsplit]
  · intro r hr
    simpa using hcross last (List.mem_of_getLast? hlast) r hr
  · intro r hr
    have := Ascending.le_getLast htake hr hlast
    simpa using this

/-- **A prune of the vector is the table's prune.** -/
theorem Shows.prune (h : feed.Shows s) (olderThanMs : ℤ) (batch : ℕ) :
    (feed.prune sha256 olderThanMs batch).1.Shows (s.prune sha256 olderThanMs batch).1 := by
  set n := feed.prunable olderThanMs batch with hn
  have htake : feed.rows.take n = (s.rows.take (max batch 1)).takeWhile
      fun r => decide (r.appendedAtMs < olderThanMs) := by
    rw [← h.rows]
    exact take_prunable olderThanMs batch
  have hhead := FeedHistory.head_prune sha256 s olderThanMs batch
  cases hlast : (feed.rows.take n).getLast? with
  | none =>
    have hn0 : n = 0 := by
      have := List.getLast?_eq_none_iff.1 hlast
      rw [hn, MemoryFeed.prunable, ← take_prunable, this]
      rfl
    have hprune : (s.prune sha256 olderThanMs batch).1 = s := by
      rw [FeedStore.prune, ← htake, hlast]
    have hkeep : (feed.prune sha256 olderThanMs batch).1 = feed := by
      simp [MemoryFeed.prune, ← hn, hn0, MemoryFeed.mark]
    rw [hprune, hkeep]
    exact h
  | some last =>
    have hmem : last ∈ s.rows := by
      rw [← h.rows]
      exact List.mem_of_mem_take (List.mem_of_getLast? hlast)
    have hlt := s.retained last hmem
    have hmark : (feed.mark sha256 n) =
        { feed with prunedThrough := last.seq, prunedThroughFp := some (last.fingerprint sha256) } := by
      have hpos : 0 < n := by
        rcases Nat.eq_zero_or_pos n with h0 | h0
        · simp [h0] at hlast
        · exact h0
      have hlen : n - 1 < feed.rows.length := by
        have : (feed.rows.take n).length = n := by rw [hn, take_prunable, MemoryFeed.prunable]
        rw [List.length_take] at this
        omega
      have hget : feed.rows[n - 1]? = some last := by
        rw [List.getLast?_take, if_neg hpos.ne', List.getElem?_eq_getElem hlen] at hlast
        rw [List.getElem?_eq_getElem hlen]
        exact hlast
      rw [MemoryFeed.mark, if_pos hpos, hget]
      exact if_pos (by rw [h.prunedThrough]; exact hlt.le)
    have hprune : (s.prune sha256 olderThanMs batch).1 = s.pruneThrough sha256 last := by
      rw [FeedStore.prune, ← htake, hlast]
    have hrows : feed.rows.drop n = s.rows.filter fun r => decide (last.seq < r.seq) := by
      rw [← h.rows] at *
      exact drop_eq_filter (h.rows ▸ s.ascending) hlast
    rw [hprune] at hhead ⊢
    refine ⟨hrows, ?_, ?_, ?_⟩
    · simp only [MemoryFeed.prune, ← hn, hmark, FeedStore.pruneThrough]
      omega
    · simp only [MemoryFeed.prune, ← hn, hmark, FeedStore.pruneThrough, if_pos hlt.le]
    · simp only [MemoryFeed.prune, ← hn, hmark, hhead]
      exact h.lastSeq

/-! ## Runs -/

/-- What happens to the vector while the mutex is held once. -/
inductive Step (sha256 : Sha256) :
    MemoryFeed → List (FeedAppend × ℤ) → MemoryFeed → Prop
  | push (feed : MemoryFeed) (nowMs : ℤ) (appends : List FeedAppend) :
    Step sha256 feed (appends.map (·, nowMs)) (feed.push nowMs appends)
  | prune (feed : MemoryFeed) (olderThanMs : ℤ) (batch : ℕ) :
    Step sha256 feed [] (feed.prune sha256 olderThanMs batch).1

def backend (sha256 : Sha256) : FeedBackend where
  State := MemoryFeed
  init := {}
  step := Step sha256
  rows feed := feed.rows
  head feed := feed.head sha256

/-- **A push is a number of appends.** -/
theorem Shows.push (sha256 : Sha256) {f : FeedHistory} (h : feed.Shows f.store)
    (nowMs : ℤ) (appends : List FeedAppend) :
    ∃ f', Relation.ReflTransGen (FeedHistory.Step sha256) f f' ∧
      f'.log.map FeedRow.request = f.log.map FeedRow.request ++ appends.map (·, nowMs) ∧
      (feed.push nowMs appends).Shows f'.store := by
  induction appends generalizing feed f with
  | nil => exact ⟨f, .refl, (List.append_nil _).symm, h⟩
  | cons a appends ih =>
    obtain ⟨f', hsteps, hlog, hshows⟩ := ih (f := f.append 0 a nowMs) (h.pushRow nowMs a)
    refine ⟨f', .head (.append f 0 a nowMs) hsteps, ?_, hshows⟩
    rw [hlog, FeedHistory.requests_append, List.append_assoc]
    rfl

/-- **The memory backend refines the abstract feed.** -/
theorem refines : (backend sha256).Refines sha256 fun feed f => feed.Shows f.store where
  init := shows_empty
  rows feed f h := h.rows
  head feed f h := h.head
  step feed f new feed' h hstep := by
    cases hstep with
    | push nowMs appends => exact h.push sha256 nowMs appends
    | prune olderThanMs batch =>
      exact ⟨f.prune sha256 olderThanMs batch, .single (.prune f olderThanMs batch),
        (List.append_nil _).symm, h.prune olderThanMs batch⟩

end MemoryFeed

end AcdpRegistry
