/-
  The change feed of a registry, on whichever backend it is configured with.

  The three backends keep the feed in three ways: a vector under a mutex, a table with
  one writer at a time, and a table that any number of transactions write to.  They
  refine one abstract feed, so whatever is appended and pruned, and in whatever order,
  the markers stay true of the rows (`feed_store_invariant`); and they answer one
  query alike (`feed_pages_agree`).
-/
import AcdpRegistry.Store.PgFeed
import AcdpRegistry.Store.FeedPages
import AcdpRegistry.Store.CommitLifecycle
import AcdpRegistry.Server.MemoryFeed

namespace AcdpRegistry

open Lib

inductive StorageBackend
  | postgres
  | sqlite
  | memory

def StorageBackend.feed (ι : Type) [DecidableEq ι] (sha256 : Sha256) :
    StorageBackend → FeedBackend
  | .postgres => PgFeed.backend ι sha256
  | .sqlite => SqliteFeed.backend sha256
  | .memory => MemoryFeed.backend sha256

variable {sha256 : Sha256}

/-! ## The store invariant -/

/-- **The feed store invariant**, in every run on every backend, of rows with what was asked for. -/
theorem feed_store_invariant (hsha : ∀ m, (sha256 m).length = 32) {ι : Type} [DecidableEq ι]
    (backend : StorageBackend) (run : FeedRun (backend.feed ι sha256)) :
    ∃ log, run.Sound sha256 log := by
  cases backend with
  | postgres => exact FeedRun.sound run (PgFeed.refines hsha)
  | sqlite => exact FeedRun.sound run (SqliteFeed.refines hsha)
  | memory => exact FeedRun.sound run MemoryFeed.refines

/-- **Every backend refines the abstract feed.**  What is shown of traces of the abstract feed is so of
    the runs of each backend, Postgres statement by statement. -/
theorem feed_backends_refine (hsha : ∀ m, (sha256 m).length = 32) {ι : Type} [DecidableEq ι]
    (backend : StorageBackend) (run : FeedRun (backend.feed ι sha256)) :
    ∃ T : Trace (FeedHistory.Step sha256), T.state 0 = .empty ∧
      ∀ n, (T.state n).log.map FeedRow.request = run.requests n ∧
        run.rows n = (T.state n).store.rows ∧ run.head n = (T.state n).store.readHead sha256 := by
  cases backend with
  | postgres => exact FeedRun.exists_trace run (PgFeed.refines hsha)
  | sqlite => exact FeedRun.exists_trace run (SqliteFeed.refines hsha)
  | memory => exact FeedRun.exists_trace run MemoryFeed.refines

namespace Sample

def memoryMoves : List (MemoryFeed → MemoryFeed) :=
  [fun feed => feed.push 20 [pgAppend, pgAppend],
   fun feed => (feed.prune zeroSha 30 5).1,
   fun feed => feed.push 10 [pgAppend]]

def memoryState (n : ℕ) : MemoryFeed := (memoryMoves.take n).foldl (fun feed move => move feed) {}

def memoryAppended (n : ℕ) : List (FeedAppend × ℤ) :=
  if n = 0 then [(pgAppend, 20), (pgAppend, 20)] else if n = 2 then [(pgAppend, 10)] else []

theorem memoryState_next (n : ℕ) :
    MemoryFeed.Step zeroSha (memoryState n) (memoryAppended n) (memoryState (n + 1)) ∨
      (memoryState (n + 1) = memoryState n ∧ memoryAppended n = []) := by
  rcases n with _ | _ | _ | n
  · exact .inl (.push _ 20 [pgAppend, pgAppend])
  · exact .inl (.prune _ 30 5)
  · exact .inl (.push _ 10 [pgAppend])
  · right
    constructor
    · simp [memoryState, memoryMoves]
    · simp [memoryAppended]

def memoryRun : FeedRun (StorageBackend.memory.feed Bool zeroSha) where
  state := memoryState
  appended := memoryAppended
  start := rfl
  next := memoryState_next

end Sample

/-- After the prune of every row the next position is 3, whatever the clock says. -/
theorem feed_store_invariant_sample :
    (∀ m, (Sample.zeroSha m).length = 32) ∧ (Sample.memoryRun.head 2).prunedThrough = 2 ∧
      Sample.memoryRun.rows 2 = [] ∧ (Sample.memoryRun.head 3).head = 3 ∧
      ∃ log, Sample.memoryRun.Sound Sample.zeroSha log :=
  ⟨fun _ => List.length_replicate, rfl, rfl, rfl,
    feed_store_invariant (fun _ => List.length_replicate) .memory Sample.memoryRun⟩

theorem feed_backends_refine_sample : ∃ T : Trace (FeedHistory.Step Sample.zeroSha),
    (T.state 3).log.map FeedRow.request =
        [(Sample.pgAppend, 20), (Sample.pgAppend, 20), (Sample.pgAppend, 10)] ∧
      (T.state 3).store.rows.map (·.seq) = [3] := by
  obtain ⟨T, -, hT⟩ := feed_backends_refine (fun _ => List.length_replicate) .memory Sample.memoryRun
  obtain ⟨hlog, hrows, -⟩ := hT 3
  exact ⟨T, by rw [hlog]; rfl, by rw [← hrows]; rfl⟩

/-! ## Pages -/

/-- The vector holds what the tables hold. -/
structure MemoryFeed.Holds (feed : MemoryFeed) (t : FeedTable) : Prop where
  rows : feed.rows = t.rows
  prunedThrough : feed.prunedThrough = t.prunedThrough
  prunedThroughFp : feed.prunedThroughFp = t.prunedThroughFp.bind FeedTable.storedFp

variable {feed : MemoryFeed} {t : FeedTable}

/-- **The page of the memory backend.** -/
theorem MemoryFeed.Holds.changesPage (h : feed.Holds t) (ht : t.WellFormed) (q : FeedQuery) :
    feed.changesPage sha256 q = FeedPage.fromScan q (q.scan t.rows) (t.readHead sha256) := by
  have hhead : feed.head sha256 = t.readHead sha256 := by
    simp only [MemoryFeed.head, FeedTable.readHead, h.rows, h.prunedThrough, h.prunedThroughFp,
      FeedTable.orderBySeq_ascending ht.ascending]
  have hrows : (feed.rows.drop (MemoryFeed.partitionPoint (fun r => decide (r.seq ≤ q.after)) feed.rows)).filter
      q.matches = t.rows.filter fun r => decide (q.after < r.seq) && q.matches r := by
    rw [h.rows, MemoryFeed.drop_partitionPoint ht.ascending, List.filter_filter]
    simp only [Bool.and_comm]
  rw [MemoryFeed.changesPage, hrows, hhead]
  rfl

/-- **The three backends answer a query alike**: with the first rows past its position that it matches,
    up to its cap. -/
theorem feed_pages_agree (sha256 : Sha256) {api : ChangeApi}
    (hapi : api.ValidatesBuckets) (ht : t.WellFormed) (hfeed : feed.Holds t) {q : FeedQuery}
    (hq : q.Parsed api) :
    (t.sqlitePage sha256 q).rows =
        (t.rows.filter fun r => decide (q.after < r.seq) && q.matches r).take (max q.scanLimit 1) ∧
      t.pgPage sha256 q = t.sqlitePage sha256 q ∧ feed.changesPage sha256 q = t.sqlitePage sha256 q := by
  rw [ht.sqlitePage sha256 hapi hq, ht.pgPage sha256 hapi hq, hfeed.changesPage ht]
  exact ⟨rfl, rfl, rfl⟩

namespace Sample

def bucketApi : ChangeApi :=
  { changes with
    validateBucket := fun raw maxLen =>
      if 1 ≤ raw.length ∧ raw.length ≤ maxLen ∧ raw.toList.all (fun c => decide (IsHexDigit c)) then .ok ()
      else .error (.schemaViolation "bucket") }

theorem bucketApi_validates : bucketApi.ValidatesBuckets := by
  intro raw maxLen h
  by_cases hok : 1 ≤ raw.length ∧ raw.length ≤ maxLen ∧ raw.toList.all (fun c => decide (IsHexDigit c))
  · simpa only [List.all_eq_true, decide_eq_true_eq] using hok
  · exact absurd ((if_neg hok).symm.trans h) (by simp)

def hashedRow : FeedRow :=
  { pgAppend with
    seq := 7
    appendedAtMs := 10
    lineageHash := "1f54677c32bda0fce357ac477603794f48739d9e1590b5ad5fa7ee48801432de"
    agentHash := "7a3e4116a94f4d654b8953a260b2203e2504014c4a70234198f69304dbd1d79e" }

def hashedTable : FeedTable := { rows := [hashedRow] }

theorem isBucketHash_of_all {hash : String} (hlen : hash.length = bucketHashLen)
    (h : hash.toList.all (fun c => decide (IsHexDigit c)) = true) : IsBucketHash hash := by
  simp only [List.all_eq_true, decide_eq_true_eq] at h
  exact ⟨hlen, h⟩

theorem hashedTable_wellFormed : hashedTable.WellFormed := by
  refine ⟨List.pairwise_singleton _ _, fun r hr => ?_, fun r hr => ?_⟩
  · cases List.mem_singleton.1 hr
    show 7 ≤ i64Max
    decide
  · cases List.mem_singleton.1 hr
    exact ⟨isBucketHash_of_all rfl (by decide +kernel), isBucketHash_of_all rfl (by decide +kernel)⟩

def bucketQuery : FeedQuery :=
  { after := 3, agentIds := ["did:web:b.example", "did:web:b.example"], lineageBuckets := [⟨"1f"⟩],
    kinds := [.lifecycle] }

theorem bucketQuery_parsed : bucketQuery.Parsed bucketApi := by
  intro b hb
  cases List.mem_singleton.1 hb
  exact ⟨"1f", 8, by decide +kernel⟩

end Sample

theorem feed_pages_agree_sample :
    Sample.bucketApi.ValidatesBuckets ∧ Sample.hashedTable.WellFormed ∧
      MemoryFeed.Holds { rows := [Sample.hashedRow], lastSeq := 7 } Sample.hashedTable ∧
      Sample.bucketQuery.Parsed Sample.bucketApi ∧
      (Sample.hashedTable.pgPage Sample.zeroSha Sample.bucketQuery).rows = [Sample.hashedRow] := by
  have hfeed : MemoryFeed.Holds { rows := [Sample.hashedRow], lastSeq := 7 } Sample.hashedTable :=
    ⟨rfl, rfl, rfl⟩
  refine ⟨Sample.bucketApi_validates, Sample.hashedTable_wellFormed, hfeed, Sample.bucketQuery_parsed, ?_⟩
  obtain ⟨hrows, hpg, -⟩ := feed_pages_agree Sample.zeroSha Sample.bucketApi_validates
    Sample.hashedTable_wellFormed hfeed Sample.bucketQuery_parsed
  have hmatch : (decide (Sample.bucketQuery.after < Sample.hashedRow.seq) &&
      Sample.bucketQuery.matches Sample.hashedRow) = true := by decide +kernel
  rw [hpg, hrows]
  exact congrArg (List.take 1) (List.filter_eq_self.2 fun r hr => by
    rw [List.mem_singleton.1 hr]
    exact hmatch)

/-! ## Buckets and their ranges -/

/-- **The range of a bucket is its prefix test.**  A stored hash lies in the range of an accepted
    bucket exactly if it starts with the bucket; and no text lies in the ranges of two different
    buckets of one length. -/
theorem bucket_range_is_prefix {api : ChangeApi} (hapi : api.ValidatesBuckets) {raw : String}
    {maxLen : ℕ} {b : Bucket} (hb : Bucket.parse api raw maxLen = .ok b) :
    (∀ hash, IsBucketHash hash → (b.InRange hash ↔ raw.toList <+: hash.toList) ∧
      (b.contains hash = true ↔ raw.toList <+: hash.toList)) ∧
    ∀ raw' maxLen' b', Bucket.parse api raw' maxLen' = .ok b' → raw.length = raw'.length →
      raw ≠ raw' → ∀ text, ¬(b.InRange text ∧ b'.InRange text) := by
  have hdigits : b.digits = raw := Bucket.parse_digits hb
  have hcontains : ∀ hash, b.contains hash = true ↔ raw.toList <+: hash.toList := fun hash => by
    rw [Bucket.contains, List.isPrefixOf_iff_prefix, hdigits]
  have hvalid := Bucket.parse_valid hapi hb
  refine ⟨fun hash hhash => ⟨(hvalid.inRange_iff hhash).trans (hcontains hash), hcontains hash⟩, ?_⟩
  intro raw' maxLen' b' hb' hlen hne text
  have hdigits' : b'.digits = raw' := Bucket.parse_digits hb'
  refine hvalid.not_inRange_both (Bucket.parse_valid hapi hb') (by rw [hdigits, hdigits', hlen]) ?_ text
  rintro rfl
  exact hne (hdigits.symm.trans hdigits')

/-- The last bucket of two digits has no upper bound, and `1f` ends where `20` begins. -/
theorem bucket_range_is_prefix_sample :
    let hash := Sample.hashedRow.lineageHash
    (⟨"1f"⟩ : Bucket).range = ("1f", some "20") ∧ (⟨"ff"⟩ : Bucket).range = ("ff", none) ∧
      (⟨"1f"⟩ : Bucket).InRange hash ∧ ¬(⟨"ff"⟩ : Bucket).InRange hash := by
  intro hash
  have hhash : IsBucketHash hash :=
    (Sample.hashedTable_wellFormed.hashed Sample.hashedRow (List.mem_singleton_self _)).1
  have hfirst : Bucket.parse Sample.bucketApi "1f" 8 = .ok ⟨"1f"⟩ := by decide +kernel
  have hlast : Bucket.parse Sample.bucketApi "ff" 8 = .ok ⟨"ff"⟩ := by decide +kernel
  obtain ⟨hbegins, hdisjoint⟩ := bucket_range_is_prefix Sample.bucketApi_validates hfirst
  have hin : (⟨"1f"⟩ : Bucket).InRange hash := (hbegins hash hhash).1.2 (by decide +kernel)
  refine ⟨by decide +kernel, by decide +kernel, hin, fun hin' => ?_⟩
  exact hdisjoint "ff" 8 ⟨"ff"⟩ hlast rfl (by decide) hash ⟨hin, hin'⟩

end AcdpRegistry
