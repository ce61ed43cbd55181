/-
  The change feed's storage side (`acdp-registry-store/src/changes.rs`), and the
  feed tables of the SQL backends (`changes.rs` of the SQLite and Postgres
  crates).

  - `FeedRow`, `FeedQuery`, `FeedHead` and `FeedPage` are the source's;
  - `FeedStore` is the `changes` table with its `changes_meta` marker; rows are
    kept in `seq` order, which is how every query reads them;
  - `append`, `prune`, `readHead` and `page` are one transaction each.

  Every store reading is one snapshot, so a read is a function of a `FeedStore`.
-/
import AcdpRegistry.Types
import AcdpRegistry.Lib.Ascending
import AcdpRegistry.Lib.BigEndian

namespace AcdpRegistry

open Lib

/-- Eight bytes that identify one feed row. -/
abbrev FeedFingerprint := List UInt8

/-- `FEED_ORIGIN_FP`, the fingerprint of position 0. -/
def feedOriginFp : FeedFingerprint := List.replicate 8 0

def utf8 (s : String) : List UInt8 := s.toUTF8.data.toList

/-- The digest of the `sha2` crate. -/
abbrev Sha256 := List UInt8 → List UInt8

/-- `feed_fingerprint`: the first eight bytes of a digest over a row's scalar columns. -/
def feedFingerprint (sha256 : Sha256) (seq : ℕ) (appendedAtMs : ℤ)
    (kind : ChangeKind) (ctxId : String) : FeedFingerprint :=
  (sha256 (utf8 "acdp-registry/changes-fp/v1\x00" ++ toBe 8 seq ++
    toBe 8 (appendedAtMs % 2 ^ 64).toNat ++ utf8 kind.asStr ++ [0] ++ utf8 ctxId)).take 8

structure FeedAppend where
  kind : ChangeKind
  ctxId : String
  lineageId : String
  agentId : String
  supersededBy : Option String
  event : Option Json
  receipt : Json
  lineageHash : String
  agentHash : String

structure FeedRow extends FeedAppend where
  seq : ℕ
  appendedAtMs : ℤ

def FeedRow.fingerprint (sha256 : Sha256) (r : FeedRow) : FeedFingerprint :=
  feedFingerprint sha256 r.seq r.appendedAtMs r.kind r.ctxId

/-- A validated `lineage_bucket` or `agent_bucket` value. -/
structure Bucket where
  digits : String
  deriving DecidableEq, Repr

def Bucket.contains (b : Bucket) (hash : String) : Bool :=
  b.digits.toList.isPrefixOf hash.toList

/-- A served `acdp-change/1` entry. -/
structure Change where
  seq : ℕ
  kind : ChangeKind
  ctxId : String
  lineageId : String
  agentId : String
  supersededBy : Option String
  event : Option Json
  receipt : Json

/-- The functions of the protocol crate that rebuild an entry from its stored columns. -/
structure ChangeApi where
  parseAgentDid : String → Except AcdpError String
  parseCtxId : String → Except AcdpError String
  parseLineageId : String → Except AcdpError String
  /-- `LifecycleEvent::from_value` and back to a value. -/
  lifecycleEvent : Json → Except AcdpError Json
  eventReceipt : Json → Except AcdpError Json
  registryReceipt : Json → Except AcdpError Json
  lifecycle : ℕ → String → String → Json → Json → Except AcdpError Change
  superseded : ℕ → String → String → Json → Except AcdpError Change
  keyRevocation : ℕ → String → Json → Except AcdpError Change
  /-- `WatchFilter::validate_buckets` on one value. -/
  validateBucket : String → ℕ → Except AcdpError Unit
  display : AcdpError → String

/-- `Bucket::parse`, against an advertised length capped at `MAX_CHANGE_BUCKET_LENGTH`. -/
def Bucket.parse (api : ChangeApi) (raw : String) (maxLen : ℕ) : Except AcdpError Bucket := do
  api.validateBucket raw (min maxLen 16)
  return ⟨raw⟩

/-- `to_change`: the entry a row serves.  A row that no longer parses is an internal error. -/
def FeedRow.toChange (api : ChangeApi) (r : FeedRow) : Except AcdpError Change :=
  let corrupt (e : AcdpError) : AcdpError :=
    let seq := r.seq
    let e := api.display e
    .registryInternal s!"stored change {seq} is malformed: {e}"
  Except.mapError corrupt do
    let agent ← api.parseAgentDid r.agentId
    match r.kind with
    | .lifecycle =>
      match r.event with
      | none => throw (.registryInternal "lifecycle entry without an event")
      | some raw =>
        let event ← api.lifecycleEvent raw
        let receipt ← api.eventReceipt r.receipt
        let lineage ← api.parseLineageId r.lineageId
        api.lifecycle r.seq lineage agent event receipt
    | .superseded =>
      let ctx ← api.parseCtxId r.ctxId
      let receipt ← api.registryReceipt r.receipt
      api.superseded r.seq ctx agent receipt
    | .keyRevocation =>
      let receipt ← api.registryReceipt r.receipt
      api.keyRevocation r.seq agent receipt

structure FeedQuery where
  after : ℕ := 0
  ctxIds : List String := []
  lineageIds : List String := []
  agentIds : List String := []
  revocationAgents : List String := []
  lineageBuckets : List Bucket := []
  agentBuckets : List Bucket := []
  kinds : List ChangeKind := []
  scanLimit : ℕ := 0

namespace FeedQuery

def limit (q : FeedQuery) : ℕ := max q.scanLimit 1

def hasIdClause (q : FeedQuery) : Bool :=
  !(q.ctxIds.isEmpty && q.lineageIds.isEmpty && q.agentIds.isEmpty && q.revocationAgents.isEmpty &&
    q.lineageBuckets.isEmpty && q.agentBuckets.isEmpty)

def «matches» (q : FeedQuery) (row : FeedRow) : Bool :=
  let idOk := !q.hasIdClause || q.ctxIds.contains row.ctxId || q.lineageIds.contains row.lineageId ||
    q.agentIds.contains row.agentId ||
    (row.kind == .keyRevocation && q.revocationAgents.contains row.agentId) ||
    q.lineageBuckets.any (·.contains row.lineageHash) ||
    q.agentBuckets.any (·.contains row.agentHash)
  let kindOk := q.kinds.isEmpty || q.kinds.contains row.kind
  idOk && kindOk

theorem limit_pos (q : FeedQuery) : 0 < q.limit := by unfold limit; omega

end FeedQuery

structure FeedHead where
  head : ℕ
  headFp : Option FeedFingerprint
  prunedThrough : ℕ
  prunedThroughFp : Option FeedFingerprint

def FeedHead.fromSnapshot (top : Option (ℕ × FeedFingerprint)) (prunedThrough : ℕ)
    (prunedThroughFp : Option FeedFingerprint) : FeedHead :=
  let (head, headFp) :=
    match top with
    | some (seq, fp) =>
      if prunedThrough < seq then (seq, some fp)
      else if prunedThrough = 0 then (0, some feedOriginFp)
      else (prunedThrough, prunedThroughFp)
    | none =>
      if prunedThrough = 0 then (0, some feedOriginFp) else (prunedThrough, prunedThroughFp)
  ⟨head, headFp, prunedThrough, prunedThroughFp⟩

structure FeedPage where
  rows : List FeedRow
  lastScanned : ℕ
  reachedHead : Bool
  head : ℕ
  headFp : Option FeedFingerprint
  prunedThrough : ℕ
  prunedThroughFp : Option FeedFingerprint

def FeedPage.fromScan (query : FeedQuery) (rows : List FeedRow) (head : FeedHead) : FeedPage :=
  let reachedHead := decide (rows.length < query.limit)
  let lastScanned :=
    match rows.getLast? with
    | some last => if !reachedHead then last.seq else max head.head query.after
    | none => max head.head query.after
  { rows, lastScanned, reachedHead, head := head.head, headFp := head.headFp,
    prunedThrough := head.prunedThrough, prunedThroughFp := head.prunedThroughFp }

/-- The `changes` table in `seq` order and the `changes_meta` row. -/
structure FeedStore where
  rows : List FeedRow
  prunedThrough : ℕ
  prunedThroughFp : Option FeedFingerprint
  ascending : Ascending FeedRow.seq rows
  retained : ∀ r ∈ rows, prunedThrough < r.seq

namespace FeedStore

variable (sha256 : Sha256)

def empty : FeedStore := ⟨[], 0, none, Ascending.nil, by simp⟩

variable (s : FeedStore)

def readHead : FeedHead :=
  FeedHead.fromSnapshot (s.rows.getLast?.map fun r => (r.seq, r.fingerprint sha256)) s.prunedThrough
    s.prunedThroughFp

variable (q : FeedQuery)

/-- `page`: the markers and the capped scan, in one snapshot. -/
def page : FeedPage :=
  FeedPage.fromScan q ((s.rows.filter fun r => decide (q.after < r.seq) && q.matches r).take q.limit)
    (s.readHead sha256)

def head : ℕ := (s.rows.getLast?.map (·.seq)).getD s.prunedThrough

theorem readHead_head : (s.readHead sha256).head = s.head := by
  unfold readHead head FeedHead.fromSnapshot
  cases h : s.rows.getLast? with
  | none => by_cases h0 : s.prunedThrough = 0 <;> simp [h0]
  | some r => simp [s.retained r (List.mem_of_getLast? h)]

@[simp] theorem readHead_prunedThrough :
    (s.readHead sha256).prunedThrough = s.prunedThrough := rfl

theorem seq_le_head {r : FeedRow} (hr : r ∈ s.rows) : r.seq ≤ s.head := by
  cases h : s.rows.getLast? with
  | none => rw [List.getLast?_eq_none_iff.1 h] at hr; simp at hr
  | some last => simpa [head, h] using s.ascending.le_getLast hr h

theorem prunedThrough_le_head : s.prunedThrough ≤ s.head := by
  cases h : s.rows.getLast? with
  | none => simp [head, h]
  | some last => simpa [head, h] using (s.retained last (List.mem_of_getLast? h)).le

/-! ## What a page covers -/

theorem page_lastScanned_of_reached (h : (s.page sha256 q).reachedHead = true) :
    (s.page sha256 q).lastScanned = max s.head q.after := by
  rw [← s.readHead_head sha256]
  simp only [page, FeedPage.fromScan] at h ⊢
  simp only [h]
  split <;> rfl

theorem page_last_of_not_reached (h : (s.page sha256 q).reachedHead = false) :
    ∃ last, (s.page sha256 q).rows.getLast? = some last ∧
      (s.page sha256 q).lastScanned = last.seq := by
  simp only [page, FeedPage.fromScan] at h ⊢
  simp only [h]
  cases hl : List.getLast? (List.take q.limit
      (List.filter (fun r => decide (q.after < r.seq) && q.matches r) s.rows)) with
  | some last => exact ⟨last, rfl, rfl⟩
  | none =>
    rw [List.getLast?_eq_none_iff] at hl
    have := q.limit_pos
    simp [hl] at h; omega

theorem scan_rows :
    (s.rows.filter fun r => decide (q.after < r.seq) && q.matches r) =
      window FeedRow.seq (s.rows.filter q.matches) q.after (max s.head q.after) := by
  rw [window_filter, window, List.filter_filter]
  refine List.filter_congr fun r hr => ?_
  have := s.seq_le_head hr
  by_cases hq : q.after < r.seq <;> simp [hq, this]

/-- **A page holds exactly the matching rows between its position and the one it covers.** -/
theorem page_rows :
    (s.page sha256 q).rows =
      window FeedRow.seq (s.rows.filter q.matches) q.after (s.page sha256 q).lastScanned := by
  set P := s.rows.filter fun r => decide (q.after < r.seq) && q.matches r with hP
  have hrows : (s.page sha256 q).rows = P.take q.limit := rfl
  cases hr : (s.page sha256 q).reachedHead with
  | true =>
    have hlen : (P.take q.limit).length < q.limit := by
      simpa [page, FeedPage.fromScan] using hr
    have htake : P.take q.limit = P := List.take_of_length_le (by simp at hlen; omega)
    rw [hrows, htake, s.page_lastScanned_of_reached sha256 q hr, hP, s.scan_rows q]
  | false =>
    obtain ⟨last, hlast, hls⟩ := s.page_last_of_not_reached sha256 q hr
    have hasc : Ascending FeedRow.seq P := s.ascending.filter _
    have hlo : ∀ r ∈ P, q.after < r.seq := fun r hr => by
      have := List.of_mem_filter hr
      simp only [Bool.and_eq_true, decide_eq_true_eq] at this
      exact this.1
    have hsplit : P = P.take q.limit ++ P.drop q.limit := (List.take_append_drop _ _).symm
    have hle : last.seq ≤ max s.head q.after := by
      have hmem := List.mem_of_mem_filter (List.mem_of_mem_take (List.mem_of_getLast? hlast))
      exact (s.seq_le_head hmem).trans (le_max_left _ _)
    have hwin := window_prefix hasc hsplit hlo hlast
    rw [hP, s.scan_rows q, window_window hle] at hwin
    rw [hrows, hls, hwin, hP, s.scan_rows q]

/-! ## Appending and pruning -/

/-- The row an append writes, at a position above every earlier one; `gap` positions are lost to
    transactions that rolled back. -/
def nextRow (gap : ℕ) (a : FeedAppend) (nowMs : ℤ) : FeedRow :=
  { a with seq := s.head + 1 + gap, appendedAtMs := nowMs }

/-- `insert`. -/
def append (gap : ℕ) (a : FeedAppend) (nowMs : ℤ) : FeedStore where
  rows := s.rows ++ [s.nextRow gap a nowMs]
  prunedThrough := s.prunedThrough
  prunedThroughFp := s.prunedThroughFp
  ascending := by
    refine s.ascending.append (List.pairwise_singleton _ _) fun r hr r' hr' => ?_
    have := s.seq_le_head hr
    simp only [List.mem_singleton] at hr'
    subst hr'; simp only [nextRow]; omega
  retained := by
    have := s.prunedThrough_le_head
    intro r hr
    rcases List.mem_append.1 hr with hr | hr
    · exact s.retained r hr
    · simp only [List.mem_singleton] at hr; subst hr; simp only [nextRow]; omega

/-- Delete the rows up to `last` and move the marker there; the fingerprint moves only with it. -/
def pruneThrough (last : FeedRow) : FeedStore where
  rows := s.rows.filter fun r => decide (last.seq < r.seq)
  prunedThrough := max s.prunedThrough last.seq
  prunedThroughFp :=
    if s.prunedThrough ≤ last.seq then some (last.fingerprint sha256) else s.prunedThroughFp
  ascending := s.ascending.filter _
  retained := by
    intro r hr
    have hlt := s.retained r (List.mem_of_mem_filter hr)
    have hlast := List.of_mem_filter hr
    simp only [decide_eq_true_eq] at hlast
    exact max_lt hlt hlast

/-- `prune`: of the oldest rows, delete those before the first young one.  Returns the number of
    deleted rows. -/
def prune (olderThanMs : ℤ) (batch : ℕ) : FeedStore × ℕ :=
  match ((s.rows.take (max batch 1)).takeWhile fun r =>
      decide (r.appendedAtMs < olderThanMs)).getLast? with
  | none => (s, 0)
  | some last =>
    (s.pruneThrough sha256 last, s.rows.length - (s.pruneThrough sha256 last).rows.length)

end FeedStore

end AcdpRegistry
