/-
  `GET /changes` (`acdp-registry-core/src/handlers/changes.rs`).

  A request takes several snapshots of the feed: the head, the anchor row of the
  presented cursor, and one page per round of the refill loop.  `evaluateChanges`
  is a function of those snapshots: `reads k` is the store at the request's `k`-th
  read, so every interleaving with appends and prunes is some `reads`.
-/
import AcdpRegistry.Store.Changes

namespace AcdpRegistry

structure CursorAnchor where
  seq : ℕ
  fp : FeedFingerprint
  deriving DecidableEq, Repr

/-- What a cursor names: the position to resume after, and its anchor. -/
structure DecodedCursor where
  pos : ℕ
  anchor : CursorAnchor
  deriving DecidableEq, Repr

inductive Since
  | oldest
  | head
  | cursor (c : DecodedCursor)
  | position (p : ℕ)
  deriving DecidableEq, Repr

/-- Whether a prune past the position expires the request: without a cursor it asked only for the
    oldest retained entry onward. -/
def Since.checkExpiry : Since → Bool
  | .cursor _ | .position _ => true
  | .oldest | .head => false

structure WatchFilter where
  ctxId : List String := []
  lineageId : List String := []
  agentId : List String := []
  kind : List ChangeKind := []
  lineageBucket : List String := []
  agentBucket : List String := []

structure ChangesRequest where
  since : Since
  limit : ℕ
  filter : WatchFilter

/-- A response; `nextCursor` is what the sealed cursor text names. -/
structure ChangesResponse where
  changes : List Change
  nextCursor : DecodedCursor
  hasMore : Bool

/-- The crate's functions, the configured sizes, and the requester's view of the contexts. -/
structure ChangesEnv where
  api : ChangeApi
  sha256 : Sha256
  changesMinScanRows : ℕ
  changesMaxPageBytes : ℕ
  /-- Whether the requester may see a context. -/
  visible : String → Bool
  producerOf : String → Option String
  /-- `json_len` of one entry and of a response. -/
  changeLen : Change → Except RegistryError ℕ
  responseLen : ChangesResponse → Except RegistryError ℕ
  validate : ChangesResponse → Except String Unit

def refillMaxScans : ℕ := 6

def anchorAt (seq : ℕ) : Option FeedFingerprint → CursorAnchor
  | some fp => ⟨seq, fp⟩
  | none => ⟨0, feedOriginFp⟩

def headCursor (head : FeedHead) : DecodedCursor :=
  ⟨head.head, anchorAt head.head head.headFp⟩

/-- `anchor_holds`; `store` is the snapshot of its own page read. -/
def anchorHolds (sha256 : Sha256) (store : FeedStore) (start : FeedHead)
    (anchor : CursorAnchor) : Bool :=
  if start.head < anchor.seq then false
  else
    let stored :=
      if anchor.seq = 0 then some feedOriginFp
      else if anchor.seq = start.head then start.headFp
      else
        let page := store.page sha256 { after := anchor.seq - 1, scanLimit := 1 }
        if anchor.seq = page.prunedThrough then page.prunedThroughFp
        else if anchor.seq < page.prunedThrough then none
        else (page.rows.head?.filter fun r => r.seq == anchor.seq).map (·.fingerprint sha256)
    stored == some anchor.fp

/-- The position a request starts at; `Since::Head` is answered before. -/
def startPosition (sha256 : Sha256) (start : FeedHead) (anchorRead : FeedStore) :
    Since → Except RegistryError ℕ
  | .head => .ok start.head
  | .oldest => .ok start.prunedThrough
  | .position p =>
    if start.head < p ∨ p < start.prunedThrough then .error (.acdp .cursorExpired) else .ok p
  | .cursor c =>
    if start.head < c.pos ∨ c.pos < start.prunedThrough then .error (.acdp .cursorExpired)
    else if anchorHolds sha256 anchorRead start c.anchor then .ok c.pos
    else .error (.acdp .cursorExpired)

variable (env : ChangesEnv)

/-- `visible_ctx_ids` on a list of ids. -/
def ChangesEnv.visibleCtxIds (ids : List String) : List String :=
  ids.filter env.visible

/-- The producers of the watched contexts the requester may see, whose key revocations a `ctx_id` watch
    also matches. -/
def ChangesEnv.revocationAgents (watched : List String) : List String :=
  let agents := (env.visibleCtxIds watched).filterMap env.producerOf
  (agents.insertionSort (· ≤ ·)).destutter (· ≠ ·)

def filterQuery (filter : WatchFilter) : Except RegistryError FeedQuery := do
  let lineageBuckets ← (filter.lineageBucket.mapM fun b => Bucket.parse env.api b 16).mapError .acdp
  let agentBuckets ← (filter.agentBucket.mapM fun b => Bucket.parse env.api b 16).mapError .acdp
  return { ctxIds := filter.ctxId
           lineageIds := filter.lineageId
           agentIds := filter.agentId
           revocationAgents := env.revocationAgents filter.ctxId
           lineageBuckets, agentBuckets
           kinds := filter.kind }

def baseQuery (req : ChangesRequest) (pos : ℕ) :
    Except RegistryError FeedQuery := do
  let q ← filterQuery env req.filter
  return { q with
           after := pos
           scanLimit := max (min req.limit (2 ^ 32 - 1)) env.changesMinScanRows }

def visibilitySubject (row : FeedRow) : Option String :=
  match row.kind with
  | .lifecycle => some row.ctxId
  | .superseded => some (row.supersededBy.getD "")
  | .keyRevocation => none

structure Scan where
  pos : ℕ
  body : ℕ
  capped : Bool := false
  changes : List Change := []
  head : ℕ
  headFp : Option FeedFingerprint
  scanned : ℕ := 0

/-- The subject is none or in the page's visible set. -/
def rowVisible (visible : List String) (row : FeedRow) : Bool :=
  match visibilitySubject row with
  | none => true
  | some id => visible.contains id

/-- The loop over a page's rows; `true` means it left the scan (a full page or the byte cap). -/
def serveRows (env : ChangesEnv) (target : ℕ) (visible : List String) :
    List FeedRow → Scan → Except RegistryError (Scan × Bool)
  | [], s => .ok (s, false)
  | row :: rows, s =>
    if s.changes.length = target then .ok (s, true)
    else if rowVisible visible row then do
      let change ← (row.toChange env.api).mapError .acdp
      let size ← env.changeLen change
      if s.changes ≠ [] ∧ s.body + 1 + size > env.changesMaxPageBytes then
        .ok ({ s with capped := true }, true)
      else
        serveRows env target visible rows
          { s with
            body := s.body + (size + if s.changes.isEmpty then 0 else 1)
            changes := s.changes ++ [change]
            pos := row.seq }
    else serveRows env target visible rows { s with pos := row.seq }

def pageVisible (rows : List FeedRow) : List String :=
  let subjects := (rows.filterMap visibilitySubject).filter fun s => !s.isEmpty
  if subjects.isEmpty then [] else env.visibleCtxIds subjects

/-- One round of the refill loop on the page it reads; `true` means the scan is over. -/
def scanPage (target : ℕ) (checkExpiry : Bool) (page : FeedPage) (s : Scan) :
    Except RegistryError (Scan × Bool) :=
  let (head, headFp) := if page.head ≥ s.head then (page.head, page.headFp) else (s.head, s.headFp)
  -- a prune that overtook the position deleted rows this cursor was not yet served
  if checkExpiry ∧ page.prunedThrough > s.pos then .error (.acdp .cursorExpired)
  else do
    let (s, left) ← serveRows env target (pageVisible env page.rows) page.rows
      { s with head, headFp, scanned := s.scanned + page.rows.length }
    if left then return (s, true)
    let s := { s with pos := max s.pos page.lastScanned }
    return (s, page.reachedHead || decide (s.changes.length = target))

def refill (env : ChangesEnv) (base : FeedQuery) (target : ℕ) (checkExpiry : Bool) :
    ℕ → (ℕ → FeedStore) → Scan → Except RegistryError Scan
  | 0, _, s => .ok s
  | n + 1, reads, s => do
    let page := (reads 0).page env.sha256 { base with after := s.pos }
    let (s, finished) ← scanPage env target checkExpiry page s
    if finished then return s
    refill env base target checkExpiry n (fun k => reads (k + 1)) s

def Scan.response (s : Scan) : ChangesResponse where
  changes := s.changes
  nextCursor := ⟨s.pos, anchorAt s.head s.headFp⟩
  hasMore := decide (s.pos < s.head)

/-- `evaluate_changes`: read 0 is the head, read 1 the anchor's page, and the reads from 2 on are
    the pages of the refill loop. -/
def evaluateChanges (reads : ℕ → FeedStore) (req : ChangesRequest) :
    Except RegistryError (ChangesResponse × ℕ) := do
  let start := (reads 0).readHead env.sha256
  if req.since = .head then
    return ({ changes := [], nextCursor := headCursor start, hasMore := false }, 0)
  let pos ← startPosition env.sha256 start (reads 1) req.since
  let base ← baseQuery env req pos
  let body ← env.responseLen { changes := [], nextCursor := headCursor start, hasMore := false }
  let s ← refill env base req.limit req.since.checkExpiry refillMaxScans (fun k => reads (k + 2))
    { pos, body, head := start.head, headFp := start.headFp }
  match env.validate s.response with
  | .error e => throw (.internal s!"changes response failed its own schema: {e}")
  | .ok () => return (s.response, s.scanned)

end AcdpRegistry
