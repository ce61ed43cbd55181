/-
  `search_inner` of the SQL backends: one page of a search.

  The statement's conditions are conjuncts on a row; each is the one the source
  pushes.  What the databases and the libraries compute (full text, JSON times,
  collation, the cut of a page) is `SearchApi`.
-/
import AcdpRegistry.Store.Listing

namespace AcdpRegistry

open Lib

/-! ## Requests and responses -/

structure SearchParams where
  q : Option String := none
  domain : Option String := none
  agentId : Option String := none
  contextType : Option String := none
  schemaUri : Option String := none
  /-- Comma-separated. -/
  tags : Option String := none
  createdAfter : Option String := none
  createdBefore : Option String := none
  expiresAfter : Option String := none
  expiresBefore : Option String := none
  dataPeriodStartAfter : Option String := none
  dataPeriodEndBefore : Option String := none
  status : Option String := none
  derivedFrom : Option String := none
  limit : Option ℕ := none
  cursor : Option String := none

structure SearchResult where
  ctxId : String
  lineageId : String
  agentId : String
  title : String
  summary : Option String
  contextType : ContextType
  domain : Option String
  createdAt : ℤ
  status : Status
  visibility : Option Visibility
  deriving DecidableEq, Repr

structure SearchResponse where
  «matches» : List SearchResult
  totalEstimate : Option ℕ
  nextCursor : Option String
  deriving DecidableEq, Repr

/-- What search takes from the databases and the libraries. -/
structure SearchApi extends ListingApi where
  /-- `DateTime::parse_from_rfc3339`, with its error's text. -/
  parseRfc3339 : String → Except String ℤ
  toLowercase : String → String
  /-- The document of a context in `contexts_fts` matches an FTS5 expression. -/
  ftsMatch : String → Body → Bool
  /-- `search_vector @@ plainto_tsquery('english', …)`. -/
  tsMatch : String → Body → Bool
  /-- An instant in `body_json`. -/
  jsonInstant : ℤ → String
  /-- SQLite's `unixepoch(…, 'subsec')` in milliseconds; `NULL` for a text it cannot read. -/
  unixepoch : String → Option ℤ
  /-- Postgres's cast of a text to `timestamptz`. -/
  timestamptz : String → ℤ

/-- The clock as a page reads it: for the cursor, for the status projection, and for the next cursor. -/
structure PageClock where
  decodeMs : ℤ
  now : ℤ
  mintMs : Int64

/-! ## Full text -/

def pgEnglishStopwords : List String :=
  ["i", "me", "my", "myself", "we", "our", "ours", "ourselves", "you", "your", "yours", "yourself",
    "yourselves", "he", "him", "his", "himself", "she", "her", "hers", "herself", "it", "its", "itself",
    "they", "them", "their", "theirs", "themselves", "what", "which", "who", "whom", "this", "that",
    "these", "those", "am", "is", "are", "was", "were", "be", "been", "being", "have", "has", "had",
    "having", "do", "does", "did", "doing", "a", "an", "the", "and", "but", "if", "or", "because", "as",
    "until", "while", "of", "at", "by", "for", "with", "about", "against", "between", "into", "through",
    "during", "before", "after", "above", "below", "to", "from", "up", "down", "in", "out", "on", "off",
    "over", "under", "again", "further", "then", "once", "here", "there", "when", "where", "why", "how",
    "all", "any", "both", "each", "few", "more", "most", "other", "some", "such", "no", "nor", "not",
    "only", "own", "same", "so", "than", "too", "very", "s", "t", "can", "will", "just", "don", "should",
    "now"]

section FullText

variable (api : SearchApi)

def isPgEnglishStopword (token : String) : Bool := pgEnglishStopwords.contains (api.toLowercase token)

def splitWhitespace (s : String) : List String :=
  (s.toList.splitOnP isWhitespace).filterMap fun cs => if cs.isEmpty then none else some (String.ofList cs)

def fts5Escape (q : String) : String :=
  let quote (t : String) : String :=
    String.ofList ('"' :: t.toList.flatMap (fun c => if c = '"' then ['"', '"'] else [c]) ++ ['"'])
  let tokens := ((splitWhitespace q).filter fun t => !isPgEnglishStopword api t).map quote
  if tokens.isEmpty then "\"__acdp_empty_query__\"" else " ".intercalate tokens

end FullText

/-! ## Times -/

def parseOptRfc3339 (api : SearchApi) (s : Option String) : Except AcdpError (Option ℤ) :=
  match s with
  | none => .ok none
  | some raw =>
    match api.parseRfc3339 raw with
    | .ok t => .ok (some t)
    | .error e => .error (.schemaViolation s!"malformed datetime '{raw}': {e}")

structure TimeBounds where
  createdAfter : Option ℤ
  createdBefore : Option ℤ
  expiresAfter : Option ℤ
  expiresBefore : Option ℤ
  dpStartAfter : Option ℤ
  dpEndBefore : Option ℤ

def SearchParams.timeBounds (api : SearchApi) (p : SearchParams) : Except AcdpError TimeBounds := do
  let createdAfter ← parseOptRfc3339 api p.createdAfter
  let createdBefore ← parseOptRfc3339 api p.createdBefore
  let expiresAfter ← parseOptRfc3339 api p.expiresAfter
  let expiresBefore ← parseOptRfc3339 api p.expiresBefore
  let dpStartAfter ← parseOptRfc3339 api p.dataPeriodStartAfter
  let dpEndBefore ← parseOptRfc3339 api p.dataPeriodEndBefore
  return { createdAfter, createdBefore, expiresAfter, expiresBefore, dpStartAfter, dpEndBefore }

/-- `column <= bind` on a stored instant and a bound one. -/
def Dialect.instantLe : Dialect → ℤ → ℤ → Bool
  | .sqlite, a, b => Rfc3339.render a ≤ Rfc3339.render b
  | .postgres, a, b => stamp .postgres a ≤ stamp .postgres b

/-- A comparison of two nullable numbers in a `WHERE` clause. -/
def nullableLe (a b : Option ℤ) : Bool := a.any fun x => b.any fun y => x ≤ y

/-- A time in `body_json` and a bound one, as numbers. -/
def Dialect.jsonTime (api : SearchApi) : Dialect → ℤ → Option ℤ
  | .sqlite, t => api.unixepoch (api.jsonInstant t)
  | .postgres, t => some (api.timestamptz (api.jsonInstant t))

def Dialect.boundTime (api : SearchApi) : Dialect → ℤ → Option ℤ
  | .sqlite, t => api.unixepoch (Rfc3339.render t)
  | .postgres, t => some (stamp .postgres t)

/-- A stored `expires_at` and `now`, as the status condition compares them. -/
def Dialect.expiryTime (api : SearchApi) : Dialect → ℤ → Option ℤ
  | .sqlite, t => api.unixepoch (Rfc3339.render t)
  | .postgres, t => some (stamp .postgres t)

/-! ## The conditions -/

section Conditions

variable (api : SearchApi) (d : Dialect)

def wantedTags (tags : String) : List String :=
  ((tags.toList.splitOnP (· = ',')).map fun cs =>
    String.ofList ((cs.dropWhile isWhitespace).reverse.dropWhile isWhitespace).reverse).filter
      fun s => !s.isEmpty

def contextTypeStr : ContextType → String
  | .standard name => name
  | .keyRevocation => "key-revocation"
  | .custom name => name

def hasTags (tags : Option String) (body : Body) : Bool :=
  tags.all fun t => (wantedTags t).all fun w => (body.tags.getD []).contains w

def facets (p : SearchParams) (body : Body) : Bool :=
  (p.q.all fun q =>
    match d with
    | .sqlite => api.ftsMatch (fts5Escape api q) body
    | .postgres => api.tsMatch q body) &&
  p.domain.all (fun x => body.domain = some x) &&
  p.agentId.all (fun x => body.agentId = x) &&
  p.contextType.all (fun x => contextTypeStr body.contextType = x) &&
  p.schemaUri.all (fun x => body.schemaUri = some x) &&
  -- Postgres tests the tags in the statement, SQLite on the rows it returned
  (match d with
    | .sqlite => true
    | .postgres => hasTags p.tags body)

def inBounds (b : TimeBounds) (body : Body) : Bool :=
  b.createdAfter.all (fun t => d.instantLe t body.createdAt) &&
  b.createdBefore.all (fun t => d.instantLe body.createdAt t) &&
  b.expiresAfter.all (fun t => body.expiresAt.any fun e => d.instantLe t e) &&
  b.expiresBefore.all (fun t => body.expiresAt.any fun e => d.instantLe e t) &&
  b.dpStartAfter.all (fun t => nullableLe (d.boundTime api t)
    (body.dataPeriod.bind fun p => d.jsonTime api p.start)) &&
  b.dpEndBefore.all (fun t => nullableLe (body.dataPeriod.bind fun p => d.jsonTime api p.end_)
    (d.boundTime api t))

def SearchParams.wantStatus (p : SearchParams) : String := p.status.getD "active"

/-- `unixepoch(expires_at) <= unixepoch(now)`, or `expires_at <= now`; `NULL` where there is no time. -/
def expiredBy (now e : ℤ) : Bool := nullableLe (d.expiryTime api e) (d.expiryTime api now)

def expiresPast (now e : ℤ) : Bool :=
  (d.expiryTime api e).any fun x => (d.expiryTime api now).any fun y => y < x

def statusCond (want : String) (now : ℤ) (row : ContextRow) : Bool :=
  if want = "retracted" then row.retracted
  else if want = "active" then
    !row.retracted && row.status = .active && row.body.expiresAt.all (expiresPast api d now)
  else if want = "expired" then
    !row.retracted && (row.status = .expired ||
      (row.status = .active && row.body.expiresAt.any (expiredBy api d now)))
  else !row.retracted && row.status.asStr = want

/-- What the statement selects, without its keyset condition. -/
def selects (p : SearchParams) (b : TimeBounds) (requester : Option String) (publicArmOpen : Bool)
    (tenant : Option String) (now : ℤ) (row : ContextRow) : Bool :=
  searchable requester publicArmOpen tenant d row && facets api d p row.body &&
    inBounds api d b row.body && statusCond api d p.wantStatus now row

end Conditions

/-! ## One page -/

section Page

variable (api : SearchApi) (d : Dialect) (p : SearchParams)

def ContextRow.servedStatus (row : ContextRow) (now : ℤ) : Status := (row.toContext.project now).status

/-- What is tested on the rows the statement returned. -/
def keeps (now : ℤ) (row : ContextRow) : Bool :=
  (row.servedStatus now).asStr = p.wantStatus &&
  (match d with
    | .sqlite => hasTags p.tags row.body
    | .postgres => true) &&
  p.derivedFrom.all (fun df => row.body.derivedFrom.contains df)

def ContextRow.searchResult (row : ContextRow) (now : ℤ) : SearchResult where
  ctxId := row.body.ctxId
  lineageId := row.body.lineageId
  agentId := row.body.agentId
  title := row.body.title
  summary := row.body.summary
  contextType := row.body.contextType
  domain := row.body.domain
  createdAt := row.body.createdAt
  status := row.servedStatus now
  visibility := some row.body.visibility

def SearchParams.pageLimit (p : SearchParams) : ℕ := min (p.limit.getD 50) 100

/-- The rows of the statement before its `LIMIT`, in its order. -/
def scan (b : TimeBounds) (requester : Option String) (publicArmOpen : Bool) (tenant : Option String)
    (now : ℤ) (anchor : Option KeysetAnchor) (db : Db) : List ContextRow :=
  (contextListing api.collation d).scan (selects api d p b requester publicArmOpen tenant now) anchor
    db.contexts

def searchPage (b : TimeBounds) (requester : Option String) (publicArmOpen : Bool)
    (tenant : Option String) (clock : PageClock) (db : Db) (anchor : Option KeysetAnchor) :
    SearchResponse :=
  let all := scan api d p b requester publicArmOpen tenant clock.now anchor db
  let rows := all.take (p.pageLimit + 1)
  let page := api.pages.paginate p.pageLimit (keeps d p clock.now)
    ((contextListing api.collation d).cursor clock.mintMs) rows
  { «matches» := page.items.map (·.searchResult clock.now)
    -- `COUNT(*) OVER ()` counts before the `LIMIT` and is read off the first row
    totalEstimate := some (if rows.isEmpty then 0 else all.length)
    nextCursor := page.nextCursor }

def searchInner (requester : Option String) (publicArmOpen : Bool) (tenant : Option String)
    (clock : PageClock) (db : Db) : Except AcdpError SearchResponse := do
  let b ← p.timeBounds api
  let anchor ← cursorAnchor clock.decodeMs p.cursor
  return searchPage api d p b requester publicArmOpen tenant clock db anchor

theorem searchInner_cursor (cursor : Option String) (requester : Option String) (publicArmOpen : Bool)
    (tenant : Option String) (clock : PageClock) (db : Db) :
    searchInner api d { p with cursor } requester publicArmOpen tenant clock db = (do
      let b ← p.timeBounds api
      let anchor ← cursorAnchor clock.decodeMs cursor
      return searchPage api d p b requester publicArmOpen tenant clock db anchor) := rfl

end Page

end AcdpRegistry
