/-
  `run_search_with_refill`: the search handler's loop over inner pages
  (`acdp-registry-core/src/handlers/context.rs`).

  Rows that the `?visibility=` filter or the tenant check removes are made up for by
  reading on, at most six pages; the cursor is the last page's.
-/
import AcdpRegistry.Store.Search

namespace AcdpRegistry

open Lib

def searchRefillMaxPages : ℕ := 6

def searchLimitMax : ℕ := 100

structure SearchEnv where
  api : SearchApi
  dialect : Dialect
  /-- `capabilities().anonymous_public_reads`. -/
  anonymousPublicReads : Bool
  /-- The error with which `RegistryServer::search` refuses an anonymous search. -/
  anonymousDenied : AcdpError

structure SearchRequest where
  requester : Option String := none
  params : SearchParams := {}
  visibilityFilter : Option Visibility := none
  requestedTenant : Option String := none

def SearchRequest.withCursor (req : SearchRequest) (cursor : Option String) : SearchRequest :=
  { req with params := { req.params with cursor } }

/-- `tenants_of_ctxs`: the owner of each of these contexts. -/
def Db.tenantsOfCtxs (db : Db) (ctxIds : List String) (ctxId : String) : Option String :=
  if ctxId ∈ ctxIds then (db.context? ctxId).map (·.tenantId) else none

namespace SearchEnv

variable (env : SearchEnv) (req : SearchRequest)

/-- The number of rows the handler aims at, and asks for in every inner page. -/
def target (params : SearchParams) : ℕ := max 1 (min (params.limit.getD 20) searchLimitMax)

/-- One inner page: inside the asserted tenant, or through the server. -/
def innerPage (params : SearchParams) (clock : PageClock) (db : Db) : Except RegistryError SearchResponse :=
  let search (tenant : Option String) :=
    (searchInner env.api env.dialect params req.requester env.anonymousPublicReads tenant clock db).mapError
      .acdp
  let anonymous := req.requester.isNone && !env.anonymousPublicReads
  match req.requestedTenant with
  | some tenant =>
    if anonymous then
      .error (.acdp (.notAuthorized ("anonymous search requires authentication " ++
        "(registry caps: public_arm_open=false)")))
    else search (some tenant)
  | none => if anonymous then .error (.acdp env.anonymousDenied) else search none

def postFilter (db : Db) (found : List SearchResult) : List SearchResult :=
  let found := match req.visibilityFilter with
    | some want => found.filter (·.visibility = some want)
    | none => found
  match req.requestedTenant with
  | some tenant =>
    if found.isEmpty then found
    else
      let owners := db.tenantsOfCtxs (found.map (·.ctxId))
      found.filter fun m => (owners m.ctxId).any (· = tenant)
  | none => found

def postFiltered : Bool := req.requestedTenant.isSome || req.visibilityFilter.isSome

/-- One round of the loop: an inner page of `target` rows from the cursor, filtered. -/
def refillRound (clock : PageClock) (db : Db) (st : SearchResponse) : Except RegistryError SearchResponse := do
  let params := { req.params with limit := some (target req.params), cursor := st.nextCursor }
  let resp ← env.innerPage req params clock db
  return { «matches» := st.matches ++ postFilter req db resp.matches
           totalEstimate := st.totalEstimate.or resp.totalEstimate
           nextCursor := resp.nextCursor }

/-- `should_refill`, as long as rounds are left. -/
def shouldRefill (st : SearchResponse) : Bool :=
  postFiltered req && st.matches.length < target req.params && st.nextCursor.isSome

/-- The loop, with at most `more` rounds after the `i`-th. -/
def refill (clock : ℕ → PageClock) (db : Db) : ℕ → ℕ → SearchResponse → Except RegistryError SearchResponse
  | 0, i, st => env.refillRound req (clock i) db st
  | more + 1, i, st => do
    let st ← env.refillRound req (clock i) db st
    if shouldRefill req st then refill clock db more (i + 1) st else return st

/-- `run_search_with_refill`, with the readings of the clock of its inner pages. -/
def runSearchWithRefill (clock : ℕ → PageClock) (db : Db) : Except RegistryError SearchResponse :=
  env.refill req clock db (searchRefillMaxPages - 1) 0
    { «matches» := [], totalEstimate := none, nextCursor := req.params.cursor }

/-- The answer to the `n`-th request of an iteration, which sends the cursor of the answer before it,
    if there is one. -/
def pageAt (clock : ℕ → ℕ → PageClock) (db : Db) : ℕ → Option (Except RegistryError SearchResponse)
  | 0 => some (env.runSearchWithRefill req (clock 0) db)
  | n + 1 => do
    let resp ← (← pageAt clock db n).toOption
    let cursor ← resp.nextCursor
    return env.runSearchWithRefill (req.withCursor (some cursor)) (clock (n + 1)) db

theorem refillRound_cursor (c : Option String) (clock : PageClock) (db : Db) (st : SearchResponse) :
    env.refillRound (req.withCursor c) clock db st = env.refillRound req clock db st := rfl

theorem refill_cursor (c : Option String) (clock : ℕ → PageClock) (db : Db) (more i : ℕ)
    (st : SearchResponse) :
    env.refill (req.withCursor c) clock db more i st = env.refill req clock db more i st := by
  induction more generalizing i st with
  | zero => rfl
  | succ more ih =>
    simp only [refill, refillRound_cursor, ih]
    rfl

end SearchEnv

/-! ## A sample registry -/

namespace Sample

def collation : Collation where
  Key := List ℕ
  key s := s.toList.map Char.toNat
  injective _ _ h := String.toList_injective (List.map_injective_iff.2 (fun _ _ => Char.toNat_inj.1) h)

def searchApi : SearchApi where
  parseRfc3339 _ := .error "premature end of input"
  toLowercase s := s.toLower
  ftsMatch _ _ := true
  tsMatch _ _ := true
  jsonInstant := Rfc3339.render
  unixepoch _ := none
  timestamptz _ := 0
  collation := collation
  pages := .firstRows

def searchEnv (d : Dialect) : SearchEnv where
  api := searchApi
  dialect := d
  anonymousPublicReads := false
  anonymousDenied := .notAuthorized "anonymous search"

def publicRow (tenant ctxId : String) (createdAtMs : ℤ) : ContextRow where
  body := .fromPublishRequest (request "agent" "hash") ctxId ctxId "registry" (createdAtMs * 10 ^ 6)
  status := .active
  tenantId := tenant
  receipt := none

def searchClock (mintMs : Int64) : ℕ → ℕ → PageClock := fun _ _ => ⟨1000, 10 ^ 9, mintMs⟩

end Sample

end AcdpRegistry
