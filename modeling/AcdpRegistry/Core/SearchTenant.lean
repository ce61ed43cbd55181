/-
  Search inside a tenant does not depend on other tenants' rows.

  Two stores that agree on a tenant's rows answer every request that asserts the tenant
  alike, at every page of an iteration: the statement's tenant condition makes the rows
  it reads the same, so the rows served, the count and the row behind the cursor are.
  The cursors themselves differ by the time they were issued.
-/
import AcdpRegistry.Core.Search

namespace AcdpRegistry

open Lib

/-! ## Two stores -/

structure SameTenant (tenant : String) (db db' : Db) : Prop where
  perm : (db.contexts.filter (·.tenantId = tenant)).Perm (db'.contexts.filter (·.tenantId = tenant))
  unique : db.Unique
  unique' : db'.Unique

namespace SameTenant

variable {tenant : String} {db db' : Db} (h : SameTenant tenant db db')

include h

theorem mem {row : ContextRow} (hrow : row ∈ db.contexts) (ht : row.tenantId = tenant) :
    row ∈ db'.contexts := by
  have hmem : row ∈ db.contexts.filter (·.tenantId = tenant) := List.mem_filter.2 ⟨hrow, by simp [ht]⟩
  exact List.mem_of_mem_filter (h.perm.mem_iff.1 hmem)

theorem filter_perm {p : ContextRow → Bool} (hp : ∀ row, p row = true → row.tenantId = tenant) :
    (db.contexts.filter p).Perm (db'.contexts.filter p) := by
  have hfilter : ∀ rows : List ContextRow,
      rows.filter p = (rows.filter (·.tenantId = tenant)).filter p := by
    intro rows
    rw [List.filter_filter]
    refine List.filter_congr fun row _ => ?_
    by_cases hrow : p row = true
    · simp [hrow, hp row hrow]
    · simp [hrow]
  rw [hfilter, hfilter db'.contexts]
  exact h.perm.filter p

end SameTenant

/-! ## Cursors and clocks -/

variable {c c' : Option String}

def ContextRow.cursor (mintMs : Int64) (row : ContextRow) : String :=
  encodeCursor mintMs.toInt (timestampMillis row.body.createdAt) row.body.ctxId

/-- Two cursors of one row of the tenant, issued at two times, or none. -/
inductive TenantCursor (tenant : String) (db db' : Db) (m m' : Int64) :
    Option String → Option String → Prop
  | none : TenantCursor tenant db db' m m' none none
  | row {row : ContextRow} : row ∈ db.contexts → row ∈ db'.contexts → row.tenantId = tenant →
      TenantCursor tenant db db' m m' (some (row.cursor m)) (some (row.cursor m'))

/-- The clocks of two iterations differ only in when cursors are issued, which gives every cursor the
    same age verdict. -/
structure ClocksAlike (clock clock' : ℕ → ℕ → PageClock) : Prop where
  now : ∀ i j, (clock i j).now = (clock' i j).now
  decode : ∀ i j, (clock i j).decodeMs = (clock' i j).decodeMs
  age : ∀ i j k l, CursorAged (clock i j).mintMs.toInt (clock k l).decodeMs ↔
    CursorAged (clock' i j).mintMs.toInt (clock k l).decodeMs

theorem TenantCursor.anchor_eq {tenant : String} {db db' : Db} {m m' : Int64}
    (h : TenantCursor tenant db db' m m' c c') {t : ℤ}
    (hage : CursorAged m.toInt t ↔ CursorAged m'.toInt t) :
    cursorAnchor t c = cursorAnchor t c' := by
  cases h with
  | none => rfl
  | row =>
    simp only [cursorAnchor, ContextRow.cursor, decodeCursor_encodeCursor (isI64_toInt _), hage]

theorem TenantCursor.isSome_eq {tenant : String} {db db' : Db} {m m' : Int64}
    (h : TenantCursor tenant db db' m m' c c') : c.isSome = c'.isSome := by
  cases h <;> simp only [Option.isSome_some, Option.isSome_none]

/-! ## One page -/

def OfTenant (tenant : String) (db : Db) (found : List SearchResult) : Prop :=
  ∀ m ∈ found, ∃ row ∈ db.contexts, row.body.ctxId = m.ctxId ∧ row.tenantId = tenant

section Page

variable {tenant : String} {db db' : Db} {api : SearchApi} {d : Dialect} {p : SearchParams} {b : TimeBounds}
  {requester : Option String} {publicArmOpen : Bool} {now : ℤ} {anchor : Option KeysetAnchor}

theorem selects_tenant {row : ContextRow}
    (h : selects api d p b requester publicArmOpen (some tenant) now row = true) :
    row.tenantId = tenant := by
  simp only [selects, Bool.and_eq_true] at h
  exact ((searchable_iff requester publicArmOpen (some tenant) d row).1 h.1.1.1).2 tenant rfl

theorem mem_scan {row : ContextRow}
    (h : row ∈ scan api d p b requester publicArmOpen (some tenant) now anchor db) :
    row ∈ db.contexts ∧ row.tenantId = tenant := by
  obtain ⟨hrow, hsel⟩ := Listing.mem_scan h
  exact ⟨hrow, selects_tenant hsel⟩

theorem ofTenant_searchPage (clock : PageClock) : OfTenant tenant db
    (searchPage api d p b requester publicArmOpen (some tenant) clock db anchor).matches := by
  intro m hm
  simp only [AcdpRegistry.searchPage, Keyset.Paginator.items_take, List.mem_map, List.mem_filter] at hm
  obtain ⟨row, ⟨hrow, -⟩, rfl⟩ := hm
  obtain ⟨hmem, ht⟩ := mem_scan (List.mem_of_mem_take hrow)
  exact ⟨row, hmem, rfl, ht⟩

theorem SameTenant.scan_eq (h : SameTenant tenant db db') :
    scan api d p b requester publicArmOpen (some tenant) now anchor db =
      scan api d p b requester publicArmOpen (some tenant) now anchor db' := by
  have hunique : (contextListing api.collation d).Unique db.contexts := h.unique
  exact Listing.scan_eq_of_perm (hunique.filter _) (h.filter_perm fun row => selects_tenant) anchor

variable {clock clock' : PageClock}

theorem SameTenant.searchPage (h : SameTenant tenant db db') (hnow : clock.now = clock'.now)
    (api : SearchApi) (d : Dialect) (p : SearchParams) (b : TimeBounds) (requester : Option String)
    (publicArmOpen : Bool) (anchor : Option KeysetAnchor) :
    let r := searchPage api d p b requester publicArmOpen (some tenant) clock db anchor
    let r' := searchPage api d p b requester publicArmOpen (some tenant) clock' db' anchor
    r.matches = r'.matches ∧ r.totalEstimate = r'.totalEstimate ∧
      TenantCursor tenant db db' clock.mintMs clock'.mintMs r.nextCursor r'.nextCursor := by
  simp only [AcdpRegistry.searchPage, ← hnow, ← h.scan_eq, Keyset.Paginator.items_take,
    Keyset.Paginator.nextCursor_take, true_and]
  split_ifs
  · cases hlast : ((scan api d p b requester publicArmOpen (some tenant) clock.now anchor db).take
      p.pageLimit).getLast? with
    | none => exact .none
    | some row =>
      obtain ⟨hrow, ht⟩ := mem_scan (List.mem_of_mem_take (List.mem_of_getLast? hlast))
      exact .row hrow (h.mem hrow ht) ht
  · exact .none

end Page

/-! ## The loop -/

namespace SearchEnv

variable {env : SearchEnv} {req : SearchRequest} {tenant : String} {db db' : Db}
  {clock clock' : ℕ → ℕ → PageClock}

theorem postFilter_tenant {found : List SearchResult} (h : OfTenant tenant db found) (hdb : db.Unique)
    (ht : req.requestedTenant = some tenant) : postFilter req db found =
      found.filter fun m => req.visibilityFilter.all fun want => m.visibility = some want := by
  -- the owner of every match is the tenant, so the check drops nothing
  have howner : ∀ kept : List SearchResult, (∀ m ∈ kept, m ∈ found) → (kept.filter fun m =>
      (db.tenantsOfCtxs (kept.map (·.ctxId)) m.ctxId).any (· = tenant)) = kept := by
    intro kept hkept
    refine List.filter_eq_self.2 fun m hm => ?_
    obtain ⟨row, hrow, hid, htenant⟩ := h m (hkept m hm)
    rw [Db.tenantsOfCtxs, if_pos (List.mem_map_of_mem hm), ← hid, hdb.context? hrow]
    simp [htenant]
  unfold SearchEnv.postFilter
  rw [ht]
  simp only
  cases req.visibilityFilter with
  | none =>
    simp only [howner found fun _ hm => hm, ite_self, Option.all_none, List.filter_true]
  | some want =>
    simp only [howner (found.filter _) fun _ hm => List.mem_of_mem_filter hm, ite_self,
      Option.all_some]

/-- Two answers: the same rows and count, and cursors of one row of the tenant. -/
structure ResponsesAlike (tenant : String) (db db' : Db) (clock clock' : ℕ → ℕ → PageClock)
    (r r' : SearchResponse) : Prop where
  «matches» : r.matches = r'.matches
  totalEstimate : r.totalEstimate = r'.totalEstimate
  nextCursor : ∃ i j, TenantCursor tenant db db' (clock i j).mintMs (clock' i j).mintMs
    r.nextCursor r'.nextCursor

/-- Cursors that every page decodes alike. -/
def ReadAlike (clock : ℕ → ℕ → PageClock) (c c' : Option String) : Prop :=
  ∀ k l, cursorAnchor (clock k l).decodeMs c = cursorAnchor (clock k l).decodeMs c'

theorem ResponsesAlike.readAlike {r r' : SearchResponse}
    (h : ResponsesAlike tenant db db' clock clock' r r') (hclock : ClocksAlike clock clock') :
    ReadAlike clock r.nextCursor r'.nextCursor := by
  obtain ⟨i, j, hcursor⟩ := h.nextCursor
  exact fun k l => hcursor.anchor_eq (hclock.age i j k l)

section Alike

variable (h : SameTenant tenant db db') (hclock : ClocksAlike clock clock')
  (ht : req.requestedTenant = some tenant)

include h hclock ht

theorem innerPage_alike (params : SearchParams) (hc : ReadAlike clock c c') (i j : ℕ) :
    ExceptRel (fun r r' => ResponsesAlike tenant db db' clock clock' r r' ∧
        OfTenant tenant db r.matches ∧ OfTenant tenant db' r.matches)
      (env.innerPage req { params with cursor := c } (clock i j) db)
      (env.innerPage req { params with cursor := c' } (clock' i j) db') := by
  unfold innerPage
  rw [ht]
  simp only [searchInner_cursor]
  split_ifs
  · exact .error _
  refine ExceptRel.mapError (.bind (.refl _) ?_) _
  rintro b _ rfl
  rw [← hclock.decode i j, ← hc i j]
  refine .bind (.refl _) ?_
  rintro anchor _ rfl
  obtain ⟨hmatches, htotal, hcursor⟩ := h.searchPage (hclock.now i j) env.api env.dialect params b
    req.requester env.anonymousPublicReads anchor
  refine .ok ⟨⟨hmatches, htotal, i, j, hcursor⟩, ofTenant_searchPage _, ?_⟩
  rw [hmatches]
  exact ofTenant_searchPage _

theorem refillRound_alike {st st' : SearchResponse} (hmatches : st.matches = st'.matches)
    (htotal : st.totalEstimate = st'.totalEstimate) (hc : ReadAlike clock st.nextCursor st'.nextCursor)
    (i j : ℕ) :
    ExceptRel (ResponsesAlike tenant db db' clock clock')
      (env.refillRound req (clock i j) db st) (env.refillRound req (clock' i j) db' st') := by
  unfold refillRound
  refine (innerPage_alike h hclock ht { req.params with limit := some (target req.params) }
    hc i j).bind ?_
  rintro r r' ⟨hr, hof, hof'⟩
  refine .ok ⟨?_, ?_, hr.nextCursor⟩
  · simp only
    rw [hmatches, ← hr.matches, postFilter_tenant hof h.unique ht, postFilter_tenant hof' h.unique' ht]
  · simp only
    rw [htotal, hr.totalEstimate]

theorem refill_alike (st st' : SearchResponse) (hmatches : st.matches = st'.matches)
    (htotal : st.totalEstimate = st'.totalEstimate) (hc : ReadAlike clock st.nextCursor st'.nextCursor)
    (i more j : ℕ) :
    ExceptRel (ResponsesAlike tenant db db' clock clock')
      (env.refill req (clock i) db more j st) (env.refill req (clock' i) db' more j st') := by
  induction more generalizing j st st' with
  | zero => exact refillRound_alike h hclock ht hmatches htotal hc i j
  | succ more ih =>
    refine (refillRound_alike h hclock ht hmatches htotal hc i j).bind ?_
    intro r r' hr
    have hnext : r.nextCursor.isSome = r'.nextCursor.isSome := by
      obtain ⟨_, _, hcursor⟩ := hr.nextCursor
      exact hcursor.isSome_eq
    have hgo : shouldRefill req r = shouldRefill req r' := by
      unfold shouldRefill
      rw [hr.matches, hnext]
    rw [hgo]
    split_ifs
    · exact ih r r' hr.matches hr.totalEstimate (hr.readAlike hclock) (j + 1)
    · exact .ok hr

theorem runSearchWithRefill_alike (hc : ReadAlike clock c c') (i : ℕ) :
    ExceptRel (ResponsesAlike tenant db db' clock clock')
      (env.runSearchWithRefill (req.withCursor c) (clock i) db)
      (env.runSearchWithRefill (req.withCursor c') (clock' i) db') := by
  unfold runSearchWithRefill
  rw [refill_cursor, refill_cursor]
  exact refill_alike h hclock ht ⟨[], none, c⟩ ⟨[], none, c'⟩ rfl rfl hc i _ 0

theorem pageAt_alike (env : SearchEnv) (n : ℕ) :
    Option.Rel (ExceptRel (ResponsesAlike tenant db db' clock clock'))
      (env.pageAt req clock db n) (env.pageAt req clock' db' n) := by
  induction n with
  | zero => exact .some (runSearchWithRefill_alike h hclock ht (fun _ _ => rfl) 0)
  | succ n ih =>
    simp only [pageAt]
    revert ih
    generalize env.pageAt req clock db n = x
    generalize env.pageAt req clock' db' n = x'
    rintro (⟨⟨e⟩ | @⟨r, r', hr⟩⟩ | ⟨⟩)
    · exact .none
    · have hread := hr.readAlike hclock
      obtain ⟨i, j, hcursor⟩ := hr.nextCursor
      revert hread hcursor
      generalize hc : r.nextCursor = c
      generalize hc' : r'.nextCursor = c'
      rintro hread (⟨⟩ | ⟨hrow, hrow', hrt⟩)
      · simp [Except.toOption, hc, hc']
      · simp only [Except.toOption, hc, hc', Option.bind_eq_bind, Option.bind_some, Option.pure_def]
        exact .some (runSearchWithRefill_alike h hclock ht hread (n + 1))
    · exact .none

end Alike

/-- **Tenant noninterference of search.**  Of two stores that agree on a tenant's rows, on either backend,
    every page of every request that asserts the tenant is the same: one error, or the same matches and
    count, with cursors of one row of the tenant that differ by their issue time only. -/
theorem search_tenant_noninterference (env : SearchEnv) (req : SearchRequest) {tenant : String}
    (ht : req.requestedTenant = some tenant) {db db' : Db} (h : SameTenant tenant db db')
    {clock clock' : ℕ → ℕ → PageClock} (hclock : ClocksAlike clock clock') (n : ℕ) :
    Option.Rel (ExceptRel fun r r' => r.matches = r'.matches ∧ r.totalEstimate = r'.totalEstimate ∧
        ∃ m m', TenantCursor tenant db db' m m' r.nextCursor r'.nextCursor)
      (env.pageAt req clock db n) (env.pageAt req clock' db' n) := by
  have hpages := pageAt_alike h hclock ht env n
  revert hpages
  generalize env.pageAt req clock db n = x
  generalize env.pageAt req clock' db' n = x'
  rintro (⟨⟨e⟩ | ⟨hr⟩⟩ | ⟨⟩)
  · exact .some (.error e)
  · obtain ⟨i, j, hcursor⟩ := hr.nextCursor
    exact .some (.ok ⟨hr.matches, hr.totalEstimate, _, _, hcursor⟩)
  · exact .none

end SearchEnv

namespace Sample

def tenantRows : List ContextRow := [publicRow "t1" "a" 5, publicRow "t1" "b" 5, publicRow "t1" "c" 7]

def mixedRows : List ContextRow :=
  [publicRow "t2" "x" 6, publicRow "t1" "a" 5, publicRow "t2" "aa" 5, publicRow "t1" "b" 5,
    publicRow "t1" "c" 7]

def tenantSearch : SearchRequest where
  requester := some "agent"
  params := { limit := some 1 }
  requestedTenant := some "t1"

theorem sameTenant : SameTenant "t1" { contexts := tenantRows } { contexts := mixedRows } :=
  ⟨List.Perm.refl _, by unfold Db.Unique; decide, by unfold Db.Unique; decide⟩

theorem clocksAlike : ClocksAlike (searchClock 0) (searchClock 9) := by
  refine ⟨fun _ _ => rfl, fun _ _ => rfl, fun _ _ _ _ => ?_⟩
  show CursorAged (0 : Int64).toInt 1000 ↔ CursorAged (9 : Int64).toInt 1000
  decide

end Sample

/-- The second page of a search, without and with another tenant's rows around the tenant's own. -/
theorem search_tenant_noninterference_sample :
    let pageAt := (Sample.searchEnv .sqlite).pageAt Sample.tenantSearch
    let db : Db := { contexts := Sample.tenantRows }
    let db' : Db := { contexts := Sample.mixedRows }
    (((pageAt (Sample.searchClock 0) db 1).bind Except.toOption).map fun r =>
      (r.matches.map (·.ctxId), r.totalEstimate)) = some (["a"], some 2) ∧
    Option.Rel (ExceptRel fun r r' => r.matches = r'.matches ∧ r.totalEstimate = r'.totalEstimate ∧
        ∃ m m', TenantCursor "t1" db db' m m' r.nextCursor r'.nextCursor)
      (pageAt (Sample.searchClock 0) db 1) (pageAt (Sample.searchClock 9) db' 1) :=
  ⟨by decide +kernel, SearchEnv.search_tenant_noninterference _ _ rfl Sample.sameTenant
    Sample.clocksAlike 1⟩

end AcdpRegistry
