/-
  The pages of a search.

  A cursor is anchored on the last row a page read, before any filter on rows.  So what
  is left at a cursor is a last part of the table, each inner page takes it up to the last
  row it reads, and a request takes what its rounds take, one after the other.  Which rows
  a page reads may change with the clock.

  - `pagination_complete`: following the cursors serves every match once, in order, if the
    status condition reads no match on the wrong side of its expiry;
  - `total_estimate_iff`: the count that is served is that of the rows after the anchor.
-/
import AcdpRegistry.Core.SearchTenant
import AcdpRegistry.Store.StatusFilter
import AcdpRegistry.Store.ListingWalk

namespace AcdpRegistry

open Lib

/-! ## Iterations -/

variable {r st : SearchResponse} {clock : PageClock}

/-- Every cursor is used within its lifetime: in the next round of its request, or in the next
    request. -/
structure Lives (clock : ℕ → ℕ → PageClock) : Prop where
  round : ∀ i j, ¬CursorAged (clock i j).mintMs.toInt (clock i (j + 1)).decodeMs
  request : ∀ i j, ¬CursorAged (clock i j).mintMs.toInt (clock (i + 1) 0).decodeMs

/-- The statuses that rows are served with do not change in the iteration. -/
def StatusesFixed (db : Db) (clock : ℕ → ℕ → PageClock) : Prop :=
  ∀ i j, ∀ row ∈ db.contexts, row.servedStatus (clock i j).now = row.servedStatus (clock 0 0).now

namespace SearchEnv

variable (env : SearchEnv) (req : SearchRequest)

/-- The `i`-th request of an iteration, with this cursor. -/
def fetch (clock : ℕ → ℕ → PageClock) (db : Db) (i : ℕ) (c : Option String) :
    Except RegistryError (Keyset.Page SearchResult String) :=
  (env.runSearchWithRefill (req.withCursor c) (clock i) db).map fun r => ⟨r.matches, r.nextCursor⟩

def selectsRow (b : TimeBounds) (now : ℤ) (row : ContextRow) : Bool :=
  selects env.api env.dialect req.params b req.requester env.anonymousPublicReads req.requestedTenant
    now row

/-- Neither the checks on rows nor the handler's filters remove the row. -/
def keepsRow (now : ℤ) (row : ContextRow) : Bool :=
  keeps env.dialect req.params now row && req.visibilityFilter.all (· = row.body.visibility)

/-- A match: visible, in the tenant, within the filters, and served with the requested status. -/
def matchesRow (b : TimeBounds) (now : ℤ) (row : ContextRow) : Bool :=
  searchable req.requester env.anonymousPublicReads req.requestedTenant env.dialect row &&
    facets env.api env.dialect req.params row.body && inBounds env.api env.dialect b row.body &&
    env.keepsRow req now row

/-- What a search serves of a part of the table, in its order: matches, and all of them that the status
    condition decides as the projection, at every reading of the clock. -/
structure Enumerates (b : TimeBounds) (clock : ℕ → ℕ → PageClock) (read rows : List ContextRow) :
    Prop where
  sublist : rows.Sublist read
  matching : ∀ row ∈ rows, env.matchesRow req b (clock 0 0).now row = true
  complete : ∀ row ∈ read, env.matchesRow req b (clock 0 0).now row = true →
    (∀ i j, row.FilterExact env.api env.dialect (clock i j).now) → row ∈ rows

def Serves (b : TimeBounds) (clock : ℕ → ℕ → PageClock) (read : List ContextRow)
    (items : List SearchResult) : Prop :=
  ∃ rows, env.Enumerates req b clock read rows ∧ items = rows.map (·.searchResult (clock 0 0).now)

/-- The order of a search, that of `list_contexts`. -/
abbrev listing : Listing ContextRow := contextListing env.api.collation env.dialect

def refusesAnonymous : Bool := req.requester.isNone && !env.anonymousPublicReads

variable {env req} {b : TimeBounds} {db : Db}

/-! ## One round -/

theorem innerPage_ok_iff {params : SearchParams} : env.innerPage req params clock db = .ok r ↔
    env.refusesAnonymous req = false ∧ ∃ b a, params.timeBounds env.api = .ok b ∧
      cursorAnchor clock.decodeMs params.cursor = .ok a ∧
      searchPage env.api env.dialect params b req.requester env.anonymousPublicReads req.requestedTenant
        clock db a = r := by
  have hsearch : ∀ tenant, (searchInner env.api env.dialect params req.requester env.anonymousPublicReads
      tenant clock db).mapError RegistryError.acdp = .ok r ↔ ∃ b a, params.timeBounds env.api = .ok b ∧
        cursorAnchor clock.decodeMs params.cursor = .ok a ∧ searchPage env.api env.dialect params b
          req.requester env.anonymousPublicReads tenant clock db a = r := by
    intro tenant
    simp only [except_mapError_ok, searchInner, except_bind_ok, pure, Except.pure, Except.ok.injEq,
      exists_and_left]
  unfold innerPage refusesAnonymous
  cases req.requestedTenant <;> cases req.requester.isNone && !env.anonymousPublicReads <;> simp [hsearch]

theorem refillRound_ok (h : env.refillRound req clock db st = .ok r) :
    (∃ b, req.params.timeBounds env.api = .ok b) ∧
      (∃ a, cursorAnchor clock.decodeMs st.nextCursor = .ok a) ∧ env.refusesAnonymous req = false := by
  obtain ⟨resp, hresp, -⟩ := except_bind_ok.1 h
  obtain ⟨hopen, b, a, hb, ha, -⟩ := innerPage_ok_iff.1 hresp
  exact ⟨⟨b, hb⟩, ⟨a, ha⟩, hopen⟩

theorem runSearchWithRefill_ok {c : Option String} {clock : ℕ → PageClock}
    (h : env.runSearchWithRefill (req.withCursor c) clock db = .ok r) :
    (∃ b, req.params.timeBounds env.api = .ok b) ∧
      (∃ a, cursorAnchor (clock 0).decodeMs c = .ok a) ∧ env.refusesAnonymous req = false := by
  unfold runSearchWithRefill at h
  rw [refill_cursor] at h
  obtain ⟨st, hst, -⟩ := except_bind_ok.1 h
  exact refillRound_ok hst

theorem postFilter_rows (hdb : db.Unique) {rows : List ContextRow} {now : ℤ}
    (hrows : ∀ row ∈ rows, row ∈ db.contexts ∧ row.InTenant req.requestedTenant) :
    postFilter req db (rows.map (·.searchResult now)) =
      (rows.filter fun row => req.visibilityFilter.all (· = row.body.visibility)).map
        (·.searchResult now) := by
  have hvisible : ((rows.map (·.searchResult now)).filter fun m =>
      req.visibilityFilter.all fun want => m.visibility = some want) =
      (rows.filter fun row => req.visibilityFilter.all (· = row.body.visibility)).map
        (·.searchResult now) := by
    rw [List.filter_map]
    congr 1
    refine List.filter_congr fun row _ => ?_
    cases req.visibilityFilter <;> simp [ContextRow.searchResult, eq_comm]
  rw [← hvisible]
  cases ht : req.requestedTenant with
  | none => cases hv : req.visibilityFilter <;> simp [postFilter, ht, hv]
  | some tenant =>
    refine postFilter_tenant ?_ hdb ht
    intro m hm
    obtain ⟨row, hrow, rfl⟩ := List.mem_map.1 hm
    obtain ⟨hmem, htenant⟩ := hrows row hrow
    exact ⟨row, hmem, rfl, htenant tenant ht⟩

section Round

variable {clock : ℕ → ℕ → PageClock} {left : List ContextRow} {row : ContextRow}

section Fixed

variable (hfixed : StatusesFixed db clock)
include hfixed

theorem keepsRow_fixed (hrow : row ∈ db.contexts) (i j : ℕ) :
    env.keepsRow req (clock i j).now row = env.keepsRow req (clock 0 0).now row := by
  simp only [keepsRow, keeps, hfixed i j row hrow]

theorem selectsRow_and_keepsRow (hrow : row ∈ db.contexts) {i j : ℕ}
    (hsel : env.selectsRow req b (clock i j).now row = true)
    (hkeep : env.keepsRow req (clock i j).now row = true) :
    env.matchesRow req b (clock 0 0).now row = true := by
  rw [keepsRow_fixed hfixed hrow] at hkeep
  simp only [selectsRow, selects, Bool.and_eq_true] at hsel
  simp only [matchesRow, Bool.and_eq_true]
  exact ⟨hsel.1, hkeep⟩

theorem selectsRow_of_matchesRow (hrow : row ∈ db.contexts)
    (hmatch : env.matchesRow req b (clock 0 0).now row = true) {i j : ℕ}
    (hexact : row.FilterExact env.api env.dialect (clock i j).now) :
    env.selectsRow req b (clock i j).now row = true ∧ env.keepsRow req (clock i j).now row = true := by
  simp only [matchesRow, Bool.and_eq_true] at hmatch
  rw [← keepsRow_fixed hfixed hrow i j] at hmatch
  have hstatus : (row.servedStatus (clock i j).now).asStr = req.params.wantStatus := by
    have hkeep := hmatch.2
    simp only [keepsRow, keeps, Bool.and_eq_true, decide_eq_true_eq] at hkeep
    exact hkeep.1.1.1
  refine ⟨?_, hmatch.2⟩
  simp only [selectsRow, selects, Bool.and_eq_true]
  exact ⟨hmatch.1, hstatus ▸ hexact.statusCond⟩

theorem enumerates_filter {read : List ContextRow} (hread : ∀ row ∈ read, row ∈ db.contexts) (i j : ℕ) :
    env.Enumerates req b clock read ((read.filter (env.selectsRow req b (clock i j).now)).filter
      (env.keepsRow req (clock i j).now)) where
  sublist := List.filter_sublist.trans List.filter_sublist
  matching row hrow := by
    obtain ⟨hrow, hkeep⟩ := List.mem_filter.1 hrow
    obtain ⟨hrow, hsel⟩ := List.mem_filter.1 hrow
    exact selectsRow_and_keepsRow hfixed (hread row hrow) hsel hkeep
  complete row hrow hmatch hexact := by
    obtain ⟨hsel, hkeep⟩ := selectsRow_of_matchesRow hfixed (hread row hrow) hmatch (hexact i j)
    exact List.mem_filter.2 ⟨List.mem_filter.2 ⟨hrow, hsel⟩, hkeep⟩

end Fixed

theorem Serves.append {read read' : List ContextRow} {items items' : List SearchResult}
    (h : env.Serves req b clock read items) (h' : env.Serves req b clock read' items') :
    env.Serves req b clock (read ++ read') (items ++ items') := by
  obtain ⟨rows, henum, rfl⟩ := h
  obtain ⟨rows', henum', rfl⟩ := h'
  refine ⟨rows ++ rows', ⟨henum.sublist.append henum'.sublist, ?_, ?_⟩, List.map_append.symm⟩
  · intro row hrow
    exact (List.mem_append.1 hrow).elim (henum.matching row) (henum'.matching row)
  · intro row hrow hmatch hexact
    rw [List.mem_append]
    exact (List.mem_append.1 hrow).imp (henum.complete row · hmatch hexact)
      (henum'.complete row · hmatch hexact)

theorem pageLimit_target (params : SearchParams) :
    { params with limit := some (target params) }.pageLimit = target params := by
  show min (target params) 100 = target params
  unfold target searchLimitMax
  omega

theorem count_eq_length (rows : List ContextRow) (n : ℕ) :
    (if (rows.take (n + 1)).isEmpty then 0 else rows.length) = rows.length := by
  cases rows with
  | nil => rfl
  | cons row rows => rfl

theorem target_pos (params : SearchParams) : 0 < target params := by
  unfold target
  omega

variable (hkept : db.Kept) (hdated : db.Dated env.dialect)
  (hb : req.params.timeBounds env.api = .ok b) (hopen : env.refusesAnonymous req = false)
  (hfixed : StatusesFixed db clock)

include hkept hdated hb hopen hfixed

theorem refillRound_takes {i j : ℕ}
    (hstands : env.listing.StandsFor (env.listing.sort db.contexts) (clock i j).decodeMs st.nextCursor left) :
    ∃ page total m, env.refillRound req (clock i j) db st =
        .ok ⟨st.matches ++ page.items, total, page.nextCursor⟩ ∧
      Keyset.Takes (env.Serves req b clock)
        (fun c rest => ∀ t, ¬CursorAged (clock i j).mintMs.toInt t →
          env.listing.StandsFor (env.listing.sort db.contexts) t (some c) rest) left page m := by
  obtain ⟨hleft, anchor, hanchor, hrest⟩ := hstands
  have hunique : env.listing.Unique db.contexts := hkept.unique
  have hmem : ∀ row ∈ left, row ∈ db.contexts :=
    fun row hrow => (Listing.perm_sort _).mem_iff.1 (hleft.subset hrow)
  -- the page the store cuts out of what is left, then the handler's filters on it
  obtain ⟨m, htakes⟩ := Listing.takes_paginate env.api.pages (Listing.sorted_sort hunique)
    (fun row hrow => hkept.anchored hdated row ((Listing.perm_sort _).mem_iff.1 hrow)) hleft
    (target_pos req.params) (env.selectsRow req b (clock i j).now)
    (keeps env.dialect req.params (clock i j).now) (clock i j).mintMs
  set page := env.api.pages.paginate (target req.params) (keeps env.dialect req.params (clock i j).now)
    (env.listing.cursor (clock i j).mintMs)
    ((left.filter (env.selectsRow req b (clock i j).now)).take (target req.params + 1)) with hpage
  have hround : ∃ total, env.refillRound req (clock i j) db st = .ok ⟨st.matches ++
      (page.items.filter fun row => req.visibilityFilter.all (· = row.body.visibility)).map
        (·.searchResult (clock i j).now), total, page.nextCursor⟩ := by
    have hscan : scan env.api env.dialect { req.params with limit := some (target req.params) } b
        req.requester env.anonymousPublicReads req.requestedTenant (clock i j).now anchor db =
        left.filter (env.selectsRow req b (clock i j).now) := by
      rw [← hrest]
      exact Listing.scan_eq hunique (env.selectsRow req b (clock i j).now) anchor
    have hkeeps : keeps env.dialect { req.params with limit := some (target req.params) } =
        keeps env.dialect req.params := rfl
    let resp := searchPage env.api env.dialect { req.params with limit := some (target req.params) } b
      req.requester env.anonymousPublicReads req.requestedTenant (clock i j) db anchor
    refine ⟨st.totalEstimate.or resp.totalEstimate,
      except_bind_ok.2 ⟨resp, innerPage_ok_iff.2 ⟨hopen, b, anchor, hb, hanchor, rfl⟩, ?_⟩⟩
    rw [← postFilter_rows hkept.unique]
    · simp only [resp, searchPage, hscan, pageLimit_target, hkeeps]
      rfl
    · intro row hrow
      obtain ⟨hrow, hsel⟩ := List.mem_filter.1 (env.api.pages.mem_of_take hrow)
      simp only [selectsRow, selects, Bool.and_eq_true] at hsel
      exact ⟨hmem row hrow, ((searchable_iff _ _ _ _ _).1 hsel.1.1.1).2⟩
  obtain ⟨total, hround⟩ := hround
  refine ⟨⟨_, page.nextCursor⟩, total, m, hround, htakes.imp (fun hitems => ?_) fun _ _ h => h⟩
  have hread : ∀ row ∈ left.take m, row ∈ db.contexts := fun row hrow => hmem row (List.mem_of_mem_take hrow)
  have hkeep : page.items.filter (fun row => req.visibilityFilter.all (· = row.body.visibility)) =
      ((left.take m).filter (env.selectsRow req b (clock i j).now)).filter
        (env.keepsRow req (clock i j).now) := by
    rw [hitems, List.filter_filter]
    exact List.filter_congr fun row _ => Bool.and_comm ..
  refine ⟨_, enumerates_filter hfixed hread i j, ?_⟩
  rw [hkeep]
  refine List.map_congr_left fun row hrow => ?_
  have hrow := hread row (List.mem_of_mem_filter (List.mem_of_mem_filter hrow))
  simp only [ContextRow.searchResult, hfixed i j row hrow]

/-! ## One request -/

theorem refill_takes (hlives : Lives clock) {i : ℕ} (more j : ℕ) (st : SearchResponse)
    (hstands : env.listing.StandsFor (env.listing.sort db.contexts) (clock i j).decodeMs st.nextCursor left) :
    ∃ page total m, env.refill req (clock i) db more j st =
        .ok ⟨st.matches ++ page.items, total, page.nextCursor⟩ ∧
      Keyset.Takes (env.Serves req b clock)
        (fun c rest => env.listing.StandsFor (env.listing.sort db.contexts) (clock (i + 1) 0).decodeMs
          (some c) rest) left page m := by
  induction more generalizing j st left with
  | zero =>
    obtain ⟨page, total, m, hround, htakes⟩ := refillRound_takes hkept hdated hb hopen hfixed hstands
    exact ⟨page, total, m, hround, htakes.imp id fun c rest h => h _ (hlives.request i j)⟩
  | succ more ih =>
    obtain ⟨page, total, m, hround, htakes⟩ := refillRound_takes hkept hdated hb hopen hfixed hstands
    simp only [refill, hround]
    by_cases hgo : shouldRefill req ⟨st.matches ++ page.items, total, page.nextCursor⟩ = true
    · -- the loop goes on only if the page has a cursor, so rows are left
      have hlen : m < left.length := by
        by_contra hle
        rw [shouldRefill, htakes.done (not_lt.1 hle)] at hgo
        simp at hgo
      obtain ⟨c, hc, hrest⟩ := htakes.more hlen
      have hnext := hrest _ (hlives.round i j)
      rw [← hc] at hnext
      obtain ⟨page', total', m', hrefill, htakes'⟩ :=
        ih (j + 1) ⟨st.matches ++ page.items, total, page.nextCursor⟩ hnext
      refine ⟨_, total', _, ?_, htakes.append Serves.append htakes'⟩
      show (if shouldRefill req _ = true then _ else _) = _
      rw [if_pos hgo, hrefill, List.append_assoc]
    · refine ⟨page, total, m, ?_, htakes.imp id fun c rest h => h _ (hlives.request i j)⟩
      exact if_neg hgo

theorem search_follows (hlives : Lives clock) :
    ∃ items, Keyset.Follows (env.fetch req clock db) 0 none items ∧
      env.Serves req b clock (env.listing.sort db.contexts) items := by
  refine Keyset.follows_suffix Serves.append (fun i c left =>
    env.listing.StandsFor (env.listing.sort db.contexts) (clock i 0).decodeMs c left) ?_
    (Listing.standsFor_none _)
  intro i c left hstands
  obtain ⟨page, total, m, hrefill, htakes⟩ := refill_takes hkept hdated hb hopen hfixed hlives
    (searchRefillMaxPages - 1) 0 ⟨[], none, c⟩ hstands
  refine ⟨page, m, ?_, htakes⟩
  unfold fetch runSearchWithRefill
  rw [refill_cursor]
  show Except.map _ (env.refill req (clock i) db _ 0 ⟨[], none, c⟩) = _
  rw [hrefill]
  rfl

end Round

end SearchEnv

/-! ## Complete pagination -/

/-- **Keyset pagination is complete**, over kept tables and served statuses that do not change.
    Following `next_cursor` within its lifetime, `list_contexts` and `list_key_attestations` serve
    every matching row exactly once, the newest first; so does a search, but for a match whose expiry
    and a page's clock its status condition, which rounds them, compares the other way. -/
theorem pagination_complete (env : SearchEnv) {db : Db} (hkept : db.Kept) (hdated : db.Dated env.dialect)
    {clock : ℕ → ℕ → PageClock} (hlives : Lives clock) :
    let ids := env.dialect.collation env.api.collation
    (∀ req r, StatusesFixed db clock →
      env.runSearchWithRefill (req.withCursor none) (clock 0) db = .ok r →
      ∃ (b : TimeBounds) (rows : List ContextRow), req.params.timeBounds env.api = .ok b ∧
        Keyset.Follows (env.fetch req clock db) 0 none (rows.map (·.searchResult (clock 0 0).now)) ∧
        rows.Pairwise (NewestFirst ids) ∧
        (∀ row ∈ rows, row ∈ db.contexts ∧ env.matchesRow req b (clock 0 0).now row = true) ∧
        ∀ row ∈ db.contexts, env.matchesRow req b (clock 0 0).now row = true →
          (∀ i j, row.FilterExact env.api env.dialect (clock i j).now) → row ∈ rows) ∧
    (∀ limit requester tenant publicArmOpen, ∃ rows : List ContextRow,
      Keyset.Follows (fun i c => listContexts env.api.toListingApi env.dialect limit c requester tenant
        publicArmOpen (clock i 0).decodeMs (clock i 0).mintMs db) 0 none (rows.map (·.toContext)) ∧
      rows.Perm (db.contexts.filter (listed requester publicArmOpen tenant env.dialect)) ∧
      rows.Pairwise (NewestFirst ids)) ∧
    (∀ controller filter limit,
      ∃ (rows : List (KeyAttestationIndexRow × ContextRow)) (items : List KeyAttestationListItem),
        rows.mapM attestationItem = .ok items ∧
        Keyset.Follows (fun i c => listKeyAttestations env.api.toListingApi env.dialect controller filter c
          limit (clock i 0).decodeMs (clock i 0).mintMs db) 0 none items ∧
        (rows.map Prod.fst).Perm (db.keyAttestations.filter (filter.selects controller)) ∧
        (∀ r ∈ rows, db.context? r.1.ctxId = some r.2) ∧
        rows.Pairwise fun a b => NewestIndexFirst ids a.1 b.1) := by
  have hlive : Live (fun i => (clock i 0).decodeMs) fun i => (clock i 0).mintMs :=
    fun i => hlives.request i 0
  refine ⟨fun req r hfixed hfirst => ?_, listContexts_follows hkept hdated hlive,
    listKeyAttestations_follows hkept hdated hlive⟩
  obtain ⟨⟨b, hb⟩, -, hopen⟩ := SearchEnv.runSearchWithRefill_ok hfirst
  obtain ⟨items, hfollows, rows, henum, rfl⟩ :=
    SearchEnv.search_follows hkept hdated hb hopen hfixed hlives
  have hmem : ∀ row, row ∈ env.listing.sort db.contexts ↔ row ∈ db.contexts :=
    fun row => (Listing.perm_sort _).mem_iff
  have hsorted : (env.listing.sort db.contexts).Pairwise
      (NewestFirst (env.dialect.collation env.api.collation)) := hkept.newestFirst hdated
  refine ⟨b, rows, hb, hfollows, hsorted.sublist henum.sublist, fun row hrow => ?_, fun row hrow => ?_⟩
  · exact ⟨(hmem row).1 (henum.sublist.subset hrow), henum.matching row hrow⟩
  · exact henum.complete row ((hmem row).2 hrow)

namespace Sample

def attestedRow : ContextRow :=
  let row := publicRow "t2" "att" 9
  { row with body := { row.body with metadata := some (.object []) } }

def attestedIndex : KeyAttestationIndexRow where
  ctxId := "att"
  controller := "agent"
  identity := .spiffe "spiffe://agents.example.com/ci"
  orgWide := false
  keyId := "key"
  algorithm := "ed25519"
  keyFingerprint := "sha256:a375"
  notBeforeMs := 0
  notAfterMs := 600000
  tokenHash := "sha256:f7b7"
  createdAtMs := 9

def listedDb : Db := { contexts := attestedRow :: mixedRows, keyAttestations := [attestedIndex] }

theorem kept_listedDb : listedDb.Kept := by
  refine ⟨by unfold Db.Unique; decide, by decide, by decide, ?_⟩
  intro k hk
  obtain rfl := List.mem_singleton.1 hk
  exact ⟨attestedRow.body, List.mem_cons_self, rfl, by decide, by simp [attestedRow]⟩

theorem lives_searchClock : Lives (searchClock 0) := by
  have hage : ¬CursorAged (0 : Int64).toInt 1000 := by decide
  exact ⟨fun _ _ => hage, fun _ _ => hage⟩

end Sample

/-- One row a page, the three rows of a tenant among those of another. -/
theorem pagination_complete_sample :
    let env := Sample.searchEnv .sqlite
    ∃ rows : List ContextRow, Keyset.Follows
        (env.fetch Sample.tenantSearch (Sample.searchClock 0) Sample.listedDb) 0 none
        (rows.map (·.searchResult (10 ^ 9))) ∧
      rows.Pairwise (NewestFirst (Dialect.collation Sample.collation .sqlite)) ∧
      ∀ row ∈ Sample.listedDb.contexts, row ∈ rows ↔ row.tenantId = "t1" := by
  have hdated : Sample.listedDb.Dated .sqlite := by
    unfold Db.Dated
    decide +kernel
  have hall := pagination_complete (Sample.searchEnv .sqlite) Sample.kept_listedDb hdated
    Sample.lives_searchClock
  have hanswered : ((Sample.searchEnv .sqlite).runSearchWithRefill (Sample.tenantSearch.withCursor none)
      (Sample.searchClock 0 0) Sample.listedDb).toOption.isSome = true := by decide +kernel
  cases hfirst : (Sample.searchEnv .sqlite).runSearchWithRefill (Sample.tenantSearch.withCursor none)
      (Sample.searchClock 0 0) Sample.listedDb with
  | error e =>
    rw [hfirst] at hanswered
    simp [Except.toOption] at hanswered
  | ok r =>
    obtain ⟨b, rows, hb, hfollows, hsorted, hmatching, hcomplete⟩ :=
      hall.1 Sample.tenantSearch r (fun _ _ _ _ => rfl) hfirst
    obtain rfl : (⟨none, none, none, none, none, none⟩ : TimeBounds) = b := Except.ok.inj hb
    have hmatch : ∀ row ∈ Sample.listedDb.contexts, ((Sample.searchEnv .sqlite).matchesRow
        Sample.tenantSearch ⟨none, none, none, none, none, none⟩ (10 ^ 9) row = true ↔
          row.tenantId = "t1") ∧ row.status ≠ .retracted ∧ row.body.expiresAt = none := by decide +kernel
    refine ⟨rows, hfollows, hsorted, fun row hmem => ?_⟩
    obtain ⟨htenant, hstatus, hexpiry⟩ := hmatch row hmem
    refine ⟨fun hrow => htenant.1 (hmatching row hrow).2, fun hrow => ?_⟩
    refine hcomplete row hmem (htenant.2 hrow) fun _ _ => .inr ⟨hstatus, fun _ e he => ?_⟩
    rw [hexpiry] at he
    cases he

namespace Sample

/-- SQLite's rounded milliseconds of the three times of `expiringDb` and `expiringClock`. -/
def roundingEnv : SearchEnv where
  api := { searchApi with
    unixepoch := fun s => ([999400000, 1000000000, 1000000400].find? (Rfc3339.render · = s)).map
      fun t => roundMs (.ofNanos t) }
  dialect := .sqlite
  anonymousPublicReads := false
  anonymousDenied := .notAuthorized "anonymous search"

def expiringRow : ContextRow :=
  let row := publicRow "t1" "b" 5
  { row with body := { row.body with expiresAt := some 1000000400 } }

def expiringDb : Db := { contexts := [publicRow "t1" "a" 7, expiringRow] }

/-- Pages at 999.4 ms and, later, at 1000 ms. -/
def expiringClock (i _ : ℕ) : PageClock := ⟨1000, if i = 0 then 999400000 else 10 ^ 9, 0⟩

def expiringSearch : SearchRequest where
  requester := some "agent"
  params := { limit := some 1 }

end Sample

/-- A match that expires less than half a millisecond after the second page: it is active throughout, and
    the second page, the last, does not have it. -/
theorem rounded_expiry_misses_match :
    let env := Sample.roundingEnv
    let page (n : ℕ) := ((env.pageAt Sample.expiringSearch Sample.expiringClock Sample.expiringDb n).bind
      Except.toOption).map fun r => (r.matches.map (·.ctxId), r.nextCursor.isSome)
    Sample.expiringDb.Kept ∧ Sample.expiringDb.Dated .sqlite ∧ Lives Sample.expiringClock ∧
      StatusesFixed Sample.expiringDb Sample.expiringClock ∧
      (∀ i j, env.matchesRow Sample.expiringSearch ⟨none, none, none, none, none, none⟩
        (Sample.expiringClock i j).now Sample.expiringRow = true) ∧
      page 0 = some (["a"], true) ∧ page 1 = some ([], false) := by
  have hage : ¬CursorAged (0 : Int64).toInt 1000 := by decide
  have hclock : ∀ i j, (Sample.expiringClock i j).now = 999400000 ∨
      (Sample.expiringClock i j).now = 10 ^ 9 := fun i _ => ite_eq_or_eq (i = 0) _ _
  refine ⟨⟨by unfold Db.Unique; decide, by decide, by decide, by decide⟩, ?_,
    ⟨fun _ _ => hage, fun _ _ => hage⟩, fun i j => ?_, fun i j => ?_, by decide +kernel, by decide +kernel⟩
  · unfold Db.Dated
    decide +kernel
  · rcases hclock i j with hnow | hnow <;> rw [hnow] <;> decide +kernel
  · rcases hclock i j with hnow | hnow <;> rw [hnow] <;> decide +kernel

/-! ## The count -/

theorem searchPage_total (api : SearchApi) (d : Dialect) (p : SearchParams) (b : TimeBounds)
    (requester : Option String) (publicArmOpen : Bool) (tenant : Option String) (clock : PageClock) (db : Db)
    (anchor : Option KeysetAnchor) :
    (searchPage api d p b requester publicArmOpen tenant clock db anchor).totalEstimate =
      some ((db.contexts.filter (selects api d p b requester publicArmOpen tenant clock.now)).filter
        fun row => anchor.all fun a => (contextListing api.collation d).after a row).length := by
  simp only [searchPage, SearchEnv.count_eq_length]
  rw [scan, Listing.scan, Listing.length_sort, List.filter_filter]
  exact congrArg (some ∘ List.length) (List.filter_congr fun row _ => Bool.and_comm ..)

namespace SearchEnv

variable {env : SearchEnv} {req : SearchRequest} {db : Db}

theorem refillRound_total {b : TimeBounds} {anchor : Option KeysetAnchor}
    (hb : req.params.timeBounds env.api = .ok b)
    (hanchor : cursorAnchor clock.decodeMs st.nextCursor = .ok anchor)
    (h : env.refillRound req clock db st = .ok r) :
    r.totalEstimate = st.totalEstimate.or (some (((db.contexts.filter (env.selectsRow req b clock.now)).filter
      fun row => anchor.all fun a => (contextListing env.api.collation env.dialect).after a row).length)) := by
  obtain ⟨resp, hresp, h⟩ := except_bind_ok.1 h
  obtain ⟨-, b', anchor', hb', hanchor', rfl⟩ := innerPage_ok_iff.1 hresp
  cases hb.symm.trans hb'
  cases hanchor.symm.trans hanchor'
  cases h
  exact congrArg st.totalEstimate.or (searchPage_total ..)

theorem refill_total {clock : ℕ → PageClock} (more j : ℕ) {n : ℕ}
    (hst : st.totalEstimate = some n) (h : env.refill req clock db more j st = .ok r) :
    r.totalEstimate = some n := by
  have hround : ∀ {i st r}, st.totalEstimate = some n → env.refillRound req (clock i) db st = .ok r →
      r.totalEstimate = some n := by
    intro i st r hst h
    obtain ⟨⟨b, hb⟩, ⟨a, ha⟩, -⟩ := refillRound_ok h
    rw [refillRound_total hb ha h, hst, Option.some_or]
  induction more generalizing j st with
  | zero => exact hround hst h
  | succ more ih =>
    obtain ⟨st', hst', h⟩ := except_bind_ok.1 h
    split at h
    · exact ih (j + 1) (hround hst hst') h
    · cases h
      exact hround hst hst'

def cursorAt (env : SearchEnv) (req : SearchRequest) (clock : ℕ → ℕ → PageClock) (db : Db) :
    ℕ → Option (Option String)
  | 0 => some req.params.cursor
  | n + 1 => do
    let resp ← (← env.pageAt req clock db n).toOption
    let cursor ← resp.nextCursor
    return some cursor

theorem pageAt_eq (clock : ℕ → ℕ → PageClock) (n : ℕ) : env.pageAt req clock db n =
    (env.cursorAt req clock db n).map fun c =>
      env.runSearchWithRefill (req.withCursor c) (clock n) db := by
  cases n with
  | zero => rfl
  | succ n =>
    simp only [pageAt, cursorAt]
    cases env.pageAt req clock db n with
    | none => rfl
    | some answer =>
      cases answer with
      | error e => rfl
      | ok resp => cases hc : resp.nextCursor <;> simp [Except.toOption, hc]

end SearchEnv

/-- **What `total_estimate` counts.**  On both backends, a page serves the number of rows that are visible,
    in the tenant and selected, exactly if all of them are after the anchor of the page's cursor: on the
    first page, and not after rows that are still selected. -/
theorem total_estimate_iff (env : SearchEnv) (req : SearchRequest) (clock : ℕ → ℕ → PageClock) (db : Db)
    (n : ℕ) {r : SearchResponse} (h : env.pageAt req clock db n = some (.ok r)) :
    ∃ c b anchor, env.cursorAt req clock db n = some c ∧ req.params.timeBounds env.api = .ok b ∧
      cursorAnchor (clock n 0).decodeMs c = .ok anchor ∧
      (r.totalEstimate = some (db.contexts.filter (env.selectsRow req b (clock n 0).now)).length ↔
        ∀ row ∈ db.contexts, env.selectsRow req b (clock n 0).now row = true →
          ∀ a ∈ anchor, (contextListing env.api.collation env.dialect).after a row = true) := by
  rw [SearchEnv.pageAt_eq, Option.map_eq_some_iff] at h
  obtain ⟨c, hc, h⟩ := h
  obtain ⟨⟨b, hb⟩, ⟨anchor, hanchor⟩, -⟩ := SearchEnv.runSearchWithRefill_ok h
  refine ⟨c, b, anchor, hc, hb, hanchor, ?_⟩
  unfold SearchEnv.runSearchWithRefill at h
  rw [SearchEnv.refill_cursor] at h
  obtain ⟨st, hst, hrest⟩ := except_bind_ok.1 h
  have htotal := SearchEnv.refillRound_total hb hanchor hst
  have hserved : r.totalEstimate = st.totalEstimate := by
    split at hrest
    · rw [SearchEnv.refill_total _ _ htotal hrest, htotal]
      rfl
    · cases hrest
      rfl
  rw [hserved, htotal, Option.none_or, Option.some_inj, List.length_filter_eq_length_iff]
  simp only [List.mem_filter, and_imp]
  cases anchor <;> simp

/-- The second page of a search in a tenant, whose first page had one of the three rows. -/
theorem total_estimate_iff_sample :
    let env := Sample.searchEnv .sqlite
    let db : Db := { contexts := Sample.tenantRows }
    ∃ r, env.pageAt Sample.tenantSearch (Sample.searchClock 0) db 1 = some (.ok r) ∧
      r.totalEstimate = some 2 ∧
      ∃ c b anchor, env.cursorAt Sample.tenantSearch (Sample.searchClock 0) db 1 = some c ∧
        Sample.tenantSearch.params.timeBounds env.api = .ok b ∧ cursorAnchor 1000 c = .ok anchor ∧
        (r.totalEstimate = some (db.contexts.filter
            (env.selectsRow Sample.tenantSearch b (10 ^ 9))).length ↔
          ∀ row ∈ db.contexts, env.selectsRow Sample.tenantSearch b (10 ^ 9) row = true →
            ∀ a ∈ anchor, (contextListing env.api.collation .sqlite).after a row = true) := by
  intro env db
  have htotal : ((env.pageAt Sample.tenantSearch (Sample.searchClock 0) db 1).bind
      Except.toOption).bind (·.totalEstimate) = some 2 := by decide +kernel
  obtain ⟨r, hr, htotal⟩ := Option.bind_eq_some_iff.1 htotal
  obtain ⟨answer, hanswer, hr⟩ := Option.bind_eq_some_iff.1 hr
  cases answer with
  | error e => cases hr
  | ok r' =>
    cases hr
    exact ⟨r, hanswer, htotal, total_estimate_iff env Sample.tenantSearch (Sample.searchClock 0) db 1 hanswer⟩

/-- Three rows match on every page; the second page says two. -/
theorem later_page_undercounts :
    let db : Db := { contexts := Sample.tenantRows }
    let served (d : Dialect) (n : ℕ) : Option ℕ :=
      (((Sample.searchEnv d).pageAt Sample.tenantSearch (Sample.searchClock 0) db n).bind
        Except.toOption).bind (·.totalEstimate)
    let selected (d : Dialect) : ℕ := (db.contexts.filter ((Sample.searchEnv d).selectsRow
      Sample.tenantSearch ⟨none, none, none, none, none, none⟩ (10 ^ 9))).length
    ∀ d, served d 0 = some (selected d) ∧ served d 1 = some 2 ∧ selected d = 3 := by
  intro db served selected d
  cases d <;> decide +kernel

end AcdpRegistry
