/-
  Walks along the cursors of `list_contexts` and `list_key_attestations`.

  `Db.Kept` is what the tables of a reachable store have (`kept_reachable`): unique ids,
  creation times in whole milliseconds, and for every index row of an attestation its
  context, with the metadata it was derived from.  On such a store, following the cursors
  within their lifetime serves every row once, the newest first.
-/
import AcdpRegistry.Store.Listing
import AcdpRegistry.Store.Log

namespace AcdpRegistry

open Lib

/-! ## The tables -/

/-- What the tables of a reachable store have. -/
structure Db.Kept (db : Db) : Prop where
  unique : db.Unique
  /-- `created_at` is in whole milliseconds. -/
  millis : ∀ body ∈ db.contexts.map (·.body), wholeMs body.createdAt = body.createdAt
  indexUnique : (db.keyAttestations.map (·.ctxId)).Nodup
  indexed : ∀ k ∈ db.keyAttestations, ∃ body ∈ db.contexts.map (·.body), body.ctxId = k.ctxId ∧
    k.createdAtMs = timestampMillis body.createdAt ∧ body.metadata ≠ none

theorem Db.kept_empty : Db.Kept {} :=
  ⟨List.nodup_nil, fun _ h => absurd h List.not_mem_nil, List.nodup_nil,
    fun _ h => absurd h List.not_mem_nil⟩

/-- `KeyAttestation::from_body` reads the metadata. -/
def AcdpApi.ReadsMetadata (api : AcdpApi) : Prop :=
  ∀ body att, api.keyAttestationFromBody body = .ok att → body.metadata ≠ none

theorem Db.Kept.publish {st : SqlStore} {c : PublishCommit} {draw : PublishDraw} {seen : Db → Prop}
    {db : Db} {p : Publication} (h : db.Kept) (hapi : st.api.ReadsMetadata)
    (hacc : Accepted st c draw seen db p) : (db.publish p).Kept := by
  have hindex : ∀ k ∈ p.attestation, k.ctxId = p.row.body.ctxId ∧
      k.createdAtMs = timestampMillis p.row.body.createdAt ∧ p.row.body.metadata ≠ none := by
    intro k hk
    have hrow := hacc.attestation
    rw [show p.attestation = some k from hk] at hrow
    obtain ⟨att, hatt, rfl⟩ := indexRowFor_ok hrow
    exact ⟨rfl, rfl, hapi _ _ hatt⟩
  refine ⟨hacc.unique h.unique, ?_, ?_, ?_⟩
  · intro body hbody
    rw [Db.bodies_publish] at hbody
    rcases List.mem_append.1 hbody with hold | hnew
    · exact h.millis body hold
    · rw [List.mem_singleton.1 hnew, hacc.body]
      simp [Body.fromPublishRequest, wholeMs]
  · show ((db.keyAttestations ++ p.attestation.toList).map (·.ctxId)).Nodup
    cases hatt : p.attestation with
    | none => simpa using h.indexUnique
    | some k =>
      rw [List.map_append, List.nodup_append]
      refine ⟨h.indexUnique, by simp, ?_⟩
      -- an index row of the new id would have its context
      rintro id hold id' hnew rfl
      obtain ⟨k', hk', rfl⟩ := List.mem_map.1 hold
      obtain ⟨body, hbody, hid, -⟩ := h.indexed k' hk'
      have hfresh := Db.context?_eq_none.1 hacc.fresh
      rw [map_ctxId] at hfresh
      have hnew' : k'.ctxId = k.ctxId := by simpa using hnew
      rw [← (hindex k hatt).1, ← hnew', ← hid] at hfresh
      exact hfresh (List.mem_map_of_mem hbody)
  · intro k hk
    rw [Db.bodies_publish]
    rcases List.mem_append.1 hk with hold | hnew
    · obtain ⟨body, hbody, hrest⟩ := h.indexed k hold
      exact ⟨body, List.mem_append_left _ hbody, hrest⟩
    · obtain ⟨hid, hms, hmeta⟩ := hindex k (by simpa using hnew)
      exact ⟨p.row.body, by simp, hid.symm, hms, hmeta⟩

theorem CommitStep.kept {seen : Db → Prop} {call : Call} {db db' : Db} {a : CallDone}
    (h : CommitStep seen call db db' a) (hdb : db.Kept)
    (hapi : ∀ st c draw, call = .publish st c draw → st.api.ReadsMetadata) : db'.Kept := by
  cases h with
  | publish hacc => exact hdb.publish (hapi _ _ _ rfl) hacc
  | @event _ _ _ _ a =>
    have hbodies := Db.bodies_applyEvent a db
    refine ⟨?_, ?_, hdb.indexUnique, ?_⟩
    · rw [Db.Unique, Db.ctxIds_applyEvent]
      exact hdb.unique
    · rw [hbodies]
      exact hdb.millis
    · rw [hbodies]
      exact hdb.indexed
  | evict => exact ⟨hdb.unique, hdb.millis, hdb.indexUnique, hdb.indexed⟩

/-- **The tables of every reachable store are kept**, on either backend and in any interleaving. -/
theorem kept_reachable {ι : Type} {call : ι → Call} (S : StoreSchedule call) (h0 : S.db 0 = {})
    (hapi : ∀ i st c draw, call i = .publish st c draw → st.api.ReadsMetadata) (n : ℕ) :
    (S.db n).Kept := by
  refine S.keeps ?_ (fun n i hn hI => ?_) n
  · rw [h0]
    exact Db.kept_empty
  · obtain ⟨a, -, hs⟩ := commit_step S hn
    exact hs.kept (hI n le_rfl) (hapi i)

theorem kept_reachable_sample :
    ((Schedule.serial (fun i => (sampleLogCalls i).tx) {}).db 2).Kept ∧
      ((Schedule.serial (fun i => (sampleLogCalls i).tx) {}).db 2).contexts.length = 2 := by
  refine ⟨@kept_reachable _ sampleLogCalls (Schedule.serial _ {}) rfl ?_ 2, by decide⟩
  intro i st c draw h body att hatt hnone
  have hapi : st.api = Sample.api := by fin_cases i <;> cases h <;> rfl
  rw [hapi] at hatt
  change Sample.decodeAttestation body.metadata = _ at hatt
  rw [hnone] at hatt
  cases hatt

/-! ## Times -/

/-- An instant that the backend keeps in its order: on SQLite, of a year of four digits. -/
def Dialect.Dated : Dialect → ℤ → Prop
  | .sqlite, t => Rfc3339.InYears t
  | .postgres, t => Instant.check t = some t

instance (d : Dialect) (t : ℤ) : Decidable (d.Dated t) :=
  match d with
  | .sqlite => inferInstanceAs (Decidable (Rfc3339.InYears t))
  | .postgres => inferInstanceAs (Decidable (_ = _))

theorem Dialect.Dated.check {d : Dialect} {t : ℤ} (h : d.Dated t) : Instant.check t = some t := by
  cases d with
  | sqlite =>
    have hcalendar : Instant.minUtc ≤ Rfc3339.firstInstant ∧ Rfc3339.endInstant ≤ Instant.maxUtc := by
      decide +kernel
    exact if_pos ⟨hcalendar.1.trans h.1, h.2.le.trans hcalendar.2⟩
  | postgres => exact h

section Times

variable {d : Dialect} {s t : ℤ}

theorem stamp_postgres_of_millis (h : wholeMs t = t) : Dialect.stamp .postgres t = t := by
  simp only [wholeMs, Dialect.stamp] at *
  omega

theorem Dialect.timestamps_lt (hs : d.Dated s) (ht : d.Dated t) (hs' : wholeMs s = s)
    (ht' : wholeMs t = t) : d.timestamps.key s < d.timestamps.key t ↔ s < t := by
  cases d with
  | sqlite => exact Rfc3339.render_lt_render hs ht
  | postgres =>
    show Dialect.stamp .postgres s < Dialect.stamp .postgres t ↔ s < t
    rw [stamp_postgres_of_millis hs', stamp_postgres_of_millis ht']

theorem Dialect.timestamps_eq (hs : d.Dated s) (ht : d.Dated t) (hs' : wholeMs s = s)
    (ht' : wholeMs t = t) : d.timestamps.key s = d.timestamps.key t ↔ s = t := by
  cases d with
  | sqlite => exact Rfc3339.render_inj hs ht
  | postgres =>
    show Dialect.stamp .postgres s = Dialect.stamp .postgres t ↔ s = t
    rw [stamp_postgres_of_millis hs', stamp_postgres_of_millis ht']

end Times

/-! ## Walks -/

variable {mintMs : ℕ → Int64} {decodeMs : ℕ → ℤ}

/-- Every cursor is used within its lifetime: the one a request issues, in the next request. -/
def Live (decodeMs : ℕ → ℤ) (mintMs : ℕ → Int64) : Prop :=
  ∀ i, ¬CursorAged (mintMs i).toInt (decodeMs (i + 1))

/-- **A walk along a listing serves every row of it once**, in its order, if each request reads what is
    left after its cursor and issues the cursor of the last row it read. -/
theorem Listing.follows {A B : Type} {l : Listing A} (pages : Keyset.Paginator String) {rows : List A}
    (hunique : l.Unique rows) (hanchored : ∀ row ∈ rows, l.Anchored row) (hlive : Live decodeMs mintMs)
    {cond : A → Bool} {serve : A → Option B} {limit : ℕ} (hpos : 0 < limit)
    {fetch : ℕ → Option String → Except AcdpError (Keyset.Page B String)}
    (hfetch : ∀ i c anchor, AcdpRegistry.cursorAnchor (decodeMs i) c = .ok anchor →
      let page := pages.paginate limit (fun _ => true) (l.cursor (mintMs i))
        ((l.scan cond anchor rows).take (limit + 1))
      fetch i c = .ok ⟨page.items.filterMap serve, page.nextCursor⟩) :
    Keyset.Follows fetch 0 none ((l.sort (rows.filter cond)).filterMap serve) := by
  have hall : ∀ row ∈ l.sort rows, l.Anchored row := fun row hrow =>
    hanchored row ((perm_sort _).mem_iff.1 hrow)
  let serves (read : List A) (items : List B) : Prop := items = (read.filter cond).filterMap serve
  have happend : ∀ {read read' items items'}, serves read items → serves read' items' →
      serves (read ++ read') (items ++ items') := by
    rintro read read' _ _ rfl rfl
    rw [← List.filterMap_append, ← List.filter_append]
  obtain ⟨items, hfollows, hserves⟩ : ∃ items, Keyset.Follows fetch 0 none items ∧
      serves (l.sort rows) items := by
    refine Keyset.follows_suffix happend (fun i c left => l.StandsFor (l.sort rows) (decodeMs i) c left) ?_
      (standsFor_none _)
    rintro i c left ⟨hleft, anchor, hanchor, hrest⟩
    have hpage := hfetch i c anchor hanchor
    rw [scan_eq hunique, hrest] at hpage
    obtain ⟨m, htakes⟩ := takes_paginate pages (sorted_sort hunique) hall hleft hpos cond (fun _ => true)
      (mintMs i)
    refine ⟨_, m, hpage, htakes.imp (fun h => ?_) fun c' rest hstands => hstands _ (hlive i)⟩
    show _ = _
    rw [h, List.filter_true]
  rw [sort, Keyset.sort_filter hunique.keys]
  exact hserves ▸ hfollows

/-! ## `list_contexts` -/

/-- The newest first, and by ids within a millisecond. -/
def NewestFirst (ids : Collation) (a b : ContextRow) : Prop :=
  b.body.createdAt < a.body.createdAt ∨
    (b.body.createdAt = a.body.createdAt ∧ ids.key a.body.ctxId < ids.key b.body.ctxId)

section Contexts

variable {api : ListingApi} {d : Dialect} {db : Db}

/-- The rows of a store have creation times that its backend keeps in order. -/
def Db.Dated (d : Dialect) (db : Db) : Prop := ∀ row ∈ db.contexts, d.Dated row.body.createdAt

theorem Db.Kept.anchored (h : db.Kept) (hdated : db.Dated d) :
    ∀ row ∈ db.contexts, (contextListing api.collation d).Anchored row := by
  intro row hrow
  have hms := h.millis row.body (List.mem_map_of_mem hrow)
  refine ⟨row.body.createdAt, ?_, rfl⟩
  show Instant.check (wholeMs row.body.createdAt) = _
  rw [hms, (hdated row hrow).check]

theorem Db.Kept.newestFirst (h : db.Kept) (hdated : db.Dated d) :
    ((contextListing api.collation d).sort db.contexts).Pairwise
      (NewestFirst (d.collation api.collation)) := by
  have hunique : (contextListing api.collation d).Unique db.contexts := h.unique
  refine (Listing.sorted_sort hunique).imp_of_mem ?_
  intro a b ha hb hlt
  have ha := (Listing.perm_sort _).mem_iff.1 ha
  have hb := (Listing.perm_sort _).mem_iff.1 hb
  have hma := h.millis a.body (List.mem_map_of_mem ha)
  have hmb := h.millis b.body (List.mem_map_of_mem hb)
  rcases Prod.Lex.toLex_lt_toLex.1 hlt with hcreated | ⟨hcreated, hid⟩
  · exact .inl ((Dialect.timestamps_lt (hdated b hb) (hdated a ha) hmb hma).1 hcreated)
  · refine .inr ⟨((Dialect.timestamps_eq (hdated a ha) (hdated b hb) hma hmb).1 ?_).symm, hid⟩
    exact OrderDual.toDual_inj.1 hcreated

/-- **`list_contexts` serves every visible row once**, the newest first. -/
theorem listContexts_follows (h : db.Kept) (hdated : db.Dated d) (hlive : Live decodeMs mintMs)
    (limit : ℕ) (requester tenant : Option String) (publicArmOpen : Bool) :
    ∃ rows : List ContextRow,
      Keyset.Follows (fun i c => listContexts api d limit c requester tenant publicArmOpen
        (decodeMs i) (mintMs i) db) 0 none (rows.map (·.toContext)) ∧
      rows.Perm (db.contexts.filter (listed requester publicArmOpen tenant d)) ∧
      rows.Pairwise (NewestFirst (d.collation api.collation)) := by
  have hunique : (contextListing api.collation d).Unique db.contexts := h.unique
  have hsorted : ((contextListing api.collation d).sort (db.contexts.filter
      (listed requester publicArmOpen tenant d))).Pairwise (NewestFirst (d.collation api.collation)) := by
    rw [Listing.sort, Keyset.sort_filter hunique.keys]
    exact (h.newestFirst hdated).filter _
  refine ⟨_, ?_, Listing.perm_sort _, hsorted⟩
  have hpos : 0 < max 1 (min limit 200) := by omega
  rw [← List.filterMap_eq_map']
  refine Listing.follows api.pages hunique (h.anchored hdated) hlive hpos fun i c anchor hanchor => ?_
  simp only [listContexts, hanchor, List.filterMap_eq_map']
  rfl

end Contexts

/-! ## `list_key_attestations` -/

/-- Of index rows: the newest first, and by ids within a millisecond. -/
def NewestIndexFirst (ids : Collation) (a b : KeyAttestationIndexRow) : Prop :=
  b.createdAtMs < a.createdAtMs ∨ (b.createdAtMs = a.createdAtMs ∧ ids.key a.ctxId < ids.key b.ctxId)

theorem mapM_eq_filterMap {ε α β : Type} {f : α → Except ε β} {l : List α}
    (h : ∀ a ∈ l, ∃ b, f a = .ok b) : l.mapM f = .ok (l.filterMap fun a => (f a).toOption) := by
  induction l with
  | nil => rfl
  | cons a l ih =>
    obtain ⟨b, hb⟩ := h a List.mem_cons_self
    rw [List.mapM_cons, hb, ih fun a' ha' => h a' (List.mem_cons_of_mem _ ha'),
      List.filterMap_cons_some (by rw [hb]; rfl)]
    rfl

theorem filter_key_eq_singleton {A K : Type} [DecidableEq K] {f : A → K} {rows : List A}
    (h : (rows.map f).Nodup) {row : A} (hrow : row ∈ rows) : rows.filter (f · = f row) = [row] := by
  induction rows with
  | nil => simp at hrow
  | cons a rows ih =>
    rw [List.map_cons, List.nodup_cons] at h
    rcases List.mem_cons.1 hrow with rfl | hmem
    · rw [List.filter_cons_of_pos (by simp), List.filter_eq_nil_iff.2]
      intro b hb hkey
      exact h.1 (List.mem_map.2 ⟨b, hb, by simpa using hkey⟩)
    · have hne : f a ≠ f row := fun hkey => h.1 (hkey ▸ List.mem_map_of_mem hmem)
      rw [List.filter_cons_of_neg (by simpa using hne), ih h.2 hmem]

section Attestations

variable {api : ListingApi} {d : Dialect} {db : Db}

variable {r : KeyAttestationIndexRow × ContextRow}

theorem Db.mem_attestationJoin (h : r ∈ db.attestationJoin) :
    r.1 ∈ db.keyAttestations ∧ r.2 ∈ db.contexts ∧ r.2.body.ctxId = r.1.ctxId := by
  obtain ⟨k, hk, hr⟩ := List.mem_flatMap.1 h
  obtain ⟨c, hc, rfl⟩ := List.mem_map.1 hr
  obtain ⟨hmem, hid⟩ := List.mem_filter.1 hc
  exact ⟨hk, hmem, by simpa using hid⟩

variable (h : db.Kept)
include h

theorem Db.Kept.join_fst : db.attestationJoin.map Prod.fst = db.keyAttestations := by
  have hone : ∀ k ∈ db.keyAttestations,
      ((db.contexts.filter (·.body.ctxId = k.ctxId)).map fun c => (k, c)).map Prod.fst = [k] := by
    intro k hk
    obtain ⟨body, hbody, hid, -⟩ := h.indexed k hk
    obtain ⟨row, hrow, rfl⟩ := List.mem_map.1 hbody
    rw [← hid, filter_key_eq_singleton (f := fun r : ContextRow => r.body.ctxId) h.unique hrow]
    rfl
  rw [Db.attestationJoin, List.map_flatMap, List.flatMap_congr hone, List.flatMap_singleton']

theorem Db.Kept.of_mem_join (hr : r ∈ db.attestationJoin) :
    db.context? r.1.ctxId = some r.2 ∧
      r.1.createdAtMs = timestampMillis r.2.body.createdAt ∧ r.2.body.metadata ≠ none := by
  obtain ⟨hk, hc, hid⟩ := Db.mem_attestationJoin hr
  obtain ⟨body, hbody, hid', hms, hmeta⟩ := h.indexed _ hk
  obtain ⟨row, hrow, rfl⟩ := List.mem_map.1 hbody
  obtain rfl : row = r.2 := List.inj_on_of_nodup_map h.unique hrow hc (hid'.trans hid.symm)
  exact ⟨hid ▸ h.unique.context? hc, hms, hmeta⟩

theorem Db.Kept.join_unique : (attestationListing api.collation d).Unique db.attestationJoin := by
  show (db.attestationJoin.map fun r => r.1.ctxId).Nodup
  have hmap : (db.attestationJoin.map fun r => r.1.ctxId) = db.keyAttestations.map (·.ctxId) := by
    rw [← h.join_fst, List.map_map]
    rfl
  rw [hmap]
  exact h.indexUnique

theorem Db.Kept.join_anchored (hdated : db.Dated d) :
    ∀ r ∈ db.attestationJoin, (attestationListing api.collation d).Anchored r := by
  intro r hr
  obtain ⟨-, hms, -⟩ := h.of_mem_join hr
  have hrow := (Db.mem_attestationJoin hr).2.1
  refine ⟨r.2.body.createdAt, ?_, hms.symm⟩
  show Instant.check (r.1.createdAtMs * 10 ^ 6) = _
  rw [hms, show timestampMillis r.2.body.createdAt * 10 ^ 6 = wholeMs r.2.body.createdAt from rfl,
    h.millis _ (List.mem_map_of_mem hrow), (hdated r.2 hrow).check]

theorem Db.Kept.attestationItem_ok (hr : r ∈ db.attestationJoin) :
    ∃ item, attestationItem r = .ok item := by
  obtain ⟨metadata, hmeta⟩ := Option.ne_none_iff_exists'.1 (h.of_mem_join hr).2.2
  unfold attestationItem listItem
  rw [hmeta]
  exact ⟨_, rfl⟩

/-- **`list_key_attestations` serves every matching attestation once**, the newest first. -/
theorem listKeyAttestations_follows (hdated : db.Dated d) (hlive : Live decodeMs mintMs)
    (controller : String) (filter : KeyAttestationFilter) (limit : ℕ) :
    ∃ (rows : List (KeyAttestationIndexRow × ContextRow)) (items : List KeyAttestationListItem),
      rows.mapM attestationItem = .ok items ∧
      Keyset.Follows (fun i c => listKeyAttestations api d controller filter c limit (decodeMs i)
        (mintMs i) db) 0 none items ∧
      (rows.map Prod.fst).Perm (db.keyAttestations.filter (filter.selects controller)) ∧
      (∀ r ∈ rows, db.context? r.1.ctxId = some r.2) ∧
      rows.Pairwise fun a b => NewestIndexFirst (d.collation api.collation) a.1 b.1 := by
  let cond (r : KeyAttestationIndexRow × ContextRow) : Bool := filter.selects controller r.1
  let l := attestationListing api.collation d
  have hunique : l.Unique db.attestationJoin := h.join_unique
  have hmem : ∀ r ∈ l.sort (db.attestationJoin.filter cond), r ∈ db.attestationJoin := fun r hr =>
    List.mem_of_mem_filter ((Listing.perm_sort _).mem_iff.1 hr)
  refine ⟨l.sort (db.attestationJoin.filter cond), _,
    mapM_eq_filterMap fun r hr => h.attestationItem_ok (hmem r hr), ?_, ?_,
    fun r hr => (h.of_mem_join (hmem r hr)).1, ?_⟩
  · have hpos : 0 < max 1 (min limit maxListLimit) := by omega
    refine Listing.follows api.pages hunique (h.join_anchored hdated) hlive hpos fun i c anchor hanchor => ?_
    have hitems := mapM_eq_filterMap (f := attestationItem) (l := (api.pages.paginate
      (max 1 (min limit maxListLimit)) (fun _ => true) (l.cursor (mintMs i))
      ((l.scan cond anchor db.attestationJoin).take (max 1 (min limit maxListLimit) + 1))).items) ?_
    · exact except_bind_ok.2 ⟨anchor, hanchor, except_bind_ok.2 ⟨_, hitems, rfl⟩⟩
    · intro r hr
      rw [api.pages.items_take, List.mem_filter] at hr
      exact h.attestationItem_ok (Listing.mem_scan (List.mem_of_mem_take hr.1)).1
  · refine ((Listing.perm_sort _).map Prod.fst).trans ?_
    rw [← h.join_fst, List.filter_map]
    exact .refl _
  · refine (Listing.sorted_sort (hunique.filter cond)).imp fun {a b} hlt => ?_
    rcases Prod.Lex.toLex_lt_toLex.1 hlt with hcreated | ⟨hcreated, hid⟩
    · exact .inl hcreated
    · exact .inr ⟨(OrderDual.toDual_inj.1 hcreated).symm, hid⟩

end Attestations

end AcdpRegistry
