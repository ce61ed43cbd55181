/-
  Keyset listings of the SQL backends: their order and their cursors, `list_contexts`,
  and `list_key_attestations`.

  Every listing is `ORDER BY created_at DESC, ctx_id ASC`; a page is what comes after the
  anchor that its cursor carries.  SQLite keeps a context's `created_at` as RFC 3339 text
  and compares texts, Postgres keeps it as an instant in microseconds; the index of key
  attestations has it in milliseconds on both.  Postgres compares ids in the database's
  collation.

  `StandsFor` says which rows are left at a cursor; `takes_paginate`: a page takes the
  first of them, and its cursor stands for the rest.
-/
import AcdpRegistry.Store.Visibility
import AcdpRegistry.Store.SearchCursor
import AcdpRegistry.Lib.Rfc3339
import AcdpRegistry.Lib.Keyset
import Mathlib.Data.Prod.Lex

namespace AcdpRegistry

open Lib

/-! ## Cursors -/

def cursorAnchor (decodeMs : ℤ) (cursor : Option String) : Except AcdpError (Option KeysetAnchor) :=
  match cursor with
  | none => .ok none
  | some c => (decodeCursor decodeMs c).map some

theorem isI64_toInt (m : Int64) : IsI64 m.toInt := by
  have hlo := m.le_toInt
  have hhi := m.toInt_lt
  unfold IsI64
  omega

/-! ## Listings -/

/-- A listing of rows, by the columns of its `ORDER BY created_at DESC, ctx_id ASC`. -/
structure Listing (A : Type) where
  /-- How instants are bound and compare. -/
  times : Keyset.SortKey ℤ
  /-- How ids compare. -/
  ids : Keyset.SortKey String
  ids_injective : Function.Injective ids.key
  /-- The time column. -/
  created : A → times.Key
  ctxId : A → String
  /-- The time in the cursor of a row. -/
  millis : A → ℤ

namespace Listing

variable {A : Type} (l : Listing A)

/-- `created_at < a OR (created_at = a AND ctx_id > id)`. -/
def after (anchor : KeysetAnchor) (row : A) : Bool :=
  let at_ := l.times.key anchor.createdAt
  l.created row < at_ || (l.created row = at_ && l.ids.key anchor.ctxId < l.ids.key (l.ctxId row))

def key (row : A) : Lex (l.times.Keyᵒᵈ × l.ids.Key) :=
  toLex (OrderDual.toDual (l.created row), l.ids.key (l.ctxId row))

/-- `ORDER BY created_at DESC, ctx_id ASC`. -/
def sort (rows : List A) : List A := Keyset.sort l.key rows

/-- The rows of a statement before its `LIMIT`, in its order. -/
def scan (cond : A → Bool) (anchor : Option KeysetAnchor) (rows : List A) : List A :=
  l.sort (rows.filter fun row => cond row && anchor.all fun a => l.after a row)

def cursor (mintMs : Int64) (row : A) : String :=
  encodeCursor mintMs.toInt (l.millis row) (l.ctxId row)

def Unique (rows : List A) : Prop := (rows.map l.ctxId).Nodup

/-- The instant in the cursor of the row is the row's. -/
def Anchored (row : A) : Prop :=
  ∃ t, Instant.ofMillis (l.millis row) = some t ∧ l.times.key t = l.created row

variable {l} {rows : List A}

theorem Unique.filter (h : l.Unique rows) (p : A → Bool) : l.Unique (rows.filter p) :=
  h.sublist (List.filter_sublist.map _)

theorem Unique.keys (h : l.Unique rows) : (rows.map l.key).Nodup := by
  refine List.pairwise_map.2 ((List.pairwise_map.1 h).imp fun hne hkey => hne ?_)
  exact l.ids_injective (Prod.ext_iff.1 hkey).2

theorem perm_sort (rows : List A) : (l.sort rows).Perm rows := Keyset.perm_sort rows

theorem length_sort (rows : List A) : (l.sort rows).length = rows.length := (perm_sort rows).length_eq

theorem sorted_sort (h : l.Unique rows) : Keyset.Sorted l.key (l.sort rows) := Keyset.sorted_sort h.keys

theorem mem_scan {cond : A → Bool} {anchor : Option KeysetAnchor} {row : A}
    (h : row ∈ l.scan cond anchor rows) : row ∈ rows ∧ cond row = true := by
  obtain ⟨hrow, hcond⟩ := List.mem_filter.1 ((perm_sort _).mem_iff.1 h)
  exact ⟨hrow, (Bool.and_eq_true_iff.1 hcond).1⟩

theorem scan_eq (h : l.Unique rows) (cond : A → Bool) (anchor : Option KeysetAnchor) :
    l.scan cond anchor rows =
      ((l.sort rows).filter fun row => anchor.all fun a => l.after a row).filter cond := by
  rw [List.filter_filter, scan, sort, Keyset.sort_filter h.keys]
  rfl

theorem scan_eq_of_perm {rows' : List A} {cond : A → Bool} (h : l.Unique (rows.filter cond))
    (hperm : (rows.filter cond).Perm (rows'.filter cond)) (anchor : Option KeysetAnchor) :
    l.scan cond anchor rows = l.scan cond anchor rows' := by
  have hfilter : ∀ rows : List A, (rows.filter fun row => cond row && anchor.all fun a => l.after a row) =
      (rows.filter cond).filter fun row => anchor.all fun a => l.after a row := by
    intro rows
    rw [List.filter_filter]
    exact List.filter_congr fun row _ => Bool.and_comm ..
  unfold scan
  rw [hfilter, hfilter rows']
  exact Keyset.sort_eq_of_perm (h.filter _).keys (hperm.filter _)

theorem after_iff {a : KeysetAnchor} {last row : A} (hat : l.times.key a.createdAt = l.created last)
    (hid : a.ctxId = l.ctxId last) : l.after a row = true ↔ l.key last < l.key row := by
  simp only [after, key, hat, hid, Prod.Lex.toLex_lt_toLex, Bool.or_eq_true, Bool.and_eq_true,
    decide_eq_true_eq, OrderDual.toDual_lt_toDual, OrderDual.toDual_inj]
  rw [@eq_comm _ (l.created row)]

theorem Anchored.cursorAnchor {row : A} (h : l.Anchored row) {mintMs : Int64} {t : ℤ}
    (hage : ¬CursorAged mintMs.toInt t) :
    ∃ a, cursorAnchor t (some (l.cursor mintMs row)) = .ok (some a) ∧
      l.times.key a.createdAt = l.created row ∧ a.ctxId = l.ctxId row := by
  obtain ⟨at_, hat, hcreated⟩ := h
  refine ⟨⟨at_, l.ctxId row⟩, ?_, hcreated, rfl⟩
  rw [AcdpRegistry.cursorAnchor, cursor, decodeCursor_encodeCursor (isI64_toInt mintMs),
    if_neg (not_not.2 (isI64_of_ofMillis hat)), if_neg hage, hat]
  rfl

/-! ## What a cursor stands for -/

/-- These rows, a last part of the listing, are left at a cursor that is decoded at this time. -/
def StandsFor (l : Listing A) (all : List A) (decodeMs : ℤ) (cursor : Option String)
    (left : List A) : Prop :=
  left <:+ all ∧ ∃ anchor, AcdpRegistry.cursorAnchor decodeMs cursor = .ok anchor ∧
    (all.filter fun row => anchor.all fun a => l.after a row) = left

variable {all left : List A}

theorem standsFor_none (t : ℤ) : l.StandsFor all t none all :=
  ⟨List.suffix_rfl, none, rfl, List.filter_eq_self.2 fun _ _ => rfl⟩

theorem standsFor_cursor (hall : Keyset.Sorted l.key all) (hleft : left <:+ all) {m : ℕ} {last : A}
    (hlast : (left.take m).getLast? = some last) (hanchored : l.Anchored last) {mintMs : Int64} {t : ℤ}
    (hage : ¬CursorAged mintMs.toInt t) :
    l.StandsFor all t (some (l.cursor mintMs last)) (left.drop m) := by
  obtain ⟨before, rfl⟩ := hleft
  obtain ⟨a, ha, hat, hid⟩ := hanchored.cursorAnchor hage
  have hsplit : before ++ left = before ++ left.take m ++ left.drop m := by
    rw [List.append_assoc, List.take_append_drop]
  refine ⟨(List.drop_suffix m left).trans (List.suffix_append _ _), some a, ha, ?_⟩
  rw [hsplit] at hall ⊢
  refine (List.filter_congr fun row _ => ?_).trans (hall.filter_after hlast)
  exact Bool.eq_iff_iff.2 ((after_iff hat hid).trans decide_eq_true_iff.symm)

/-- **A page takes the first rows that are left**, up to the last it reads, and its cursor stands for the
    rest, as long as it is not too old. -/
theorem takes_paginate (pages : Keyset.Paginator String) (hall : Keyset.Sorted l.key all)
    (hanchored : ∀ row ∈ all, l.Anchored row) (hleft : left <:+ all) {limit : ℕ} (hpos : 0 < limit)
    (cond keep : A → Bool) (mintMs : Int64) :
    ∃ m, Keyset.Takes (fun rows items => items = (rows.filter cond).filter keep)
      (fun c rest => ∀ t, ¬CursorAged mintMs.toInt t → l.StandsFor all t (some c) rest) left
      (pages.paginate limit keep (l.cursor mintMs) ((left.filter cond).take (limit + 1))) m := by
  by_cases hlen : limit < (left.filter cond).length
  · obtain ⟨page, rest, last, rfl, hrest, hpage, hlast, hread⟩ := Keyset.exists_cut_filter hpos hlen
    refine ⟨page.length, List.length_pos_of_mem (List.mem_of_getLast? hlast), ?_, fun hle => ?_, fun _ => ?_⟩
    · rw [pages.items_take, List.take_left, hpage]
    · rw [List.length_append] at hle
      exact absurd (List.length_eq_zero_iff.1 (by omega)) hrest
    · refine ⟨_, by rw [pages.nextCursor_take, if_pos hlen, hread, Option.map_some], fun t hage => ?_⟩
      refine standsFor_cursor hall hleft (by rw [List.take_left, hlast]) (hanchored _ ?_) hage
      exact hleft.subset (List.mem_append_left _ (List.mem_of_getLast? hlast))
  · refine ⟨left.length + 1, Nat.succ_pos _, ?_, fun _ => ?_, fun hlt => absurd hlt (by omega)⟩
    · rw [pages.items_take, List.take_of_length_le (not_lt.1 hlen),
        List.take_of_length_le (Nat.le_succ _)]
    · rw [pages.nextCursor_take, if_neg hlen]

end Listing

/-! ## Contexts -/

/-- How a backend keeps `created_at`. -/
def Dialect.timestamps : Dialect → Keyset.SortKey ℤ
  | .sqlite => { Key := String, key := Rfc3339.render }
  | .postgres => { Key := ℤ, key := stamp .postgres }

/-- The collation of a Postgres database; texts with one sort key are equal. -/
structure Collation extends Keyset.SortKey String where
  injective : Function.Injective key

/-- How ids compare: SQLite compares texts. -/
def Dialect.collation (database : Collation) : Dialect → Collation
  | .sqlite => { Key := String, key := id, injective := Function.injective_id }
  | .postgres => database

/-- What listings take from the database and from the protocol crate. -/
structure ListingApi where
  collation : Collation
  /-- `acdp::pagination::try_paginate_rows`. -/
  pages : Keyset.Paginator String

def contextListing (database : Collation) (d : Dialect) : Listing ContextRow where
  times := d.timestamps
  ids := (d.collation database).toSortKey
  ids_injective := (d.collation database).injective
  created row := d.timestamps.key row.body.createdAt
  ctxId row := row.body.ctxId
  millis row := timestampMillis row.body.createdAt

/-- `list_contexts`, with its readings of the clock. -/
def listContexts (api : ListingApi) (d : Dialect) (limit : ℕ) (cursor requester tenant : Option String)
    (publicArmOpen : Bool) (decodeMs : ℤ) (mintMs : Int64) (db : Db) :
    Except AcdpError (Keyset.Page FullContext String) := do
  let limit := max 1 (min limit 200)
  let anchor ← cursorAnchor decodeMs cursor
  let l := contextListing api.collation d
  let rows := (l.scan (listed requester publicArmOpen tenant d) anchor db.contexts).take (limit + 1)
  let page := api.pages.paginate limit (fun _ => true) (l.cursor mintMs) rows
  return ⟨page.items.map (·.toContext), page.nextCursor⟩

/-! ## Key attestations -/

def maxListLimit : ℕ := 200

structure KeyAttestationListItem where
  ctxId : String
  contentHash : String
  metadata : Json

def listItem (ctxId contentHash : String) (body : Body) : Except AcdpError KeyAttestationListItem :=
  match body.metadata with
  | some metadata => .ok { ctxId, contentHash, metadata }
  | none => .error (.registryInternal s!"key attestation '{ctxId}' has no metadata")

/-- An attestation in the list, from its index row and its context. -/
def attestationItem (r : KeyAttestationIndexRow × ContextRow) : Except AcdpError KeyAttestationListItem :=
  listItem r.1.ctxId r.2.body.contentHash r.2.body

/-- The `issuer` column; a SPIFFE identity has none. -/
def KeyAttestationIndexRow.issuer (row : KeyAttestationIndexRow) : Option String :=
  match row.identity with
  | .oidc issuer _ => some issuer
  | .spiffe _ => none

def KeyAttestationIndexRow.subject (row : KeyAttestationIndexRow) : String :=
  match row.identity with
  | .oidc _ subject => subject
  | .spiffe subject => subject

structure KeyAttestationFilter where
  issuer : Option String := none
  subject : Option String := none

/-- The conditions on an index row. -/
def KeyAttestationFilter.selects (filter : KeyAttestationFilter) (controller : String)
    (row : KeyAttestationIndexRow) : Bool :=
  row.controller = controller && filter.issuer.all (fun i => row.issuer = some i) &&
    filter.subject.all (fun s => row.subject = s)

/-- `key_attestations k JOIN contexts c ON c.ctx_id = k.ctx_id`. -/
def Db.attestationJoin (db : Db) : List (KeyAttestationIndexRow × ContextRow) :=
  db.keyAttestations.flatMap fun k =>
    (db.contexts.filter (·.body.ctxId = k.ctxId)).map fun c => (k, c)

def attestationListing (database : Collation) (d : Dialect) :
    Listing (KeyAttestationIndexRow × ContextRow) where
  times := { Key := ℤ, key := timestampMillis }
  ids := (d.collation database).toSortKey
  ids_injective := (d.collation database).injective
  created r := r.1.createdAtMs
  ctxId r := r.1.ctxId
  millis r := r.1.createdAtMs

/-- `list_key_attestations`, with its readings of the clock. -/
def listKeyAttestations (api : ListingApi) (d : Dialect) (controller : String)
    (filter : KeyAttestationFilter) (cursor : Option String) (limit : ℕ) (decodeMs : ℤ) (mintMs : Int64)
    (db : Db) : Except AcdpError (Keyset.Page KeyAttestationListItem String) := do
  let limit := max 1 (min limit maxListLimit)
  let anchor ← cursorAnchor decodeMs cursor
  let l := attestationListing api.collation d
  let rows := (l.scan (fun r => filter.selects controller r.1) anchor db.attestationJoin).take (limit + 1)
  let page := api.pages.paginate limit (fun _ => true) (l.cursor mintMs) rows
  let items ← page.items.mapM attestationItem
  return ⟨items, page.nextCursor⟩

end AcdpRegistry
