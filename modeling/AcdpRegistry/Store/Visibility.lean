/-
  Who may see a context: the disclosure rule of retrieval as the SQL backends write
  it into their statements, in `list_contexts` and `visible_ctx_ids`, and the
  stricter one of search.

  The conditions are the source's texts with their placeholders; each statement's
  values are bound in the order the source binds them.
-/
import AcdpRegistry.Store.Read
import AcdpRegistry.Lib.Sql
import Mathlib.Data.Finset.Basic

namespace AcdpRegistry

open Lib Lib.Sql

/-! ## The columns -/

/-- The columns of `contexts` that the disclosure rules read. -/
inductive ContextColumn
  | ctxId
  | agentId
  | visibility
  | tenantId

/-- The JSON arrays they read. -/
inductive ContextArray
  | audience

/-- A visibility as `insert_body` writes it. -/
def Visibility.asStr : Visibility → String
  | .public_ => "public"
  | .restricted => "restricted"
  | .private_ => "private"

def ContextRow.tuple (row : ContextRow) : Tuple ContextColumn ContextArray where
  col
    | .ctxId => .text row.body.ctxId
    | .agentId => .text row.body.agentId
    | .visibility => .text row.body.visibility.asStr
    | .tenantId => .text row.tenantId
  array
    | .audience => row.body.audience

abbrev ContextCond := Cond ContextColumn ContextArray

/-- `visibility = '…'`. -/
def visibilityIs (v : Visibility) : ContextCond := .eq (.col .visibility) (.lit (.text v.asStr))

/-! ## The conditions -/

def listVisibilitySqlite : ContextCond :=
  .or (.and (visibilityIs .public_) (.or (.isNotNull .next) (.truth .next)))
    (.and (.isNotNull .next)
      (.or (.eq (.col .agentId) .next) (.jsonEach .audience .next)))

def listVisibilityPg : ContextCond :=
  .or (.and (visibilityIs .public_) (.or (.isNotNull (.nth 1)) (.truth (.nth 2))))
    (.and (.isNotNull (.nth 1))
      (.or (.eq (.col .agentId) (.nth 1)) (.jsonContains .audience (.nth 1))))

def searchVisibilitySqlite : ContextCond :=
  .or (.or
    (.and (visibilityIs .public_) (.or (.isNotNull .next) (.truth .next)))
    (.and (.and (visibilityIs .restricted) (.isNotNull .next))
      (.or (.eq (.col .agentId) .next) (.jsonEach .audience .next))))
    (.and (.and (visibilityIs .private_) (.isNotNull .next)) (.eq (.col .agentId) .next))

/-- The disclosure of the Postgres `search_inner`, whose requester is `$1` and whose flag is `$2`. -/
def searchVisibilityPg : ContextCond :=
  .or (.or
    (.and (visibilityIs .public_) (.or (.isNotNull (.nth 1)) (.truth (.nth 2))))
    (.and (.and (visibilityIs .restricted) (.isNotNull (.nth 1)))
      (.or (.eq (.col .agentId) (.nth 1)) (.jsonContains .audience (.nth 1)))))
    (.and (.and (visibilityIs .private_) (.isNotNull (.nth 1))) (.eq (.col .agentId) (.nth 1)))

/-- ` AND tenant_id = …`, pushed if a tenant is given. -/
def andTenant (c : ContextCond) (tenant : Option String) (placeholder : Term ContextColumn) :
    ContextCond :=
  if tenant.isSome then .and c (.eq (.col .tenantId) placeholder) else c

section Statements

variable (requester : Option String) (publicArmOpen : Bool) (tenant : Option String)

/-- The requester as it is bound: a text, or `NULL`. -/
abbrev boundRequester : Value := .ofOption requester

abbrev boundTenant : List Value := tenant.toList.map .text

/-- The rows that `list_contexts` may list, without its keyset condition. -/
def listed (d : Dialect) (row : ContextRow) : Bool :=
  let req := boundRequester requester
  match d with
  | .sqlite =>
    (andTenant listVisibilitySqlite tenant .next).holds row.tuple
      ([req, .bool publicArmOpen, req, req, req] ++ boundTenant tenant)
  | .postgres =>
    (andTenant listVisibilityPg tenant (.nth 3)).holds row.tuple
      ([req, .bool publicArmOpen] ++ boundTenant tenant)

/-- The rows that `search_inner` may find, without the request's own filters and the keyset. -/
def searchable (d : Dialect) (row : ContextRow) : Bool :=
  let req := boundRequester requester
  match d with
  | .sqlite =>
    (andTenant searchVisibilitySqlite tenant .next).holds row.tuple
      ([req, .bool publicArmOpen, req, req, req, req, req] ++ boundTenant tenant)
  | .postgres =>
    (andTenant searchVisibilityPg tenant (.nth 3)).holds row.tuple
      ([req, .bool publicArmOpen] ++ boundTenant tenant)

def visibleCtxIdsChunk : ℕ := 900

/-- `slice::chunks`: at most `n + 1` elements each. -/
def chunks {α : Type} (n : ℕ) (xs : List α) : List (List α) :=
  if h : xs = [] then [] else xs.take (n + 1) :: chunks n (xs.drop (n + 1))
termination_by xs.length
decreasing_by
  have := List.length_pos_iff.2 h
  rw [List.length_drop]
  omega

theorem flatten_chunks {α : Type} (n : ℕ) (xs : List α) : (chunks n xs).flatten = xs := by
  fun_induction chunks n xs with
  | case1 => rfl
  | case2 xs _ ih => rw [List.flatten_cons, ih, List.take_append_drop]

/-- The rows that one `visible_ctx_ids` statement selects. -/
def idVisible (d : Dialect) (ids : List String) (row : ContextRow) : Bool :=
  let req := boundRequester requester
  match d with
  | .sqlite =>
    (andTenant (.and (.inNext (.col .ctxId) ids.length) listVisibilitySqlite) tenant .next).holds
      row.tuple (ids.map .text ++ [req, .bool publicArmOpen, req, req, req] ++ boundTenant tenant)
  | .postgres =>
    (andTenant (.and (.eqAny (.col .ctxId) (.nth 3)) listVisibilityPg) tenant (.nth 4)).holds
      row.tuple ([req, .bool publicArmOpen, .array ids] ++ boundTenant tenant)

/-- The ids that one `visible_ctx_ids` statement returns. -/
def selectVisible (d : Dialect) (db : Db) (ids : List String) : List String :=
  (db.contexts.filter (idVisible requester publicArmOpen tenant d ids)).map (·.body.ctxId)

/-- `visible_ctx_ids`: SQLite asks for the ids in chunks, Postgres for all at once. -/
def visibleCtxIds (d : Dialect) (db : Db) (ctxIds : List String) : Finset String :=
  if ctxIds.isEmpty then ∅
  else
    match d with
    | .sqlite => (chunks (visibleCtxIdsChunk - 1) ctxIds).foldl (fun out chunk =>
        out ∪ (selectVisible requester publicArmOpen tenant d db chunk).toFinset) ∅
    | .postgres => (selectVisible requester publicArmOpen tenant d db ctxIds).toFinset

end Statements

/-! ## What they say -/

variable {body : Body}

/-- Who may find a body by searching: as for retrieval, but a private body only its producer. -/
def Body.searchVisible (body : Body) (requester : Option String) (publicArmOpen : Bool) : Bool :=
  match body.visibility with
  | .public_ | .restricted => body.retrieveVisible requester publicArmOpen
  | .private_ => requester = some body.agentId

theorem Body.retrieveVisible_of_searchVisible {requester : Option String} {publicArmOpen : Bool}
    (h : body.searchVisible requester publicArmOpen = true) :
    body.retrieveVisible requester publicArmOpen = true := by
  unfold searchVisible at h
  split at h
  · exact h
  · exact h
  · next hprivate =>
    rw [decide_eq_true_eq] at h
    simp [retrieveVisible, hprivate, h]

section Means

variable {row : ContextRow} {binds : List Value} {requester : Option String} {publicArmOpen : Bool}
  {tenant : Option String} {a b : Term ContextColumn} {m c : ContextCond} {va vb vm vs : List Value}
  {p : Prop}

theorem visibilityIs_means (v : Visibility) :
    (visibilityIs v).Means row.tuple binds [] (row.body.visibility = v) := by
  refine (Cond.means_eq (Term.gives_col _) (Term.gives_lit _)).congr ?_
  simp only [ContextRow.tuple]
  cases row.body.visibility <;> cases v <;> simp [Visibility.asStr]

section Requester

variable (ha : a.Gives row.tuple binds va (boundRequester requester))

include ha

theorem openArm_means (hb : b.Gives row.tuple binds vb (.bool publicArmOpen)) :
    (Cond.or (.isNotNull a) (.truth b)).Means row.tuple binds (va ++ vb)
      (requester.isSome = true ∨ publicArmOpen = true) := by
  refine ((Cond.means_isNotNull ha).or (Cond.means_truth hb)).congr ?_
  rw [Value.ofOption_ne_null, Value.bool.injEq]

theorem producer_means :
    (Cond.eq (.col .agentId) a).Means row.tuple binds va (requester = some row.body.agentId) := by
  refine (Cond.means_eq (Term.gives_col _) ha).congr ?_
  simp only [ContextRow.tuple, ne_eq, reduceCtorEq, not_false_eq_true, and_true]
  rw [eq_comm, Value.ofOption_eq_text]

/-- The requester is the producer or one of the audience. -/
def Body.Addresses (body : Body) (requester : Option String) : Prop :=
  requester = some body.agentId ∨ ∃ s ∈ body.audience.getD [], boundRequester requester = .text s

theorem addresses_means
    (hm : m.Means row.tuple binds vm (∃ s ∈ row.body.audience.getD [], boundRequester requester = .text s)) :
    (Cond.or (.eq (.col .agentId) a) m).Means row.tuple binds (va ++ vm) (row.body.Addresses requester) :=
  (producer_means ha).or hm

theorem notNull_means :
    (Cond.isNotNull a : ContextCond).Means row.tuple binds va (requester.isSome = true) :=
  (Cond.means_isNotNull ha).congr Value.ofOption_ne_null

end Requester

theorem Body.retrieveVisible_iff : body.retrieveVisible requester publicArmOpen = true ↔
    (body.visibility = .public_ ∧ (requester.isSome = true ∨ publicArmOpen = true)) ∨
      (requester.isSome = true ∧ body.Addresses requester) := by
  have hnamed : ∀ r, body.Addresses (some r) ↔
      (decide (r = body.agentId) || body.audience.any (·.any (· = r))) = true := by
    intro r
    cases haud : body.audience <;> simp [Addresses, haud, Value.ofOption]
  unfold retrieveVisible
  cases hvis : body.visibility with
  | public_ =>
    simp only [Bool.or_eq_true, true_and]
    constructor
    · exact fun h => .inl h.symm
    · rintro (h | h)
      · exact h.symm
      · exact .inr h.1
  | _ =>
    cases requester with
    | none => simp
    | some r => simp [hnamed r]

theorem Body.searchVisible_iff : body.searchVisible requester publicArmOpen = true ↔
    ((body.visibility = .public_ ∧ (requester.isSome = true ∨ publicArmOpen = true)) ∨
      ((body.visibility = .restricted ∧ requester.isSome = true) ∧ body.Addresses requester)) ∨
      ((body.visibility = .private_ ∧ requester.isSome = true) ∧ requester = some body.agentId) := by
  unfold searchVisible
  cases hvis : body.visibility with
  | public_ =>
    rw [retrieveVisible_iff]
    simp only [hvis, true_and, reduceCtorEq, false_and, or_false]
    exact or_iff_left_of_imp fun h => .inl h.1
  | restricted => simp [retrieveVisible_iff, hvis]
  | private_ =>
    simp only [decide_eq_true_eq, reduceCtorEq, false_and, or_self, false_or, true_and]
    exact (and_iff_right_of_imp fun h => by rw [h]; rfl).symm

/-- Without a tenant every row passes. -/
def ContextRow.InTenant (row : ContextRow) (tenant : Option String) : Prop :=
  ∀ t ∈ tenant, row.tenantId = t

instance : Decidable (row.InTenant tenant) := inferInstanceAs (Decidable (∀ t ∈ tenant, _))

theorem tenantIs_means {t : String} (ha : a.Gives row.tuple binds va (.text t)) :
    (Cond.eq (.col .tenantId) a).Means row.tuple binds va (row.InTenant (some t)) := by
  refine (Cond.means_eq (Term.gives_col _) ha).congr ?_
  simp [ContextRow.InTenant, ContextRow.tuple]

theorem andTenant_next_iff
    (hc : c.Means row.tuple (vs ++ boundTenant tenant) vs p) :
    (andTenant c tenant .next).holds row.tuple (vs ++ boundTenant tenant) = true ↔
      p ∧ row.InTenant tenant := by
  cases tenant with
  | none => exact (hc.congr (by simp [ContextRow.InTenant])).holds_iff (.inl (by simp))
  | some t => exact (hc.and (tenantIs_means (Term.gives_next _))).holds_iff (.inl rfl)

theorem andTenant_nth_iff {n : ℕ} (hc : c.Means row.tuple (vs ++ boundTenant tenant) [] p)
    (hn : n - 1 = vs.length) :
    (andTenant c tenant (.nth n)).holds row.tuple (vs ++ boundTenant tenant) = true ↔
      p ∧ row.InTenant tenant := by
  cases tenant with
  | none => exact (hc.congr (by simp [ContextRow.InTenant])).holds_iff (.inr rfl)
  | some t => exact (hc.and (tenantIs_means (Term.gives_nth (by simp [hn])))).holds_iff (.inr rfl)

end Means

/-! ## One rule -/

section OneRule

variable (requester : Option String) (publicArmOpen : Bool) (tenant : Option String) (d : Dialect)

section Texts

variable (row : ContextRow) (binds : List Value)

theorem gives_requester : (Term.next : Term ContextColumn).Gives row.tuple binds
    [boundRequester requester] (boundRequester requester) :=
  Term.gives_next _

theorem gives_flag : (Term.next : Term ContextColumn).Gives row.tuple binds [.bool publicArmOpen]
    (.bool publicArmOpen) :=
  Term.gives_next _

theorem gives_pgRequester : (Term.nth 1).Gives row.tuple
    ([boundRequester requester, .bool publicArmOpen] ++ binds) [] (boundRequester requester) :=
  Term.gives_nth rfl

theorem gives_pgFlag : (Term.nth 2).Gives row.tuple
    ([boundRequester requester, .bool publicArmOpen] ++ binds) [] (.bool publicArmOpen) :=
  Term.gives_nth rfl

theorem listVisibilitySqlite_means :
    listVisibilitySqlite.Means row.tuple binds
      [boundRequester requester, .bool publicArmOpen, boundRequester requester, boundRequester requester,
        boundRequester requester] (row.body.retrieveVisible requester publicArmOpen = true) := by
  have hreq := gives_requester requester row binds
  have hpublic := openArm_means hreq (gives_flag publicArmOpen row binds)
  have hnamed := addresses_means hreq (Cond.means_jsonEach .audience hreq)
  exact (((visibilityIs_means .public_).and hpublic).or ((notNull_means hreq).and hnamed)).congr
    Body.retrieveVisible_iff.symm

theorem listVisibilityPg_means :
    listVisibilityPg.Means row.tuple ([boundRequester requester, .bool publicArmOpen] ++ binds) []
      (row.body.retrieveVisible requester publicArmOpen = true) := by
  have hreq := gives_pgRequester requester publicArmOpen row binds
  have hpublic := openArm_means hreq (gives_pgFlag requester publicArmOpen row binds)
  have hnamed := addresses_means hreq (Cond.means_jsonContains .audience hreq)
  exact (((visibilityIs_means .public_).and hpublic).or ((notNull_means hreq).and hnamed)).congr
    Body.retrieveVisible_iff.symm

theorem searchVisibilitySqlite_means :
    searchVisibilitySqlite.Means row.tuple binds
      [boundRequester requester, .bool publicArmOpen, boundRequester requester, boundRequester requester,
        boundRequester requester, boundRequester requester, boundRequester requester]
      (row.body.searchVisible requester publicArmOpen = true) := by
  have hreq := gives_requester requester row binds
  have hpublic := openArm_means hreq (gives_flag publicArmOpen row binds)
  have hnamed := addresses_means hreq (Cond.means_jsonEach .audience hreq)
  have hown := ((visibilityIs_means .private_).and (notNull_means hreq)).and (producer_means hreq)
  exact ((((visibilityIs_means .public_).and hpublic).or
    (((visibilityIs_means .restricted).and (notNull_means hreq)).and hnamed)).or hown).congr
    Body.searchVisible_iff.symm

theorem searchVisibilityPg_means :
    searchVisibilityPg.Means row.tuple ([boundRequester requester, .bool publicArmOpen] ++ binds) []
      (row.body.searchVisible requester publicArmOpen = true) := by
  have hreq := gives_pgRequester requester publicArmOpen row binds
  have hpublic := openArm_means hreq (gives_pgFlag requester publicArmOpen row binds)
  have hnamed := addresses_means hreq (Cond.means_jsonContains .audience hreq)
  have hown := ((visibilityIs_means .private_).and (notNull_means hreq)).and (producer_means hreq)
  exact ((((visibilityIs_means .public_).and hpublic).or
    (((visibilityIs_means .restricted).and (notNull_means hreq)).and hnamed)).or hown).congr
    Body.searchVisible_iff.symm

theorem ctxId_means (ids : List String) : (Cond.inNext (.col .ctxId) ids.length).Means row.tuple binds
    (ids.map .text) (row.body.ctxId ∈ ids) := by
  have hcol : (Term.col .ctxId).Gives row.tuple binds [] (.text row.body.ctxId) := Term.gives_col _
  have h := Cond.means_inNext (L := ContextArray) hcol (ids.map .text)
  rw [List.length_map] at h
  exact h.congr (by simp)

theorem ctxIdAny_means (ids : List String) : (Cond.eqAny (.col .ctxId) (.nth 3)).Means row.tuple
    ([boundRequester requester, .bool publicArmOpen] ++ .array ids :: binds) []
    (row.body.ctxId ∈ ids) := by
  have hcol : (Term.col .ctxId).Gives row.tuple
    ([boundRequester requester, .bool publicArmOpen] ++ .array ids :: binds) []
    (.text row.body.ctxId) := Term.gives_col _
  exact (Cond.means_eqAny hcol (Term.gives_nth rfl)).congr (by simp)

end Texts

/-- **What `list_contexts` lists on either backend.** -/
theorem listed_iff (row : ContextRow) : listed requester publicArmOpen tenant d row = true ↔
    row.body.retrieveVisible requester publicArmOpen = true ∧ row.InTenant tenant := by
  cases d with
  | sqlite => exact andTenant_next_iff (listVisibilitySqlite_means requester publicArmOpen row _)
  | postgres => exact andTenant_nth_iff (listVisibilityPg_means requester publicArmOpen row _) rfl

/-- **What `search_inner` may find on either backend.** -/
theorem searchable_iff (row : ContextRow) : searchable requester publicArmOpen tenant d row = true ↔
    row.body.searchVisible requester publicArmOpen = true ∧ row.InTenant tenant := by
  cases d with
  | sqlite => exact andTenant_next_iff (searchVisibilitySqlite_means requester publicArmOpen row _)
  | postgres => exact andTenant_nth_iff (searchVisibilityPg_means requester publicArmOpen row _) rfl

theorem idVisible_iff (ids : List String) (row : ContextRow) :
    idVisible requester publicArmOpen tenant d ids row = true ↔
      (row.body.ctxId ∈ ids ∧ row.body.retrieveVisible requester publicArmOpen = true) ∧
        row.InTenant tenant := by
  cases d with
  | sqlite =>
    exact andTenant_next_iff ((ctxId_means row _ ids).and
      (listVisibilitySqlite_means requester publicArmOpen row _))
  | postgres =>
    exact andTenant_nth_iff ((ctxIdAny_means requester publicArmOpen row _ ids).and
      (listVisibilityPg_means requester publicArmOpen row _)) rfl

theorem mem_selectVisible {db : Db} {ids : List String} {id : String} :
    id ∈ selectVisible requester publicArmOpen tenant d db ids ↔ id ∈ ids ∧ ∃ row ∈ db.contexts,
      row.body.ctxId = id ∧ row.body.retrieveVisible requester publicArmOpen = true ∧
        row.InTenant tenant := by
  simp only [selectVisible, List.mem_map, List.mem_filter, idVisible_iff]
  constructor
  · rintro ⟨row, ⟨hrow, ⟨hid, hvis⟩, htenant⟩, rfl⟩
    exact ⟨hid, row, hrow, rfl, hvis, htenant⟩
  · rintro ⟨hid, row, hrow, rfl, hvis, htenant⟩
    exact ⟨row, ⟨hrow, ⟨hid, hvis⟩, htenant⟩, rfl⟩

theorem mem_foldl_union {α β : Type} [DecidableEq β] (f : α → Finset β) {b : β} (xs : List α)
    (out : Finset β) : b ∈ xs.foldl (fun out x => out ∪ f x) out ↔ b ∈ out ∨ ∃ x ∈ xs, b ∈ f x := by
  induction xs generalizing out with
  | nil => simp
  | cons x xs ih => rw [List.foldl_cons, ih, Finset.mem_union, or_assoc, List.exists_mem_cons_iff]

/-- **What `visible_ctx_ids` answers on either backend.** -/
theorem mem_visibleCtxIds {db : Db} {ctxIds : List String} {id : String} :
    id ∈ visibleCtxIds requester publicArmOpen tenant d db ctxIds ↔ id ∈ ctxIds ∧ ∃ row ∈ db.contexts,
      row.body.ctxId = id ∧ row.body.retrieveVisible requester publicArmOpen = true ∧
        row.InTenant tenant := by
  unfold visibleCtxIds
  by_cases hempty : ctxIds.isEmpty = true
  · rw [if_pos hempty, List.isEmpty_iff.1 hempty]
    simp
  · rw [if_neg hempty]
    cases d with
    | sqlite =>
      simp only [mem_foldl_union, List.mem_toFinset, mem_selectVisible, Finset.notMem_empty, false_or]
      conv_rhs => rw [← flatten_chunks (visibleCtxIdsChunk - 1) ctxIds, List.mem_flatten]
      constructor
      · rintro ⟨chunk, hchunk, hid, hrow⟩
        exact ⟨⟨chunk, hchunk, hid⟩, hrow⟩
      · rintro ⟨⟨chunk, hchunk, hid⟩, hrow⟩
        exact ⟨chunk, hchunk, hid, hrow⟩
    | postgres => simp only [List.mem_toFinset, mem_selectVisible]

end OneRule

/-- **One visibility rule.**  For every stored row, requester, tenant and public flag: the list predicates
    and `visible_ctx_ids` of both backends decide as `retrieve_visible` with the tenant compared, and the
    search predicates let through nothing that it does not. -/
theorem one_visibility_rule (db : Db) (ctxIds : List String) (requester : Option String)
    (publicArmOpen : Bool) (tenant : Option String) :
    let rule (row : ContextRow) : Bool :=
      row.body.retrieveVisible requester publicArmOpen && decide (∀ t ∈ tenant, row.tenantId = t)
    (∀ d row, listed requester publicArmOpen tenant d row = rule row) ∧
    (∀ d id, id ∈ visibleCtxIds requester publicArmOpen tenant d db ctxIds ↔
      id ∈ ctxIds ∧ ∃ row ∈ db.contexts, row.body.ctxId = id ∧ rule row = true) ∧
    (∀ d row, searchable requester publicArmOpen tenant d row = true → rule row = true) := by
  have hrule : ∀ row : ContextRow, (row.body.retrieveVisible requester publicArmOpen &&
      decide (∀ t ∈ tenant, row.tenantId = t)) = true ↔
      row.body.retrieveVisible requester publicArmOpen = true ∧ row.InTenant tenant := by
    intro row
    rw [Bool.and_eq_true, decide_eq_true_eq]
    rfl
  refine ⟨fun d row => ?_, fun d id => ?_, fun d row h => ?_⟩
  · rw [Bool.eq_iff_iff, listed_iff, hrule]
  · simp only [mem_visibleCtxIds, hrule]
  · obtain ⟨hvis, htenant⟩ := (searchable_iff requester publicArmOpen tenant d row).1 h
    exact (hrule row).2 ⟨Body.retrieveVisible_of_searchVisible hvis, htenant⟩

end AcdpRegistry
