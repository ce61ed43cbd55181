/-
  The audit of a lineage, for an administrator.

  `lineage_audit` reads a lineage as `lineage` serves it and walks it again: versions,
  lineage ids, links, producers, and that one version is not superseded.  All of this is
  what every reachable state keeps of a lineage (`Chain`), except the last: an old version
  that is retracted is served as retracted, and no longer as superseded.
-/
import AcdpRegistry.Core.Tenant
import AcdpRegistry.Lib.Bits
import AcdpRegistry.Store.Lineage
import AcdpRegistry.Store.Read

namespace AcdpRegistry

open Lib

/-! ## The gate -/

def ctEq (a b : List UInt8) : Bool := a.length = b.length && Bits.ctFold (a.zip b) = 0

/-- `require_admin_bearer`: every token is compared. -/
def requireAdminBearer (allowed : List String) (authorization : Option String) : Bool :=
  if allowed.isEmpty then false else
  match authorization.bind (stripStart "Bearer ") with
  | none => false
  | some token => allowed.foldl (fun matched t => matched || ctEq (utf8 t) (utf8 token)) false

theorem utf8_injective : Function.Injective utf8 := fun _ _ h =>
  String.toByteArray_inj.1 (ByteArray.ext (Array.toList_inj.1 h))

theorem ctEq_iff {a b : List UInt8} : ctEq a b = true ↔ a = b := by
  unfold ctEq
  rw [Bool.and_eq_true, decide_eq_true_eq, decide_eq_true_eq]
  constructor
  · rintro ⟨hlen, hfold⟩
    exact (Bits.ctFold_zip_eq_zero_iff hlen).1 hfold
  · rintro rfl
    exact ⟨rfl, (Bits.ctFold_zip_eq_zero_iff rfl).2 rfl⟩

theorem requireAdminBearer_iff {allowed : List String} {authorization : Option String} :
    requireAdminBearer allowed authorization = true ↔
      ∃ t ∈ allowed, authorization = some ("Bearer " ++ t) := by
  have hfold : ∀ (token : String) (ts : List String) (matched : Bool),
      ts.foldl (fun matched t => matched || ctEq (utf8 t) (utf8 token)) matched = true ↔
        matched = true ∨ token ∈ ts := by
    intro token ts
    induction ts with
    | nil => simp
    | cons t ts ih =>
      intro matched
      rw [List.foldl_cons, ih, Bool.or_eq_true, ctEq_iff, utf8_injective.eq_iff, List.mem_cons,
        or_assoc, eq_comm (a := t)]
  unfold requireAdminBearer
  split_ifs with hempty
  · simp [List.isEmpty_iff.1 hempty]
  cases hstrip : authorization.bind (stripStart "Bearer ") with
  | none =>
    simp only [Bool.false_eq_true, false_iff]
    rintro ⟨t, -, rfl⟩
    rw [Option.bind_some, stripStart_eq_some_iff.2 rfl] at hstrip
    cases hstrip
  | some token =>
    obtain ⟨value, rfl, hvalue⟩ := Option.bind_eq_some_iff.1 hstrip
    obtain rfl := stripStart_eq_some_iff.1 hvalue
    simp only [hfold, Bool.false_eq_true, false_or, Option.some.injEq]
    constructor
    · exact fun hmem => ⟨token, hmem, rfl⟩
    · rintro ⟨t, hmem, ht⟩
      have := stripStart_eq_some_iff.2 ht
      rw [hvalue, Option.some.injEq] at this
      exact this ▸ hmem

/-! ## The audit -/

structure LineageAuditResponse where
  lineageId : String
  versions : ℕ
  ok : Bool
  issues : List String
  receiptlessContexts : ℕ
  deriving DecidableEq

def issueIf (c : Prop) [Decidable c] (text : String) : List String := if c then [text] else []

def versionGap (i : ℕ) (ctx : FullContext) : List String :=
  let expected := (i + 1) % 2 ^ 32
  issueIf (ctx.body.version ≠ expected)
    s!"version gap: position {i} holds version {ctx.body.version} (expected {expected})"

def foreignLineage (requested : String) (ctx : FullContext) : List String :=
  issueIf (ctx.body.lineageId ≠ requested)
    s!"context '{ctx.body.ctxId}' carries lineage_id '{ctx.body.lineageId}' ≠ '{requested}'"

/-- The checks of a version and the next one. -/
def linkIssues (prev next : FullContext) : List String :=
  (match next.body.supersedes with
    | some s => issueIf (s ≠ prev.body.ctxId)
      s!"broken link: v{next.body.version} supersedes '{s}' ≠ predecessor '{prev.body.ctxId}'"
    | none => [s!"broken link: v{next.body.version} '{next.body.ctxId}' declares no supersedes"]) ++
  issueIf (¬(next.body.agentId = prev.body.agentId ∨ next.body.agentId ∈ prev.body.contributors))
    (s!"producer discontinuity: v{next.body.version} published by '{next.body.agentId}' which is " ++
      s!"neither v{prev.body.version}'s producer nor contributor")

def tipIssues (tips : ℕ) : List String :=
  issueIf (tips ≠ 1) s!"expected exactly 1 non-superseded tip, found {tips}"

/-- `audit_lineage` on the versions `first :: rest`. -/
def auditLineage (deriveLineageId : String → String) (requested : String) (first : FullContext)
    (rest : List FullContext) : LineageAuditResponse :=
  let items := first :: rest
  let derived := deriveLineageId first.body.ctxId
  let issues := (items.mapIdx versionGap).flatten ++
    issueIf (derived ≠ requested)
      s!"lineage_id mismatch: derive_lineage_id(v1) = '{derived}' ≠ stored '{requested}'" ++
    items.flatMap (foreignLineage requested) ++
    (match first.body.supersedes with
      | some prev =>
        [s!"v1 '{first.body.ctxId}' declares supersedes '{prev}' (a lineage root must not)"]
      | none => []) ++
    -- `windows(2)`
    (List.zipWith linkIssues items rest).flatten ++
    tipIssues (items.countP (·.status ≠ .superseded)) ++
    (match items.getLast? with
      | some last => issueIf (last.status = .superseded)
        (s!"highest version v{last.body.version} is marked superseded — the chain points past " ++
          "its end")
      | none => [])
  { lineageId := requested
    versions := items.length
    ok := issues.isEmpty
    issues := issues
    receiptlessContexts := items.countP (·.registryReceipt.isNone) }

inductive AdminAnswer
  | forbidden
  | notFound (message : String)
  | report (report : LineageAuditResponse)
  deriving DecidableEq

/-- `lineage_audit`, by an administrator's tokens and the request's header. -/
def SqlStore.lineageAudit (st : SqlStore) (deriveLineageId : String → String)
    (adminTokens : List String) (authorization : Option String) (lineageId : String) (now : ℤ)
    (atRows atEvents : Db) : AdminAnswer :=
  if requireAdminBearer adminTokens authorization then
    match st.lineage lineageId now atRows atEvents with
    | [] => .notFound s!"lineage '{lineageId}' not found in this registry"
    | first :: rest => .report (auditLineage deriveLineageId lineageId first rest)
  else .forbidden

/-! ## What it finds -/

theorem issueIf_of_not {c : Prop} [Decidable c] (h : ¬c) (text : String) : issueIf c text = [] :=
  if_neg h

/-- How rows are served: a superseded one as superseded, unless it is served as retracted. -/
structure ServesRows (entry : ContextRow → FullContext) : Prop where
  body : ∀ r, (entry r).body = r.body
  receipt : ∀ r, (entry r).registryReceipt = r.receipt
  superseded_iff : ∀ r, (entry r).status = .superseded ↔
    r.status = .superseded ∧ (entry r).status ≠ .retracted

/-- The superseded versions that are served as retracted. -/
def withdrawn (entry : ContextRow → FullContext) (rows : List ContextRow) : ℕ :=
  rows.countP fun r => r.status = .superseded ∧ (entry r).status = .retracted

namespace Chain

variable {derive : String → String} {rows : List ContextRow} {entry : ContextRow → FullContext}
  (h : Chain derive rows)

include h

theorem sorted :
    rows.insertionSort (fun a b => Db.rowLe a b = true) = rows := by
  refine List.Pairwise.insertionSort_eq (List.pairwise_iff_getElem.2 fun i j hi hj hij => ?_)
  have hlt : rows[i].body.version < rows[j].body.version := by
    rw [h.version i _ (List.getElem?_eq_getElem hi), h.version j _ (List.getElem?_eq_getElem hj)]
    omega
  simp [Db.rowLe, hlt]

theorem versionGap_eq_nil (hserves : ServesRows entry) (hword : ∀ r ∈ rows, r.body.version < 2 ^ 32) :
    ((rows.map entry).mapIdx versionGap).flatten = [] := by
  rw [List.flatten_eq_nil_iff]
  intro texts htexts
  obtain ⟨i, hi, rfl⟩ := List.mem_mapIdx.1 htexts
  rw [List.length_map] at hi
  have hversion := h.version i rows[i] (List.getElem?_eq_getElem hi)
  have hlt := hword rows[i] (List.getElem_mem hi)
  refine issueIf_of_not (not_not.2 ?_) _
  rw [List.getElem_map, hserves.body]
  omega

theorem linkIssues_eq_nil (hserves : ServesRows entry) :
    (List.zipWith linkIssues (rows.map entry) (rows.map entry).tail).flatten = [] := by
  rw [List.flatten_eq_nil_iff]
  intro texts htexts
  obtain ⟨i, hi, rfl⟩ := List.getElem_of_mem htexts
  rw [List.length_zipWith, List.length_tail, List.length_map] at hi
  have hlink := h.link i _ _ (List.getElem?_eq_getElem (by omega)) (List.getElem?_eq_getElem (by omega))
  rw [List.getElem_zipWith, List.getElem_tail, List.getElem_map, List.getElem_map]
  simp only [linkIssues, hserves.body, hlink.supersedes]
  rw [issueIf_of_not (by simp), issueIf_of_not (not_not.2 (hlink.owner.imp_left Eq.symm)), List.append_nil]

theorem getLast_status (hne : rows ≠ []) :
    (rows.getLast hne).status ≠ .superseded := by
  rw [List.getLast_eq_getElem, Ne, h.superseded (rows.length - 1) _ (List.getElem?_eq_getElem _)]
  omega

/-- All versions but the last are superseded: the tips are the last one and the withdrawn ones. -/
theorem countP_tips (hserves : ServesRows entry) (hne : rows ≠ []) :
    (rows.map entry).countP (·.status ≠ .superseded) = withdrawn entry rows + 1 := by
  have hinit : ∀ r ∈ rows.dropLast, r.status = .superseded := by
    intro r hr
    obtain ⟨k, hk⟩ := List.getElem?_of_mem hr
    rw [List.getElem?_dropLast] at hk
    split_ifs at hk with hlt
    exact (h.superseded k r hk).2 (by omega)
  have hcongr : rows.dropLast.countP ((fun ctx => decide (ctx.status ≠ .superseded)) ∘ entry) =
      withdrawn entry rows.dropLast := by
    refine List.countP_congr fun r hr => ?_
    simp [hserves.superseded_iff, hinit r hr]
  have hend := h.getLast_status hne
  rw [withdrawn, List.countP_map, ← List.dropLast_append_getLast hne, List.countP_append,
    List.countP_append, hcongr, withdrawn]
  simp [hserves.superseded_iff, hend]

omit h in
theorem auditLineage_eq {requested : String} {first : ContextRow} {rest : List ContextRow}
    (h : Chain derive (first :: rest)) (hserves : ServesRows entry)
    (hlineage : ∀ r ∈ first :: rest, r.body.lineageId = requested)
    (hword : ∀ r ∈ first :: rest, r.body.version < 2 ^ 32) :
    let tips := withdrawn entry (first :: rest) + 1
    auditLineage derive requested (entry first) (rest.map entry) =
      { lineageId := requested, versions := (first :: rest).length, ok := (tipIssues tips).isEmpty
        issues := tipIssues tips
        receiptlessContexts := (first :: rest).countP (·.receipt.isNone) } := by
  intro tips
  have hgaps := h.versionGap_eq_nil hserves hword
  have hlinks := h.linkIssues_eq_nil hserves
  have htips := h.countP_tips hserves (List.cons_ne_nil _ _)
  obtain ⟨hfirst, hderive⟩ := h.first first rfl
  have hforeign : ((first :: rest).map entry).flatMap (foreignLineage requested) = [] := by
    simp only [List.flatMap_eq_nil_iff, List.forall_mem_map]
    intro r hr
    exact issueIf_of_not (not_not.2 (by rw [hserves.body, hlineage r hr])) _
  have hlast : ((first :: rest).map entry).getLast? = some (entry ((first :: rest).getLast (by simp))) := by
    rw [List.getLast?_map, List.getLast?_eq_some_getLast (List.cons_ne_nil _ _), Option.map_some]
  have hreceipts : ((first :: rest).map entry).countP (·.registryReceipt.isNone) =
      (first :: rest).countP (·.receipt.isNone) := by
    rw [List.countP_map]
    exact List.countP_congr fun r _ => by simp [hserves.receipt]
  rw [List.map_cons] at hgaps hlinks htips hforeign hlast hreceipts
  rw [List.tail_cons] at hlinks
  unfold auditLineage
  simp only [hgaps, hforeign, hlinks, htips, hlast, hreceipts, hserves.body, hfirst, ← hderive,
    hlineage first List.mem_cons_self]
  rw [issueIf_of_not (by simp), issueIf_of_not fun hs =>
    h.getLast_status (List.cons_ne_nil _ _) ((hserves.superseded_iff _).1 hs).1]
  simp [tips]

end Chain

section Served

variable (st : SqlStore) (now : ℤ) (events : List LifecycleEventRow)

theorem lineageEntry_frame (row : ContextRow) : ∃ served receipts, st.lineageEntry now events row =
    { row.toContext with
      status := projectStatusInline (reconcileRetraction st.api row.toContext.status
        ((events.filter (·.event.ctxId = row.body.ctxId)).map (·.event))) row.body.expiresAt now
      lifecycleEvents := served
      eventReceipts := receipts } := by
  unfold SqlStore.lineageEntry
  simp only
  split_ifs with hempty
  · have hnil : ∀ status, reconcileRetraction st.api status [] = status := by
      intro status
      rw [reconcileRetraction, st.api.retractionState_eq]
      cases status <;> rfl
    rw [List.isEmpty_iff.1 hempty, List.map_nil, hnil]
    exact ⟨_, _, rfl⟩
  · obtain ⟨receipts, h⟩ := withEvents_frame st row.toContext
      (eventSlots st.api (events.filter (·.event.ctxId = row.body.ctxId)))
    rw [FullContext.project, h, eventSlots_fst]
    exact ⟨_, _, rfl⟩

theorem lineageEntry_retracted_iff {row : ContextRow} (hstatus : row.status ≠ .retracted) :
    (st.lineageEntry now events row).status = .retracted ↔ row.retracted = true ∨ lastRetracts
      ((events.filter (·.event.ctxId = row.body.ctxId)).map (·.event)) = true := by
  obtain ⟨served, receipts, h⟩ := lineageEntry_frame st now events row
  rw [h, projectStatusInline_retracted_iff, reconcileRetraction_retracted_iff,
    toContext_retracted_iff hstatus]

theorem projectStatusInline_superseded_iff {s : Status} {exp : Option ℤ} :
    projectStatusInline s exp now = .superseded ↔ s = .superseded := by
  cases s <;> cases exp <;> simp only [projectStatusInline, reduceCtorEq]
  split_ifs <;> simp

theorem lineageEntry_serves : ServesRows (st.lineageEntry now events) := by
  refine ⟨fun row => ?_, fun row => ?_, fun row => ?_⟩
  all_goals obtain ⟨served, receipts, h⟩ := lineageEntry_frame st now events row
  · rw [h]; rfl
  · rw [h]; rfl
  · rw [h, projectStatusInline_superseded_iff, Ne, projectStatusInline_retracted_iff,
      reconcileRetraction_retracted_iff, reconcileRetraction, st.api.retractionState_eq,
      ContextRow.toContext]
    generalize lastRetracts _ = ended
    cases row.retracted <;> cases row.status <;> cases ended <;> simp

end Served

section Runs

variable {ι : Type} {call : ι → Call} (S : StoreSchedule call) (h0 : S.db 0 = {})

include h0

/-- A version is served as retracted if its row is flagged, or the events read later end so. -/
theorem lineageEntry_withdrawn_iff {m n : ℕ} (hmn : m ≤ n) (st : SqlStore) (now : ℤ)
    {row : ContextRow} (hrow : row ∈ (S.db m).contexts) :
    (st.lineageEntry now ((S.db n).lineageEvents row.body.lineageId) row).status = .retracted ↔
      row.retracted = true ∨ lastRetracts ((S.db n).history row.body.ctxId) = true := by
  obtain ⟨row', hrow', hsame⟩ := row_kept S hmn ((unique_ids S h0 m).context? hrow)
  have hevents := Db.lineageEvents_filter hrow'
  rw [hsame.body] at hevents
  rw [lineageEntry_retracted_iff st now _ (status_reachable S h0 m row hrow), hevents]
  rfl

end Runs

/-- **The audit of a lineage.**  In every interleaving of calls, from an empty database,
    `lineage_audit` answers those who present an admin token, and reports of a stored lineage no broken
    version, id, link or producer. Its one issue is the number of tips, exactly if a superseded version
    is retracted at the reads: served as retracted, it counts as a tip. -/
theorem lineage_audit_report {ι : Type} {call : ι → Call} (S : StoreSchedule call)
    (h0 : S.db 0 = {}) {derive : String → String}
    (hassign : ∀ i, AssignsFromFirst (call i).store.api derive)
    (hversion : ∀ i st c draw, call i = .publish st c draw → c.req.supersedes = none →
      c.req.version = 1)
    (hinj : Set.InjOn derive (drawnIds call)) {m n : ℕ} (hmn : m ≤ n)
    (hword : ∀ row ∈ (S.db m).contexts, row.body.version < 2 ^ 32) (st : SqlStore)
    (adminTokens : List String) (authorization : Option String) (lineageId : String) (now : ℤ) :
    let rows := (S.db m).lineageRows lineageId
    let issues := tipIssues (1 + rows.countP fun row => row.status = .superseded ∧
      (row.retracted = true ∨ lastRetracts ((S.db n).history row.body.ctxId) = true))
    st.lineageAudit derive adminTokens authorization lineageId now (S.db m) (S.db n) =
      if ∃ t ∈ adminTokens, authorization = some ("Bearer " ++ t) then
        if rows = [] then .notFound s!"lineage '{lineageId}' not found in this registry"
        else .report
          { lineageId, issues, versions := rows.length, ok := issues.isEmpty
            receiptlessContexts := rows.countP (·.receipt.isNone) }
      else .forbidden := by
  intro rows issues
  have hchain : Chain derive rows := (lineages_reachable S h0 hassign hversion hinj m).chains lineageId
  have hmem : ∀ row ∈ rows, row ∈ (S.db m).contexts ∧ row.body.lineageId = lineageId :=
    fun row => mem_lineageRows.1
  have hissues : tipIssues (withdrawn (st.lineageEntry now ((S.db n).lineageEvents lineageId)) rows + 1) =
      issues := by
    rw [add_comm, withdrawn]
    refine congrArg (fun k => tipIssues (1 + k)) (List.countP_congr fun row hrow => ?_)
    obtain ⟨hstored, hlineage⟩ := hmem row hrow
    rw [decide_eq_true_eq, decide_eq_true_eq, ← hlineage,
      lineageEntry_withdrawn_iff S h0 hmn st now hstored]
  rw [SqlStore.lineageAudit, SqlStore.lineage, hchain.sorted]
  by_cases hgate : ∃ t ∈ adminTokens, authorization = some ("Bearer " ++ t)
  · rw [if_pos (requireAdminBearer_iff.2 hgate), if_pos hgate]
    clear_value issues
    cases hrows : rows with
    | nil => rfl
    | cons first rest =>
      rw [hrows] at hchain hmem hissues
      rw [if_neg (List.cons_ne_nil _ _), ← hissues,
        ← hchain.auditLineage_eq (lineageEntry_serves st now _) (fun row hrow => (hmem row hrow).2)
          fun row hrow => hword row (hmem row hrow).1]
      rfl
  · rw [if_neg (fun h => hgate (requireAdminBearer_iff.1 h)), if_neg hgate]

/-- Two versions of a context; then the first one is retracted. -/
def sampleAuditCalls : Fin 3 → Call :=
  Fin.snoc (α := fun _ => Call) sampleLogCalls (.lifecycle sampleReader
    { eventId := "e1", ctxId := "ctx1", eventType := .retracted, occurredAt := 10 ^ 6, actor := "agent" }
    { now := 2 * 10 ^ 6 })

def sampleAudit : StoreSchedule sampleAuditCalls := Schedule.serial _ {}

/-- The audit of a sound lineage whose first version was retracted is not `ok`. -/
theorem lineage_audit_sample : sampleAudit.commits 2 = some 2 ∧
    sampleReader.lineageAudit id ["token"] (some "Bearer token") "ctx1" 0 (sampleAudit.db 3)
      (sampleAudit.db 3) = .report
        { lineageId := "ctx1", versions := 2, ok := false
          issues := ["expected exactly 1 non-superseded tip, found 2"], receiptlessContexts := 0 } := by
  refine ⟨by decide, (lineage_audit_report sampleAudit rfl ?_ ?_ Function.injective_id.injOn le_rfl ?_
    sampleReader _ _ _ _).trans ?_⟩
  · intro i
    fin_cases i <;> exact Sample.assignsFromFirst
  · intro i st c draw h
    fin_cases i <;> cases h <;> simp [Sample.request]
  · decide
  · decide

end AcdpRegistry
