/-
  The status condition of a SQLite search and the status a row is served with.

  The statement compares `unixepoch(…, 'subsec')` of two texts, whole milliseconds, and
  the row that comes back is projected on the readings themselves.  Both are written here
  over the columns as the row has them: any status text, any flag, any expiry.
-/
import AcdpRegistry.Lib.Rfc3339Leap
import AcdpRegistry.Store.Search

namespace AcdpRegistry

open Lib Rfc3339

/-! ## The served status -/

inductive RowStatus
  | active
  | superseded
  | expired
  | retracted
  | other (text : String)
  deriving DecidableEq

namespace RowStatus

/-- `parse_status`. -/
def parse (s : String) : RowStatus :=
  if s = "active" then .active
  else if s = "superseded" then .superseded
  else if s = "expired" then .expired
  else if s = "retracted" then .retracted
  else .other s

def asStr : RowStatus → String
  | active => "active"
  | superseded => "superseded"
  | expired => "expired"
  | retracted => "retracted"
  | other text => text

/-- `project_status_inline`. -/
def projectInline (stored : RowStatus) (expiresAt : Option Reading) (now : Reading) : RowStatus :=
  match stored, expiresAt with
  | active, some exp => if exp ≤ now then expired else active
  | s, _ => s

theorem asStr_parse (s : String) : (parse s).asStr = s := by
  unfold parse
  split_ifs with h1 h2 h3 h4 <;> simp [asStr, *]

theorem parse_eq_active_iff {s : String} : parse s = active ↔ s = "active" := by
  constructor
  · intro h
    rw [← asStr_parse s, h, asStr]
  · rintro rfl
    rfl

theorem projectInline_of_ne {s : RowStatus} (h : s ≠ active) (expiresAt : Option Reading) (now : Reading) :
    s.projectInline expiresAt now = s := by
  cases s <;> first | contradiction | cases expiresAt <;> rfl

end RowStatus

structure StatusColumns where
  status : String
  retracted : ℤ
  expiresAt : Option Reading

/-- The status a row is served with: the flag first, then the stored status and the expiry. -/
def StatusColumns.served (row : StatusColumns) (now : Reading) : RowStatus :=
  let stored := if row.retracted ≠ 0 then .retracted else RowStatus.parse row.status
  stored.projectInline row.expiresAt now

/-! ## The condition -/

/-- The milliseconds of a reading, finer fractions rounded. -/
def roundMs (r : Reading) : ℤ := (r.second * 10 ^ 9 + r.nanos + 500000) / 10 ^ 6

section Condition

-- the texts SQLite can read: a leap second and a year past 9999 are not among them
variable (readable : Reading → Bool)

/-- `unixepoch(…, 'subsec')`, in milliseconds; `NULL` for a text SQLite cannot read. -/
def unixepoch (r : Reading) : Option ℤ := if readable r then some (roundMs r) else none

/-- `unixepoch(expires_at, 'subsec') <= unixepoch(?, 'subsec')`. -/
def epochLe (e now : Reading) : Bool := nullableLe (unixepoch readable e) (unixepoch readable now)

/-- `unixepoch(expires_at, 'subsec') > unixepoch(?, 'subsec')`. -/
def epochGt (e now : Reading) : Bool :=
  (unixepoch readable e).any fun x => (unixepoch readable now).any fun y => y < x

def searchRetractedSqlite (row : StatusColumns) : Bool := row.retracted ≠ 0

def searchActiveSqlite (now : Reading) (row : StatusColumns) : Bool :=
  row.retracted = 0 && row.status = "active" && row.expiresAt.all fun e => epochGt readable e now

def searchExpiredSqlite (now : Reading) (row : StatusColumns) : Bool :=
  row.retracted = 0 &&
    (row.status = "expired" || (row.status = "active" && row.expiresAt.any fun e => epochLe readable e now))

def searchStatusSqlite (want : String) (row : StatusColumns) : Bool := row.retracted = 0 && row.status = want

/-- The status condition that `search_inner` pushes for a requested status. -/
def StatusColumns.selected (row : StatusColumns) (now : Reading) (want : String) : Bool :=
  if want = "retracted" then searchRetractedSqlite row
  else if want = "active" then searchActiveSqlite readable now row
  else if want = "expired" then searchExpiredSqlite readable now row
  else searchStatusSqlite want row

/-- The two times are read, and rounded they compare as they do. -/
def EpochExact (e now : Reading) : Prop :=
  readable e = true ∧ readable now = true ∧ (roundMs e ≤ roundMs now ↔ e ≤ now)

variable {readable}

theorem epochLe_iff {e now : Reading} :
    epochLe readable e now = true ↔ readable e = true ∧ readable now = true ∧ roundMs e ≤ roundMs now := by
  cases he : readable e <;> cases hn : readable now <;> simp [epochLe, nullableLe, unixepoch, he, hn]

theorem epochGt_iff {e now : Reading} :
    epochGt readable e now = true ↔ readable e = true ∧ readable now = true ∧ roundMs now < roundMs e := by
  cases he : readable e <;> cases hn : readable now <;> simp [epochGt, unixepoch, he, hn]

theorem epochExact_iff {e now : Reading} :
    EpochExact readable e now ↔
      epochGt readable e now = decide (¬ e ≤ now) ∧ epochLe readable e now = decide (e ≤ now) := by
  have hgt : epochGt readable e now = decide (¬ e ≤ now) ↔
      (epochGt readable e now = true ↔ ¬ e ≤ now) := by
    rw [Bool.eq_iff_iff, decide_eq_true_iff]
  have hle : epochLe readable e now = decide (e ≤ now) ↔ (epochLe readable e now = true ↔ e ≤ now) := by
    rw [Bool.eq_iff_iff, decide_eq_true_iff]
  rw [hgt, hle, epochGt_iff, epochLe_iff, EpochExact]
  by_cases he : readable e = true <;> by_cases hn : readable now = true <;>
    by_cases h : e ≤ now <;> simp [he, hn, h]

/-! ## Where the two agree -/

variable {row : StatusColumns} {now : Reading}

theorem selected_of_retracted (h : row.retracted ≠ 0) (want : String) :
    row.selected readable now want = decide ((row.served now).asStr = want) := by
  have hserved : row.served now = .retracted := by
    simp only [StatusColumns.served, if_pos h]
    exact RowStatus.projectInline_of_ne (by simp) _ _
  rw [hserved, RowStatus.asStr, StatusColumns.selected]
  split_ifs with h1 h2 h3
  · simp [searchRetractedSqlite, h, h1]
  · simp [searchActiveSqlite, h, h2]
  · simp [searchExpiredSqlite, h, h3]
  · simp [searchStatusSqlite, h, Ne.symm h1]

theorem selected_of_stored (h : row.retracted = 0) (hactive : row.status ≠ "active") :
    (∀ want, row.selected readable now want = decide ((row.served now).asStr = want)) ↔
      row.status ≠ "retracted" := by
  have hserved : (row.served now).asStr = row.status := by
    have hparse : RowStatus.parse row.status ≠ .active :=
      fun hp => hactive (RowStatus.parse_eq_active_iff.1 hp)
    simp only [StatusColumns.served, h, ne_eq, not_true_eq_false, if_false]
    rw [RowStatus.projectInline_of_ne hparse, RowStatus.asStr_parse]
  constructor
  · intro hall hretracted
    have := hall "retracted"
    rw [hserved, hretracted] at this
    simp [StatusColumns.selected, searchRetractedSqlite, h] at this
  · intro hretracted want
    rw [hserved, StatusColumns.selected]
    split_ifs with h1 h2 h3
    · simp [searchRetractedSqlite, h, h1, hretracted]
    · simp [searchActiveSqlite, h, h2, hactive]
    · simp [searchExpiredSqlite, h, h3, hactive]
    · simp [searchStatusSqlite, h]

theorem selected_of_active (h : row.retracted = 0) (hactive : row.status = "active") :
    (∀ want, row.selected readable now want = decide ((row.served now).asStr = want)) ↔
      ∀ e, row.expiresAt = some e → EpochExact readable e now := by
  have hserved : row.served now = RowStatus.active.projectInline row.expiresAt now := by
    have hparse := RowStatus.parse_eq_active_iff.2 hactive
    simp [StatusColumns.served, h, hparse]
  rw [hserved]
  cases hexp : row.expiresAt with
  | none =>
    simp only [reduceCtorEq, false_implies, implies_true, iff_true]
    intro want
    rw [RowStatus.projectInline, RowStatus.asStr, StatusColumns.selected]
    · split_ifs with h1 h2 h3
      · simp [searchRetractedSqlite, h, h1]
      · simp [searchActiveSqlite, h, h2, hactive, hexp]
      · simp [searchExpiredSqlite, h, h3, hactive, hexp]
      · simp [searchStatusSqlite, h, hactive]
    · simp
  | some e =>
    have hproject : RowStatus.active.projectInline (some e) now =
        if e ≤ now then .expired else .active := rfl
    simp only [Option.some.injEq, forall_eq', epochExact_iff, hproject]
    constructor
    · intro hall
      have hgt := hall "active"
      have hle := hall "expired"
      simp only [StatusColumns.selected, searchActiveSqlite, searchExpiredSqlite, h, hactive, hexp]
        at hgt hle
      by_cases hpast : e ≤ now
      · simpa [hpast, RowStatus.asStr] using And.intro hgt hle
      · simpa [hpast, RowStatus.asStr] using And.intro hgt hle
    · rintro ⟨hgt, hle⟩ want
      rw [StatusColumns.selected]
      by_cases hpast : e ≤ now
      · rw [if_pos hpast, RowStatus.asStr]
        split_ifs with h1 h2 h3
        · simp [searchRetractedSqlite, h, h1]
        · simp [searchActiveSqlite, h2, hexp, hgt, hpast]
        · simp [searchExpiredSqlite, h, h3, hactive, hexp, hle, hpast]
        · simp [searchStatusSqlite, hactive, Ne.symm h2, Ne.symm h3]
      · rw [if_neg hpast, RowStatus.asStr]
        split_ifs with h1 h2 h3
        · simp [searchRetractedSqlite, h, h1]
        · simp [searchActiveSqlite, h, h2, hactive, hexp, hgt, hpast]
        · simp [searchExpiredSqlite, h3, hactive, hexp, hle, hpast]
        · simp [searchStatusSqlite, h, hactive]

end Condition

/-- Where the condition decides as the projection: the flag is set, or the text is not `retracted` and
    an active row's times compare as their milliseconds. -/
def StatusColumns.FilterExact (readable : Reading → Bool) (row : StatusColumns) (now : Reading) : Prop :=
  row.retracted ≠ 0 ∨
    (row.status ≠ "retracted" ∧
      (row.status = "active" → ∀ e, row.expiresAt = some e → EpochExact readable e now))

theorem forall_selected_iff {readable : Reading → Bool} {row : StatusColumns} {now : Reading} :
    (∀ want, row.selected readable now want = decide ((row.served now).asStr = want)) ↔
      row.FilterExact readable now := by
  unfold StatusColumns.FilterExact
  by_cases h : row.retracted = 0
  · rw [or_iff_right (not_not.2 h)]
    by_cases hactive : row.status = "active"
    · have hne : row.status ≠ "retracted" := by
        rw [hactive]
        decide
      rw [selected_of_active h hactive]
      exact ⟨fun hall => ⟨hne, fun _ => hall⟩, fun hall => hall.2 hactive⟩
    · rw [selected_of_stored h hactive]
      exact ⟨fun hne => ⟨hne, fun hab => absurd hab hactive⟩, fun hne => hne.1⟩
  · exact iff_of_true (selected_of_retracted h) (Or.inl h)

/-- **The status filter is the served status, where it is.**  A row is selected for a requested status just
    if it is served with that status, if and only if its expiry and the clock compare as their rounded
    milliseconds do, and `retracted` is not stored as a text without its flag. -/
theorem status_filter_is_served_status (readable : Reading → Bool) (row : StatusColumns) (now : Reading) :
    ((∀ want, row.selected readable now want = decide ((row.served now).asStr = want)) ↔
      row.FilterExact readable now) ∧
    (row.FilterExact readable now → ∃! want, row.selected readable now want = true) := by
  refine ⟨forall_selected_iff, fun hexact => ⟨(row.served now).asStr, ?_, fun want hwant => ?_⟩⟩
  · simp [forall_selected_iff.2 hexact]
  · simp only [forall_selected_iff.2 hexact, decide_eq_true_iff] at hwant
    exact hwant.symm

/-- Just before it expires a row is served as active; rounded, its expiry is not after the clock, and
    it is selected as expired, where the page drops it. -/
theorem rounded_expiry_loses_row :
    let row : StatusColumns := ⟨"active", 0, some (.ofNanos 1000400)⟩
    let now := Reading.ofNanos 1000000
    (row.served now).asStr = "active" ∧ (∀ readable, row.selected readable now "active" = false) ∧
      row.selected (fun _ => true) now "expired" = true := by
  refine ⟨by decide +kernel, fun readable => ?_, by decide +kernel⟩
  have hms : ¬ roundMs (.ofNanos 1000000) < roundMs (.ofNanos 1000400) := by decide
  have hgt : epochGt readable (.ofNanos 1000400) (.ofNanos 1000000) = false := by
    rw [Bool.eq_false_iff, ne_eq, epochGt_iff]
    exact fun h => hms h.2.2
  simp [StatusColumns.selected, searchActiveSqlite, hgt]

/-- A row that expires a millisecond after the clock. -/
theorem status_filter_next_millisecond :
    let row : StatusColumns := ⟨"active", 0, some (.ofNanos 2000000)⟩
    let now := Reading.ofNanos 1000000
    ∀ want, row.selected (fun _ => true) now want = decide ((row.served now).asStr = want) := by
  intro row now
  refine (status_filter_is_served_status (fun _ => true) row now).1.2 (Or.inr ⟨by decide, ?_⟩)
  rintro - e he
  cases he
  exact ⟨rfl, rfl, by decide +kernel⟩

/-! ## The pages of a search -/

/-- The columns of a stored row. -/
def ContextRow.statusColumns (row : ContextRow) : StatusColumns where
  status := row.status.asStr
  retracted := if row.retracted then 1 else 0
  expiresAt := row.body.expiresAt.map Reading.ofNanos

section Pages

variable {api : SearchApi} {readable : Reading → Bool}
  (hapi : ∀ t, api.unixepoch (Rfc3339.render t) = unixepoch readable (.ofNanos t))

theorem ContextRow.asStr_servedStatus (row : ContextRow) (now : ℤ) :
    (row.servedStatus now).asStr = (row.statusColumns.served (.ofNanos now)).asStr := by
  unfold ContextRow.servedStatus FullContext.project ContextRow.toContext ContextRow.statusColumns
    StatusColumns.served
  cases hretracted : row.retracted with
  | true => cases row.body.expiresAt <;> rfl
  | false =>
    cases row.status <;> cases row.body.expiresAt with
    | none => rfl
    | some e => first
      | rfl
      | by_cases h : e ≤ now <;>
          simp [projectStatusInline, RowStatus.projectInline, RowStatus.parse, Status.asStr, RowStatus.asStr,
            Reading.ofNanos_le_iff, h]

include hapi

theorem statusCond_eq_selected (want : String) (now : ℤ) (row : ContextRow) :
    statusCond api .sqlite want now row = row.statusColumns.selected readable (.ofNanos now) want := by
  have hgt : expiresPast api .sqlite now = fun e => epochGt readable (.ofNanos e) (.ofNanos now) := by
    ext e
    simp only [expiresPast, Dialect.expiryTime, hapi, epochGt]
  have hle : expiredBy api .sqlite now = fun e => epochLe readable (.ofNanos e) (.ofNanos now) := by
    ext e
    simp only [expiredBy, Dialect.expiryTime, hapi, epochLe]
  have hactive : row.status = .active ↔ row.status.asStr = "active" := by
    cases row.status <;> simp [Status.asStr]
  have hexpired : row.status = .expired ↔ row.status.asStr = "expired" := by
    cases row.status <;> simp [Status.asStr]
  unfold statusCond StatusColumns.selected searchRetractedSqlite searchActiveSqlite searchExpiredSqlite
    searchStatusSqlite ContextRow.statusColumns
  cases row.retracted <;> simp [hactive, hexpired, Option.all_map, Option.any_map, hgt, hle]

/-- A row the statement counts is served with the status asked for. -/
theorem served_of_mem_scan (p : SearchParams) (b : TimeBounds) (requester : Option String)
    (publicArmOpen : Bool) (tenant : Option String) (now : ℤ) (anchor : Option KeysetAnchor) (db : Db)
    {row : ContextRow} (hrow : row ∈ scan api .sqlite p b requester publicArmOpen tenant now anchor db)
    (hexact : row.statusColumns.FilterExact readable (.ofNanos now)) :
    (row.servedStatus now).asStr = p.wantStatus := by
  obtain ⟨-, hselects⟩ := Listing.mem_scan hrow
  have hcond := (Bool.and_eq_true_iff.1 hselects).2
  rw [statusCond_eq_selected hapi, forall_selected_iff.2 hexact, decide_eq_true_iff] at hcond
  rw [ContextRow.asStr_servedStatus, hcond]

end Pages

section Exact

variable (api : SearchApi) (d : Dialect)

/-- Both times are read, and as the condition compares them, rounded, they compare as they do. -/
def Dialect.ExpiryExact (e now : ℤ) : Prop :=
  ∃ x y, d.expiryTime api e = some x ∧ d.expiryTime api now = some y ∧ (x ≤ y ↔ e ≤ now)

/-- `StatusColumns.FilterExact` of a stored row, on either backend. -/
def ContextRow.FilterExact (row : ContextRow) (now : ℤ) : Prop :=
  row.retracted = true ∨
    (row.status ≠ .retracted ∧
      (row.status = .active → ∀ e ∈ row.body.expiresAt, d.ExpiryExact api e now))

variable {api d} {row : ContextRow} {now : ℤ}

theorem Dialect.ExpiryExact.expiredBy {e : ℤ} (h : d.ExpiryExact api e now) :
    AcdpRegistry.expiredBy api d now e = decide (e ≤ now) := by
  obtain ⟨x, y, hx, hy, hle⟩ := h
  simp [AcdpRegistry.expiredBy, nullableLe, hx, hy, hle]

theorem Dialect.ExpiryExact.expiresPast {e : ℤ} (h : d.ExpiryExact api e now) :
    AcdpRegistry.expiresPast api d now e = decide (now < e) := by
  obtain ⟨x, y, hx, hy, hle⟩ := h
  rw [← not_iff_not, not_le, not_le] at hle
  simp [AcdpRegistry.expiresPast, hx, hy, hle]

theorem ContextRow.FilterExact.statusCond (h : row.FilterExact api d now) :
    AcdpRegistry.statusCond api d (row.servedStatus now).asStr now row = true := by
  have hserved : row.servedStatus now = projectStatusInline
      (if row.retracted then .retracted else row.status) row.body.expiresAt now := rfl
  rw [hserved]
  cases hretracted : row.retracted with
  | true => simp [projectStatusInline, AcdpRegistry.statusCond, Status.asStr, hretracted]
  | false =>
    obtain ⟨hstatus, hexact⟩ := h.resolve_left (by simp [hretracted])
    cases hs : row.status with
    | retracted => exact absurd hs hstatus
    | superseded => simp [projectStatusInline, AcdpRegistry.statusCond, Status.asStr, hretracted, hs]
    | expired => simp [projectStatusInline, AcdpRegistry.statusCond, Status.asStr, hretracted, hs]
    | active =>
      cases he : row.body.expiresAt with
      | none => simp [projectStatusInline, AcdpRegistry.statusCond, Status.asStr, hretracted, hs, he]
      | some e =>
        have hexp := hexact hs e he
        by_cases hpast : e ≤ now
        · simp [projectStatusInline, AcdpRegistry.statusCond, Status.asStr, hretracted, hs, he, hpast,
            hexp.expiredBy]
        · have hlater := not_le.1 hpast
          simp [projectStatusInline, AcdpRegistry.statusCond, Status.asStr, hretracted, hs, he, hpast,
            hexp.expiresPast, hlater]

end Exact

end AcdpRegistry
