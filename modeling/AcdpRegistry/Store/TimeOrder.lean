/-
  The times that SQLite compares as texts (`search_inner` and `list_contexts` of the
  SQLite store, `evict_expired` of the challenge and the revocation store).

  Each condition is written once, over any order of times.  SQLite evaluates it on the
  `to_rfc3339` texts of its columns and binds; a strictly monotone map, which the text of
  a reading is, does not change what a condition decides.
-/
import AcdpRegistry.Auth.Revocation
import AcdpRegistry.Lib.Rfc3339Leap
import AcdpRegistry.Store.Search

namespace AcdpRegistry

open Lib Rfc3339

/-! ## The conditions -/

structure TimeColumns (τ : Type) where
  createdAt : τ
  expiresAt : Option τ
  ctxId : String

def TimeColumns.map {τ σ : Type} (f : τ → σ) (row : TimeColumns τ) : TimeColumns σ :=
  ⟨f row.createdAt, row.expiresAt.map f, row.ctxId⟩

structure TimeRange (τ : Type) where
  createdAfter : Option τ
  createdBefore : Option τ
  expiresAfter : Option τ
  expiresBefore : Option τ

def TimeRange.map {τ σ : Type} (f : τ → σ) (range : TimeRange τ) : TimeRange σ :=
  ⟨range.createdAfter.map f, range.createdBefore.map f, range.expiresAfter.map f, range.expiresBefore.map f⟩

section Conditions

variable {τ : Type} [LinearOrder τ]

/-- `created_at >= ?`, `created_at <= ?`, and the same of an `expires_at` that is not `NULL`. -/
def TimeRange.selects (range : TimeRange τ) (row : TimeColumns τ) : Bool :=
  range.createdAfter.all (fun t => t ≤ row.createdAt) &&
  range.createdBefore.all (fun t => row.createdAt ≤ t) &&
  range.expiresAfter.all (fun t => row.expiresAt.any fun e => t ≤ e) &&
  range.expiresBefore.all (fun t => row.expiresAt.any fun e => e ≤ t)

/-- `created_at < ? OR (created_at = ? AND ctx_id > ?)`. -/
def pastAnchor (anchor : τ × String) (row : TimeColumns τ) : Bool :=
  row.createdAt < anchor.1 || (row.createdAt = anchor.1 && anchor.2 < row.ctxId)

/-- `ORDER BY created_at DESC, ctx_id ASC`. -/
def listedBefore (row row' : TimeColumns τ) : Bool :=
  row'.createdAt < row.createdAt || (row.createdAt = row'.createdAt && row.ctxId < row'.ctxId)

/-- `DELETE … WHERE expires_at <= ?`. -/
def evicted (expiresAt cutoff : τ) : Bool := expiresAt ≤ cutoff

end Conditions

/-! ## Texts -/

section Texts

variable {τ σ : Type} [LinearOrder τ] [LinearOrder σ] {f : τ → σ} (hf : StrictMono f)

include hf

theorem TimeRange.selects_map (range : TimeRange τ) (row : TimeColumns τ) :
    (range.map f).selects (row.map f) = range.selects row := by
  simp only [TimeRange.selects, TimeRange.map, TimeColumns.map, Option.all_map, Option.any_map,
    hf.le_iff_le]

theorem pastAnchor_map (anchor : τ × String) (row : TimeColumns τ) :
    pastAnchor (f anchor.1, anchor.2) (row.map f) = pastAnchor anchor row := by
  have hlt : decide (f row.createdAt < f anchor.1) = decide (row.createdAt < anchor.1) :=
    decide_eq_decide.2 hf.lt_iff_lt
  have heq : decide (f row.createdAt = f anchor.1) = decide (row.createdAt = anchor.1) :=
    decide_eq_decide.2 hf.injective.eq_iff
  exact congrArg₂ (fun x y => x || (y && decide (anchor.2 < row.ctxId))) hlt heq

theorem listedBefore_map (row row' : TimeColumns τ) :
    listedBefore (row.map f) (row'.map f) = listedBefore row row' := by
  have hlt : decide (f row'.createdAt < f row.createdAt) = decide (row'.createdAt < row.createdAt) :=
    decide_eq_decide.2 hf.lt_iff_lt
  have heq : decide (f row.createdAt = f row'.createdAt) = decide (row.createdAt = row'.createdAt) :=
    decide_eq_decide.2 hf.injective.eq_iff
  exact congrArg₂ (fun x y => x || (y && decide (row.ctxId < row'.ctxId))) hlt heq

theorem evicted_map (expiresAt cutoff : τ) :
    evicted (f expiresAt) (f cutoff) = evicted expiresAt cutoff := by
  simp only [evicted, hf.le_iff_le]

end Texts

/-- **Text order is time order.**  For all readings of the years 0 to 9999, leap seconds included, the
    texts are in the order of the readings; so every comparison that SQLite makes on the texts (ranges,
    keysets, evictions) decides as the one on the readings would. -/
theorem text_order_is_time_order :
    (∀ a b : DatedReading, (a.1.render < b.1.render ↔ a < b) ∧ (a.1.render = b.1.render ↔ a = b)) ∧
    (∀ (range : TimeRange DatedReading) (row : TimeColumns DatedReading),
      (range.map fun r => r.1.render).selects (row.map fun r => r.1.render) = range.selects row) ∧
    (∀ (anchor : DatedReading × String) (row : TimeColumns DatedReading),
      pastAnchor (anchor.1.1.render, anchor.2) (row.map fun r => r.1.render) = pastAnchor anchor row) ∧
    (∀ row row' : TimeColumns DatedReading,
      listedBefore (row.map fun r => r.1.render) (row'.map fun r => r.1.render) = listedBefore row row') ∧
    (∀ expiresAt cutoff : DatedReading,
      evicted expiresAt.1.render cutoff.1.render = evicted expiresAt cutoff) ∧
    (∀ s t : {t : ℤ // InYears t},
      Dialect.sqlite.instantLe s t = decide (s ≤ t) ∧
        (Dialect.sqlite.timestamps.key s < Dialect.sqlite.timestamps.key t ↔ s < t) ∧
        Auth.Backend.sqlite.expired s t = decide (s ≤ t)) := by
  have hmono := strictMono_render
  refine ⟨fun a b => ⟨hmono.lt_iff_lt, hmono.injective.eq_iff⟩, TimeRange.selects_map hmono,
    pastAnchor_map hmono, listedBefore_map hmono, evicted_map hmono, fun s t => ?_⟩
  have hle : render s ≤ render t ↔ s ≤ t := by
    rw [← not_lt, render_lt_render t.2 s.2, not_lt]
    rfl
  exact ⟨decide_eq_decide.2 hle, render_lt_render s.2 t.2, decide_eq_decide.2 hle⟩

end AcdpRegistry
