/-
  What the hint worker's two evaluations of the feed say.

  An answer without entries accounts for every entry up to its cursor: it did not
  match the filter, the owner may not see it, or retention had passed it in one of the
  snapshots.  An expired position is one that retention has passed.
-/
import AcdpRegistry.Core.CursorAnchor

namespace AcdpRegistry

open Lib

variable {env : ChangesEnv}

/-- Why a scan passes over an entry, on one snapshot. -/
def Passed (env : ChangesEnv) (q : FeedQuery) (f : FeedHistory) (e : FeedRow) : Prop :=
  q.matches e = false ∨ env.visibleRow e = false ∨ e.seq ≤ f.store.prunedThrough

/-! ## Empty answers -/

variable {checkExpiry : Bool} {base : FeedQuery} {H : ℕ → FeedHistory} {f : FeedHistory}
  {target : ℕ} {s s' : Scan}

/-- **One round without entries** passes over everything up to its position. -/
theorem Round.passed (h : Round env base f.store s s') (hempty : s'.changes = []) :
    ∀ e ∈ f.log, s.pos < e.seq → e.seq ≤ s'.pos → Passed env base f e := by
  intro e he hgt hle
  by_cases hpruned : e.seq ≤ f.store.prunedThrough
  · exact .inr (.inr hpruned)
  cases hm : base.matches e with
  | false => exact .inl hm
  | true =>
    have hstored : e ∈ f.store.rows := by
      rw [f.stored]
      exact List.mem_filter.2 ⟨he, by simpa using hpruned⟩
    obtain ⟨new, hch, hen⟩ := h.entries
    obtain rfl : new = [] := (List.append_eq_nil_iff.1 (hch.symm.trans hempty)).2
    have hhidden := List.filter_eq_nil_iff.1 (List.map_eq_nil_iff.1 hen) e
      (mem_window.2 ⟨List.mem_filter.2 ⟨hstored, hm⟩, hgt, hle⟩)
    exact .inr (.inl (by simpa using hhidden))

theorem FeedHistory.Extends.mem_log {f' : FeedHistory} (h : f.Extends f') {e : FeedRow}
    (he : e ∈ f'.log) (hle : e.seq ≤ f.store.head) : e ∈ f.log := by
  obtain ⟨-, new, hlog, hnew⟩ := h
  rw [hlog] at he
  rcases List.mem_append.1 he with he | he
  · exact he
  · exact absurd (hnew e he) (not_lt.2 hle)

/-- **The loop without entries** passes over everything up to its position, each on some snapshot. -/
theorem refill_empty (hH : ∀ i j, i ≤ j → (H i).Extends (H j)) {n : ℕ}
    (h : refill env base target checkExpiry (n + 1) (fun k => (H k).store) s = .ok s')
    (hpos : s.pos ≤ s.head) (hhead : s.head ≤ (H 0).store.head) (hempty : s'.changes = []) :
    s.pos ≤ s'.pos ∧ s'.pos ≤ (H n).store.head ∧
      ∀ e ∈ (H n).log, s.pos < e.seq → e.seq ≤ s'.pos → ∃ k, Passed env base (H k) e := by
  have hrounds := refill_induct (P := fun k s s' => (∃ new, s'.changes = s.changes ++ new) ∧
    s.pos ≤ s'.pos ∧ s'.pos ≤ (H k).store.head ∧ (s'.changes = [] → ∀ e ∈ (H k).log,
      s.pos < e.seq → e.seq ≤ s'.pos → ∃ i, Passed env base (H i) e)) hH ?last ?more h hpos hhead
  case last =>
    intro k s s' finished hround hpos hhead
    have hmoved := (scanPage_round hround (hpos.trans hhead) hhead).1
    obtain ⟨new, hch, -⟩ := hmoved.entries
    refine ⟨⟨new, hch⟩, hmoved.le, hmoved.head ▸ hmoved.le_head, fun hempty e he hgt hle => ?_⟩
    exact ⟨k, hmoved.passed hempty e he hgt hle⟩
  case more =>
    rintro j k s s₁ s' hjk hround hpos hhead ⟨⟨new', hch'⟩, hle₁, hle', hrest⟩
    have hmoved := (scanPage_round hround (hpos.trans hhead) hhead).1
    obtain ⟨new, hch, -⟩ := hmoved.entries
    refine ⟨⟨new ++ new', by rw [hch', hch, List.append_assoc]⟩, hmoved.le.trans hle₁, hle',
      fun hempty e he hgt hle => ?_⟩
    rcases le_or_gt e.seq s₁.pos with hbefore | hafter
    · have hempty₁ := (List.append_eq_nil_iff.1 (hch'.symm.trans hempty)).1
      have hlog := (hH j k hjk).mem_log he (hbefore.trans (hmoved.head ▸ hmoved.le_head))
      exact ⟨j, hmoved.passed hempty₁ e hlog hgt hbefore⟩
    · exact hrest hempty e he hafter hle
  obtain ⟨k, hk, -, hle, hle', hpassed⟩ := hrounds
  have hext := hH k n hk
  exact ⟨hle, hle'.trans hext.1, fun e he hgt hle₁ =>
    hpassed hempty e (hext.mem_log he (hle₁.trans hle')) hgt hle₁⟩

/-- **An answer without entries** passes over everything from its start to its cursor. -/
theorem evaluateChanges_empty (hH : ∀ i j, i ≤ j → (H i).Extends (H j)) {req : ChangesRequest}
    {resp : ChangesResponse} {scanned : ℕ} (hs : req.since ≠ .head)
    (h : evaluateChanges env (fun k => (H k).store) req = .ok (resp, scanned))
    (hempty : resp.changes = []) :
    ∃ start q, startPosition env.sha256 ((H 0).store.readHead env.sha256) (H 1).store req.since =
        .ok start ∧ filterQuery env req.filter = .ok q ∧ start ≤ resp.nextCursor.pos ∧
      resp.nextCursor.pos ≤ (H 7).store.head ∧
      ∀ e ∈ (H 7).log, start < e.seq → e.seq ≤ resp.nextCursor.pos → ∃ k, Passed env q (H k) e := by
  obtain ⟨s, ⟨pos, base, body, hstart, hbase, -, hrefill⟩, rfl⟩ := evaluateChanges_cases hs h
  have hhead := (H 0).store.readHead_head env.sha256
  obtain ⟨hle, hle', hpassed⟩ := refill_empty (H := fun k => H (k + 2))
    (fun i j hij => hH _ _ (by omega)) hrefill (startPosition_le (hhead ▸ (H 0).store.prunedThrough_le_head) hstart)
    (hhead ▸ (hH 0 2 (by omega)).1) hempty
  obtain ⟨q, hq, hbase⟩ := except_bind_ok.1 hbase
  cases hbase
  refine ⟨pos, q, hstart, hq, hle, hle', fun e he hgt hle => ?_⟩
  obtain ⟨k, hk⟩ := hpassed e he hgt hle
  exact ⟨k + 2, hk⟩

/-! ## Expired positions -/

/-- **An expired position is a pruned one**, if it is not past the head. -/
theorem position_expired (hplain : env.Plain) (hH : ∀ i j, i ≤ j → (H i).Extends (H j))
    {p limit : ℕ} {filter : WatchFilter} (hp : p ≤ (H 0).store.head)
    (h : evaluateChanges env (fun k => (H k).store) ⟨.position p, limit, filter⟩ =
      .error (.acdp .cursorExpired)) : ∃ k ≤ 7, p < (H k).store.prunedThrough := by
  rcases evaluateChanges_expired hplain hH h with hstart | ⟨pos, hstart, hpruned⟩
  · simp only [startPosition, (H 0).store.readHead_head env.sha256] at hstart
    split at hstart
    · next hout => exact ⟨0, Nat.zero_le _, hout.resolve_left (not_lt.2 hp)⟩
    · cases hstart
  · obtain ⟨rfl, -, -⟩ := startPosition_ok rfl hstart
    exact hpruned

end AcdpRegistry
