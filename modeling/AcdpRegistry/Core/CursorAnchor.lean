/-
  The anchors of `GET /changes` cursors.

  A cursor carries the head it was issued at, with the fingerprint of the row
  there.  A position is only worth something in the history it was issued in: after
  a restore the same positions are given to other rows.  An anchor that still holds
  names a row of the common part (`restored_cursor_keeps_prefix`); and without a
  restore an anchor holds until retention passes the position
  (`cursor_expired_only_if_pruned`).
-/
import AcdpRegistry.Core.ChangesServe

namespace AcdpRegistry

open Lib

variable {env : ChangesEnv} {sha256 : Sha256}

/-! ## Fingerprints of the log -/

variable {f f' : FeedHistory} {r : FeedRow}

namespace FeedHistory

def HasFp (sha256 : Sha256) (f : FeedHistory) (seq : ℕ) (fp : FeedFingerprint) :
    Prop :=
  ∃ r ∈ f.log, r.seq = seq ∧ r.fingerprint sha256 = fp

variable {fp : FeedFingerprint}

theorem HasFp.unique {seq : ℕ} {fp' : FeedFingerprint} (h : f.HasFp sha256 seq fp)
    (h' : f.HasFp sha256 seq fp') : fp = fp' := by
  obtain ⟨r, hr, hseq, rfl⟩ := h
  obtain ⟨r', hr', hseq', rfl⟩ := h'
  rw [f.ascending.eq_of_key_eq hr hr' (hseq.trans hseq'.symm)]

theorem HasFp.later (hf : f.Extends f') {seq : ℕ} (h : f.HasFp sha256 seq fp) :
    f'.HasFp sha256 seq fp := by
  obtain ⟨-, new, hlog, -⟩ := hf
  obtain ⟨r, hr, hrow⟩ := h
  exact ⟨r, by rw [hlog]; exact List.mem_append_left _ hr, hrow⟩

theorem mem_log_of_stored (hr : r ∈ f.store.rows) : r ∈ f.log := by
  rw [f.stored] at hr
  exact List.mem_of_mem_filter hr

/-- The marker's fingerprint, if one was recorded, is of the row that the marker names. -/
def Marked (sha256 : Sha256) (f : FeedHistory) : Prop :=
  ∀ fp, f.store.prunedThroughFp = some fp → f.HasFp sha256 f.store.prunedThrough fp

def Recorded (f : FeedHistory) : Prop :=
  f.store.prunedThrough ≠ 0 → f.store.prunedThroughFp ≠ none

theorem marker_prune (sha256 : Sha256) (f : FeedHistory) (olderThanMs : ℤ) (batch : ℕ) :
    ((f.prune sha256 olderThanMs batch).store.prunedThrough = f.store.prunedThrough ∧
      (f.prune sha256 olderThanMs batch).store.prunedThroughFp = f.store.prunedThroughFp) ∨
    ∃ last ∈ f.log, (f.prune sha256 olderThanMs batch).store.prunedThrough = last.seq ∧
      (f.prune sha256 olderThanMs batch).store.prunedThroughFp = some (last.fingerprint sha256) := by
  rcases prune_cases sha256 f.store olderThanMs batch with hsame | ⟨last, hmem, hp, hfp, -⟩
  · exact .inl ⟨congrArg FeedStore.prunedThrough hsame, congrArg FeedStore.prunedThroughFp hsame⟩
  · exact .inr ⟨last, mem_log_of_stored hmem, hp, hfp⟩

theorem Marked.step (h : Step sha256 f f') (hm : f.Marked sha256) : f'.Marked sha256 := by
  intro fp hfp
  cases h with
  | append gap a nowMs => exact (hm fp hfp).later (step_extends sha256 (.append f gap a nowMs))
  | prune olderThanMs batch =>
    rcases f.marker_prune sha256 olderThanMs batch with ⟨hp, hsame⟩ | ⟨last, hmem, hp, hlast⟩
    · rw [hp]
      exact hm fp (hsame.symm.trans hfp)
    · exact ⟨last, hmem, hp.symm, Option.some.inj (hlast.symm.trans hfp)⟩

theorem Recorded.step (h : Step sha256 f f') (hr : f.Recorded) : f'.Recorded := by
  cases h with
  | append => exact hr
  | prune olderThanMs batch =>
    rcases f.marker_prune sha256 olderThanMs batch with ⟨hp, hsame⟩ | ⟨last, -, -, hlast⟩
    · rwa [Recorded, hp, hsame]
    · intro _ hnone
      exact Option.some_ne_none _ (hlast.symm.trans hnone)

theorem marked_empty : empty.Marked sha256 := by
  intro fp hfp
  cases hfp

theorem recorded_empty : empty.Recorded := fun h => absurd rfl h

theorem headFp_cases (hm : f.Marked sha256) (h : (f.store.readHead sha256).headFp = some fp) :
    (f.store.head = 0 ∧ fp = feedOriginFp) ∨
      (f.store.head ≠ 0 ∧ f.HasFp sha256 f.store.head fp) := by
  simp only [FeedStore.readHead, FeedHead.fromSnapshot] at h
  cases hlast : f.store.rows.getLast? with
  | some r =>
    have hmem := List.mem_of_getLast? hlast
    have hseq : f.store.head = r.seq := by simp [FeedStore.head, hlast]
    rw [hlast] at h
    simp only [Option.map_some, f.store.retained r hmem, if_true, Option.some.injEq] at h
    have hpos := f.store.retained r hmem
    exact .inr ⟨by omega, r, mem_log_of_stored hmem, hseq.symm, h⟩
  | none =>
    have hseq : f.store.head = f.store.prunedThrough := by simp [FeedStore.head, hlast]
    rw [hlast] at h
    by_cases h0 : f.store.prunedThrough = 0
    · simp only [Option.map_none, h0, if_true, Option.some.injEq] at h
      exact .inl ⟨hseq.trans h0, h.symm⟩
    · simp only [Option.map_none, h0, if_false] at h
      rw [hseq]
      exact .inr ⟨h0, hm fp h⟩

theorem Recorded.headFp (hr : f.Recorded) (sha256 : Sha256) :
    (f.store.readHead sha256).headFp ≠ none := by
  simp only [FeedStore.readHead, FeedHead.fromSnapshot]
  cases hlast : f.store.rows.getLast? with
  | some r => simp [f.store.retained r (List.mem_of_getLast? hlast)]
  | none =>
    by_cases h0 : f.store.prunedThrough = 0
    · simp [h0]
    · simpa [h0] using hr h0

end FeedHistory

/-! ## Issued cursors -/

variable {H : ℕ → FeedHistory} {checkExpiry : Bool} {req : ChangesRequest} {target : ℕ}

theorem refill_anchored (hH : ∀ i j, i ≤ j → (H i).Extends (H j)) {base : FeedQuery} {n : ℕ}
    {s s' : Scan}
    (h : refill env base target checkExpiry (n + 1) (fun k => (H k).store) s = .ok s')
    (hpos : s.pos ≤ s.head) (hhead : s.head ≤ (H 0).store.head) :
    ∃ k ≤ n, Anchored env (H k).store s s' := by
  refine refill_induct (P := fun k => Anchored env (H k).store) hH ?_ ?_ h hpos hhead
  · intro k s s' finished hround hpos hhead
    exact (scanPage_round hround (hpos.trans hhead) hhead).1.toAnchored
  · intro j k s s₁ s' _ hround hpos hhead hrest
    have hmoved := (scanPage_round hround (hpos.trans hhead) hhead).1
    exact hmoved.toAnchored.trans hrest

theorem startPosition_le {start : FeedHead} {anchorRead : FeedStore} {since : Since} {pos : ℕ}
    (hstart : start.prunedThrough ≤ start.head)
    (h : startPosition sha256 start anchorRead since = .ok pos) : pos ≤ start.head := by
  cases since with
  | head => cases h; exact le_rfl
  | oldest => cases h; exact hstart
  | position p =>
    obtain ⟨rfl, hle, -⟩ := startPosition_ok rfl h
    exact hle
  | cursor c =>
    obtain ⟨rfl, hle, -⟩ := startPosition_ok rfl h
    exact hle

/-- **Every cursor a response carries** is at or below the head of one of the snapshots the request
    read, and is anchored there. -/
theorem evaluateChanges_issues (hH : ∀ i j, i ≤ j → (H i).Extends (H j)) {resp : ChangesResponse}
    {scanned : ℕ} (h : evaluateChanges env (fun k => (H k).store) req = .ok (resp, scanned)) :
    ∃ k ≤ 7, resp.nextCursor.pos ≤ (H k).store.head ∧ resp.nextCursor.anchor =
      anchorAt (H k).store.head ((H k).store.readHead env.sha256).headFp := by
  have hhead : ((H 0).store.readHead env.sha256).head = (H 0).store.head :=
    (H 0).store.readHead_head env.sha256
  by_cases hs : req.since = .head
  · simp only [evaluateChanges, hs, if_true] at h
    cases h
    refine ⟨0, Nat.zero_le _, ?_, ?_⟩
    · simp only [headCursor, hhead, le_refl]
    · simp only [headCursor, hhead]
  · obtain ⟨s, ⟨pos, base, body, hstart, -, -, hrefill⟩, rfl⟩ := evaluateChanges_cases hs h
    have hpos := startPosition_le (hhead ▸ (H 0).store.prunedThrough_le_head) hstart
    obtain ⟨k, hk, hend⟩ := refill_anchored (H := fun k => H (k + 2))
      (fun i j hij => hH _ _ (Nat.add_le_add_right hij 2)) hrefill hpos
      (hhead.le.trans (hH 0 2 (Nat.zero_le _)).1)
    refine ⟨k + 2, by omega, ?_, ?_⟩
    · simp only [Scan.response, ← hend.head, hend.le_head]
    · simp only [Scan.response, ← hend.head, ← hend.headFp]

/-! ## Anchors that hold -/

variable {anchor : CursorAnchor}

theorem anchorHolds_iff {store : FeedStore} {start : FeedHead} (h0 : anchor.seq ≠ 0) :
    anchorHolds sha256 store start anchor = true ↔
      anchor.seq ≤ start.head ∧
        ((anchor.seq = start.head ∧ start.headFp = some anchor.fp) ∨ (anchor.seq ≠ start.head ∧
          ((anchor.seq = store.prunedThrough ∧ store.prunedThroughFp = some anchor.fp) ∨
            (store.prunedThrough < anchor.seq ∧ ∃ r,
              (store.page sha256 { after := anchor.seq - 1, scanLimit := 1 }).rows.head? = some r ∧
                r.seq = anchor.seq ∧ r.fingerprint sha256 = anchor.fp)))) := by
  have hmarker : (store.page sha256 { after := anchor.seq - 1, scanLimit := 1 }).prunedThrough =
      store.prunedThrough := rfl
  have hmarkerFp : (store.page sha256 { after := anchor.seq - 1, scanLimit := 1 }).prunedThroughFp =
      store.prunedThroughFp := rfl
  unfold anchorHolds
  simp only [h0, if_false, hmarker, hmarkerFp]
  by_cases habove : start.head < anchor.seq
  · simp [habove]
  rw [if_neg habove, beq_iff_eq]
  by_cases hhead : anchor.seq = start.head
  · simp [hhead]
  simp only [hhead, not_lt.1 habove, if_false, true_and, false_and, false_or, ne_eq, not_false_eq_true]
  rcases lt_trichotomy anchor.seq store.prunedThrough with hlt | heq | hgt
  · simp [hlt, hlt.ne, hlt.not_gt]
  · simp [heq]
  · simp [hgt, hgt.ne', hgt.not_gt, Option.filter_eq_some_iff, and_assoc]

theorem anchorHolds_origin (sha256 : Sha256) (store : FeedStore) (start : FeedHead) :
    anchorHolds sha256 store start ⟨0, feedOriginFp⟩ = true := by
  simp [anchorHolds]

theorem anchorHolds_hasFp (hf : f.Extends f') (hm : f.Marked sha256) (hm' : f'.Marked sha256)
    (h0 : anchor.seq ≠ 0)
    (h : anchorHolds sha256 f'.store (f.store.readHead sha256) anchor = true) :
    f'.HasFp sha256 anchor.seq anchor.fp := by
  rcases ((anchorHolds_iff h0).1 h).2 with ⟨hhead, hfp⟩ | ⟨-, ⟨hpruned, hfp⟩ | ⟨-, r, hr, hseq, hfp⟩⟩
  · rw [FeedStore.readHead_head] at hhead
    rcases FeedHistory.headFp_cases hm hfp with ⟨hzero, -⟩ | ⟨-, hrow⟩
    · exact absurd (hhead.trans hzero) h0
    · rw [hhead]
      exact hrow.later hf
  · rw [hpruned]
    exact hm' anchor.fp hfp
  · have hmem := List.mem_of_mem_head? hr
    rw [FeedStore.page_rows] at hmem
    have hrow := List.mem_of_mem_filter (mem_window.1 hmem).1
    exact ⟨r, FeedHistory.mem_log_of_stored hrow, hseq, hfp⟩

theorem FeedQuery.matches_unfiltered (after limit : ℕ) (r : FeedRow) :
    FeedQuery.«matches» { after := after, scanLimit := limit } r = true := by
  simp [FeedQuery.matches, FeedQuery.hasIdClause]

theorem page_first (sha256 : Sha256) (hr : r ∈ f.log)
    (hseq : f.store.prunedThrough < r.seq) :
    (f.store.page sha256 { after := r.seq - 1, scanLimit := 1 }).rows.head? = some r := by
  have hstored : r ∈ f.store.rows := by
    rw [f.stored]
    exact List.mem_filter.2 ⟨hr, by simpa using hseq⟩
  simp only [FeedStore.page, FeedPage.fromScan, FeedQuery.limit, max_self, List.head?_take,
    one_ne_zero, if_false, List.head?_filter]
  refine f.store.ascending.find?_eq_some hstored ?_ fun b _ hb => ?_
  · rw [FeedQuery.matches_unfiltered]
    simp only [Bool.and_true, decide_eq_true_eq]
    omega
  · rw [FeedQuery.matches_unfiltered] at hb
    simp only [Bool.and_true, decide_eq_true_eq] at hb
    omega

theorem anchorHolds_of_hasFp (hf : f.Extends f') (hm : f.Marked sha256) (hrec : f.Recorded)
    (hm' : f'.Marked sha256) (hrec' : f'.Recorded) (hle : anchor.seq ≤ f.store.head)
    (hrow : f.HasFp sha256 anchor.seq anchor.fp) (h0 : anchor.seq ≠ 0)
    (hkept : f'.store.prunedThrough ≤ anchor.seq) :
    anchorHolds sha256 f'.store (f.store.readHead sha256) anchor = true := by
  refine (anchorHolds_iff h0).2 ⟨by rwa [FeedStore.readHead_head], ?_⟩
  rw [FeedStore.readHead_head]
  by_cases hhead : anchor.seq = f.store.head
  · obtain ⟨fp, hfp⟩ := Option.ne_none_iff_exists'.1 (hrec.headFp (sha256))
    rcases FeedHistory.headFp_cases hm hfp with ⟨hzero, -⟩ | ⟨-, hrow'⟩
    · exact absurd (hhead.trans hzero) h0
    · rw [← hhead] at hrow'
      exact .inl ⟨hhead, by rw [hfp, hrow.unique hrow']⟩
  refine .inr ⟨hhead, ?_⟩
  rcases hkept.eq_or_lt with hpruned | hlt
  · obtain ⟨fp, hfp⟩ := Option.ne_none_iff_exists'.1 (hrec' (hpruned ▸ h0))
    have hrow' := hm' fp hfp
    rw [hpruned] at hrow'
    exact .inl ⟨hpruned.symm, by rw [hfp, (hrow.later hf).unique hrow']⟩
  · obtain ⟨r, hr, hseq, hfp⟩ := hrow.later hf
    have hfirst := page_first sha256 hr (hseq ▸ hlt)
    rw [hseq] at hfirst
    exact .inr ⟨hlt, r, hfirst, hseq, hfp⟩

theorem anchorAt_cases (hm : f.Marked sha256)
    (h : anchor = anchorAt f.store.head (f.store.readHead sha256).headFp) :
    anchor = ⟨0, feedOriginFp⟩ ∨
      (anchor.seq ≠ 0 ∧ anchor.seq = f.store.head ∧ f.HasFp sha256 anchor.seq anchor.fp) := by
  cases hfp : (f.store.readHead sha256).headFp with
  | none =>
    rw [hfp] at h
    exact .inl h
  | some fp =>
    rw [hfp] at h
    subst h
    rcases FeedHistory.headFp_cases hm hfp with ⟨hzero, rfl⟩ | ⟨hpos, hrow⟩
    · exact .inl (by simp only [anchorAt, hzero])
    · exact .inr ⟨hpos, rfl, hrow⟩

/-! ## After a restore -/

/-- The columns that a fingerprint covers are the same. -/
def FeedRow.SameAppend (r r' : FeedRow) : Prop :=
  r.seq = r'.seq ∧ r.appendedAtMs = r'.appendedAtMs ∧ r.kind = r'.kind ∧ r.ctxId = r'.ctxId

def FeedHistory.upTo (f : FeedHistory) (pos : ℕ) : List FeedRow :=
  f.log.filter fun r => decide (r.seq ≤ pos)

theorem FeedHistory.Extends.upTo_eq (h : f.Extends f') {pos : ℕ} (hpos : pos ≤ f.store.head) :
    f'.upTo pos = f.upTo pos := by
  obtain ⟨-, new, hlog, hnew⟩ := h
  have habove : (new.filter fun r => decide (r.seq ≤ pos)) = [] := by
    refine List.filter_eq_nil_iff.2 fun r hr => ?_
    have := hnew r hr
    simp only [decide_eq_true_eq]
    omega
  rw [FeedHistory.upTo, hlog, List.filter_append, habove, List.append_nil, FeedHistory.upTo]

theorem evaluateChanges_anchor {reads : ℕ → FeedStore} {c : DecodedCursor} {limit : ℕ}
    {filter : WatchFilter}
    (h : evaluateChanges env reads ⟨.cursor c, limit, filter⟩ ≠ .error (.acdp .cursorExpired)) :
    anchorHolds env.sha256 (reads 1) ((reads 0).readHead env.sha256) c.anchor = true := by
  by_contra hfalse
  refine h ?_
  have hstart : startPosition env.sha256 ((reads 0).readHead env.sha256) (reads 1) (.cursor c) =
      .error (.acdp .cursorExpired) := by
    simp only [startPosition, if_neg hfalse, ite_self]
  simp only [evaluateChanges, reduceCtorEq, if_false, hstart]
  rfl

section Restore

variable {T T' : Trace (FeedHistory.Step sha256)}

theorem mem_log_later {i j : ℕ} (hij : i ≤ j) (hr : r ∈ (T.state i).log) : r ∈ (T.state j).log := by
  obtain ⟨-, new, hlog, -⟩ := FeedHistory.trace_extends T hij
  rw [hlog]
  exact List.mem_append_left _ hr

theorem head_lt_of_not_mem {i j : ℕ} (hr : r ∈ (T.state j).log) (hnew : r ∉ (T.state i).log) :
    (T.state i).store.head < r.seq := by
  have hij : i ≤ j := by
    by_contra hlt
    exact hnew (mem_log_later (le_of_not_ge hlt) hr)
  obtain ⟨-, new, hlog, habove⟩ := FeedHistory.trace_extends T hij
  rw [hlog] at hr
  exact habove r ((List.mem_append.1 hr).resolve_left hnew)

theorem upTo_eq_of_le {i j pos : ℕ} (hi : pos ≤ (T.state i).store.head)
    (hj : pos ≤ (T.state j).store.head) : (T.state i).upTo pos = (T.state j).upTo pos := by
  rcases le_total i j with hij | hji
  · exact ((FeedHistory.trace_extends T hij).upTo_eq hi).symm
  · exact (FeedHistory.trace_extends T hji).upTo_eq hj

end Restore

/-- **Sequence resets are detected.**  A cursor of the first history, not anchored at the origin, that
    the history restored from its backup does not expire has every row up to its position in common
    with it, and all rows appended after the restore are past it. -/
theorem restored_cursor_keeps_prefix (env env' : ChangesEnv) (hsha : env'.sha256 = env.sha256)
    (T T' : Trace (FeedHistory.Step env.sha256)) (backup : ℕ) (hrestore : T'.state 0 = T.state backup)
    (hmarked : (T.state 0).Marked env.sha256) (reads reads' : ℕ → ℕ) (hreads : Monotone reads)
    (hreads' : Monotone reads') (req : ChangesRequest) (resp : ChangesResponse) (scanned : ℕ)
    (hissued : evaluateChanges env (fun k => (T.state (reads k)).store) req = .ok (resp, scanned))
    (hanchor : resp.nextCursor.anchor ≠ ⟨0, feedOriginFp⟩) (limit : ℕ) (filter : WatchFilter)
    (haccepted : evaluateChanges env' (fun k => (T'.state (reads' k)).store)
      ⟨.cursor resp.nextCursor, limit, filter⟩ ≠ .error (.acdp .cursorExpired))
    (t t' : ℕ) (ht : reads 7 ≤ t) (ht' : reads' 7 ≤ t')
    (hinjective : ∀ r ∈ (T.state t).log, ∀ r' ∈ (T'.state t').log,
      r.fingerprint env.sha256 = r'.fingerprint env.sha256 → r.SameAppend r')
    (hdifferent : ∀ r ∈ (T.state t).log, r ∉ (T.state backup).log → ∀ r' ∈ (T'.state t').log,
      r' ∉ (T.state backup).log → ¬r.SameAppend r') :
    (T'.state t').upTo resp.nextCursor.pos = (T.state t).upTo resp.nextCursor.pos ∧
      ∀ r ∈ (T'.state t').log, r ∉ (T.state backup).log → resp.nextCursor.pos < r.seq := by
  have hmark : ∀ n, (T.state n).Marked env.sha256 := fun n =>
    T.keeps (fun _ _ hst hm => hm.step hst) (Nat.zero_le n) hmarked
  have hmark' : ∀ n, (T'.state n).Marked env.sha256 := fun n =>
    T'.keeps (fun _ _ hst hm => hm.step hst) (Nat.zero_le n) (hrestore ▸ hmark backup)
  obtain ⟨k, hk, hpos, hat⟩ := evaluateChanges_issues (H := fun k => T.state (reads k))
    (fun i j hij => FeedHistory.trace_extends T (hreads hij)) hissued
  obtain ⟨h0, hseq, hrow⟩ := (anchorAt_cases (hmark _) hat).resolve_left hanchor
  have hholds := evaluateChanges_anchor haccepted
  rw [hsha] at hholds
  have hrow' := anchorHolds_hasFp (FeedHistory.trace_extends T' (hreads' (Nat.zero_le 1))) (hmark' _)
    (hmark' _) h0 hholds
  obtain ⟨r, hr, hrseq, hrfp⟩ := hrow.later (FeedHistory.trace_extends T ((hreads hk).trans ht))
  obtain ⟨r', hr', hrseq', hrfp'⟩ :=
    hrow'.later (FeedHistory.trace_extends T' ((hreads' (by omega)).trans ht'))
  have hsame := hinjective r hr r' hr' (hrfp.trans hrfp'.symm)
  -- the row of the anchor is in the backup: otherwise the two rows are two appends of one kind
  have hbackup : resp.nextCursor.anchor.seq ≤ (T.state backup).store.head := by
    by_cases hmem : r ∈ (T.state backup).log
    · exact hrseq ▸ (T.state backup).logged r hmem
    · by_cases hmem' : r' ∈ (T.state backup).log
      · exact hrseq' ▸ (T.state backup).logged r' hmem'
      · exact absurd hsame (hdifferent r hr hmem r' hr' hmem')
  have hle : resp.nextCursor.pos ≤ (T.state backup).store.head :=
    (hpos.trans_eq hseq.symm).trans hbackup
  have hle₀ : resp.nextCursor.pos ≤ (T'.state 0).store.head := by
    rw [hrestore]
    exact hle
  constructor
  · rw [(FeedHistory.trace_extends T' (Nat.zero_le t')).upTo_eq hle₀, hrestore]
    exact upTo_eq_of_le hle
      (hpos.trans (FeedHistory.trace_extends T ((hreads hk).trans ht)).1)
  · intro r hr hnew
    rw [← hrestore] at hnew
    exact hle₀.trans_lt (head_lt_of_not_mem hr hnew)

def anchorEnv : ChangesEnv := { sampleEnv with sha256 := fun bytes => bytes.drop 35 }

def anchorRow : FeedAppend := ⟨.superseded, "c1", "l1", "a1", some "c2", none, .null, "", ""⟩

def anchorBackup : FeedHistory := FeedHistory.empty.append 0 anchorRow 1280

def thenAppend (nowMs : ℤ) : Trace (FeedHistory.Step anchorEnv.sha256) where
  state
    | 0 => anchorBackup
    | _ + 1 => anchorBackup.append 0 anchorRow nowMs
  next
    | 0 => .single (.append _ _ _ _)
    | _ + 1 => .refl

theorem mem_thenAppend {nowMs : ℤ} (h : r ∈ ((thenAppend nowMs).state 1).log) :
    r = { anchorRow with seq := 1, appendedAtMs := 1280 } ∨
      r = { anchorRow with seq := 2, appendedAtMs := nowMs } :=
  (List.mem_cons.1 h).imp_right List.mem_singleton.1

theorem restored_cursor_keeps_prefix_sample :
    ((thenAppend 1792).state 1).upTo 1 = ((thenAppend 1536).state 1).upTo 1 ∧
      ∀ r ∈ ((thenAppend 1792).state 1).log, r ∉ anchorBackup.log → 1 < r.seq := by
  have hmarked : anchorBackup.Marked anchorEnv.sha256 :=
    FeedHistory.marked_empty.step (.append _ _ _ _)
  refine restored_cursor_keeps_prefix anchorEnv anchorEnv rfl (thenAppend 1536) (thenAppend 1792) 0
    rfl hmarked (fun _ => 0) (fun _ => 1) monotone_const monotone_const ⟨.head, 1, {}⟩
    ⟨[], ⟨1, ⟨1, [1, 0, 0, 0, 0, 0, 0, 5]⟩⟩, false⟩ 0 rfl (by decide) 1 {} (fun h => ?_) 1 1
    (by decide) le_rfl ?_ ?_
  · have hok : ∃ x, evaluateChanges anchorEnv (fun _ => ((thenAppend 1792).state 1).store)
        ⟨.cursor ⟨1, ⟨1, [1, 0, 0, 0, 0, 0, 0, 5]⟩⟩, 1, {}⟩ = .ok x := ⟨_, rfl⟩
    obtain ⟨x, hx⟩ := hok
    rw [hx] at h
    cases h
  · intro r hr r' hr' hfp
    rcases mem_thenAppend hr with rfl | rfl <;> rcases mem_thenAppend hr' with rfl | rfl
    · exact ⟨rfl, rfl, rfl, rfl⟩
    all_goals exact absurd hfp (by decide)
  · rintro r hr hlost r' hr' hnew ⟨-, htime, -⟩
    rcases mem_thenAppend hr with rfl | rfl
    · exact hlost List.mem_cons_self
    · rcases mem_thenAppend hr' with rfl | rfl
      · exact hnew List.mem_cons_self
      · exact absurd htime (by decide)

/-! ## Without a restore -/

/-- What a request calls beside the feed does not answer `cursor_expired`. -/
structure ChangesEnv.Plain (env : ChangesEnv) : Prop where
  changeLen : ∀ c, env.changeLen c ≠ .error (.acdp .cursorExpired)
  responseLen : ∀ r, env.responseLen r ≠ .error (.acdp .cursorExpired)
  validateBucket : ∀ b n, env.api.validateBucket b n ≠ .error .cursorExpired

theorem toChange_error {api : ChangeApi} {e : AcdpError} (h : r.toChange api = .error e) :
    e ≠ .cursorExpired := by
  obtain ⟨e', -, rfl⟩ := except_mapError_error.1 h
  simp

section Plain

variable (hplain : env.Plain)
include hplain

theorem serveRows_not_expired {target : ℕ} {visible : List String} :
    ∀ {rows : List FeedRow} {s : Scan},
      serveRows env target visible rows s ≠ .error (.acdp .cursorExpired)
  | [], s => by simp [serveRows]
  | row :: rows, s => by
    intro h
    unfold serveRows at h
    split at h
    · cases h
    split at h
    · rcases except_bind_error.1 h with hrow | ⟨change, -, h⟩
      · obtain ⟨e, he, heq⟩ := except_mapError_error.1 hrow
        cases heq
        exact toChange_error he rfl
      rcases except_bind_error.1 h with hlen | ⟨size, -, h⟩
      · exact hplain.changeLen change hlen
      split at h
      · cases h
      · exact serveRows_not_expired h
    · exact serveRows_not_expired h

theorem scanPage_expired {page : FeedPage} {s : Scan}
    (h : scanPage env target checkExpiry page s = .error (.acdp .cursorExpired)) :
    s.pos < page.prunedThrough := by
  unfold scanPage at h
  simp only at h
  split at h
  · next hexp => exact hexp.2
  · rcases except_bind_error.1 h with hserve | ⟨r, -, h⟩
    · exact absurd hserve (serveRows_not_expired hplain)
    · split at h <;> cases h

theorem refill_expired {base : FeedQuery} {n : ℕ} (hH : ∀ i j, i ≤ j → (H i).Extends (H j)) {s : Scan}
    (hpos : s.pos ≤ s.head) (hhead : s.head ≤ (H 0).store.head)
    (h : refill env base target checkExpiry n (fun k => (H k).store) s =
      .error (.acdp .cursorExpired)) : ∃ k < n, s.pos < (H k).store.prunedThrough := by
  induction n generalizing H s with
  | zero => cases h
  | succ n ih =>
    simp only [refill] at h
    rcases except_bind_error.1 h with hround | ⟨⟨s₁, finished⟩, hround, h⟩
    · exact ⟨0, Nat.succ_pos n, scanPage_expired hplain hround⟩
    · have hnext := (scanPage_round hround (hpos.trans hhead) hhead).1
      simp only at h
      split at h
      · cases h
      · obtain ⟨k, hk, hlt⟩ := ih (H := fun k => H (k + 1))
          (fun i j hij => hH _ _ (Nat.succ_le_succ hij)) hnext.le_head
          (hnext.head ▸ (hH 0 1 (Nat.zero_le _)).1) h
        exact ⟨k + 1, Nat.succ_lt_succ hk, hnext.le.trans_lt hlt⟩

theorem baseQuery_not_expired {pos : ℕ} :
    baseQuery env req pos ≠ .error (.acdp .cursorExpired) := by
  -- only a bucket can fail
  have hbuckets : ∀ bs : List String,
      (bs.mapM fun b => Bucket.parse env.api b 16).mapError RegistryError.acdp ≠
        .error (.acdp .cursorExpired) := by
    intro bs h
    obtain ⟨e, he, heq⟩ := except_mapError_error.1 h
    cases heq
    obtain ⟨b, -, hb⟩ := except_mapM_error he
    rcases except_bind_error.1 hb with hb | ⟨u, -, hb⟩
    · exact hplain.validateBucket b _ hb
    · cases hb
  intro h
  rcases except_bind_error.1 h with h | ⟨q, -, h⟩
  · rcases except_bind_error.1 h with h | ⟨bs, -, h⟩
    · exact hbuckets _ h
    · rcases except_bind_error.1 h with h | ⟨bs', -, h⟩
      · exact hbuckets _ h
      · cases h
  · cases h

theorem evaluateChanges_expired (hH : ∀ i j, i ≤ j → (H i).Extends (H j))
    (h : evaluateChanges env (fun k => (H k).store) req = .error (.acdp .cursorExpired)) :
    startPosition env.sha256 ((H 0).store.readHead env.sha256) (H 1).store req.since =
        .error (.acdp .cursorExpired) ∨
      ∃ pos, startPosition env.sha256 ((H 0).store.readHead env.sha256) (H 1).store req.since =
        .ok pos ∧ ∃ k ≤ 7, pos < (H k).store.prunedThrough := by
  unfold evaluateChanges at h
  simp only at h
  split at h
  · cases h
  rcases except_bind_error.1 h with hstart | ⟨pos, hstart, h⟩
  · exact .inl hstart
  rcases except_bind_error.1 h with hbase | ⟨base, -, h⟩
  · exact absurd hbase (baseQuery_not_expired hplain)
  rcases except_bind_error.1 h with hbody | ⟨body, -, h⟩
  · exact absurd hbody (hplain.responseLen _)
  rcases except_bind_error.1 h with hrefill | ⟨s, -, h⟩
  · have hhead : ((H 0).store.readHead env.sha256).head = (H 0).store.head :=
      (H 0).store.readHead_head env.sha256
    have hpos := startPosition_le (hhead ▸ (H 0).store.prunedThrough_le_head) hstart
    obtain ⟨k, hk, hlt⟩ := refill_expired hplain (H := fun k => H (k + 2))
      (fun i j hij => hH _ _ (Nat.add_le_add_right hij 2)) hpos
      (hhead.le.trans (hH 0 2 (Nat.zero_le _)).1) hrefill
    have hsix : k < 6 := hk
    exact .inr ⟨pos, hstart, k + 2, by omega, hlt⟩
  · split at h <;> cases h

end Plain

/-- **No false expiry.**  From an empty feed, without a restore, a cursor that any response carried is
    accepted until retention has passed its position, and expired only if it has at one of the
    request's reads. -/
theorem cursor_expired_only_if_pruned (env env' : ChangesEnv) (hsha : env'.sha256 = env.sha256)
    (hplain : env'.Plain) (T : Trace (FeedHistory.Step env.sha256))
    (hempty : T.state 0 = FeedHistory.empty) (reads reads' : ℕ → ℕ) (hreads : Monotone reads)
    (hreads' : Monotone reads') (hlater : reads 7 ≤ reads' 0) (req : ChangesRequest)
    (resp : ChangesResponse) (scanned : ℕ)
    (hissued : evaluateChanges env (fun k => (T.state (reads k)).store) req = .ok (resp, scanned))
    (limit : ℕ) (filter : WatchFilter) :
    ((∀ k ≤ 7, (T.state (reads' k)).store.prunedThrough ≤ resp.nextCursor.pos) →
      startPosition env'.sha256 ((T.state (reads' 0)).store.readHead env'.sha256)
          (T.state (reads' 1)).store (.cursor resp.nextCursor) = .ok resp.nextCursor.pos ∧
        evaluateChanges env' (fun k => (T.state (reads' k)).store)
          ⟨.cursor resp.nextCursor, limit, filter⟩ ≠ .error (.acdp .cursorExpired)) ∧
    (evaluateChanges env' (fun k => (T.state (reads' k)).store)
        ⟨.cursor resp.nextCursor, limit, filter⟩ = .error (.acdp .cursorExpired) →
      ∃ k ≤ 7, resp.nextCursor.pos < (T.state (reads' k)).store.prunedThrough) := by
  have hmark : ∀ n, (T.state n).Marked env.sha256 := fun n =>
    T.keeps (fun _ _ hst hm => hm.step hst) (Nat.zero_le n) (hempty ▸ FeedHistory.marked_empty)
  have hrec : ∀ n, (T.state n).Recorded := fun n =>
    T.keeps (fun _ _ hst hm => hm.step hst) (Nat.zero_le n) (hempty ▸ FeedHistory.recorded_empty)
  obtain ⟨k, hk, hpos, hat⟩ := evaluateChanges_issues (H := fun k => T.state (reads k))
    (fun i j hij => FeedHistory.trace_extends T (hreads hij)) hissued
  have hgrown := FeedHistory.trace_extends T ((hreads hk).trans hlater)
  -- the start is accepted when retention has passed the position at neither of its two reads
  have hstart : (T.state (reads' 0)).store.prunedThrough ≤ resp.nextCursor.pos →
      (T.state (reads' 1)).store.prunedThrough ≤ resp.nextCursor.pos →
      startPosition env'.sha256 ((T.state (reads' 0)).store.readHead env'.sha256)
        (T.state (reads' 1)).store (.cursor resp.nextCursor) = .ok resp.nextCursor.pos := by
    intro hkept hkept'
    have hholds : anchorHolds env'.sha256 (T.state (reads' 1)).store
        ((T.state (reads' 0)).store.readHead env'.sha256) resp.nextCursor.anchor = true := by
      rw [hsha]
      rcases anchorAt_cases (hmark _) hat with horigin | ⟨h0, hseq, hrow⟩
      · rw [horigin]
        exact anchorHolds_origin _ _ _
      · exact anchorHolds_of_hasFp (FeedHistory.trace_extends T (hreads' (Nat.zero_le 1))) (hmark _)
          (hrec _) (hmark _) (hrec _) (hseq.le.trans hgrown.1) (hrow.later hgrown) h0
          (hkept'.trans (hpos.trans_eq hseq.symm))
    have hbounds : ¬(((T.state (reads' 0)).store.readHead env'.sha256).head < resp.nextCursor.pos ∨
        resp.nextCursor.pos < ((T.state (reads' 0)).store.readHead env'.sha256).prunedThrough) := by
      rw [FeedStore.readHead_head, FeedStore.readHead_prunedThrough]
      have := hgrown.1
      omega
    simp only [startPosition, if_neg hbounds, if_pos hholds]
  have hexpired : evaluateChanges env' (fun k => (T.state (reads' k)).store)
        ⟨.cursor resp.nextCursor, limit, filter⟩ = .error (.acdp .cursorExpired) →
      ∃ k ≤ 7, resp.nextCursor.pos < (T.state (reads' k)).store.prunedThrough := by
    intro h
    rcases evaluateChanges_expired hplain (H := fun k => T.state (reads' k))
      (fun i j hij => FeedHistory.trace_extends T (hreads' hij)) h with hfail | ⟨pos, hok, k, hk, hlt⟩
    · by_contra hkept
      push Not at hkept
      rw [hstart (hkept 0 (by omega)) (hkept 1 (by omega))] at hfail
      cases hfail
    · obtain ⟨rfl, -⟩ := startPosition_ok rfl hok
      exact ⟨k, hk, hlt⟩
  refine ⟨fun hkept => ⟨hstart (hkept 0 (by omega)) (hkept 1 (by omega)), fun h => ?_⟩, hexpired⟩
  obtain ⟨k, hk, hlt⟩ := hexpired h
  exact absurd (hkept k hk) (not_le.2 hlt)

def thenPrune : Trace (FeedHistory.Step anchorEnv.sha256) where
  state
    | 0 => FeedHistory.empty
    | 1 => anchorBackup
    | _ + 2 => anchorBackup.prune anchorEnv.sha256 2000 10
  next
    | 0 => .single (.append _ _ _ _)
    | 1 => .single (.prune _ _ _)
    | _ + 2 => .refl

theorem cursor_expired_only_if_pruned_sample :
    (thenPrune.state 2).store.prunedThrough = 1 ∧ evaluateChanges anchorEnv
      (fun _ => (thenPrune.state 2).store) ⟨.cursor ⟨1, ⟨1, [1, 0, 0, 0, 0, 0, 0, 5]⟩⟩, 1, {}⟩ ≠
        .error (.acdp .cursorExpired) := by
  refine ⟨by decide, ((cursor_expired_only_if_pruned anchorEnv anchorEnv rfl ⟨nofun, nofun, nofun⟩
    thenPrune rfl (fun _ => 1) (fun _ => 2) monotone_const monotone_const (by decide) ⟨.head, 1, {}⟩
    ⟨[], ⟨1, ⟨1, [1, 0, 0, 0, 0, 0, 0, 5]⟩⟩, false⟩ 0 rfl 1 {}).1 fun k _ => ?_).2⟩
  exact (by decide : (thenPrune.state 2).store.prunedThrough ≤ 1)

end AcdpRegistry
