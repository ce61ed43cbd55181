/-
  What a consumer of the change feed is served.

  The position of the refill loop is an invariant: everything wanted up to it has
  been served, once and in order.  One round keeps it (`scanPage_serves`), so
  does the whole loop over any snapshots of a growing feed (`refill_serves`), and
  so does a consumer that follows `next_cursor` from request to request.
-/
import AcdpRegistry.Core.Changes
import AcdpRegistry.Store.FeedHistory
import AcdpRegistry.Lib.Handler

namespace AcdpRegistry

open Lib

variable {env : ChangesEnv}

def ChangesEnv.visibleRow (env : ChangesEnv) (row : FeedRow) : Bool :=
  match visibilitySubject row with
  | none => true
  | some id => !id.isEmpty && env.visible id

/-- A row the consumer is owed: it matches the query and is visible. -/
def ChangesEnv.wanted (env : ChangesEnv) (q : FeedQuery) (row : FeedRow) : Bool :=
  q.matches row && env.visibleRow row

/-- `changes` are the entries of `rows`, one for one and in order. -/
def ChangesEnv.Entries (env : ChangesEnv) (rows : List FeedRow) (changes : List Change) : Prop :=
  rows.map (·.toChange env.api) = changes.map Except.ok

theorem ChangesEnv.Entries.append {rows rows' : List FeedRow} {cs cs' : List Change}
    (h : env.Entries rows cs) (h' : env.Entries rows' cs') :
    env.Entries (rows ++ rows') (cs ++ cs') := by
  unfold ChangesEnv.Entries at *
  rw [List.map_append, List.map_append, h, h']

theorem mem_pageVisible {rows : List FeedRow} {id : String} :
    id ∈ pageVisible env rows ↔
      id ∈ rows.filterMap visibilitySubject ∧ id.isEmpty = false ∧ env.visible id = true := by
  have heq : pageVisible env rows =
      env.visibleCtxIds ((rows.filterMap visibilitySubject).filter fun s => !s.isEmpty) := by
    simp only [pageVisible]
    split
    · next h => rw [List.isEmpty_iff.1 h]; rfl
    · rfl
  simp only [heq, ChangesEnv.visibleCtxIds, List.mem_filter, Bool.not_eq_true', and_assoc]

theorem rowVisible_page {rows : List FeedRow} {row : FeedRow} (hr : row ∈ rows) :
    rowVisible (pageVisible env rows) row = env.visibleRow row := by
  unfold rowVisible ChangesEnv.visibleRow
  cases hs : visibilitySubject row with
  | none => rfl
  | some id =>
    have hmem : id ∈ rows.filterMap visibilitySubject := List.mem_filterMap.2 ⟨row, hr, hs⟩
    rw [Bool.eq_iff_iff]
    simp only [List.contains_iff_mem, mem_pageVisible, hmem, true_and, Bool.and_eq_true,
      Bool.not_eq_true']

/-! ## One page -/

/-- **The rows of a page are consumed from the front.**  The position is the last consumed row's. -/
theorem serveRows_spec {target : ℕ} {visible : List String} :
    ∀ {rows : List FeedRow} {s s' : Scan} {left : Bool},
      serveRows env target visible rows s = .ok (s', left) →
      ∃ done rest new, rows = done ++ rest ∧ s'.changes = s.changes ++ new ∧
        env.Entries (done.filter (rowVisible visible)) new ∧
        s'.pos = (done.getLast?.map (·.seq)).getD s.pos ∧ s'.head = s.head ∧ s'.headFp = s.headFp ∧
        (left = false ↔ rest = []) ∧ (rows ≠ [] → s.changes = [] → 0 < target → done ≠ [])
  | [], s, s', left, h => by
    cases h
    exact ⟨[], [], [], rfl, by simp, rfl, rfl, rfl, rfl, by simp, by simp⟩
  | row :: rows, s, s', left, h => by
    unfold serveRows at h
    by_cases ht : s.changes.length = target
    · rw [if_pos ht] at h
      cases h
      refine ⟨[], row :: rows, [], rfl, by simp, rfl, rfl, rfl, rfl, by simp, fun _ h0 hpos => ?_⟩
      simp [h0] at ht; omega
    rw [if_neg ht] at h
    cases hv : rowVisible visible row with
    | false =>
      simp only [hv, Bool.false_eq_true, if_false] at h
      obtain ⟨done, rest, new, rfl, hch, hen, hpos, hh, hfp, hrest, -⟩ := serveRows_spec h
      refine ⟨row :: done, rest, new, rfl, hch, ?_, ?_, hh, hfp, hrest, by simp⟩
      · simpa [List.filter_cons, hv] using hen
      · rw [hpos]; cases hd : done.getLast? <;> simp [List.getLast?_cons, hd]
    | true =>
      simp only [hv, if_true] at h
      obtain ⟨change, hc, h⟩ := except_bind_ok.1 h
      obtain ⟨size, -, h⟩ := except_bind_ok.1 h
      have hc := except_mapError_ok.1 hc
      split at h
      · next hcap =>
        cases h
        exact ⟨[], row :: rows, [], rfl, by simp, rfl, rfl, rfl, rfl, by simp,
          fun _ h0 _ => absurd h0 hcap.1⟩
      · obtain ⟨done, rest, new, rfl, hch, hen, hpos, hh, hfp, hrest, -⟩ := serveRows_spec h
        refine ⟨row :: done, rest, change :: new, rfl, by simpa using hch, ?_, ?_, hh, hfp,
          hrest, by simp⟩
        · unfold ChangesEnv.Entries at hen ⊢
          simp [hv, hc, hen]
        · rw [hpos]; cases hd : done.getLast? <;> simp [List.getLast?_cons, hd]

theorem due_wanted (f : FeedHistory) (q : FeedQuery) (lo hi : ℕ) :
    f.due (env.wanted q) lo hi = (f.due q.matches lo hi).filter env.visibleRow := by
  have h : f.log.filter (env.wanted q) = (f.log.filter q.matches).filter env.visibleRow := by
    rw [List.filter_filter]
    exact List.filter_congr fun r _ => Bool.and_comm _ _
  unfold FeedHistory.due
  rw [h, window_filter]

theorem page_lastScanned_bounds (s : FeedStore) (q : FeedQuery) (h : q.after ≤ s.head) :
    q.after ≤ (s.page env.sha256 q).lastScanned ∧ (s.page env.sha256 q).lastScanned ≤ s.head := by
  cases hr : (s.page env.sha256 q).reachedHead with
  | true => rw [s.page_lastScanned_of_reached env.sha256 q hr]; omega
  | false =>
    obtain ⟨last, hlast, hls⟩ := s.page_last_of_not_reached env.sha256 q hr
    have hmem := List.mem_of_getLast? hlast
    rw [s.page_rows] at hmem
    obtain ⟨hmem, hlt, -⟩ := mem_window.1 hmem
    have := s.seq_le_head (List.mem_of_mem_filter hmem)
    omega

/-- Between two states of a scan the position grows, up to the snapshot's head at most. -/
structure Anchored (env : ChangesEnv) (store : FeedStore) (s s' : Scan) : Prop where
  le : s.pos ≤ s'.pos
  le_head : s'.pos ≤ s'.head
  head : s'.head = store.head
  headFp : s'.headFp = (store.readHead env.sha256).headFp

/-- Every wanted row of the feed up to the new position was served. -/
structure Served (env : ChangesEnv) (q : FeedQuery) (f : FeedHistory) (s s' : Scan) : Prop
    extends Anchored env f.store s s' where
  entries : ∃ new, s'.changes = s.changes ++ new ∧ env.Entries (f.due (env.wanted q) s.pos s'.pos) new

/-! The position after the rows that were read, of rows that lie in `(pos, last]`. -/

variable {s s' : Scan} {target : ℕ} {base : FeedQuery} {checkExpiry finished : Bool}

section Position

variable {rows done rest : List FeedRow} {pos pos' last : ℕ} (hsplit : rows = done ++ rest)
  (hbound : ∀ r ∈ rows, pos < r.seq ∧ r.seq ≤ last)
  (hpos' : pos' = (done.getLast?.map (·.seq)).getD pos)

include hsplit hbound hpos'

theorem position_bounds (hlo : pos ≤ last) : pos ≤ pos' ∧ pos' ≤ last := by
  subst hpos'
  cases hl : done.getLast? with
  | none => exact ⟨le_rfl, hlo⟩
  | some r =>
    obtain ⟨hgt, hle⟩ := hbound r (by rw [hsplit]; simp [List.mem_of_getLast? hl])
    exact ⟨hgt.le, hle⟩

theorem position_window (hasc : Ascending FeedRow.seq rows) :
    window FeedRow.seq rows pos pos' = done ∧ (done ≠ [] → pos < pos') := by
  subst hpos'
  cases hl : done.getLast? with
  | none =>
    rw [List.getLast?_eq_none_iff.1 hl]
    exact ⟨window_self _ _, fun h => absurd rfl h⟩
  | some last =>
    have hlast := hbound last (by rw [hsplit]; simp [List.mem_of_getLast? hl])
    have hwin := window_prefix hasc hsplit (fun r hr => (hbound r hr).1) hl
    exact ⟨hwin, fun _ => hlast.1⟩

end Position

theorem scanPage_cases {page : FeedPage}
    (h : scanPage env target checkExpiry page s = .ok (s', finished)) :
    (checkExpiry = true → page.prunedThrough ≤ s.pos) ∧
      ∃ head headFp scanned s₁ left,
        (s.head ≤ page.head → head = page.head ∧ headFp = page.headFp) ∧
        serveRows env target (pageVisible env page.rows) page.rows { s with head, headFp, scanned } =
          .ok (s₁, left) ∧
        ((left = true ∧ s' = s₁ ∧ finished = true) ∨
          (left = false ∧ s' = { s₁ with pos := max s₁.pos page.lastScanned } ∧
            (page.reachedHead = true → finished = true))) := by
  unfold scanPage at h
  simp only at h
  split at h
  · cases h
  next hexp =>
  obtain ⟨⟨s₁, left⟩, hserve, h⟩ := except_bind_ok.1 h
  refine ⟨fun hc => not_lt.1 fun hlt => hexp ⟨hc, hlt⟩, _, _, _, s₁, left, fun hle => ?_, hserve, ?_⟩
  · simp [hle]
  · cases left with
    | true =>
      cases h
      exact .inl ⟨rfl, rfl, rfl⟩
    | false =>
      cases h
      exact .inr ⟨rfl, rfl, fun hr => by rw [hr, Bool.true_or]⟩

/-- One round adds the entries of the selected rows up to the new position. -/
structure Round (env : ChangesEnv) (q : FeedQuery) (store : FeedStore) (s s' : Scan) : Prop
    extends Anchored env store s s' where
  entries : ∃ new, s'.changes = s.changes ++ new ∧ env.Entries
    ((window FeedRow.seq (store.rows.filter q.matches) s.pos s'.pos).filter env.visibleRow) new

/-- **What one round does.**  A scan that has collected nothing moves on or has reached the head. -/
theorem scanPage_round {store : FeedStore}
    (h : scanPage env target checkExpiry (store.page env.sha256 { base with after := s.pos }) s =
      .ok (s', finished)) (hpos : s.pos ≤ store.head) (hhead : s.head ≤ store.head) :
    Round env base store s s' ∧ (checkExpiry = true → store.prunedThrough ≤ s.pos) ∧
      (s.changes = [] → 0 < target → s.pos < s'.pos ∨ (s'.pos = s'.head ∧ finished = true)) := by
  set q : FeedQuery := { base with after := s.pos } with hq
  set page := store.page env.sha256 q with hpage
  have hph : page.head = store.head := store.readHead_head env.sha256
  obtain ⟨hexp, head, headFp, scanned, s₁, left, hnew, hserve, hleft⟩ := scanPage_cases h
  obtain ⟨rfl, rfl⟩ := hnew (hph ▸ hhead)
  have hrows : page.rows = window FeedRow.seq (store.rows.filter base.matches) s.pos
      page.lastScanned := store.page_rows env.sha256 q
  obtain ⟨hlo, hhi⟩ : s.pos ≤ page.lastScanned ∧ page.lastScanned ≤ store.head :=
    page_lastScanned_bounds store q hpos
  obtain ⟨done, rest, new, hsplit, hch, hen, hp, hh, hfp, hrest, hprog⟩ := serveRows_spec hserve
  have hvis : done.filter (rowVisible (pageVisible env page.rows)) = done.filter env.visibleRow :=
    List.filter_congr fun r hr => rowVisible_page (by rw [hsplit]; simp [hr])
  rw [hvis] at hen
  have hbound : ∀ r ∈ page.rows, s.pos < r.seq ∧ r.seq ≤ page.lastScanned := fun r hr => by
    rw [hrows] at hr; exact (mem_window.1 hr).2
  have hasc : Ascending FeedRow.seq page.rows := by
    rw [hrows]; exact (store.ascending.filter _).filter _
  -- the position after the rows, and the part of the table up to it
  obtain ⟨hle, hle'⟩ : s.pos ≤ s₁.pos ∧ s₁.pos ≤ page.lastScanned :=
    position_bounds hsplit hbound hp hlo
  obtain ⟨hwin, hlt⟩ := position_window hsplit hbound hp hasc
  rw [hrows, window_window hle'] at hwin
  have hhead₁ : s₁.head = store.head := hh.trans hph
  rcases hleft with ⟨rfl, rfl, -⟩ | ⟨rfl, rfl, hfin⟩
  · refine ⟨⟨⟨hle, hhead₁ ▸ hle'.trans hhi, hhead₁, hfp⟩, new, hch, hwin ▸ hen⟩, hexp,
      fun h0 ht => .inl (hlt ?_)⟩
    exact hprog (by rw [hsplit]; simp [show rest ≠ [] from fun hr => by simp [hr] at hrest]) h0 ht
  · obtain rfl := hrest.1 rfl
    rw [List.append_nil] at hsplit
    rw [max_eq_right hle']
    refine ⟨⟨⟨hlo, hhead₁ ▸ hhi, hhead₁, hfp⟩, new, hch, hrows ▸ hsplit ▸ hen⟩, hexp, fun h0 ht => ?_⟩
    by_cases hnil : page.rows = []
    · right
      have hreached : page.reachedHead = true := by
        have : page.rows.length < q.limit := by rw [hnil]; exact q.limit_pos
        simpa [hpage, FeedStore.page, FeedPage.fromScan] using this
      have hls := store.page_lastScanned_of_reached env.sha256 q hreached
      exact ⟨(hls.trans (max_eq_left hpos)).trans hhead₁.symm, hfin hreached⟩
    · exact .inl ((hlt (hprog hnil h0 ht)).trans_le hle')

/-- **One round keeps the position invariant.** -/
theorem scanPage_serves {f : FeedHistory}
    (h : scanPage env target true (f.store.page env.sha256 { base with after := s.pos }) s =
      .ok (s', finished)) (hpos : s.pos ≤ f.store.head) (hhead : s.head ≤ f.store.head) :
    Served env base f s s' := by
  obtain ⟨hround, hexp, -⟩ := scanPage_round h hpos hhead
  obtain ⟨new, hch, hen⟩ := hround.entries
  refine ⟨hround.toAnchored, new, hch, ?_⟩
  rw [due_wanted, ← f.window_stored base.matches (hexp rfl)]
  exact hen

theorem refill_cases {n : ℕ} {reads : ℕ → FeedStore}
    (h : refill env base target checkExpiry (n + 1) reads s = .ok s') :
    ∃ s₁ finished, scanPage env target checkExpiry
        ((reads 0).page env.sha256 { base with after := s.pos }) s = .ok (s₁, finished) ∧
      (s' = s₁ ∨ (finished = false ∧
        refill env base target checkExpiry n (fun k => reads (k + 1)) s₁ = .ok s')) := by
  simp only [refill] at h
  obtain ⟨⟨s₁, finished⟩, hs, h⟩ := except_bind_ok.1 h
  refine ⟨s₁, finished, hs, ?_⟩
  cases finished with
  | true =>
    cases h
    exact .inl rfl
  | false => exact .inr ⟨rfl, h⟩

theorem Anchored.trans {store store' : FeedStore} {s₁ : Scan} (h : Anchored env store s s₁)
    (h' : Anchored env store' s₁ s') : Anchored env store' s s' :=
  ⟨h.le.trans h'.le, h'.le_head, h'.head, h'.headFp⟩

theorem Served.trans {q : FeedQuery} {f f' : FeedHistory} {s₁ : Scan} (h : Served env q f s s₁)
    (hf : f.Extends f') (h' : Served env q f' s₁ s') : Served env q f' s s' := by
  obtain ⟨new, hch, hen⟩ := h.entries
  obtain ⟨new', hch', hen'⟩ := h'.entries
  refine ⟨h.toAnchored.trans h'.toAnchored, new ++ new', ?_, ?_⟩
  · rw [hch', hch, List.append_assoc]
  · rw [← f'.due_split _ h.le h'.le, hf.due_eq _ (h.head ▸ h.le_head)]
    exact hen.append hen'

section Refill

variable {H : ℕ → FeedHistory} {P : ℕ → Scan → Scan → Prop} {n : ℕ}
  (hH : ∀ i j, i ≤ j → (H i).Extends (H j))

include hH

/-- Induction along the refill loop, on the snapshots of a feed that only grows: the last round, and
    a round before others. -/
theorem refill_induct (last : ∀ k s s' finished, scanPage env target checkExpiry
        ((H k).store.page env.sha256 { base with after := s.pos }) s = .ok (s', finished) →
      s.pos ≤ s.head → s.head ≤ (H k).store.head → P k s s')
    (more : ∀ j k s s₁ s', j ≤ k → scanPage env target checkExpiry
        ((H j).store.page env.sha256 { base with after := s.pos }) s = .ok (s₁, false) →
      s.pos ≤ s.head → s.head ≤ (H j).store.head → P k s₁ s' → P k s s')
    (h : refill env base target checkExpiry (n + 1) (fun k => (H k).store) s = .ok s')
    (hpos : s.pos ≤ s.head) (hhead : s.head ≤ (H 0).store.head) : ∃ k ≤ n, P k s s' := by
  induction n generalizing H P s with
  | zero =>
    obtain ⟨s₁, finished, hround, hnext⟩ := refill_cases h
    obtain rfl : s' = s₁ := hnext.elim id fun h => by simpa [refill] using h.2.symm
    exact ⟨0, le_rfl, last 0 s s' finished hround hpos hhead⟩
  | succ n ih =>
    obtain ⟨s₁, finished, hround, hnext⟩ := refill_cases h
    rcases hnext with rfl | ⟨rfl, hnext⟩
    · exact ⟨0, Nat.zero_le _, last 0 s s' finished hround hpos hhead⟩
    · have hmoved := (scanPage_round hround (hpos.trans hhead) hhead).1
      obtain ⟨k, hk, hrest⟩ := ih (H := fun k => H (k + 1)) (P := fun k => P (k + 1))
        (fun i j hij => hH _ _ (Nat.succ_le_succ hij)) (fun k => last (k + 1))
        (fun j k s s₁ s' hjk => more (j + 1) (k + 1) s s₁ s' (Nat.succ_le_succ hjk)) hnext
        hmoved.le_head (hmoved.head ▸ (hH 0 1 (Nat.zero_le _)).1)
      exact ⟨k + 1, Nat.succ_le_succ hk, more 0 (k + 1) s s₁ s' (Nat.zero_le _) hround hpos hhead hrest⟩

/-- **The whole refill loop keeps it.** -/
theorem refill_serves (h : refill env base target true (n + 1) (fun k => (H k).store) s = .ok s')
    (hpos : s.pos ≤ s.head) (hhead : s.head ≤ (H 0).store.head) :
    ∃ k ≤ n, Served env base (H k) s s' ∧
      (s.changes = [] → 0 < target → s.pos < s'.pos ∨ s'.pos = s'.head) := by
  refine refill_induct (P := fun k s s' => Served env base (H k) s s' ∧ (s.changes = [] →
      0 < target → s.pos < s'.pos ∨ s'.pos = s'.head)) hH ?_ ?_ h hpos hhead
  · intro k s s' finished hround hpos hhead
    have hprog := (scanPage_round hround (hpos.trans hhead) hhead).2.2
    exact ⟨scanPage_serves hround (hpos.trans hhead) hhead,
      fun h0 ht => (hprog h0 ht).imp_right And.left⟩
  · rintro j k s s₁ s' hjk hround hpos hhead ⟨hrest, -⟩
    have hprog := (scanPage_round hround (hpos.trans hhead) hhead).2.2
    have hserved := scanPage_serves hround (hpos.trans hhead) hhead
    refine ⟨hserved.trans (hH j k hjk) hrest, fun h0 ht => .inl ?_⟩
    have hlt := (hprog h0 ht).resolve_right fun h => Bool.false_ne_true h.2
    exact hlt.trans_le hrest.le

end Refill

/-! ## One request -/

variable {req : ChangesRequest}

def Since.position? : Since → Option ℕ
  | .cursor c => some c.pos
  | .position p => some p
  | .oldest | .head => none

def ChangesEnv.owed (env : ChangesEnv) (filter : WatchFilter) (row : FeedRow) : Bool :=
  match filterQuery env filter with
  | .ok q => env.wanted q row
  | .error _ => false

theorem baseQuery_wanted {pos : ℕ} {q : FeedQuery} (h : baseQuery env req pos = .ok q) :
    env.wanted q = env.owed req.filter := by
  unfold baseQuery at h
  funext row
  obtain ⟨q₀, hf, h⟩ := except_bind_ok.1 h
  cases h
  simp only [ChangesEnv.owed, hf]
  rfl

theorem startPosition_ok {sha256 : Sha256} {start : FeedHead} {anchorRead : FeedStore} {since : Since} {p pos : ℕ}
    (hp : since.position? = some p)
    (h : startPosition sha256 start anchorRead since = .ok pos) :
    pos = p ∧ p ≤ start.head ∧ start.prunedThrough ≤ p := by
  cases since with
  | oldest | head => cases hp
  | position p' =>
    cases hp
    simp only [startPosition] at h
    split at h
    · cases h
    · cases h
      omega
  | cursor c =>
    cases hp
    simp only [startPosition] at h
    split at h
    · cases h
    · split at h
      · cases h
        omega
      · cases h

/-- `s` is where the refill loop of a request ended. -/
def Scan.EndOf (env : ChangesEnv) (reads : ℕ → FeedStore) (req : ChangesRequest) (s : Scan) : Prop :=
  ∃ pos base body,
    startPosition env.sha256 ((reads 0).readHead env.sha256) (reads 1) req.since = .ok pos ∧
    baseQuery env req pos = .ok base ∧
    env.responseLen { changes := [], nextCursor := headCursor ((reads 0).readHead env.sha256),
                      hasMore := false } = .ok body ∧
    refill env base req.limit req.since.checkExpiry refillMaxScans (fun k => reads (k + 2))
      { pos, body, head := ((reads 0).readHead env.sha256).head,
        headFp := ((reads 0).readHead env.sha256).headFp } = .ok s

theorem evaluateChanges_cases {reads : ℕ → FeedStore} {resp : ChangesResponse} {scanned : ℕ}
    (hs : req.since ≠ .head) (h : evaluateChanges env reads req = .ok (resp, scanned)) :
    ∃ s : Scan, s.EndOf env reads req ∧ resp = s.response := by
  simp only [evaluateChanges, hs, if_false] at h
  obtain ⟨pos, hpos, h⟩ := except_bind_ok.1 h
  obtain ⟨base, hbase, h⟩ := except_bind_ok.1 h
  obtain ⟨body, hbody, h⟩ := except_bind_ok.1 h
  obtain ⟨s, hrefill, h⟩ := except_bind_ok.1 h
  split at h
  · cases h
  · cases h
    exact ⟨s, ⟨pos, base, body, hpos, hbase, hbody, hrefill⟩, rfl⟩

/-- **One answered request** serves every owed row from its start to its next cursor, and reports no
    more exactly at the head of its last snapshot. -/
theorem evaluateChanges_serves {H : ℕ → FeedHistory} (hH : ∀ i j, i ≤ j → (H i).Extends (H j))
    {resp : ChangesResponse} {scanned p : ℕ} (hp : req.since.position? = some p)
    (h : evaluateChanges env (fun k => (H k).store) req = .ok (resp, scanned)) :
    ∃ k ≤ 7, p ≤ resp.nextCursor.pos ∧ resp.nextCursor.pos ≤ (H k).store.head ∧
      resp.nextCursor.anchor =
        anchorAt (H k).store.head ((H k).store.readHead env.sha256).headFp ∧
      resp.hasMore = decide (resp.nextCursor.pos < (H k).store.head) ∧
      env.Entries ((H k).due (env.owed req.filter) p resp.nextCursor.pos) resp.changes ∧
      (0 < req.limit → p < resp.nextCursor.pos ∨ resp.hasMore = false) := by
  have hs : req.since ≠ .head := by rintro hs; simp [hs, Since.position?] at hp
  have hexp : req.since.checkExpiry = true := by
    cases hs' : req.since <;> simp_all [Since.position?, Since.checkExpiry]
  obtain ⟨s, ⟨pos, base, body, hstart, hbase, -, hrefill⟩, rfl⟩ := evaluateChanges_cases hs h
  obtain ⟨rfl, hle, -⟩ := startPosition_ok hp hstart
  rw [hexp] at hrefill
  have hgrow : ((H 0).store.readHead env.sha256).head ≤ (H 2).store.head := by
    rw [FeedStore.readHead_head]; exact (hH 0 2 (by omega)).1
  obtain ⟨k, hk, hserved, hprog⟩ := refill_serves (H := fun k => H (k + 2))
    (fun i j hij => hH _ _ (by omega)) hrefill hle hgrow
  obtain ⟨new, hch, hen⟩ := hserved.entries
  have hhead := hserved.head
  have hfp := hserved.headFp
  rw [baseQuery_wanted hbase] at hen
  refine ⟨k + 2, by omega, hserved.le, ?_, ?_, ?_, ?_, fun ht => ?_⟩
  · simp only [Scan.response, ← hhead]; exact hserved.le_head
  · simp only [Scan.response, ← hhead, ← hfp]
  · simp only [Scan.response, ← hhead]
  · simp only [Scan.response, hch, List.nil_append]; exact hen
  · refine (hprog rfl ht).imp_right fun heq => ?_
    simp [Scan.response, heq]

/-! ## A consumer that follows `next_cursor` -/

/-- One request of a consumer: its limit, and the moment of each of its store reads. -/
structure Poll where
  limit : ℕ
  reads : ℕ → ℕ

/-- An answer: the request, the position it started from and the response. -/
structure Answer where
  poll : Poll
  start : Since
  resp : ChangesResponse

/-- A consumer: where its next request starts, what it was answered, and whether it was told
    `cursor_expired`. -/
structure Consumer where
  since : Since
  answers : List Answer := []
  expired : Bool := false

namespace Consumer

def received (c : Consumer) : List Change := c.answers.flatMap (·.resp.changes)

/-- The next request.  An expired consumer has stopped; any other error leaves it where it was. -/
def poll (env : ChangesEnv) (filter : WatchFilter) (store : ℕ → FeedStore) (c : Consumer) (p : Poll) :
    Consumer :=
  if c.expired then c
  else
    match evaluateChanges env (fun k => store (p.reads k)) ⟨c.since, p.limit, filter⟩ with
    | .ok (resp, _) =>
      { c with since := .cursor resp.nextCursor, answers := c.answers ++ [⟨p, c.since, resp⟩] }
    | .error (.acdp .cursorExpired) => { c with expired := true }
    | .error _ => c

def run (env : ChangesEnv) (filter : WatchFilter) (store : ℕ → FeedStore) (c : Consumer)
    (polls : List Poll) : Consumer :=
  polls.foldl (poll env filter store) c

theorem poll_cases (filter : WatchFilter) (store : ℕ → FeedStore) (c : Consumer) (p : Poll) :
    (∃ resp scanned, evaluateChanges env (fun k => store (p.reads k)) ⟨c.since, p.limit, filter⟩ =
        .ok (resp, scanned) ∧
      (c.poll env filter store p).since = .cursor resp.nextCursor ∧
      (c.poll env filter store p).answers = c.answers ++ [⟨p, c.since, resp⟩]) ∨
    ((c.poll env filter store p).since = c.since ∧
      (c.poll env filter store p).answers = c.answers) := by
  unfold poll
  split
  · exact Or.inr ⟨rfl, rfl⟩
  · split
    · next resp scanned h => exact Or.inl ⟨resp, scanned, h, rfl, rfl⟩
    · exact Or.inr ⟨rfl, rfl⟩
    · exact Or.inr ⟨rfl, rfl⟩

end Consumer

/-- `has_more` is false only at the head of a snapshot the request read, where its cursor is anchored;
    otherwise the position has moved. -/
def Answer.Sound (env : ChangesEnv) (H : ℕ → FeedHistory) (a : Answer) : Prop :=
  (a.resp.hasMore = false → ∃ k ≤ 7,
    a.resp.nextCursor.pos = (H (a.poll.reads k)).store.head ∧
    a.resp.nextCursor.anchor = anchorAt (H (a.poll.reads k)).store.head
      ((H (a.poll.reads k)).store.readHead env.sha256).headFp) ∧
  (a.resp.hasMore = true → 0 < a.poll.limit → ∃ p, a.start.position? = some p ∧
    p < a.resp.nextCursor.pos)

/-- The consumer's invariant at a moment: it has every owed row from `start` to its position. -/
structure Consumer.UpTo (env : ChangesEnv) (filter : WatchFilter) (H : ℕ → FeedHistory) (start t : ℕ)
    (c : Consumer) (pos : ℕ) : Prop where
  position : c.since.position? = some pos
  le : start ≤ pos
  known : pos ≤ (H t).store.head ∨ pos = start
  entries : env.Entries ((H t).due (env.owed filter) start pos) c.received
  sound : ∀ a ∈ c.answers, a.Sound env H

section

variable {filter : WatchFilter} {H : ℕ → FeedHistory} {start : ℕ} (hH : ∀ i j, i ≤ j → (H i).Extends (H j))

include hH

theorem Consumer.UpTo.later {t t' : ℕ} {c : Consumer} {pos : ℕ} (h : c.UpTo env filter H start t pos)
    (ht : t ≤ t') :
    c.UpTo env filter H start t' pos := by
  refine ⟨h.position, h.le, h.known.imp_left fun hk => hk.trans (hH t t' ht).1, ?_, h.sound⟩
  rcases h.known with hk | rfl
  · rw [(hH t t' ht).due_eq _ hk]; exact h.entries
  · have := h.entries
    simp only [FeedHistory.due, window_self] at this ⊢
    exact this

/-- **One request keeps the consumer's invariant.** -/
theorem Consumer.UpTo.poll {t : ℕ} {c : Consumer} {pos : ℕ} (h : c.UpTo env filter H start t pos)
    {p : Poll} (hp : Monotone p.reads) (ht : t ≤ p.reads 0) :
    ∃ pos', (c.poll env filter (fun t => (H t).store) p).UpTo env filter H start (p.reads 7) pos' := by
  have h7 := h.later hH (ht.trans (hp (Nat.zero_le 7)))
  rcases c.poll_cases filter (fun t => (H t).store) p with
    ⟨resp, scanned, heval, hsince, hans⟩ | ⟨hsince, hans⟩
  · obtain ⟨k, hk, hle, hhead, hanchor, hmore, hen, hprog⟩ := evaluateChanges_serves
      (H := fun k => H (p.reads k)) (fun i j hij => hH _ _ (hp hij)) h.position heval
    have hext := hH _ _ (hp hk)
    refine ⟨resp.nextCursor.pos, by rw [hsince]; rfl, h.le.trans hle, Or.inl (hhead.trans hext.1),
      ?_, ?_⟩
    · rw [← (H (p.reads 7)).due_split _ h.le hle, hext.due_eq _ hhead]
      have : (c.poll env filter (fun t => (H t).store) p).received = c.received ++ resp.changes := by
        simp [Consumer.received, hans]
      rw [this]
      exact h7.entries.append hen
    · rw [hans]
      intro a ha
      rcases List.mem_append.1 ha with ha | ha
      · exact h.sound a ha
      · simp only [List.mem_singleton] at ha
        subst ha
        refine ⟨fun hf => ⟨k, hk, ?_, hanchor⟩, fun hm hl => ⟨pos, h.position, ?_⟩⟩
        · simp only [hmore, decide_eq_false_iff_not] at hf
          exact le_antisymm hhead (not_lt.1 hf)
        · exact (hprog hl).resolve_right fun hf =>
            Bool.false_ne_true (hf.symm.trans hm)
  · refine ⟨pos, by rw [hsince]; exact h7.position, h7.le, h7.known, ?_, by rw [hans]; exact h7.sound⟩
    unfold Consumer.received; rw [hans]; exact h7.entries

/-- **A whole run of requests keeps it.** -/
theorem Consumer.UpTo.run {polls : List Poll} {t : ℕ} {c : Consumer} {pos : ℕ}
    (h : c.UpTo env filter H start t pos) (hp : ∀ p ∈ polls, Monotone p.reads ∧ t ≤ p.reads 0)
    (hord : polls.Pairwise fun p p' => p.reads 7 ≤ p'.reads 0) :
    ∃ t' pos', (∀ u, t ≤ u → (∀ p ∈ polls, p.reads 7 ≤ u) → t' ≤ u) ∧
      (c.run env filter (fun t => (H t).store) polls).UpTo env filter H start t' pos' := by
  induction polls generalizing t c pos with
  | nil => exact ⟨t, pos, fun u hu _ => hu, h⟩
  | cons p polls ih =>
    obtain ⟨hfirst, hord⟩ := List.pairwise_cons.1 hord
    obtain ⟨hmono, ht⟩ := hp p (by simp)
    obtain ⟨pos₁, h₁⟩ := h.poll hH hmono ht
    obtain ⟨t', pos', hlast, h'⟩ := ih h₁ (fun p' hp' => ⟨(hp p' (by simp [hp'])).1, hfirst p' hp'⟩) hord
    refine ⟨t', pos', fun u _ hu => hlast u (hu p (by simp)) fun p' hp' => hu p' (by simp [hp']), h'⟩

end

/-- **No skip and no duplicate.**  A consumer that follows `next_cursor` has received, at every moment after
    its requests, exactly the entries of the owed rows between its start and its position, each once and in
    `seq` order; `has_more` was false only at the head a response was built on. -/
theorem changes_served_exactly_once (T : Trace (FeedHistory.Step env.sha256)) (filter : WatchFilter)
    (since : Since) (start : ℕ) (hstart : since.position? = some start) (polls : List Poll)
    (hmono : ∀ p ∈ polls, Monotone p.reads)
    (hord : polls.Pairwise fun p p' => p.reads 7 ≤ p'.reads 0) (t : ℕ)
    (ht : ∀ p ∈ polls, p.reads 7 ≤ t) :
    let c := Consumer.run env filter (fun t => (T.state t).store) { since } polls
    ∃ pos, c.since.position? = some pos ∧ start ≤ pos ∧
      env.Entries ((T.state t).due (env.owed filter) start pos) c.received ∧
      Ascending FeedRow.seq ((T.state t).due (env.owed filter) start pos) ∧
      ∀ a ∈ c.answers, a.Sound env T.state := by
  have hH : ∀ i j, i ≤ j → (T.state i).Extends (T.state j) :=
    fun i j hij => FeedHistory.trace_extends T hij
  have h0 : Consumer.UpTo env filter T.state start 0 { since } start :=
    ⟨hstart, le_rfl, Or.inr rfl, by simp [FeedHistory.due, window_self, Consumer.received,
      ChangesEnv.Entries], by simp⟩
  obtain ⟨t', pos, hlast, h⟩ := h0.run hH (fun p hp => ⟨hmono p hp, Nat.zero_le _⟩) hord
  have hlater := h.later hH (hlast t (Nat.zero_le _) ht)
  exact ⟨pos, hlater.position, hlater.le, hlater.entries, FeedHistory.due_ascending _ _ _ _,
    hlater.sound⟩

def sampleEnv : ChangesEnv where
  api :=
    { parseAgentDid := .ok
      parseCtxId := .ok
      parseLineageId := .ok
      lifecycleEvent := .ok
      eventReceipt := .ok
      registryReceipt := .ok
      lifecycle := fun seq l a e r => .ok ⟨seq, .lifecycle, "", l, a, none, some e, r⟩
      superseded := fun seq c a r => .ok ⟨seq, .superseded, c, "", a, none, none, r⟩
      keyRevocation := fun seq a r => .ok ⟨seq, .keyRevocation, "", "", a, none, none, r⟩
      validateBucket := fun _ _ => .ok ()
      display := fun _ => "" }
  sha256 := id
  changesMinScanRows := 1
  changesMaxPageBytes := 100
  visible := fun _ => true
  producerOf := fun _ => none
  changeLen := fun _ => .ok 10
  responseLen := fun _ => .ok 20
  validate := fun _ => .ok ()

def sampleFeed : FeedHistory :=
  let row : FeedAppend := ⟨.superseded, "c1", "l1", "a1", some "c2", none, .null, "", ""⟩
  (FeedHistory.empty.append 0 row 5).append 1 row 6

theorem changes_served_exactly_once_sample :
    let c := Consumer.run sampleEnv {} (fun _ => sampleFeed.store) { since := .position 0 }
      [⟨1, fun _ => 0⟩, ⟨1, fun _ => 0⟩]
    c.received.map (·.seq) = [1, 3] ∧
    ∃ pos, c.since.position? = some pos ∧ 0 ≤ pos ∧
      sampleEnv.Entries (sampleFeed.due (sampleEnv.owed {}) 0 pos) c.received ∧
      Ascending FeedRow.seq (sampleFeed.due (sampleEnv.owed {}) 0 pos) ∧
      ∀ a ∈ c.answers, a.Sound sampleEnv fun _ => sampleFeed :=
  ⟨by decide, changes_served_exactly_once ⟨fun _ => sampleFeed, fun _ => .refl⟩ {} (.position 0) 0 rfl
    [⟨1, fun _ => 0⟩, ⟨1, fun _ => 0⟩] (by simp [monotone_const]) (by simp) 0 (by simp)⟩

end AcdpRegistry
