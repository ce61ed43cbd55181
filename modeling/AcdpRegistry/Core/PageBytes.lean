/-
  The size of a `GET /changes` page.

  The refill loop keeps a running size: the serialized envelope, then for each entry
  its own length and a comma before all but the first.  `Sized` is the invariant that
  this is the length of what will be written, whatever the feed does between two
  scans.  When the cap stops the loop, the entry it stopped at is the next one of the
  feed past the position (`Omitted`), so the next page begins with it.
-/
import AcdpRegistry.Core.ChangesServe

namespace AcdpRegistry

open Lib

/-! ## Writing a response -/

structure ChangesWire where
  change : Change → Except RegistryError (List UInt8)
  cursor : DecodedCursor → List UInt8

def commaJoined : List (List UInt8) → List UInt8
  | [] => []
  | [text] => text
  | text :: texts => text ++ utf8 "," ++ commaJoined texts

def ChangesWire.response (w : ChangesWire) (texts : List (List UInt8)) (r : ChangesResponse) :
    List UInt8 :=
  utf8 "\x7b\"changes\":[" ++ commaJoined texts ++ utf8 "],\"next_cursor\":\"" ++ w.cursor r.nextCursor ++
    utf8 "\",\"has_more\":" ++ utf8 (if r.hasMore then "true" else "false") ++ utf8 "\x7d"

/-- `json_len` counts the bytes that are written, and all cursors have one length. -/
structure ChangesEnv.Writes (env : ChangesEnv) (w : ChangesWire) : Prop where
  changeLen : ∀ c, env.changeLen c = (w.change c).map List.length
  responseLen : ∀ r, env.responseLen r =
    (r.changes.mapM w.change).map fun texts => (w.response texts r).length
  cursor : ∀ c c', (w.cursor c).length = (w.cursor c').length

theorem commaJoined_append (texts : List (List UInt8)) (text : List UInt8) :
    (commaJoined (texts ++ [text])).length =
      (commaJoined texts).length + (text.length + if texts.isEmpty then 0 else 1) := by
  induction texts with
  | nil => simp [commaJoined]
  | cons t texts ih =>
    cases texts with
    | nil =>
      have hcomma : (utf8 ",").length = 1 := rfl
      simp only [List.singleton_append, commaJoined, List.length_append, hcomma,
        List.isEmpty_cons, Bool.false_eq_true, if_false]
      omega
    | cons t' texts =>
      simp only [List.cons_append, commaJoined, List.length_append] at ih ⊢
      rw [ih]
      simp only [List.isEmpty_cons, Bool.false_eq_true, if_false]
      omega

variable {env : ChangesEnv} {w : ChangesWire}

/-- The written length, up to the one byte that `true` is shorter than `false`. -/
theorem ChangesEnv.Writes.response_length (h : env.Writes w) {r : ChangesResponse}
    {texts : List (List UInt8)} (htexts : r.changes.mapM w.change = .ok texts) {cursor : DecodedCursor}
    {envelope : ℕ}
    (henvelope : env.responseLen { changes := [], nextCursor := cursor, hasMore := false } = .ok envelope) :
    ∃ len, env.responseLen r = .ok len ∧
      len + (if r.hasMore then 1 else 0) = envelope + (commaJoined texts).length := by
  have htrue : (utf8 "true").length = 4 := rfl
  have hfalse : (utf8 "false").length = 5 := rfl
  rw [h.responseLen, List.mapM_nil] at henvelope
  refine ⟨_, by rw [h.responseLen, htexts]; rfl, ?_⟩
  cases henvelope
  simp only [ChangesWire.response, List.length_append, h.cursor r.nextCursor cursor, commaJoined,
    List.length_nil]
  cases r.hasMore
  · simp only [Bool.false_eq_true, if_false]
    omega
  · simp only [Bool.false_eq_true, if_false, if_true, htrue, hfalse]
    omega

/-! ## The running size -/

variable {checkExpiry finished : Bool} {reads : ℕ → FeedStore} {base : FeedQuery} {pos target : ℕ}
  {s s' : Scan}

/-- The running size is that of the entries collected so far, and more than one of them fit. -/
structure Scan.Sized (env : ChangesEnv) (w : ChangesWire) (envelope : ℕ) (s : Scan) : Prop where
  size : ∃ texts, s.changes.mapM w.change = .ok texts ∧ s.body = envelope + (commaJoined texts).length
  fits : 1 < s.changes.length → s.body ≤ env.changesMaxPageBytes
  capped : s.capped = true → s.changes ≠ []

variable {envelope : ℕ}

theorem Scan.Sized.moved (h : s.Sized env w envelope) (hbody : s'.body = s.body)
    (hchanges : s'.changes = s.changes)
    (hcapped : s'.capped = true → s.capped = true ∨ s.changes ≠ []) : s'.Sized env w envelope := by
  refine ⟨by rw [hbody, hchanges]; exact h.size, by rw [hbody, hchanges]; exact h.fits, fun hc => ?_⟩
  rw [hchanges]
  exact (hcapped hc).elim h.capped id

/-- **One more entry.** -/
theorem Scan.Sized.push (hw : env.Writes w) (h : s.Sized env w envelope) {c : Change} {size : ℕ}
    (hsize : env.changeLen c = .ok size)
    (hcap : ¬(s.changes ≠ [] ∧ s.body + 1 + size > env.changesMaxPageBytes)) :
    Scan.Sized env w envelope
      { s with body := s.body + (size + if s.changes.isEmpty then 0 else 1)
               changes := s.changes ++ [c]
               pos } := by
  obtain ⟨texts, htexts, hbody⟩ := h.size
  rw [hw.changeLen] at hsize
  obtain ⟨text, htext, rfl⟩ := except_map_ok.1 hsize
  have hempty : s.changes.isEmpty = texts.isEmpty := by
    have := (except_mapM_ok.1 htexts).length_eq
    cases hs : s.changes <;> cases ht : texts <;> simp_all
  refine ⟨⟨texts ++ [text], ?_, ?_⟩, fun hlen => ?_, fun _ => by simp⟩
  · refine except_mapM_ok.2 (List.rel_append (except_mapM_ok.1 htexts) ?_)
    exact .cons htext .nil
  · rw [commaJoined_append, hempty, hbody, Nat.add_assoc]
  · have hne : s.changes ≠ [] := by
      rintro hnil
      simp [hnil] at hlen
    simp only [List.isEmpty_iff, hne, if_false]
    have := not_and.1 hcap hne
    omega

/-- **The rows of a page.** -/
theorem serveRows_sized (hw : env.Writes w) {target : ℕ} {visible : List String} :
    ∀ {rows : List FeedRow} {s s' : Scan} {left : Bool},
      serveRows env target visible rows s = .ok (s', left) → s.Sized env w envelope →
      s'.Sized env w envelope
  | [], s, s', left, h, hs => by
    cases h
    exact hs
  | row :: rows, s, s', left, h, hs => by
    unfold serveRows at h
    split at h
    · cases h
      exact hs
    · split at h
      · obtain ⟨change, -, h⟩ := except_bind_ok.1 h
        obtain ⟨size, hsize, h⟩ := except_bind_ok.1 h
        split at h
        · next hcap =>
          cases h
          exact hs.moved rfl rfl fun _ => .inr hcap.1
        · next hcap => exact serveRows_sized hw h (hs.push hw hsize hcap)
      · exact serveRows_sized hw h (hs.moved rfl rfl .inl)

theorem scanPage_sized (hw : env.Writes w) {page : FeedPage}
    (h : scanPage env target checkExpiry page s = .ok (s', finished))
    (hs : s.Sized env w envelope) : s'.Sized env w envelope := by
  obtain ⟨-, head, headFp, scanned, s₁, left, -, hserve, hleft⟩ := scanPage_cases h
  have hs₁ := serveRows_sized hw hserve (hs.moved rfl rfl .inl)
  rcases hleft with ⟨-, rfl, -⟩ | ⟨-, rfl, -⟩
  · exact hs₁
  · exact hs₁.moved rfl rfl .inl

theorem refill_sized (hw : env.Writes w) {n : ℕ}
    (h : refill env base target checkExpiry n reads s = .ok s') (hs : s.Sized env w envelope) :
    s'.Sized env w envelope := by
  induction n generalizing reads s with
  | zero =>
    cases h
    exact hs
  | succ n ih =>
    obtain ⟨s₁, finished, hround, hnext⟩ := refill_cases h
    have hs₁ := scanPage_sized hw hround hs
    rcases hnext with rfl | ⟨-, hnext⟩
    · exact hs₁
    · exact ih hnext hs₁

/-! ## Where the cap stops -/

variable {row : FeedRow} {store : FeedStore}

/-- `row` is the next row past the position that the query selects, and it is visible. -/
structure Omitted (env : ChangesEnv) (q : FeedQuery) (store : FeedStore) (pos : ℕ) (row : FeedRow) :
    Prop where
  mem : row ∈ store.rows
  wanted : env.wanted q row = true
  past : pos < row.seq
  first : ∀ r ∈ store.rows, q.matches r = true → pos < r.seq → row.seq ≤ r.seq

theorem serveRows_capped {target : ℕ} {visible : List String} :
    ∀ {rows : List FeedRow} {s s' : Scan} {left : Bool},
      serveRows env target visible rows s = .ok (s', left) → s.capped = false → s'.capped = true →
      left = true ∧ ∃ done row rest, rows = done ++ row :: rest ∧ rowVisible visible row = true ∧
        s'.pos = (done.getLast?.map (·.seq)).getD s.pos
  | [], s, s', left, h, h0, hc => by
    cases h
    rw [h0] at hc
    cases hc
  | row :: rows, s, s', left, h, h0, hc => by
    have hskip : ∀ {s₁ : Scan}, s₁.pos = row.seq → (left = true ∧ ∃ done next rest,
        rows = done ++ next :: rest ∧ rowVisible visible next = true ∧
          s'.pos = (done.getLast?.map (·.seq)).getD s₁.pos) →
        left = true ∧ ∃ done next rest, row :: rows = done ++ next :: rest ∧
          rowVisible visible next = true ∧ s'.pos = (done.getLast?.map (·.seq)).getD s.pos := by
      rintro s₁ hpos ⟨hleft, done, next, rest, rfl, hvis, hlast⟩
      refine ⟨hleft, row :: done, next, rest, rfl, hvis, ?_⟩
      rw [hlast, hpos]
      cases hd : done.getLast? <;> simp [List.getLast?_cons, hd]
    unfold serveRows at h
    split at h
    · cases h
      rw [h0] at hc
      cases hc
    · split at h
      · next hvis =>
        obtain ⟨change, -, h⟩ := except_bind_ok.1 h
        obtain ⟨size, -, h⟩ := except_bind_ok.1 h
        split at h
        · cases h
          exact ⟨rfl, [], row, rows, rfl, hvis, rfl⟩
        · exact hskip rfl (serveRows_capped h h0 hc)
      · exact hskip rfl (serveRows_capped h h0 hc)

theorem next_past {done rest : List FeedRow} {lo : ℕ}
    (hasc : Ascending FeedRow.seq (done ++ row :: rest)) (hlo : lo < row.seq)
    (hpos : pos = (done.getLast?.map (·.seq)).getD lo) :
    pos < row.seq ∧ ∀ r ∈ done ++ row :: rest, pos < r.seq → row.seq ≤ r.seq := by
  obtain ⟨hdone, hrest, hcross⟩ := List.pairwise_append.1 hasc
  have hlast : ∀ r ∈ done, r.seq ≤ pos := by
    intro r hr
    cases hl : done.getLast? with
    | none =>
      rw [List.getLast?_eq_none_iff.1 hl] at hr
      cases hr
    | some last =>
      rw [hpos, hl]
      exact Ascending.le_getLast hdone hr hl
  constructor
  · rw [hpos]
    cases hl : done.getLast? with
    | none => exact hlo
    | some last => exact hcross last (List.mem_of_getLast? hl) row List.mem_cons_self
  · intro r hr hlt
    rcases List.mem_append.1 hr with hr | hr
    · exact absurd (hlast r hr) (not_le.2 hlt)
    · rcases List.mem_cons.1 hr with rfl | hr
      · exact le_rfl
      · exact ((List.pairwise_cons.1 hrest).1 r hr).le

/-- **The entry that the cap stops at is the next one past the position.** -/
theorem scanPage_capped
    (h : scanPage env target checkExpiry (store.page env.sha256 { base with after := s.pos }) s =
      .ok (s', finished)) (h0 : s.capped = false) (hc : s'.capped = true) :
    finished = true ∧ ∃ row, Omitted env base store s'.pos row := by
  obtain ⟨-, head, headFp, scanned, s₁, left, -, hserve, hleft⟩ := scanPage_cases h
  have hc₁ : s₁.capped = true := by
    rcases hleft with ⟨-, rfl, -⟩ | ⟨-, rfl, -⟩ <;> exact hc
  obtain ⟨rfl, done, row, rest, hsplit, hvis, hpos⟩ := serveRows_capped hserve h0 hc₁
  obtain ⟨-, rfl, hfin⟩ := hleft.resolve_right fun h => Bool.noConfusion h.1
  have hrow : row ∈ (store.page env.sha256 { base with after := s.pos }).rows := by
    rw [hsplit]
    simp
  rw [rowVisible_page hrow] at hvis
  set limit := FeedQuery.limit { base with after := s.pos } with hlimit
  set F := store.rows.filter fun r => decide (s.pos < r.seq) && base.matches r with hF
  have hpage : F = done ++ row :: (rest ++ F.drop limit) := by
    have htake : F.take limit = done ++ row :: rest := hsplit
    rw [← List.cons_append, ← List.append_assoc, ← htake, List.take_append_drop]
  have hmemF : ∀ r, r ∈ F ↔ r ∈ store.rows ∧ s.pos < r.seq ∧ base.matches r = true := by
    intro r
    simp only [hF, List.mem_filter, Bool.and_eq_true, decide_eq_true_eq]
  obtain ⟨hmem, hlo, hmatch⟩ := (hmemF row).1 (List.mem_of_mem_take hrow)
  have hasc : Ascending FeedRow.seq F := store.ascending.filter _
  rw [hpage] at hasc
  have hnext := next_past hasc hlo hpos
  rw [← hpage] at hnext
  have hle : s.pos ≤ s'.pos := by
    rw [hpos]
    cases hl : done.getLast? with
    | none => exact le_rfl
    | some last =>
      have hin : last ∈ F := by
        rw [hpage]
        exact List.mem_append_left _ (List.mem_of_getLast? hl)
      exact ((hmemF last).1 hin).2.1.le
  refine ⟨hfin, row, hmem, ?_, hnext.1, fun r hr hm hlt => ?_⟩
  · rw [ChangesEnv.wanted, hmatch, hvis]
    rfl
  · exact hnext.2 r ((hmemF r).2 ⟨hr, hle.trans_lt hlt, hm⟩) hlt

theorem refill_capped {n : ℕ} (h : refill env base target checkExpiry n reads s = .ok s')
    (h0 : s.capped = false) (hc : s'.capped = true) :
    ∃ k < n, ∃ row, Omitted env base (reads k) s'.pos row := by
  induction n generalizing reads s with
  | zero =>
    cases h
    rw [h0] at hc
    cases hc
  | succ n ih =>
    obtain ⟨s₁, finished, hround, hnext⟩ := refill_cases h
    cases hc₁ : s₁.capped with
    | true =>
      obtain ⟨hfin, row, hrow⟩ := scanPage_capped hround h0 hc₁
      obtain rfl := hnext.resolve_right fun h => Bool.noConfusion (h.1.symm.trans hfin)
      exact ⟨0, Nat.succ_pos n, row, hrow⟩
    | false =>
      rcases hnext with rfl | ⟨-, hnext⟩
      · rw [hc] at hc₁
        cases hc₁
      · obtain ⟨k, hk, row, hrow⟩ := ih hnext hc₁
        exact ⟨k + 1, Nat.succ_lt_succ hk, row, hrow⟩

/-! ## The next page -/

variable {q : FeedQuery}

theorem Omitted.later {store' : FeedStore} (h : Omitted env q store pos row)
    (hkept : store.rows <+: store'.rows) : Omitted env q store' pos row := by
  obtain ⟨new, hnew⟩ := hkept
  refine ⟨hnew ▸ List.mem_append_left _ h.mem, h.wanted, h.past, fun r hr hm hlt => ?_⟩
  rw [← hnew] at hr
  rcases List.mem_append.1 hr with hr | hr
  · exact h.first r hr hm hlt
  · have hasc := store'.ascending
    rw [← hnew] at hasc
    exact ((List.pairwise_append.1 hasc).2.2 row h.mem r hr).le

theorem Omitted.page (h : Omitted env q store pos row) :
    ∃ more, (store.page env.sha256 { q with after := pos }).rows = row :: more := by
  set F := store.rows.filter fun r => decide (pos < r.seq) && q.matches r with hF
  have hwanted := h.wanted
  rw [ChangesEnv.wanted, Bool.and_eq_true] at hwanted
  have hrow : row ∈ F := by
    simp only [hF, List.mem_filter, Bool.and_eq_true, decide_eq_true_eq]
    exact ⟨h.mem, h.past, hwanted.1⟩
  cases hcons : F with
  | nil =>
    rw [hcons] at hrow
    cases hrow
  | cons first rest =>
    have hfirst : first ∈ F := by
      rw [hcons]
      exact List.mem_cons_self
    simp only [hF, List.mem_filter, Bool.and_eq_true, decide_eq_true_eq] at hfirst
    have hle := h.first first hfirst.1 hfirst.2.2 hfirst.2.1
    have hasc : Ascending FeedRow.seq F := store.ascending.filter _
    rw [hcons] at hasc hrow
    have heq : first = row := by
      rcases List.mem_cons.1 hrow with heq | hin
      · exact heq.symm
      · exact absurd hle (not_le.2 ((List.pairwise_cons.1 hasc).1 row hin))
    have hpage : (store.page env.sha256 { q with after := pos }).rows =
        F.take (FeedQuery.limit { q with after := pos }) := rfl
    rw [hpage, hcons, heq]
    obtain ⟨n, hn⟩ := Nat.exists_eq_succ_of_ne_zero (FeedQuery.limit_pos { q with after := pos }).ne'
    exact ⟨rest.take n, by rw [hn, List.take_succ_cons]⟩

theorem serveRows_first {visible : List String} {rows : List FeedRow} {left : Bool}
    (h : serveRows env target visible (row :: rows) s = .ok (s', left)) (h0 : s.changes = [])
    (ht : 0 < target) (hvis : rowVisible visible row = true) :
    ∃ c more, row.toChange env.api = .ok c ∧ s'.changes = c :: more := by
  have hlen : ¬s.changes.length = target := by
    rw [h0, List.length_nil]
    exact ht.ne
  unfold serveRows at h
  rw [if_neg hlen, if_pos hvis] at h
  obtain ⟨c, hc, h⟩ := except_bind_ok.1 h
  obtain ⟨size, -, h⟩ := except_bind_ok.1 h
  rw [if_neg fun hcap => hcap.1 h0] at h
  obtain ⟨done, rest, new, -, hnew, -⟩ := serveRows_spec h
  refine ⟨c, new, except_mapError_ok.1 hc, ?_⟩
  rw [hnew, h0]
  rfl

theorem scanPage_grows {page : FeedPage}
    (h : scanPage env target checkExpiry page s = .ok (s', finished)) :
    ∃ new, s'.changes = s.changes ++ new := by
  obtain ⟨-, head, headFp, scanned, s₁, left, -, hserve, hleft⟩ := scanPage_cases h
  obtain ⟨done, rest, new, -, hnew, -⟩ := serveRows_spec hserve
  refine ⟨new, ?_⟩
  rcases hleft with ⟨-, rfl, -⟩ | ⟨-, rfl, -⟩ <;> exact hnew

theorem refill_grows {n : ℕ} (h : refill env base target checkExpiry n reads s = .ok s') :
    ∃ new, s'.changes = s.changes ++ new := by
  induction n generalizing reads s with
  | zero =>
    cases h
    exact ⟨[], (List.append_nil _).symm⟩
  | succ n ih =>
    obtain ⟨s₁, finished, hround, hnext⟩ := refill_cases h
    obtain ⟨new, hnew⟩ := scanPage_grows hround
    rcases hnext with rfl | ⟨-, hnext⟩
    · exact ⟨new, hnew⟩
    · obtain ⟨new', hnew'⟩ := ih hnext
      exact ⟨new ++ new', by rw [hnew', hnew, List.append_assoc]⟩

/-- **A scan that starts before an omitted row serves it first.** -/
theorem refill_serves_first {n : ℕ}
    (h : refill env base target checkExpiry (n + 1) reads s = .ok s') (h0 : s.changes = [])
    (ht : 0 < target) (hrow : Omitted env base (reads 0) s.pos row) :
    ∃ c more, row.toChange env.api = .ok c ∧ s'.changes = c :: more := by
  obtain ⟨rest, hpage⟩ := hrow.page
  obtain ⟨s₁, finished, hround, hnext⟩ := refill_cases h
  obtain ⟨-, head, headFp, scanned, s₂, left, -, hserve, hleft⟩ := scanPage_cases hround
  have hvis : rowVisible (pageVisible env ((reads 0).page env.sha256 { base with after := s.pos }).rows)
      row = true := by
    rw [rowVisible_page (by rw [hpage]; exact List.mem_cons_self)]
    have hwanted := hrow.wanted
    rw [ChangesEnv.wanted, Bool.and_eq_true] at hwanted
    exact hwanted.2
  rw [hpage] at hserve hvis
  obtain ⟨c, more, hc, hmore⟩ := serveRows_first hserve h0 ht hvis
  have hmore₁ : s₁.changes = c :: more := by
    rcases hleft with ⟨-, rfl, -⟩ | ⟨-, rfl, -⟩ <;> exact hmore
  rcases hnext with rfl | ⟨-, hnext⟩
  · exact ⟨c, more, hc, hmore₁⟩
  · obtain ⟨new, hnew⟩ := refill_grows hnext
    exact ⟨c, more ++ new, hc, by rw [hnew, hmore₁, List.cons_append]⟩

theorem Omitted.congr {q' : FeedQuery} (h : Omitted env q store pos row)
    (hq : q'.matches = q.matches) : Omitted env q' store pos row := by
  refine ⟨h.mem, ?_, h.past, fun r hr hm => h.first r hr (hq ▸ hm)⟩
  rw [ChangesEnv.wanted, hq]
  exact h.wanted

theorem baseQuery_filter {req : ChangesRequest} (h : baseQuery env req pos = .ok base) :
    ∃ q, filterQuery env req.filter = .ok q ∧ base.matches = q.matches := by
  obtain ⟨q, hq, h⟩ := except_bind_ok.1 h
  cases h
  exact ⟨q, hq, rfl⟩

theorem evaluateChanges_first {req : ChangesRequest} {resp : ChangesResponse} {c : DecodedCursor}
    {scanned : ℕ} (h : evaluateChanges env reads req = .ok (resp, scanned))
    (hsince : req.since = .cursor c) (ht : 0 < req.limit)
    (hq : filterQuery env req.filter = .ok q) (hrow : Omitted env q store c.pos row)
    (hkept : store.rows <+: (reads 2).rows) :
    ∃ change, row.toChange env.api = .ok change ∧ resp.changes.head? = some change := by
  obtain ⟨s, ⟨pos, base, body, hstart, hbase, -, hrefill⟩, rfl⟩ :=
    evaluateChanges_cases (by rw [hsince]; exact Since.noConfusion) h
  obtain ⟨rfl, -⟩ := startPosition_ok (by rw [hsince]; rfl) hstart
  obtain ⟨q', hq', hmatches⟩ := baseQuery_filter hbase
  cases hq.symm.trans hq'
  obtain ⟨change, more, hchange, hmore⟩ := refill_serves_first hrefill rfl ht ((hrow.later hkept).congr hmatches)
  exact ⟨change, hchange, by simp only [Scan.response, hmore, List.head?_cons]⟩

/-! ## The page -/

/-- **The size of a page.**  The running size is the length of the body written, one more if the page
    reports more; a page of several entries is within the bound; and the row that a page ended at for
    the bound is the first that its cursor serves, unless rows are pruned in between. -/
theorem changes_page_within_bytes (env : ChangesEnv) (w : ChangesWire) (hw : env.Writes w)
    (reads : ℕ → FeedStore) (req : ChangesRequest) (resp : ChangesResponse) (scanned : ℕ)
    (h : evaluateChanges env reads req = .ok (resp, scanned)) :
    (req.since = .head ∧ resp.changes = []) ∨
      ∃ s : Scan, s.EndOf env reads req ∧ resp = s.response ∧
        (∃ len, env.responseLen resp = .ok len ∧ s.body = len + (if resp.hasMore then 1 else 0) ∧
          (1 < resp.changes.length → len ≤ env.changesMaxPageBytes)) ∧
        (s.capped = true → resp.changes ≠ [] ∧
          ∃ k q row, filterQuery env req.filter = .ok q ∧
            Omitted env q (reads k) resp.nextCursor.pos row ∧
            ∀ (reads' : ℕ → FeedStore) (limit : ℕ) (resp' : ChangesResponse) (scanned' : ℕ),
              (∀ i, (reads k).rows <+: (reads' i).rows) → 0 < limit →
              evaluateChanges env reads' ⟨.cursor resp.nextCursor, limit, req.filter⟩ =
                .ok (resp', scanned') →
              ∃ c, row.toChange env.api = .ok c ∧ resp'.changes.head? = some c) := by
  by_cases hhead : req.since = .head
  · refine .inl ⟨hhead, ?_⟩
    simp only [evaluateChanges, hhead, if_true] at h
    cases h
    rfl
  obtain ⟨s, hend, rfl⟩ := evaluateChanges_cases hhead h
  obtain ⟨pos, base, body, hstart, hbase, hbody, hrefill⟩ := id hend
  have hsized : s.Sized env w body := by
    refine refill_sized hw hrefill ⟨⟨[], rfl, rfl⟩, fun hlen => absurd hlen (Nat.not_lt_zero 1), ?_⟩
    intro hcapped
    cases hcapped
  refine .inr ⟨s, hend, rfl, ?_, fun hc => ?_⟩
  · obtain ⟨texts, htexts, hsize⟩ := hsized.size
    obtain ⟨len, hlen, heq⟩ := hw.response_length (r := s.response) htexts hbody
    refine ⟨len, hlen, by rw [hsize, ← heq], fun hmany => ?_⟩
    have hfits := hsized.fits hmany
    omega
  · obtain ⟨k, -, row, hrow⟩ := refill_capped hrefill rfl hc
    obtain ⟨q, hq, hmatches⟩ := baseQuery_filter hbase
    have hrow := hrow.congr hmatches.symm
    refine ⟨hsized.capped hc, k + 2, q, row, hq, hrow, fun reads' limit resp' scanned' hkept ht h' => ?_⟩
    exact evaluateChanges_first h' rfl ht hq hrow (hkept 2)

namespace Sample

def wire : ChangesWire where
  change := fun _ => .ok (List.replicate 10 120)
  cursor := fun _ => List.replicate 4 99

def smallPages : ChangesEnv :=
  { sampleEnv with
    changesMaxPageBytes := 70
    changeLen := fun c => (wire.change c).map List.length
    responseLen := fun r => (r.changes.mapM wire.change).map fun texts => (wire.response texts r).length }

theorem smallPages_writes : smallPages.Writes wire := ⟨fun _ => rfl, fun _ => rfl, fun _ _ => rfl⟩

def firstPage : ChangesResponse where
  changes := [⟨1, .superseded, "c1", "", "a1", none, none, .null⟩]
  nextCursor := ⟨1, anchorAt 3 (sampleFeed.store.readHead id).headFp⟩
  hasMore := true

end Sample

theorem changes_page_within_bytes_sample :
    evaluateChanges Sample.smallPages (fun _ => sampleFeed.store) ⟨.position 0, 5, {}⟩ =
      .ok (Sample.firstPage, 2) ∧
    ((evaluateChanges Sample.smallPages (fun _ => sampleFeed.store)
      ⟨.cursor Sample.firstPage.nextCursor, 5, {}⟩).toOption.map fun r => r.1.changes.map (·.seq)) =
        some [3] ∧
    ∃ s : Scan, s.EndOf Sample.smallPages (fun _ => sampleFeed.store) ⟨.position 0, 5, {}⟩ ∧
      Sample.firstPage = s.response ∧
      ∃ len, Sample.smallPages.responseLen Sample.firstPage = .ok len ∧ s.body = len + 1 := by
  have hpage : evaluateChanges Sample.smallPages (fun _ => sampleFeed.store) ⟨.position 0, 5, {}⟩ =
      .ok (Sample.firstPage, 2) := rfl
  refine ⟨hpage, by decide, ?_⟩
  rcases changes_page_within_bytes Sample.smallPages Sample.wire Sample.smallPages_writes _ _ _ _ hpage
    with ⟨hhead, -⟩ | ⟨s, hend, hresp, ⟨len, hlen, hsize, -⟩, -⟩
  · cases hhead
  · exact ⟨s, hend, hresp, len, hlen, hsize⟩

end AcdpRegistry
