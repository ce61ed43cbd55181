/-
  The `changes` table of SQLite while the hashes of migration 021 may be missing, and the
  statements on it that append, prune and fill (`changes.rs` of the SQLite crate).

  `ChangesTable.Becomes` is all that any of them does to the rows.  It is transitive, no
  row with both hashes changes along it (`Becomes.eq_of_seq`), and no more rows lack a
  hash at its end than at its beginning (`Becomes.missing_le`).
-/
import AcdpRegistry.Store.FeedPages

namespace AcdpRegistry

/-! ## The table -/

/-- `bucket_hash`, by the SDK's `bucket`. -/
def bucketHash (bucket : String → ℕ → String) (value : String) : String := bucket value bucketHashLen

/-- A row of `changes`; the hashes of migration 021 may be missing. -/
structure ChangesRow where
  seq : ℕ
  kind : ChangeKind
  ctxId : String
  lineageId : String
  agentId : String
  supersededBy : Option String
  event : Option Json
  receipt : Json
  appendedAtMs : ℤ
  lineageHash : Option String
  agentHash : Option String

variable {r : ChangesRow} {rows : List ChangesRow}

namespace ChangesRow

/-- `lineage_hash IS NULL OR agent_hash IS NULL`. -/
def Lacks (r : ChangesRow) : Prop := r.lineageHash = none ∨ r.agentHash = none

instance : DecidablePred Lacks := fun _ => inferInstanceAs (Decidable (_ ∨ _))

def withHashes (r : ChangesRow) (lineageHash agentHash : String) : ChangesRow :=
  { r with lineageHash := some lineageHash, agentHash := some agentHash }

variable (bucket : String → ℕ → String)

/-- The row with the hashes of its own `lineage_id` and `agent_id`. -/
def filled (r : ChangesRow) : ChangesRow :=
  r.withHashes (bucketHash bucket r.lineageId) (bucketHash bucket r.agentId)

def ofFeed (r : FeedRow) : ChangesRow where
  seq := r.seq
  kind := r.kind
  ctxId := r.ctxId
  lineageId := r.lineageId
  agentId := r.agentId
  supersededBy := r.supersededBy
  event := r.event
  receipt := r.receipt
  appendedAtMs := r.appendedAtMs
  lineageHash := some r.lineageHash
  agentHash := some r.agentHash

@[simp] theorem withHashes_seq (r : ChangesRow) (l a : String) : (r.withHashes l a).seq = r.seq := rfl

@[simp] theorem filled_seq (r : ChangesRow) :
    (r.filled bucket).seq = r.seq := rfl

theorem not_lacks_withHashes (r : ChangesRow) (l a : String) : ¬(r.withHashes l a).Lacks := by
  simp [Lacks, withHashes]

theorem not_lacks_filled (r : ChangesRow) :
    ¬(r.filled bucket).Lacks := r.not_lacks_withHashes _ _

theorem not_lacks_ofFeed (r : FeedRow) : ¬(ofFeed r).Lacks := by simp [Lacks, ofFeed]

end ChangesRow

/-- The `changes` table: `seq` is its primary key, and `AUTOINCREMENT` keeps the largest key ever. -/
structure ChangesTable where
  rows : List ChangesRow
  sqliteSequence : ℕ
  keyed : (rows.map (·.seq)).Nodup
  sequenced : ∀ r ∈ rows, r.seq ≤ sqliteSequence

def backfillBatch : ℕ := 1000

namespace ChangesTable

variable (t : ChangesTable)

def newRow (nowMs : ℤ) (a : FeedAppend) : ChangesRow :=
  .ofFeed { a with seq := t.sqliteSequence + 1, appendedAtMs := nowMs }

theorem keyed_insert (nowMs : ℤ) (a : FeedAppend) :
    ((t.rows ++ [t.newRow nowMs a]).map (·.seq)).Nodup := by
  rw [List.map_append, List.nodup_append]
  refine ⟨t.keyed, List.nodup_singleton _, ?_⟩
  rintro seq hseq seq' hseq' rfl
  obtain ⟨r, hr, rfl⟩ := List.mem_map.1 hseq
  have hnew : r.seq = t.sqliteSequence + 1 := List.mem_singleton.1 hseq'
  have hold := t.sequenced r hr
  omega

theorem sequenced_insert (nowMs : ℤ) (a : FeedAppend) :
    ∀ r ∈ t.rows ++ [t.newRow nowMs a], r.seq ≤ t.sqliteSequence + 1 := by
  intro r hr
  rcases List.mem_append.1 hr with hr | hr
  · exact (t.sequenced r hr).trans (Nat.le_succ _)
  · rw [List.mem_singleton.1 hr]
    exact le_rfl

/-- `insert`: the row has both hashes. -/
def insert (nowMs : ℤ) (a : FeedAppend) : ChangesTable :=
  ⟨t.rows ++ [t.newRow nowMs a], t.sqliteSequence + 1, t.keyed_insert nowMs a,
    t.sequenced_insert nowMs a⟩

theorem keyed_filter (p : ChangesRow → Bool) : ((t.rows.filter p).map (·.seq)).Nodup :=
  t.keyed.sublist (List.filter_sublist.map _)

theorem sequenced_filter (p : ChangesRow → Bool) : ∀ r ∈ t.rows.filter p, r.seq ≤ t.sqliteSequence :=
  fun r hr => t.sequenced r (List.mem_of_mem_filter hr)

/-- `DELETE FROM changes WHERE seq <= last`. -/
def deleteThrough (last : ℕ) : ChangesTable :=
  ⟨t.rows.filter fun r => last < r.seq, t.sqliteSequence, t.keyed_filter _, t.sequenced_filter _⟩

/-- The rows that lack a hash, `ORDER BY seq`. -/
def lacking : List ChangesRow := (t.rows.filter (·.Lacks)).insertionSort fun a b => a.seq ≤ b.seq

def backfillRows : List ChangesRow := t.lacking.take backfillBatch

/-- `SELECT seq, lineage_id, agent_id FROM changes WHERE … ORDER BY seq LIMIT ?`. -/
def backfillScan : List (ℕ × String × String) :=
  t.backfillRows.map fun r => (r.seq, r.lineageId, r.agentId)

def missing : ℕ := t.rows.countP (·.Lacks)

theorem keyed_map {f : ChangesRow → ChangesRow} (hf : ∀ r, (f r).seq = r.seq) :
    ((t.rows.map f).map (·.seq)).Nodup := by
  rw [List.map_map, show (fun r : ChangesRow => r.seq) ∘ f = (·.seq) from funext hf]
  exact t.keyed

theorem sequenced_map {f : ChangesRow → ChangesRow} (hf : ∀ r, (f r).seq = r.seq) :
    ∀ r ∈ t.rows.map f, r.seq ≤ t.sqliteSequence := by
  intro r hr
  obtain ⟨r', hr', rfl⟩ := List.mem_map.1 hr
  rw [hf]
  exact t.sequenced r' hr'

def mapRows (f : ChangesRow → ChangesRow) (hf : ∀ r, (f r).seq = r.seq) : ChangesTable :=
  ⟨t.rows.map f, t.sqliteSequence, t.keyed_map hf, t.sequenced_map hf⟩

theorem seq_updateRow (seq : ℕ) (l a : String) (r : ChangesRow) :
    (if r.seq = seq then r.withHashes l a else r).seq = r.seq := by
  split <;> rfl

/-- `UPDATE changes SET lineage_hash = ?, agent_hash = ? WHERE seq = ?`. -/
def update (seq : ℕ) (lineageHash agentHash : String) : ChangesTable :=
  t.mapRows (fun r => if r.seq = seq then r.withHashes lineageHash agentHash else r)
    (seq_updateRow seq lineageHash agentHash)

def rowsAffected (seq : ℕ) : ℕ := t.rows.countP (·.seq = seq)

end ChangesTable

/-! ## Later tables -/

namespace ChangesTable

variable {bucket : String → ℕ → String} {t t' t'' : ChangesTable}

theorem eq_of_seq {r' : ChangesRow} (hr : r ∈ t.rows) (hr' : r' ∈ t.rows) (h : r.seq = r'.seq) :
    r = r' := List.inj_on_of_nodup_map t.keyed hr hr' h

/-- A later table: rows were deleted, or appended with both hashes at new keys, and some that lacked a
    hash were filled. -/
structure Becomes (bucket : String → ℕ → String) (t t' : ChangesTable) : Prop where
  sequence : t.sqliteSequence ≤ t'.sqliteSequence
  rows : ∀ r' ∈ t'.rows, t.sqliteSequence < r'.seq ∧ ¬r'.Lacks ∨
    ∃ r ∈ t.rows, r' = r ∨ r.Lacks ∧ r' = r.filled bucket

theorem Becomes.refl (t : ChangesTable) : Becomes bucket t t :=
  ⟨le_rfl, fun r hr => .inr ⟨r, hr, .inl rfl⟩⟩

theorem Becomes.trans (h : Becomes bucket t t') (h' : Becomes bucket t' t'') : Becomes bucket t t'' := by
  refine ⟨h.sequence.trans h'.sequence, fun r'' hr'' => ?_⟩
  rcases h'.rows r'' hr'' with ⟨hnew, hhas⟩ | ⟨r', hr', hsame⟩
  · exact .inl ⟨h.sequence.trans_lt hnew, hhas⟩
  · rcases h.rows r' hr' with ⟨hnew, hhas⟩ | ⟨r, hr, hsame'⟩
    · -- a row that was appended in between has both hashes, and is not filled
      rcases hsame with rfl | ⟨hlacks, -⟩
      · exact .inl ⟨hnew, hhas⟩
      · exact absurd hlacks hhas
    · refine .inr ⟨r, hr, ?_⟩
      rcases hsame' with rfl | ⟨hlacks, rfl⟩
      · exact hsame
      · rcases hsame with rfl | ⟨hlacks', -⟩
        · exact .inr ⟨hlacks, rfl⟩
        · exact absurd hlacks' (r.not_lacks_filled bucket)

/-- **A row with both hashes does not change.** -/
theorem Becomes.eq_of_seq (h : Becomes bucket t t') {r' : ChangesRow} (hr : r ∈ t.rows)
    (hhas : ¬r.Lacks) (hr' : r' ∈ t'.rows) (hseq : r'.seq = r.seq) : r' = r := by
  rcases h.rows r' hr' with ⟨hnew, -⟩ | ⟨r₀, hr₀, hsame⟩
  · have := t.sequenced r hr
    omega
  · rcases hsame with rfl | ⟨hlacks, rfl⟩
    · exact t.eq_of_seq hr₀ hr hseq
    · rw [t.eq_of_seq hr₀ hr hseq] at hlacks
      exact absurd hlacks hhas

theorem mem_lacking : r ∈ t.lacking ↔ r ∈ t.rows ∧ r.Lacks := by
  simp [lacking, List.mem_insertionSort]

theorem nodup_lacking (t : ChangesTable) : (t.lacking.map (·.seq)).Nodup :=
  ((List.perm_insertionSort _ _).map _).nodup_iff.2 (t.keyed_filter _)

theorem length_lacking (t : ChangesTable) : t.lacking.length = t.missing := by
  rw [lacking, List.length_insertionSort, missing, List.countP_eq_length_filter]

theorem Becomes.missing_le (h : Becomes bucket t t') : t'.missing ≤ t.missing := by
  rw [← t.length_lacking, ← t'.length_lacking]
  refine (List.subperm_of_subset (t'.nodup_lacking.of_map _) fun r' hr' => ?_).length_le
  obtain ⟨hmem, hlacks⟩ := mem_lacking.1 hr'
  rcases h.rows r' hmem with ⟨-, hhas⟩ | ⟨r, hr, hsame⟩
  · exact absurd hlacks hhas
  · rcases hsame with rfl | ⟨-, rfl⟩
    · exact mem_lacking.2 ⟨hr, hlacks⟩
    · exact absurd hlacks (r.not_lacks_filled bucket)

theorem missing_eq_zero : t.missing = 0 ↔ ∀ r ∈ t.rows, ¬r.Lacks := by
  simp [missing, List.countP_eq_zero]

/-! ### Writers -/

theorem becomes_insert (t : ChangesTable) (nowMs : ℤ) (a : FeedAppend) :
    Becomes bucket t (t.insert nowMs a) := by
  refine ⟨Nat.le_succ _, fun r hr => ?_⟩
  rcases List.mem_append.1 hr with hr | hr
  · exact .inr ⟨r, hr, .inl rfl⟩
  · rw [List.mem_singleton.1 hr]
    exact .inl ⟨Nat.lt_succ_self _, ChangesRow.not_lacks_ofFeed _⟩

theorem becomes_inserts (nowMs : ℤ) (appends : List FeedAppend) (t : ChangesTable) :
    Becomes bucket t (appends.foldl (·.insert nowMs) t) := by
  induction appends generalizing t with
  | nil => exact .refl t
  | cons a appends ih => exact (t.becomes_insert nowMs a).trans (ih _)

theorem becomes_deleteThrough (t : ChangesTable) (last : ℕ) :
    Becomes bucket t (t.deleteThrough last) :=
  ⟨le_rfl, fun r hr => .inr ⟨r, List.mem_of_mem_filter hr, .inl rfl⟩⟩

/-! ### Fills -/

theorem seq_fillRow (rows : List ChangesRow) (r : ChangesRow) :
    (if r.seq ∈ rows.map (·.seq) then r.filled bucket else r).seq = r.seq := by
  split <;> rfl

def fill (bucket : String → ℕ → String) (t : ChangesTable) (rows : List ChangesRow) : ChangesTable :=
  t.mapRows (fun r => if r.seq ∈ rows.map (·.seq) then r.filled bucket else r) (seq_fillRow rows)

theorem eq_of_rows (hrows : t.rows = t'.rows) (hseq : t.sqliteSequence = t'.sqliteSequence) :
    t = t' := by
  cases t
  cases t'
  cases hrows
  cases hseq
  rfl

theorem fill_nil (t : ChangesTable) : t.fill bucket [] = t :=
  eq_of_rows (by simp [fill, mapRows]) rfl

theorem rowsAffected_of_mem (hr : r ∈ t.rows) : t.rowsAffected r.seq = 1 := by
  have hcount : (t.rows.map (·.seq)).count r.seq = 1 :=
    List.count_eq_one_of_mem t.keyed (List.mem_map_of_mem hr)
  rw [List.count, List.countP_map] at hcount
  rw [rowsAffected, ← hcount]
  exact List.countP_congr fun x _ => by simp

theorem update_fill (hr : r ∈ t.rows) (hfresh : r.seq ∉ rows.map (·.seq)) :
    (t.update r.seq (bucketHash bucket r.lineageId) (bucketHash bucket r.agentId)).fill bucket rows =
      t.fill bucket (r :: rows) := by
  refine eq_of_rows ?_ rfl
  simp only [fill, update, mapRows, List.map_map]
  refine List.map_congr_left fun x hx => ?_
  simp only [Function.comp_apply, List.map_cons, List.mem_cons]
  by_cases hseq : x.seq = r.seq
  · obtain rfl := t.eq_of_seq hx hr hseq
    simp [hfresh, ChangesRow.filled]
  · simp [hseq]

theorem becomes_fill (hrows : ∀ r ∈ rows, r ∈ t.rows ∧ r.Lacks) :
    Becomes bucket t (t.fill bucket rows) := by
  refine ⟨le_rfl, fun r' hr' => .inr ?_⟩
  obtain ⟨r, hr, rfl⟩ := List.mem_map.1 hr'
  refine ⟨r, hr, ?_⟩
  split
  · next hmem =>
    obtain ⟨r₀, hr₀, hseq⟩ := List.mem_map.1 hmem
    obtain rfl := t.eq_of_seq (hrows r₀ hr₀).1 hr hseq
    exact .inr ⟨(hrows r₀ hr₀).2, rfl⟩
  · exact .inl rfl

theorem mem_fill_of_mem (hr : r ∈ rows) (hmem : r ∈ t.rows) :
    r.filled bucket ∈ (t.fill bucket rows).rows :=
  List.mem_map.2 ⟨r, hmem, if_pos (List.mem_map_of_mem hr)⟩

theorem mem_backfillRows (h : r ∈ t.backfillRows) : r ∈ t.rows ∧ r.Lacks :=
  mem_lacking.1 (List.mem_of_mem_take h)

theorem nodup_backfillRows (t : ChangesTable) : (t.backfillRows.map (·.seq)).Nodup :=
  t.nodup_lacking.sublist ((List.take_sublist _ _).map _)

theorem length_backfillRows (t : ChangesTable) :
    t.backfillRows.length = min backfillBatch t.missing := by
  rw [backfillRows, List.length_take, length_lacking]

theorem missing_fill_eq (t : ChangesTable) (rows : List ChangesRow) :
    (t.fill bucket rows).missing = t.lacking.countP fun r => r.seq ∉ rows.map (·.seq) := by
  have hlacks : ∀ r : ChangesRow, (if r.seq ∈ rows.map (·.seq) then r.filled bucket else r).Lacks ↔
      r.seq ∉ rows.map (·.seq) ∧ r.Lacks := by
    intro r
    split
    · next hmem => simp [hmem, r.not_lacks_filled bucket]
    · next hmem => simp [hmem]
  have hperm : t.lacking.Perm (t.rows.filter (·.Lacks)) := List.perm_insertionSort _ _
  rw [missing, fill, mapRows, List.countP_map, hperm.countP_eq, List.countP_filter]
  refine List.countP_congr fun r _ => ?_
  simp only [Function.comp_apply, hlacks, Bool.and_eq_true, decide_eq_true_eq]

theorem countP_beyond (t : ChangesTable) :
    (t.lacking.countP fun r => r.seq ∉ t.backfillRows.map (·.seq)) =
      (t.lacking.drop backfillBatch).length := by
  have hsplit : t.backfillRows ++ t.lacking.drop backfillBatch = t.lacking := List.take_append_drop _ _
  have hnodup := t.nodup_lacking
  rw [← hsplit, List.map_append, List.nodup_append] at hnodup
  have hread : t.backfillRows.countP (fun r => r.seq ∉ t.backfillRows.map (·.seq)) = 0 :=
    List.countP_eq_zero.2 fun r hr => by simpa using ⟨r, hr, rfl⟩
  have hbeyond : (t.lacking.drop backfillBatch).countP
      (fun r => r.seq ∉ t.backfillRows.map (·.seq)) = (t.lacking.drop backfillBatch).length := by
    refine List.countP_eq_length.2 fun r hr => decide_eq_true fun hmem => ?_
    exact hnodup.2.2 _ hmem _ (List.mem_map_of_mem hr) rfl
  calc (t.lacking.countP fun r => r.seq ∉ t.backfillRows.map (·.seq))
      = (t.backfillRows ++ t.lacking.drop backfillBatch).countP
          fun r => r.seq ∉ t.backfillRows.map (·.seq) := by rw [hsplit]
    _ = (t.lacking.drop backfillBatch).length := by
          rw [List.countP_append, hread, hbeyond, Nat.zero_add]

/-- **A batch fills as many rows as it reads.** -/
theorem missing_fill (bucket : String → ℕ → String) (t : ChangesTable) :
    (t.fill bucket t.backfillRows).missing = t.missing - t.backfillRows.length := by
  rw [missing_fill_eq, countP_beyond, List.length_drop, length_lacking, length_backfillRows]
  omega

end ChangesTable

end AcdpRegistry
