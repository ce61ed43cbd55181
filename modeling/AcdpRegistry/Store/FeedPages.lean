/-
  The page queries of the change feed: `page_query` of the SQLite crate, `page` of the
  Postgres crate, and the ranges that stand for bucket tests (`change_bucket.rs`).

  Both statements are assembled from the query.  After `seq > …` comes one arm for
  each list of ids that is not empty and for each bucket, then the kinds if there are
  any; a part that is empty leaves no trace in the text.  `pageWhere_means` says that
  for every combination of them the statement keeps the rows of `FeedQuery::matches`.
-/
import AcdpRegistry.Store.FeedTable
import AcdpRegistry.Lib.Sql
import AcdpRegistry.Lib.Digits

namespace AcdpRegistry

open Lib Lib.Sql

/-! ## Buckets as ranges -/

variable {b : Bucket}

def IsHexDigit (c : Char) : Prop := c ∈ "0123456789abcdef".toList

instance : DecidablePred IsHexDigit := fun c => inferInstanceAs (Decidable (c ∈ _))

def i64Max : ℕ := 2 ^ 63 - 1

def bucketHashLen : ℕ := 64

def IsBucketHash (hash : String) : Prop := hash.length = bucketHashLen ∧ ∀ c ∈ hash.toList, IsHexDigit c

namespace Bucket

/-- The digit that the loop of `range` writes over `c`; after `f` there is none, and the loop carries. -/
def nextDigit (c : Char) : Option Char :=
  if c = 'f' then none else if c = '9' then some 'a' else some (Char.ofNat (c.toNat + 1))

/-- `Bucket::range`: the bounds of the hashes in the bucket. -/
def range (b : Bucket) : String × Option String :=
  (b.digits, (Digits.upper '0' nextDigit b.digits.toList).map String.ofList)

theorem isAlphabet : Digits.IsAlphabet IsHexDigit '0' nextDigit := by
  have hzero : ("0123456789abcdef".toList.all fun d => decide ('0' ≤ d)) = true := by decide +kernel
  have hlast : ("0123456789abcdef".toList.all fun c => "0123456789abcdef".toList.all fun d =>
      decide (nextDigit c = none → d ≤ c)) = true := by decide +kernel
  have hnext : ("0123456789abcdef".toList.all fun c => "0123456789abcdef".toList.all fun d =>
      (nextDigit c).all fun c' => decide (d < c' ↔ d ≤ c)) = true := by decide +kernel
  simp only [List.all_eq_true, Option.all_eq_true, decide_eq_true_eq] at hzero hlast hnext
  exact ⟨hzero, fun c d hc hd => hlast c hc d hd, fun c c' d hc hd => hnext c hc d hd c'⟩

/-- What `Bucket::parse` lets through. -/
structure Valid (b : Bucket) : Prop where
  length_le : b.digits.length ≤ bucketHashLen
  hex : ∀ c ∈ b.digits.toList, IsHexDigit c

/-- **A hash is in the bucket exactly if it is in the range.** -/
theorem Valid.contains_iff (hb : b.Valid) {hash : String} (hh : IsBucketHash hash) :
    b.contains hash = true ↔ Cmp.ge.test hash b.range.1 = true ∧
      ∀ upper, b.range.2 = some upper → Cmp.lt.test hash upper = true := by
  have hlen : b.digits.toList.length ≤ hash.toList.length := by
    rw [String.length_toList, String.length_toList, hh.1]
    exact hb.length_le
  rw [contains, List.isPrefixOf_iff_prefix, isAlphabet.isPrefix_iff_range hb.hex hh.2 hlen]
  refine and_congr ?_ ?_
  · rw [Cmp.test, decide_eq_true_eq, ← String.lt_iff_toList_lt, not_lt]
    rfl
  · simp only [Cmp.test, range, decide_eq_true_eq, Option.map_eq_some_iff, forall_exists_index, and_imp,
      forall_apply_eq_imp_iff₂, String.lt_iff_toList_lt, String.toList_ofList]

def InRange (b : Bucket) (text : String) : Prop :=
  b.range.1 ≤ text ∧ ∀ upper, b.range.2 = some upper → text < upper

theorem Valid.inRange_iff (hb : b.Valid) {hash : String} (hh : IsBucketHash hash) :
    b.InRange hash ↔ b.contains hash = true := by
  rw [hb.contains_iff hh, InRange]
  simp only [Cmp.test, decide_eq_true_eq]

theorem Valid.lt_of_inRange {b' : Bucket} (hb : b.Valid) (hb' : b'.Valid)
    (hlen : b.digits.length = b'.digits.length) (hlt : b.digits < b'.digits) {text : String}
    (htext : b.InRange text) : text < b'.digits := by
  rw [← String.length_toList, ← String.length_toList] at hlen
  obtain ⟨u, hu, hle⟩ := isAlphabet.upper_of_lt hb.hex hb'.hex hlen (String.lt_iff_toList_lt.1 hlt)
  have htext_lt : text < String.ofList u := htext.2 _ (by rw [range, hu, Option.map_some])
  refine htext_lt.trans_le (not_lt.1 fun hlt' => hle ?_)
  simpa only [String.lt_iff_toList_lt, String.toList_ofList] using hlt'

/-- **The ranges of different buckets of one length are disjoint.** -/
theorem Valid.not_inRange_both {b' : Bucket} (hb : b.Valid) (hb' : b'.Valid)
    (hlen : b.digits.length = b'.digits.length) (hne : b ≠ b') (text : String) :
    ¬(b.InRange text ∧ b'.InRange text) := by
  rintro ⟨htext, htext'⟩
  have hdigits : b.digits ≠ b'.digits := fun h => hne (by cases b; cases b'; cases h; rfl)
  rcases lt_or_gt_of_ne hdigits with hlt | hlt
  · exact not_le.2 (hb.lt_of_inRange hb' hlen hlt htext) htext'.1
  · exact not_le.2 (hb'.lt_of_inRange hb hlen.symm hlt htext') htext.1

end Bucket

/-- The SDK's check of a bucket value: 1 to `maxLen` lowercase hex digits. -/
def ChangeApi.ValidatesBuckets (api : ChangeApi) : Prop :=
  ∀ raw maxLen, api.validateBucket raw maxLen = .ok () →
    1 ≤ raw.length ∧ raw.length ≤ maxLen ∧ ∀ c ∈ raw.toList, IsHexDigit c

theorem Bucket.parse_digits {api : ChangeApi} {raw : String} {maxLen : ℕ}
    (h : Bucket.parse api raw maxLen = .ok b) : b.digits = raw := by
  obtain ⟨u, -, hb⟩ := except_bind_ok.1 h
  cases hb
  rfl

theorem Bucket.parse_valid {api : ChangeApi} (hapi : api.ValidatesBuckets) {raw : String}
    {maxLen : ℕ} (h : Bucket.parse api raw maxLen = .ok b) : b.Valid := by
  obtain ⟨u, hcheck, hb⟩ := except_bind_ok.1 h
  cases hb
  obtain ⟨-, hlen, hhex⟩ := hapi raw _ hcheck
  refine ⟨hlen.trans ?_, hhex⟩
  exact (min_le_right maxLen 16).trans (by decide)

/-! ## The statements -/

inductive FeedColumn
  | seq
  | kind
  | ctxId
  | lineageId
  | agentId
  | lineageHash
  | agentHash

def FeedRow.column (r : FeedRow) : FeedColumn → Value
  | .seq => .int r.seq
  | .kind => .text r.kind.asStr
  | .ctxId => .text r.ctxId
  | .lineageId => .text r.lineageId
  | .agentId => .text r.agentId
  | .lineageHash => .text r.lineageHash
  | .agentHash => .text r.agentHash

def FeedRow.tuple (r : FeedRow) : Tuple FeedColumn Empty := ⟨r.column, Empty.elim⟩

/-- A condition on the `changes` table, with the values it binds. -/
abbrev FeedBuild := Build FeedColumn Empty

inductive FeedArm
  | idIn (col : FeedColumn) (ids : List String)
  /-- `(kind = 'key_revocation' AND agent_id …)`. -/
  | revocationOf (agents : List String)
  | inBucket (col : FeedColumn) (b : Bucket)

/-- The arms in the order of the text: a list of ids that is empty has none, and each bucket has its
    own. -/
def FeedQuery.arms (q : FeedQuery) : List FeedArm :=
  ([(FeedColumn.ctxId, q.ctxIds), (.lineageId, q.lineageIds), (.agentId, q.agentIds)].filter
      fun arm => !arm.2.isEmpty).map (fun arm => .idIn arm.1 arm.2) ++
    (if q.revocationAgents.isEmpty then [] else [.revocationOf q.revocationAgents]) ++
    q.lineageBuckets.map (.inBucket .lineageHash) ++ q.agentBuckets.map (.inBucket .agentHash)

/-- `kind = 'key_revocation'`. -/
def revocationOnly : FeedBuild := .text (.eq (.col .kind) (.lit (.text "key_revocation")))

/-- `(col >= lower AND col < upper)`, or `(col >= lower)`; SQLite's `likelihood` only informs the
    planner. -/
def rangeArm (d : Placeholder) (col : FeedColumn) (b : Bucket) : FeedBuild :=
  b.range.2.elim (.cmp d .ge col (.text b.range.1)) fun upper =>
    (Build.cmp d .ge col (.text b.range.1)).and (.cmp d .lt col (.text upper))

/-- `seq > …`, and the arms in parentheses if there are any. -/
def FeedQuery.idWhere (d : Placeholder) (arm : FeedArm → FeedBuild) (q : FeedQuery) : FeedBuild :=
  let after : FeedBuild := .cmp d .gt .seq (.int (min q.after i64Max : ℕ))
  match q.arms with
  | [] => after
  | a :: rest => after.and (Build.anyOf (arm a) (rest.map arm))

/-- What both statements are made of; `arm` writes an arm, and `kindIn` the test of the kinds. -/
def pageWhere (d : Placeholder) (arm : FeedArm → FeedBuild) (kindIn : List String → FeedBuild)
    (q : FeedQuery) : FeedBuild :=
  if q.kinds.isEmpty then q.idWhere d arm
  else (q.idWhere d arm).and (kindIn (q.kinds.map ChangeKind.asStr))

/-- An arm on SQLite, with a `?` for every id. -/
def FeedArm.sqlite : FeedArm → FeedBuild
  | .idIn col ids => .isIn col (ids.map .text)
  | .revocationOf agents => revocationOnly.and (.isIn .agentId (agents.map .text))
  | .inBucket col b => rangeArm .question col b

/-- An arm on Postgres, with the ids as one array. -/
def FeedArm.pg : FeedArm → FeedBuild
  | .idIn col ids => .eqAny col ids
  | .revocationOf agents => revocationOnly.and (.eqAny .agentId agents)
  | .inBucket col b => rangeArm .dollar col b

/-- The condition of `page_query` (SQLite). -/
def pageQuery (q : FeedQuery) : FeedBuild :=
  pageWhere .question FeedArm.sqlite (fun kinds => .isIn .kind (kinds.map .text)) q

/-- The condition of the query in `page` (Postgres). -/
def pgPageQuery (q : FeedQuery) : FeedBuild :=
  pageWhere .dollar FeedArm.pg (fun kinds => .eqAny .kind kinds) q

namespace FeedTable

variable (sha256 : Sha256) (t : FeedTable)

/-- `SELECT … FROM changes WHERE … ORDER BY seq ASC LIMIT …`. -/
def select (m : FeedBuild) (limit : ℕ) : List FeedRow :=
  (orderBySeq (t.rows.filter fun r => m.keeps r.tuple)).take limit

/-- `page` of the SQLite crate: the markers and the rows, in one transaction. -/
def sqlitePage (q : FeedQuery) : FeedPage :=
  FeedPage.fromScan q (t.select (pageQuery q) q.limit) (t.readHead sha256)

/-- `page` of the Postgres crate, in one snapshot. -/
def pgPage (q : FeedQuery) : FeedPage :=
  FeedPage.fromScan q (t.select (pgPageQuery q) q.limit) (t.readHead sha256)

end FeedTable

/-! ## What the arms select -/

/-- What an arm is for. -/
def FeedArm.Selects (r : FeedRow) : FeedArm → Prop
  | .idIn col ids => ∃ s ∈ ids, r.tuple.col col = .text s
  | .revocationOf agents => r.kind = .keyRevocation ∧ r.agentId ∈ agents
  | .inBucket col b => ∃ hash, r.tuple.col col = .text hash ∧ b.contains hash = true

/-- The arms are of columns with texts, and the buckets of columns with hashes. -/
def FeedArm.Typed (r : FeedRow) : FeedArm → Prop
  | .idIn col _ => ∃ s, r.tuple.col col = .text s
  | .revocationOf _ => True
  | .inBucket col b => b.Valid ∧ ∃ hash, r.tuple.col col = .text hash ∧ IsBucketHash hash

/-- Both hashes are 64 lowercase hex digits. -/
def FeedRow.Hashed (r : FeedRow) : Prop := IsBucketHash r.lineageHash ∧ IsBucketHash r.agentHash

def FeedQuery.Parsed (api : ChangeApi) (q : FeedQuery) : Prop :=
  ∀ b ∈ q.lineageBuckets ++ q.agentBuckets, ∃ raw maxLen, Bucket.parse api raw maxLen = .ok b

variable {q : FeedQuery} {r : FeedRow} {d : Placeholder}

theorem FeedQuery.mem_arms {a : FeedArm} : a ∈ q.arms ↔
    (q.ctxIds ≠ [] ∧ .idIn .ctxId q.ctxIds = a) ∨
    (q.lineageIds ≠ [] ∧ .idIn .lineageId q.lineageIds = a) ∨
    (q.agentIds ≠ [] ∧ .idIn .agentId q.agentIds = a) ∨
    (q.revocationAgents ≠ [] ∧ .revocationOf q.revocationAgents = a) ∨
    (∃ b ∈ q.lineageBuckets, .inBucket .lineageHash b = a) ∨
    ∃ b ∈ q.agentBuckets, .inBucket .agentHash b = a := by
  have hrevocation : a ∈ (if q.revocationAgents.isEmpty then []
      else [FeedArm.revocationOf q.revocationAgents]) ↔
      q.revocationAgents ≠ [] ∧ .revocationOf q.revocationAgents = a := by
    cases q.revocationAgents <;> simp [eq_comm]
  simp only [arms, List.mem_append, List.mem_map, hrevocation, or_assoc]
  simp [or_assoc, and_assoc, or_and_right, exists_or]

theorem FeedQuery.arms_eq_nil : q.arms = [] ↔ q.hasIdClause = false := by
  simp only [arms, List.append_eq_nil_iff, List.map_eq_nil_iff, List.filter_eq_nil_iff]
  simp [hasIdClause, and_assoc]

/-- **The arms together are the id test of `matches`.** -/
theorem FeedQuery.arms_select : (∃ a ∈ q.arms, a.Selects r) ↔
    (q.ctxIds.contains r.ctxId || q.lineageIds.contains r.lineageId || q.agentIds.contains r.agentId ||
      (r.kind == .keyRevocation && q.revocationAgents.contains r.agentId) ||
      q.lineageBuckets.any (·.contains r.lineageHash) ||
      q.agentBuckets.any (·.contains r.agentHash)) = true := by
  have hids : ∀ {ids : List String} {col : FeedColumn} {s : String}, r.tuple.col col = .text s →
      ((∃ a, (ids ≠ [] ∧ FeedArm.idIn col ids = a) ∧ a.Selects r) ↔ ids.contains s = true) := by
    intro ids col s hcol
    cases ids <;> simp [FeedArm.Selects, hcol]
  have hbuckets : ∀ {bs : List Bucket} {col : FeedColumn} {hash : String},
      r.tuple.col col = .text hash →
      ((∃ a : FeedArm, (∃ b ∈ bs, .inBucket col b = a) ∧ a.Selects r) ↔
        bs.any (·.contains hash) = true) := by
    intro bs col hash hcol
    simp only [List.any_eq_true]
    constructor
    · rintro ⟨a, ⟨b, hb, rfl⟩, hash', hcol', hin⟩
      cases hcol.symm.trans hcol'
      exact ⟨b, hb, hin⟩
    · rintro ⟨b, hb, hin⟩
      exact ⟨_, ⟨b, hb, rfl⟩, hash, hcol, hin⟩
  have hrevocation : (∃ a : FeedArm, (q.revocationAgents ≠ [] ∧ .revocationOf q.revocationAgents = a) ∧
      a.Selects r) ↔ (r.kind == .keyRevocation && q.revocationAgents.contains r.agentId) = true := by
    cases q.revocationAgents <;> simp [FeedArm.Selects]
  simp only [mem_arms, or_and_right, exists_or, hrevocation, Bool.or_eq_true, or_assoc]
  rw [hids (s := r.ctxId) rfl, hids (s := r.lineageId) rfl, hids (s := r.agentId) rfl, hbuckets rfl,
    hbuckets rfl]

theorem FeedQuery.matches_iff : q.matches r = true ↔
    (q.arms = [] ∨ ∃ a ∈ q.arms, a.Selects r) ∧ (q.kinds = [] ∨ r.kind ∈ q.kinds) := by
  rw [arms_select, arms_eq_nil]
  simp [«matches», or_assoc]

theorem FeedQuery.arms_typed {api : ChangeApi} (hapi : api.ValidatesBuckets) (hq : q.Parsed api)
    (hr : r.Hashed) : ∀ a ∈ q.arms, a.Typed r := by
  have hvalid : ∀ b ∈ q.lineageBuckets ++ q.agentBuckets, b.Valid := by
    intro b hb
    obtain ⟨raw, maxLen, hparse⟩ := hq b hb
    exact Bucket.parse_valid hapi hparse
  intro a ha
  rcases FeedQuery.mem_arms.1 ha with ⟨-, rfl⟩ | ⟨-, rfl⟩ | ⟨-, rfl⟩ | ⟨-, rfl⟩ | ⟨b, hb, rfl⟩ |
    ⟨b, hb, rfl⟩
  · exact ⟨_, rfl⟩
  · exact ⟨_, rfl⟩
  · exact ⟨_, rfl⟩
  · trivial
  · exact ⟨hvalid b (List.mem_append_left _ hb), _, rfl, hr.1⟩
  · exact ⟨hvalid b (List.mem_append_right _ hb), _, rfl, hr.2⟩

theorem asStr_injective : Function.Injective ChangeKind.asStr := by
  intro k k' h
  cases k <;> cases k' <;> first | rfl | exact absurd h (by decide)

theorem agentId_col (r : FeedRow) : r.tuple.col .agentId = .text r.agentId := rfl

theorem revocationOnly_means : revocationOnly.Means d r.tuple (r.kind = .keyRevocation) := by
  refine Build.means_text fun binds => ?_
  refine (Cond.means_eq (Term.gives_col _) (Term.gives_lit _)).congr ?_
  have hkind : r.tuple.col .kind = .text r.kind.asStr := rfl
  simp only [hkind, Value.text.injEq, ne_eq, reduceCtorEq, not_false_eq_true, and_true]
  exact asStr_injective.eq_iff (b := .keyRevocation)

theorem rangeArm_means {col : FeedColumn} {hash : String} (hb : b.Valid)
    (hcol : r.tuple.col col = .text hash) (hhash : IsBucketHash hash) :
    (rangeArm d col b).Means d r.tuple (b.contains hash = true) := by
  have hlower := Build.means_cmp_text (d := d) (o := .ge) (b := b.range.1) hcol
  unfold rangeArm
  cases hu : b.range.2 with
  | none => exact hlower.congr (by simp [hb.contains_iff hhash, hu])
  | some upper =>
    refine (hlower.and (Build.means_cmp_text hcol)).congr ?_
    simp [hb.contains_iff hhash, hu]

theorem FeedArm.sqlite_means {a : FeedArm} (ha : a.Typed r) :
    a.sqlite.Means .question r.tuple (a.Selects r) := by
  cases a with
  | idIn col ids =>
    obtain ⟨s, hs⟩ := ha
    refine (Build.means_isIn hs ids).congr ?_
    simp [Selects, hs]
  | revocationOf agents => exact revocationOnly_means.and (Build.means_isIn (agentId_col r) agents)
  | inBucket col b =>
    obtain ⟨hb, hash, hcol, hhash⟩ := ha
    refine (rangeArm_means hb hcol hhash).congr ?_
    simp [Selects, hcol]

theorem FeedArm.pg_means {a : FeedArm} (ha : a.Typed r) :
    a.pg.Means .dollar r.tuple (a.Selects r) := by
  cases a with
  | idIn col ids =>
    obtain ⟨s, hs⟩ := ha
    refine (Build.means_eqAny hs ids).congr ?_
    simp [Selects, hs]
  | revocationOf agents => exact revocationOnly_means.and (Build.means_eqAny (agentId_col r) agents)
  | inBucket col b =>
    obtain ⟨hb, hash, hcol, hhash⟩ := ha
    refine (rangeArm_means hb hcol hhash).congr ?_
    simp [Selects, hcol]

/-! ## What a page query selects -/

theorem after_means (hseq : r.seq ≤ i64Max) :
    (Build.cmp d .gt .seq (.int (min q.after i64Max : ℕ)) : FeedBuild).Means d r.tuple
      (q.after < r.seq) := by
  refine (Build.means_cmp_int rfl).congr ?_
  simp only [Cmp.test, decide_eq_true_eq, Nat.cast_lt]
  omega

theorem idWhere_means {arm : FeedArm → FeedBuild} (hseq : r.seq ≤ i64Max)
    (harm : ∀ a ∈ q.arms, (arm a).Means d r.tuple (a.Selects r)) :
    (q.idWhere d arm).Means d r.tuple
      (q.after < r.seq ∧ (q.arms = [] ∨ ∃ a ∈ q.arms, a.Selects r)) := by
  unfold FeedQuery.idWhere
  cases harms : q.arms with
  | nil => exact (after_means hseq).congr (by simp)
  | cons a rest =>
    rw [harms] at harm
    exact ((after_means hseq).and (Build.means_anyOf a rest harm)).congr (by simp)

/-- **For every combination of the lists, the statement keeps the rows of the query.** -/
theorem pageWhere_means {arm : FeedArm → FeedBuild} {kindIn : List String → FeedBuild}
    (hseq : r.seq ≤ i64Max) (harm : ∀ a ∈ q.arms, (arm a).Means d r.tuple (a.Selects r))
    (hkind : ∀ kinds, (kindIn kinds).Means d r.tuple (r.kind.asStr ∈ kinds)) :
    (pageWhere d arm kindIn q).Means d r.tuple (q.after < r.seq ∧ q.matches r = true) := by
  rw [FeedQuery.matches_iff, ← and_assoc]
  unfold pageWhere
  cases hkinds : q.kinds with
  | nil => exact (idWhere_means hseq harm).congr (by simp)
  | cons k kinds =>
    refine ((idWhere_means hseq harm).and (hkind _)).congr (and_congr Iff.rfl ?_)
    simp [List.mem_map_of_injective asStr_injective, asStr_injective.eq_iff]

/-- Rows that a `changes` table can hold, in the order of their positions. -/
structure FeedTable.WellFormed (t : FeedTable) : Prop where
  ascending : Ascending FeedRow.seq t.rows
  /-- `seq` is a 64-bit column. -/
  seq_le : ∀ r ∈ t.rows, r.seq ≤ i64Max
  hashed : ∀ r ∈ t.rows, r.Hashed

/-- The rows that `matches` selects past the query's position, up to its cap. -/
def FeedQuery.scan (q : FeedQuery) (rows : List FeedRow) : List FeedRow :=
  (rows.filter fun r => decide (q.after < r.seq) && q.matches r).take (max q.scanLimit 1)

theorem FeedQuery.scan_eq (q : FeedQuery) {t : FeedTable} (ht : t.WellFormed) {m : FeedBuild}
    (h : ∀ r ∈ t.rows, m.Means d r.tuple (q.after < r.seq ∧ q.matches r = true)) :
    t.select m q.limit = q.scan t.rows := by
  have hkeeps : (t.rows.filter fun r => m.keeps r.tuple) =
      t.rows.filter fun r => decide (q.after < r.seq) && q.matches r := by
    refine List.filter_congr fun r hr => ?_
    rw [Bool.eq_iff_iff, (h r hr).keeps_iff, Bool.and_eq_true, decide_eq_true_eq]
  rw [FeedTable.select, hkeeps, FeedTable.orderBySeq_ascending (ht.ascending.filter _)]
  rfl

section Pages

variable {api : ChangeApi} {t : FeedTable} (sha256 : Sha256)

/-- **The page of SQLite.** -/
theorem FeedTable.WellFormed.sqlitePage (ht : t.WellFormed) (hapi : api.ValidatesBuckets)
    (hq : q.Parsed api) :
    t.sqlitePage sha256 q = FeedPage.fromScan q (q.scan t.rows) (t.readHead sha256) := by
  rw [FeedTable.sqlitePage, q.scan_eq ht]
  intro r hr
  have htyped := FeedQuery.arms_typed hapi hq (ht.hashed r hr)
  exact pageWhere_means (ht.seq_le r hr) (fun a ha => FeedArm.sqlite_means (htyped a ha))
    fun kinds => Build.means_isIn rfl kinds

/-- **The page of Postgres.** -/
theorem FeedTable.WellFormed.pgPage (ht : t.WellFormed) (hapi : api.ValidatesBuckets)
    (hq : q.Parsed api) :
    t.pgPage sha256 q = FeedPage.fromScan q (q.scan t.rows) (t.readHead sha256) := by
  rw [FeedTable.pgPage, q.scan_eq ht]
  intro r hr
  have htyped := FeedQuery.arms_typed hapi hq (ht.hashed r hr)
  exact pageWhere_means (ht.seq_le r hr) (fun a ha => FeedArm.pg_means (htyped a ha))
    fun kinds => Build.means_eqAny rfl kinds

end Pages

end AcdpRegistry
