/-
  Claims of stored rows that may not decode (`claim_due` and `record` of the SQL
  backends), and the pass that makes them (`run_hint_pass_with`).

  The claim is one committed statement; the rows it returns are decoded afterwards, all
  or none.  A pass ends at the first claim that fails, so what it leased there it does
  not attempt.
-/
import AcdpRegistry.Core.Hints
import AcdpRegistry.Lib.Handler

namespace AcdpRegistry

open Lib

/-! ## Stored rows -/

structure SubscriptionRow where
  subscriptionId : String
  ownerDid : String
  tenantId : Option String
  filter : String
  callbackUrl : String
  secretCt : List UInt8
  secretKeyId : ℤ
  status : String
  createdAtMs : ℤ
  lastHintedSeq : ℤ
  nextAttemptAtMs : ℤ
  failingSinceMs : Option ℤ
  attempts : ℤ
  leaseUntilMs : Option ℤ

/-- `status_str`. -/
def SubscriptionStatus.asStr : SubscriptionStatus → String
  | .active => "active"
  | .disabled => "disabled"

def parseStatus (s : String) : Except AcdpError SubscriptionStatus :=
  if s = "active" then .ok .active
  else if s = "disabled" then .ok .disabled
  else .error (.registryInternal s!"stored subscription status '{s}' is unknown")

/-- `parse_filter`, with what the JSON parser makes of a text. -/
def parseFilter (fromStr : String → Except String WatchFilter) (raw : String) :
    Except AcdpError WatchFilter :=
  (fromStr raw).mapError fun e => .registryInternal s!"stored subscription filter does not parse: {e}"

def keyIdOf (keyId : ℤ) : Except AcdpError ℕ :=
  if 0 ≤ keyId ∧ keyId < 256 then .ok keyId.toNat
  else .error (.registryInternal s!"stored secret_key_id {keyId} is out of range")

namespace SubscriptionRow

def record (fromStr : String → Except String WatchFilter) (r : SubscriptionRow) :
    Except AcdpError SubscriptionRecord := do
  let filter ← parseFilter fromStr r.filter
  let secretKeyId ← keyIdOf r.secretKeyId
  let status ← parseStatus r.status
  return { subscriptionId := r.subscriptionId
           ownerDid := r.ownerDid
           tenantId := r.tenantId
           filter
           callbackUrl := r.callbackUrl
           secretCt := r.secretCt
           secretKeyId
           status
           createdAtMs := r.createdAtMs
           lastHintedSeq := r.lastHintedSeq.toNat
           nextAttemptAtMs := r.nextAttemptAtMs
           failingSinceMs := r.failingSinceMs
           attempts := if 0 ≤ r.attempts ∧ r.attempts < 2 ^ 32 then r.attempts.toNat else 2 ^ 32 - 1
           leaseUntilMs := r.leaseUntilMs }

def isDue (nowMs : ℤ) (head : ℕ) (r : SubscriptionRow) : Bool :=
  r.status = "active" && r.nextAttemptAtMs ≤ nowMs && r.leaseUntilMs.all (· < nowMs) &&
    r.lastHintedSeq < min (head : ℤ) (2 ^ 63 - 1)

theorem record_id {fromStr : String → Except String WatchFilter} {r : SubscriptionRow}
    {sub : SubscriptionRecord} (h : r.record fromStr = .ok sub) : sub.subscriptionId = r.subscriptionId := by
  obtain ⟨filter, -, h⟩ := except_bind_ok.1 h
  obtain ⟨keyId, -, h⟩ := except_bind_ok.1 h
  obtain ⟨status, -, h⟩ := except_bind_ok.1 h
  cases h
  rfl

end SubscriptionRow

abbrev SubscriptionRows := List SubscriptionRow

/-- A claim: the reading of the clock and of the head, and the rows that others hold locked. -/
structure ClaimInput where
  nowMs : ℤ
  head : ℕ
  locked : String → Bool

namespace SubscriptionRows

variable (fromStr : String → Except String WatchFilter)

def due (rows : SubscriptionRows) (c : ClaimInput) (limit : ℕ) : List String :=
  let free := rows.filter fun r => r.isDue c.nowMs c.head && !c.locked r.subscriptionId
  ((free.insertionSort (·.nextAttemptAtMs ≤ ·.nextAttemptAtMs)).take limit).map (·.subscriptionId)

def leased (ids : List String) (leaseUntilMs : ℤ) (r : SubscriptionRow) : SubscriptionRow :=
  if r.subscriptionId ∈ ids then { r with leaseUntilMs := some leaseUntilMs } else r

/-- `claim_due`: the update is committed before its rows are decoded. -/
def claimDue (rows : SubscriptionRows) (c : ClaimInput) (leaseUntilMs : ℤ) (limit : ℕ) :
    Except AcdpError (List SubscriptionRecord) × SubscriptionRows :=
  let ids := rows.due c limit
  (((rows.filter (·.subscriptionId ∈ ids)).map (leased ids leaseUntilMs)).mapM (·.record fromStr),
    rows.map (leased ids leaseUntilMs))

def finishAttempt (rows : SubscriptionRows) (id : String) (leaseUntilMs : ℤ) (p : SubscriptionProgress) :
    SubscriptionRows :=
  rows.map fun r =>
    if r.subscriptionId = id ∧ r.leaseUntilMs = some leaseUntilMs then
      { r with
        lastHintedSeq := min (p.lastHintedSeq : ℤ) (2 ^ 63 - 1)
        status := p.status.asStr
        nextAttemptAtMs := p.nextAttemptAtMs
        failingSinceMs := p.failingSinceMs
        attempts := p.attempts
        leaseUntilMs := none }
    else r

/-! ## A pass -/

/-- What came of the attempts of a batch; an attempt that fails or overruns its bound writes nothing. -/
def finishAll (attempt : SubscriptionRecord → Option SubscriptionProgress) (nowMs : ℤ)
    (rows : SubscriptionRows) (claimed : List SubscriptionRecord) : SubscriptionRows :=
  claimed.foldl (fun rows sub =>
    match attempt sub with
    | none => rows
    | some p => rows.finishAttempt sub.subscriptionId (sub.leaseUntilMs.getD (nowMs + leaseMs)) p) rows

end SubscriptionRows

/-- A batch of a pass: the table and the claim on it, and the subscriptions it attempted. -/
structure HintBatch where
  table : SubscriptionRows
  input : ClaimInput
  attempted : List String

def HintBatch.leased (b : HintBatch) : List String := b.table.due b.input claimBatch

/-- `run_hint_pass_with`: at most so many batches, and none after a claim that failed. -/
def hintPass (fromStr : String → Except String WatchFilter)
    (attempt : SubscriptionRecord → Option SubscriptionProgress) :
    ℕ → (ℕ → ClaimInput) → SubscriptionRows → Except AcdpError Unit × List HintBatch × SubscriptionRows
  | 0, _, rows => (.ok (), [], rows)
  | n + 1, inputs, rows =>
    let c := inputs 0
    let claim := rows.claimDue fromStr c (c.nowMs + leaseMs) claimBatch
    match claim.1 with
    | .error e => (.error e, [⟨rows, c, []⟩], claim.2)
    | .ok claimed =>
      let batch : HintBatch := ⟨rows, c, claimed.map (·.subscriptionId)⟩
      let rows := SubscriptionRows.finishAll attempt c.nowMs claim.2 claimed
      if claimed.length < claimBatch then (.ok (), [batch], rows)
      else
        let rest := hintPass fromStr attempt n (fun k => inputs (k + 1)) rows
        (rest.1, batch :: rest.2.1, rest.2.2)

def maxBatchesPerPass : ℕ := 64

/-! ## What a claim returns -/

variable {fromStr : String → Except String WatchFilter}

def Readable (fromStr : String → Except String WatchFilter) (rows : SubscriptionRows) (c : ClaimInput)
    (limit : ℕ) : Prop :=
  ∀ r ∈ rows, r.subscriptionId ∈ rows.due c limit → ∃ sub, r.record fromStr = .ok sub

namespace SubscriptionRows

variable {rows : SubscriptionRows} {c : ClaimInput} {leaseUntilMs : ℤ} {limit : ℕ}

theorem record_leased {ids : List String} {r : SubscriptionRow} :
    (∃ sub, (leased ids leaseUntilMs r).record fromStr = .ok sub) ↔ ∃ sub, r.record fromStr = .ok sub := by
  unfold leased
  split
  · simp only [SubscriptionRow.record, except_bind_ok]
    constructor
    · rintro ⟨sub, filter, hf, keyId, hk, status, hs, -⟩
      exact ⟨_, filter, hf, keyId, hk, status, hs, rfl⟩
    · rintro ⟨sub, filter, hf, keyId, hk, status, hs, -⟩
      exact ⟨_, filter, hf, keyId, hk, status, hs, rfl⟩
  · rfl

/-- **A claim succeeds exactly if all that it leases can be decoded.** -/
theorem claimDue_ok_iff (leaseUntilMs : ℤ) : (∃ claimed, (rows.claimDue fromStr c leaseUntilMs limit).1 = .ok claimed) ↔
    Readable fromStr rows c limit := by
  rw [claimDue, except_mapM_exists, Readable]
  simp only [List.forall_mem_map, List.mem_filter, decide_eq_true_eq, and_imp, record_leased]

theorem map_ids_of_records {rs : SubscriptionRows} {subs : List SubscriptionRecord}
    (h : List.Forall₂ (fun r sub => r.record fromStr = .ok sub) rs subs) :
    subs.map (·.subscriptionId) = rs.map (·.subscriptionId) := by
  induction h with
  | nil => rfl
  | cons hrec _ ih => rw [List.map_cons, List.map_cons, SubscriptionRow.record_id hrec, ih]

theorem leased_id (ids : List String) (leaseUntilMs : ℤ) (r : SubscriptionRow) :
    (leased ids leaseUntilMs r).subscriptionId = r.subscriptionId := by
  unfold leased
  split <;> rfl

theorem due_of_mem {id : String} (h : id ∈ rows.due c limit) :
    ∃ r ∈ rows, r.subscriptionId = id ∧ r.isDue c.nowMs c.head = true := by
  obtain ⟨r, hr, rfl⟩ := List.mem_map.1 h
  obtain ⟨hmem, hdue⟩ := List.mem_filter.1 ((List.mem_insertionSort _).1 (List.mem_of_mem_take hr))
  exact ⟨r, hmem, rfl, (Bool.and_eq_true_iff.1 hdue).1⟩

theorem claimDue_returns {claimed : List SubscriptionRecord}
    (h : (rows.claimDue fromStr c leaseUntilMs limit).1 = .ok claimed) :
    rows.due c limit ⊆ claimed.map (·.subscriptionId) := by
  intro id hid
  rw [map_ids_of_records (except_mapM_ok.1 h), List.map_map]
  obtain ⟨r, hr, rfl, -⟩ := due_of_mem hid
  exact List.mem_map.2 ⟨r, List.mem_filter.2 ⟨hr, decide_eq_true hid⟩, leased_id _ _ r⟩

theorem due_eq_nil (hlater : c.nowMs < leaseUntilMs)
    (h : (rows.claimDue fromStr c leaseUntilMs limit).2 = rows) : rows.due c limit = [] := by
  rw [List.eq_nil_iff_forall_not_mem]
  intro id hid
  obtain ⟨r, hr, rfl, hdue⟩ := due_of_mem hid
  have hsame : leased (rows.due c limit) leaseUntilMs r = r := by
    have hmap : rows.map (leased (rows.due c limit) leaseUntilMs) = rows.map id := h.trans (List.map_id _).symm
    exact List.map_inj_left.1 hmap r hr
  have hlease : r.leaseUntilMs = some leaseUntilMs := by
    rw [← hsame, leased, if_pos hid]
  simp only [SubscriptionRow.isDue, hlease, Option.all_some, Bool.and_eq_true, decide_eq_true_eq] at hdue
  exact absurd hdue.1.2 (not_lt.2 hlater.le)

end SubscriptionRows

/-! ## What one bad row does -/

/-- **A pass attempts what it leases exactly if all of it can be decoded.** -/
theorem hintPass_attempts_iff (attempt : SubscriptionRecord → Option SubscriptionProgress) (n : ℕ)
    (inputs : ℕ → ClaimInput) (rows : SubscriptionRows) :
    ((hintPass fromStr attempt n inputs rows).1 = .ok () ∧
      ∀ b ∈ (hintPass fromStr attempt n inputs rows).2.1, b.leased ⊆ b.attempted) ↔
    ∀ b ∈ (hintPass fromStr attempt n inputs rows).2.1, Readable fromStr b.table b.input claimBatch := by
  induction n generalizing inputs rows with
  | zero => simp [hintPass]
  | succ n ih =>
    cases hclaim : (rows.claimDue fromStr (inputs 0) ((inputs 0).nowMs + leaseMs) claimBatch).1 with
    | error e =>
      have hbad : ¬Readable fromStr rows (inputs 0) claimBatch := by
        rw [← SubscriptionRows.claimDue_ok_iff, hclaim]
        rintro ⟨claimed, h⟩
        cases h
      simp only [hintPass, hclaim, List.mem_singleton, forall_eq, reduceCtorEq, false_and, false_iff]
      exact hbad
    | ok claimed =>
      have hgood : Readable fromStr rows (inputs 0) claimBatch := (SubscriptionRows.claimDue_ok_iff _).1 ⟨_, hclaim⟩
      have hall := SubscriptionRows.claimDue_returns hclaim
      simp only [hintPass, hclaim]
      split
      · simp only [List.mem_singleton, forall_eq]
        exact ⟨fun _ => hgood, fun _ => ⟨trivial, hall⟩⟩
      · simp only [List.forall_mem_cons, hgood, true_and, ← ih]
        constructor
        · rintro ⟨hok, -, hrest⟩
          exact ⟨hok, hrest⟩
        · rintro ⟨hok, hrest⟩
          exact ⟨hok, hall, hrest⟩

/-- **One bad row.**  A claim returns all that it leases, or changes nothing, exactly if every row it
    picks can be decoded; and a pass attempts all that it leases, without an error, exactly if that is
    so at each of its claims. -/
theorem claims_attempted_iff (fromStr : String → Except String WatchFilter) (rows : SubscriptionRows) :
    (∀ (c : ClaimInput) (limit : ℕ),
      ((∃ claimed, (rows.claimDue fromStr c (c.nowMs + leaseMs) limit).1 = .ok claimed ∧
          rows.due c limit ⊆ claimed.map (·.subscriptionId)) ∨
        (rows.claimDue fromStr c (c.nowMs + leaseMs) limit).2 = rows) ↔ Readable fromStr rows c limit) ∧
    ∀ (attempt : SubscriptionRecord → Option SubscriptionProgress) (inputs : ℕ → ClaimInput),
      ((hintPass fromStr attempt maxBatchesPerPass inputs rows).1 = .ok () ∧
        ∀ b ∈ (hintPass fromStr attempt maxBatchesPerPass inputs rows).2.1, b.leased ⊆ b.attempted) ↔
      ∀ b ∈ (hintPass fromStr attempt maxBatchesPerPass inputs rows).2.1,
        Readable fromStr b.table b.input claimBatch := by
  refine ⟨fun c limit => ⟨?_, fun hgood => ?_⟩, fun attempt inputs => hintPass_attempts_iff attempt _ inputs rows⟩
  · rintro (⟨claimed, hok, -⟩ | hsame)
    · exact (SubscriptionRows.claimDue_ok_iff _).1 ⟨claimed, hok⟩
    · intro r _ hdue
      rw [SubscriptionRows.due_eq_nil (by simp only [leaseMs]; omega) hsame] at hdue
      cases hdue
  · obtain ⟨claimed, hok⟩ := (SubscriptionRows.claimDue_ok_iff (c.nowMs + leaseMs)).2 hgood
    exact .inl ⟨claimed, hok, SubscriptionRows.claimDue_returns hok⟩

namespace Sample

def jsonFilter (raw : String) : Except String WatchFilter :=
  if raw = "" then .error "EOF while parsing a value at line 1 column 0" else .ok {}

def storedRow (id filter : String) (nextAttemptAtMs : ℤ) (leaseUntilMs : Option ℤ) : SubscriptionRow where
  subscriptionId := id
  ownerDid := "did:web:a"
  tenantId := none
  filter
  callbackUrl := "https://a.example/hint"
  secretCt := []
  secretKeyId := 1
  status := "active"
  createdAtMs := 0
  lastHintedSeq := 0
  nextAttemptAtMs
  failingSinceMs := none
  attempts := 0
  leaseUntilMs

def pair (leaseUntilMs : Option ℤ) : SubscriptionRows :=
  [storedRow "bad" "" 0 leaseUntilMs, storedRow "good" "\x7b\x7d" 5 leaseUntilMs]

def hundredSeconds (k : ℕ) (_ : ℕ) : ClaimInput := ⟨100000 * (k + 1), 9, fun _ => false⟩

variable (attempt : SubscriptionRecord → Option SubscriptionProgress)

def afterPasses : ℕ → SubscriptionRows
  | 0 => pair none
  | k + 1 => (hintPass jsonFilter attempt maxBatchesPerPass (hundredSeconds k) (afterPasses k)).2.2

variable {leaseUntilMs : Option ℤ} {k : ℕ}
  (hlease : leaseUntilMs.all (· < (hundredSeconds k 0).nowMs) = true)

include hlease

theorem pair_due : (pair leaseUntilMs).due (hundredSeconds k 0) claimBatch = ["bad", "good"] := by
  have hnow : (5 : ℤ) ≤ 100000 * (k + 1) := by omega
  have hzero : (0 : ℤ) ≤ 100000 * (k + 1) := by omega
  have hfilter : (pair leaseUntilMs).filter (fun r => r.isDue (hundredSeconds k 0).nowMs
      (hundredSeconds k 0).head && !(hundredSeconds k 0).locked r.subscriptionId) = pair leaseUntilMs := by
    refine List.filter_eq_self.2 ?_
    simp only [hundredSeconds] at hlease
    simp [pair, SubscriptionRow.isDue, storedRow, hundredSeconds, hlease, hnow, hzero]
  rw [SubscriptionRows.due]
  simp only [hfilter]
  rfl

theorem pair_pass : ∃ e, hintPass jsonFilter attempt maxBatchesPerPass (hundredSeconds k)
    (pair leaseUntilMs) = (.error e, [⟨pair leaseUntilMs, hundredSeconds k 0, []⟩],
      pair (some ((hundredSeconds k 0).nowMs + leaseMs))) := by
  refine ⟨.registryInternal ("stored subscription filter does not parse: " ++
    "EOF while parsing a value at line 1 column 0"), ?_⟩
  rw [maxBatchesPerPass, hintPass]
  simp only [SubscriptionRows.claimDue, pair_due hlease]
  rfl

omit hlease in
theorem pair_passes (k : ℕ) :
    ∃ leaseUntilMs : Option ℤ, afterPasses attempt k = pair leaseUntilMs ∧
      leaseUntilMs.all (· < (hundredSeconds k 0).nowMs) = true := by
  induction k with
  | zero => exact ⟨none, rfl, rfl⟩
  | succ k ih =>
    obtain ⟨leaseUntilMs, htable, hlease⟩ := ih
    obtain ⟨e, hpass⟩ := pair_pass attempt hlease
    refine ⟨some ((hundredSeconds k 0).nowMs + leaseMs), ?_, ?_⟩
    · rw [afterPasses, htable, hpass]
    · rw [Option.all_some, decide_eq_true_eq]
      simp only [hundredSeconds, leaseMs]
      push_cast
      omega

end Sample

/-- Both subscriptions are due, and every pass leases the good one together with the bad one, and
    attempts neither. -/
theorem bad_row_starves_good :
    (Sample.pair none).due (Sample.hundredSeconds 0 0) claimBatch = ["bad", "good"] ∧
    ∀ (attempt : SubscriptionRecord → Option SubscriptionProgress) (k : ℕ),
      ∃ e b rows, hintPass Sample.jsonFilter attempt maxBatchesPerPass (Sample.hundredSeconds k)
          (Sample.afterPasses attempt k) = (.error e, [b], rows) ∧
        b.table = Sample.afterPasses attempt k ∧ "good" ∈ b.leased ∧ b.attempted = [] ∧
        rows ≠ b.table := by
  refine ⟨Sample.pair_due rfl, ?_⟩
  intro attempt k
  obtain ⟨leaseUntilMs, htable, hlease⟩ := Sample.pair_passes attempt k
  obtain ⟨e, hpass⟩ := Sample.pair_pass attempt hlease
  rw [htable]
  refine ⟨e, _, _, hpass, rfl, ?_, rfl, fun heq => ?_⟩
  · rw [HintBatch.leased, Sample.pair_due hlease]
    decide
  · have hsame : some ((Sample.hundredSeconds k 0).nowMs + leaseMs) = leaseUntilMs :=
      congrArg SubscriptionRow.leaseUntilMs (List.cons.inj heq).1
    rw [← hsame, Option.all_some, decide_eq_true_eq] at hlease
    simp only [leaseMs] at hlease
    omega

/-- Two subscriptions that can be decoded are claimed and returned. -/
theorem claims_attempted_iff_sample :
    ∃ claimed, (SubscriptionRows.claimDue Sample.jsonFilter
        [Sample.storedRow "s1" "\x7b\x7d" 0 none, Sample.storedRow "s2" "\x7b\x7d" 5 none]
        ⟨100, 9, fun _ => false⟩ (100 + leaseMs) claimBatch).1 = .ok claimed ∧
      ["s1", "s2"] ⊆ claimed.map (·.subscriptionId) := by
  have hgood : Readable Sample.jsonFilter
      [Sample.storedRow "s1" "\x7b\x7d" 0 none, Sample.storedRow "s2" "\x7b\x7d" 5 none]
      ⟨100, 9, fun _ => false⟩ claimBatch := by
    intro r hr _
    simp only [List.mem_cons, List.not_mem_nil, or_false] at hr
    rcases hr with rfl | rfl <;> exact ⟨_, rfl⟩
  rcases ((claims_attempted_iff _ _).1 _ _).2 hgood with ⟨claimed, hok, hall⟩ | hsame
  · exact ⟨claimed, hok, hall⟩
  · have hlease := congrArg (fun rows : SubscriptionRows => rows.map (·.leaseUntilMs)) hsame
    exact absurd hlease (by decide)

end AcdpRegistry
