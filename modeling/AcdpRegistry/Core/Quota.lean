/-
  The quota of subscriptions (`create` of `subscriptions.rs` in the SQLite and
  Postgres crates) under any interleaving of the writes of the table.

  A create counts its owner's rows and then inserts, in one transaction.  SQLite
  begins with `BEGIN IMMEDIATE`; Postgres takes an advisory lock on a hash of the
  owner, before the statement that counts.  Deletes take no such lock there: they may
  come between the count and the commit, and only lower the count.

  `commit_count` is the step: past a commit the owner has no more rows than before,
  or no more than the limit of the create that committed.
-/
import AcdpRegistry.Core.HintClaims
import AcdpRegistry.Store.Db

namespace AcdpRegistry

open Lib

/-! ## The writes of the table -/

inductive SubscriptionPart
  /-- The advisory lock of the owners with this hash. -/
  | owner (hash : ℤ)
  | row (subscriptionId : String)
  deriving DecidableEq, Repr

inductive SubscriptionCall
  | create (new : NewSubscription) (maxPerOwner : ℕ)
  | delete (ownerDid subscriptionId : String)
  | claimDue (input : ClaimInput) (leaseUntilMs : ℤ) (limit : ℕ)
  | finishAttempt (subscriptionId : String) (leaseUntilMs : ℤ) (progress : SubscriptionProgress)

inductive SubscriptionReply
  | create (outcome : Except AcdpError CreateSubscriptionOutcome)
  | delete (deleted : Bool)
  | claimDue (claimed : Except AcdpError (List SubscriptionRecord))
  | finishAttempt (written : Bool)

/-- A SQL backend, with its hash, its reading of a filter, and the driver's text for a second row with
    an id. -/
structure SubscriptionStore where
  dialect : Dialect
  hashtext : String → ℤ
  toString : WatchFilter → Except String String
  fromStr : String → Except String WatchFilter
  uniqueViolation : String

abbrev SubscriptionTx := Tx SubscriptionRows SubscriptionPart SubscriptionReply

/-- `COUNT(*)` of the owner's rows, active or disabled. -/
def SubscriptionRows.held (rows : SubscriptionRows) (ownerDid : String) : ℕ :=
  rows.countP (·.ownerDid = ownerDid)

namespace SubscriptionStore

variable (st : SubscriptionStore)

def filterJson (filter : WatchFilter) : Except AcdpError String :=
  (st.toString filter).mapError fun e => .registryInternal s!"subscription filter: {e}"

/-- The locks of a statement that may write, or of `BEGIN IMMEDIATE`. -/
def writeLocks : List (Lock SubscriptionPart) :=
  match st.dialect with
  | .sqlite => [.whole]
  | .postgres => []

/-- The row locks of a write; SQLite has its write lock already. -/
def rowLocks (ids : List String) : List (Lock SubscriptionPart) :=
  match st.dialect with
  | .sqlite => []
  | .postgres => ids.map fun id => .part (.row id)

/-- `SELECT pg_advisory_xact_lock(OWNER_LOCK_NAMESPACE, hashtext(owner))`, on Postgres. -/
def lockOwner (ownerDid : String) : SubscriptionTx Unit :=
  match st.dialect with
  | .sqlite => pure ()
  | .postgres => Tx.query (fun _ => [.part (.owner (st.hashtext ownerDid))]) fun _ => ()

def newRow (new : NewSubscription) (filter : String) : SubscriptionRow where
  subscriptionId := new.subscriptionId
  ownerDid := new.ownerDid
  tenantId := new.tenantId
  filter := filter
  callbackUrl := new.callbackUrl
  secretCt := new.secretCt
  secretKeyId := new.secretKeyId
  status := SubscriptionStatus.active.asStr
  createdAtMs := new.createdAtMs
  lastHintedSeq := min (new.lastHintedSeq : ℤ) (2 ^ 63 - 1)
  nextAttemptAtMs := new.createdAtMs
  failingSinceMs := none
  attempts := 0
  leaseUntilMs := none

/-- The `INSERT`; it says whether the id is taken, and then writes nothing. -/
def insert (row : SubscriptionRow) : SubscriptionTx Bool :=
  Tx.stmt (fun _ => st.rowLocks [row.subscriptionId])
    (fun seen rows => if seen.any (·.subscriptionId = row.subscriptionId) then rows else rows ++ [row])
    fun seen => seen.any (·.subscriptionId = row.subscriptionId)

/-- The start of a create: begin, lock and count. -/
def countHeld (ownerDid : String) : SubscriptionTx ℕ := do
  Tx.query (fun _ => st.writeLocks) fun _ => ()
  st.lockOwner ownerDid
  Tx.query (fun _ => []) (·.held ownerDid)

def create (new : NewSubscription) (maxPerOwner : ℕ) : SubscriptionTx SubscriptionReply := do
  let filter ← Tx.lift ((st.filterJson new.filter).mapError fun e => .create (.error e))
  let held ← st.countHeld new.ownerDid
  -- the transaction is dropped, and with it rolled back
  Tx.refuse (maxPerOwner ≤ held) (.create (.ok .limitReached))
  let taken ← st.insert (newRow new filter)
  Tx.refuse (taken = true)
    (.create (.error (.registryInternal s!"subscriptions insert: {st.uniqueViolation}")))
  return .create (.ok .created)

def isOf (ownerDid id : String) (r : SubscriptionRow) : Bool :=
  r.subscriptionId = id && r.ownerDid = ownerDid

def delete (ownerDid id : String) : SubscriptionTx SubscriptionReply :=
  Tx.stmt
    (fun seen => st.writeLocks ++ st.rowLocks ((seen.filter (isOf ownerDid id)).map (·.subscriptionId)))
    (fun _ rows => rows.filter fun r => !isOf ownerDid id r)
    fun seen => .delete (seen.any (isOf ownerDid id))

def claimDue (input : ClaimInput) (leaseUntilMs : ℤ) (limit : ℕ) : SubscriptionTx SubscriptionReply :=
  Tx.stmt (fun seen => st.writeLocks ++ st.rowLocks (seen.due input limit))
    (fun seen rows => rows.map (SubscriptionRows.leased (seen.due input limit) leaseUntilMs))
    fun seen => .claimDue (seen.claimDue st.fromStr input leaseUntilMs limit).1

def finishAttempt (id : String) (leaseUntilMs : ℤ) (p : SubscriptionProgress) :
    SubscriptionTx SubscriptionReply :=
  Tx.stmt (fun _ => st.writeLocks ++ st.rowLocks [id])
    (fun _ rows => rows.finishAttempt id leaseUntilMs p)
    fun seen => .finishAttempt
      (seen.any fun r => r.subscriptionId = id && r.leaseUntilMs = some leaseUntilMs)

def body : SubscriptionCall → SubscriptionTx SubscriptionReply
  | .create new maxPerOwner => st.create new maxPerOwner
  | .delete ownerDid id => st.delete ownerDid id
  | .claimDue input leaseUntilMs limit => st.claimDue input leaseUntilMs limit
  | .finishAttempt id leaseUntilMs p => st.finishAttempt id leaseUntilMs p

abbrev bodies {ι : Type} (calls : ι → SubscriptionCall) (i : ι) : SubscriptionTx SubscriptionReply :=
  st.body (calls i)

/-! ## What a create has seen -/

def quotaLock (ownerDid : String) : Lock SubscriptionPart :=
  match st.dialect with
  | .sqlite => .whole
  | .postgres => .part (.owner (st.hashtext ownerDid))

theorem quotaLock_conflict (ownerDid : String) :
    (st.quotaLock ownerDid).Conflict (st.quotaLock ownerDid) := by
  unfold quotaLock
  split
  · trivial
  · rfl

variable {st} {views : ℕ → SubscriptionRows} {s : Local SubscriptionRows SubscriptionPart}
  {new : NewSubscription} {maxPerOwner : ℕ}

/-- The start of a create: from statement `lock` on a lock is held, then `held` is counted; nothing is
    written yet. -/
structure Counted (st : SubscriptionStore) (views : ℕ → SubscriptionRows) (ownerDid : String) (held : ℕ)
    (s : Local SubscriptionRows SubscriptionPart) : Prop where
  locked : ∃ lock count, lock ≤ count ∧ count < s.stmts ∧ (lock, st.quotaLock ownerDid) ∈ s.locks ∧
    held = (views count).held ownerDid
  unwritten : s.own = id

theorem countHeld_ok {ownerDid : String} {held : ℕ}
    (h : (st.countHeld ownerDid).run views {} = (.ok held, s)) : Counted st views ownerDid held s := by
  obtain ⟨_, s₁, h₁, h⟩ := Tx.bind_ok.1 h
  obtain ⟨-, rfl⟩ := Tx.query_ok.1 h₁
  obtain ⟨_, s₂, h₂, h⟩ := Tx.bind_ok.1 h
  obtain ⟨rfl, rfl⟩ := Tx.query_ok.1 h
  cases hd : st.dialect with
  | sqlite =>
    simp only [lockOwner, hd] at h₂
    obtain ⟨-, rfl⟩ := Tx.pure_ok.1 h₂
    refine ⟨⟨0, 1, Nat.zero_le _, ?_, ?_, rfl⟩, rfl⟩
    · simp [Local.next]
    · simp [Local.next, writeLocks, quotaLock, hd]
  | postgres =>
    simp only [lockOwner, hd] at h₂
    obtain ⟨-, rfl⟩ := Tx.query_ok.1 h₂
    refine ⟨⟨1, 2, by omega, ?_, ?_, rfl⟩, rfl⟩
    · simp [Local.next]
    · simp [Local.next, writeLocks, quotaLock, hd]

theorem not_countHeld_error {ownerDid : String} {r : SubscriptionReply} :
    ¬(st.countHeld ownerDid).run views {} = (.error r, s) := by
  intro h
  rcases Tx.bind_error.1 h with h | ⟨_, s₁, -, h⟩
  · exact Tx.not_stmt_error h
  rcases Tx.bind_error.1 h with h | ⟨_, s₂, -, h⟩
  · unfold lockOwner at h
    split at h
    · exact absurd h (by simp [Tx.pure_run])
    · exact Tx.not_stmt_error h
  · exact Tx.not_stmt_error h

theorem create_ok {reply : SubscriptionReply}
    (h : (st.create new maxPerOwner).run views {} = (.ok reply, s)) :
    ∃ row, row.ownerDid = new.ownerDid ∧ s.own = (· ++ [row]) ∧
      ∃ lock count, lock ≤ count ∧ (lock, st.quotaLock new.ownerDid) ∈ s.locks ∧
        (views count).held new.ownerDid < maxPerOwner := by
  obtain ⟨filter, s₀, h₀, h⟩ := Tx.bind_ok.1 h
  obtain ⟨-, rfl⟩ := Tx.lift_ok.1 h₀
  obtain ⟨held, s₁, h₁, h⟩ := Tx.bind_ok.1 h
  obtain ⟨⟨lock, count, hle, -, hlock, rfl⟩, hown⟩ := countHeld_ok h₁
  obtain ⟨_, s₂, h₂, h⟩ := Tx.bind_ok.1 h
  obtain ⟨hlt, rfl⟩ := Tx.refuse_ok.1 h₂
  obtain ⟨taken, s₃, h₃, h⟩ := Tx.bind_ok.1 h
  have hgrows := (Tx.grows_of_run h₃).locks hlock
  obtain ⟨htaken, rfl⟩ := Tx.stmt_ok.1 h₃
  obtain ⟨_, s₄, h₄, h⟩ := Tx.bind_ok.1 h
  obtain ⟨hfree, rfl⟩ := Tx.refuse_ok.1 h₄
  obtain ⟨-, rfl⟩ := Tx.pure_ok.1 h
  refine ⟨newRow new filter, rfl, ?_, lock, count, hle, hgrows, not_le.1 hlt⟩
  funext rows
  simp only [Local.next, hown, Function.comp_apply, id]
  rw [hown] at htaken
  rw [← htaken] at hfree
  exact if_neg hfree

theorem create_refused
    (h : (st.create new maxPerOwner).run views {} = (.error (.create (.ok .limitReached)), s)) :
    ∃ count < s.stmts, maxPerOwner ≤ (views count).held new.ownerDid := by
  rcases Tx.bind_error.1 h with h | ⟨filter, s₀, h₀, h⟩
  · obtain ⟨h, -⟩ := Tx.lift_error.1 h
    cases hf : st.filterJson new.filter with
    | ok filter => simp [hf, Except.mapError] at h
    | error e => simp [hf, Except.mapError] at h
  obtain ⟨-, rfl⟩ := Tx.lift_ok.1 h₀
  rcases Tx.bind_error.1 h with h | ⟨held, s₁, h₁, h⟩
  · exact absurd h not_countHeld_error
  obtain ⟨⟨lock, count, -, hcount, -, rfl⟩, -⟩ := countHeld_ok h₁
  rcases Tx.bind_error.1 h with h | ⟨_, s₂, h₂, h⟩
  · obtain ⟨hle, -, rfl⟩ := Tx.refuse_error.1 h
    exact ⟨count, hcount, hle⟩
  -- past the count, the only answer left after a rollback is the insert's error
  rcases Tx.bind_error.1 h with h | ⟨taken, s₃, -, h⟩
  · exact absurd h Tx.not_stmt_error
  rcases Tx.bind_error.1 h with h | ⟨_, s₄, -, h⟩
  · obtain ⟨-, h, -⟩ := Tx.refuse_error.1 h
    cases h
  · exact absurd h (by simp [Tx.pure_run])

/-! ## What a commit does to an owner's rows -/

section Count

variable {rows : SubscriptionRows} {ownerDid : String}

theorem held_map {f : SubscriptionRow → SubscriptionRow} (hf : ∀ r, (f r).ownerDid = r.ownerDid) :
    SubscriptionRows.held (rows.map f) ownerDid = rows.held ownerDid := by
  simp [SubscriptionRows.held, List.countP_map, Function.comp_def, hf]

theorem held_filter_le (p : SubscriptionRow → Bool) :
    SubscriptionRows.held (rows.filter p) ownerDid ≤ rows.held ownerDid :=
  List.filter_sublist.countP_le

theorem held_append (row : SubscriptionRow) :
    SubscriptionRows.held (rows ++ [row]) ownerDid =
      rows.held ownerDid + if row.ownerDid = ownerDid then 1 else 0 := by
  simp [SubscriptionRows.held, List.countP_append, List.countP_singleton]

end Count

theorem own_held_le {call : SubscriptionCall} {ownerDid : String} {reply : SubscriptionReply}
    (hcall : ∀ new maxPerOwner, call = .create new maxPerOwner → new.ownerDid ≠ ownerDid)
    (h : (st.body call).run views {} = (.ok reply, s)) (rows : SubscriptionRows) :
    (s.own rows).held ownerDid ≤ rows.held ownerDid := by
  cases call with
  | create new maxPerOwner =>
    obtain ⟨row, howner, hown, -⟩ := create_ok h
    have hne := hcall new maxPerOwner rfl
    rw [hown, held_append, howner, if_neg hne]
    exact le_rfl
  | delete o id =>
    simp only [body, delete] at h
    obtain ⟨-, rfl⟩ := Tx.stmt_ok.1 h
    exact held_filter_le _
  | claimDue input leaseUntilMs limit =>
    simp only [body, claimDue] at h
    obtain ⟨-, rfl⟩ := Tx.stmt_ok.1 h
    refine (held_map fun r => ?_).le
    unfold SubscriptionRows.leased
    split <;> rfl
  | finishAttempt id leaseUntilMs p =>
    simp only [body, finishAttempt] at h
    obtain ⟨-, rfl⟩ := Tx.stmt_ok.1 h
    refine (held_map fun r => ?_).le
    split <;> rfl

/-! ## Interleavings -/

variable {ι : Type} {calls : ι → SubscriptionCall}

theorem bodies_create {i : ι} {m : ℕ} (hi : calls i = .create new m) :
    st.bodies calls i = st.create new m := by
  rw [bodies, hi, body]

variable (S : Schedule (st.bodies calls))

theorem held_le_of_lock {i : ι} {n lock : ℕ} (hn : S.commits n = some i)
    (hlock : (lock, st.quotaLock new.ownerDid) ∈ (S.done (st.bodies calls) i).locks) {m : ℕ}
    (hm : S.moment i lock ≤ m) (hmn : m ≤ n) :
    (S.db n).held new.ownerDid ≤ (S.db m).held new.ownerDid := by
  refine S.rel (R := fun rows rows' => rows'.held new.ownerDid ≤ rows.held new.ownerDid)
    (fun _ => le_rfl) (fun _ _ _ h h' => h'.trans h) hmn fun t j hmt htn hj => ?_
  obtain ⟨a, hrun⟩ := S.run_of_commit hj
  rw [S.db_of_commit hj]
  refine own_held_le (fun new' m' hcall howner => ?_) hrun _
  rw [bodies_create hcall] at hrun
  obtain ⟨_, -, -, lock', -, -, hlock', -⟩ := create_ok hrun
  rw [howner] at hlock'
  exact S.not_conflict hlock (hm.trans hmt) (htn.trans_eq (S.finish_eq hn).symm) hj hlock'
    (st.quotaLock_conflict _)

/-- **A commit keeps the quota.** -/
theorem commit_count {ownerDid : String} {limit : ℕ}
    (hlimit : ∀ i new maxPerOwner, calls i = .create new maxPerOwner → new.ownerDid = ownerDid →
      maxPerOwner ≤ limit) {n : ℕ} {i : ι} (hn : S.commits n = some i) :
    (S.db (n + 1)).held ownerDid ≤ (S.db n).held ownerDid ∨ (S.db (n + 1)).held ownerDid ≤ limit := by
  obtain ⟨a, hrun⟩ := S.run_of_commit hn
  by_cases hcall : ∀ new maxPerOwner, calls i = .create new maxPerOwner → new.ownerDid ≠ ownerDid
  · rw [S.db_of_commit hn]
    exact .inl (own_held_le hcall hrun _)
  push Not at hcall
  obtain ⟨new, maxPerOwner, hi, rfl⟩ := hcall
  right
  rw [bodies_create hi] at hrun
  obtain ⟨row, howner, hown, lock, count, hle, hlock, hlt⟩ := create_ok hrun
  have hheld := held_le_of_lock S hn hlock (S.ordered i hle) (S.moment_le hn count)
  have hmax := hlimit i new maxPerOwner hi rfl
  rw [S.db_of_commit hn, hown, held_append, if_pos howner]
  omega

end SubscriptionStore

/-- **The quota.**  In every interleaving of creates, deletes and other writes, with any call dropped
    at any statement: an owner never has more rows than the limit (or than at first), and a create is
    refused for the quota only if the owner has that many at a moment of the call. -/
theorem subscription_quota (st : SubscriptionStore) {ι : Type} (calls : ι → SubscriptionCall)
    (S : Schedule (st.bodies calls)) :
    (∀ ownerDid limit, (∀ i new maxPerOwner, calls i = .create new maxPerOwner →
        new.ownerDid = ownerDid → maxPerOwner ≤ limit) →
      ∀ m n, m ≤ n → (S.db n).held ownerDid ≤ max limit ((S.db m).held ownerDid)) ∧
    ∀ i new maxPerOwner e, calls i = .create new maxPerOwner →
      S.RefusedBy i (.create (.ok .limitReached)) e →
      ∃ t, S.moment i 0 ≤ t ∧ t ≤ e ∧ maxPerOwner ≤ (S.db t).held new.ownerDid := by
  constructor
  · intro ownerDid limit hlimit m n hmn
    induction n, hmn using Nat.le_induction with
    | base => exact le_max_right _ _
    | succ n hmn ih =>
      cases hc : S.commits n with
      | none => rw [S.idle n hc]; exact ih
      | some i =>
        rcases SubscriptionStore.commit_count S hlimit hc with h | h
        · exact h.trans ih
        · exact h.trans (le_max_left _ _)
  · rintro i new maxPerOwner e hi ⟨hres, hmade⟩
    have hrun : (st.bodies calls i).run (fun k => S.db (S.moment i k)) {} =
        (.error (.create (.ok .limitReached)), S.done (st.bodies calls) i) := Prod.ext hres rfl
    rw [SubscriptionStore.bodies_create hi] at hrun
    obtain ⟨count, hcount, hheld⟩ := SubscriptionStore.create_refused hrun
    exact ⟨_, S.ordered i (Nat.zero_le count), hmade count hcount, hheld⟩

namespace Sample

def quotaStore : SubscriptionStore where
  dialect := .postgres
  hashtext _ := 0
  toString _ := .ok "\x7b\x7d"
  fromStr _ := .ok {}
  uniqueViolation := "duplicate key value violates unique constraint"

def quotaCalls (i : Fin 2) : SubscriptionCall :=
  .create ⟨s!"sub-{i}", "did:web:a", none, {}, "https://a/hook", [], 1, 0, 0⟩ 1

def quotaSchedule : Schedule (quotaStore.bodies quotaCalls) := Schedule.serial _ []

end Sample

open Sample in
theorem subscription_quota_sample :
    (quotaSchedule.db 1).held "did:web:a" = 1 ∧ (quotaSchedule.db 2).held "did:web:a" ≤ 1 ∧
      ∃ t, quotaSchedule.moment 1 0 ≤ t ∧ t ≤ 1 ∧ 1 ≤ (quotaSchedule.db t).held "did:web:a" := by
  have hquota := subscription_quota quotaStore quotaCalls quotaSchedule
  refine ⟨rfl, ?_, ?_⟩
  · refine hquota.1 "did:web:a" 1 ?_ 0 2 (by omega)
    intro i new maxPerOwner hi _
    cases hi
    exact le_rfl
  · refine hquota.2 1 _ 1 1 rfl ⟨rfl, fun k _ => le_rfl⟩

end AcdpRegistry
