/-
  Change-hint subscriptions: their rows (`acdp-registry-store/src/subscriptions.rs`),
  the statements of the SQL backends on them (`subscriptions.rs` of the SQLite and
  Postgres crates), and the progress a delivery attempt writes back.

  Each statement is atomic, so it is a function on the table.
-/
import AcdpRegistry.Core.Changes

namespace AcdpRegistry

inductive SubscriptionStatus
  | active
  | disabled
  deriving DecidableEq, Repr

structure NewSubscription where
  subscriptionId : String
  ownerDid : String
  tenantId : Option String
  filter : WatchFilter
  callbackUrl : String
  secretCt : List UInt8
  secretKeyId : ℕ
  createdAtMs : ℤ
  /-- The feed head at creation. -/
  lastHintedSeq : ℕ

structure SubscriptionRecord where
  subscriptionId : String
  ownerDid : String
  tenantId : Option String
  filter : WatchFilter
  callbackUrl : String
  secretCt : List UInt8
  secretKeyId : ℕ
  status : SubscriptionStatus
  createdAtMs : ℤ
  lastHintedSeq : ℕ
  nextAttemptAtMs : ℤ
  failingSinceMs : Option ℤ
  attempts : ℕ
  /-- A worker's claim. -/
  leaseUntilMs : Option ℤ

/-- Where one delivery attempt leaves a subscription. -/
structure SubscriptionProgress where
  lastHintedSeq : ℕ
  status : SubscriptionStatus
  nextAttemptAtMs : ℤ
  failingSinceMs : Option ℤ
  attempts : ℕ

namespace SubscriptionProgress

/-- Caught up to `seq`, with no failure outstanding. -/
def healthy (seq : ℕ) (nextAttemptAtMs : ℤ) : SubscriptionProgress :=
  ⟨seq, .active, nextAttemptAtMs, none, 0⟩

def disabled (sub : SubscriptionRecord) (nowMs : ℤ) : SubscriptionProgress :=
  ⟨sub.lastHintedSeq, .disabled, nowMs, some (sub.failingSinceMs.getD nowMs), sub.attempts⟩

end SubscriptionProgress

abbrev Subscriptions := List SubscriptionRecord

inductive CreateSubscriptionOutcome
  | created
  | limitReached
  deriving DecidableEq, Repr

namespace Subscriptions

def newRow (new : NewSubscription) : SubscriptionRecord where
  subscriptionId := new.subscriptionId
  ownerDid := new.ownerDid
  tenantId := new.tenantId
  filter := new.filter
  callbackUrl := new.callbackUrl
  secretCt := new.secretCt
  secretKeyId := new.secretKeyId
  status := .active
  createdAtMs := new.createdAtMs
  lastHintedSeq := new.lastHintedSeq
  nextAttemptAtMs := new.createdAtMs
  failingSinceMs := none
  attempts := 0
  leaseUntilMs := none

variable (subs : Subscriptions)

def row? (id : String) : Option SubscriptionRecord :=
  subs.find? (·.subscriptionId = id)

/-- `create_subscription`. -/
def create (new : NewSubscription) (maxPerOwner : ℕ) :
    Except AcdpError CreateSubscriptionOutcome × Subscriptions :=
  if maxPerOwner ≤ subs.countP (·.ownerDid = new.ownerDid) then (.ok .limitReached, subs)
  else if (subs.row? new.subscriptionId).isSome then
    (.error (.registryInternal "subscriptions insert: UNIQUE constraint failed"), subs)
  else (.ok .created, subs ++ [newRow new])

/-- `delete_subscription`. -/
def delete (ownerDid id : String) : Bool × Subscriptions :=
  (subs.any fun r => r.subscriptionId = id && r.ownerDid = ownerDid,
    subs.filter fun r => !(r.subscriptionId = id && r.ownerDid = ownerDid))

def isDue (nowMs : ℤ) (head : ℕ) (r : SubscriptionRecord) : Bool :=
  r.status = .active && r.nextAttemptAtMs ≤ nowMs && r.leaseUntilMs.all (· < nowMs) &&
    r.lastHintedSeq < head

/-- The ids a claim picks; rows that another statement holds (`FOR UPDATE SKIP LOCKED`) are passed
    over. -/
def due (nowMs : ℤ) (head limit : ℕ) (locked : String → Bool) : List String :=
  let rows := subs.filter fun r => isDue nowMs head r && !locked r.subscriptionId
  ((rows.insertionSort (·.nextAttemptAtMs ≤ ·.nextAttemptAtMs)).take limit).map (·.subscriptionId)

/-- `claim_due_subscriptions`: lease due rows and return them. -/
def claimDue (nowMs : ℤ) (head : ℕ) (leaseUntilMs : ℤ) (limit : ℕ) (locked : String → Bool) :
    List SubscriptionRecord × Subscriptions :=
  let ids := subs.due nowMs head limit locked
  let lease (r : SubscriptionRecord) : SubscriptionRecord :=
    if r.subscriptionId ∈ ids then { r with leaseUntilMs := some leaseUntilMs } else r
  (((subs.filter (·.subscriptionId ∈ ids))).map lease, subs.map lease)

/-- The row with an attempt's outcome written, and its lease released. -/
def withProgress (p : SubscriptionProgress) (r : SubscriptionRecord) : SubscriptionRecord :=
  { r with
    lastHintedSeq := p.lastHintedSeq
    status := p.status
    nextAttemptAtMs := p.nextAttemptAtMs
    failingSinceMs := p.failingSinceMs
    attempts := p.attempts
    leaseUntilMs := none }

/-- `finish_subscription_attempt`: write the outcome if the lease is still the row's. -/
def finishAttempt (id : String) (leaseUntilMs : ℤ) (p : SubscriptionProgress) :
    Bool × Subscriptions :=
  let held (r : SubscriptionRecord) : Bool := r.subscriptionId = id && r.leaseUntilMs = some leaseUntilMs
  (subs.any held, subs.map fun r => if held r then withProgress p r else r)

/-! ## Rows by id -/

def UniqueIds : Prop := (subs.map (·.subscriptionId)).Nodup

variable {subs} {id : String} {r : SubscriptionRecord}

theorem row?_id (h : subs.row? id = some r) : r.subscriptionId = id := by
  simpa using List.find?_some h

theorem mem_of_row? (h : subs.row? id = some r) : r ∈ subs := List.mem_of_find?_eq_some h

theorem UniqueIds.row?_of_mem (h : subs.UniqueIds) (hr : r ∈ subs) :
    subs.row? r.subscriptionId = some r := by
  cases hrow : subs.row? r.subscriptionId with
  | none => exact absurd (decide_eq_true rfl) (List.find?_eq_none.1 hrow r hr)
  | some r' =>
    rw [List.inj_on_of_nodup_map h (mem_of_row? hrow) hr (row?_id hrow)]

theorem row?_map {f : SubscriptionRecord → SubscriptionRecord}
    (hf : ∀ r, (f r).subscriptionId = r.subscriptionId) (id : String) :
    Subscriptions.row? (subs.map f) id = (subs.row? id).map f := by
  rw [row?, List.find?_map, row?]
  congr 1
  exact congrFun (congrArg List.find? (funext fun r => by simp [hf])) subs

theorem UniqueIds.map (h : subs.UniqueIds) {f : SubscriptionRecord → SubscriptionRecord}
    (hf : ∀ r, (f r).subscriptionId = r.subscriptionId) : UniqueIds (subs.map f) := by
  rw [UniqueIds, List.map_map]
  exact (List.map_congr_left fun r _ => hf r) ▸ h

theorem UniqueIds.filter (h : subs.UniqueIds) (p : SubscriptionRecord → Bool) :
    UniqueIds (subs.filter p) := (List.filter_sublist.map _).nodup h

theorem UniqueIds.row?_filter (h : subs.UniqueIds) {p : SubscriptionRecord → Bool}
    (hrow : Subscriptions.row? (subs.filter p) id = some r) : subs.row? id = some r := by
  have hmem := List.mem_of_mem_filter (mem_of_row? hrow)
  exact row?_id hrow ▸ h.row?_of_mem hmem

/-! ### Claims -/

theorem due_of_mem {nowMs : ℤ} {head limit : ℕ} {locked : String → Bool}
    (h : id ∈ subs.due nowMs head limit locked) :
    ∃ r ∈ subs, r.subscriptionId = id ∧ isDue nowMs head r = true := by
  obtain ⟨r, hr, rfl⟩ := List.mem_map.1 h
  have hmem := (List.mem_insertionSort _).1 (List.mem_of_mem_take hr)
  obtain ⟨hmem, hdue⟩ := List.mem_filter.1 hmem
  exact ⟨r, hmem, rfl, (Bool.and_eq_true_iff.1 hdue).1⟩

/-- A row a claim at `nowMs` may take: retried by then, and its lease lapsed. -/
structure Free (nowMs : ℤ) (r : SubscriptionRecord) : Prop where
  lease : ∀ l, r.leaseUntilMs = some l → l < nowMs
  next : r.nextAttemptAtMs ≤ nowMs

/-- A row after a claim: as it was, or free and leased. -/
inductive Claimed (nowMs : ℤ) (lease : ℤ) (r : SubscriptionRecord) : SubscriptionRecord → Prop
  | same : Claimed nowMs lease r r
  | leased (hfree : Free nowMs r) : Claimed nowMs lease r { r with leaseUntilMs := some lease }

variable {nowMs lease : ℤ} {head limit : ℕ} {locked : String → Bool}

theorem UniqueIds.free_of_due (h : subs.UniqueIds) (hr : r ∈ subs)
    (hmem : r.subscriptionId ∈ subs.due nowMs head limit locked) : Free nowMs r := by
  obtain ⟨r₀, hr₀, hid, hdue⟩ := due_of_mem hmem
  obtain rfl : r₀ = r := List.inj_on_of_nodup_map h hr₀ hr hid
  simp only [isDue, Bool.and_eq_true, decide_eq_true_eq] at hdue
  exact ⟨fun l hl => by simpa [hl] using hdue.1.2, hdue.1.1.2⟩

theorem claimDue_row (h : subs.UniqueIds) {r' : SubscriptionRecord}
    (hrow : (subs.claimDue nowMs head lease limit locked).2.row? id = some r') :
    ∃ r, subs.row? id = some r ∧ Claimed nowMs lease r r' := by
  unfold claimDue at hrow
  dsimp only at hrow
  rw [row?_map (by intro r; split <;> rfl)] at hrow
  obtain ⟨r, hr, rfl⟩ := Option.map_eq_some_iff.1 hrow
  refine ⟨r, hr, ?_⟩
  split
  · next hmem => exact .leased (h.free_of_due (mem_of_row? hr) hmem)
  · exact .same

theorem claimDue_task (h : subs.UniqueIds) {k : ℕ} {sub : SubscriptionRecord}
    (hk : (subs.claimDue nowMs head lease limit locked).1[k]? = some sub) :
    (subs.claimDue nowMs head lease limit locked).2.row? sub.subscriptionId = some sub ∧
      ∃ r, subs.row? sub.subscriptionId = some r ∧ Free nowMs r ∧
        sub = { r with leaseUntilMs := some lease } := by
  unfold claimDue at hk ⊢
  dsimp only at hk ⊢
  rw [List.getElem?_map] at hk
  obtain ⟨r, hr, rfl⟩ := Option.map_eq_some_iff.1 hk
  obtain ⟨hmem, hid⟩ := List.mem_filter.1 (List.mem_of_getElem? hr)
  have hin : r.subscriptionId ∈ subs.due nowMs head limit locked := by simpa using hid
  rw [if_pos hin]
  refine ⟨?_, r, h.row?_of_mem hmem, h.free_of_due hmem hin, rfl⟩
  rw [row?_map (by intro r; split <;> rfl)]
  show (subs.row? r.subscriptionId).map _ = _
  rw [h.row?_of_mem hmem, Option.map_some, if_pos hin]

theorem claimDue_task_unique (h : subs.UniqueIds) {k k' : ℕ} {sub sub' : SubscriptionRecord}
    (hk : (subs.claimDue nowMs head lease limit locked).1[k]? = some sub)
    (hk' : (subs.claimDue nowMs head lease limit locked).1[k']? = some sub')
    (hid : sub.subscriptionId = sub'.subscriptionId) : k = k' := by
  have hnodup : ((subs.claimDue nowMs head lease limit locked).1.map (·.subscriptionId)).Nodup := by
    unfold claimDue
    dsimp only
    exact (h.filter _).map (by intro r; split <;> rfl)
  have hget : ∀ {j : ℕ} {x : SubscriptionRecord},
      (subs.claimDue nowMs head lease limit locked).1[j]? = some x →
      ((subs.claimDue nowMs head lease limit locked).1.map (·.subscriptionId))[j]? =
        some x.subscriptionId := fun hj => by rw [List.getElem?_map, hj]; rfl
  have hlt : k < ((subs.claimDue nowMs head lease limit locked).1.map (·.subscriptionId)).length := by
    rw [List.length_map]
    exact (List.getElem?_eq_some_iff.1 hk).1
  exact (List.getElem?_inj hlt hnodup).1 (by rw [hget hk, hget hk', hid])

/-! ### The other statements -/

/-- A row after an attempt's write: as it was, or written by the holder of its lease. -/
inductive Finished (id : String) (lease : ℤ) (p : SubscriptionProgress) (r : SubscriptionRecord) :
    SubscriptionRecord → Prop
  | same : Finished id lease p r r
  | written (hid : r.subscriptionId = id) (hlease : r.leaseUntilMs = some lease) :
      Finished id lease p r (withProgress p r)

theorem finishAttempt_row {p : SubscriptionProgress} {id' : String} {r' : SubscriptionRecord}
    (hrow : (subs.finishAttempt id lease p).2.row? id' = some r') :
    ∃ r, subs.row? id' = some r ∧ Finished id lease p r r' := by
  unfold finishAttempt at hrow
  dsimp only at hrow
  rw [row?_map (by intro r; split <;> rfl)] at hrow
  obtain ⟨r, hr, rfl⟩ := Option.map_eq_some_iff.1 hrow
  refine ⟨r, hr, ?_⟩
  split
  · next hheld =>
    simp only [Bool.and_eq_true, decide_eq_true_eq] at hheld
    exact .written hheld.1 hheld.2
  · exact .same

theorem UniqueIds.finishAttempt (h : subs.UniqueIds) (id : String) (lease : ℤ)
    (p : SubscriptionProgress) : (subs.finishAttempt id lease p).2.UniqueIds :=
  h.map (by intro r; split <;> rfl)

theorem UniqueIds.claimDue (h : subs.UniqueIds) (nowMs : ℤ) (head : ℕ) (lease : ℤ) (limit : ℕ)
    (locked : String → Bool) : (subs.claimDue nowMs head lease limit locked).2.UniqueIds :=
  h.map (by intro r; split <;> rfl)

/-- What a create does: nothing, or a row under a free id. -/
inductive Created (subs : Subscriptions) (new : NewSubscription) :
    Except AcdpError CreateSubscriptionOutcome × Subscriptions → Prop
  | refused {o : Except AcdpError CreateSubscriptionOutcome} (ho : o ≠ .ok .created) :
      Created subs new (o, subs)
  | inserted (hfree : subs.row? new.subscriptionId = none) :
      Created subs new (.ok .created, subs ++ [newRow new])

theorem create_cases (subs : Subscriptions) (new : NewSubscription) (maxPerOwner : ℕ) :
    Created subs new (subs.create new maxPerOwner) := by
  unfold create
  split_ifs with hlimit hrow
  · exact .refused (by simp)
  · exact .refused (by simp)
  · exact .inserted (by simpa using hrow)

theorem row?_insert (subs : Subscriptions) (new : NewSubscription) (id : String) :
    row? (subs ++ [newRow new]) id =
      (subs.row? id).or (if new.subscriptionId = id then some (newRow new) else none) := by
  rw [row?, List.find?_append]
  congr 1
  simp only [List.find?_singleton, newRow, decide_eq_true_eq]

theorem insert_row {new : NewSubscription} (hrow : row? (subs ++ [newRow new]) id = some r) :
    subs.row? id = some r ∨ new.subscriptionId = id ∧ newRow new = r := by
  rw [row?_insert, Option.or_eq_some_iff] at hrow
  rcases hrow with hold | ⟨-, hnew⟩
  · exact .inl hold
  · exact .inr (by simpa using hnew)

theorem UniqueIds.insert (h : subs.UniqueIds) {new : NewSubscription}
    (hfree : subs.row? new.subscriptionId = none) : UniqueIds (subs ++ [newRow new]) := by
  unfold UniqueIds
  rw [List.map_append, List.map_singleton]
  refine List.Nodup.append h (List.nodup_singleton _) ?_
  rw [List.disjoint_singleton]
  intro hmem
  obtain ⟨r, hr, hid⟩ := List.mem_map.1 hmem
  have := h.row?_of_mem hr
  rw [hid] at this
  exact absurd (hfree.symm.trans this) (by simp)

end Subscriptions

end AcdpRegistry
