/-
  Retries of change hints, and when a subscription is disabled.

  A run of failures is kept in two columns of the row, when it began and how many it has
  been.  `row_change` says what one statement can do to a row; the columns tell of the run
  (`failing_since`) because nothing but the end of an attempt writes them.
-/
import AcdpRegistry.Core.Leases

namespace AcdpRegistry

variable {ending : HintEnding}

namespace LeaseHistory

variable {h : LeaseHistory} {n m : ℕ} {id : String} {r r' sub : SubscriptionRecord}

/-- Statement `n` is the end of an attempt at the row, and takes effect. -/
def Ends (h : LeaseHistory) (n : ℕ) (id : String) (readAt : ℕ) (ending : HintEnding) : Prop :=
  (∃ batch, h.event n = .finish batch id readAt ending) ∧ (h.run (n + 1)).subs ≠ (h.run n).subs

/-- From statement `n₀` on and before statement `n` the row stays, and every attempt that ends has
    failed. -/
def Failing (h : LeaseHistory) (n₀ n : ℕ) (id : String) : Prop :=
  ∀ k, n₀ ≤ k → k < n → ¬h.Deletes k id ∧ ∀ readAt ending, h.Ends k id readAt ending → ending = .failed

/-! ## What a statement does to a row -/

/-- A row after a statement that keeps it: written by the end of an attempt, or with another lease at
    most. -/
inductive RowStep (h : LeaseHistory) (n : ℕ) (id : String) (r : SubscriptionRecord) :
    SubscriptionRecord → Prop
  | leased (lease : Option ℤ) (hno : ∀ readAt ending, ¬h.Ends n id readAt ending) :
      RowStep h n id r { r with leaseUntilMs := lease }
  | ended (readAt : ℕ) (ending : HintEnding) (hend : h.Ends n id readAt ending) :
      RowStep h n id r (Subscriptions.withProgress (ending.progress r (h.clock readAt)) r)

theorem RowStep.same (hno : ∀ readAt ending, ¬h.Ends n id readAt ending) : RowStep h n id r r :=
  .leased r.leaseUntilMs hno

inductive RowChange (h : LeaseHistory) (n : ℕ) (id : String) :
    Option SubscriptionRecord → Option SubscriptionRecord → Prop
  | absent : RowChange h n id none none
  | created (new : NewSubscription) : RowChange h n id none (some (Subscriptions.newRow new))
  | deleted (r : SubscriptionRecord) (hdel : h.Deletes n id) : RowChange h n id (some r) none
  | kept {r r' : SubscriptionRecord} (hstep : RowStep h n id r r') : RowChange h n id (some r) (some r')

theorem RowChange.same (hno : ∀ readAt ending, ¬h.Ends n id readAt ending) :
    ∀ row, RowChange h n id row row
  | none => .absent
  | some _ => .kept (.same hno)

theorem not_ends {event : LeaseEvent} (hev : h.event n = event)
    (hno : ∀ batch readAt ending, event ≠ .finish batch id readAt ending) :
    ∀ readAt ending, ¬h.Ends n id readAt ending :=
  fun _ _ ⟨⟨_, hev'⟩, _⟩ => hno _ _ _ (hev.symm.trans hev')

theorem row_change (hvalid : h.Valid) (n : ℕ) (id : String) :
    RowChange h n id ((h.run n).subs.row? id) ((h.run (n + 1)).subs.row? id) := by
  have hinv := leaseInv hvalid n
  cases hev : h.event n with
  | claim readAt head limit locked =>
    have hno : ∀ readAt ending, ¬h.Ends n id readAt ending := not_ends hev (by simp)
    rw [(run_claim hev).1, Subscriptions.claimDue]
    dsimp only
    rw [Subscriptions.row?_map (by intro r; split <;> rfl)]
    cases (h.run n).subs.row? id with
    | none => exact .absent
    | some r =>
      refine .kept ?_
      dsimp only
      split
      · exact .leased _ hno
      · exact .same hno
  | finish batch id' readAt ending =>
    by_cases hchanged : (h.run (n + 1)).subs = (h.run n).subs
    · rw [hchanged]
      exact .same (fun _ _ hend => hend.2 hchanged) _
    by_cases hid : id' = id
    · subst hid
      obtain ⟨sub, -, hrow, hrow', -⟩ := hvalid.finish_last hev hchanged
      rw [hrow, hrow']
      exact .kept (.ended readAt ending ⟨⟨batch, hev⟩, hchanged⟩)
    · have hno : ∀ readAt ending, ¬h.Ends n id readAt ending := not_ends hev (by simp [hid])
      obtain ⟨sub, l, -, -, hsubs⟩ := (run_finish hinv hev).resolve_left fun h => hchanged h.2
      rw [hsubs, Subscriptions.finishAttempt]
      dsimp only
      rw [Subscriptions.row?_map (by intro r; split <;> rfl)]
      cases hr : (h.run n).subs.row? id with
      | none => exact .absent
      | some r =>
        have hother : r.subscriptionId ≠ id' := fun he => hid (he.symm.trans (Subscriptions.row?_id hr))
        rw [Option.map_some, if_neg (by simp [hother])]
        exact .kept (.same hno)
  | create new maxPerOwner =>
    have hno : ∀ readAt ending, ¬h.Ends n id readAt ending := not_ends hev (by simp)
    rcases run_create hev with hsubs | ⟨-, hsubs⟩
    · rw [hsubs]
      exact .same hno _
    · rw [hsubs, Subscriptions.row?_insert]
      cases (h.run n).subs.row? id with
      | some r => exact .same hno _
      | none =>
        rw [Option.none_or]
        split
        · exact .created new
        · exact .absent
  | delete ownerDid id' =>
    have hno : ∀ readAt ending, ¬h.Ends n id readAt ending := not_ends hev (by simp)
    rw [run_delete hev]
    cases hr' : ((h.run n).subs.delete ownerDid id').2.row? id with
    | some r' =>
      rw [hinv.ids.row?_filter hr']
      exact .same hno _
    | none =>
      cases hr : (h.run n).subs.row? id with
      | none => exact .absent
      | some r =>
        -- a row that matches no delete is still there
        have hmem := Subscriptions.mem_of_row? hr
        by_cases hmatch : (r.subscriptionId = id' && r.ownerDid = ownerDid) = true
        · have hid : id = id' := by
            simp only [Bool.and_eq_true, decide_eq_true_eq] at hmatch
            exact (Subscriptions.row?_id hr).symm.trans hmatch.1
          exact .deleted r ⟨ownerDid, hid ▸ hev, List.any_eq_true.2 ⟨r, hmem, hid ▸ hmatch⟩⟩
        · have hmem' : r ∈ ((h.run n).subs.delete ownerDid id').2 :=
            List.mem_filter.2 ⟨hmem, by rw [Bool.eq_false_iff.2 hmatch]; rfl⟩
          have hkept := (hinv.ids.filter _).row?_of_mem hmem'
          rw [Subscriptions.row?_id hr] at hkept
          cases hr'.symm.trans hkept

theorem task?_active (hvalid : h.Valid) (ht : (h.run n).task? m id = some sub) : sub.status = .active := by
  have hlt := (leaseInv hvalid n).lt_of_task? ht
  rw [task?_stable hlt] at ht
  obtain ⟨readAt, head, limit, locked, hev, -⟩ := (leaseInv hvalid (m + 1)).lease ht
  have hids := (leaseInv hvalid m).ids
  rw [LeaseState.task?, (run_claim hev).2, Function.update_self] at ht
  obtain ⟨r, hr, rfl⟩ := List.mem_map.1 (List.mem_of_find?_eq_some ht)
  obtain ⟨hmem, hin⟩ := List.mem_filter.1 hr
  have hin := of_decide_eq_true hin
  obtain ⟨r₀, hr₀, hid, hdue⟩ := Subscriptions.due_of_mem hin
  obtain rfl : r₀ = r := List.inj_on_of_nodup_map hids hr₀ hmem hid
  simp only [Subscriptions.isDue, Bool.and_eq_true, decide_eq_true_eq] at hdue
  rw [if_pos hin]
  exact hdue.1.1.1

theorem Ends.ending_eq {readAt readAt' : ℕ} {ending' : HintEnding}
    (he : h.Ends n id readAt ending) (he' : h.Ends n id readAt' ending') :
    readAt = readAt' ∧ ending = ending' := by
  obtain ⟨⟨batch, hev⟩, -⟩ := he
  obtain ⟨⟨batch', hev'⟩, -⟩ := he'
  cases hev.symm.trans hev'
  exact ⟨rfl, rfl⟩

theorem Ends.rows (hvalid : h.Valid) {readAt : ℕ} (he : h.Ends n id readAt ending) :
    ∃ r, (h.run n).subs.row? id = some r ∧ r.status = .active ∧ (h.run (n + 1)).subs.row? id =
      some (Subscriptions.withProgress (ending.progress r (h.clock readAt)) r) := by
  obtain ⟨⟨batch, hev⟩, hchanged⟩ := he
  obtain ⟨sub, ht, hrow, hrow', -⟩ := hvalid.finish_last hev hchanged
  exact ⟨sub, hrow, task?_active hvalid ht, hrow'⟩

/-! ## The run of failures -/

theorem retry_active (r : SubscriptionRecord) (nowMs : ℤ)
    (hactive : (retryOrDisable r nowMs).status = .active) :
    retryOrDisable r nowMs = ⟨r.lastHintedSeq, .active,
      nowMs + retryDelayMs (min (r.attempts + 1) (2 ^ 32 - 1)), some (r.failingSinceMs.getD nowMs),
      min (r.attempts + 1) (2 ^ 32 - 1)⟩ := by
  unfold retryOrDisable at hactive ⊢
  dsimp only at hactive ⊢
  split at hactive
  · cases hactive
  · next hlong => rw [if_neg hlong]

theorem retry_disabled (r : SubscriptionRecord) (nowMs : ℤ)
    (hdisabled : (retryOrDisable r nowMs).status = .disabled) :
    ∃ t, r.failingSinceMs = some t ∧ disableAfterMs ≤ nowMs - t := by
  unfold retryOrDisable at hdisabled
  dsimp only at hdisabled
  split at hdisabled
  · next hlong =>
    have hlong := of_decide_eq_true hlong
    cases hsince : r.failingSinceMs with
    | none =>
      rw [hsince, Option.getD_none, sub_self] at hlong
      exact absurd hlong (by decide)
    | some t =>
      rw [hsince] at hlong
      exact ⟨t, rfl, hlong⟩
  · cases hdisabled

theorem Failing.succ {n₀ : ℕ} (hrun : h.Failing n₀ n id) (hdel : ¬h.Deletes n id)
    (hends : ∀ readAt ending, h.Ends n id readAt ending → ending = .failed) : h.Failing n₀ (n + 1) id := by
  intro k hk hlt
  rcases Nat.lt_succ_iff_lt_or_eq.1 hlt with hlt | rfl
  · exact hrun k hk hlt
  · exact ⟨hdel, hends⟩

/-- **The column tells when the run began**: at a failed attempt since which every one has failed. -/
theorem failing_since (hvalid : h.Valid) {t : ℤ} (hr : (h.run n).subs.row? id = some r)
    (hactive : r.status = .active) (hsince : r.failingSinceMs = some t) :
    ∃ n₀ readAt₀, n₀ < n ∧ h.Ends n₀ id readAt₀ .failed ∧ h.clock readAt₀ = t ∧ h.Failing n₀ n id := by
  induction n generalizing r with
  | zero => cases hr
  | succ n ih =>
    have hdel := (leaseInv hvalid n).not_deletes hr
    have hchange := row_change hvalid n id
    rw [hr] at hchange
    generalize hr₀ : (h.run n).subs.row? id = old at hchange
    cases hchange with
    | created new => cases hsince
    | @kept r₀ _ hstep =>
      cases hstep with
      | leased lease hno =>
        obtain ⟨n₀, readAt₀, hlt, hend, ht, hrun⟩ := ih hr₀ hactive hsince
        exact ⟨n₀, readAt₀, Nat.lt_succ_of_lt hlt, hend, ht,
          hrun.succ hdel fun readAt ending he => absurd he (hno readAt ending)⟩
      | ended readAt ending hend =>
        have hends : ∀ readAt' ending', h.Ends n id readAt' ending' → ending' = ending :=
          fun _ _ he => (he.ending_eq hend).2
        cases ending with
        | disabled => cases hactive
        | nothingVisible pos => cases hsince
        | delivered head => cases hsince
        | failed =>
          have hretry := retry_active r₀ (h.clock readAt) hactive
          have hsince : (retryOrDisable r₀ (h.clock readAt)).failingSinceMs = some t := hsince
          rw [hretry] at hsince
          cases hold : r₀.failingSinceMs with
          | none =>
            simp only [hold, Option.getD_none, Option.some.injEq] at hsince
            refine ⟨n, readAt, Nat.lt_succ_self n, hend, hsince, ?_⟩
            exact Failing.succ (fun k hk hlt => absurd hk (not_le.2 hlt)) hdel hends
          | some t₀ =>
            simp only [hold, Option.getD_some, Option.some.injEq] at hsince
            subst hsince
            obtain ⟨r₁, hr₁, hactive₁, -⟩ := hend.rows hvalid
            cases hr₀.symm.trans hr₁
            obtain ⟨n₀, readAt₀, hlt, hend₀, ht, hrun⟩ := ih hr₀ hactive₁ hold
            exact ⟨n₀, readAt₀, Nat.lt_succ_of_lt hlt, hend₀, ht, hrun.succ hdel hends⟩

/-! ## The delays -/

theorem retryDelayMs_mono {a b : ℕ} (hab : a ≤ b) : retryDelayMs a ≤ retryDelayMs b := by
  unfold retryDelayMs retryBaseMs
  refine min_le_min_right _ (Int.mul_le_mul_of_nonneg_left ?_ (by decide))
  exact pow_le_pow_right₀ (by decide) (min_le_min_right 16 (Nat.sub_le_sub_right hab 1))

theorem retryDelayMs_bounds (a : ℕ) : retryBaseMs ≤ retryDelayMs a ∧ retryDelayMs a ≤ retryCapMs := by
  refine ⟨?_, min_le_right _ _⟩
  have hzero : retryDelayMs 0 = retryBaseMs := by decide
  rw [← hzero]
  exact retryDelayMs_mono (Nat.zero_le a)

theorem attempts_le (hvalid : h.Valid) {a n₁ : ℕ} (ha : a ≤ 2 ^ 32 - 1) (hr : (h.run n₁).subs.row? id = some r)
    (hle : a ≤ r.attempts) (hmn : n₁ ≤ m) (hrun : h.Failing n₁ m id) :
    ∃ r', (h.run m).subs.row? id = some r' ∧ a ≤ r'.attempts := by
  induction m, hmn using Nat.le_induction with
  | base => exact ⟨r, hr, hle⟩
  | succ m hmn ih =>
    obtain ⟨r₀, hr₀, hle₀⟩ := ih fun k hk hlt => hrun k hk (Nat.lt_succ_of_lt hlt)
    obtain ⟨hdel, hends⟩ := hrun m hmn (Nat.lt_succ_self m)
    have hchange := row_change hvalid m id
    rw [hr₀] at hchange
    generalize (h.run (m + 1)).subs.row? id = row at hchange ⊢
    cases hchange with
    | deleted _ hdel' => exact absurd hdel' hdel
    | @kept _ r' hstep =>
    refine ⟨r', rfl, ?_⟩
    cases hstep with
    | leased lease hno => exact hle₀
    | ended readAt ending hend =>
      obtain rfl := hends readAt ending hend
      show a ≤ (retryOrDisable r₀ (h.clock readAt)).attempts
      unfold retryOrDisable
      dsimp only
      split
      · exact hle₀
      · exact le_min (hle₀.trans (Nat.le_succ _)) ha

/-- A failed attempt at statement `n` is tried again after `delay`. -/
def Retried (h : LeaseHistory) (n : ℕ) (id : String) (delay : ℤ) : Prop :=
  ∃ readAt r, h.Ends n id readAt .failed ∧ (h.run (n + 1)).subs.row? id = some r ∧ r.status = .active ∧
    r.nextAttemptAtMs = h.clock readAt + delay

theorem Retried.attempts (hvalid : h.Valid) {delay : ℤ} (hretried : h.Retried n id delay) :
    ∃ r r', (h.run n).subs.row? id = some r ∧ (h.run (n + 1)).subs.row? id = some r' ∧
      r'.attempts = min (r.attempts + 1) (2 ^ 32 - 1) ∧ delay = retryDelayMs r'.attempts := by
  obtain ⟨readAt, r', hend, hr', hactive, hnext⟩ := hretried
  obtain ⟨r, hr, -, hwritten⟩ := hend.rows hvalid
  cases hr'.symm.trans hwritten
  have hretry := retry_active r (h.clock readAt) hactive
  refine ⟨r, _, hr, hwritten, ?_, ?_⟩
  · exact congrArg SubscriptionProgress.attempts hretry
  · have hnext : (retryOrDisable r (h.clock readAt)).nextAttemptAtMs = h.clock readAt + delay := hnext
    show delay = retryDelayMs (retryOrDisable r (h.clock readAt)).attempts
    rw [hretry] at hnext ⊢
    exact (Int.add_left_cancel hnext).symm

theorem delays_mono (hvalid : h.Valid) {n₁ n₂ : ℕ} {d₁ d₂ : ℤ} (hmn : n₁ ≤ n₂)
    (hrun : h.Failing n₁ (n₂ + 1) id) (h₁ : h.Retried n₁ id d₁) (h₂ : h.Retried n₂ id d₂) : d₁ ≤ d₂ := by
  obtain ⟨r₁, r₁', hr₁, hr₁', hatt₁, rfl⟩ := h₁.attempts hvalid
  obtain ⟨r₂, r₂', hr₂, hr₂', hatt₂, rfl⟩ := h₂.attempts hvalid
  rcases Nat.eq_or_lt_of_le hmn with rfl | hlt
  · cases hr₁'.symm.trans hr₂'
    exact le_rfl
  · have hcap : r₁'.attempts ≤ 2 ^ 32 - 1 := hatt₁ ▸ min_le_right _ _
    obtain ⟨r, hr, hle⟩ := attempts_le hvalid hcap hr₁' le_rfl hlt
      fun k hk hlt => hrun k (Nat.le_of_succ_le hk) (Nat.lt_succ_of_lt hlt)
    cases hr₂.symm.trans hr
    refine retryDelayMs_mono ?_
    rw [hatt₂]
    exact le_min (hle.trans (Nat.le_succ _)) hcap

/-! ## Retries -/

/-- **Retry and disabling.**  A failed attempt disables the subscription only 72 hours after the first of a
    run of failures, whose delays lie between a minute and an hour and never decrease; a delivered hint or a
    look that found nothing ends the run; and a failed attempt leaves the position. -/
theorem hint_retries (h : LeaseHistory) (hvalid : h.Valid) :
    (∀ n id readAt r, h.Ends n id readAt .failed → (h.run (n + 1)).subs.row? id = some r →
      r.status = .disabled → ∃ n₀ readAt₀, n₀ < n ∧ h.Ends n₀ id readAt₀ .failed ∧
        h.Failing n₀ (n + 1) id ∧ 72 * 60 * 60 * 1000 ≤ h.clock readAt - h.clock readAt₀) ∧
    (∀ n₁ n₂ id d₁ d₂, n₁ ≤ n₂ → h.Failing n₁ (n₂ + 1) id → h.Retried n₁ id d₁ → h.Retried n₂ id d₂ →
      60 * 1000 ≤ d₁ ∧ d₁ ≤ d₂ ∧ d₂ ≤ 60 * 60 * 1000) ∧
    (∀ n id readAt ending, h.Ends n id readAt ending →
      (∃ pos, ending = .nothingVisible pos ∨ ending = .delivered pos) →
      ∃ r, (h.run (n + 1)).subs.row? id = some r ∧ r.failingSinceMs = none ∧ r.attempts = 0) ∧
    ∀ n id readAt, h.Ends n id readAt .failed → ∃ r r', (h.run n).subs.row? id = some r ∧
      (h.run (n + 1)).subs.row? id = some r' ∧ r'.lastHintedSeq = r.lastHintedSeq := by
  refine ⟨fun n id readAt r' hend hr' hdisabled => ?_, fun n₁ n₂ id d₁ d₂ hmn hrun h₁ h₂ => ?_,
    fun n id readAt ending hend hhealthy => ?_, fun n id readAt hend => ?_⟩
  · obtain ⟨r, hr, hactive, hwritten⟩ := hend.rows hvalid
    cases hr'.symm.trans hwritten
    obtain ⟨t, hsince, hlong⟩ := retry_disabled r (h.clock readAt) hdisabled
    obtain ⟨n₀, readAt₀, hlt, hend₀, rfl, hrun⟩ := failing_since hvalid hr hactive hsince
    exact ⟨n₀, readAt₀, hlt, hend₀, hrun.succ ((leaseInv hvalid n).not_deletes hwritten)
      fun _ _ he => (he.ending_eq hend).2, hlong⟩
  · obtain ⟨-, r₁', -, -, -, hd₁⟩ := h₁.attempts hvalid
    obtain ⟨-, r₂', -, -, -, hd₂⟩ := h₂.attempts hvalid
    have hb₁ := (retryDelayMs_bounds r₁'.attempts).1
    have hb₂ := (retryDelayMs_bounds r₂'.attempts).2
    rw [← hd₁] at hb₁
    rw [← hd₂] at hb₂
    exact ⟨hb₁, delays_mono hvalid hmn hrun h₁ h₂, hb₂⟩
  · obtain ⟨r, -, -, hwritten⟩ := hend.rows hvalid
    refine ⟨_, hwritten, ?_⟩
    rcases hhealthy with ⟨pos, rfl | rfl⟩ <;> exact ⟨rfl, rfl⟩
  · obtain ⟨r, hr, -, hwritten⟩ := hend.rows hvalid
    refine ⟨r, _, hr, hwritten, ?_⟩
    show (retryOrDisable r (h.clock readAt)).lastHintedSeq = r.lastHintedSeq
    unfold retryOrDisable
    dsimp only
    split <;> rfl

end LeaseHistory

namespace Sample

def twoFailures : LeaseHistory where
  clock := fun n => 1000 * n + if n < 3 then 0 else disableAfterMs
  event
    | 0 => .create subscription 5
    | 1 => .claim 1 9 32 fun _ => false
    | 2 => .finish 1 "s1" 2 .failed
    | 3 => .claim 3 9 32 fun _ => false
    | 4 => .finish 3 "s1" 4 .failed
    | _ => .delete "" ""

theorem twoFailures_finish {n batch readAt : ℕ} {id : String}
    (hev : twoFailures.event n = .finish batch id readAt ending) :
    (n = 2 ∧ batch = 1 ∧ readAt = 2) ∨ (n = 4 ∧ batch = 3 ∧ readAt = 4) := by
  rcases n with _ | _ | _ | _ | _ | n <;> cases hev
  · exact .inl ⟨rfl, rfl, rfl⟩
  · exact .inr ⟨rfl, rfl, rfl⟩

theorem twoFailures_valid : twoFailures.Valid where
  clock := by
    intro m n hmn
    show 1000 * (m : ℤ) + (if m < 3 then 0 else disableAfterMs) ≤
      1000 * n + if n < 3 then 0 else disableAfterMs
    simp only [disableAfterMs]
    split_ifs <;> omega
  claim := by
    intro n readAt head limit locked hev
    rcases n with _ | _ | _ | _ | _ | n <;> cases hev <;> exact le_rfl
  finish := by
    intro n batch id readAt ending hev
    rcases twoFailures_finish hev with ⟨rfl, rfl, rfl⟩ | ⟨rfl, rfl, rfl⟩ <;> decide
  once := by
    intro n n' batch id readAt readAt' ending ending' hev hev'
    rcases twoFailures_finish hev with ⟨rfl, rfl, -⟩ | ⟨rfl, rfl, -⟩ <;>
      rcases twoFailures_finish hev' with ⟨rfl, hb, -⟩ | ⟨rfl, hb, -⟩
    · rfl
    · cases hb
    · cases hb
    · rfl
  create := by
    intro n new maxPerOwner hev m readAt head limit locked hlt
    rcases n with _ | _ | _ | _ | _ | n
    · exact absurd hlt (Nat.not_lt_zero m)
    all_goals cases hev

end Sample

theorem hint_retries_sample :
    ∃ n₀ readAt₀, n₀ < 4 ∧ Sample.twoFailures.Ends n₀ "s1" readAt₀ .failed ∧
      Sample.twoFailures.Failing n₀ 5 "s1" ∧
      72 * 60 * 60 * 1000 ≤ Sample.twoFailures.clock 4 - Sample.twoFailures.clock readAt₀ := by
  have hend : Sample.twoFailures.Ends 4 "s1" 4 .failed := by
    refine ⟨⟨3, rfl⟩, fun heq => ?_⟩
    have hstatus := congrArg (fun s : Subscriptions => (s.row? "s1").map (·.status)) heq
    revert hstatus
    decide
  exact (LeaseHistory.hint_retries Sample.twoFailures Sample.twoFailures_valid).1 4 "s1" 4 _ hend rfl rfl

end AcdpRegistry
