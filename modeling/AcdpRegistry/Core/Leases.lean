/-
  Leases on subscriptions.

  Workers claim due rows, end their attempts and lose their claims, while subscriptions
  are created and deleted.  A lease is told apart from another only by the moment it
  runs out, so the invariant (`LeaseInv`) keeps the moments of the open claims in order:
  a claim is on the row as it claimed it, or its lease lies below everything the row can
  be leased until from now on.

  `hintOne_ends` ties the endings to the program of an attempt.
-/
import AcdpRegistry.Core.HintInvariant
import AcdpRegistry.Lib.Rely

namespace AcdpRegistry

open Lib

/-! ## How an attempt ends -/

/-- The ends of an attempt that write to the row. -/
inductive HintEnding
  /-- Its owner is unreadable, it has no tenant where one is required, or its secret is corrupt. -/
  | disabled
  | nothingVisible (pos : ℕ)
  | delivered (head : ℕ)
  /-- The delivery failed or was refused, or the secret's key is unknown. -/
  | failed
  deriving DecidableEq, Repr

def HintEnding.progress (sub : SubscriptionRecord) (nowMs : ℤ) : HintEnding → SubscriptionProgress
  | .disabled => .disabled sub nowMs
  | .nothingVisible pos => .healthy pos nowMs
  | .delivered head => .healthy head (nowMs + hintMinIntervalMs)
  | .failed => retryOrDisable sub nowMs

theorem HintEnding.le_next (sub : SubscriptionRecord) (nowMs : ℤ) (e : HintEnding) :
    nowMs ≤ (e.progress sub nowMs).nextAttemptAtMs := by
  cases e with
  | disabled => exact le_rfl
  | nothingVisible pos => exact le_rfl
  | delivered head => exact Int.le_add_of_nonneg_right (by decide)
  | failed => exact le_retryOrDisable_next sub nowMs

section Ends

variable {ι : Type}

/-- An action of an attempt: it leaves the subscriptions alone, or writes an ending under the lease of
    the claim, with one of the attempt's readings of the clock. -/
def EndsWith (sub : SubscriptionRecord) (draw : HintDraw) (s t : HintSystem ι) : Prop :=
  t.subs = s.subs ∨ ∃ (nowMs : ℤ) (e : HintEnding), (nowMs = draw.startMs ∨ nowMs = draw.endMs) ∧
    t.subs = (s.subs.finishAttempt sub.subscriptionId (sub.leaseUntilMs.getD (draw.startMs + leaseMs))
      (e.progress sub nowMs)).2

theorem EndsWith.refl {sub : SubscriptionRecord} {draw : HintDraw} (s : HintSystem ι) :
    EndsWith sub draw s s := .inl rfl

abbrev AttemptEnds (sub : SubscriptionRecord) (draw : HintDraw) {α : Type} (p : HintProc ι α)
    (s : HintSystem ι) : Prop :=
  p.Within (fun _ => True) (fun _ _ => True) (EndsWith sub draw) s

variable {sub : SubscriptionRecord} {draw : HintDraw}

theorem snapshots_ends (n : ℕ) (s : HintSystem ι) : AttemptEnds sub draw (snapshots n) s := by
  induction n generalizing s with
  | zero => exact Proc.safe_read_bind EndsWith.refl fun _ _ _ => trivial
  | succ n ih =>
    refine Proc.safe_read_bind EndsWith.refl fun t _ _ => ?_
    exact Proc.within_bind (ih t) fun _ _ => trivial

theorem evaluateHint_ends (env : ChangesEnv) (s : HintSystem ι) :
    AttemptEnds sub draw (evaluateHint env sub) s := by
  refine Proc.within_bind (snapshots_ends 7 s) fun reads t => ?_
  split
  · trivial
  · refine Proc.within_bind (snapshots_ends 7 t) fun reads' u => ?_
    exact Proc.safe_lift_bind fun _ _ => trivial
  · trivial

variable [DecidableEq ι] {w : HintWorker} {batch : ι} {k : ℕ}

theorem finishTask_ends {nowMs : ℤ} (hnow : nowMs = draw.startMs ∨ nowMs = draw.endMs) (e : HintEnding)
    (scan : Option ScanNote) (o : HintOutcome) (s : HintSystem ι) :
    AttemptEnds sub draw (finishTask batch k sub draw (e.progress sub nowMs) scan o) s :=
  Proc.safe_act fun _ _ _ => ⟨trivial, Or.inr ⟨nowMs, e, hnow, rfl⟩, trivial⟩

theorem deliverHint_ends (feed : FeedHead) (secret : String) (s : HintSystem ι) :
    AttemptEnds sub draw (deliverHint w batch k sub draw feed secret) s := by
  refine Proc.safe_lift_bind fun body _ => ?_
  refine Proc.safe_act fun t _ _ => ?_
  generalize draw.deliver sub.callbackUrl body _ = d
  refine ⟨trivial, Or.inl ?_, ?_⟩
  · unfold HintSystem.receive
    split <;> rfl
  · cases d with
    | delivered => exact finishTask_ends (.inr rfl) (.delivered feed.head) _ _ _
    | failed why => exact finishTask_ends (.inr rfl) .failed _ _ _
    | refused why => exact finishTask_ends (.inr rfl) .failed _ _ _

/-- **All that `hint_one` writes to the subscriptions is an ending.** -/
theorem hintOne_ends (w : HintWorker) (batch : ι) (k : ℕ) (sub : SubscriptionRecord) (draw : HintDraw)
    (s : HintSystem ι) : AttemptEnds sub draw (hintOne w batch k sub draw) s := by
  unfold hintOne
  split
  · exact finishTask_ends (.inl rfl) .disabled _ _ _
  next owner howner =>
  split_ifs
  · exact finishTask_ends (.inl rfl) .disabled _ _ _
  refine Proc.safe_read_bind EndsWith.refl fun t _ _ => ?_
  refine Proc.within_bind (evaluateHint_ends _ t) fun r u => ?_
  obtain ⟨resp, reads⟩ := r
  dsimp only
  split_ifs
  · exact finishTask_ends (.inl rfl) (.nothingVisible resp.nextCursor.pos) _ _ _
  split
  · exact deliverHint_ends _ _ _
  · exact finishTask_ends (.inl rfl) .failed _ _ _
  · exact finishTask_ends (.inl rfl) .disabled _ _ _

end Ends

/-! ## Histories -/

/-- One statement on the table. A worker reads the clock before it claims, and at `readAt` for each
    attempt. -/
inductive LeaseEvent
  | claim (readAt head limit : ℕ) (locked : String → Bool)
  | finish (batch : ℕ) (id : String) (readAt : ℕ) (ending : HintEnding)
  | create (new : NewSubscription) (maxPerOwner : ℕ)
  | delete (ownerDid id : String)

structure LeaseState where
  subs : Subscriptions := []
  claimed : ℕ → List SubscriptionRecord := fun _ => []

def LeaseState.task? (s : LeaseState) (batch : ℕ) (id : String) : Option SubscriptionRecord :=
  (s.claimed batch).find? (·.subscriptionId = id)

def LeaseState.step (clock : ℕ → ℤ) (n : ℕ) (s : LeaseState) : LeaseEvent → LeaseState
  | .claim readAt head limit locked =>
    let r := s.subs.claimDue (clock readAt) head (clock readAt + leaseMs) limit locked
    { subs := r.2, claimed := Function.update s.claimed n r.1 }
  | .finish batch id readAt ending =>
    match s.task? batch id with
    | none => s
    | some sub =>
      let lease := sub.leaseUntilMs.getD (clock readAt + leaseMs)
      { s with subs := (s.subs.finishAttempt id lease (ending.progress sub (clock readAt))).2 }
  | .create new maxPerOwner => { s with subs := (s.subs.create new maxPerOwner).2 }
  | .delete ownerDid id => { s with subs := (s.subs.delete ownerDid id).2 }

/-- The clock and the statements, in the order in which they take effect. -/
structure LeaseHistory where
  clock : ℕ → ℤ
  event : ℕ → LeaseEvent

namespace LeaseHistory

variable (h : LeaseHistory)

def run : ℕ → LeaseState
  | 0 => {}
  | n + 1 => (run n).step h.clock n (h.event n)

def Claims (n : ℕ) (id : String) : Prop := ((h.run (n + 1)).task? n id).isSome

instance (n : ℕ) (id : String) : Decidable (h.Claims n id) :=
  inferInstanceAs (Decidable (((h.run (n + 1)).task? n id).isSome = true))

def Deletes (n : ℕ) (id : String) : Prop :=
  ∃ ownerDid, h.event n = .delete ownerDid id ∧ ((h.run n).subs.delete ownerDid id).1 = true

/-- Between the claim `batch` and statement `n` the row was claimed again or deleted. -/
def Lost (batch n : ℕ) (id : String) : Prop :=
  ∃ k, batch < k ∧ k < n ∧ (h.Claims k id ∨ h.Deletes k id)

/-- One clock that does not go back, read before the statement and, for an attempt, after its claim;
    one end for each claim of a row; and ids that are not created again. -/
structure Valid : Prop where
  clock : Monotone h.clock
  claim : ∀ {n readAt head limit locked}, h.event n = .claim readAt head limit locked → readAt ≤ n
  finish : ∀ {n batch id readAt ending}, h.event n = .finish batch id readAt ending →
    batch ≤ readAt ∧ readAt ≤ n
  once : ∀ {n n' batch id readAt readAt' ending ending'}, h.event n = .finish batch id readAt ending →
    h.event n' = .finish batch id readAt' ending' → n = n'
  create : ∀ {n new maxPerOwner}, h.event n = .create new maxPerOwner →
    ∀ {m readAt head limit locked}, m < n → h.event m = .claim readAt head limit locked →
      h.Claims m new.subscriptionId → h.clock readAt < new.createdAtMs

/-! ## The invariant -/

def Open (batch n : ℕ) (id : String) : Prop :=
  ∀ k < n, ∀ readAt ending, h.event k ≠ .finish batch id readAt ending

/-- An open claim holds the row as it claimed it, or its lease lies below all that the row can still be
    leased until. -/
structure LeaseInv (n : ℕ) : Prop where
  ids : (h.run n).subs.UniqueIds
  later : ∀ m, n ≤ m → (h.run n).claimed m = []
  lease : ∀ {m id sub}, (h.run n).task? m id = some sub →
    ∃ readAt head limit locked, h.event m = .claim readAt head limit locked ∧
      sub.leaseUntilMs = some (h.clock readAt + leaseMs)
  holds : ∀ {m id sub l r}, (h.run n).task? m id = some sub → h.Open m n id →
    sub.leaseUntilMs = some l → (h.run n).subs.row? id = some r →
    (r = sub ∧ ¬h.Lost m n id) ∨ l < r.floor

variable {h} {n m : ℕ} {id : String} {sub r : SubscriptionRecord} {l : ℤ}

theorem Open.of_succ (ho : h.Open m (n + 1) id) : h.Open m n id :=
  fun k hk => ho k (Nat.lt_succ_of_lt hk)

theorem not_lost_succ (hlost : ¬h.Lost m n id) (hclaims : ¬h.Claims n id) (hdeletes : ¬h.Deletes n id) :
    ¬h.Lost m (n + 1) id := by
  rintro ⟨k, hm, hk, hlater⟩
  rcases Nat.lt_succ_iff_lt_or_eq.1 hk with hk | rfl
  · exact hlost ⟨k, hm, hk, hlater⟩
  · exact hlater.elim hclaims hdeletes

theorem task?_id (ht : (h.run n).task? m id = some sub) : sub.subscriptionId = id := by
  simpa using List.find?_some ht

theorem run_delete {ownerDid : String} (hev : h.event n = .delete ownerDid id) :
    (h.run (n + 1)).subs = ((h.run n).subs.delete ownerDid id).2 := by
  rw [run, hev]
  rfl

theorem LeaseInv.not_deletes (hinv : h.LeaseInv n) (hr : (h.run (n + 1)).subs.row? id = some r) :
    ¬h.Deletes n id := by
  rintro ⟨ownerDid, hev, hdeleted⟩
  rw [run_delete hev] at hr
  obtain ⟨r', hr', hmatch⟩ := List.any_eq_true.1 hdeleted
  have hid : r'.subscriptionId = id := by
    simp only [Bool.and_eq_true, decide_eq_true_eq] at hmatch
    exact hmatch.1
  have hrow := hinv.ids.row?_of_mem hr'
  rw [hid, hinv.ids.row?_filter hr] at hrow
  cases hrow
  have hkept := List.of_mem_filter (Subscriptions.mem_of_row? hr)
  rw [hmatch] at hkept
  cases hkept

section Succ

variable {event : LeaseEvent} (hev : h.event n = event)
  (hclaim : ∀ readAt head limit locked, event ≠ .claim readAt head limit locked)

include hev hclaim

theorem claimed_succ : (h.run (n + 1)).claimed = (h.run n).claimed := by
  rw [run, hev]
  cases event with
  | claim readAt head limit locked => exact absurd rfl (hclaim _ _ _ _)
  | finish batch id readAt ending =>
    simp only [LeaseState.step]
    split <;> rfl
  | create new maxPerOwner => rfl
  | delete ownerDid id => rfl

theorem LeaseInv.succ_of (hinv : h.LeaseInv n) (hids : (h.run (n + 1)).subs.UniqueIds)
    (hrows : ∀ {m id sub l r}, (h.run n).task? m id = some sub → h.Open m (n + 1) id →
      sub.leaseUntilMs = some l → (h.run (n + 1)).subs.row? id = some r →
      (h.run n).subs.row? id = some r ∨ l < r.floor) : h.LeaseInv (n + 1) := by
  have hclaimed := claimed_succ hev hclaim
  have htask : ∀ m id, (h.run (n + 1)).task? m id = (h.run n).task? m id := fun m id => by
    rw [LeaseState.task?, hclaimed, LeaseState.task?]
  have hno : ∀ id, ¬h.Claims n id := by
    intro id hclaims
    rw [Claims, htask, LeaseState.task?, hinv.later n le_rfl] at hclaims
    cases hclaims
  refine ⟨hids, fun m hm => ?_, fun ht => hinv.lease (htask _ _ ▸ ht), fun ht ho hl hr => ?_⟩
  · rw [hclaimed]
    exact hinv.later m (Nat.le_of_succ_le hm)
  · rw [htask] at ht
    rcases hrows ht ho hl hr with hsame | hlt
    · exact (hinv.holds ht ho.of_succ hl hsame).imp_left fun ⟨hsub, hlost⟩ =>
        ⟨hsub, not_lost_succ hlost (hno _) (hinv.not_deletes hr)⟩
    · exact .inr hlt

end Succ

/-! ### Claims -/

section Claim

variable {readAt head limit : ℕ} {locked : String → Bool}

theorem run_claim (hev : h.event n = .claim readAt head limit locked) :
    (h.run (n + 1)).subs = ((h.run n).subs.claimDue (h.clock readAt) head (h.clock readAt + leaseMs)
        limit locked).2 ∧
      (h.run (n + 1)).claimed = Function.update (h.run n).claimed n
        ((h.run n).subs.claimDue (h.clock readAt) head (h.clock readAt + leaseMs) limit locked).1 := by
  rw [run, hev]
  exact ⟨rfl, rfl⟩

theorem LeaseInv.task?_claim (hinv : h.LeaseInv n) (hev : h.event n = .claim readAt head limit locked)
    (ht : (h.run (n + 1)).task? n id = some sub) :
    (h.run (n + 1)).subs.row? id = some sub ∧ ∃ r, (h.run n).subs.row? id = some r ∧
      Subscriptions.Free (h.clock readAt) r ∧
      sub = { r with leaseUntilMs := some (h.clock readAt + leaseMs) } := by
  obtain rfl := task?_id ht
  obtain ⟨hsubs, hclaimed⟩ := run_claim hev
  rw [LeaseState.task?, hclaimed, Function.update_self] at ht
  obtain ⟨k, hk⟩ := List.mem_iff_getElem?.1 (List.mem_of_find?_eq_some ht)
  rw [hsubs]
  exact Subscriptions.claimDue_task hinv.ids hk

theorem LeaseInv.claim (hinv : h.LeaseInv n) (hev : h.event n = .claim readAt head limit locked) :
    h.LeaseInv (n + 1) := by
  obtain ⟨hsubs, hclaimed⟩ := run_claim hev
  have hbefore : ∀ {m id}, m ≠ n → (h.run (n + 1)).task? m id = (h.run n).task? m id := fun hm => by
    rw [LeaseState.task?, hclaimed, Function.update_of_ne hm, LeaseState.task?]
  refine ⟨?_, fun m hm => ?_, fun {m id sub} ht => ?_, fun {m id sub l r} ht ho hl hr => ?_⟩
  · rw [hsubs]
    exact hinv.ids.claimDue _ _ _ _ _
  · rw [hclaimed, Function.update_of_ne (Nat.ne_of_gt hm)]
    exact hinv.later m (Nat.le_of_succ_le hm)
  · by_cases hm : m = n
    · subst hm
      obtain ⟨-, r, -, -, rfl⟩ := hinv.task?_claim hev ht
      exact ⟨readAt, head, limit, locked, hev, rfl⟩
    · exact hinv.lease (hbefore hm ▸ ht)
  · by_cases hm : m = n
    · subst hm
      obtain ⟨hrow, -⟩ := hinv.task?_claim hev ht
      refine .inl ⟨Option.some.inj (hr.symm.trans hrow), ?_⟩
      rintro ⟨k, hk, hk', -⟩
      omega
    · rw [hbefore hm] at ht
      have hr' := hr
      rw [hsubs] at hr'
      obtain ⟨r₀, hr₀, hclaimed₀⟩ := Subscriptions.claimDue_row hinv.ids hr'
      have hold := hinv.holds ht ho.of_succ hl hr₀
      cases hclaimed₀ with
      | same =>
        refine hold.imp_left fun ⟨hsub, hlost⟩ => ⟨hsub, not_lost_succ hlost ?_ ?_⟩
        · -- a row that is claimed changes its lease
          intro hclaims
          obtain ⟨sub', ht'⟩ := Option.isSome_iff_exists.1 hclaims
          obtain ⟨hrow', r₁, hr₁, hfree, hsub'⟩ := hinv.task?_claim hev ht'
          cases hr₀.symm.trans hr₁
          cases hr.symm.trans hrow'
          have := hfree.lease (h.clock readAt + leaseMs) (by rw [hsub'])
          simp only [leaseMs] at this
          omega
        · rintro ⟨ownerDid, hdel, -⟩
          cases hev.symm.trans hdel
      | leased hfree =>
        right
        rcases hold with ⟨rfl, -⟩ | hlt
        · have := hfree.lease l hl
          simp only [SubscriptionRecord.floor, Option.getD_some, leaseMs]
          omega
        · exact hlt.trans_le (floor_claimed hfree)

end Claim

theorem task?_stable (hmn : m < n) : (h.run n).task? m id = (h.run (m + 1)).task? m id := by
  induction n, hmn using Nat.le_induction with
  | base => rfl
  | succ n hle ih =>
    rw [← ih, LeaseState.task?, LeaseState.task?]
    congr 1
    cases hev : h.event n with
    | claim readAt head limit locked => rw [(run_claim hev).2, Function.update_of_ne (Nat.ne_of_lt hle)]
    | _ => rw [claimed_succ hev (by simp)]

theorem LeaseInv.lt_of_task? (hinv : h.LeaseInv n) (ht : (h.run n).task? m id = some sub) : m < n := by
  by_contra hle
  rw [LeaseState.task?, hinv.later m (not_lt.1 hle)] at ht
  cases ht

theorem LeaseInv.claims (hinv : h.LeaseInv n) (ht : (h.run n).task? m id = some sub) :
    m < n ∧ h.Claims m id := by
  have hlt := hinv.lt_of_task? ht
  refine ⟨hlt, ?_⟩
  rw [Claims, ← task?_stable hlt, ht]
  rfl

/-! ### Ends of attempts -/

section Finish

variable {batch readAt : ℕ} {ending : HintEnding}

theorem run_finish (hinv : h.LeaseInv n) (hev : h.event n = .finish batch id readAt ending) :
    ((h.run n).task? batch id = none ∧ (h.run (n + 1)).subs = (h.run n).subs) ∨
      ∃ sub l, (h.run n).task? batch id = some sub ∧ sub.leaseUntilMs = some l ∧
        (h.run (n + 1)).subs =
          ((h.run n).subs.finishAttempt id l (ending.progress sub (h.clock readAt))).2 := by
  rw [run, hev, LeaseState.step]
  cases ht : (h.run n).task? batch id with
  | none => exact .inl ⟨rfl, rfl⟩
  | some sub =>
    obtain ⟨readAt₀, -, -, -, -, hl⟩ := hinv.lease ht
    refine .inr ⟨sub, _, rfl, hl, ?_⟩
    simp only [hl, Option.getD_some]

/-- **Whose lease matches has claimed the row last.** -/
theorem LeaseInv.last_of_lease (hinv : h.LeaseInv n) (ht : (h.run n).task? m id = some sub)
    (ho : h.Open m n id) (hl : sub.leaseUntilMs = some l) (hr : (h.run n).subs.row? id = some r)
    (hlease : r.leaseUntilMs = some l) : r = sub ∧ ¬h.Lost m n id := by
  refine (hinv.holds ht ho hl hr).resolve_right fun hlt => ?_
  rw [SubscriptionRecord.floor, hlease, Option.getD_some] at hlt
  exact lt_irrefl _ hlt

theorem Valid.open_of_finish (hvalid : h.Valid) (hev : h.event n = .finish batch id readAt ending) :
    h.Open batch n id := by
  rintro k hk readAt' ending' hev'
  exact hk.ne (hvalid.once hev' hev)

theorem LeaseInv.finish (hinv : h.LeaseInv n) (hvalid : h.Valid)
    (hev : h.event n = .finish batch id readAt ending) : h.LeaseInv (n + 1) := by
  rcases run_finish hinv hev with ⟨-, hsubs⟩ | ⟨sub₀, l₀, ht₀, hl₀, hsubs⟩
  · exact hinv.succ_of hev (by simp) (hsubs ▸ hinv.ids) fun _ _ _ hr => .inl (hsubs ▸ hr)
  · refine hinv.succ_of hev (by simp) (hsubs ▸ hinv.ids.finishAttempt _ _ _)
      fun {m id' sub l r'} ht ho hl hr' => ?_
    rw [hsubs] at hr'
    obtain ⟨r, hr, hfinished⟩ := Subscriptions.finishAttempt_row hr'
    cases hfinished with
    | same => exact .inl hr
    | written hid hlease =>
      obtain rfl : id' = id := (Subscriptions.row?_id hr).symm.trans hid
      obtain ⟨-, hlost₀⟩ := hinv.last_of_lease ht₀ (hvalid.open_of_finish hev) hl₀ hr hlease
      -- every other open claim on the row is older, so its lease lies below
      have hlt : l < l₀ := by
        rcases hinv.holds ht ho.of_succ hl hr with ⟨-, hlost⟩ | hlt
        · have hne : m ≠ batch := fun hm => ho n (Nat.lt_succ_self n) readAt ending (hm ▸ hev)
          rcases Nat.lt_or_gt_of_ne hne with hm | hm
          · exact absurd ⟨batch, hm, (hinv.claims ht₀).1, .inl (hinv.claims ht₀).2⟩ hlost
          · exact absurd ⟨m, hm, (hinv.claims ht).1, .inl (hinv.claims ht).2⟩ hlost₀
        · rwa [SubscriptionRecord.floor, hlease, Option.getD_some] at hlt
      right
      obtain ⟨readAt₀, head, limit, locked, hev₀, hl₀'⟩ := hinv.lease ht₀
      obtain rfl := Option.some.inj (hl₀.symm.trans hl₀')
      have hread := hvalid.clock ((hvalid.claim hev₀).trans (hvalid.finish hev).1)
      have hnext := hread.trans (ending.le_next sub₀ (h.clock readAt))
      exact hlt.trans_le (Int.add_le_add_right hnext leaseMs)

end Finish

/-! ### Creates and deletes -/

theorem run_create {new : NewSubscription} {maxPerOwner : ℕ} (hev : h.event n = .create new maxPerOwner) :
    (h.run (n + 1)).subs = (h.run n).subs ∨ (h.run n).subs.row? new.subscriptionId = none ∧
      (h.run (n + 1)).subs = (h.run n).subs ++ [Subscriptions.newRow new] := by
  have hsubs : (h.run (n + 1)).subs = ((h.run n).subs.create new maxPerOwner).2 := by
    rw [run, hev]
    rfl
  rw [hsubs]
  have hcases := Subscriptions.create_cases (h.run n).subs new maxPerOwner
  generalize (h.run n).subs.create new maxPerOwner = outcome at hcases
  cases hcases with
  | refused ho => exact .inl rfl
  | inserted hfree => exact .inr ⟨hfree, rfl⟩

theorem LeaseInv.create (hinv : h.LeaseInv n) (hvalid : h.Valid) {new : NewSubscription} {maxPerOwner : ℕ}
    (hev : h.event n = .create new maxPerOwner) : h.LeaseInv (n + 1) := by
  rcases run_create hev with hsubs | ⟨hfree, hsubs⟩
  · exact hinv.succ_of hev (by simp) (hsubs ▸ hinv.ids) fun _ _ _ hr => .inl (hsubs ▸ hr)
  · refine hinv.succ_of hev (by simp) (hsubs ▸ hinv.ids.insert hfree) fun {m id sub l r} ht ho hl hr => ?_
    rcases Subscriptions.insert_row (hsubs ▸ hr) with hold | ⟨rfl, rfl⟩
    · exact .inl hold
    · obtain ⟨readAt, head, limit, locked, hev₀, hl₀⟩ := hinv.lease ht
      obtain rfl := Option.some.inj (hl.symm.trans hl₀)
      obtain ⟨hlt, hclaims⟩ := hinv.claims ht
      exact .inr (Int.add_lt_add_right (hvalid.create hev hlt hev₀ hclaims) leaseMs)

theorem LeaseInv.delete (hinv : h.LeaseInv n) {ownerDid id₀ : String}
    (hev : h.event n = .delete ownerDid id₀) : h.LeaseInv (n + 1) := by
  have hsubs := run_delete hev
  exact hinv.succ_of hev (by simp) (hsubs ▸ hinv.ids.filter _) fun _ _ _ hr =>
    .inl (hinv.ids.row?_filter (hsubs ▸ hr))

/-- **In every history the leases are in order.** -/
theorem leaseInv (hvalid : h.Valid) (n : ℕ) : h.LeaseInv n := by
  induction n with
  | zero =>
    refine ⟨List.nodup_nil, fun _ _ => rfl, fun ht => ?_, fun ht => ?_⟩
    · cases ht
    · cases ht
  | succ n ih =>
    cases hev : h.event n with
    | claim readAt head limit locked => exact ih.claim hev
    | finish batch id readAt ending => exact ih.finish hvalid hev
    | create new maxPerOwner => exact ih.create hvalid hev
    | delete ownerDid id => exact ih.delete hev

/-! ## Whose claim is it -/

theorem finishAttempt_unheld {subs : Subscriptions} {p : SubscriptionProgress}
    (hno : ∀ r ∈ subs, r.subscriptionId = id → r.leaseUntilMs ≠ some l) :
    (subs.finishAttempt id l p).2 = subs := by
  refine (List.map_congr_left fun r hr => ?_).trans (List.map_id subs)
  rw [if_neg]
  · rfl
  · simp only [Bool.and_eq_true, decide_eq_true_eq, not_and]
    exact hno r hr

theorem Valid.finish_last (hvalid : h.Valid) {batch readAt : ℕ} {ending : HintEnding}
    (hev : h.event n = .finish batch id readAt ending) (hchanged : (h.run (n + 1)).subs ≠ (h.run n).subs) :
    ∃ sub, (h.run n).task? batch id = some sub ∧ (h.run n).subs.row? id = some sub ∧
      (h.run (n + 1)).subs.row? id =
        some (Subscriptions.withProgress (ending.progress sub (h.clock readAt)) sub) ∧
      ¬h.Lost batch n id := by
  have hinv := leaseInv hvalid n
  rcases run_finish hinv hev with ⟨-, hsubs⟩ | ⟨sub, l, ht, hl, hsubs⟩
  · exact absurd hsubs hchanged
  · have hheld : ∃ r ∈ (h.run n).subs, r.subscriptionId = id ∧ r.leaseUntilMs = some l := by
      by_contra hno
      push Not at hno
      exact hchanged (hsubs.trans (finishAttempt_unheld hno))
    obtain ⟨r, hr, rfl, hlease⟩ := hheld
    have hrow := hinv.ids.row?_of_mem hr
    obtain ⟨rfl, hlost⟩ := hinv.last_of_lease ht (hvalid.open_of_finish hev) hl hrow hlease
    refine ⟨r, ht, hrow, ?_, hlost⟩
    rw [hsubs, Subscriptions.finishAttempt]
    dsimp only
    rw [Subscriptions.row?_map (by intro r; split <;> rfl), hrow, Option.map_some, if_pos]
    simp only [Bool.and_eq_true, decide_eq_true_eq]
    exact ⟨trivial, hlease⟩

/-- **Leases are exclusive.**  A row is claimed only when no lease on it is running; the end of an
    attempt changes a row only while its claim is the row's latest, and none if that was lost. -/
theorem leases_exclusive (h : LeaseHistory) (hvalid : h.Valid) :
    (∀ n id, h.Claims n id → ∃ r, (h.run n).subs.row? id = some r ∧
      ∀ l, r.leaseUntilMs = some l → l < h.clock n) ∧
    (∀ n batch id readAt ending, h.event n = .finish batch id readAt ending →
      (h.run (n + 1)).subs ≠ (h.run n).subs →
        batch < n ∧ h.Claims batch id ∧ ¬h.Lost batch n id) ∧
    ∀ n batch id readAt ending, h.event n = .finish batch id readAt ending → h.Lost batch n id →
      (h.run (n + 1)).subs = (h.run n).subs := by
  refine ⟨fun n id hclaims => ?_, fun n batch id readAt ending hev hchanged => ?_,
    fun n batch id readAt ending hev hlost => ?_⟩
  · obtain ⟨sub, ht⟩ := Option.isSome_iff_exists.1 hclaims
    obtain ⟨readAt, head, limit, locked, hev, -⟩ := (leaseInv hvalid (n + 1)).lease ht
    obtain ⟨-, r, hr, hfree, -⟩ := (leaseInv hvalid n).task?_claim hev ht
    exact ⟨r, hr, fun l hl => (hfree.lease l hl).trans_le (hvalid.clock (hvalid.claim hev))⟩
  · obtain ⟨sub, ht, -, -, hlast⟩ := hvalid.finish_last hev hchanged
    obtain ⟨hlt, hclaims⟩ := (leaseInv hvalid n).claims ht
    exact ⟨hlt, hclaims, hlast⟩
  · by_contra hchanged
    obtain ⟨sub, -, -, -, hlast⟩ := hvalid.finish_last hev hchanged
    exact hlast hlost

end LeaseHistory

namespace Sample

def subscription : NewSubscription where
  subscriptionId := "s1"
  ownerDid := "did:web:a"
  tenantId := none
  filter := {}
  callbackUrl := "https://a.example/hint"
  secretCt := []
  secretKeyId := 1
  createdAtMs := 0
  lastHintedSeq := 0

/-- A worker's attempt ends after another worker has claimed the subscription. -/
def lateWorker : LeaseHistory where
  clock := fun n => 70000 * n
  event
    | 0 => .create subscription 5
    | 1 => .claim 1 9 32 fun _ => false
    | 2 => .claim 2 9 32 fun _ => false
    | 3 => .finish 1 "s1" 2 (.delivered 9)
    | _ => .delete "" ""

theorem lateWorker_finish {n batch readAt : ℕ} {id : String} {ending : HintEnding}
    (hev : lateWorker.event n = .finish batch id readAt ending) : n = 3 ∧ batch = 1 ∧ readAt = 2 := by
  rcases n with _ | _ | _ | _ | n <;> cases hev
  exact ⟨rfl, rfl, rfl⟩

theorem lateWorker_valid : lateWorker.Valid where
  clock := by
    intro m n hmn
    show (70000 : ℤ) * m ≤ 70000 * n
    omega
  claim := by
    intro n readAt head limit locked hev
    rcases n with _ | _ | _ | _ | n <;> cases hev <;> exact le_rfl
  finish := by
    intro n batch id readAt ending hev
    obtain ⟨rfl, rfl, rfl⟩ := lateWorker_finish hev
    decide
  once := by
    intro n n' batch id readAt readAt' ending ending' hev hev'
    rw [(lateWorker_finish hev).1, (lateWorker_finish hev').1]
  create := by
    intro n new maxPerOwner hev m readAt head limit locked hlt
    rcases n with _ | _ | _ | _ | n
    · exact absurd hlt (Nat.not_lt_zero m)
    all_goals cases hev

end Sample

theorem leases_exclusive_sample :
    Sample.lateWorker.Claims 1 "s1" ∧ Sample.lateWorker.Lost 1 3 "s1" ∧
      (Sample.lateWorker.run 4).subs = (Sample.lateWorker.run 3).subs := by
  have hlost : Sample.lateWorker.Lost 1 3 "s1" := ⟨2, by decide, by decide, .inl (by decide)⟩
  refine ⟨by decide, hlost, ?_⟩
  exact (LeaseHistory.leases_exclusive Sample.lateWorker Sample.lateWorker_valid).2.2 3 1 "s1" 2
    (.delivered 9) rfl hlost

end AcdpRegistry
