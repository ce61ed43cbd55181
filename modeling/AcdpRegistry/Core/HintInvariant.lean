/-
  What holds of the change-hint system between any two actions.

  `HintInv`: every entry up to a subscription's position is accounted for, and so is
  every entry up to the position a task was claimed at.  While no attempt reads a clock
  that is behind its claim's (`clocks`), the leases of the open claims on a row are also
  in order, so that a matching lease is the holder's own.
-/
import AcdpRegistry.Core.HintScan
import AcdpRegistry.Core.Hints

namespace AcdpRegistry

open Lib

/-! ## The invariant -/

variable {r : SubscriptionRecord}

/-- The feed is the same one later: it has grown, and retention has not gone back. -/
def FeedHistory.Before (f g : FeedHistory) : Prop :=
  f.Extends g ∧ f.store.prunedThrough ≤ g.store.prunedThrough

theorem FeedHistory.Before.refl (f : FeedHistory) : f.Before f := ⟨.refl f, le_rfl⟩

theorem FeedHistory.Before.trans {f g h : FeedHistory} (hfg : f.Before g) (hgh : g.Before h) :
    f.Before h := ⟨.trans _ _ _ hfg.1 hgh.1, hfg.2.trans hgh.2⟩

theorem FeedHistory.step_before {sha256 : Sha256} {f g : FeedHistory}
    (h : FeedHistory.Step sha256 f g) : f.Before g := by
  refine ⟨FeedHistory.step_extends sha256 h, ?_⟩
  cases h with
  | append gap a nowMs => exact le_rfl
  | prune olderThanMs batch =>
    show _ ≤ (f.store.prune sha256 olderThanMs batch).1.prunedThrough
    rcases FeedHistory.prune_cases sha256 f.store olderThanMs batch with hsame | ⟨last, hlast, hp, -⟩
    · rw [hsame]
    · rw [hp]
      exact (f.store.retained last hlast).le

/-- The entry did not match the filter, or was hidden from the owner, or was pruned in a snapshot that
    the scan read. -/
def ScanNote.Passes (n : ScanNote) (filter : WatchFilter) (e : FeedRow) : Prop :=
  n.after < e.seq ∧ e.seq ≤ n.upTo ∧
    ∃ q, filterQuery n.env filter = .ok q ∧ ∃ k, Passed n.env q (n.reads k) e

structure ScanNote.Sound (n : ScanNote) (filter : WatchFilter) (f : FeedHistory) : Prop where
  le : n.after ≤ n.upTo
  head : n.upTo ≤ f.store.head
  passes : ∀ e ∈ f.log, n.after < e.seq → e.seq ≤ n.upTo → n.Passes filter e

theorem ScanNote.Sound.before {n : ScanNote} {filter : WatchFilter} {f g : FeedHistory}
    (h : n.Sound filter f) (hfg : f.Before g) : n.Sound filter g :=
  ⟨h.le, h.head.trans hfg.1.1,
    fun e he hgt hle => h.passes e (hfg.1.mem_log he (hle.trans h.head)) hgt hle⟩

section Sound

variable {env : ChangesEnv} {H : ℕ → FeedHistory} {p : ℕ} {filter : WatchFilter}
  {resp : ChangesResponse} {scanned : ℕ}

theorem sound_of_position (hH : ∀ i j, i ≤ j → (H i).Before (H j))
    (h : evaluateChanges env (fun k => (H k).store) ⟨.position p, 1, filter⟩ = .ok (resp, scanned))
    (hempty : resp.changes = []) (id : String) :
    ScanNote.Sound ⟨id, env, p, resp.nextCursor.pos, H⟩ filter (H 7) := by
  obtain ⟨start, q, hstart, hq, hle, hhead, hpassed⟩ :=
    evaluateChanges_empty (fun i j hij => (hH i j hij).1) (by simp) h hempty
  obtain ⟨rfl, -, -⟩ := startPosition_ok rfl hstart
  exact ⟨hle, hhead, fun e he hgt hle => ⟨hgt, hle, q, hq, hpassed e he hgt hle⟩⟩

theorem sound_of_oldest (hH : ∀ i j, i ≤ j → (H i).Before (H j))
    (hp : p < (H 0).store.prunedThrough)
    (h : evaluateChanges env (fun k => (H k).store) ⟨.oldest, 1, filter⟩ = .ok (resp, scanned))
    (hempty : resp.changes = []) (id : String) :
    ScanNote.Sound ⟨id, env, p, resp.nextCursor.pos, H⟩ filter (H 7) := by
  obtain ⟨start, q, hstart, hq, hle, hhead, hpassed⟩ :=
    evaluateChanges_empty (fun i j hij => (hH i j hij).1) (by simp) h hempty
  obtain rfl : (H 0).store.prunedThrough = start := Except.ok.inj hstart
  refine ⟨(hp.trans_le hle).le, hhead, fun e he hgt hle => ⟨hgt, hle, q, hq, ?_⟩⟩
  rcases le_or_gt e.seq (H 0).store.prunedThrough with hpruned | hretained
  · exact ⟨0, .inr (.inr hpruned)⟩
  · exact hpassed e he hretained hle

end Sound

/-- What a scan for an owner in a tenant may see the contexts through. -/
abbrev OwnerViews := (ownerDid : String) → (tenant : Option String) → ChangesEnv → Prop

/-- The record keeps the identity of the subscription as it was created. -/
structure SubscriptionRecord.Of (r : SubscriptionRecord) (new : NewSubscription) : Prop where
  id : new.subscriptionId = r.subscriptionId
  owner : new.ownerDid = r.ownerDid
  tenant : new.tenantId = r.tenantId
  filter : new.filter = r.filter

namespace HintSystem

variable {ι : Type}

/-- The entry is accounted for: a hint that covers it was delivered, or a scan of the owner's view
    passed over it. -/
def Accounted (views : OwnerViews) (s : HintSystem ι) (new : NewSubscription) (e : FeedRow) : Prop :=
  (∃ h ∈ s.delivered, h.subscriptionId = new.subscriptionId ∧ e.seq ≤ h.cursor.pos) ∨
    ∃ n ∈ s.scans, n.subscriptionId = new.subscriptionId ∧ views new.ownerDid new.tenantId n.env ∧
      n.Passes new.filter e

/-- The record is of a created subscription, and every entry up to its position is accounted for. -/
def Known (views : OwnerViews) (s : HintSystem ι) (r : SubscriptionRecord) : Prop :=
  ∃ new, s.created r.subscriptionId = some new ∧ r.Of new ∧ r.lastHintedSeq ≤ s.feed.store.head ∧
    ∀ e ∈ s.feed.log, new.lastHintedSeq < e.seq → e.seq ≤ r.lastHintedSeq → s.Accounted views new e

/-- What the actions of all programs do.  The positions do not go back while the clocks do not. -/
structure Grows (clocks : Prop) (s t : HintSystem ι) : Prop where
  feed : s.feed.Before t.feed
  delivered : s.delivered ⊆ t.delivered
  scans : s.scans ⊆ t.scans
  created : ∀ id new, s.created id = some new → t.created id = some new
  rows : ∀ id new r', s.created id = some new → t.subs.row? id = some r' →
    ∃ r, s.subs.row? id = some r ∧ (clocks → r.lastHintedSeq ≤ r'.lastHintedSeq)

variable {views : OwnerViews} {clocks : Prop} {s t u : HintSystem ι}

theorem Grows.refl (s : HintSystem ι) : Grows clocks s s :=
  ⟨.refl _, List.Subset.refl _, List.Subset.refl _, fun _ _ h => h, fun _ _ r' _ h => ⟨r', h, fun _ => le_rfl⟩⟩

theorem Grows.trans (hst : Grows clocks s t) (htu : Grows clocks t u) : Grows clocks s u where
  feed := hst.feed.trans htu.feed
  delivered := List.Subset.trans hst.delivered htu.delivered
  scans := List.Subset.trans hst.scans htu.scans
  created id new h := htu.created id new (hst.created id new h)
  rows id new r'' hnew hrow := by
    obtain ⟨r', hr', hle'⟩ := htu.rows id new r'' (hst.created id new hnew) hrow
    obtain ⟨r, hr, hle⟩ := hst.rows id new r' hnew hr'
    exact ⟨r, hr, fun hc => (hle hc).trans (hle' hc)⟩

theorem Accounted.grows {new : NewSubscription} {e : FeedRow} (h : s.Accounted views new e)
    (hg : Grows clocks s t) : t.Accounted views new e := by
  rcases h with ⟨hint, hmem, hhint⟩ | ⟨n, hmem, hn⟩
  · exact .inl ⟨hint, hg.delivered hmem, hhint⟩
  · exact .inr ⟨n, hg.scans hmem, hn⟩

theorem Known.leased (h : s.Known views r) (lease : Option ℤ) :
    s.Known views { r with leaseUntilMs := lease } := by
  obtain ⟨new, hnew, hof, hhead, hcovered⟩ := h
  exact ⟨new, hnew, ⟨hof.id, hof.owner, hof.tenant, hof.filter⟩, hhead, hcovered⟩

theorem Known.grows (h : s.Known views r) (hg : Grows clocks s t) : t.Known views r := by
  obtain ⟨new, hnew, hof, hhead, hcovered⟩ := h
  refine ⟨new, hg.created _ _ hnew, hof, hhead.trans hg.feed.1.1, fun e he hgt hle => ?_⟩
  exact (hcovered e (hg.feed.1.mem_log he (hle.trans hhead)) hgt hle).grows hg

end HintSystem

/-- Below it lies the lease of every open claim that no longer holds the row. -/
def SubscriptionRecord.floor (r : SubscriptionRecord) : ℤ :=
  r.leaseUntilMs.getD (r.nextAttemptAtMs + leaseMs)

structure HintInv {ι : Type} (views : OwnerViews) (clocks : Prop) (calls : ι → HintCall)
    (s : HintSystem ι) : Prop where
  ids : s.subs.UniqueIds
  rows : ∀ {id r}, s.subs.row? id = some r → s.Known views r
  tasks : ∀ {i k sub}, s.running i k = some sub → s.Known views sub
  leases : ∀ {i k sub}, s.running i k = some sub →
    ∃ nowMs locked, calls i = .batch nowMs locked ∧ sub.leaseUntilMs = some (nowMs + leaseMs)
  holds : clocks → ∀ {i k sub r l}, s.running i k = some sub →
    s.subs.row? sub.subscriptionId = some r → sub.leaseUntilMs = some l →
    (r.leaseUntilMs = some l ∧ r.lastHintedSeq = sub.lastHintedSeq) ∨ l < r.floor
  single : clocks → ∀ {i k sub i' k' sub'}, s.running i k = some sub → s.running i' k' = some sub' →
    sub.subscriptionId = sub'.subscriptionId → sub.leaseUntilMs = sub'.leaseUntilMs → (i, k) = (i', k')

/-! ## Actions -/

section Actions

variable {ι : Type} {views : OwnerViews} {clocks : Prop} {calls : ι → HintCall} {s t : HintSystem ι}
  {sub : SubscriptionRecord} (h : HintInv views clocks calls s)

include h

theorem HintInv.of_rows (hg : s.Grows clocks t) (hrunning : t.running = s.running)
    (hids : t.subs.UniqueIds) (hrows : ∀ {id r}, t.subs.row? id = some r →
      s.subs.row? id = some r ∨ s.created id = none ∧ t.Known views r) :
    HintInv views clocks calls t where
  ids := hids
  rows hr := (hrows hr).elim (fun hr => (h.rows hr).grows hg) And.right
  tasks hr := (h.tasks (hrunning ▸ hr)).grows hg
  leases hr := h.leases (hrunning ▸ hr)
  holds hc _ _ sub r l hr hrow := by
    rw [hrunning] at hr
    obtain ⟨new, hnew, -⟩ := h.tasks hr
    exact h.holds hc hr ((hrows hrow).resolve_right fun hfree => by cases hnew.symm.trans hfree.1)
  single hc _ _ _ _ _ _ hr hr' := h.single hc (hrunning ▸ hr) (hrunning ▸ hr')

theorem HintInv.of_grows (hg : s.Grows clocks t) (hsubs : t.subs = s.subs)
    (hrunning : t.running = s.running) : HintInv views clocks calls t :=
  h.of_rows hg hrunning (hsubs ▸ h.ids) fun hr => .inl (hsubs ▸ hr)

omit h in
theorem HintSystem.grows_of_same (hfeed : s.feed.Before t.feed) (hdelivered : s.delivered ⊆ t.delivered)
    (hscans : s.scans ⊆ t.scans) (hcreated : t.created = s.created) (hsubs : t.subs = s.subs) :
    s.Grows clocks t where
  feed := hfeed
  delivered := hdelivered
  scans := hscans
  created _ _ h := hcreated ▸ h
  rows _ _ r' _ hr' := ⟨r', hsubs ▸ hr', fun _ => le_rfl⟩

/-! ### The claim of a batch -/

omit h in
theorem floor_claimed {nowMs : ℤ} (hfree : Subscriptions.Free nowMs r) :
    r.floor ≤ nowMs + leaseMs := by
  unfold SubscriptionRecord.floor
  cases hl : r.leaseUntilMs with
  | none => exact Int.add_le_add_right hfree.next _
  | some l =>
    have := hfree.lease l hl
    simp only [Option.getD_some, leaseMs]
    omega

theorem HintInv.lease_lt (hc : clocks) {i : ι} {k : ℕ} {l nowMs : ℤ} (hrun : s.running i k = some sub)
    (hrow : s.subs.row? sub.subscriptionId = some r) (hl : sub.leaseUntilMs = some l)
    (hfree : Subscriptions.Free nowMs r) : l < nowMs + leaseMs := by
  rcases h.holds hc hrun hrow hl with ⟨hlease, -⟩ | hlt
  · have := hfree.lease l hlease
    simp only [leaseMs]
    omega
  · exact hlt.trans_le (floor_claimed hfree)

section Claim

variable [DecidableEq ι] {batch : ι} {nowMs : ℤ} {locked : String → Bool}

omit h in
theorem HintSystem.running_claim {head : ℕ} {j : ι} {k : ℕ}
    (h : (s.claim batch nowMs head locked).2.running j k = some sub) :
    (j = batch ∧
        (s.subs.claimDue nowMs head (nowMs + leaseMs) claimBatch locked).1[k]? = some sub) ∨
      (j ≠ batch ∧ s.running j k = some sub) := by
  by_cases hj : j = batch
  · subst hj
    exact .inl ⟨rfl, by simpa [claim] using h⟩
  · exact .inr ⟨hj, by simpa [claim, Function.update_of_ne hj] using h⟩

theorem HintInv.grows_claim (batch : ι) (nowMs : ℤ) (head : ℕ) (locked : String → Bool) :
    s.Grows clocks (s.claim batch nowMs head locked).2 where
  feed := .refl _
  delivered := List.Subset.refl _
  scans := List.Subset.refl _
  created _ _ h := h
  rows id _ r' _ hr' := by
    obtain ⟨r, hr, hclaimed⟩ := Subscriptions.claimDue_row h.ids hr'
    cases hclaimed <;> exact ⟨_, hr, fun _ => le_rfl⟩

theorem HintInv.claim (hcall : calls batch = .batch nowMs locked) (head : ℕ) :
    HintInv views clocks calls (s.claim batch nowMs head locked).2 where
  ids := h.ids.claimDue _ _ _ _ _
  rows hr' := by
    obtain ⟨r, hr, hclaimed⟩ := Subscriptions.claimDue_row h.ids hr'
    have hknown := (h.rows hr).grows (h.grows_claim batch nowMs head locked)
    cases hclaimed with
    | same => exact hknown
    | leased hfree => exact hknown.leased _
  tasks hrun := by
    rcases HintSystem.running_claim hrun with ⟨-, htask⟩ | ⟨-, hrun⟩
    · obtain ⟨-, r, hr, -, rfl⟩ := Subscriptions.claimDue_task h.ids htask
      exact ((h.rows hr).grows (h.grows_claim batch nowMs head locked)).leased _
    · exact (h.tasks hrun).grows (h.grows_claim batch nowMs head locked)
  leases hrun := by
    rcases HintSystem.running_claim hrun with ⟨rfl, htask⟩ | ⟨-, hrun⟩
    · obtain ⟨-, r, -, -, rfl⟩ := Subscriptions.claimDue_task h.ids htask
      exact ⟨nowMs, locked, hcall, rfl⟩
    · exact h.leases hrun
  holds hc _ _ sub r' l hrun hr' hl := by
    rcases HintSystem.running_claim hrun with ⟨-, htask⟩ | ⟨-, hrun⟩
    · obtain rfl : r' = sub := Option.some.inj (hr'.symm.trans (Subscriptions.claimDue_task h.ids htask).1)
      exact .inl ⟨hl, rfl⟩
    · obtain ⟨r, hr, hclaimed⟩ := Subscriptions.claimDue_row h.ids hr'
      cases hclaimed with
      | same => exact h.holds hc hrun hr hl
      | leased hfree => exact .inr (h.lease_lt hc hrun hr hl hfree)
  single hc i k sub i' k' sub' hrun hrun' hid hlease := by
    -- An open claim has a lease below the one that is taken now.
    have hnew : ∀ {k : ℕ} {j : ι} {k' : ℕ} {sub sub' : SubscriptionRecord},
        (s.subs.claimDue nowMs head (nowMs + leaseMs) claimBatch locked).1[k]? = some sub →
        s.running j k' = some sub' → sub.subscriptionId = sub'.subscriptionId →
        sub.leaseUntilMs = sub'.leaseUntilMs → False := by
      intro k j k' sub sub' htask hrun' hid hlease
      obtain ⟨-, r, hr, hfree, rfl⟩ := Subscriptions.claimDue_task h.ids htask
      exact lt_irrefl _ (h.lease_lt hc hrun' (hid ▸ hr) hlease.symm hfree)
    rcases HintSystem.running_claim hrun with ⟨hi, htask⟩ | ⟨-, hopen⟩ <;>
      rcases HintSystem.running_claim hrun' with ⟨hi', htask'⟩ | ⟨-, hopen'⟩
    · rw [hi, hi', Subscriptions.claimDue_task_unique h.ids htask htask' hid]
    · exact (hnew htask hopen' hid hlease).elim
    · exact (hnew htask' hopen hid.symm hlease.symm).elim
    · exact h.single hc hopen hopen' hid hlease

end Claim

/-! ### The end of a task -/

/-- An attempt of `sub` writes a position up to which the entries are hinted, or passed over by the
    scan it reports. -/
structure Settles (views : OwnerViews) (s : HintSystem ι) (sub : SubscriptionRecord) (p : SubscriptionProgress)
    (scan : Option ScanNote) : Prop where
  ge : sub.lastHintedSeq ≤ p.lastHintedSeq
  head : p.lastHintedSeq ≤ s.feed.store.head
  covered : ∀ e ∈ s.feed.log, sub.lastHintedSeq < e.seq → e.seq ≤ p.lastHintedSeq →
    (∃ h ∈ s.delivered, h.subscriptionId = sub.subscriptionId ∧ e.seq ≤ h.cursor.pos) ∨
      ∃ n ∈ scan, n.subscriptionId = sub.subscriptionId ∧ views sub.ownerDid sub.tenantId n.env ∧
        n.Passes sub.filter e

omit h in
theorem Settles.grows {p : SubscriptionProgress} {scan : Option ScanNote}
    (h : Settles views s sub p scan) (hg : s.Grows clocks t) : Settles views t sub p scan := by
  refine ⟨h.ge, h.head.trans hg.feed.1.1, fun e he hgt hle => ?_⟩
  rcases h.covered e (hg.feed.1.mem_log he (hle.trans h.head)) hgt hle with ⟨hint, hmem, hhint⟩ | hscan
  · exact .inl ⟨hint, hg.delivered hmem, hhint⟩
  · exact .inr hscan

omit h in
theorem HintSystem.Known.settles_same {p : SubscriptionProgress} (h : s.Known views sub)
    (hp : p.lastHintedSeq = sub.lastHintedSeq) :
    Settles views s sub p none := by
  obtain ⟨new, -, -, hhead, -⟩ := h
  exact ⟨hp.ge, hp ▸ hhead, fun e _ hgt hle => absurd hgt (not_lt.2 (hp ▸ hle))⟩

theorem HintInv.last_of_lease (hc : clocks) {batch : ι} {k : ℕ} {lease : ℤ}
    (hrun : s.running batch k = some sub) (hrow : s.subs.row? sub.subscriptionId = some r)
    (hl : sub.leaseUntilMs = some lease) (hlease : r.leaseUntilMs = some lease) :
    r.lastHintedSeq = sub.lastHintedSeq := by
  rcases h.holds hc hrun hrow hl with ⟨-, hlast⟩ | hlt
  · exact hlast
  · simp [SubscriptionRecord.floor, hlease] at hlt

section Finish

variable [DecidableEq ι] {batch : ι} {k : ℕ} {lease : ℤ}
  {p : SubscriptionProgress} {scan : Option ScanNote}

omit h in
theorem HintSystem.running_finish {id : String} {j : ι} {k' : ℕ} {sub' : SubscriptionRecord}
    (h : (s.finish batch k id lease p scan).2.running j k' = some sub') :
    (j, k') ≠ (batch, k) ∧ s.running j k' = some sub' := by
  by_cases hj : j = batch
  · subst hj
    by_cases hk : k' = k
    · subst hk
      simp [finish] at h
    · exact ⟨by simp [hk], by simpa [finish, Function.update_of_ne hk] using h⟩
  · exact ⟨by simp [hj], by simpa [finish, Function.update_of_ne hj] using h⟩

variable (hrun : s.running batch k = some sub)
include hrun

theorem HintInv.grows_finish (hl : sub.leaseUntilMs = some lease) (hp : Settles views s sub p scan) :
    s.Grows clocks (s.finish batch k sub.subscriptionId lease p scan).2 where
  feed := .refl _
  delivered := List.Subset.refl _
  scans := List.subset_append_left _ _
  created _ _ h := h
  rows id _ r' _ hr' := by
    obtain ⟨r, hr, hfinished⟩ := Subscriptions.finishAttempt_row hr'
    refine ⟨r, hr, fun hc => ?_⟩
    cases hfinished with
    | same => exact le_rfl
    | written hid hlease =>
      obtain rfl : sub.subscriptionId = id := hid.symm.trans (Subscriptions.row?_id hr)
      exact (h.last_of_lease hc hrun hr hl hlease).trans_le hp.ge

theorem HintInv.known_finish (hl : sub.leaseUntilMs = some lease) (hp : Settles views s sub p scan)
    (hrow : s.subs.row? sub.subscriptionId = some r) :
    (s.finish batch k sub.subscriptionId lease p scan).2.Known views (Subscriptions.withProgress p r) := by
  obtain ⟨new, hnew, hof, -, hcovered⟩ := (h.tasks hrun).grows (h.grows_finish hrun hl hp)
  obtain ⟨new', hnew', hof', -⟩ := h.rows hrow
  have hid := Subscriptions.row?_id hrow
  rw [hid] at hnew'
  obtain rfl : new = new' := Option.some.inj (hnew.symm.trans hnew')
  refine ⟨new, hid.symm ▸ hnew, ⟨hof'.id, hof'.owner, hof'.tenant, hof'.filter⟩, hp.head,
    fun e he hgt hle => ?_⟩
  rcases le_or_gt e.seq sub.lastHintedSeq with hold | hnewer
  · exact hcovered e he hgt hold
  unfold HintSystem.Accounted
  rw [hof.id, hof.owner, hof.tenant, hof.filter]
  rcases hp.covered e he hnewer hle with hhint | ⟨n, hn, hpassed⟩
  · exact .inl hhint
  · exact .inr ⟨n, List.mem_append_right _ (Option.mem_toList.2 hn), hpassed⟩

theorem HintInv.finish {nowMs : ℤ} (hl : sub.leaseUntilMs = some (nowMs + leaseMs))
    (hp : Settles views s sub p scan) (hnext : clocks → nowMs ≤ p.nextAttemptAtMs) :
    HintInv views clocks calls (s.finish batch k sub.subscriptionId (nowMs + leaseMs) p scan).2 where
  ids := h.ids.finishAttempt _ _ _
  rows {id} {r'} hr' := by
    obtain ⟨r, hr, hfinished⟩ := Subscriptions.finishAttempt_row hr'
    cases hfinished with
    | same => exact (h.rows hr).grows (h.grows_finish hrun hl hp)
    | written hid hlease =>
      obtain rfl : sub.subscriptionId = id := hid.symm.trans (Subscriptions.row?_id hr)
      exact h.known_finish hrun hl hp hr
  tasks hrun' := (h.tasks (HintSystem.running_finish hrun').2).grows (h.grows_finish hrun hl hp)
  leases hrun' := h.leases (HintSystem.running_finish hrun').2
  holds hc i' k' sub' r' l' hrun' hr' hl' := by
    obtain ⟨hne, hrun'⟩ := HintSystem.running_finish hrun'
    obtain ⟨r, hr, hfinished⟩ := Subscriptions.finishAttempt_row hr'
    cases hfinished with
    | same => exact h.holds hc hrun' hr hl'
    | written hid hlease =>
      have hid' : sub'.subscriptionId = sub.subscriptionId := (Subscriptions.row?_id hr).symm.trans hid
      refine .inr ?_
      rcases h.holds hc hrun' hr hl' with ⟨hlease', -⟩ | hlt
      · -- Then the two tasks would hold the same lease.
        refine absurd (h.single hc hrun' hrun hid' ?_) hne
        rw [hl', hl, ← hlease', hlease]
      · have := hnext hc
        simp only [SubscriptionRecord.floor, hlease, Option.getD_some] at hlt
        simp only [SubscriptionRecord.floor, Subscriptions.withProgress, Option.getD_none]
        omega
  single hc _ _ _ _ _ _ hrun₁ hrun₂ :=
    h.single hc (HintSystem.running_finish hrun₁).2 (HintSystem.running_finish hrun₂).2

end Finish

/-! ### Requests -/

omit h in
theorem HintSystem.insert_cases (s : HintSystem ι) (new : NewSubscription) (maxPerOwner : ℕ) :
    (s.insert new maxPerOwner).2 = s ∨ s.subs.row? new.subscriptionId = none ∧
      (s.insert new maxPerOwner).2 =
        { s with
          subs := s.subs ++ [Subscriptions.newRow new]
          created := Function.update s.created new.subscriptionId (some new) } := by
  unfold HintSystem.insert
  have hcases := Subscriptions.create_cases s.subs new maxPerOwner
  generalize s.subs.create new maxPerOwner = outcome at hcases
  cases hcases with
  | refused ho => exact .inl (by simp only [if_neg ho])
  | inserted hfree => exact .inr ⟨hfree, by simp only [if_true]⟩

theorem HintInv.insert (new : NewSubscription) (hnew : s.created new.subscriptionId = none)
    (hlast : new.lastHintedSeq ≤ s.feed.store.head) (maxPerOwner : ℕ) :
    HintInv views clocks calls (s.insert new maxPerOwner).2 ∧
      s.Grows clocks (s.insert new maxPerOwner).2 := by
  rcases s.insert_cases new maxPerOwner with hsame | ⟨hfree, hinserted⟩
  · rw [hsame]
    exact ⟨h, .refl s⟩
  rw [hinserted]
  have hold : ∀ {id new'}, s.created id = some new' → new.subscriptionId ≠ id := by
    rintro _ new' hid rfl
    exact absurd (hnew.symm.trans hid) (by simp)
  have hg : s.Grows clocks { s with
      subs := s.subs ++ [Subscriptions.newRow new]
      created := Function.update s.created new.subscriptionId (some new) } := by
    refine ⟨.refl _, List.Subset.refl _, List.Subset.refl _,
      fun id new' hid => (Function.update_of_ne (hold hid).symm ..).trans hid,
      fun id new' r' hid hr' => ⟨r', ?_, fun _ => le_rfl⟩⟩
    exact (Subscriptions.insert_row hr').resolve_right fun hr => hold hid hr.1
  refine ⟨h.of_rows hg rfl (h.ids.insert hfree) fun hr => ?_, hg⟩
  rcases Subscriptions.insert_row hr with hr | ⟨rfl, rfl⟩
  · exact .inl hr
  · exact .inr ⟨hnew, new, Function.update_self .., ⟨rfl, rfl, rfl, rfl⟩, hlast,
      fun e _ hgt hle => absurd hgt (not_lt.2 hle)⟩

theorem HintInv.delete (ownerDid id : String) :
    HintInv views clocks calls { s with subs := (s.subs.delete ownerDid id).2 } ∧
      s.Grows clocks { s with subs := (s.subs.delete ownerDid id).2 } := by
  have hrow : ∀ {id' r}, (s.subs.delete ownerDid id).2.row? id' = some r → s.subs.row? id' = some r :=
    fun hr => h.ids.row?_filter hr
  have hg : s.Grows clocks { s with subs := (s.subs.delete ownerDid id).2 } :=
    ⟨.refl _, List.Subset.refl _, List.Subset.refl _, fun _ _ h => h,
      fun _ _ r' _ hr' => ⟨r', hrow hr', fun _ => le_rfl⟩⟩
  exact ⟨h.of_rows hg rfl (h.ids.filter _) fun hr => .inl (hrow hr), hg⟩

end Actions

end AcdpRegistry
