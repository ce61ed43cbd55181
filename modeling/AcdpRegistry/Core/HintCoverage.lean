/-
  No change hint is lost.

  Each program of the change-hint system keeps `HintInv` under a rely of its own:
  nobody else ends its task, and nobody else creates its subscription.  So the
  invariant holds throughout every run.
-/
import AcdpRegistry.Core.HintInvariant

namespace AcdpRegistry

open Lib

variable {ι : Type}

/-! ## Rely and guarantee -/

/-- No attempt reads a clock that is behind the reading of the claim it works for. -/
def Clocks (calls : ι → HintCall) (draws : ι → ℕ → HintDraw) : Prop :=
  ∀ i nowMs locked, calls i = .batch nowMs locked →
    ∀ k, nowMs ≤ (draws i k).startMs ∧ nowMs ≤ (draws i k).endMs

/-- The views of the contexts that the attempts draw for an owner. -/
def DrawnViews (w : HintWorker) (draws : ι → ℕ → HintDraw) : OwnerViews := fun ownerDid tenant env =>
  ∃ i k owner, w.parseAgentDid ownerDid = .ok owner ∧ env = (draws i k).env owner tenant

/-- The others claim nothing for the program's batch, do not create its subscription and do not end its
    task. -/
def HintRely (clocks : Prop) (calls : ι → HintCall) : HintTask ι → HintSystem ι → HintSystem ι → Prop
  | .call i, s, t => s.Grows clocks t ∧ ((∀ k, s.running i k = none) → ∀ k, t.running i k = none) ∧
      ∀ new m, calls i = .create new m → s.created new.subscriptionId = none →
        t.created new.subscriptionId = none
  | .attempt i k, s, t => s.Grows clocks t ∧
      ∀ sub, s.running i k = some sub → t.running i k = some sub

/-- A call may open the tasks of its own batch and create its subscription, an attempt may end its own
    task. -/
def HintGuarantee (clocks : Prop) (calls : ι → HintCall) :
    HintTask ι → HintSystem ι → HintSystem ι → Prop
  | .call i, s, t => s.Grows clocks t ∧ (∀ j k, j ≠ i → t.running j k = s.running j k) ∧
      (∀ k sub, s.running i k = some sub → t.running i k = some sub) ∧
      ∀ id, (∀ new m, calls i = .create new m → new.subscriptionId ≠ id) → t.created id = s.created id
  | .attempt i k, s, t => s.Grows clocks t ∧
      (∀ j k', (j, k') ≠ (i, k) → t.running j k' = s.running j k') ∧
      (∀ sub, t.running i k = some sub → s.running i k = some sub) ∧ t.created = s.created

/-- The ids of the subscriptions, random UUIDs, differ. -/
def FreshIds (calls : ι → HintCall) : Prop :=
  ∀ i j new m new' m', calls i = .create new m → calls j = .create new' m' →
    new.subscriptionId = new'.subscriptionId → i = j

section Relations

variable {clocks : Prop} {calls : ι → HintCall}

theorem HintRely.refl (task : HintTask ι) (s : HintSystem ι) : HintRely clocks calls task s s := by
  cases task with
  | call i => exact ⟨.refl s, id, fun _ _ _ => id⟩
  | attempt i k => exact ⟨.refl s, fun _ => id⟩

theorem HintRely.grows {task : HintTask ι} {s t : HintSystem ι} (h : HintRely clocks calls task s t) :
    s.Grows clocks t := by
  cases task <;> exact h.1

theorem HintGuarantee.grows {task : HintTask ι} {s t : HintSystem ι}
    (h : HintGuarantee clocks calls task s t) : s.Grows clocks t := by
  cases task <;> exact h.1

theorem HintRely.trans (task : HintTask ι) (s t u : HintSystem ι) (hst : HintRely clocks calls task s t)
    (htu : HintRely clocks calls task t u) : HintRely clocks calls task s u := by
  cases task with
  | call i =>
    exact ⟨hst.1.trans htu.1, fun h => htu.2.1 (hst.2.1 h),
      fun new m hcall h => htu.2.2 new m hcall (hst.2.2 new m hcall h)⟩
  | attempt i k => exact ⟨hst.1.trans htu.1, fun sub h => htu.2 sub (hst.2 sub h)⟩

theorem HintGuarantee.refl (task : HintTask ι) (s : HintSystem ι) :
    HintGuarantee clocks calls task s s := by
  cases task with
  | call i => exact ⟨.refl s, fun _ _ _ => rfl, fun _ _ => id, fun _ _ => rfl⟩
  | attempt i k => exact ⟨.refl s, fun _ _ _ => rfl, fun _ => id, rfl⟩

theorem HintGuarantee.rely (hfresh : FreshIds calls) (task task' : HintTask ι) (s t : HintSystem ι)
    (hne : task ≠ task') (h : HintGuarantee clocks calls task s t) : HintRely clocks calls task' s t := by
  cases task with
  | call i =>
    obtain ⟨hg, hothers, hown, hcreated⟩ := h
    cases task' with
    | call j =>
      have hij : j ≠ i := fun hij => hne (hij ▸ rfl)
      refine ⟨hg, fun hnone k => (hothers j k hij).trans (hnone k), fun new m hcall hnone => ?_⟩
      exact (hcreated _ fun new' m' hcall' hid => hij (hfresh _ _ _ _ _ _ hcall hcall' hid.symm)).trans
        hnone
    | attempt j k =>
      refine ⟨hg, fun sub hrun => ?_⟩
      by_cases hij : j = i
      · exact hij ▸ hown k sub (hij ▸ hrun)
      · exact (hothers j k hij).trans hrun
  | attempt i k =>
    obtain ⟨hg, hothers, hown, hcreated⟩ := h
    cases task' with
    | call j =>
      refine ⟨hg, fun hnone k' => ?_, fun new m _ hnone => (congrFun hcreated _).trans hnone⟩
      by_cases hjk : (j, k') = (i, k)
      · cases hjk
        cases hrun : t.running i k with
        | none => rfl
        | some sub => exact absurd ((hown sub hrun).symm.trans (hnone k)) (by simp)
      · exact (hothers j k' hjk).trans (hnone k')
    | attempt j k' =>
      have hjk : (j, k') ≠ (i, k) := by
        rintro ⟨⟩
        exact hne rfl
      exact ⟨hg, fun sub hrun => (hothers j k' hjk).trans hrun⟩

end Relations

/-! ## Scans -/

section Scans

variable {w : HintWorker} {calls : ι → HintCall} {draws : ι → ℕ → HintDraw} {task : HintTask ι} {s : HintSystem ι}

variable (w calls draws) in
abbrev TaskWithin {α : Type} (task : HintTask ι) (p : HintProc ι α) (s : HintSystem ι) : Prop :=
  p.Within (HintInv (DrawnViews w draws) (Clocks calls draws) calls) (HintRely (Clocks calls draws) calls task)
    (HintGuarantee (Clocks calls draws) calls task) s

theorem within_snapshots {α : Type} {n : ℕ}
    {f : (ℕ → FeedHistory) → HintProc ι α}
    (h : ∀ H t, (∀ i j, i ≤ j → (H i).Before (H j)) → s.feed.Before (H 0) →
      (∀ i, (H i).Before t.feed) → HintRely (Clocks calls draws) calls task s t →
      HintInv (DrawnViews w draws) (Clocks calls draws) calls t → TaskWithin w calls draws task (f H) t) :
    TaskWithin w calls draws task (snapshots n >>= f) s := by
  induction n generalizing f s with
  | zero =>
    refine Proc.safe_read_bind (HintGuarantee.refl task) fun t hst ht => ?_
    exact h (fun _ => t.feed) t (fun _ _ _ => .refl _) hst.grows.feed (fun _ => .refl _) hst ht
  | succ n ih =>
    refine Proc.safe_read_bind (HintGuarantee.refl task) fun t hst ht => ?_
    show TaskWithin w calls draws task ((snapshots n >>= _) >>= f) t
    rw [Proc.bind_assoc]
    refine ih fun H u hmono hfirst hlast htu hu => ?_
    refine h _ u ?_ hst.grows.feed ?_ (HintRely.trans _ _ _ _ hst htu) hu
    · intro i j hij
      cases i with
      | zero =>
        cases j with
        | zero => exact .refl _
        | succ j => exact hfirst.trans (hmono 0 j j.zero_le)
      | succ i =>
        cases j with
        | zero => omega
        | succ j => exact hmono i j (Nat.le_of_succ_le_succ hij)
    · intro i
      cases i with
      | zero => exact htu.grows.feed
      | succ i => exact hlast i

theorem within_evaluateHint {α : Type} {env : ChangesEnv} (henv : env.Plain) {sub : SubscriptionRecord}
    (hsub : sub.lastHintedSeq ≤ s.feed.store.head)
    {f : ChangesResponse × (ℕ → FeedHistory) → HintProc ι α}
    (h : ∀ resp reads t, HintRely (Clocks calls draws) calls task s t →
      (resp.changes = [] → ScanNote.Sound
        ⟨sub.subscriptionId, env, sub.lastHintedSeq, resp.nextCursor.pos, reads⟩ sub.filter t.feed) →
      TaskWithin w calls draws task (f (resp, reads)) t) :
    TaskWithin w calls draws task (evaluateHint env sub >>= f) s := by
  unfold evaluateHint
  rw [Proc.bind_assoc]
  refine within_snapshots fun H t hmono hfirst hlast hst _ => ?_
  split
  · next resp scanned hev =>
    exact h resp H t hst fun hempty => (sound_of_position hmono hev hempty _).before (hlast 7)
  · next hev =>
    -- Expired: the position was pruned in one of the snapshots, so it lies before the oldest entry.
    obtain ⟨i, -, hpruned⟩ := position_expired henv (fun i j hij => (hmono i j hij).1)
      (hsub.trans hfirst.1.1) hev
    rw [Proc.bind_assoc]
    refine within_snapshots fun H' u hmono' hfirst' hlast' htu _ => ?_
    rw [Proc.bind_assoc]
    refine Proc.safe_lift_bind fun out hev' => ?_
    refine h out.1 H' u (HintRely.trans _ _ _ _ hst htu) fun hempty => ?_
    exact (sound_of_oldest hmono' (hpruned.trans_le ((hlast i).trans hfirst').2) hev' hempty _).before
      (hlast' 7)
  · trivial

end Scans

/-! ## Schedules -/

variable {p : SubscriptionProgress}

section Schedules

variable {calls : ι → HintCall} {draws : ι → ℕ → HintDraw} {batch : ι} {k : ℕ}

def NotBefore (calls : ι → HintCall) (draws : ι → ℕ → HintDraw) (batch : ι) (p : SubscriptionProgress) :
    Prop :=
  Clocks calls draws → ∀ nowMs locked, calls batch = .batch nowMs locked → nowMs ≤ p.nextAttemptAtMs

theorem notBefore_start (h : (draws batch k).startMs ≤ p.nextAttemptAtMs) :
    NotBefore calls draws batch p :=
  fun hc nowMs locked hcall => (hc batch nowMs locked hcall k).1.trans h

theorem notBefore_end (h : (draws batch k).endMs ≤ p.nextAttemptAtMs) :
    NotBefore calls draws batch p :=
  fun hc nowMs locked hcall => (hc batch nowMs locked hcall k).2.trans h

end Schedules

/-! ## Attempts -/

section Attempts

variable [DecidableEq ι] {w : HintWorker} {calls : ι → HintCall} {draws : ι → ℕ → HintDraw}

variable {batch : ι} {k : ℕ} {sub : SubscriptionRecord} {s : HintSystem ι}

theorem within_finishTask (hrun : s.running batch k = some sub) {scan : Option ScanNote}
    (hp : Settles (DrawnViews w draws) s sub p scan) (hnext : NotBefore calls draws batch p)
    (o : HintOutcome) :
    TaskWithin w calls draws (.attempt batch k) (finishTask batch k sub (draws batch k) p scan o) s := by
  refine Proc.safe_act fun t hst ht => ?_
  have hrun := hst.2 sub hrun
  have hp := hp.grows hst.1
  obtain ⟨nowMs, locked, hcall, hl⟩ := ht.leases hrun
  simp only [hl, Option.getD_some]
  have hg := ht.grows_finish hrun hl hp
  refine ⟨ht.finish hrun hl hp fun hc => hnext hc nowMs locked hcall, ⟨hg, fun j k' hjk => ?_,
    fun sub' hrun' => (HintSystem.running_finish hrun').2, rfl⟩, trivial⟩
  by_cases hj : j = batch
  · subst hj
    have hk : k' ≠ k := fun hk => hjk (hk ▸ rfl)
    simp [HintSystem.finish, Function.update_of_ne hk]
  · simp [HintSystem.finish, Function.update_of_ne hj]

/-! ### One subscription's turn -/

theorem within_retry (hrun : s.running batch k = some sub) (hknown : s.Known (DrawnViews w draws) sub) {nowMs : ℤ}
    (hnext : NotBefore calls draws batch (retryOrDisable sub nowMs)) (o : HintOutcome) :
    TaskWithin w calls draws (.attempt batch k)
      (finishTask batch k sub (draws batch k) (retryOrDisable sub nowMs) none o) s :=
  within_finishTask hrun (hknown.settles_same (retryOrDisable_last sub nowMs)) hnext o

theorem within_deliverHint (hrun : s.running batch k = some sub) {feed : FeedHead}
    (hknown : s.Known (DrawnViews w draws) sub) (hlast : sub.lastHintedSeq ≤ feed.head)
    (hhead : feed.head ≤ s.feed.store.head) (secret : String) :
    TaskWithin w calls draws (.attempt batch k)
      (deliverHint w batch k sub (draws batch k) feed secret) s := by
  refine Proc.safe_lift_bind fun body _ => ?_
  refine Proc.safe_act fun t hst ht => ?_
  have hrun := hst.2 sub hrun
  have hknown := hknown.grows hst.1
  have hhead := hhead.trans hst.1.feed.1.1
  generalize (draws batch k).deliver sub.callbackUrl body _ = d
  unfold HintSystem.receive
  by_cases hd : d = .delivered
  · subst hd
    simp only [if_true]
    let hint : ChangeHint := ⟨sub.subscriptionId, hintAuthority w.authority, headCursor feed⟩
    let received : HintSystem ι := { t with delivered := t.delivered ++ [hint] }
    have hg : t.Grows (Clocks calls draws) received :=
      HintSystem.grows_of_same (.refl _) (List.subset_append_left _ _) (List.Subset.refl _) rfl rfl
    have hp : Settles (DrawnViews w draws) received sub (.healthy feed.head ((draws batch k).endMs + hintMinIntervalMs))
        none :=
      ⟨hlast, hhead, fun e _ _ hle =>
        .inl ⟨hint, List.mem_append_right _ (List.mem_singleton_self _), rfl, hle⟩⟩
    have hnext : (draws batch k).endMs ≤ (draws batch k).endMs + hintMinIntervalMs :=
      Int.le_add_of_nonneg_right (by decide)
    have hrun : received.running batch k = some sub := hrun
    exact ⟨ht.of_grows hg rfl rfl, ⟨hg, fun _ _ _ => rfl, fun _ => id, rfl⟩,
      within_finishTask hrun hp (notBefore_end hnext) .delivered⟩
  · simp only [if_neg hd]
    refine ⟨ht, .refl _ _, ?_⟩
    cases d with
    | delivered => exact absurd rfl hd
    | failed why => exact within_retry hrun hknown (notBefore_end (le_retryOrDisable_next _ _)) _
    | refused why => exact within_retry hrun hknown (notBefore_end (le_retryOrDisable_next _ _)) _

theorem within_hintOne (henv : ∀ owner tenant, ((draws batch k).env owner tenant).Plain)
    (hrun : s.running batch k = some sub) (hknown : s.Known (DrawnViews w draws) sub) :
    TaskWithin w calls draws (.attempt batch k) (hintOne w batch k sub (draws batch k)) s := by
  have hdisabled : ∀ {t : HintSystem ι}, t.running batch k = some sub → t.Known (DrawnViews w draws) sub →
      TaskWithin w calls draws (.attempt batch k) (finishTask batch k sub (draws batch k)
        (.disabled sub (draws batch k).startMs) none .disabled) t := fun hrun hknown =>
    within_finishTask hrun (hknown.settles_same rfl) (notBefore_start le_rfl) _
  unfold hintOne
  split
  · exact hdisabled hrun hknown
  next owner howner =>
  split_ifs
  · exact hdisabled hrun hknown
  refine Proc.safe_read_bind (HintGuarantee.refl _) fun t hst ht => ?_
  have hrun := hst.2 sub hrun
  have hknown := hknown.grows hst.1
  have hlast : sub.lastHintedSeq ≤ t.feed.store.head := by
    obtain ⟨_, -, -, hhead, -⟩ := hknown
    exact hhead
  refine within_evaluateHint (henv _ _) hlast fun resp reads u htu hscan => ?_
  have hrun := htu.2 sub hrun
  have hknown := hknown.grows htu.1
  dsimp only
  split_ifs with hempty
  · have hsound := hscan (List.isEmpty_iff.1 hempty)
    refine within_finishTask hrun ⟨hsound.le, hsound.head, fun e he hgt hle => ?_⟩
      (notBefore_start le_rfl) _
    exact .inr ⟨_, rfl, rfl, ⟨batch, k, owner, howner, rfl⟩, hsound.passes e he hgt hle⟩
  have hread := t.feed.store.readHead_head w.sha256
  split
  · exact within_deliverHint hrun hknown (hread ▸ hlast) (hread ▸ htu.1.feed.1.1) _
  · exact within_retry hrun hknown (notBefore_start (le_retryOrDisable_next _ _)) _
  · exact hdisabled hrun hknown

theorem within_attemptProc
    (henv : ∀ owner tenant, ((draws batch k).env owner tenant).Plain) :
    TaskWithin w calls draws (.attempt batch k) (attemptProc w draws batch k) s := by
  refine Proc.safe_read_bind (HintGuarantee.refl _) fun t _ ht => ?_
  cases hrun : t.running batch k with
  | none => trivial
  | some sub => exact Proc.within_bind (within_hintOne henv hrun (ht.tasks hrun)) fun _ _ => trivial

end Attempts

/-! ## Calls -/

section Calls

variable {w : HintWorker} {calls : ι → HintCall} {draws : ι → ℕ → HintDraw} {i : ι} {s : HintSystem ι}

theorem within_create {new : NewSubscription} {maxPerOwner : ℕ}
    (hcall : calls i = .create new maxPerOwner) (hnew : s.created new.subscriptionId = none) :
    TaskWithin w calls draws (.call i) (createSubscription w new maxPerOwner) s := by
  refine Proc.safe_read_bind (HintGuarantee.refl _) fun t hst _ => ?_
  refine Proc.safe_act fun u htu hu => ?_
  have hnew := htu.2.2 new _ hcall (hst.2.2 new _ hcall hnew)
  have hhead : (t.feed.store.readHead w.sha256).head ≤ u.feed.store.head :=
    (t.feed.store.readHead_head w.sha256).trans_le htu.1.feed.1.1
  obtain ⟨hinv, hg⟩ := hu.insert
    { new with lastHintedSeq := (t.feed.store.readHead w.sha256).head } hnew hhead maxPerOwner
  refine ⟨hinv, ⟨hg, fun _ _ _ => rfl, fun _ _ => id, fun id hid => ?_⟩, ?_⟩
  · rcases u.insert_cases { new with lastHintedSeq := (t.feed.store.readHead w.sha256).head }
      maxPerOwner with hsame | ⟨-, hinserted⟩
    · rw [hsame]
    · rw [hinserted]
      exact Function.update_of_ne (hid new _ hcall).symm ..
  · generalize HintSystem.insert _ maxPerOwner u = outcome
    rcases outcome with ⟨e | o, _⟩
    · trivial
    · cases o <;> trivial

variable [DecidableEq ι]

theorem within_batch {nowMs : ℤ} {locked : String → Bool}
    (hcall : calls i = .batch nowMs locked) (hnone : ∀ k, s.running i k = none) :
    TaskWithin w calls draws (.call i) (HintCall.proc w i (.batch nowMs locked)) s := by
  refine Proc.safe_read_bind (HintGuarantee.refl _) fun t hst _ => ?_
  refine Proc.safe_act fun u htu hu => ?_
  have hnone := htu.2.1 (hst.2.1 hnone)
  refine ⟨hu.claim hcall _, ⟨hu.grows_claim _ _ _ _, fun j k hj => ?_, fun k sub hrun => ?_,
    fun _ _ => rfl⟩, trivial⟩
  · simp [HintSystem.claim, Function.update_of_ne hj]
  · exact absurd (hrun.symm.trans (hnone k)) (by simp)

theorem within_call (hcreated : ∀ id, s.created id = none)
    (hnone : ∀ k, s.running i k = none) :
    TaskWithin w calls draws (.call i) ((calls i).proc w i) s := by
  cases hcall : calls i with
  | create new maxPerOwner => exact within_create hcall (hcreated _)
  | delete ownerDid id =>
    refine Proc.safe_act fun t _ ht => ?_
    obtain ⟨hinv, hg⟩ := ht.delete ownerDid id
    refine ⟨hinv, ⟨hg, fun _ _ _ => rfl, fun _ _ h => h, fun _ _ => rfl⟩, ?_⟩
    split <;> trivial
  | batch nowMs locked => exact within_batch hcall hnone

end Calls

/-! ## Runs -/

variable {f : HintSystem ι → HintSystem ι}

theorem HintInv.init (views : OwnerViews) (clocks : Prop) (calls : ι → HintCall) (feed : FeedHistory) :
    HintInv views clocks calls { feed } where
  ids := List.nodup_nil
  rows h := nomatch h
  tasks h := nomatch h
  leases h := nomatch h
  holds _ _ _ _ _ _ h := nomatch h
  single _ _ _ _ _ _ _ h := nomatch h

theorem HintMove.env_cases {sha256 : Sha256} {move : HintMove ι}
    (h : move.move sha256 = .env f) (s : HintSystem ι) :
    ∃ feed', s.feed.Before feed' ∧ f s = { s with feed := feed' } := by
  cases move with
  | task t => cases h
  | append gap a nowMs =>
    cases h
    have hstep : FeedHistory.Step sha256 s.feed (s.feed.append gap a nowMs) := .append _ gap a nowMs
    exact ⟨_, FeedHistory.step_before hstep, rfl⟩
  | prune olderThanMs batch =>
    cases h
    exact ⟨_, FeedHistory.step_before (.prune s.feed olderThanMs batch), rfl⟩

section Runs

variable {w : HintWorker} {feed : FeedHistory} {calls : ι → HintCall} {draws : ι → ℕ → HintDraw}
  {moves : ℕ → HintMove ι}

theorem grows_env {s : HintSystem ι} {n : ℕ} (h : (moves n).move w.sha256 = .env f) :
    s.Grows (Clocks calls draws) (f s) := by
  obtain ⟨feed', hbefore, hf⟩ := (moves n).env_cases h s
  rw [hf]
  exact HintSystem.grows_of_same hbefore (List.Subset.refl _) (List.Subset.refl _) rfl rfl

theorem HintInv.env {views : OwnerViews} {s : HintSystem ι} {n : ℕ}
    (hs : HintInv views (Clocks calls draws) calls s) (h : (moves n).move w.sha256 = .env f) :
    HintInv views (Clocks calls draws) calls (f s) ∧
      ∀ task, HintRely (Clocks calls draws) calls task s (f s) := by
  have hg : s.Grows (Clocks calls draws) (f s) := grows_env h
  obtain ⟨feed', -, hf⟩ := (moves n).env_cases h s
  rw [hf] at hg ⊢
  refine ⟨hs.of_grows hg rfl rfl, fun task => ?_⟩
  cases task with
  | call i => exact ⟨hg, fun h => h, fun _ _ _ h => h⟩
  | attempt i k => exact ⟨hg, fun _ h => h⟩

variable [DecidableEq ι] (hfresh : FreshIds calls)
  (henv : ∀ i k owner tenant, ((draws i k).env owner tenant).Plain)

include henv in
theorem within_procs (task : HintTask ι) :
    TaskWithin w calls draws task ((hintPool w feed calls draws).procs task) { feed } := by
  cases task with
  | call i => exact within_call (fun _ => rfl) fun _ => rfl
  | attempt batch k => exact within_attemptProc fun owner tenant => henv batch k owner tenant

include hfresh henv

theorem hintRun_inv (n : ℕ) : HintInv (DrawnViews w draws) (Clocks calls draws) calls
    (hintRun w feed calls draws moves n) :=
  (Pool.run_safe HintRely.refl HintRely.trans (HintGuarantee.rely hfresh)
    (HintInv.init _ _ calls feed) (within_procs henv) (fun _ _ h hs => hs.env h) n).1

theorem hintRun_grows {m n : ℕ} (hmn : m ≤ n) :
    (hintRun w feed calls draws moves m).Grows (Clocks calls draws)
      (hintRun w feed calls draws moves n) :=
  Pool.run_rel HintRely.refl HintRely.trans (HintGuarantee.rely hfresh)
    (HintInv.init _ _ calls feed) (within_procs henv) (fun _ _ h hs => hs.env h) .refl
    (fun _ _ _ => .trans) (fun _ _ _ h => h.grows) (fun _ _ h => grows_env h) hmn

end Runs

/-- **No change hint is lost.**  Whatever the appends, prunes and workers do: every entry past a
    subscription's first position and up to its `last_hinted_seq` is covered by an accepted hint, or a
    scan of the owner's view passed over it; and the position never goes back while the clocks do not. -/
theorem no_change_hint_lost [DecidableEq ι] (w : HintWorker) (feed : FeedHistory)
    (calls : ι → HintCall) (draws : ι → ℕ → HintDraw) (moves : ℕ → HintMove ι)
    (hfresh : FreshIds calls) (henv : ∀ i k owner tenant, ((draws i k).env owner tenant).Plain) :
    let run := hintRun w feed calls draws moves
    (∀ n id r, (run n).subs.row? id = some r →
      ∃ new, (run n).created id = some new ∧ new.subscriptionId = id ∧
        ∀ e ∈ (run n).feed.log, new.lastHintedSeq < e.seq → e.seq ≤ r.lastHintedSeq →
          (run n).Accounted (DrawnViews w draws) new e) ∧
    (Clocks calls draws → ∀ m n id r r', m ≤ n → (run m).subs.row? id = some r →
      (run n).subs.row? id = some r' → r.lastHintedSeq ≤ r'.lastHintedSeq) := by
  refine ⟨fun n id r hr => ?_, fun hclocks m n id r r' hmn hr hr' => ?_⟩
  · obtain rfl := Subscriptions.row?_id hr
    obtain ⟨new, hnew, hof, -, hcovered⟩ := (hintRun_inv hfresh henv n).rows hr
    exact ⟨new, hnew, hof.id, hcovered⟩
  · obtain rfl := Subscriptions.row?_id hr
    obtain ⟨new, hnew, -⟩ := (hintRun_inv hfresh henv m).rows hr
    obtain ⟨r₀, hr₀, hle⟩ := (hintRun_grows hfresh henv hmn).rows _ new r' hnew hr'
    obtain rfl : r = r₀ := Option.some.inj (hr.symm.trans hr₀)
    exact hle hclocks

namespace Sample

def hintWorker : HintWorker where
  sha256 := id
  requireTenant := false
  authority := "registry.test:8443"
  parseAgentDid := .ok
  openSecret _ _ _ := .ok "secret"
  hintBody hint := .ok (utf8 hint.subscriptionId)
  signHint secret _ _ := secret

def hintSubscription : NewSubscription where
  subscriptionId := "s"
  ownerDid := "did:key:zA"
  tenantId := none
  filter := {}
  callbackUrl := "https://receiver.test/hints"
  secretCt := []
  secretKeyId := 1
  createdAtMs := 0
  lastHintedSeq := 0

/-- A subscription, and three claims; the second one is made after the lease of the first lapsed. -/
def hintCalls : ℕ → HintCall
  | 0 => .create hintSubscription 10
  | 2 => .batch 61001 fun _ => false
  | _ => .batch 1000 fun _ => false

/-- One view in all attempts, in which the owner does not see `c2`; the clock of the second attempt reads
    `nowMs`. -/
def hintDraws (nowMs : ℤ) (i _ : ℕ) : HintDraw :=
  let clock := if i = 2 then nowMs else 1000
  ⟨fun _ _ => { sampleEnv with visible := fun id => id ≠ "c2" }, clock, clock, clock,
    fun _ _ _ => .delivered⟩

/-- The first attempt has read the feed when the second one is made; it ends after the third claim. -/
def hintScript : List (HintMove ℕ) :=
  let append (successor : String) : HintMove ℕ :=
    .append 0 ⟨.superseded, "c1", "l1", "a1", some successor, none, .null, "", ""⟩ 5
  .replicate 2 (.task (.call 0)) ++ [append "c2"] ++ .replicate 2 (.task (.call 1)) ++
    .replicate 10 (.task (.attempt 1 0)) ++ [append "c3"] ++ .replicate 2 (.task (.call 2)) ++
    .replicate 12 (.task (.attempt 2 0)) ++ [append "c4"] ++ .replicate 2 (.task (.call 3)) ++
    [.task (.attempt 1 0)]

def hintMoves (n : ℕ) : HintMove ℕ := hintScript[n]?.getD (.task (.call 0))

def hintedSeq (nowMs : ℤ) (n : ℕ) : Option ℕ :=
  ((hintRun hintWorker .empty hintCalls (hintDraws nowMs) hintMoves n).subs.row? "s").map
    (·.lastHintedSeq)

theorem hintCalls_fresh : FreshIds hintCalls := by
  have hcreate : ∀ {i new m}, hintCalls i = .create new m → i = 0 := by
    intro i new m h
    unfold hintCalls at h
    split at h
    · rfl
    · cases h
    · cases h
  intro i j new m new' m' hi hj _
  rw [hcreate hi, hcreate hj]

theorem hintDraws_plain (nowMs : ℤ) (i k : ℕ) (owner : String) (tenant : Option String) :
    ((hintDraws nowMs i k).env owner tenant).Plain := ⟨nofun, nofun, nofun⟩

theorem hintDraws_clocks : Clocks hintCalls (hintDraws 61001) := by
  intro i nowMs locked hcall k
  unfold hintCalls at hcall
  split at hcall
  · cases hcall
  · cases hcall
    exact ⟨le_rfl, le_rfl⟩
  · next hi =>
    cases hcall
    simp only [hintDraws, if_neg hi]
    exact ⟨le_rfl, le_rfl⟩

end Sample

/-- The first attempt finds its lease lost: the second one held the subscription back, so that it is
    not claimed again at 1000. -/
theorem no_change_hint_lost_sample :
    Sample.hintedSeq 61001 33 = some 2 ∧ Sample.hintedSeq 61001 34 = some 2 ∧
    let run := hintRun Sample.hintWorker .empty Sample.hintCalls (Sample.hintDraws 61001) Sample.hintMoves
    (∀ n id r, (run n).subs.row? id = some r →
      ∃ new, (run n).created id = some new ∧ new.subscriptionId = id ∧
        ∀ e ∈ (run n).feed.log, new.lastHintedSeq < e.seq → e.seq ≤ r.lastHintedSeq →
          (run n).Accounted (DrawnViews Sample.hintWorker (Sample.hintDraws 61001)) new e) ∧
    ∀ m n id r r', m ≤ n → (run m).subs.row? id = some r → (run n).subs.row? id = some r' →
      r.lastHintedSeq ≤ r'.lastHintedSeq := by
  have h := no_change_hint_lost Sample.hintWorker .empty Sample.hintCalls (Sample.hintDraws 61001)
    Sample.hintMoves Sample.hintCalls_fresh (Sample.hintDraws_plain 61001)
  exact ⟨by decide +kernel, by decide +kernel, h.1, h.2 Sample.hintDraws_clocks⟩

/-- A position goes back from 2 to 1, while the owner sees the same contexts throughout: the second
    attempt's clock is before its claim's, so the third claim takes the lease of the first again, whose
    attempt still writes. -/
theorem hinted_seq_goes_back :
    FreshIds Sample.hintCalls ∧
      (∀ i k owner tenant, ((Sample.hintDraws 0 i k).env owner tenant).Plain) ∧
      (∀ i k, (Sample.hintDraws 0 i k).env = (Sample.hintDraws 0 0 0).env) ∧
      ¬Clocks Sample.hintCalls (Sample.hintDraws 0) ∧
      Sample.hintedSeq 0 33 = some 2 ∧ Sample.hintedSeq 0 34 = some 1 := by
  refine ⟨Sample.hintCalls_fresh, Sample.hintDraws_plain 0, fun _ _ => rfl, fun h => ?_,
    by decide +kernel, by decide +kernel⟩
  exact absurd (h 2 61001 _ rfl 0).1 (by decide)

end AcdpRegistry
