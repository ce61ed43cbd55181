/-
  Interleavings of transactions.

  A `Schedule` runs any number of transaction bodies side by side: the committed
  states moment by moment, the moment of every statement, and who commits when.
  Conflicting locks exclude each other from the statement that takes them to the
  end of the transaction.  Nothing else is assumed, so what is proved of every
  schedule holds of every interleaving, with any transaction dropped at any
  statement.
-/
import AcdpRegistry.Lib.Tx

namespace Lib

/-- The committed states, the moments of each transaction's statements and of its end, and the
    transaction that commits at a moment. -/
structure Interleaving (ι σ : Type) where
  db : ℕ → σ
  moment : ι → ℕ → ℕ
  finish : ι → ℕ
  commits : ℕ → Option ι

namespace Interleaving

variable {ι σ κ ρ α : Type} (S : Interleaving ι σ) (body : ι → Tx σ κ ρ α)

/-- The run of transaction `i` on the states its statements see. -/
def attempt (i : ι) : Except ρ α × Local σ κ := (body i).run (fun k => S.db (S.moment i k)) {}

/-- The transaction's outcome, if it gets to the end of its body. -/
def outcome (i : ι) : Except ρ α := (S.attempt body i).1

/-- What the transaction has done by the end of its body. -/
def done (i : ι) : Local σ κ := (S.attempt body i).2

end Interleaving

/-- An interleaving that the database allows. A dropped transaction never commits and makes no
    statement after `finish`. -/
structure Schedule {ι σ κ ρ α : Type} (body : ι → Tx σ κ ρ α) extends Interleaving ι σ where
  ordered : ∀ i, Monotone (moment i)
  idle : ∀ n, commits n = none → db (n + 1) = db n
  commit : ∀ n i, commits n = some i → (∃ a, toInterleaving.outcome body i = .ok a) ∧
    finish i = n ∧ (∀ k, moment i k ≤ n) ∧ db (n + 1) = (toInterleaving.done body i).own (db n)
  exclusive : ∀ i j, i ≠ j → ∀ k l k' l', (k, l) ∈ (toInterleaving.done body i).locks →
    (k', l') ∈ (toInterleaving.done body j).locks → l.Conflict l' →
    moment i k ≤ finish i → moment j k' ≤ finish j → finish i < moment j k' ∨ finish j < moment i k

namespace Schedule

variable {ι σ κ ρ α : Type} {body : ι → Tx σ κ ρ α} (S : Schedule body)

/-- The outcome of transaction `i`, if it gets to the end of its body. -/
def result (i : ι) : Except ρ α := S.outcome body i

/-- The transaction rolls back and answers `r`, at the moment `e` or before: its statements are made by
    then. -/
def RefusedBy (i : ι) (r : ρ) (e : ℕ) : Prop :=
  S.result i = .error r ∧ ∀ k < (S.done body i).stmts, S.moment i k ≤ e

variable {i : ι}

theorem run_of_commit {n : ℕ} (h : S.commits n = some i) :
    ∃ a, (body i).run (fun k => S.db (S.moment i k)) {} = (.ok a, S.done body i) := by
  obtain ⟨⟨a, ha⟩, -⟩ := S.commit n i h
  exact ⟨a, Prod.ext ha rfl⟩

theorem db_of_commit {n : ℕ} (h : S.commits n = some i) :
    S.db (n + 1) = (S.done body i).own (S.db n) := (S.commit n i h).2.2.2

theorem moment_le {n : ℕ} (h : S.commits n = some i) (k : ℕ) : S.moment i k ≤ n :=
  (S.commit n i h).2.2.1 k

theorem finish_eq {n : ℕ} (h : S.commits n = some i) : S.finish i = n :=
  (S.commit n i h).2.1

theorem keeps {I : σ → Prop} (h0 : I (S.db 0))
    (hstep : ∀ n i, S.commits n = some i → (∀ m ≤ n, I (S.db m)) → I (S.db (n + 1))) :
    ∀ n, I (S.db n) := by
  intro n
  induction n using Nat.strong_induction_on with
  | _ n ih =>
    cases n with
    | zero => exact h0
    | succ n =>
      cases hc : S.commits n with
      | none => rw [S.idle n hc]; exact ih n (by omega)
      | some i => exact hstep n i hc fun m hm => ih m (by omega)

theorem kept {I : σ → Prop} {m n : ℕ} (hmn : m ≤ n) (hm : I (S.db m))
    (hstep : ∀ t i, m ≤ t → t < n → S.commits t = some i → I (S.db t) → I (S.db (t + 1))) :
    I (S.db n) := by
  induction n, hmn using Nat.le_induction with
  | base => exact hm
  | succ n hmn ih =>
    have before := ih fun t i hmt htn => hstep t i hmt (by omega)
    cases hc : S.commits n with
    | none => rw [S.idle n hc]; exact before
    | some i => exact hstep n i hmn (by omega) hc before

theorem rel {R : σ → σ → Prop} (hrefl : ∀ s, R s s) (htrans : ∀ s t u, R s t → R t u → R s u)
    {m n : ℕ} (hmn : m ≤ n)
    (hstep : ∀ t i, m ≤ t → t < n → S.commits t = some i → R (S.db t) (S.db (t + 1))) :
    R (S.db m) (S.db n) :=
  S.kept hmn (hrefl _) fun t i hmt htn hi h => htrans _ _ _ h (hstep t i hmt htn hi)

/-- From a transaction's lock to its end, nobody commits who has a lock in conflict with it. -/
theorem not_conflict {j : ι} {k k' t : ℕ} {l l' : Lock κ} (hl : (k, l) ∈ (S.done body i).locks)
    (hkt : S.moment i k ≤ t) (ht : t < S.finish i) (hj : S.commits t = some j)
    (hl' : (k', l') ∈ (S.done body j).locks) : ¬l.Conflict l' := by
  intro hc
  have hfin := S.finish_eq hj
  have hij : i ≠ j := by rintro rfl; omega
  have hk' := S.moment_le hj k'
  have := S.exclusive i j hij k l k' l' hl hl' hc (by omega) (by omega)
  omega

variable {V : κ → Type} {part : (r : κ) → σ → V r}

/-- **Under a lock nobody else writes** to its part, from the statement that takes it to the moment its
    transaction ends. -/
theorem stable_of_lock (hcov : ∀ i, (body i).Safe part []) {k : ℕ} {l : Lock κ}
    (hl : (k, l) ∈ (S.done body i).locks) {r : κ} (hr : l.Guards r) {m n : ℕ}
    (hkm : S.moment i k ≤ m) (hmn : m ≤ n) (hn : n ≤ S.finish i) :
    part r (S.db m) = part r (S.db n) := by
  refine S.rel (R := fun s t => part r s = part r t) (fun _ => rfl) (fun _ _ _ => Eq.trans) hmn
    fun t j hmt htn hj => ?_
  rw [S.db_of_commit hj]
  refine (hcov j _ {} (List.nil_subset _) Local.covers_start r ?_ _).symm
  rintro _ ⟨k', -, l', hl', hr'⟩
  exact S.not_conflict hl (hkm.trans hmt) (htn.trans_le hn) hj hl' (Lock.conflict_of_guards hr hr')

theorem stable (hcov : ∀ i, (body i).Safe part []) {n : ℕ} (hc : S.commits n = some i) {k : ℕ}
    {r : κ} (hheld : (S.done body i).Held k r) :
    part r (S.db (S.moment i k)) = part r (S.db n) := by
  obtain ⟨k', hk', l, hl, hr⟩ := hheld
  exact S.stable_of_lock hcov hl hr (S.ordered i hk') (S.moment_le hc k) (S.finish_eq hc).ge

/-- A transaction whose lock is in conflict with a lock of every other one has the database for itself
    from that lock on. -/
theorem constant_of_lock {k : ℕ} {l : Lock κ} (hl : (k, l) ∈ (S.done body i).locks)
    (hall : ∀ j, j ≠ i → ∃ k' l', (k', l') ∈ (S.done body j).locks ∧ l.Conflict l') {m n : ℕ}
    (hkm : S.moment i k ≤ m) (hmn : m ≤ n) (hn : n ≤ S.finish i) : S.db m = S.db n := by
  refine S.rel (R := fun s t => s = t) (fun _ => rfl) (fun _ _ _ => Eq.trans) hmn
    fun t j hmt htn hj => ?_
  have hij : j ≠ i := by
    rintro rfl
    exact (htn.trans_le hn).ne (S.finish_eq hj).symm
  obtain ⟨k', l', hl', hc⟩ := hall j hij
  exact absurd hc (S.not_conflict hl (hkm.trans hmt) (htn.trans_le hn) hj hl')

/-! ## One after the other -/

section Serial

variable {n : ℕ} (body : Fin n → Tx σ κ ρ α) (init : σ)

/-- The state a transaction leaves that runs alone. -/
def after (p : Tx σ κ ρ α) (db : σ) : σ :=
  match p.run (fun _ => db) {} with
  | (.ok _, s) => s.own db
  | (.error _, _) => db

/-- The states of a serial run: transaction `m` runs at moment `m`. -/
def serialDb : ℕ → σ
  | 0 => init
  | m + 1 => if h : m < n then after (body ⟨m, h⟩) (serialDb m) else serialDb m

def serialCommits (m : ℕ) : Option (Fin n) :=
  if h : m < n then
    match ((body ⟨m, h⟩).run (fun _ => serialDb body init m) {}).1 with
    | .ok _ => some ⟨m, h⟩
    | .error _ => none
  else none

theorem serialCommits_eq_some {m : ℕ} {i : Fin n} (h : serialCommits body init m = some i) :
    (i : ℕ) = m ∧ ∃ a, ((body i).run (fun _ => serialDb body init m) {}).1 = .ok a := by
  unfold serialCommits at h
  split at h
  · next hm =>
    split at h
    · next a ha =>
      obtain rfl : (⟨m, hm⟩ : Fin n) = i := by simpa using h
      exact ⟨rfl, a, ha⟩
    · simp at h
  · simp at h

/-- Transactions that run one after the other are a schedule. -/
def serial : Schedule body where
  db := serialDb body init
  moment i _ := i
  finish i := i
  commits := serialCommits body init
  ordered _ _ _ _ := le_rfl
  idle m h := by
    unfold serialCommits at h
    simp only [serialDb]
    split at h
    · next hm =>
      rw [dif_pos hm, after]
      rcases hrun : (body ⟨m, hm⟩).run (fun _ => serialDb body init m) {} with ⟨_ | a, s⟩
      · rfl
      · simp [hrun] at h
    · next hm => rw [dif_neg hm]
  commit m i h := by
    obtain ⟨rfl, a, ha⟩ := serialCommits_eq_some body init h
    refine ⟨⟨a, ha⟩, rfl, fun _ => le_rfl, ?_⟩
    simp only [serialDb, dif_pos i.isLt, after, Interleaving.done, Interleaving.attempt, Fin.eta]
    rcases hrun : (body i).run (fun _ => serialDb body init i) {} with ⟨_ | b, s⟩
    · simp [hrun] at ha
    · rfl
  exclusive i j hij _ _ _ _ _ _ _ _ _ := Nat.lt_or_gt_of_ne (Fin.val_ne_of_ne hij)

end Serial

/-! ## One inside the other -/

section Within

variable (body : Fin 2 → Tx σ κ ρ α) (split : ℕ) (init : σ)

/-- Transaction 0's first `split` statements see the state at first, the others what transaction 1
    leaves. -/
def withinViews (k : ℕ) : σ := if k < split then init else after (body 1) init

def withinDb : ℕ → σ
  | 0 | 1 => init
  | 2 => after (body 1) init
  | _ + 3 =>
    match (body 0).run (withinViews body split init) {} with
    | (.ok _, s) => s.own (after (body 1) init)
    | (.error _, _) => after (body 1) init

def withinCommits : ℕ → Option (Fin 2)
  | 1 =>
    match ((body 1).run (fun _ => init) {}).1 with
    | .ok _ => some 1
    | .error _ => none
  | 2 =>
    match ((body 0).run (withinViews body split init) {}).1 with
    | .ok _ => some 0
    | .error _ => none
  | _ => none

def withinInterleaving : Interleaving (Fin 2) σ where
  db := withinDb body split init
  moment i k := if i = 0 then if k < split then 0 else 2 else 1
  finish i := if i = 0 then 2 else 1
  commits := withinCommits body split init

theorem attempt_outer : (withinInterleaving body split init).attempt body 0 =
    (body 0).run (withinViews body split init) {} := by
  refine congrArg (fun views => (body 0).run views {}) (funext fun k => ?_)
  simp only [withinInterleaving, if_true, withinViews]
  split <;> rfl

theorem withinCommits_eq_some {n : ℕ} {i : Fin 2} (h : withinCommits body split init n = some i) :
    (n = 1 ∧ i = 1 ∧ ∃ a, ((body 1).run (fun _ => init) {}).1 = .ok a) ∨
      (n = 2 ∧ i = 0 ∧ ∃ a, ((body 0).run (withinViews body split init) {}).1 = .ok a) := by
  unfold withinCommits at h
  split at h
  · split at h
    · next a ha => cases h; exact .inl ⟨rfl, rfl, a, ha⟩
    · cases h
  · split at h
    · next a ha => cases h; exact .inr ⟨rfl, rfl, a, ha⟩
    · cases h
  · cases h

/-- Transaction 0 makes its first `split` statements, then transaction 1 runs, which needs no lock that
    0 has by then, and then 0 goes on. -/
def within (hfree : ∀ e ∈ ((body 0).run (withinViews body split init) {}).2.locks, e.1 < split →
      ∀ e' ∈ ((body 1).run (fun _ => init) {}).2.locks, ¬e.2.Conflict e'.2) :
    Schedule body where
  toInterleaving := withinInterleaving body split init
  ordered i k k' hk := by
    simp only [withinInterleaving]
    split
    · split <;> split <;> omega
    · exact le_rfl
  idle n h := by
    match n, h with
    | 0, _ => rfl
    | 1, h =>
      show after (body 1) init = init
      have h : withinCommits body split init 1 = none := h
      rcases hrun : (body 1).run (fun _ => init) {} with ⟨_ | a, s⟩
      · rw [after, hrun]
      · simp [withinCommits, hrun] at h
    | 2, h =>
      show withinDb body split init 3 = after (body 1) init
      have h : withinCommits body split init 2 = none := h
      rcases hrun : (body 0).run (withinViews body split init) {} with ⟨_ | a, s⟩
      · rw [withinDb, hrun]
      · simp [withinCommits, hrun] at h
    | _ + 3, _ => rfl
  commit n i h := by
    rcases withinCommits_eq_some body split init h with ⟨rfl, rfl, a, ha⟩ | ⟨rfl, rfl, a, ha⟩
    · refine ⟨⟨a, ha⟩, rfl, fun k => le_rfl, ?_⟩
      show after (body 1) init = ((body 1).run (fun _ => init) {}).2.own init
      rcases hrun : (body 1).run (fun _ => init) {} with ⟨_ | b, s⟩
      · simp [hrun] at ha
      · rw [after, hrun]
    · rw [Interleaving.outcome, Interleaving.done, attempt_outer]
      refine ⟨⟨a, ha⟩, rfl, fun k => ?_, ?_⟩
      · simp only [withinInterleaving, if_true]
        split <;> omega
      · show withinDb body split init 3 = _
        rcases hrun : (body 0).run (withinViews body split init) {} with ⟨_ | b, s⟩
        · simp [hrun] at ha
        · rw [withinDb, hrun]
          rfl
  exclusive i j hij k l k' l' hl hl' hc _ _ := by
    -- a lock of the outer transaction from before the inner one would be in conflict
    have hlate : ∀ k l k' l', (k, l) ∈ ((body 0).run (withinViews body split init) {}).2.locks →
        (k', l') ∈ ((body 1).run (fun _ => init) {}).2.locks → l.Conflict l' →
        1 < (if k < split then 0 else 2) := by
      intro k l k' l' hl hl' hc
      split
      · next hk => exact absurd hc (hfree _ hl hk _ hl')
      · omega
    rw [Interleaving.done] at hl hl'
    rcases Fin.exists_fin_two.1 ⟨i, rfl⟩ with rfl | rfl <;>
      rcases Fin.exists_fin_two.1 ⟨j, rfl⟩ with rfl | rfl
    · exact absurd rfl hij
    · rw [attempt_outer] at hl
      exact .inr (hlate k l k' l' hl hl' hc)
    · rw [attempt_outer] at hl'
      exact .inl (hlate k' l' k l hl' hl hc.symm)
    · exact absurd rfl hij

end Within

end Schedule

end Lib
