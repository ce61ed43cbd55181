/-
  The shared rate window of `/auth/*` (`acdp-registry-pg/src/rate_limit.rs`).

  Replicas that share a Postgres database count their checks on one key in one row: each
  check is one upsert, whose `now()` is fixed when the statement starts and which may then
  wait for the row's lock.  A late statement carries an older clock into a newer window,
  and a rejected one writes as well.

  What a window has left (`remaining`) never grows while the row lives, and each check
  that is allowed takes one of it; `shared_rate_window` follows.
-/
import Mathlib.Data.List.DropRight
import Mathlib.Tactic

namespace AcdpRegistry.Auth

/-! ## A check -/

def windowSecs : ℤ := 60

/-- `MAX_LIMIT`: the column is a 32-bit integer, and the clamp is one more than the limit. -/
def maxLimit : ℕ := 2 ^ 31 - 2

inductive SharedLimitScope
  | perIp
  | global
  deriving DecidableEq, Repr

inductive LimitDecision
  | allow
  | deny (retryAfterSeconds : ℕ)
  deriving DecidableEq, Repr

/-- The row of a scope and key in `rate_limit_windows`. -/
structure WindowRow where
  windowStart : ℤ
  hits : ℕ
  deriving DecidableEq, Repr

/-- `floor(EXTRACT(EPOCH FROM now()))`, for an instant in microseconds. -/
def epochOf (now : ℤ) : ℤ := now / 10 ^ 6

/-- The window of an instant; SQL's division truncates. -/
def windowOf (now : ℤ) : ℤ := (epochOf now).tdiv windowSecs * windowSecs

def nextHits (hits : ℕ) : Except String ℕ :=
  if hits + 1 < 2 ^ 31 then .ok (hits + 1) else .error "integer out of range"

/-- `CHECK_SQL` on the row: the row it leaves and returns. -/
def checkSql (clamp : ℕ) (now : ℤ) : Option WindowRow → Except String WindowRow
  | none => .ok ⟨windowOf now, 1⟩
  | some b => do
    let hits ← if windowOf now > b.windowStart then .ok 1 else (nextHits b.hits).map (min · clamp)
    return ⟨max b.windowStart (windowOf now), hits⟩

/-- `decide`. -/
def decideLimit (hits limit : ℕ) (windowStart nowEpoch : ℤ) : LimitDecision :=
  if hits ≤ limit then .allow
  else
    let remaining := windowStart + windowSecs - nowEpoch
    .deny (max 1 (min remaining windowSecs)).toNat

structure PgRateLimitBackend where
  perIpLimit : ℕ
  globalLimit : ℕ

namespace PgRateLimitBackend

variable (backend : PgRateLimitBackend) (scope : SharedLimitScope)

/-- The limit of a scope, as `run` gives it to the statement and to `decide`. -/
def limit : ℕ :=
  match scope with
  | .perIp => min backend.perIpLimit maxLimit
  | .global => min backend.globalLimit maxLimit

/-- `run`: an error of the statement counts as an unavailable database and leaves the row. -/
def run (now : ℤ) (row : Option WindowRow) : Except String (WindowRow × LimitDecision) := do
  let limit := backend.limit scope
  let row ← checkSql (limit + 1) now row
  return (row, decideLimit row.hits limit row.windowStart (epochOf now))

end PgRateLimitBackend

/-! ## Replicas -/

/-- The row, the database's clock, and for each check that is under way the instant its statement
    started at. -/
structure WindowState (ι : Type) where
  row : Option WindowRow := none
  clock : ℤ
  started : ι → Option ℤ := fun _ => none

inductive WindowEvent (ι : Type)
  /-- The database's clock changes. -/
  | tick (now : ℤ)
  /-- The statement of a check starts. -/
  | start (i : ι)
  /-- It has the row's lock, and runs. -/
  | finish (i : ι)
  /-- It is cancelled without effect. -/
  | cancel (i : ι)
  /-- `prune_older_than`, by a statement that started at `now`. -/
  | prune (maxAgeSecs now : ℤ)

inductive WindowOutcome
  | quiet
  /-- A check left this row and this decision. -/
  | checked (row : WindowRow) (decision : LimitDecision)
  | pruned
  deriving DecidableEq

namespace WindowOutcome

def isPruned : WindowOutcome → Bool
  | pruned => true
  | _ => false

def countedIn (w : ℤ) : WindowOutcome → Bool
  | checked row _ => row.windowStart = w
  | _ => false

def allowedIn (w : ℤ) : WindowOutcome → Bool
  | checked row decision => row.windowStart = w && decision = .allow
  | _ => false

def sincePrune (outcomes : List WindowOutcome) : List WindowOutcome :=
  outcomes.rtakeWhile (!·.isPruned)

end WindowOutcome

section Replicas

variable {ι : Type} [DecidableEq ι] (backend : PgRateLimitBackend) (scope : SharedLimitScope)

/-- What an event does, on replicas that all have the backend's limits. -/
def WindowState.step (s : WindowState ι) : WindowEvent ι → WindowState ι × WindowOutcome
  | .tick now => ({ s with clock := now }, .quiet)
  | .start i => ({ s with started := Function.update s.started i (some s.clock) }, .quiet)
  | .cancel i => ({ s with started := Function.update s.started i none }, .quiet)
  | .finish i =>
    let ended := { s with started := Function.update s.started i none }
    match s.started i with
    | none => (s, .quiet)
    | some now =>
      match backend.run scope now s.row with
      | .ok (row, decision) => ({ ended with row := some row }, .checked row decision)
      | .error _ => (ended, .quiet)
  | .prune maxAgeSecs now =>
    match s.row with
    | none => (s, .quiet)
    | some b =>
      if b.windowStart < epochOf now - maxAgeSecs then ({ s with row := none }, .pruned)
      else (s, .quiet)

def WindowState.after (s : WindowState ι) (events : List (WindowEvent ι)) :
    WindowState ι × List WindowOutcome :=
  events.foldl (fun r e => ((r.1.step backend scope e).1, r.2 ++ [(r.1.step backend scope e).2])) (s, [])

theorem WindowState.after_snoc (s : WindowState ι) (events : List (WindowEvent ι)) (e : WindowEvent ι) :
    s.after backend scope (events ++ [e]) =
      (((s.after backend scope events).1.step backend scope e).1,
        (s.after backend scope events).2 ++ [((s.after backend scope events).1.step backend scope e).2]) := by
  simp [WindowState.after]

end Replicas

/-! ## One step -/

variable {now : ℤ}

variable {row : Option WindowRow} {r : WindowRow}

theorem checkSql_ok {clamp : ℕ} (h : checkSql clamp now row = .ok r) :
    ((∀ b, row = some b → b.windowStart < r.windowStart) ∧ r.hits = 1) ∨
      ∃ b, row = some b ∧ r.windowStart = b.windowStart ∧ r.hits = min (b.hits + 1) clamp := by
  cases row with
  | none =>
    cases h
    exact .inl ⟨nofun, rfl⟩
  | some b =>
    by_cases hnew : windowOf now > b.windowStart
    · simp only [checkSql, hnew, if_true] at h
      cases h
      refine .inl ⟨fun b' hb => ?_, rfl⟩
      cases hb
      exact lt_max_of_lt_right hnew
    · by_cases hfits : b.hits + 1 < 2 ^ 31
      · simp only [checkSql, hnew, if_false, nextHits, hfits, if_true] at h
        cases h
        exact .inr ⟨b, rfl, max_eq_left (not_lt.1 hnew), rfl⟩
      · simp only [checkSql, hnew, if_false, nextHits, hfits] at h
        cases h

def remaining (limit : ℕ) (w : ℤ) : Option WindowRow → ℕ
  | none => limit
  | some b => if w < b.windowStart then 0 else if w = b.windowStart then limit - b.hits else limit

theorem remaining_some (limit : ℕ) (w : ℤ) (b : WindowRow) : remaining limit w (some b) =
    if w < b.windowStart then 0 else if w = b.windowStart then limit - b.hits else limit := rfl

theorem remaining_checkSql {limit : ℕ} (h : checkSql (limit + 1) now row = .ok r) (w : ℤ) :
    remaining limit w (some r) + (if r.windowStart = w ∧ r.hits ≤ limit then 1 else 0) ≤
      remaining limit w row := by
  rcases checkSql_ok h with ⟨hnew, hhits⟩ | ⟨b, rfl, hstart, hhits⟩
  · -- before the window began nothing was taken of it, or of a later one
    have hfull : r.windowStart ≤ w → remaining limit w row = limit := by
      intro hw
      cases row with
      | none => rfl
      | some b =>
        have hb := hnew b rfl
        rw [remaining, if_neg (by omega), if_neg (by omega)]
    rw [remaining_some]
    split_ifs <;> omega
  · rw [remaining_some, remaining_some]
    split_ifs <;> omega

section Step

variable {ι : Type} [DecidableEq ι] (backend : PgRateLimitBackend) (scope : SharedLimitScope)

theorem WindowState.step_cases (s : WindowState ι) (e : WindowEvent ι) :
    ((s.step backend scope e).2 = .quiet ∧ (s.step backend scope e).1.row = s.row) ∨
    ((s.step backend scope e).2 = .pruned ∧ (s.step backend scope e).1.row = none) ∨
    ∃ now r, checkSql (backend.limit scope + 1) now s.row = .ok r ∧
      (s.step backend scope e).1.row = some r ∧
      (s.step backend scope e).2 =
        .checked r (decideLimit r.hits (backend.limit scope) r.windowStart (epochOf now)) := by
  cases e with
  | tick now => exact .inl ⟨rfl, rfl⟩
  | start i => exact .inl ⟨rfl, rfl⟩
  | cancel i => exact .inl ⟨rfl, rfl⟩
  | finish i =>
    cases hi : s.started i with
    | none => exact .inl (by simp [WindowState.step, hi])
    | some now =>
      cases hcheck : checkSql (backend.limit scope + 1) now s.row with
      | error e =>
        have hrun : backend.run scope now s.row = .error e := by
          rw [PgRateLimitBackend.run, hcheck]
          rfl
        exact .inl (by simp [WindowState.step, hi, hrun])
      | ok r =>
        have hrun : backend.run scope now s.row =
            .ok (r, decideLimit r.hits (backend.limit scope) r.windowStart (epochOf now)) := by
          rw [PgRateLimitBackend.run, hcheck]
          rfl
        refine .inr (.inr ⟨now, r, hcheck, ?_⟩)
        simp [WindowState.step, hi, hrun]
  | prune maxAgeSecs now =>
    cases hrow : s.row with
    | none => exact .inl (by simp [WindowState.step, hrow])
    | some b =>
      by_cases hold : b.windowStart < epochOf now - maxAgeSecs
      · exact .inr (.inl (by simp [WindowState.step, hrow, hold]))
      · exact .inl (by simp [WindowState.step, hrow, hold])

theorem WindowState.step_mono {s : WindowState ι} {e : WindowEvent ι} {b : WindowRow}
    (hb : s.row = some b) (hlive : (s.step backend scope e).2 ≠ .pruned) :
    ∃ b', (s.step backend scope e).1.row = some b' ∧ b.windowStart ≤ b'.windowStart := by
  rcases s.step_cases backend scope e with ⟨-, hrow⟩ | ⟨ho, -⟩ | ⟨now, r, hcheck, hrow, -⟩
  · exact ⟨b, hrow.trans hb, le_rfl⟩
  · exact absurd ho hlive
  · refine ⟨r, hrow, ?_⟩
    rw [hb] at hcheck
    rcases checkSql_ok hcheck with ⟨hnew, -⟩ | ⟨b₀, hb₀, hstart, -⟩
    · exact (hnew b rfl).le
    · cases hb₀
      exact hstart.ge

end Step

/-! ## Whole histories -/

namespace WindowOutcome

theorem countedIn_checked (w : ℤ) (row : WindowRow) (d : LimitDecision) :
    (checked row d).countedIn w = decide (row.windowStart = w) := rfl

theorem allowedIn_checked (w : ℤ) (row : WindowRow) (d : LimitDecision) :
    (checked row d).allowedIn w = (decide (row.windowStart = w) && decide (d = .allow)) := rfl

theorem sincePrune_snoc {outcomes : List WindowOutcome} {o : WindowOutcome} (ho : o.isPruned = false) :
    sincePrune (outcomes ++ [o]) = sincePrune outcomes ++ [o] :=
  List.rtakeWhile_concat_pos _ _ _ (by simp [ho])

theorem sincePrune_pruned (outcomes : List WindowOutcome) : sincePrune (outcomes ++ [pruned]) = [] :=
  List.rtakeWhile_concat_neg _ _ _ (by simp [isPruned])

end WindowOutcome

/-- What holds of the row and of what has happened since it was last pruned. -/
structure WindowInv (limit : ℕ) (row : Option WindowRow) (life : List WindowOutcome) : Prop where
  counted : ∀ b, row = some b → b.hits ≤ life.countP (·.countedIn b.windowStart)
  budget : ∀ w, life.countP (·.allowedIn w) + remaining limit w row ≤ limit

theorem decideLimit_eq_allow {hits limit : ℕ} {windowStart nowEpoch : ℤ} :
    decideLimit hits limit windowStart nowEpoch = .allow ↔ hits ≤ limit := by
  unfold decideLimit
  split
  · next h => exact ⟨fun _ => h, fun _ => rfl⟩
  · next h => exact ⟨nofun, fun h' => absurd h' h⟩

theorem decideLimit_eq_deny {hits limit retryAfter : ℕ} {windowStart nowEpoch : ℤ}
    (h : decideLimit hits limit windowStart nowEpoch = .deny retryAfter) :
    limit < hits ∧ 1 ≤ retryAfter ∧ retryAfter ≤ 60 := by
  unfold decideLimit at h
  split at h
  · cases h
  · next hlimit =>
    cases h
    refine ⟨not_le.1 hlimit, ?_, ?_⟩
    · exact Int.le_toNat (by omega) |>.2 (le_max_left _ _)
    · exact Int.toNat_le.2 (max_le (by omega) (min_le_right _ _))

section Inv

variable {limit : ℕ} {row : Option WindowRow} {r : WindowRow} {life : List WindowOutcome}

theorem WindowInv.quiet (h : WindowInv limit row life) : WindowInv limit row (life ++ [.quiet]) := by
  refine ⟨fun b hb => ?_, fun w => ?_⟩
  · rw [List.countP_append]
    exact (h.counted b hb).trans (Nat.le_add_right _ _)
  · rw [List.countP_append]
    exact h.budget w

theorem WindowInv.pruned : WindowInv limit none [] := ⟨nofun, fun _ => (Nat.zero_add _).le⟩

theorem WindowInv.checked {nowEpoch : ℤ} (h : WindowInv limit row life)
    (hcheck : checkSql (limit + 1) now row = .ok r) :
    WindowInv limit (some r)
      (life ++ [.checked r (decideLimit r.hits limit r.windowStart nowEpoch)]) := by
  refine ⟨fun b hb => ?_, fun w => ?_⟩
  · cases hb
    rw [List.countP_append, List.countP_singleton, WindowOutcome.countedIn_checked,
      if_pos (decide_eq_true rfl)]
    rcases checkSql_ok hcheck with ⟨-, hhits⟩ | ⟨b, rfl, hstart, hhits⟩
    · omega
    · have hbefore := h.counted b rfl
      rw [← hstart] at hbefore
      omega
  · have hleft := remaining_checkSql hcheck w
    have hbudget := h.budget w
    rw [List.countP_append, List.countP_singleton, WindowOutcome.allowedIn_checked]
    simp only [decideLimit_eq_allow, Bool.and_eq_true, decide_eq_true_eq]
    omega

end Inv

section History

variable {ι : Type} [DecidableEq ι] (backend : PgRateLimitBackend) (scope : SharedLimitScope)

variable {s : WindowState ι}

theorem WindowState.step_inv {outcomes : List WindowOutcome}
    (h : WindowInv (backend.limit scope) s.row (WindowOutcome.sincePrune outcomes))
    (e : WindowEvent ι) : WindowInv (backend.limit scope) (s.step backend scope e).1.row
      (WindowOutcome.sincePrune (outcomes ++ [(s.step backend scope e).2])) := by
  rcases s.step_cases backend scope e with ⟨ho, hrow⟩ | ⟨ho, hrow⟩ | ⟨now, r, hcheck, hrow, ho⟩
  · rw [ho, hrow, WindowOutcome.sincePrune_snoc rfl]
    exact h.quiet
  · rw [ho, hrow, WindowOutcome.sincePrune_pruned]
    exact .pruned
  · rw [ho, hrow, WindowOutcome.sincePrune_snoc rfl]
    exact h.checked hcheck

theorem WindowState.after_inv (hs : s.row = none) (events : List (WindowEvent ι)) :
    WindowInv (backend.limit scope) (s.after backend scope events).1.row
      (WindowOutcome.sincePrune (s.after backend scope events).2) := by
  induction events using List.reverseRecOn with
  | nil =>
    show WindowInv _ s.row []
    rw [hs]
    exact .pruned
  | append_singleton events e ih =>
    rw [WindowState.after_snoc]
    exact WindowState.step_inv backend scope ih e

theorem WindowState.after_mono {b : WindowRow} (hb : s.row = some b)
    (events : List (WindowEvent ι)) (hlive : .pruned ∉ (s.after backend scope events).2) :
    ∃ b', (s.after backend scope events).1.row = some b' ∧ b.windowStart ≤ b'.windowStart := by
  induction events using List.reverseRecOn with
  | nil => exact ⟨b, hb, le_rfl⟩
  | append_singleton events e ih =>
    rw [WindowState.after_snoc] at hlive ⊢
    simp only [List.mem_append, List.mem_singleton, not_or] at hlive
    obtain ⟨b₁, hb₁, hle₁⟩ := ih hlive.1
    obtain ⟨b₂, hb₂, hle₂⟩ := WindowState.step_mono backend scope hb₁ (Ne.symm hlive.2)
    exact ⟨b₂, hb₂, hle₁.trans hle₂⟩

end History

/-- **The shared rate window.**  In every history of checks and prunes, however late a check runs after
    its `now()`: until it is pruned a key's window does not move backwards, each window allows at most
    the limit, and a check is denied only if its window is used up, for 1 to 60 seconds. -/
theorem shared_rate_window {ι : Type} [DecidableEq ι] (backend : PgRateLimitBackend)
    (scope : SharedLimitScope) (clock : ℤ) (events : List (WindowEvent ι)) :
    let reached := ({ clock := clock } : WindowState ι).after backend scope events
    (∀ (b : WindowRow) (later : List (WindowEvent ι)), reached.1.row = some b →
      .pruned ∉ (reached.1.after backend scope later).2 →
        ∃ b', (reached.1.after backend scope later).1.row = some b' ∧
          b.windowStart ≤ b'.windowStart) ∧
    (∀ w, (WindowOutcome.sincePrune reached.2).countP (·.allowedIn w) ≤ backend.limit scope) ∧
    (∀ (e : WindowEvent ι) (row : WindowRow) (retryAfter : ℕ),
      (reached.1.step backend scope e).2 = .checked row (.deny retryAfter) →
        backend.limit scope ≤ (WindowOutcome.sincePrune reached.2).countP (·.countedIn row.windowStart) ∧
          1 ≤ retryAfter ∧ retryAfter ≤ 60) := by
  intro reached
  have hinv : WindowInv (backend.limit scope) reached.1.row (WindowOutcome.sincePrune reached.2) :=
    WindowState.after_inv backend scope rfl events
  refine ⟨fun b later hb hlive => WindowState.after_mono backend scope hb later hlive, fun w => ?_, ?_⟩
  · exact (Nat.le_add_right _ _).trans (hinv.budget w)
  · intro e row retryAfter he
    rcases reached.1.step_cases backend scope e with ⟨ho, -⟩ | ⟨ho, -⟩ | ⟨now, r, hcheck, -, ho⟩
    · rw [ho] at he
      cases he
    · rw [ho] at he
      cases he
    · rw [ho] at he
      obtain ⟨rfl, hdeny⟩ := WindowOutcome.checked.inj he
      obtain ⟨hover, hretry⟩ := decideLimit_eq_deny hdeny
      refine ⟨?_, hretry⟩
      rcases checkSql_ok hcheck with ⟨-, hhits⟩ | ⟨b, hb, hstart, hhits⟩
      · -- a new window denies only under the limit 0
        omega
      · have hcounted := hinv.counted b hb
        rw [hstart]
        omega

/-- Two statements start in one window; a third in the next runs first, so that they run late and count
    in its window: one more is allowed there, and the last is told to wait for a whole window. -/
example :
    let reached := ({ clock := 59000000 } : WindowState (Fin 3)).after ⟨2, 9⟩ .perIp
      [.start 0, .start 1, .tick 61000000, .start 2, .finish 2, .finish 0, .finish 1]
    reached.2.map (fun o => (o.allowedIn 60, o.countedIn 60)) =
        [(false, false), (false, false), (false, false), (false, false), (true, true), (true, true),
          (false, true)] ∧
      reached.2.getLast? = some (.checked ⟨60, 3⟩ (.deny 60)) := by
  decide

/-! ## The width of the counter -/

namespace PgRateLimitBackend

variable (backend : PgRateLimitBackend) (scope : SharedLimitScope)

/-- The limit a scope was configured with, before `run` cuts it to `maxLimit`. -/
def configuredLimit : ℕ :=
  match scope with
  | .perIp => backend.perIpLimit
  | .global => backend.globalLimit

theorem limit_eq : backend.limit scope = min (backend.configuredLimit scope) maxLimit := by
  cases scope <;> rfl

def rowChecked (row : Option WindowRow) (now : ℤ) : Option WindowRow :=
  match backend.run scope now row with
  | .ok (row', _) => some row'
  | .error _ => row

/-- The row after checks at these instants, one after the other, on the empty table. -/
def rowAfter (nows : List ℤ) : Option WindowRow := nows.foldl (backend.rowChecked scope) none

theorem rowAfter_snoc (nows : List ℤ) (now : ℤ) :
    backend.rowAfter scope (nows ++ [now]) =
      backend.rowChecked scope (backend.rowAfter scope nows) now := by
  simp [rowAfter]

theorem run_of_checkSql (h : checkSql (backend.limit scope + 1) now row = .ok r) :
    backend.run scope now row =
      .ok (r, decideLimit r.hits (backend.limit scope) r.windowStart (epochOf now)) := by
  rw [run, h]
  rfl

theorem run_full {b : WindowRow} (hw : windowOf now = b.windowStart) (hfull : 2 ^ 31 ≤ b.hits + 1) :
    backend.run scope now (some b) = .error "integer out of range" := by
  have hnext : nextHits b.hits = .error "integer out of range" := if_neg (not_lt.2 hfull)
  rw [run, checkSql, if_neg hw.le.not_gt, hnext]
  rfl

theorem run_ok (hroom : ∀ b, row = some b → b.hits + 1 < 2 ^ 31) (now : ℤ) :
    ∃ r, checkSql (backend.limit scope + 1) now row = .ok r := by
  cases row with
  | none => exact ⟨_, rfl⟩
  | some b =>
    have hnext : nextHits b.hits = .ok (b.hits + 1) := if_pos (hroom b rfl)
    rw [checkSql, hnext]
    split <;> exact ⟨_, rfl⟩

theorem rowAfter_replicate (now : ℤ) {n : ℕ} (hn : n ≤ backend.limit scope) :
    backend.rowAfter scope (List.replicate (n + 1) now) = some ⟨windowOf now, n + 1⟩ := by
  have hmax : backend.limit scope ≤ 2 ^ 31 - 2 := by
    rw [limit_eq]
    exact min_le_right _ _
  induction n with
  | zero => rfl
  | succ n ih =>
    have hnext : nextHits (n + 1) = .ok (n + 1 + 1) := if_pos (by omega)
    have hcheck : checkSql (backend.limit scope + 1) now (some ⟨windowOf now, n + 1⟩) =
        .ok ⟨windowOf now, n + 1 + 1⟩ := by
      rw [checkSql, if_neg (lt_irrefl _), hnext]
      show Except.ok (WindowRow.mk (max _ _) (min (n + 1 + 1) (backend.limit scope + 1))) = _
      rw [max_self, min_eq_left (by omega)]
    rw [List.replicate_succ', rowAfter_snoc, ih (by omega), rowChecked, run_of_checkSql _ _ hcheck]

end PgRateLimitBackend

section Width

variable {ι : Type} [DecidableEq ι] (backend : PgRateLimitBackend) (scope : SharedLimitScope)

theorem hits_checkSql {limit : ℕ} (h : checkSql (limit + 1) now row = .ok r) : r.hits ≤ limit + 1 := by
  rcases checkSql_ok h with ⟨-, hhits⟩ | ⟨b, -, -, hhits⟩ <;> omega

theorem PgRateLimitBackend.hits_rowAfter (nows : List ℤ) :
    ∀ b, backend.rowAfter scope nows = some b → b.hits ≤ backend.limit scope + 1 := by
  induction nows using List.reverseRecOn with
  | nil => exact fun b hb => nomatch hb
  | append_singleton nows now ih =>
    intro b hb
    rw [rowAfter_snoc, rowChecked] at hb
    cases hcheck : checkSql (backend.limit scope + 1) now (backend.rowAfter scope nows) with
    | ok r =>
      rw [run_of_checkSql _ _ hcheck] at hb
      cases hb
      exact hits_checkSql hcheck
    | error e =>
      have hrun : backend.run scope now (backend.rowAfter scope nows) = .error e := by
        rw [run, hcheck]
        rfl
      rw [hrun] at hb
      exact ih b hb

theorem WindowState.hits_after (clock : ℤ) (events : List (WindowEvent ι)) :
    ∀ b, (({ clock := clock } : WindowState ι).after backend scope events).1.row = some b →
      b.hits ≤ backend.limit scope + 1 := by
  induction events using List.reverseRecOn with
  | nil => exact fun b hb => nomatch hb
  | append_singleton events e ih =>
    intro b hb
    rw [WindowState.after_snoc] at hb
    rcases WindowState.step_cases backend scope
      (({ clock := clock } : WindowState ι).after backend scope events).1 e with
      ⟨-, hrow⟩ | ⟨-, hrow⟩ | ⟨now, r, hcheck, hrow, -⟩
    · exact ih b (hrow.symm.trans hb)
    · cases hrow.symm.trans hb
    · cases hrow.symm.trans hb
      exact hits_checkSql hcheck

end Width

/-- **The width of the shared counter.**  No check within one window fails on its own counter just when
    the configured limit is below `MAX_LIMIT`; under such a limit none does in any history. -/
theorem shared_counter_fits {ι : Type} [DecidableEq ι] (backend : PgRateLimitBackend)
    (scope : SharedLimitScope) :
    ((∀ (w : ℤ) (nows : List ℤ) (now : ℤ), (∀ t ∈ now :: nows, windowOf t = w) →
        (∀ b, backend.rowAfter scope nows = some b → b.hits + 1 < 2 ^ 31) ∧
          ∃ r, backend.run scope now (backend.rowAfter scope nows) = .ok r) ↔
      backend.configuredLimit scope < maxLimit) ∧
    (backend.configuredLimit scope < maxLimit →
      ∀ (clock : ℤ) (events : List (WindowEvent ι)) (now : ℤ), ∃ r, backend.run scope now
        (({ clock := clock } : WindowState ι).after backend scope events).1.row = .ok r) := by
  have hlimit := backend.limit_eq scope
  have hmax : maxLimit = 2 ^ 31 - 2 := rfl
  refine ⟨⟨fun h => ?_, fun hlt w nows now _ => ?_⟩, fun hlt clock events now => ?_⟩
  · -- as many checks as fill the column, at one instant
    by_contra hge
    have hfull := backend.rowAfter_replicate scope 0 (le_refl (backend.limit scope))
    have hroom := (h (windowOf 0) (List.replicate (backend.limit scope + 1) 0) 0
      (fun t ht => by
        rcases List.mem_cons.1 ht with rfl | ht
        · rfl
        · rw [List.eq_of_mem_replicate ht])).1 _ hfull
    dsimp only at hroom
    omega
  · have hroom : ∀ b, backend.rowAfter scope nows = some b → b.hits + 1 < 2 ^ 31 := by
      intro b hb
      have hb := backend.hits_rowAfter scope nows b hb
      omega
    obtain ⟨r, hcheck⟩ := backend.run_ok scope hroom now
    exact ⟨hroom, _, backend.run_of_checkSql scope hcheck⟩
  · have hroom : ∀ b, (({ clock := clock } : WindowState ι).after backend scope events).1.row = some b →
        b.hits + 1 < 2 ^ 31 := by
      intro b hb
      have hb := WindowState.hits_after backend scope clock events b hb
      omega
    obtain ⟨r, hcheck⟩ := backend.run_ok scope hroom now
    exact ⟨_, backend.run_of_checkSql scope hcheck⟩

/-- With the largest limit the counter stands at `i32::MAX` after that many checks, and the next check
    fails where it should be denied. -/
theorem shared_counter_overflows :
    (⟨2 ^ 32 - 1, 6000⟩ : PgRateLimitBackend).rowAfter .perIp (List.replicate (2 ^ 31 - 1) 0) =
        some ⟨0, 2 ^ 31 - 1⟩ ∧
      (⟨2 ^ 32 - 1, 6000⟩ : PgRateLimitBackend).run .perIp 0 (some ⟨0, 2 ^ 31 - 1⟩) =
        .error "integer out of range" := by
  have hlimit : (⟨2 ^ 32 - 1, 6000⟩ : PgRateLimitBackend).limit .perIp = 2 ^ 31 - 2 := by decide
  have hcount : 2 ^ 31 - 1 = (2 ^ 31 - 2) + 1 := by norm_num
  refine ⟨?_, PgRateLimitBackend.run_full _ _ rfl (by norm_num)⟩
  rw [hcount, PgRateLimitBackend.rowAfter_replicate _ _ 0 hlimit.ge]
  rfl

/-- The shipped limits leave room. -/
theorem shared_counter_fits_shipped :
    (60 : ℕ) < maxLimit ∧ ∀ (clock : ℤ) (events : List (WindowEvent (Fin 2))) (now : ℤ),
      ∃ r, (⟨60, 6000⟩ : PgRateLimitBackend).run .perIp now
        (({ clock := clock } : WindowState (Fin 2)).after ⟨60, 6000⟩ .perIp events).1.row = .ok r :=
  ⟨by decide, (shared_counter_fits ⟨60, 6000⟩ .perIp).2 (by decide)⟩

end AcdpRegistry.Auth
