/-
  The revocation poller (`acdp-registry-auth/src/revocation_poller.rs`): `poll_loop`
  and `apply_entries`, call by call.

  Any number of pollers work on one store, among the other calls of the service; each
  may stop at any call and start again, and each store call may fail, before or after it
  takes effect.  A page is passed when its entries have all been applied and it names
  the next cursor.

  `poller_step` says what one event can do to a poller.  From it follow the two
  invariants: what has been applied of a page (`applied_of_applying`), and that both
  cursors are reached through passed pages only (`cursors_reached`).
-/
import AcdpRegistry.Auth.Challenge
import AcdpRegistry.Auth.Revoked

namespace AcdpRegistry.Auth

open Lib

/-! ## The loop -/

/-- What `apply_entries` revokes for an entry of the issuer whose expiry is in the calendar. -/
def FeedEntry.record (issuer : String) (e : FeedEntry) : Option RevocationRecord :=
  if e.iss ≠ "" ∧ e.iss ≠ issuer then none
  else (Instant.check (Instant.ofUnix e.exp)).map fun expiresAt => ⟨e.jti, e.sub, expiresAt⟩

/-- `FeedResponse`. -/
structure FeedPage where
  entries : List FeedEntry
  nextCursor : Option ℤ

inductive PollPhase
  | fetching
  /-- In `apply_entries`, with the entries that are left. -/
  | applying (page : FeedPage) (rest : List FeedEntry) (allSucceeded : Bool)
  /-- Before `set_revocation_cursor`; the cursor in memory has moved. -/
  | persisting

structure Poller where
  cursor : ℤ
  phase : PollPhase

/-- The store with the cursors it keeps, and the pollers that run. -/
structure PollState (ι : Type) where
  store : RevocationStore
  persisted : String → Option ℤ
  pollers : ι → Option Poller

inductive PollEvent (ι : Type)
  /-- `poll_loop` is called and reads the persisted cursor. -/
  | start (i : ι) (fault : Option Fault)
  /-- The poller's process ends. -/
  | stop (i : ι)
  /-- Every process ends. -/
  | restart
  | fetchFailed (i : ι)
  | fetched (i : ι) (page : FeedPage)
  /-- The next entry is dropped, or revoked. -/
  | apply (i : ι) (fault : Option Fault)
  /-- `apply_entries` returns. -/
  | finish (i : ι)
  /-- `set_revocation_cursor`. -/
  | persist (i : ι) (fault : Option Fault)
  /-- A call of another part of the service. -/
  | other (e : Event)

section Step

variable {ι : Type} [DecidableEq ι]

def PollState.set (s : PollState ι) (i : ι) (p : Poller) : PollState ι :=
  { s with pollers := Function.update s.pollers i (some p) }

/-- The `revoke` call for one entry; an entry that is dropped counts as applied. -/
def applyEntry (b : Backend) (issuer : String) (e : FeedEntry) (fault : Option Fault)
    (s : RevocationStore) : Bool × RevocationStore :=
  match e.record issuer with
  | none => (true, s)
  | some r =>
    let call := withFault fault (fun t : RevocationStore => (.ok (), t.revoke b r)) s
    (call.1.isOk, call.2)

omit [DecidableEq ι] in
/-- `poll_loop`, from one store call or fetch to the next.  What a poller cannot do where it is
    changes nothing. -/
def PollState.step (b : Backend) (leeway : ℕ) (issuer : ι → String) (s : PollState ι) :
    PollEvent ι → PollState ι
  | .start i fault =>
    let loaded := if fault.isSome then 0 else (s.persisted (issuer i)).getD 0
    s.set i ⟨loaded, .fetching⟩
  | .stop i => { s with pollers := Function.update s.pollers i none }
  | .restart =>
    -- the memory store is gone with its process
    if b = .memory then ⟨fun _ => none, fun _ => none, fun _ => none⟩
    else { s with pollers := fun _ => none }
  | .fetchFailed _ => s
  | .fetched i page =>
    match s.pollers i with
    | some ⟨cursor, .fetching⟩ => s.set i ⟨cursor, .applying page page.entries true⟩
    | _ => s
  | .apply i fault =>
    match s.pollers i with
    | some ⟨cursor, .applying page (e :: rest) allSucceeded⟩ =>
      let call := applyEntry b (issuer i) e fault s.store
      { s.set i ⟨cursor, .applying page rest (allSucceeded && call.1)⟩ with store := call.2 }
    | _ => s
  | .finish i =>
    match s.pollers i with
    | some ⟨cursor, .applying page [] allSucceeded⟩ =>
      match allSucceeded, page.nextCursor with
      | true, some next => s.set i ⟨next, .persisting⟩
      | _, _ => s.set i ⟨cursor, .fetching⟩
    | _ => s
  | .persist i fault =>
    match s.pollers i with
    | some ⟨cursor, .persisting⟩ =>
      let call := withFault fault
        (fun t : String → Option ℤ => (.ok (), Function.update t (issuer i) (some cursor))) s.persisted
      { s.set i ⟨cursor, .fetching⟩ with persisted := call.2 }
    | _ => s
  | .other e => { s with store := e.apply b leeway s.store }

end Step

/-! ## Runs -/

/-- The backend, the leeway, the issuer of each poller, the tables at first and the events; no poller
    runs at first. -/
structure PollHistory (ι : Type) where
  backend : Backend
  leeway : ℕ
  issuer : ι → String
  store : RevocationStore
  persisted : String → Option ℤ
  event : ℕ → PollEvent ι

namespace PollHistory

variable {ι : Type} (h : PollHistory ι)

/-- From event `m` on and before `n` the store is not lost. -/
def Keeps (m n : ℕ) : Prop :=
  ∀ k, m ≤ k → k < n → ¬(h.backend = .memory ∧ h.event k = .restart)

variable {h} {m n : ℕ}

theorem Keeps.succ (hk : h.Keeps m n) (hn : ¬(h.backend = .memory ∧ h.event n = .restart)) :
    h.Keeps m (n + 1) := by
  intro k hmk hkn
  rcases Nat.lt_succ_iff_lt_or_eq.1 hkn with hlt | rfl
  · exact hk k hmk hlt
  · exact hn

theorem keeps_self : h.Keeps n n := fun _ h1 h2 => absurd h2 (not_lt.2 h1)

theorem keeps_of_ne (hn : h.event n ≠ .restart) : h.Keeps n (n + 1) :=
  keeps_self.succ fun hlost => hn hlost.2

variable [DecidableEq ι] (h)

def run : ℕ → PollState ι
  | 0 => ⟨h.store, h.persisted, fun _ => none⟩
  | n + 1 => (run n).step h.backend h.leeway h.issuer (h.event n)

/-- Event `k` moves the cursor of poller `i` past a page, from `c` to `c'`. -/
def Passes (k : ℕ) (i : ι) (page : FeedPage) (c c' : ℤ) : Prop :=
  h.event k = .finish i ∧ (h.run k).pollers i = some ⟨c, .applying page [] true⟩ ∧
    page.nextCursor = some c'

/-- At event `a` the record is revoked; the tombstone expires at `x`, its own expiry unless there was a
    row already. -/
def Applied (a : ℕ) (r : RevocationRecord) (x : ℤ) : Prop :=
  Tombstone (h.run (a + 1)).store r.jti x ∧
    ((h.run a).store r.jti = none → x = h.backend.stamp r.expiresAt)

/-- From event `m` on and before `n` a tombstone that expires at `x` is evicted, at a cutoff that is
    not before `x`. -/
def Evicted (m n : ℕ) (jti : String) (x : ℤ) : Prop :=
  ∃ k now cutoff, m ≤ k ∧ k < n ∧ h.event k = .other ⟨now, .evict⟩ ∧
    tombstoneCutoff now h.leeway = some cutoff ∧ Tombstone (h.run k).store jti x ∧ x ≤ cutoff

/-- A cursor of the feed of `iss` before event `n`: 0, the one persisted at first, or the next cursor
    of a page passed from such a cursor. -/
inductive Reached (iss : String) : ℕ → ℤ → Prop
  | zero (n : ℕ) : Reached iss n 0
  | initial (n : ℕ) (c : ℤ) (hc : h.persisted iss = some c) (hkeeps : h.Keeps 0 n) : Reached iss n c
  | page (k n : ℕ) (i : ι) (page : FeedPage) (c c' : ℤ) (hkn : k < n) (hi : h.issuer i = iss)
      (hc : Reached iss k c) (hpass : h.Passes k i page c c') (hkeeps : h.Keeps k n) : Reached iss n c'

/-- On SQLite, the tombstones that an eviction finds expire in the years 0 to 9999. -/
def InYears : Prop :=
  h.backend = .sqlite → ∀ k now, h.event k = .other ⟨now, .evict⟩ →
    ∀ jti x, Tombstone (h.run k).store jti x → Rfc3339.InYears x

variable {h} {k : ℕ} {i : ι} {p : Poller}

/-! ## What an event does -/

/-- Poller `i` after event `n`. -/
inductive PollerStep (h : PollHistory ι) (n : ℕ) (i : ι) : Poller → Prop
  | same (p : Poller) (hp : (h.run n).pollers i = some p) : PollerStep h n i p
  | started (c : ℤ) (hc : c = 0 ∨ (h.run n).persisted (h.issuer i) = some c) :
      PollerStep h n i ⟨c, .fetching⟩
  | fetched (c : ℤ) (page : FeedPage) (hp : (h.run n).pollers i = some ⟨c, .fetching⟩) :
      PollerStep h n i ⟨c, .applying page page.entries true⟩
  | applied (c : ℤ) (page : FeedPage) (e : FeedEntry) (rest : List FeedEntry) (ok : Bool)
      (fault : Option Fault) (hp : (h.run n).pollers i = some ⟨c, .applying page (e :: rest) ok⟩)
      (hstore : (h.run (n + 1)).store =
        (applyEntry h.backend (h.issuer i) e fault (h.run n).store).2) :
      PollerStep h n i ⟨c, .applying page rest
        (ok && (applyEntry h.backend (h.issuer i) e fault (h.run n).store).1)⟩
  | passed (c c' : ℤ) (page : FeedPage) (hpass : h.Passes n i page c c') :
      PollerStep h n i ⟨c', .persisting⟩
  | again (c : ℤ) (p : Poller) (hp : (h.run n).pollers i = some p) (hc : p.cursor = c) :
      PollerStep h n i ⟨c, .fetching⟩

theorem set_pollers {s : PollState ι} {j : ι} {q : Poller} (hp : (s.set j q).pollers i = some p) :
    (i = j ∧ p = q) ∨ s.pollers i = some p := by
  replace hp : Function.update s.pollers j (some q) i = some p := hp
  by_cases hij : i = j
  · subst hij
    rw [Function.update_self] at hp
    exact .inl ⟨rfl, (Option.some.inj hp).symm⟩
  · rw [Function.update_of_ne hij] at hp
    exact .inr hp

theorem run_succ : h.run (n + 1) = (h.run n).step h.backend h.leeway h.issuer (h.event n) := rfl

theorem run_other {e : Event} (hev : h.event n = .other e) :
    (h.run (n + 1)).store = e.apply h.backend h.leeway (h.run n).store := by
  rw [run_succ, hev, PollState.step]

/-- **One event.** -/
theorem poller_step (hp : (h.run (n + 1)).pollers i = some p) : PollerStep h n i p := by
  have hrun := run_succ (h := h) (n := n)
  cases hev : h.event n with
  | start j fault =>
    rw [hev] at hrun
    simp only [PollState.step] at hrun
    rw [hrun] at hp
    rcases set_pollers hp with ⟨rfl, rfl⟩ | hp
    · refine .started _ ?_
      split
      · exact .inl rfl
      · cases hload : (h.run n).persisted (h.issuer i) with
        | none => exact .inl rfl
        | some c => exact .inr rfl
    · exact .same p hp
  | stop j =>
    rw [hev] at hrun
    simp only [PollState.step] at hrun
    rw [hrun] at hp
    by_cases hij : i = j
    · simp [hij] at hp
    · exact .same p (by simpa [hij] using hp)
  | restart =>
    rw [hev] at hrun
    simp only [PollState.step] at hrun
    rw [hrun] at hp
    split at hp <;> cases hp
  | fetchFailed j =>
    rw [hev] at hrun
    rw [hrun] at hp
    exact .same p hp
  | fetched j page =>
    rw [hev] at hrun
    simp only [PollState.step] at hrun
    rw [hrun] at hp
    split at hp
    · next c hj =>
      rcases set_pollers hp with ⟨rfl, rfl⟩ | hp
      · exact .fetched c page hj
      · exact .same p hp
    · exact .same p hp
  | apply j fault =>
    rw [hev] at hrun
    simp only [PollState.step] at hrun
    split at hrun
    · next c page e rest ok hj =>
      rw [hrun] at hp
      rcases set_pollers hp with ⟨rfl, rfl⟩ | hp
      · exact .applied c page e rest ok fault hj (by rw [hrun])
      · exact .same p hp
    · rw [hrun] at hp
      exact .same p hp
  | finish j =>
    rw [hev] at hrun
    simp only [PollState.step] at hrun
    rw [hrun] at hp
    split at hp
    · next c page ok hj =>
      split at hp
      · next next hnext =>
        rcases set_pollers hp with ⟨rfl, rfl⟩ | hp
        · exact .passed c _ page ⟨hev, hj, hnext⟩
        · exact .same p hp
      · rcases set_pollers hp with ⟨rfl, rfl⟩ | hp
        · exact .again c _ hj rfl
        · exact .same p hp
    · exact .same p hp
  | persist j fault =>
    rw [hev] at hrun
    simp only [PollState.step] at hrun
    rw [hrun] at hp
    split at hp
    · next c hj =>
      rcases set_pollers hp with ⟨rfl, rfl⟩ | hp
      · exact .again c _ hj rfl
      · exact .same p hp
    · exact .same p hp
  | other e =>
    rw [hev] at hrun
    simp only [PollState.step] at hrun
    rw [hrun] at hp
    exact .same p hp

theorem ne_restart (hp : (h.run (n + 1)).pollers i = some p) : h.event n ≠ .restart := by
  intro hev
  rw [run_succ, hev] at hp
  simp only [PollState.step] at hp
  split at hp <;> cases hp

theorem store_step (h : PollHistory ι) (n : ℕ) :
    (h.run (n + 1)).store = (h.run n).store ∨
    (∃ r, (h.run (n + 1)).store = (h.run n).store.revoke h.backend r) ∨
    (∃ e, h.event n = .other e ∧ (h.run (n + 1)).store = e.apply h.backend h.leeway (h.run n).store) ∨
    (h.backend = .memory ∧ h.event n = .restart) := by
  rw [run_succ]
  cases hev : h.event n with
  | start j fault => exact .inl rfl
  | stop j => exact .inl rfl
  | restart =>
    by_cases hb : h.backend = .memory
    · exact .inr (.inr (.inr ⟨hb, rfl⟩))
    · simp [PollState.step, hb]
  | fetchFailed j => exact .inl rfl
  | fetched j page =>
    simp only [PollState.step]
    split <;> exact .inl rfl
  | apply j fault =>
    simp only [PollState.step]
    split
    · next c page e rest ok hj =>
      simp only [applyEntry]
      split
      · exact .inl rfl
      · next r _ =>
        rcases fault with _ | e | e
        · exact .inr (.inl ⟨r, rfl⟩)
        · exact .inl rfl
        · exact .inr (.inl ⟨r, rfl⟩)
    · exact .inl rfl
  | finish j =>
    simp only [PollState.step]
    split
    · split <;> exact .inl rfl
    · exact .inl rfl
  | persist j fault =>
    simp only [PollState.step]
    split <;> exact .inl rfl
  | other e => exact .inr (.inr (.inl ⟨e, rfl, rfl⟩))

theorem persisted_step {iss : String} {c : ℤ} (hc : (h.run (n + 1)).persisted iss = some c) :
    ((h.run n).persisted iss = some c ∧ ¬(h.backend = .memory ∧ h.event n = .restart)) ∨
    ∃ i, h.issuer i = iss ∧ (h.run n).pollers i = some ⟨c, .persisting⟩ ∧ h.event n ≠ .restart := by
  rw [run_succ] at hc
  cases hev : h.event n with
  | persist j fault =>
    rw [hev] at hc
    simp only [PollState.step] at hc
    split at hc
    · next c₀ hj =>
      have hcases : (h.run n).persisted iss = some c ∨
          Function.update (h.run n).persisted (h.issuer j) (some c₀) iss = some c := by
        rcases fault with _ | e | e
        · exact .inr hc
        · exact .inl hc
        · exact .inr hc
      rcases hcases with hc | hc
      · exact .inl ⟨hc, by simp⟩
      · by_cases hiss : iss = h.issuer j
        · subst hiss
          rw [Function.update_self] at hc
          cases hc
          exact .inr ⟨j, rfl, hj, by simp⟩
        · rw [Function.update_of_ne hiss] at hc
          exact .inl ⟨hc, by simp⟩
    · exact .inl ⟨hc, by simp⟩
  | restart =>
    rw [hev] at hc
    by_cases hb : h.backend = .memory
    · simp [PollState.step, hb] at hc
    · exact .inl ⟨by simpa [PollState.step, hb] using hc, fun hlost => hb hlost.1⟩
  | fetched j page =>
    rw [hev] at hc
    simp only [PollState.step] at hc
    split at hc <;> exact .inl ⟨hc, by simp⟩
  | apply j fault =>
    rw [hev] at hc
    simp only [PollState.step] at hc
    split at hc <;> exact .inl ⟨hc, by simp⟩
  | finish j =>
    rw [hev] at hc
    simp only [PollState.step] at hc
    split at hc
    · split at hc <;> exact .inl ⟨hc, by simp⟩
    · exact .inl ⟨hc, by simp⟩
  | start j fault => rw [hev] at hc; exact .inl ⟨hc, by simp⟩
  | stop j => rw [hev] at hc; exact .inl ⟨hc, by simp⟩
  | fetchFailed j => rw [hev] at hc; exact .inl ⟨hc, by simp⟩
  | other e => rw [hev] at hc; exact .inl ⟨hc, by simp⟩

/-! ## Tombstones -/

theorem tombstone_kept {jti : String} {x : ℤ} (hx : Tombstone (h.run m).store jti x) (hmn : m ≤ n)
    (hkeeps : h.Keeps m n) : Tombstone (h.run n).store jti x ∨
      ∃ k e, m ≤ k ∧ k < n ∧ h.event k = .other e ∧ Tombstone (h.run k).store jti x ∧
        e.Evicts h.backend h.leeway x := by
  induction n, hmn using Nat.le_induction with
  | base => exact .inl hx
  | succ n hmn ih =>
    rcases ih fun k hmk hkn => hkeeps k hmk (by omega) with htomb | ⟨k, e, hmk, hkn, hrest⟩
    · rcases store_step h n with hs | ⟨r, hs⟩ | ⟨e, hev, hs⟩ | hlost
      · rw [hs]; exact .inl htomb
      · rw [hs]; exact .inl (htomb.revoke r)
      · rw [hs]
        rcases htomb.apply e with hkept | hevicts
        · exact .inl hkept
        · exact .inr ⟨n, e, hmn, by omega, hev, htomb, hevicts⟩
      · exact absurd hlost (hkeeps n hmn (by omega))
    · exact .inr ⟨k, e, hmk, by omega, hrest⟩

theorem applied_of_ok {e : FeedEntry} {fault : Option Fault} {r : RevocationRecord}
    (hr : e.record (h.issuer i) = some r)
    (hok : (applyEntry h.backend (h.issuer i) e fault (h.run n).store).1 = true)
    (hstore : (h.run (n + 1)).store =
      (applyEntry h.backend (h.issuer i) e fault (h.run n).store).2) : ∃ x, h.Applied n r x := by
  simp only [applyEntry, hr] at hok hstore
  have hrevoke : (h.run (n + 1)).store = (h.run n).store.revoke h.backend r := by
    rcases fault with _ | e | e
    · exact hstore
    · cases hok
    · cases hok
  simp only [Applied, hrevoke, RevocationStore.revoke]
  cases hrow : (h.run n).store r.jti with
  | none => exact ⟨_, ⟨_, Function.update_self .., rfl, rfl⟩, fun _ => rfl⟩
  | some row => exact ⟨_, ⟨_, Function.update_self .., rfl, rfl⟩, fun hnone => by cases hnone⟩

theorem applied_of_applying {c : ℤ} {page : FeedPage} {rest : List FeedEntry}
    (hp : (h.run n).pollers i = some ⟨c, .applying page rest true⟩) :
    ∃ done, page.entries = done ++ rest ∧ ∀ e ∈ done, ∀ r, e.record (h.issuer i) = some r →
      ∃ a < n, (∃ x, h.Applied a r x) ∧ h.Keeps (a + 1) n := by
  induction n generalizing c page rest with
  | zero => cases hp
  | succ n ih =>
    have hne := ne_restart hp
    have hnext : ∀ {a}, h.Keeps (a + 1) n → h.Keeps (a + 1) (n + 1) :=
      fun hk => hk.succ fun hlost => hne hlost.2
    generalize hq : (⟨c, .applying page rest true⟩ : Poller) = q at hp
    cases poller_step hp with
    | same p hp' =>
      subst hq
      obtain ⟨done, hentries, hdone⟩ := ih hp'
      refine ⟨done, hentries, fun e he r hr => ?_⟩
      obtain ⟨a, ha, hx, hk⟩ := hdone e he r hr
      exact ⟨a, by omega, hx, hnext hk⟩
    | fetched c' page' hp' =>
      cases hq
      exact ⟨[], rfl, by simp⟩
    | applied c' page' e rest' ok fault hp' hstore =>
      simp only [Poller.mk.injEq, PollPhase.applying.injEq] at hq
      obtain ⟨rfl, rfl, rfl, hok⟩ := hq
      obtain ⟨rfl, hcall⟩ := Bool.and_eq_true_iff.1 hok.symm
      obtain ⟨done, hentries, hdone⟩ := ih hp'
      refine ⟨done ++ [e], by simp [hentries], fun e' he' r hr => ?_⟩
      rcases List.mem_append.1 he' with he' | he'
      · obtain ⟨a, ha, hx, hk⟩ := hdone e' he' r hr
        exact ⟨a, by omega, hx, hnext hk⟩
      · obtain rfl := List.mem_singleton.1 he'
        exact ⟨n, by omega, applied_of_ok hr hcall hstore, keeps_self⟩
    | started c' hc' => cases hq
    | passed c₁ c₂ page' hpass => cases hq
    | again c' p hp' hc' => cases hq

/-! ## Cursors -/

theorem Reached.succ {iss : String} {c : ℤ} (hc : h.Reached iss n c)
    (hn : ¬(h.backend = .memory ∧ h.event n = .restart)) : h.Reached iss (n + 1) c := by
  cases hc with
  | zero => exact .zero _
  | initial _ _ hc hkeeps => exact .initial _ c hc (hkeeps.succ hn)
  | page k _ i page c₀ _ hkn hi hc hpass hkeeps =>
    exact .page k (n + 1) i page c₀ c (by omega) hi hc hpass (hkeeps.succ hn)

/-- **Both cursors** come from passed pages. -/
theorem cursors_reached (h : PollHistory ι) (n : ℕ) :
    (∀ i p, (h.run n).pollers i = some p → h.Reached (h.issuer i) n p.cursor) ∧
      ∀ iss c, (h.run n).persisted iss = some c → h.Reached iss n c := by
  induction n with
  | zero =>
    refine ⟨fun i p hp => ?_, fun iss c hc => .initial 0 c hc keeps_self⟩
    cases hp
  | succ n ih =>
    obtain ⟨hmemory, hstored⟩ := ih
    constructor
    · intro i p hp
      have hn : ¬(h.backend = .memory ∧ h.event n = .restart) := fun hlost => ne_restart hp hlost.2
      cases poller_step hp with
      | same p hp' => exact (hmemory i p hp').succ hn
      | started c hc =>
        rcases hc with rfl | hc
        · exact .zero _
        · exact (hstored _ c hc).succ hn
      | fetched c page hp' => exact (hmemory i _ hp').succ hn
      | applied c page e rest ok fault hp' hstore => exact (hmemory i _ hp').succ hn
      | passed c c' page hpass =>
        exact .page n (n + 1) i page c c' (by omega) rfl (hmemory i _ hpass.2.1) hpass
          (keeps_of_ne (ne_restart hp))
      | again c p' hp' hc =>
        subst hc
        exact (hmemory i p' hp').succ hn
    · intro iss c hc
      rcases persisted_step hc with ⟨hc, hn⟩ | ⟨i, rfl, hp, hne⟩
      · exact (hstored iss c hc).succ hn
      · exact (hmemory i _ hp).succ fun hlost => hne hlost.2

/-! ## Evictions -/

theorem expired_early_iff {b : Backend} {x cutoff : ℤ} (hc : Rfc3339.InYears cutoff) :
    b.expired x cutoff = true ∧ cutoff < x ↔ b = .sqlite ∧ Rfc3339.endInstant ≤ x := by
  constructor
  · rintro ⟨hexp, hlt⟩
    by_contra hcon
    have hyears : b = .sqlite → Rfc3339.InYears x := by
      intro hb
      have hx : x < Rfc3339.endInstant := not_le.1 fun hle => hcon ⟨hb, hle⟩
      exact ⟨hc.1.trans hlt.le, hx⟩
    have := Backend.le_of_expired hyears hexp
    omega
  · rintro ⟨rfl, hx⟩
    have hout : ¬Rfc3339.InYears x := fun hin => absurd hin.2 (not_lt.2 hx)
    refine ⟨decide_eq_true (Rfc3339.render_lt_of_not_inYears hout hc).le, hc.2.trans_le hx⟩

theorem tombstone_or_evicted (hyears : h.InYears) {jti : String} {x : ℤ}
    (hx : Tombstone (h.run m).store jti x) (hmn : m ≤ n) (hkeeps : h.Keeps m n) :
    Tombstone (h.run n).store jti x ∨ h.Evicted m n jti x := by
  rcases tombstone_kept hx hmn hkeeps with htomb | ⟨k, ⟨now, op⟩, hmk, hkn, hev, htomb, hevicts⟩
  · exact .inl htomb
  · obtain ⟨rfl, cutoff, hcut, hexp⟩ := hevicts
    have hle := Backend.le_of_expired (fun hb => hyears hb k now hev jti x htomb) hexp
    exact .inr ⟨k, now, cutoff, hmk, hkn, hev, hcut, htomb, hle⟩

end PollHistory

open PollHistory in
/-- **The feed is caught up with.**  In every run of pollers, failures, restarts and other calls: a cursor
    is reached through passed pages only; every entry of a passed page is revoked before the page is
    passed, and until an eviction past its cutoff, if on SQLite the run keeps to the years 0 to 9999; and
    only a tombstone that expires after these is evicted early. -/
theorem feed_caught_up_iff {ι : Type} [DecidableEq ι] (h : PollHistory ι) :
    (∀ n i p, (h.run n).pollers i = some p → h.Reached (h.issuer i) n p.cursor) ∧
    (∀ n iss c, (h.run n).persisted iss = some c → h.Reached iss n c) ∧
    (h.InYears → ∀ k i page c c', h.Passes k i page c c' → ∀ e ∈ page.entries, ∀ r,
      e.record (h.issuer i) = some r → ∃ a < k, ∃ x, h.Applied a r x ∧ h.Keeps (a + 1) k ∧
        ∀ n, a < n → h.Keeps (a + 1) n →
          Tombstone (h.run n).store r.jti x ∨ h.Evicted (a + 1) n r.jti x) ∧
    ∀ k now cutoff jti x, h.event k = .other ⟨now, .evict⟩ →
      tombstoneCutoff now h.leeway = some cutoff → Rfc3339.InYears cutoff →
      Tombstone (h.run k).store jti x →
      ((h.run (k + 1)).store jti = none ∧ cutoff < x ↔
        h.backend = .sqlite ∧ Rfc3339.endInstant ≤ x) := by
  refine ⟨fun n => (cursors_reached h n).1, fun n => (cursors_reached h n).2, ?_, ?_⟩
  · rintro hyears k i page c c' ⟨-, hp, -⟩ e he r hr
    obtain ⟨done, hentries, hdone⟩ := applied_of_applying hp
    rw [List.append_nil] at hentries
    obtain ⟨a, hak, ⟨x, hx⟩, hkeeps⟩ := hdone e (hentries ▸ he) r hr
    exact ⟨a, hak, x, hx, hkeeps, fun n han hkeeps => tombstone_or_evicted hyears hx.1 han hkeeps⟩
  · intro k now cutoff jti x hev hcut hin htomb
    rw [← expired_early_iff hin]
    rw [run_other hev]
    constructor
    · rintro ⟨hnone, hlt⟩
      rcases htomb.apply ⟨now, .evict⟩ with hkept | hevicts
      · obtain ⟨row, hrow, -⟩ := hkept
        cases hrow.symm.trans hnone
      · obtain ⟨-, cutoff', hcut', hexp⟩ := hevicts
        cases hcut.symm.trans hcut'
        exact ⟨hexp, hlt⟩
    · rintro ⟨hexp, hlt⟩
      exact ⟨htomb.apply_evicts ⟨rfl, cutoff, hcut, hexp⟩, hlt⟩

def samplePage (exp : ℤ) : FeedPage := ⟨[⟨"", "jti-1", "did:web:alice", exp⟩], some 7⟩

def sampleHistory (exp : ℤ) : PollHistory Unit where
  backend := .sqlite
  leeway := 30
  issuer _ := "peer.test"
  store _ := none
  persisted _ := none
  event
    | 0 => .start () none
    | 1 => .fetched () (samplePage exp)
    | 2 => .apply () none
    | 3 => .finish ()
    | 4 => .persist () none
    | 5 => .other ⟨1700000000000000000, .evict⟩
    | _ => .fetchFailed ()

def sampleTombstone (exp : ℤ) : Entry := ⟨⟨"jti-1", "did:web:alice", Instant.ofUnix exp⟩, true⟩

theorem sample_evicts {exp : ℤ} {k : ℕ} {now : ℤ}
    (hev : (sampleHistory exp).event k = .other ⟨now, .evict⟩) : k = 5 ∧ now = 1700000000000000000 := by
  rcases k with _ | _ | _ | _ | _ | _ | k <;> cases hev
  exact ⟨rfl, rfl⟩

/-- **A revocation is lost.**  The entry expires in the year 10000; its page is passed, and an eviction
    long before its cutoff deletes the tombstone, whose text begins with a sign. -/
theorem far_expiry_evicted_early :
    (sampleHistory 253402300800).Passes 3 () (samplePage 253402300800) 0 7 ∧
      ((sampleHistory 253402300800).run 6).persisted "peer.test" = some 7 ∧
      ((sampleHistory 253402300800).run 5).store "jti-1" = some (sampleTombstone 253402300800) ∧
      ((sampleHistory 253402300800).run 6).store "jti-1" = none ∧
      ∀ x, ¬(sampleHistory 253402300800).Evicted 0 6 "jti-1" x := by
  have hrow : ((sampleHistory 253402300800).run 5).store "jti-1" =
      some (sampleTombstone 253402300800) := by decide +kernel
  refine ⟨⟨rfl, rfl, rfl⟩, rfl, hrow, by decide +kernel, ?_⟩
  rintro x ⟨k, now, cutoff, -, -, hev, hcut, ⟨row, hx, -, rfl⟩, hle⟩
  obtain ⟨rfl, rfl⟩ := sample_evicts hev
  cases hrow.symm.trans hx
  have := Instant.addSeconds_eq hcut
  subst this
  revert hle
  decide

/-- An entry that expires in 2286 is revoked before its page is passed and stays so, past an
    eviction. -/
theorem feed_caught_up_sample :
    (sampleHistory 9999999999).Passes 3 () (samplePage 9999999999) 0 7 ∧
      (sampleHistory 9999999999).Reached "peer.test" 6 7 ∧
      ∃ a < 3, ∃ x, Tombstone ((sampleHistory 9999999999).run 6).store "jti-1" x ∨
        (sampleHistory 9999999999).Evicted (a + 1) 6 "jti-1" x := by
  have hstore : ((sampleHistory 9999999999).run 5).store =
      Function.update (fun _ => none) "jti-1" (some (sampleTombstone 9999999999)) := rfl
  have hyears : (sampleHistory 9999999999).InYears := by
    rintro - k now hev jti x ⟨row, hrow, -, rfl⟩
    obtain ⟨rfl, -⟩ := sample_evicts hev
    rw [hstore, Function.update_apply] at hrow
    split at hrow
    · cases hrow
      decide
    · cases hrow
  have hkeeps : ∀ m n, (sampleHistory 9999999999).Keeps m n := fun _ _ _ _ _ hlost => by cases hlost.1
  have hpass : (sampleHistory 9999999999).Passes 3 () (samplePage 9999999999) 0 7 := ⟨rfl, rfl, rfl⟩
  have htheorem := feed_caught_up_iff (sampleHistory 9999999999)
  refine ⟨hpass, htheorem.2.1 6 "peer.test" 7 rfl, ?_⟩
  obtain ⟨a, ha, x, -, -, hx⟩ := htheorem.2.2.1 hyears 3 () _ 0 7 hpass _ List.mem_cons_self
    ⟨"jti-1", "did:web:alice", Instant.ofUnix 9999999999⟩ rfl
  exact ⟨a, ha, x, hx 6 (by omega) (hkeeps _ _)⟩

end AcdpRegistry.Auth
