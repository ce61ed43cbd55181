/-
  Transactions under read committed isolation, with locks held to their end.

  A transaction body is a function of the committed states its statements see.
  Each statement reads the state of its own moment, with the transaction's own
  writes on top, and may take locks; a body ends by committing its writes or by
  rolling them back.  Statements are counted and locks are kept, and a body
  carries the proof of that.
-/
import Mathlib.Tactic

namespace Lib

/-! ## Locks -/

/-- A lock on the whole database, or on one part of it. -/
inductive Lock (κ : Type) where
  | whole
  | part (r : κ)
  deriving DecidableEq, Repr

namespace Lock

variable {κ : Type}

/-- The lock is on the part `r`, or on a state that contains it. -/
def Guards : Lock κ → κ → Prop
  | whole, _ => True
  | part r', r => r' = r

/-- Two transactions cannot both hold these locks. -/
def Conflict : Lock κ → Lock κ → Prop
  | part r, part r' => r = r'
  | _, _ => True

instance [DecidableEq κ] : (l l' : Lock κ) → Decidable (l.Conflict l')
  | part r, part r' => inferInstanceAs (Decidable (r = r'))
  | whole, whole | whole, part _ | part _, whole => .isTrue trivial

theorem Conflict.symm {l l' : Lock κ} (h : l.Conflict l') : l'.Conflict l := by
  cases l <;> cases l' <;> simp_all [Conflict]

theorem conflict_of_guards {l l' : Lock κ} {r : κ} (h : l.Guards r) (h' : l'.Guards r) :
    l.Conflict l' := by
  cases l <;> cases l' <;> simp_all [Guards, Conflict]

end Lock

/-! ## What a transaction has done -/

/-- What a transaction has done so far: its statements, its writes and its locks, each with the
    statement that took it. -/
structure Local (σ κ : Type) where
  stmts : ℕ := 0
  own : σ → σ := id
  locks : List (ℕ × Lock κ) := []

namespace Local

variable {σ κ : Type}

/-- After one more statement, which sees its own writes on top of `committed`. -/
def next (s : Local σ κ) (needs : σ → List (Lock κ)) (write : σ → σ → σ) (committed : σ) :
    Local σ κ where
  stmts := s.stmts + 1
  own := write (s.own committed) ∘ s.own
  locks := s.locks ++ (needs (s.own committed)).map fun l => (s.stmts, l)

/-- `s'` continues `s`. -/
structure Grows (s s' : Local σ κ) : Prop where
  stmts : s.stmts ≤ s'.stmts
  locks : s.locks ⊆ s'.locks

@[refl] theorem Grows.refl (s : Local σ κ) : s.Grows s := ⟨le_rfl, fun _ => id⟩

theorem Grows.trans {s s' s'' : Local σ κ} (h : s.Grows s') (h' : s'.Grows s'') : s.Grows s'' :=
  ⟨h.stmts.trans h'.stmts, fun _ he => h'.locks (h.locks he)⟩

theorem grows_next (s : Local σ κ) (needs : σ → List (Lock κ)) (write : σ → σ → σ)
    (committed : σ) : s.Grows (s.next needs write committed) :=
  ⟨Nat.le_succ _, List.subset_append_left _ _⟩

/-- A lock that guards the part has been held since statement `k` or before. -/
def Held (s : Local σ κ) (k : ℕ) (r : κ) : Prop :=
  ∃ k' ≤ k, ∃ l, (k', l) ∈ s.locks ∧ l.Guards r

theorem Held.mono {s s' : Local σ κ} {k k' : ℕ} {r : κ} (h : s.Held k r) (hs : s.Grows s')
    (hk : k ≤ k') : s'.Held k' r := by
  obtain ⟨j, hj, l, hl, hr⟩ := h
  exact ⟨j, hj.trans hk, l, hs.locks hl, hr⟩

theorem held_next {s : Local σ κ} {needs : σ → List (Lock κ)} {write : σ → σ → σ} {committed : σ}
    {l : Lock κ} {r : κ} (hl : l ∈ needs (s.own committed)) (hr : l.Guards r) :
    (s.next needs write committed).Held s.stmts r :=
  ⟨s.stmts, le_rfl, l, List.mem_append_right _ (List.mem_map.2 ⟨l, hl, rfl⟩), hr⟩

variable {V : κ → Type} (part : (r : κ) → σ → V r)

/-- The writes so far touch only parts that are locked. -/
def Covers (s : Local σ κ) : Prop :=
  ∀ r, (∀ k, ¬s.Held k r) → ∀ db, part r (s.own db) = part r db

variable {part}

theorem covers_start : ({} : Local σ κ).Covers part := fun _ _ _ => rfl

theorem Covers.next {s : Local σ κ} (h : s.Covers part) {needs : σ → List (Lock κ)}
    {write : σ → σ → σ} {committed : σ}
    (hw : ∀ r db, part r (write (s.own committed) db) = part r db ∨
      ∃ k, (s.next needs write committed).Held k r) :
    (s.next needs write committed).Covers part := by
  intro r hr db
  have hold : part r (s.own db) = part r db :=
    h r (fun k hk => hr k (hk.mono (s.grows_next needs write committed) le_rfl)) db
  rcases hw r (s.own db) with hsame | ⟨k, hk⟩
  · exact hsame.trans hold
  · exact absurd hk (hr k)

end Local

/-! ## Bodies -/

/-- A transaction body.  `views k` is the committed state that statement `k` sees.  An error is an
    answer given after a rollback. -/
structure Tx (σ κ ρ α : Type) where
  run : (ℕ → σ) → Local σ κ → Except ρ α × Local σ κ
  grows : ∀ views (s : Local σ κ), s.Grows (run views s).2

namespace Tx

variable {σ κ ρ α β : Type}

/-- Run the second body if the first does not end the transaction. -/
def andThen (p : Tx σ κ ρ α) (f : α → Tx σ κ ρ β) : Tx σ κ ρ β where
  run views s :=
    match p.run views s with
    | (.ok a, s') => (f a).run views s'
    | (.error r, s') => (.error r, s')
  grows views s := by
    have hp := p.grows views s
    rcases hrun : p.run views s with ⟨r | a, s'⟩
    · simpa [hrun] using hp
    · rw [hrun] at hp
      exact hp.trans ((f a).grows views s')

instance : Monad (Tx σ κ ρ) where
  pure a := ⟨fun _ s => (.ok a, s), fun _ s => .refl s⟩
  bind := andThen

def lift (x : Except ρ α) : Tx σ κ ρ α := ⟨fun _ s => (x, s), fun _ s => .refl s⟩

def exit (r : ρ) : Tx σ κ ρ α := lift (.error r)

/-- Roll back and answer if the condition holds. -/
def refuse (c : Prop) [Decidable c] (r : ρ) : Tx σ κ ρ Unit := lift (if c then .error r else .ok ())

/-- Roll back and answer if there is no value. -/
def require (x : Option α) (r : ρ) : Tx σ κ ρ α := lift (x.elim (.error r) .ok)

/-- One statement: it takes the locks `needs`, writes `write` and returns `result`, all of the state
    it sees. -/
def stmt (needs : σ → List (Lock κ)) (write : σ → σ → σ) (result : σ → α) : Tx σ κ ρ α where
  run views s := (.ok (result (s.own (views s.stmts))), s.next needs write (views s.stmts))
  grows views s := s.grows_next needs write (views s.stmts)

def query (needs : σ → List (Lock κ)) (result : σ → α) : Tx σ κ ρ α :=
  stmt needs (fun _ => id) result

/-- The same body, its answers put another way. -/
def mapEnd {ρ' : Type} (f : ρ → ρ') (g : α → β) (p : Tx σ κ ρ α) : Tx σ κ ρ' β where
  run views s := (((p.run views s).1.mapError f).map g, (p.run views s).2)
  grows := p.grows

/-! ### What a body that does not end the transaction has done -/

variable {needs : σ → List (Lock κ)} {p : Tx σ κ ρ α} {f : α → Tx σ κ ρ β} {write : σ → σ → σ}
  {result : σ → α} {x : Except ρ α}

section

variable {views : ℕ → σ} {s s' s'' : Local σ κ} {a : α} {b : β} {r : ρ}

theorem bind_ok :
    (p >>= f).run views s = (.ok b, s'') ↔
      ∃ a s', p.run views s = (.ok a, s') ∧ (f a).run views s' = (.ok b, s'') := by
  show (match p.run views s with
    | (.ok a, s') => (f a).run views s'
    | (.error r, s') => (.error r, s')) = _ ↔ _
  rcases p.run views s with ⟨r | a, s₁⟩
  · simp
  · constructor
    · exact fun h => ⟨a, s₁, rfl, h⟩
    · rintro ⟨a', s', h, hf⟩; cases h; exact hf

theorem bind_error :
    (p >>= f).run views s = (.error r, s'') ↔
      p.run views s = (.error r, s'') ∨
        ∃ a s', p.run views s = (.ok a, s') ∧ (f a).run views s' = (.error r, s'') := by
  show (match p.run views s with
    | (.ok a, s') => (f a).run views s'
    | (.error r, s') => (.error r, s')) = _ ↔ _
  rcases p.run views s with ⟨r' | a, s₁⟩
  · simp
  · simp only [Prod.mk.injEq, reduceCtorEq, false_and, false_or]
    constructor
    · exact fun h => ⟨a, s₁, ⟨rfl, rfl⟩, h⟩
    · rintro ⟨a', s', ⟨ha, rfl⟩, hf⟩; cases ha; exact hf

theorem bind_run_ok (h : p.run views s = (.ok a, s')) :
    (p >>= f).run views s = (f a).run views s' := by
  show (match p.run views s with
    | (.ok a, s') => (f a).run views s'
    | (.error r, s') => (.error r, s')) = _
  rw [h]

theorem bind_run_error (h : p.run views s = (.error r, s')) :
    (p >>= f).run views s = (.error r, s') := bind_error.2 (.inl h)

theorem bind_fst_error (h : (p.run views s).1 = .error r) : ((p >>= f).run views s).1 = .error r :=
  have hrun : p.run views s = (.error r, (p.run views s).2) := Prod.ext h rfl
  congrArg Prod.fst (bind_run_error hrun)

theorem pure_run : (pure a : Tx σ κ ρ α).run views s = (.ok a, s) := rfl

theorem pure_ok {a' : α} : (pure a : Tx σ κ ρ α).run views s = (.ok a', s') ↔ a = a' ∧ s = s' := by
  simp [pure_run]

theorem lift_ok : (lift x : Tx σ κ ρ α).run views s = (.ok a, s') ↔ x = .ok a ∧ s = s' := by
  simp [lift]

theorem lift_error :
    (lift x : Tx σ κ ρ α).run views s = (.error r, s') ↔ x = .error r ∧ s = s' := by
  simp [lift]

theorem require_error {x : Option α} {r' : ρ} :
    (require x r' : Tx σ κ ρ α).run views s = (.error r, s') ↔ x = none ∧ r' = r ∧ s = s' := by
  cases x <;> simp [require, lift]

theorem refuse_error {c : Prop} [Decidable c] {r' : ρ} :
    (refuse c r' : Tx σ κ ρ Unit).run views s = (.error r, s') ↔ c ∧ r' = r ∧ s = s' := by
  by_cases h : c <;> simp [refuse, lift, h]

theorem exit_ok : ¬(exit r : Tx σ κ ρ α).run views s = (.ok a, s') := by simp [exit, lift]

theorem refuse_ok {c : Prop} [Decidable c] {u : Unit} :
    (refuse c r : Tx σ κ ρ Unit).run views s = (.ok u, s') ↔ ¬c ∧ s = s' := by
  by_cases h : c <;> simp [refuse, lift, h]

theorem require_ok {x : Option α} :
    (require x r : Tx σ κ ρ α).run views s = (.ok a, s') ↔ x = some a ∧ s = s' := by
  cases x <;> simp [require, lift]

theorem checked_bind_ok {ε : Type} {x : Except ε α} {g : ε → ρ} :
    (lift (x.mapError g) >>= f).run views s = (.ok b, s') ↔
      ∃ a, x = .ok a ∧ (f a).run views s = (.ok b, s') := by
  cases x <;> simp [bind_ok, lift_ok, Except.mapError]

theorem stmt_ok :
    (stmt needs write result : Tx σ κ ρ α).run views s = (.ok a, s') ↔
      result (s.own (views s.stmts)) = a ∧ s.next needs write (views s.stmts) = s' := by
  simp [stmt]

theorem not_stmt_error : ¬(stmt needs write result : Tx σ κ ρ α).run views s = (.error r, s') := by
  simp [stmt]

theorem query_ok :
    (query needs result : Tx σ κ ρ α).run views s = (.ok a, s') ↔
      result (s.own (views s.stmts)) = a ∧ s.next needs (fun _ => id) (views s.stmts) = s' :=
  stmt_ok

theorem mapEnd_ok {ρ' : Type} {f : ρ → ρ'} {g : α → β} :
    (p.mapEnd f g).run views s = (.ok b, s') ↔ ∃ a, p.run views s = (.ok a, s') ∧ g a = b := by
  rcases hrun : p.run views s with ⟨r | a, s₁⟩ <;>
    simp [mapEnd, hrun, Except.mapError, Except.map, and_comm]

theorem mapEnd_error {ρ' : Type} {f : ρ → ρ'} {g : α → β} {r' : ρ'} :
    (p.mapEnd f g).run views s = (.error r', s') ↔
      ∃ r, p.run views s = (.error r, s') ∧ f r = r' := by
  rcases hrun : p.run views s with ⟨r | a, s₁⟩ <;>
    simp [mapEnd, hrun, Except.mapError, Except.map, and_comm]

theorem grows_of_run (h : p.run views s = (x, s')) : s.Grows s' := by
  simpa [h] using p.grows views s

theorem grows_bind (p : Tx σ κ ρ α) (f : α → Tx σ κ ρ β) :
    (p.run views s).2.Grows ((p >>= f).run views s).2 := by
  rcases hrun : p.run views s with ⟨r | a, s'⟩
  · rw [bind_run_error hrun]
  · rw [bind_run_ok hrun]
    exact (f a).grows views s'

end

/-! ### How a body ends the transaction -/

section

variable (views : ℕ → σ) (P : Local σ κ → Prop) (E : ρ → Prop)

/-- Started where `P` holds, the body ends the transaction only as `E` allows, and keeps `P` if it
    does not. -/
def Exits (p : Tx σ κ ρ α) : Prop :=
  ∀ s, P s → match p.run views s with
    | (.ok _, s') => P s'
    | (.error r, _) => E r

variable {views P E}

theorem Exits.of_error (hp : p.Exits views P E) {s s' : Local σ κ} (hs : P s) {r : ρ}
    (h : p.run views s = (.error r, s')) : E r := by
  have := hp s hs
  rwa [h] at this

theorem Exits.of_ok (hp : p.Exits views P E) {s s' : Local σ κ} (hs : P s) {a : α}
    (h : p.run views s = (.ok a, s')) : P s' := by
  have := hp s hs
  rwa [h] at this

theorem exits_pure (a : α) : (pure a : Tx σ κ ρ α).Exits views P E := fun _ hs => hs

theorem exits_lift (h : ∀ r, x = .error r → E r) : (lift x : Tx σ κ ρ α).Exits views P E := by
  intro s hs
  cases x with
  | ok a => exact hs
  | error r => exact h r rfl

theorem exits_exit {r : ρ} (h : E r) : (exit r : Tx σ κ ρ α).Exits views P E := fun _ _ => h

theorem exits_refuse {c : Prop} [Decidable c] {r : ρ} (h : c → E r) :
    (refuse c r : Tx σ κ ρ Unit).Exits views P E := by
  intro s hs
  by_cases hc : c <;> simp only [refuse, lift, hc, if_true, if_false]
  · exact h hc
  · exact hs

theorem exits_require {x : Option α} {r : ρ} (h : E r) :
    (require x r : Tx σ κ ρ α).Exits views P E := by
  intro s hs
  cases x with
  | none => exact h
  | some a => exact hs

theorem exits_stmt (h : ∀ s : Local σ κ, P s → P (s.next needs write (views s.stmts))) :
    (stmt needs write result : Tx σ κ ρ α).Exits views P E := h

theorem exits_query_bind
    (h : ∀ s : Local σ κ, P s → P (s.next needs (fun _ => id) (views s.stmts)))
    (hf : ∀ s, P s → (f (result (s.own (views s.stmts)))).Exits views P E) :
    (query needs result >>= f).Exits views P E :=
  fun s hs => hf s hs _ (h s hs)

theorem Exits.bind (hp : p.Exits views P E) (hf : ∀ a, (f a).Exits views P E) :
    (p >>= f).Exits views P E := by
  intro s hs
  rcases hrun : (p >>= f).run views s with ⟨r | b, s''⟩
  · rcases bind_error.1 hrun with h | ⟨a, s', h, h'⟩
    · exact hp.of_error hs h
    · exact (hf a).of_error (hp.of_ok hs h) h'
  · obtain ⟨a, s', h, h'⟩ := bind_ok.1 hrun
    exact (hf a).of_ok (hp.of_ok hs h) h'

end

/-! ### Bodies that write only under locks -/

variable {V : κ → Type} (part : (r : κ) → σ → V r) (held : List (ℕ × Lock κ))

/-- Started under the locks `held`, the body writes only to parts that are locked. -/
def Safe (p : Tx σ κ ρ α) : Prop :=
  ∀ views s, held ⊆ s.locks → s.Covers part → (p.run views s).2.Covers part

variable {part held}

theorem safe_lift (x : Except ρ α) : (lift x : Tx σ κ ρ α).Safe part held := fun _ _ _ h => h

theorem safe_exit (r : ρ) : (exit r : Tx σ κ ρ α).Safe part held := safe_lift _

theorem safe_refuse (c : Prop) [Decidable c] (r : ρ) :
    (refuse c r : Tx σ κ ρ Unit).Safe part held := safe_lift _

theorem safe_require (x : Option α) (r : ρ) : (require x r : Tx σ κ ρ α).Safe part held :=
  safe_lift _

theorem safe_pure (a : α) : (pure a : Tx σ κ ρ α).Safe part held := fun _ _ _ h => h

theorem Safe.bind (hp : p.Safe part held) (hf : ∀ a, (f a).Safe part held) :
    (p >>= f).Safe part held := by
  intro views s hheld hs
  have hcov := hp views s hheld hs
  have hlocks := (p.grows views s).locks
  show (match p.run views s with
    | (.ok a, s') => (f a).run views s'
    | (.error r, s') => (.error r, s')).2.Covers part
  rcases hrun : p.run views s with ⟨r | a, s'⟩ <;> rw [hrun] at hcov hlocks
  · exact hcov
  · exact hf a views s' (fun _ he => hlocks (hheld he)) hcov

theorem safe_require_bind {x : Option α} {r : ρ} (hf : ∀ a, x = some a → (f a).Safe part held) :
    (require x r >>= f).Safe part held := by
  cases x with
  | none => exact fun _ _ _ hs => hs
  | some a => exact hf a rfl

theorem Safe.mapEnd {ρ' : Type} {f : ρ → ρ'} {g : α → β} (hp : p.Safe part held) :
    (p.mapEnd f g).Safe part held := hp

/-- After a statement that reads, the body goes on under the locks the statement took. -/
theorem safe_query_bind
    (hf : ∀ seen k, (f (result seen)).Safe part (held ++ (needs seen).map fun l => (k, l))) :
    (query needs result >>= f).Safe part held := by
  intro views s hheld hs
  refine hf (s.own (views s.stmts)) s.stmts views _ ?_ (hs.next fun _ _ => Or.inl rfl)
  intro e he
  rcases List.mem_append.1 he with he | he
  · exact (s.grows_next _ _ _).locks (hheld he)
  · exact List.mem_append_right _ he

theorem safe_stmt
    (h : ∀ seen r db, part r (write seen db) = part r db ∨ (∃ l ∈ needs seen, l.Guards r) ∨
      ∃ e ∈ held, e.2.Guards r) : (stmt needs write result : Tx σ κ ρ α).Safe part held := by
  intro views s hheld hs
  refine hs.next fun r db => ?_
  rcases h (s.own (views s.stmts)) r db with hsame | ⟨l, hl, hr⟩ | ⟨e, he, hr⟩
  · exact Or.inl hsame
  · exact Or.inr ⟨_, Local.held_next hl hr⟩
  · exact Or.inr ⟨e.1, e.1, le_rfl, e.2, (s.grows_next _ _ _).locks (hheld he), hr⟩

theorem safe_query (needs : σ → List (Lock κ)) (result : σ → α) :
    (query needs result : Tx σ κ ρ α).Safe part held :=
  safe_stmt fun _ _ _ => Or.inl rfl

end Tx

end Lib
