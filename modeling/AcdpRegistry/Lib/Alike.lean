/-
  Two transactions side by side.

  `R` relates what the statements of the one see to what those of the other see.
  Two bodies are alike if they then end in the same way: with the same answer, or with
  results that `Q` relates.  A body that is alike itself tells nothing about what `R`
  leaves open.
-/
import AcdpRegistry.Lib.Tx

namespace Lib

variable {σ κ ρ α β : Type}

/-- Two transactions have made as many statements, and their writes keep the relation. -/
structure Local.Alike (R : σ → σ → Prop) (s t : Local σ κ) : Prop where
  stmts : s.stmts = t.stmts
  own : ∀ d e, R d e → R (s.own d) (t.own e)

theorem Local.alike_start (R : σ → σ → Prop) : Local.Alike R ({} : Local σ κ) {} :=
  ⟨rfl, fun _ _ h => h⟩

namespace Tx

variable (R : σ → σ → Prop)

/-- On related states the two bodies end the transaction with the same answer, or not at all. -/
def Alike (Q : α → α → Prop) (p q : Tx σ κ ρ α) : Prop :=
  ∀ v w s t, (∀ k, R (v k) (w k)) → Local.Alike R s t →
    match p.run v s, q.run w t with
    | (.ok a, s'), (.ok b, t') => Q a b ∧ Local.Alike R s' t'
    | (.error r, _), (.error r', _) => r = r'
    | _, _ => False

variable {R} {Q : α → α → Prop}

variable {p q : Tx σ κ ρ α}

theorem Alike.outcome_eq (h : Alike R Eq p q) {v w : ℕ → σ} (hvw : ∀ k, R (v k) (w k)) :
    (p.run v {}).1 = (q.run w {}).1 := by
  have hpq := h v w {} {} hvw (Local.alike_start R)
  rcases hp : p.run v {} with ⟨r | a, s'⟩ <;> rcases hq : q.run w {} with ⟨r' | b, t'⟩ <;>
    rw [hp, hq] at hpq
  · exact congrArg Except.error hpq
  · exact hpq.elim
  · exact hpq.elim
  · exact congrArg Except.ok hpq.1

theorem alike_pure {a b : α} (h : Q a b) : Alike R Q (pure a : Tx σ κ ρ α) (pure b) :=
  fun _ _ _ _ _ hst => ⟨h, hst⟩

theorem alike_lift (hQ : ∀ a, Q a a) (x : Except ρ α) : Alike R Q (lift x : Tx σ κ ρ α) (lift x) := by
  intro v w s t _ hst
  cases x with
  | ok a => exact ⟨hQ a, hst⟩
  | error r => exact rfl

theorem alike_exit {r : ρ} (hp : ∀ v s, (p.run v s).1 = .error r)
    (hq : ∀ v s, (q.run v s).1 = .error r) : Alike R Q p q := by
  intro v w s t _ _
  rcases hpv : p.run v s with ⟨r | a, s'⟩ <;> rcases hqw : q.run w t with ⟨r' | b, t'⟩
  · have h := hp v s
    have h' := hq w t
    rw [hpv] at h
    rw [hqw] at h'
    exact (Except.error.inj h).trans (Except.error.inj h').symm
  · exact absurd (hqw ▸ hq w t) (by simp)
  · exact absurd (hpv ▸ hp v s) (by simp)
  · exact absurd (hpv ▸ hp v s) (by simp)

theorem alike_stmt {needs : σ → List (Lock κ)} {write : σ → σ → σ} {result : σ → α}
    (hresult : ∀ d e, R d e → Q (result d) (result e))
    (hwrite : ∀ d e d' e', R d e → R d' e' → R (write d d') (write e e')) :
    Alike R Q (stmt needs write result : Tx σ κ ρ α) (stmt needs write result) := by
  intro v w s t hvw hst
  have hseen : R (s.own (v s.stmts)) (t.own (w t.stmts)) := hst.own _ _ (hst.stmts ▸ hvw s.stmts)
  exact ⟨hresult _ _ hseen, congrArg (· + 1) hst.stmts,
    fun d e hde => hwrite _ _ _ _ hseen (hst.own d e hde)⟩

theorem alike_query {needs : σ → List (Lock κ)} {result : σ → α}
    (hresult : ∀ d e, R d e → Q (result d) (result e)) :
    Alike R Q (query needs result : Tx σ κ ρ α) (query needs result) :=
  alike_stmt hresult fun _ _ _ _ _ h => h

theorem Alike.bind {f g : α → Tx σ κ ρ β} {Q' : β → β → Prop} (h : Alike R Q p q)
    (hfg : ∀ a b, Q a b → Alike R Q' (f a) (g b)) : Alike R Q' (p >>= f) (q >>= g) := by
  intro v w s t hvw hst
  have hpq := h v w s t hvw hst
  rcases hp : p.run v s with ⟨r | a, s'⟩ <;> rcases hq : q.run w t with ⟨r' | b, t'⟩ <;>
    rw [hp, hq] at hpq
  · rw [bind_run_error hp, bind_run_error hq]
    exact hpq
  · exact hpq.elim
  · exact hpq.elim
  · rw [bind_run_ok hp, bind_run_ok hq]
    exact hfg a b hpq.1 v w s' t' hvw hpq.2

end Tx

end Lib
