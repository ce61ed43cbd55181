/-
  A transaction that runs alone.

  Every statement sees one committed state `db`, with the transaction's own writes
  on top.  `Alone db P p x Q`: where the state that `p` sees satisfies `P`, it comes
  to `x`, and if `x` is a value `a` the state it leaves satisfies `Q a`.  So a body
  is compared with a computation that has no state, one statement at a time.
-/
import AcdpRegistry.Lib.Tx

namespace Lib.Tx

variable {σ κ ρ α β : Type} {db : σ} {P : σ → Prop} {Q : α → σ → Prop} {R : β → σ → Prop}

/-- Run alone on `db` from a state with `P`, the body comes to `x`, and to a state with `Q` unless it
    ends the transaction. -/
def Alone (db : σ) (P : σ → Prop) (p : Tx σ κ ρ α) (x : Except ρ α) (Q : α → σ → Prop) : Prop :=
  ∀ s : Local σ κ, P (s.own db) →
    (p.run (fun _ => db) s).1 = x ∧ ∀ a, x = .ok a → Q a ((p.run (fun _ => db) s).2.own db)

variable {f : α → Tx σ κ ρ β} {p : Tx σ κ ρ α}

theorem Alone.bind {x : Except ρ α} {y : α → Except ρ β} (hp : Alone db P p x Q)
    (hf : ∀ a, x = .ok a → Alone db (Q a) (f a) (y a) R) : Alone db P (p >>= f) (x >>= y) R := by
  intro s hs
  obtain ⟨hx, hQ⟩ := hp s hs
  rcases hrun : p.run (fun _ => db) s with ⟨r | a, s'⟩
  · rw [hrun] at hx
    subst hx
    rw [bind_run_error hrun]
    exact ⟨rfl, fun _ h => by cases h⟩
  · rw [hrun] at hx hQ
    subst hx
    rw [bind_run_ok hrun]
    exact hf a rfl s' (hQ a rfl)

theorem Alone.step {a : α} {y : Except ρ β} (hp : Alone db P p (.ok a) Q)
    (hf : Alone db (Q a) (f a) y R) : Alone db P (p >>= f) y R := by
  have h : Alone db P (p >>= f) (.ok a >>= fun _ => y) R := by
    refine Alone.bind hp fun a' ha' => ?_
    cases ha'
    exact hf
  exact h

theorem Alone.lift (x : Except ρ α) : Alone db P (Tx.lift x : Tx σ κ ρ α) x fun _ => P :=
  fun _ hs => ⟨rfl, fun _ _ => hs⟩

theorem Alone.pure (a : α) : Alone db P (Pure.pure a : Tx σ κ ρ α) (.ok a) fun _ => P :=
  fun _ hs => ⟨rfl, fun _ _ => hs⟩

theorem Alone.value (a : α) : Alone db (Q a) (Pure.pure a : Tx σ κ ρ α) (.ok a) Q := by
  intro s hs
  refine ⟨rfl, fun a' ha' => ?_⟩
  cases ha'
  exact hs

variable {needs : σ → List (Lock κ)} {result : σ → α}

theorem Alone.stmt {P' : σ → Prop} {write : σ → σ → σ} {a : α}
    (hresult : ∀ cur, P cur → result cur = a) (hwrite : ∀ cur, P cur → P' (write cur cur)) :
    Alone db P (Tx.stmt needs write result : Tx σ κ ρ α) (.ok a) fun _ => P' :=
  fun _ hs => ⟨congrArg Except.ok (hresult _ hs), fun _ _ => hwrite _ hs⟩

theorem Alone.query {a : α} (hresult : ∀ cur, P cur → result cur = a) :
    Alone db P (Tx.query needs result : Tx σ κ ρ α) (.ok a) fun _ => P :=
  Alone.stmt hresult fun _ h => h

theorem Alone.read {y : Except ρ β} (hf : ∀ cur, P cur → Alone db P (f (result cur)) y R) :
    Alone db P (Tx.query needs result >>= f) y R :=
  fun s hs => hf _ hs (s.next needs (fun _ => id) db) hs

theorem Alone.weaken {P' : σ → Prop} {Q' : α → σ → Prop} {x : Except ρ α} (h : Alone db P p x Q)
    (hP : ∀ cur, P' cur → P cur) (hQ : ∀ a cur, Q a cur → Q' a cur) : Alone db P' p x Q' := by
  intro s hs
  obtain ⟨hx, hq⟩ := h s (hP _ hs)
  exact ⟨hx, fun a ha => hQ a _ (hq a ha)⟩

theorem Alone.answer {x : Except ρ α} (h : Alone db (· = db) p x Q) :
    (p.run (fun _ => db) {}).1 = x := (h {} rfl).1

end Lib.Tx
