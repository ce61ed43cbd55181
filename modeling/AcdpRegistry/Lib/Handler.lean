/-
  Request handlers.

  A handler works on a state and answers a value or an error; what it did to the
  state before an error stays done.  The lemmas say what a handler that answers a
  value has gone through.
-/
import Mathlib.Tactic

namespace Lib

variable {ε ε' α β : Type} {x : Except ε α} {f : α → Except ε β} {e : ε}

theorem except_bind_ok {b : β} : (x >>= f) = .ok b ↔ ∃ a, x = .ok a ∧ f a = .ok b := by
  cases x <;> simp [bind, Except.bind]

theorem except_mapError_ok {f : ε → ε'} {a : α} :
    x.mapError f = .ok a ↔ x = .ok a := by
  cases x <;> simp [Except.mapError]

theorem except_map_ok {f : α → β} {b : β} :
    x.map f = .ok b ↔ ∃ a, x = .ok a ∧ f a = b := by
  cases x <;> simp [Except.map]

theorem except_bind_error : (x >>= f) = .error e ↔ x = .error e ∨ ∃ a, x = .ok a ∧ f a = .error e := by
  cases x <;> simp [bind, Except.bind]

theorem except_mapError_error {f : ε → ε'} {e' : ε'} :
    x.mapError f = .error e' ↔ ∃ e, x = .error e ∧ f e = e' := by
  cases x <;> simp [Except.mapError]

theorem except_bind_congr {f g : α → Except ε β}
    (h : ∀ a, x = .ok a → f a = g a) : (x >>= f) = x >>= g := by
  cases x with
  | error e => rfl
  | ok a => exact h a rfl

theorem except_ite_error_ok {c : Prop} [Decidable c] {k : α → Except ε β}
    {x : Except ε β} {b : β} (h : (if c then (Except.error e >>= k) else x) = .ok b) : x = .ok b := by
  split at h
  · cases h
  · exact h

theorem except_forM_ok {ε α : Type} {xs : List α} {f : α → Except ε Unit} :
    xs.forM f = .ok () ↔ ∀ x ∈ xs, f x = .ok () := by
  induction xs with
  | nil => simp [List.forM, pure, Except.pure]
  | cons x xs ih =>
    rw [List.forM, except_bind_ok, List.forall_mem_cons, ← ih]
    constructor
    · rintro ⟨⟨⟩, hx, hxs⟩
      exact ⟨hx, hxs⟩
    · rintro ⟨hx, hxs⟩
      exact ⟨(), hx, hxs⟩

/-- Two computations fail with one error, or both answer, with related values. -/
inductive ExceptRel {ε α β : Type} (R : α → β → Prop) : Except ε α → Except ε β → Prop
  | error (e : ε) : ExceptRel R (.error e) (.error e)
  | ok {a : α} {b : β} : R a b → ExceptRel R (.ok a) (.ok b)

namespace ExceptRel

variable {γ δ : Type} {R : α → β → Prop} {S : γ → δ → Prop}

theorem refl (x : Except ε α) : ExceptRel Eq x x := by
  cases x with
  | error e => exact .error e
  | ok a => exact .ok rfl

theorem bind {y : Except ε β} {f : α → Except ε γ} {g : β → Except ε δ}
    (h : ExceptRel R x y) (hfg : ∀ a b, R a b → ExceptRel S (f a) (g b)) :
    ExceptRel S (x >>= f) (y >>= g) := by
  cases h with
  | error e => exact .error e
  | ok hab => exact hfg _ _ hab

theorem mapError {y : Except ε β} (h : ExceptRel R x y) (f : ε → ε') :
    ExceptRel R (x.mapError f) (y.mapError f) := by
  cases h with
  | error e => exact .error (f e)
  | ok hab => exact .ok hab

end ExceptRel

/-- Fail with `e` unless the condition holds. -/
def ensure {ε : Type} (c : Bool) (e : ε) : Except ε Unit := if c then .ok () else .error e

theorem ensure_ok {c : Bool} {u : Unit} : ensure c e = .ok u ↔ c = true := by
  cases c <;> simp [ensure]

/-- Every error of the computation satisfies `P`. -/
def ErrorsIn {ε α : Type} (P : ε → Prop) (x : Except ε α) : Prop := ∀ e, x = .error e → P e

section ErrorsIn

variable {P : ε → Prop}

theorem errorsIn_ok (a : α) : ErrorsIn P (.ok a) := fun _ h => by cases h

theorem errorsIn_bind (hx : ErrorsIn P x) (hf : ∀ a, ErrorsIn P (f a)) : ErrorsIn P (x >>= f) := by
  intro e h
  rcases except_bind_error.1 h with h | ⟨a, -, h⟩
  · exact hx e h
  · exact hf a e h

theorem errorsIn_mapError {x : Except ε' α} {f : ε' → ε} (h : ∀ e, P (f e)) :
    ErrorsIn P (x.mapError f) := by
  intro e he
  obtain ⟨e', -, rfl⟩ := except_mapError_error.1 he
  exact h e'

theorem errorsIn_ensure {c : Bool} (h : P e) : ErrorsIn P (ensure c e) := by
  intro e' he
  cases c with
  | true => cases he
  | false => cases he; exact h

end ErrorsIn

variable {l : List α}

theorem except_mapM_error (h : l.mapM f = .error e) : ∃ a ∈ l, f a = .error e := by
  induction l with
  | nil => simp [pure, Except.pure] at h
  | cons a l ih =>
    rw [List.mapM_cons] at h
    rcases except_bind_error.1 h with ha | ⟨b, -, h⟩
    · exact ⟨a, by simp, ha⟩
    · rcases except_bind_error.1 h with hl | ⟨bs, -, h⟩
      · obtain ⟨a', ha', hf⟩ := ih hl
        exact ⟨a', List.mem_cons_of_mem _ ha', hf⟩
      · cases h

theorem forall₂_getElem? {R : α → β → Prop} {l' : List β}
    (h : List.Forall₂ R l l') {i : ℕ} {a : α} (ha : l[i]? = some a) : ∃ b, l'[i]? = some b ∧ R a b := by
  obtain ⟨hi, rfl⟩ := List.getElem?_eq_some_iff.1 ha
  have hi' : i < l'.length := h.length_eq ▸ hi
  exact ⟨l'[i], List.getElem?_eq_getElem hi', h.get hi hi'⟩

theorem except_mapM_ok {bs : List β} :
    l.mapM f = .ok bs ↔ List.Forall₂ (fun a b => f a = .ok b) l bs := by
  induction l generalizing bs with
  | nil => simp [pure, Except.pure, eq_comm]
  | cons a l ih =>
    rw [List.mapM_cons, except_bind_ok, List.forall₂_cons_left_iff]
    refine exists_congr fun b => ?_
    simp only [except_bind_ok, ih, pure, Except.pure, Except.ok.injEq, eq_comm (b := bs)]
    tauto

theorem except_mapM_exists : (∃ bs, l.mapM f = .ok bs) ↔ ∀ a ∈ l, ∃ b, f a = .ok b := by
  constructor
  · rintro ⟨bs, h⟩
    have hall := except_mapM_ok.1 h
    clear h
    induction hall with
    | nil => exact nofun
    | cons hab _ ih => exact List.forall_mem_cons.2 ⟨⟨_, hab⟩, ih⟩
  · intro h
    cases hm : l.mapM f with
    | ok bs => exact ⟨bs, rfl⟩
    | error e =>
      obtain ⟨a, ha, he⟩ := except_mapM_error hm
      obtain ⟨b, hb⟩ := h a ha
      cases he.symm.trans hb

/-- A computation that changes a state and may end with an error. -/
abbrev Handler (ε σ : Type) := ExceptT ε (StateM σ)

namespace Handler

variable {σ : Type}

/-- The answer of a handler and the state it leaves. -/
def exec (m : Handler ε σ α) (s : σ) : Except ε α × σ := m.run.run s

def lift (x : Except ε α) : Handler ε σ α := MonadExcept.ofExcept x

variable {m : Handler ε σ α} {f : α → Handler ε σ β} {s s' s'' : σ} {a : α} {b : β}

theorem exec_bind : (m >>= f).exec s =
    match m.exec s with
    | (.ok a, s') => (f a).exec s'
    | (.error e, s') => (.error e, s') := by
  show (ExceptT.bindCont f (m.exec s).1 : StateM σ (Except ε β)) (m.exec s).2 = _
  rcases m.exec s with ⟨e | a, s'⟩ <;> rfl

theorem bind_ok : (m >>= f).exec s = (.ok b, s'') ↔
    ∃ a s', m.exec s = (.ok a, s') ∧ (f a).exec s' = (.ok b, s'') := by
  rw [exec_bind]
  rcases m.exec s with ⟨e | a, s₁⟩
  · simp
  · constructor
    · exact fun h => ⟨a, s₁, rfl, h⟩
    · rintro ⟨a', s', h, hf⟩
      cases h
      exact hf

theorem exec_pure : (pure a : Handler ε σ α).exec s = (.ok a, s) := rfl

theorem exec_lift (x : Except ε α) : (lift x : Handler ε σ α).exec s = (x, s) := by
  cases x <;> rfl

theorem exec_throw : (throw e : Handler ε σ α).exec s = (.error e, s) := rfl

theorem exec_get : (get : Handler ε σ σ).exec s = (.ok s, s) := rfl

theorem exec_modify (g : σ → σ) : (modify g : Handler ε σ PUnit).exec s = (.ok ⟨⟩, g s) := rfl

theorem pure_ok {a' : α} : (pure a : Handler ε σ α).exec s = (.ok a', s') ↔ a = a' ∧ s = s' := by
  simp [exec_pure]

theorem lift_ok : (lift x : Handler ε σ α).exec s = (.ok a, s') ↔ x = .ok a ∧ s = s' := by
  simp [exec_lift]

theorem throw_ok : ¬(throw e : Handler ε σ α).exec s = (.ok a, s') := by
  simp [exec_throw]

theorem get_ok {t : σ} : (get : Handler ε σ σ).exec s = (.ok t, s') ↔ s = t ∧ s = s' := by
  simp [exec_get]

theorem modify_ok {g : σ → σ} {u : PUnit} :
    (modify g : Handler ε σ PUnit).exec s = (.ok u, s') ↔ g s = s' := by
  simp [exec_modify]

end Handler

end Lib
