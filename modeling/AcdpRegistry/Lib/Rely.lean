/-
  Rely and guarantee, program by program.

  Each program `i` of a pool has a rely `R i`, what it lets the others do to the
  state, and a guarantee `G i`, what its own actions do.  If the guarantee of every
  program lies in the rely of every other, each one can be verified on its own.
-/
import AcdpRegistry.Lib.Proc

namespace Lib

namespace Proc

variable {σ ε α β : Type}

section Safe

variable (I : σ → Prop) (R G : σ → σ → Prop)

/-- From the state `s` on, under the rely `R`, the program keeps `I` and the guarantee `G`, and a value
    it ends with satisfies `Q`. -/
def Safe (Q : σ → α → Prop) : Proc σ ε α → σ → Prop
  | ret a, s => Q s a
  | fail _, _ => True
  | act _ op next, s => ∀ t, R s t → I t →
      I (op t).2 ∧ G t (op t).2 ∧ Safe Q (next (op t).1) (op t).2

/-- The program keeps to its bounds, whatever it ends with. -/
abbrev Within (p : Proc σ ε α) (s : σ) : Prop := p.Safe I R G (fun _ _ => True) s

variable {I R G} {p : Proc σ ε α} {f : α → Proc σ ε β} {x : Except ε α} {s : σ} {Q : σ → β → Prop}
  {Q' : σ → α → Prop}

theorem safe_bind (h : p.Safe I R G (fun t a => (f a).Safe I R G Q t) s) :
    (p >>= f).Safe I R G Q s := by
  induction p generalizing s with
  | ret a => exact h
  | fail e => trivial
  | act γ op next ih =>
    intro t hst ht
    obtain ⟨hI, hG, hnext⟩ := h t hst ht
    exact ⟨hI, hG, ih _ hnext⟩

theorem safe_mono {Q : σ → α → Prop} (h : p.Safe I R G Q s) (hQ : ∀ t a, Q t a → Q' t a) :
    p.Safe I R G Q' s := by
  induction p generalizing s with
  | ret a => exact hQ s a h
  | fail e => trivial
  | act γ op next ih =>
    intro t hst ht
    obtain ⟨hI, hG, hnext⟩ := h t hst ht
    exact ⟨hI, hG, ih _ hnext⟩

theorem safe_attempt {ε' : Type} {Q : σ → Except ε α → Prop}
    (h : p.Safe I R G (fun t a => Q t (.ok a)) s) (herror : ∀ t e, Q t (.error e)) :
    (p.attempt : Proc σ ε' (Except ε α)).Safe I R G Q s := by
  induction p generalizing s with
  | ret a => exact h
  | fail e => exact herror s e
  | act γ op next ih =>
    intro t hst ht
    obtain ⟨hI, hG, hnext⟩ := h t hst ht
    exact ⟨hI, hG, ih _ hnext⟩

theorem safe_ret {a : α} (h : Q' s a) : (ret a : Proc σ ε α).Safe I R G Q' s := h

theorem safe_lift_bind (h : ∀ a, x = .ok a → (f a).Safe I R G Q s) :
    (lift x >>= f).Safe I R G Q s := by
  cases x with
  | ok a => exact h a rfl
  | error e => trivial

theorem safe_lift (h : ∀ a, x = .ok a → Q' s a) : (lift x).Safe I R G Q' s := by
  cases x with
  | ok a => exact h a rfl
  | error e => trivial

theorem safe_read_bind (hrefl : ∀ s, G s s) {g : σ → α}
    (h : ∀ t, R s t → I t → (f (g t)).Safe I R G Q t) : (read g >>= f).Safe I R G Q s :=
  fun t hst ht => ⟨ht, hrefl t, h t hst ht⟩

theorem safe_act {γ : Type} {op : σ → γ × σ} {next : γ → Proc σ ε β}
    (h : ∀ t, R s t → I t → I (op t).2 ∧ G t (op t).2 ∧ (next (op t).1).Safe I R G Q (op t).2) :
    (act γ op next).Safe I R G Q s := h

theorem within_bind (h : p.Within I R G s) (hf : ∀ a t, (f a).Within I R G t) :
    (p >>= f).Within I R G s := safe_bind (safe_mono h fun t a _ => hf a t)

section Seq

variable (hrefl : ∀ s, R s s) (htrans : ∀ s t u, R s t → R t u → R s u) (hG : ∀ s t, G s t → R s t)

include hrefl htrans hG

theorem safe_rel (h : p.Safe I R G Q' s) : p.Safe I R G (fun t a => R s t ∧ Q' t a) s := by
  induction p generalizing s with
  | ret a => exact ⟨hrefl s, h⟩
  | fail e => trivial
  | act γ op next ih =>
    intro t hst ht
    obtain ⟨hI, hown, hnext⟩ := h t hst ht
    exact ⟨hI, hown, safe_mono (ih _ hnext) fun u r hu =>
      ⟨htrans _ _ _ hst (htrans _ _ _ (hG _ _ hown) hu.1), hu.2⟩⟩

theorem safe_seq (hp : p.Safe I R G Q' s)
    (hf : ∀ t a, R s t → Q' t a → (f a).Safe I R G Q t) : (p >>= f).Safe I R G Q s :=
  safe_bind (safe_mono (safe_rel hrefl htrans hG hp) fun t a h => hf t a h.1 h.2)

end Seq

end Safe

end Proc

namespace Pool

variable {ι σ ε α : Type} [DecidableEq ι] {I : σ → Prop} {R G : ι → σ → σ → Prop}
  {Q : ι → σ → α → Prop} {P : Pool ι σ ε α} {moves : ℕ → Move ι σ} (hrefl : ∀ i s, R i s s)
  (htrans : ∀ i s t u, R i s t → R i t u → R i s u)
  (hother : ∀ i j s t, i ≠ j → G i s t → R j s t) (h0 : I P.state)
  (hprocs : ∀ i, (P.procs i).Safe I (R i) (G i) (Q i) P.state)
  (henv : ∀ n f, moves n = .env f → I (P.run moves n).state →
    I (f (P.run moves n).state) ∧ ∀ i, R i (P.run moves n).state (f (P.run moves n).state))

include hrefl htrans hother h0 hprocs henv

/-- Every program of a run is safe from an earlier state, which its rely reaches the present one from. -/
theorem run_safe (n : ℕ) : I (P.run moves n).state ∧ ∀ i, ∃ m ≤ n,
    R i (P.run moves m).state (P.run moves n).state ∧
      ((P.run moves n).procs i).Safe I (R i) (G i) (Q i) (P.run moves m).state := by
  induction n with
  | zero => exact ⟨h0, fun i => ⟨0, le_rfl, hrefl i _, hprocs i⟩⟩
  | succ n ih =>
    obtain ⟨hI, hsafe⟩ := ih
    -- who does not move is safe from the same state as before
    have hkept : ∀ {t : σ} {j : ι}, R j (P.run moves n).state t → ∃ m ≤ n + 1,
        R j (P.run moves m).state t ∧
          ((P.run moves n).procs j).Safe I (R j) (G j) (Q j) (P.run moves m).state := by
      intro t j ht
      obtain ⟨m, hm, hR, hs⟩ := hsafe j
      exact ⟨m, by omega, htrans j _ _ _ hR ht, hs⟩
    cases hmove : moves n with
    | env f =>
      obtain ⟨hI', hR⟩ := henv n f hmove hI
      rw [run, hmove]
      exact ⟨hI', fun j => hkept (hR j)⟩
    | proc i =>
      cases hproc : (P.run moves n).procs i with
      | ret a =>
        rw [run, hmove]
        simpa only [step, hproc] using ⟨hI, fun j => hkept (hrefl j _)⟩
      | fail e =>
        rw [run, hmove]
        simpa only [step, hproc] using ⟨hI, fun j => hkept (hrefl j _)⟩
      | act γ op next =>
        obtain ⟨m, -, hs, hi⟩ := hsafe i
        rw [hproc] at hi
        obtain ⟨hI', hG, hnext⟩ := hi _ hs hI
        have hrun : P.run moves (n + 1) = ⟨(op (P.run moves n).state).2,
            Function.update (P.run moves n).procs i (next (op (P.run moves n).state).1)⟩ := by
          simp only [run, hmove, step, hproc]
        refine ⟨hrun ▸ hI', fun j => ?_⟩
        by_cases hj : j = i
        · subst hj
          refine ⟨n + 1, le_rfl, hrefl j _, ?_⟩
          simpa only [hrun, Function.update_self] using hnext
        · obtain ⟨m', hm', hR', hs'⟩ := hkept (hother i j _ _ (Ne.symm hj) hG)
          rw [hrun]
          refine ⟨m', hm', hR', ?_⟩
          simpa only [Function.update_of_ne hj] using hs'

theorem run_rel {T : σ → σ → Prop} (hTrefl : ∀ s, T s s) (hTtrans : ∀ s t u, T s t → T t u → T s u)
    (hT : ∀ i s t, G i s t → T s t)
    (hTenv : ∀ n f, moves n = .env f → T (P.run moves n).state (f (P.run moves n).state))
    {m n : ℕ} (hmn : m ≤ n) : T (P.run moves m).state (P.run moves n).state := by
  induction n, hmn using Nat.le_induction with
  | base => exact hTrefl _
  | succ n _ ih =>
    refine hTtrans _ _ _ ih ?_
    obtain ⟨hI, hsafe⟩ := run_safe hrefl htrans hother h0 hprocs henv n
    rw [run]
    cases hmove : moves n with
    | env f => exact hTenv n f hmove
    | proc i =>
      cases hproc : (P.run moves n).procs i with
      | ret a => simpa only [step, hproc] using hTrefl _
      | fail e => simpa only [step, hproc] using hTrefl _
      | act γ op next =>
        obtain ⟨k, -, hs, hi⟩ := hsafe i
        rw [hproc] at hi
        simpa only [step, hproc] using hT i _ _ (hi _ hs hI).2.1

end Pool

end Lib
