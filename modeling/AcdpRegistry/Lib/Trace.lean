/-
  Traces of a step relation.

  A system that other parties change is seen at moments 0, 1, 2, …; between two
  moments it takes any number of steps.  A reader that takes several snapshots
  is a function of the states at the moments it reads.
-/
import Mathlib.Logic.Relation
import Mathlib.Order.Monotone.Basic

namespace Lib

open Relation

/-- The states of a system at successive moments, any number of steps apart. -/
structure Trace {σ : Type*} (step : σ → σ → Prop) where
  state : ℕ → σ
  next : ∀ n, ReflTransGen step (state n) (state (n + 1))

namespace Trace

variable {σ : Type*} {step : σ → σ → Prop} (T : Trace step)

theorem reach {i j : ℕ} (h : i ≤ j) : ReflTransGen step (T.state i) (T.state j) := by
  induction h with
  | refl => exact .refl
  | step _ ih => exact ih.trans (T.next _)

theorem keeps {I : σ → Prop} (hs : ∀ s s', step s s' → I s → I s') {i j : ℕ} (h : i ≤ j)
    (hi : I (T.state i)) : I (T.state j) := by
  have hr := T.reach h
  generalize T.state j = s at hr
  induction hr with
  | refl => exact hi
  | tail _ hstep ih => exact hs _ _ hstep ih

theorem rel {r : σ → σ → Prop} (hrefl : ∀ s, r s s) (htrans : ∀ a b c, r a b → r b c → r a c)
    (hs : ∀ s s', step s s' → r s s') {i j : ℕ} (h : i ≤ j) : r (T.state i) (T.state j) :=
  T.keeps (I := r (T.state i)) (fun _ _ hst hr => htrans _ _ _ hr (hs _ _ hst)) h (hrefl _)

end Trace

end Lib
