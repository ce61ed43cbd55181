/-
  Histories: a machine that takes events one by one, and the log of what each of them did.

  An invariant of the machine and its log is proved for the event that comes last
  (`induction`); an entry of the log belongs to the event that wrote it, and to the state
  that event met (`log_split`).
-/
import Mathlib.Tactic

namespace Lib.History

variable {σ ε ο : Type*} (step : σ → ε → σ × ο)

/-- The state after the events, and what each of them did. -/
def run (s : σ) (events : List ε) : σ × List ο :=
  events.foldl (fun r e => ((step r.1 e).1, r.2 ++ [(step r.1 e).2])) (s, [])

theorem run_nil (s : σ) : run step s [] = (s, []) := rfl

theorem run_snoc (s : σ) (events : List ε) (e : ε) : run step s (events ++ [e]) =
    ((step (run step s events).1 e).1, (run step s events).2 ++ [(step (run step s events).1 e).2]) := by
  simp [run]

theorem run_append (s : σ) (events later : List ε) : run step s (events ++ later) =
    ((run step (run step s events).1 later).1,
      (run step s events).2 ++ (run step (run step s events).1 later).2) := by
  induction later using List.reverseRecOn with
  | nil => simp [run_nil]
  | append_singleton later e ih => rw [← List.append_assoc, run_snoc, ih, run_snoc, List.append_assoc]

theorem run_cons (s : σ) (e : ε) (later : List ε) : run step s (e :: later) =
    ((run step (step s e).1 later).1, (step s e).2 :: (run step (step s e).1 later).2) := by
  rw [← List.singleton_append, run_append]
  rfl

theorem length_log (s : σ) (events : List ε) : (run step s events).2.length = events.length := by
  induction events using List.reverseRecOn with
  | nil => rfl
  | append_singleton events e ih => rw [run_snoc, List.length_append, ih, List.length_append]; rfl

variable {step}

theorem induction {s : σ} {I : List ε → σ → List ο → Prop} (start : I [] s [])
    (next : ∀ events e, I events (run step s events).1 (run step s events).2 →
      I (events ++ [e]) (step (run step s events).1 e).1
        ((run step s events).2 ++ [(step (run step s events).1 e).2])) (events : List ε) :
    I events (run step s events).1 (run step s events).2 := by
  induction events using List.reverseRecOn with
  | nil => exact start
  | append_singleton events e ih =>
    rw [run_snoc]
    exact next events e ih

theorem log_split {s : σ} {events : List ε} {before after : List ο} {o : ο}
    (h : (run step s events).2 = before ++ o :: after) :
    ∃ first e later, events = first ++ e :: later ∧ (run step s first).2 = before ∧
      (step (run step s first).1 e).2 = o ∧
      (run step (step (run step s first).1 e).1 later).2 = after := by
  have hlt : before.length < events.length := by
    rw [← length_log step s events, h, List.length_append, List.length_cons]
    omega
  obtain ⟨first, e, later, rfl, hlen⟩ : ∃ first e later, events = first ++ e :: later ∧
      first.length = before.length :=
    ⟨events.take before.length, events.get ⟨before.length, hlt⟩, events.drop (before.length + 1),
      by simp, by simp [hlt.le]⟩
  rw [run_append, run_cons] at h
  obtain ⟨hbefore, hrest⟩ := List.append_inj h (by rw [length_log, hlen])
  obtain ⟨ho, hafter⟩ := List.cons.inj hrest
  exact ⟨first, e, later, rfl, hbefore, ho, hafter⟩

end Lib.History
