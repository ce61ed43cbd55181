/-
  Programs of atomic actions on a shared state, and their interleavings.

  A `Proc` makes actions on the state one at a time and ends with a value or an
  error.  A `Pool` runs any number of them side by side with an environment that
  changes the state on its own.  A program that is never moved again is one that
  was dropped.
-/
import Mathlib.Logic.Function.Basic
import Mathlib.Tactic

namespace Lib

/-- A program of atomic actions. -/
inductive Proc (σ ε α : Type) : Type 1
  | ret (a : α)
  | fail (e : ε)
  | act (β : Type) (op : σ → β × σ) (next : β → Proc σ ε α)

variable {γ : Type}

namespace Proc

variable {σ ε α β : Type}

protected def bind : Proc σ ε α → (α → Proc σ ε β) → Proc σ ε β
  | ret a, f => f a
  | fail e, _ => fail e
  | act γ op next, f => act γ op fun x => (next x).bind f

instance : Monad (Proc σ ε) where
  pure := ret
  bind := Proc.bind

def read (f : σ → α) : Proc σ ε α := act α (fun s => (f s, s)) ret

def write (f : σ → σ) : Proc σ ε Unit := act Unit (fun s => ((), f s)) ret

def lift : Except ε α → Proc σ ε α
  | .ok a => ret a
  | .error e => fail e

def call (op : σ → Except ε α × σ) : Proc σ ε α := act (Except ε α) op lift

/-- Run a program and hand on its error as a value. -/
def attempt {ε' : Type} : Proc σ ε α → Proc σ ε' (Except ε α)
  | ret a => ret (.ok a)
  | fail e => ret (.error e)
  | act γ op next => act γ op fun x => (next x).attempt

def value? : Proc σ ε α → Option α
  | ret a => some a
  | _ => none

variable {p : Proc σ ε α}

theorem eq_ret_of_value? {a : α} (h : p.value? = some a) : p = ret a := by
  cases p with
  | ret b =>
    cases h
    rfl
  | fail e => cases h
  | act γ op next => cases h

/-! ## Runs on given states -/

variable {f : α → Proc σ ε β}

/-- The result of the program when its actions see these states, one after the other. -/
def runOn : Proc σ ε α → (ℕ → σ) → Except ε α
  | ret a, _ => .ok a
  | fail e, _ => .error e
  | act _ op next, views => (next (op (views 0)).1).runOn fun k => views (k + 1)

/-- The number of actions it makes on them. -/
def steps : Proc σ ε α → (ℕ → σ) → ℕ
  | ret _, _ => 0
  | fail _, _ => 0
  | act _ op next, views => (next (op (views 0)).1).steps (fun k => views (k + 1)) + 1

theorem runOn_bind (p : Proc σ ε α) (f : α → Proc σ ε β) (views : ℕ → σ) :
    (p >>= f).runOn views =
      match p.runOn views with
      | .ok a => (f a).runOn fun k => views (k + p.steps views)
      | .error e => .error e := by
  induction p generalizing views with
  | ret a => rfl
  | fail e => rfl
  | act γ op next ih =>
    refine (ih _ _).trans ?_
    simp only [runOn, steps, ← Nat.add_assoc]

theorem runOn_bind_ok {views : ℕ → σ} {b : β} :
    (p >>= f).runOn views = .ok b ↔ ∃ a, p.runOn views = .ok a ∧
      (f a).runOn (fun k => views (k + p.steps views)) = .ok b := by
  rw [runOn_bind]
  cases p.runOn views <;> simp

/-- The program ends with a value when its actions see these states. -/
def Ends (p : Proc σ ε α) (views : ℕ → σ) : Prop := ∃ a, p.runOn views = .ok a

theorem ends_bind {views : ℕ → σ} :
    (p >>= f).Ends views ↔ ∃ a, p.runOn views = .ok a ∧ (f a).Ends fun k => views (k + p.steps views) := by
  simp only [Ends, runOn_bind_ok]
  exact ⟨fun ⟨b, a, ha, hb⟩ => ⟨a, ha, b, hb⟩, fun ⟨a, ha, b, hb⟩ => ⟨b, a, ha, hb⟩⟩

theorem not_ends_fail (e : ε) (views : ℕ → σ) : ¬(fail e : Proc σ ε α).Ends views := by
  rintro ⟨a, ha⟩
  cases ha

theorem ends_ret (a : α) (views : ℕ → σ) : (ret a : Proc σ ε α).Ends views := ⟨a, rfl⟩

theorem runOn_read_bind (g : σ → α) (f : α → Proc σ ε β) (views : ℕ → σ) :
    (read g >>= f).runOn views = (f (g (views 0))).runOn fun k => views (k + 1) := rfl

theorem runOn_lift (x : Except ε α) (views : ℕ → σ) : (lift x).runOn views = x := by
  cases x <;> rfl

/-! ## What is left of a program -/

variable {part : σ → γ} {q : Proc σ ε α}

/-- What is left of a program after any number of its actions, on any states. -/
inductive Later : Proc σ ε α → Proc σ ε α → Prop
  | refl (p : Proc σ ε α) : Later p p
  | act {γ : Type} {op : σ → γ × σ} {next : γ → Proc σ ε α} {q : Proc σ ε α} (s : σ)
      (h : Later (next (op s).1) q) : Later (.act γ op next) q

theorem Later.trans {r : Proc σ ε α} (hpq : p.Later q) (hqr : q.Later r) : p.Later r := by
  induction hpq with
  | refl p => exact hqr
  | act s _ ih => exact .act s (ih hqr)

theorem later_fail {e : ε} (h : Later (fail e) q) : q = fail e := by
  cases h
  rfl

theorem Later.runOn_ok {a : α} (s₀ : σ) (h : Later p (ret a)) : ∃ views, p.runOn views = .ok a := by
  generalize hq : ret a = q at h
  induction h with
  | refl p =>
    subst hq
    exact ⟨fun _ => s₀, rfl⟩
  | act s _ ih =>
    obtain ⟨views, hviews⟩ := ih hq
    exact ⟨fun k => match k with | 0 => s | k + 1 => views k, hviews⟩

/-- No action of the program changes this part of the state. -/
def Keeps {γ : Type} (part : σ → γ) : Proc σ ε α → Prop
  | ret _ => True
  | fail _ => True
  | act _ op next => (∀ s, part (op s).2 = part s) ∧ ∀ x, (next x).Keeps part

theorem Keeps.later (hp : p.Keeps part) (h : Later p q) : q.Keeps part := by
  induction h with
  | refl p => exact hp
  | act s _ ih => exact ih (hp.2 _)

theorem keeps_lift (x : Except ε α) : (lift x : Proc σ ε α).Keeps part := by
  cases x <;> trivial

theorem keeps_bind (hp : p.Keeps part) (hf : ∀ a, (f a).Keeps part) : (p >>= f).Keeps part := by
  induction p with
  | ret a => exact hf a
  | fail e => trivial
  | act γ op next ih => exact ⟨hp.1, fun x => ih x (hp.2 x)⟩

theorem bind_assoc {γ : Type} (p : Proc σ ε α) (f : α → Proc σ ε β) (g : β → Proc σ ε γ) :
    (p >>= f) >>= g = p >>= fun a => f a >>= g := by
  induction p with
  | ret a => rfl
  | fail e => rfl
  | act δ op next ih => exact congrArg (act δ op) (funext fun x => ih x)

end Proc

/-! ## Pools -/

/-- Programs side by side on one state. -/
structure Pool (ι σ ε α : Type) where
  state : σ
  procs : ι → Proc σ ε α

/-- What happens next: an action of one program, or of the environment. -/
inductive Move (ι σ : Type)
  | proc (i : ι)
  | env (f : σ → σ)

namespace Pool

variable {ι σ ε α : Type} [DecidableEq ι]

def step (P : Pool ι σ ε α) : Move ι σ → Pool ι σ ε α
  | .proc i =>
    match P.procs i with
    | .act _ op next => ⟨(op P.state).2, Function.update P.procs i (next (op P.state).1)⟩
    | _ => P
  | .env f => { P with state := f P.state }

def run (P : Pool ι σ ε α) (moves : ℕ → Move ι σ) : ℕ → Pool ι σ ε α
  | 0 => P
  | n + 1 => (P.run moves n).step (moves n)

/-! ### First moves -/

section FirstMove

variable {P : Pool ι σ ε α} {moves : ℕ → Move ι σ} {i : ι} {m n : ℕ}

/-- The program makes its first action at this moment. -/
def FirstMove (moves : ℕ → Move ι σ) (n : ℕ) (i : ι) : Prop :=
  moves n = .proc i ∧ ∀ m < n, moves m ≠ .proc i

omit [DecidableEq ι] in
theorem firstMove_of_move (h : moves n = .proc i) : ∃ m ≤ n, FirstMove moves m i := by
  classical
  have hex : ∃ n, moves n = .proc i := ⟨n, h⟩
  exact ⟨Nat.find hex, Nat.find_min' hex h, Nat.find_spec hex, fun m hm => Nat.find_min hex hm⟩

theorem procs_unmoved (h : ∀ m < n, moves m ≠ .proc i) : (P.run moves n).procs i = P.procs i := by
  induction n with
  | zero => rfl
  | succ n ih =>
    rw [run]
    cases hmove : moves n with
    | env f => exact ih fun m hm => h m (by omega)
    | proc j =>
      have hij : i ≠ j := by
        rintro rfl
        exact h n (by omega) hmove
      rw [← ih fun m hm => h m (by omega), step]
      split
      · exact Function.update_of_ne hij _ _
      · rfl

theorem FirstMove.procs_eq (h : FirstMove moves n i) : (P.run moves n).procs i = P.procs i :=
  procs_unmoved h.2

variable {next : γ → Proc σ ε α} {op : σ → γ × σ}

theorem FirstMove.state_succ (h : FirstMove moves n i) (hp : P.procs i = .act γ op next) :
    (P.run moves (n + 1)).state = (op (P.run moves n).state).2 := by
  rw [run, h.1, step, h.procs_eq, hp]

theorem FirstMove.procs_succ (h : FirstMove moves n i) (hp : P.procs i = .act γ op next) :
    (P.run moves (n + 1)).procs i = next (op (P.run moves n).state).1 := by
  rw [run, h.1, step, h.procs_eq, hp]
  exact Function.update_self _ _ _

theorem procs_step_later (P : Pool ι σ ε α) (move : Move ι σ) (i : ι) :
    (P.procs i).Later ((P.step move).procs i) := by
  cases move with
  | env f => exact .refl _
  | proc j =>
    rw [step]
    split
    · next γ op next hp =>
      by_cases hij : i = j
      · subst hij
        rw [hp]
        simpa only [Function.update_self] using Proc.Later.act P.state (.refl _)
      · simpa only [Function.update_of_ne hij] using Proc.Later.refl _
    · exact .refl _

theorem procs_later (h : m ≤ n) : ((P.run moves m).procs i).Later ((P.run moves n).procs i) := by
  induction n, h using Nat.le_induction with
  | base => exact .refl _
  | succ n _ ih => exact ih.trans (procs_step_later _ _ _)

theorem step_keeps {part : σ → γ} (h : (P.procs i).Keeps part) :
    part (P.step (.proc i)).state = part P.state := by
  rw [step]
  split
  · next hp =>
    rw [hp] at h
    exact h.1 _
  · rfl

theorem FirstMove.keeps (h : FirstMove moves m i) (hmn : m < n) {δ : Type}
    (hp : P.procs i = .act γ op next) {part : σ → δ} (hnext : ∀ x, (next x).Keeps part) :
    ((P.run moves n).procs i).Keeps part := by
  refine Proc.Keeps.later ?_ (procs_later hmn)
  rw [h.procs_succ hp]
  exact hnext _

theorem firstMove_of_ret {a : α} (hp : P.procs i = .act γ op next)
    (h : (P.run moves n).procs i = .ret a) : ∃ m < n, FirstMove moves m i := by
  by_contra hno
  have hun : ∀ m < n, moves m ≠ .proc i := by
    intro m hm hmove
    obtain ⟨k, hk, hfirst⟩ := firstMove_of_move hmove
    exact hno ⟨k, by omega, hfirst⟩
  rw [procs_unmoved hun, hp] at h
  cases h

end FirstMove

end Pool

end Lib
