/-
  Asynchronous tasks that own a guard.

  A `Task` makes calls one at a time, awaits, and hands work to a pool of blocking
  threads.  Any call may fail with any error or panic, before or after it takes effect,
  and at an await the task may be dropped.  Work that the pool has begun runs to its end
  even so.  Between the actions other tasks change the state.

  The state holds a guard.  It is released where its owner drops it: where the code says
  so, at the end of the task, however that comes, or at the end of work that took the
  guard along and does not hand it back.  `Safe.once` is the rule for such a guard: in a
  run of a safe task it is released once, in a state that `I` describes, or `Q` if the
  task has answered a value.
-/
import Mathlib.Tactic

namespace Lib

inductive Exit (ε α : Type)
  | answered (r : Except ε α)
  | panicked
  | dropped

/-- Work for the blocking pool. -/
inductive Code (σ ε α : Type) : Type 1
  | ret (a : α)
  | fail (e : ε)
  /-- A local assignment, which cannot go wrong. -/
  | assign (f : σ → σ) (next : Code σ ε α)
  | call (β : Type) (op : σ → Except ε β × σ) (next : β → Code σ ε α)

inductive Task (σ ε α : Type) : Type 1
  | ret (a : α)
  | fail (e : ε)
  | assign (f : σ → σ) (next : Task σ ε α)
  | call (β : Type) (op : σ → Except ε β × σ) (next : β → Task σ ε α)
  | await (β : Type) (op : σ → Except ε β × σ) (next : β → Task σ ε α)
  /-- Await a call on the pool, which leaves the guard where it is. -/
  | offload (β : Type) (op : σ → Except ε β × σ) (joinError : ε) (next : β → Task σ ε α)
  /-- Await work on the pool that takes the guard along and hands it back. -/
  | blocking (β : Type) (work : Code σ ε β) (joinError : ε) (next : β → Task σ ε α)
  /-- Drop the guard. -/
  | discard (next : Task σ ε α)

/-- What other tasks may do to the state, and what the release does: it alone touches `part`, and only
    the task itself changes `mark`. -/
structure Guard (σ γ δ : Type) where
  others : σ → σ → Prop
  release : σ → σ
  part : σ → γ
  mark : σ → δ
  gone : σ → Prop
  others_refl : ∀ s, others s s
  mark_others : ∀ s t, others s t → mark t = mark s
  mark_release : ∀ s, mark (release s) = mark s
  gone_others : ∀ s t, others s t → gone s → gone t
  gone_release : ∀ s, gone (release s)
  part_release : ∀ s, gone s → part (release s) = part s

variable {σ ε α β γ δ : Type}

namespace Code

protected def bind : Code σ ε α → (α → Code σ ε β) → Code σ ε β
  | ret a, f => f a
  | fail e, _ => fail e
  | assign g next, f => assign g (next.bind f)
  | call κ op next, f => call κ op fun x => (next x).bind f

instance : Monad (Code σ ε) where
  pure := ret
  bind := Code.bind

def ofExcept : Except ε α → Code σ ε α
  | .ok a => ret a
  | .error e => fail e

def run (op : σ → Except ε α × σ) : Code σ ε α := call α op ret

def compute (x : Except ε α) : Code σ ε α := run fun s => (x, s)

def set (f : σ → σ) : Code σ ε Unit := assign f (ret ())

end Code

namespace Task

protected def bind : Task σ ε α → (α → Task σ ε β) → Task σ ε β
  | ret a, f => f a
  | fail e, _ => fail e
  | assign g next, f => assign g (next.bind f)
  | call κ op next, f => call κ op fun x => (next x).bind f
  | await κ op next, f => await κ op fun x => (next x).bind f
  | offload κ op e next, f => offload κ op e fun x => (next x).bind f
  | blocking κ work e next, f => blocking κ work e fun x => (next x).bind f
  | discard next, f => discard (next.bind f)

instance : Monad (Task σ ε) where
  pure := ret
  bind := Task.bind

def ofExcept : Except ε α → Task σ ε α
  | .ok a => ret a
  | .error e => fail e

def run (op : σ → Except ε α × σ) : Task σ ε α := call α op ret

def compute (x : Except ε α) : Task σ ε α := run fun s => (x, s)

def set (f : σ → σ) : Task σ ε Unit := assign f (ret ())

def awaiting (op : σ → Except ε α × σ) : Task σ ε α := await α op ret

def offloaded (joinError : ε) (op : σ → Except ε α × σ) : Task σ ε α := offload α op joinError ret

/-- `spawn_blocking` of work that owns the guard. -/
def spawnBlocking (joinError : ε) (work : Code σ ε α) : Task σ ε α := blocking α work joinError ret

end Task

/-! ## Runs -/

section Runs

variable (g : Guard σ γ δ)

/-- How work on the pool ends, with its actions, each as the state before and after it.  No result is
    a panic. -/
inductive Code.Ends : Code σ ε α → σ → List (σ × σ) → Option (Except ε α) → σ → Prop
  | ret (a : α) (s : σ) : Ends (.ret a) s [] (some (.ok a)) s
  | fail (e : ε) (s : σ) : Ends (.fail e) s [] (some (.error e)) s
  | assign {f : σ → σ} {next : Code σ ε α} {s t u : σ} {l : List (σ × σ)} {r : Option (Except ε α)}
      (hs : g.others s t) (hnext : Ends next (f t) l r u) :
      Ends (.assign f next) s ((t, f t) :: l) r u
  | call {β : Type} {op : σ → Except ε β × σ} {next : β → Code σ ε α} {s t u : σ} {b : β}
      {l : List (σ × σ)} {r : Option (Except ε α)} (hs : g.others s t) (hb : (op t).1 = .ok b)
      (hnext : Ends (next b) (op t).2 l r u) : Ends (.call β op next) s ((t, (op t).2) :: l) r u
  | notMade {β : Type} {op : σ → Except ε β × σ} {next : β → Code σ ε α} {s : σ} (e : Option ε) :
      Ends (.call β op next) s [] (e.map .error) s
  | lost {β : Type} {op : σ → Except ε β × σ} {next : β → Code σ ε α} {s t : σ} (e : Option ε)
      (hs : g.others s t) : Ends (.call β op next) s [(t, (op t).2)] (e.map .error) (op t).2

/-- The end of a task whose call fails with an error, or panics. -/
def Exit.ofFailure (e : Option ε) : Exit ε α := e.elim .panicked (.answered ∘ .error)

/-- How a task ends, with its actions; the state is the one before the guard is released. -/
inductive Task.Ends : Task σ ε α → σ → List (σ × σ) → Exit ε α → σ → Prop
  | ret (a : α) (s : σ) : Ends (.ret a) s [] (.answered (.ok a)) s
  | fail (e : ε) (s : σ) : Ends (.fail e) s [] (.answered (.error e)) s
  | assign {f : σ → σ} {next : Task σ ε α} {s t u : σ} {l : List (σ × σ)} {x : Exit ε α}
      (hs : g.others s t) (hnext : Ends next (f t) l x u) :
      Ends (.assign f next) s ((t, f t) :: l) x u
  | call {β : Type} {op : σ → Except ε β × σ} {next : β → Task σ ε α} {s t u : σ} {b : β}
      {l : List (σ × σ)} {x : Exit ε α} (hs : g.others s t) (hb : (op t).1 = .ok b)
      (hnext : Ends (next b) (op t).2 l x u) : Ends (.call β op next) s ((t, (op t).2) :: l) x u
  | callNotMade {β : Type} {op : σ → Except ε β × σ} {next : β → Task σ ε α} {s : σ} (e : Option ε) :
      Ends (.call β op next) s [] (.ofFailure e) s
  | callLost {β : Type} {op : σ → Except ε β × σ} {next : β → Task σ ε α} {s t : σ} (e : Option ε)
      (hs : g.others s t) : Ends (.call β op next) s [(t, (op t).2)] (.ofFailure e) (op t).2
  | await {β : Type} {op : σ → Except ε β × σ} {next : β → Task σ ε α} {s t u : σ} {b : β}
      {l : List (σ × σ)} {x : Exit ε α} (hs : g.others s t) (hb : (op t).1 = .ok b)
      (hnext : Ends (next b) (op t).2 l x u) : Ends (.await β op next) s ((t, (op t).2) :: l) x u
  | awaitNotMade {β : Type} {op : σ → Except ε β × σ} {next : β → Task σ ε α} {s : σ} (x : Exit ε α)
      (hx : ∀ a, x ≠ .answered (.ok a)) : Ends (.await β op next) s [] x s
  | awaitLost {β : Type} {op : σ → Except ε β × σ} {next : β → Task σ ε α} {s t : σ} (x : Exit ε α)
      (hx : ∀ a, x ≠ .answered (.ok a)) (hs : g.others s t) :
      Ends (.await β op next) s [(t, (op t).2)] x (op t).2
  | offload {β : Type} {op : σ → Except ε β × σ} {joinError : ε} {next : β → Task σ ε α} {s t u : σ}
      {b : β} {l : List (σ × σ)} {x : Exit ε α} (hs : g.others s t) (hb : (op t).1 = .ok b)
      (hnext : Ends (next b) (op t).2 l x u) :
      Ends (.offload β op joinError next) s ((t, (op t).2) :: l) x u
  | offloadNotMade {β : Type} {op : σ → Except ε β × σ} {joinError : ε} {next : β → Task σ ε α} {s : σ}
      (x : Exit ε α) (hx : ∀ a, x ≠ .answered (.ok a)) : Ends (.offload β op joinError next) s [] x s
  | offloadLost {β : Type} {op : σ → Except ε β × σ} {joinError : ε} {next : β → Task σ ε α} {s t : σ}
      (x : Exit ε α) (hx : ∀ a, x ≠ .answered (.ok a)) (hs : g.others s t) :
      Ends (.offload β op joinError next) s [(t, (op t).2)] x (op t).2
  | blocking {β : Type} {work : Code σ ε β} {joinError : ε} {next : β → Task σ ε α} {s t u : σ} {b : β}
      {l l' : List (σ × σ)} {x : Exit ε α} (hwork : work.Ends g s l (some (.ok b)) t)
      (hnext : Ends (next b) t l' x u) : Ends (.blocking β work joinError next) s (l ++ l') x u
  | blockingError {β : Type} {work : Code σ ε β} {joinError : ε} {next : β → Task σ ε α} {s t : σ}
      {e : ε} {l : List (σ × σ)} (hwork : work.Ends g s l (some (.error e)) t) :
      Ends (.blocking β work joinError next) s l (.answered (.error e)) t
  /-- The work panics and takes the guard with it. -/
  | blockingPanic {β : Type} {work : Code σ ε β} {joinError : ε} {next : β → Task σ ε α} {s t t' : σ}
      {l : List (σ × σ)} (hwork : work.Ends g s l none t) (ht : g.others t t') :
      Ends (.blocking β work joinError next) s (l ++ [(t', g.release t')])
        (.answered (.error joinError)) (g.release t')
  /-- The task is dropped and the work goes on to its end. -/
  | blockingDropped {β : Type} {work : Code σ ε β} {joinError : ε} {next : β → Task σ ε α}
      {s t t' : σ} {l : List (σ × σ)} {r : Option (Except ε β)} (hwork : work.Ends g s l r t)
      (ht : g.others t t') :
      Ends (.blocking β work joinError next) s (l ++ [(t', g.release t')]) .dropped (g.release t')
  /-- The work is never begun. -/
  | blockingUnbegun {β : Type} {work : Code σ ε β} {joinError : ε} {next : β → Task σ ε α} {s t : σ}
      (x : Exit ε α) (hx : ∀ a, x ≠ .answered (.ok a)) (ht : g.others s t) :
      Ends (.blocking β work joinError next) s [(t, g.release t)] x (g.release t)
  | discard {next : Task σ ε α} {s t u : σ} {l : List (σ × σ)} {x : Exit ε α} (hs : g.others s t)
      (hnext : Ends next (g.release t) l x u) : Ends (.discard next) s ((t, g.release t) :: l) x u

/-- A whole run: to the end of the task, and the release of its guard. -/
inductive Task.Run (task : Task σ ε α) (s : σ) : List (σ × σ) → Exit ε α → σ → Prop
  | mk {l : List (σ × σ)} {x : Exit ε α} {u v : σ} (hends : task.Ends g s l x u)
      (hu : g.others u v) : Run task s (l ++ [(v, g.release v)]) x (g.release v)

end Runs

variable {p : Task σ ε α} {f : α → Task σ ε β} {c : Code σ ε α} {s : σ}

/-! ## Safe tasks -/

variable {Q : α → σ → Prop} {l : List (σ × σ)}

section Safe

variable (g : Guard σ γ δ)

/-- The actions leave the part alone. -/
def Guard.Keeps (l : List (σ × σ)) : Prop := ∀ q ∈ l, g.part q.2 = g.part q.1

def Guard.Stable (I : σ → Prop) : Prop := ∀ s t, g.others s t → I s → I t

/-- The guard was released at `v` and nothing has been marked since. -/
def Guard.Released (v w : σ) : Prop := g.gone w ∧ g.mark w = g.mark v

/-- Every action of the work keeps the part, `I` holds wherever a call may go wrong, and `Q` where the
    work ends with a value. -/
def Code.Safe (I : σ → Prop) (Q : α → σ → Prop) : Code σ ε α → σ → Prop
  | .ret a, s => Q a s
  | .fail _, s => I s
  | .assign f next, s => ∀ t, g.others s t → g.part (f t) = g.part t ∧ next.Safe I Q (f t)
  | .call _ op next, s => I s ∧ ∀ t, g.others s t →
      g.part (op t).2 = g.part t ∧ I (op t).2 ∧ ∀ b, (op t).1 = .ok b → (next b).Safe I Q (op t).2

/-- Every action but a release keeps the part, `I` holds wherever the task may end without a value and
    `Q` where it ends with one; after a release, in the state of the release. -/
def Task.Safe : Task σ ε α → (σ → Prop) → (α → σ → Prop) → σ → Prop
  | .ret a, _, Q, s => Q a s
  | .fail _, I, _, s => I s
  | .assign f next, I, Q, s => ∀ t, g.others s t → g.part (f t) = g.part t ∧ next.Safe I Q (f t)
  | .call _ op next, I, Q, s | .await _ op next, I, Q, s | .offload _ op _ next, I, Q, s =>
      I s ∧ ∀ t, g.others s t →
        g.part (op t).2 = g.part t ∧ I (op t).2 ∧ ∀ b, (op t).1 = .ok b → (next b).Safe I Q (op t).2
  | .blocking _ work _ next, I, Q, s => I s ∧ work.Safe g I (fun b t => I t ∧ (next b).Safe I Q t) s
  | .discard next, I, Q, s => I s ∧ ∀ t, g.others s t →
      next.Safe (g.Released t) (fun a w => g.Released t w ∧ Q a t) (g.release t)

variable {g} {I : σ → Prop}

/-! ### Rules -/

theorem Code.safe_mono {Q Q' : α → σ → Prop} (hQ : ∀ a s, Q a s → Q' a s) (h : c.Safe g I Q s) :
    c.Safe g I Q' s := by
  induction c generalizing s with
  | ret a => exact hQ a s h
  | fail e => exact h
  | assign f next ih =>
    intro t ht
    exact ⟨(h t ht).1, ih (h t ht).2⟩
  | call β op next ih =>
    refine ⟨h.1, fun t ht => ?_⟩
    obtain ⟨hpart, hI, hnext⟩ := h.2 t ht
    exact ⟨hpart, hI, fun b hb => ih b (hnext b hb)⟩

theorem Code.safe_bind {Q : β → σ → Prop} {f : α → Code σ ε β}
    (h : c.Safe g I (fun a t => (f a).Safe g I Q t) s) : (c >>= f).Safe g I Q s := by
  induction c generalizing s with
  | ret a => exact h
  | fail e => exact h
  | assign f next ih =>
    intro t ht
    exact ⟨(h t ht).1, ih (h t ht).2⟩
  | call κ op next ih =>
    refine ⟨h.1, fun t ht => ?_⟩
    obtain ⟨hpart, hI, hnext⟩ := h.2 t ht
    exact ⟨hpart, hI, fun b hb => ih b (hnext b hb)⟩

theorem Task.safe_mono {Q Q' : α → σ → Prop} (hQ : ∀ a s, Q a s → Q' a s) (h : p.Safe g I Q s) :
    p.Safe g I Q' s := by
  induction p generalizing I Q Q' s with
  | ret a => exact hQ a s h
  | fail e => exact h
  | assign f next ih =>
    intro t ht
    exact ⟨(h t ht).1, ih hQ (h t ht).2⟩
  | call κ op next ih | await κ op next ih | offload κ op e next ih =>
    refine ⟨h.1, fun t ht => ?_⟩
    obtain ⟨hpart, hI, hnext⟩ := h.2 t ht
    exact ⟨hpart, hI, fun b hb => ih b hQ (hnext b hb)⟩
  | blocking κ work e next ih =>
    exact ⟨h.1, Code.safe_mono (fun b t ht => ⟨ht.1, ih b hQ ht.2⟩) h.2⟩
  | discard next ih =>
    exact ⟨h.1, fun t ht => ih (fun a w hw => ⟨hw.1, hQ a t hw.2⟩) (h.2 t ht)⟩

/-- The task does not drop its guard before its end. -/
def Task.Holds : Task σ ε α → Prop
  | .ret _ | .fail _ => True
  | .assign _ next => next.Holds
  | .call _ _ next | .await _ _ next | .offload _ _ _ next | .blocking _ _ _ next => ∀ b, (next b).Holds
  | .discard _ => False

theorem Task.holds_bind (hp : p.Holds) (hf : ∀ a, (f a).Holds) : (p >>= f).Holds := by
  induction p with
  | ret a => exact hf a
  | fail e => trivial
  | assign f next ih => exact ih hp
  | call κ op next ih | await κ op next ih | offload κ op e next ih | blocking κ work e next ih =>
    exact fun b => ih b (hp b)
  | discard next ih => exact hp

theorem Task.holds_ofExcept (x : Except ε α) : (Task.ofExcept x : Task σ ε α).Holds := by
  cases x <;> trivial

theorem Task.safe_bind {Q : β → σ → Prop} (hp : p.Holds)
    (h : p.Safe g I (fun a t => (f a).Safe g I Q t) s) : (p >>= f).Safe g I Q s := by
  induction p generalizing s with
  | ret a => exact h
  | fail e => exact h
  | assign f next ih =>
    intro t ht
    exact ⟨(h t ht).1, ih hp (h t ht).2⟩
  | call κ op next ih | await κ op next ih | offload κ op e next ih =>
    refine ⟨h.1, fun t ht => ?_⟩
    obtain ⟨hpart, hI, hnext⟩ := h.2 t ht
    exact ⟨hpart, hI, fun b hb => ih b (hp b) (hnext b hb)⟩
  | blocking κ work e next ih =>
    exact ⟨h.1, Code.safe_mono (fun b t ht => ⟨ht.1, ih b (hp b) ht.2⟩) h.2⟩
  | discard next ih => exact absurd hp id

/-! ### Soundness -/

theorem Code.Safe.ends {u : σ} {r : Option (Except ε α)}
    (h : c.Safe g I Q s) (hends : c.Ends g s l r u) :
    g.Keeps l ∧ (∀ a, r = some (.ok a) → Q a u) ∧ ((∀ a, r ≠ some (.ok a)) → I u) := by
  induction hends with
  | ret a s =>
    refine ⟨nofun, fun a' ha => ?_, fun hne => absurd rfl (hne a)⟩
    cases ha
    exact h
  | fail e s => exact ⟨nofun, nofun, fun _ => h⟩
  | assign hs _ ih =>
    obtain ⟨hl, hrest⟩ := ih (h _ hs).2
    exact ⟨List.forall_mem_cons.2 ⟨(h _ hs).1, hl⟩, hrest⟩
  | call hs hb _ ih =>
    obtain ⟨hpart, -, hnext⟩ := h.2 _ hs
    obtain ⟨hl, hrest⟩ := ih (hnext _ hb)
    exact ⟨List.forall_mem_cons.2 ⟨hpart, hl⟩, hrest⟩
  | notMade e => exact ⟨nofun, by cases e <;> exact nofun, fun _ => h.1⟩
  | lost e hs =>
    obtain ⟨hpart, hI, -⟩ := h.2 _ hs
    exact ⟨List.forall_mem_singleton.2 hpart, by cases e <;> exact nofun, fun _ => hI⟩

/-- What is known where the guard is released. -/
def Exit.Known (I : σ → Prop) (Q : α → σ → Prop) (x : Exit ε α) (v : σ) : Prop :=
  (∀ a, x = .answered (.ok a) → Q a v) ∧ ((∀ a, x ≠ .answered (.ok a)) → I v)

theorem Exit.known_of_not_ok {x : Exit ε α} {v : σ}
    (hx : ∀ a, x ≠ .answered (.ok a)) (hv : I v) : x.Known I Q v :=
  ⟨fun a ha => absurd ha (hx a), fun _ => hv⟩

theorem Exit.ofFailure_ne (e : Option ε) (a : α) : Exit.ofFailure e ≠ .answered (.ok a) := by
  cases e with
  | none => exact nofun
  | some e => exact nofun

theorem Guard.Keeps.append {l l' : List (σ × σ)} (h : g.Keeps l) (h' : g.Keeps l') :
    g.Keeps (l ++ l') := fun q hq => (List.mem_append.1 hq).elim (h q) (h' q)

theorem Guard.Keeps.cons {q : σ × σ} (hq : g.part q.2 = g.part q.1)
    (h : g.Keeps l) : g.Keeps (q :: l) := List.forall_mem_cons.2 ⟨hq, h⟩

theorem Guard.stable_released (v : σ) : g.Stable (g.Released v) := fun s t hst hs =>
  ⟨g.gone_others s t hst hs.1, (g.mark_others s t hst).trans hs.2⟩

/-- The actions up to the end `u` of a task with the exit `x`: its guard is not released, or it is
    released once. -/
def Exit.Reached (g : Guard σ γ δ) (I : σ → Prop) (Q : α → σ → Prop) (l : List (σ × σ))
    (x : Exit ε α) (u : σ) : Prop :=
  (g.Keeps l ∧ x.Known I Q u) ∨ ∃ l₁ v l₂, l = l₁ ++ (v, g.release v) :: l₂ ∧ g.Keeps l₁ ∧
    g.Keeps l₂ ∧ x.Known I Q v ∧ g.Released v u

section Reached

variable {Q : α → σ → Prop} {l : List (σ × σ)} {x : Exit ε α} {u v : σ}

theorem Exit.Reached.append {l₀ : List (σ × σ)} (hl₀ : g.Keeps l₀) (h : x.Reached g I Q l u) :
    x.Reached g I Q (l₀ ++ l) u := by
  rcases h with ⟨hl, hx⟩ | ⟨l₁, v, l₂, rfl, hl₁, hrest⟩
  · exact .inl ⟨hl₀.append hl, hx⟩
  · exact .inr ⟨l₀ ++ l₁, v, l₂, (List.append_assoc ..).symm, hl₀.append hl₁, hrest⟩

theorem Exit.Reached.cons {q : σ × σ} (hq : g.part q.2 = g.part q.1) (h : x.Reached g I Q l u) :
    x.Reached g I Q (q :: l) u := by
  have hone : g.Keeps [q] := List.forall_mem_singleton.2 hq
  exact h.append hone

theorem Exit.Reached.released (hl : g.Keeps l) (hx : x.Known I Q v) :
    x.Reached g I Q (l ++ [(v, g.release v)]) (g.release v) :=
  .inr ⟨l, v, [], rfl, hl, nofun, hx, g.gone_release v, g.mark_release v⟩

theorem Exit.Reached.discard (hv : I v)
    (h : x.Reached g (g.Released v) (fun a w => g.Released v w ∧ Q a v) l u) :
    x.Reached g I Q ((v, g.release v) :: l) u := by
  have hknown : ∀ w, x.Known (g.Released v) (fun a w => g.Released v w ∧ Q a v) w →
      g.Released v w ∧ x.Known I Q v := by
    intro w hw
    by_cases hx : ∃ a, x = .answered (.ok a)
    · obtain ⟨a, rfl⟩ := hx
      refine ⟨(hw.1 a rfl).1, fun a' ha => ?_, fun hne => absurd rfl (hne a)⟩
      exact (hw.1 a' ha).2
    · have hne : ∀ a, x ≠ .answered (.ok a) := fun a ha => hx ⟨a, ha⟩
      exact ⟨hw.2 hne, Exit.known_of_not_ok hne hv⟩
  rcases h with ⟨hl, hx⟩ | ⟨l₁, v', l₂, rfl, hl₁, hl₂, hx, hu⟩
  · obtain ⟨hu, hxv⟩ := hknown u hx
    exact .inr ⟨[], v, l, rfl, nofun, hl, hxv, hu⟩
  · -- a second release finds the guard gone
    obtain ⟨hv', hxv⟩ := hknown v' hx
    refine .inr ⟨[], v, _, rfl, nofun, hl₁.append (hl₂.cons (g.part_release v' hv'.1)), hxv, hu.1, ?_⟩
    exact hu.2.trans hv'.2

end Reached

theorem Task.Safe.ends {u : σ} {x : Exit ε α}
    (hI : g.Stable I) (h : p.Safe g I Q s) (hends : p.Ends g s l x u) : x.Reached g I Q l u := by
  induction hends generalizing I Q with
  | ret a s =>
    refine .inl ⟨nofun, fun a' ha => ?_, fun hne => absurd rfl (hne a)⟩
    cases ha
    exact h
  | fail e s => exact .inl ⟨nofun, Exit.known_of_not_ok nofun h⟩
  | assign hs _ ih => exact (ih hI (h _ hs).2).cons (h _ hs).1
  | call hs hb _ ih | await hs hb _ ih | offload hs hb _ ih =>
    obtain ⟨hstep, -, hnext⟩ := h.2 _ hs
    exact (ih hI (hnext _ hb)).cons hstep
  | callNotMade e => exact .inl ⟨nofun, Exit.known_of_not_ok (Exit.ofFailure_ne e) h.1⟩
  | callLost e hs =>
    obtain ⟨hstep, hIt, -⟩ := h.2 _ hs
    exact .inl ⟨List.forall_mem_singleton.2 hstep, Exit.known_of_not_ok (Exit.ofFailure_ne e) hIt⟩
  | awaitNotMade x hx | offloadNotMade x hx => exact .inl ⟨nofun, Exit.known_of_not_ok hx h.1⟩
  | awaitLost x hx hs | offloadLost x hx hs =>
    obtain ⟨hstep, hIt, -⟩ := h.2 _ hs
    exact .inl ⟨List.forall_mem_singleton.2 hstep, Exit.known_of_not_ok hx hIt⟩
  | blocking hwork _ ih =>
    obtain ⟨hl, hok, -⟩ := Code.Safe.ends h.2 hwork
    exact (ih hI (hok _ rfl).2).append hl
  | blockingError hwork =>
    obtain ⟨hl, -, hfail⟩ := Code.Safe.ends h.2 hwork
    exact .inl ⟨hl, Exit.known_of_not_ok nofun (hfail nofun)⟩
  | blockingPanic hwork ht =>
    obtain ⟨hl, -, hfail⟩ := Code.Safe.ends h.2 hwork
    exact .released hl (Exit.known_of_not_ok nofun (hI _ _ ht (hfail nofun)))
  | @blockingDropped _ _ _ _ _ t t' l r hwork ht =>
    obtain ⟨hl, hok, hfail⟩ := Code.Safe.ends h.2 hwork
    have hIt : I t := by
      by_cases hr : ∃ b, r = some (.ok b)
      · obtain ⟨b, hb⟩ := hr
        exact (hok b hb).1
      · exact hfail fun b hb => hr ⟨b, hb⟩
    exact .released hl (Exit.known_of_not_ok nofun (hI _ _ ht hIt))
  | blockingUnbegun x hx ht =>
    exact .released (l := []) nofun (Exit.known_of_not_ok hx (hI _ _ ht h.1))
  | discard hs _ ih =>
    exact .discard (hI _ _ hs h.1) (ih (Guard.stable_released _) (h.2 _ hs))

/-- **The guard is released once.**  In a run of a safe task one release alone changes the part, where
    `Q` holds if the task has answered a value, and `I` otherwise. -/
theorem Task.Safe.once {u : σ} {trace : List (σ × σ)} {x : Exit ε α}
    (hI : g.Stable I) (hQ : ∀ a, g.Stable (Q a)) (h : p.Safe g I Q s) (hrun : p.Run g s trace x u) :
    ∃ l v l', trace = l ++ (v, g.release v) :: l' ∧ g.Keeps l ∧ g.Keeps l' ∧ x.Known I Q v ∧
      g.mark u = g.mark v := by
  obtain ⟨hends, hu⟩ := hrun
  rename_i l u' v'
  rcases Task.Safe.ends hI h hends with ⟨hl, hx⟩ | ⟨l₁, v, l₂, rfl, hl₁, hl₂, hx, hv⟩
  · refine ⟨l, v', [], rfl, hl, nofun, ⟨fun a ha => hQ a _ _ hu (hx.1 a ha), fun hne => ?_⟩,
      g.mark_release v'⟩
    exact hI _ _ hu (hx.2 hne)
  · obtain ⟨hgone, hmark⟩ := Guard.stable_released v u' v' hu hv
    refine ⟨l₁, v, l₂ ++ [(v', g.release v')], by simp, hl₁, hl₂.append ?_, hx, ?_⟩
    · exact List.forall_mem_singleton.2 (g.part_release v' hgone)
    · exact (g.mark_release v').trans hmark

end Safe

end Lib
