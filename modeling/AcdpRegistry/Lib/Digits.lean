/-
  Numbers as lists of digits, and the range of those that begin alike.

  The digits are those of an ordered alphabet, the most significant one comes first,
  and lists are ordered lexicographically.  `upper p` is the number after `p` at the
  same width.  The numbers that begin with `p` are those from `p` on and below
  `upper p` (`isPrefix_iff_range`), so an ordered index finds them with a range scan.
-/
import Mathlib.Data.List.Lex
import Mathlib.Data.List.Infix
import Mathlib.Tactic

namespace Lib.Digits

variable {α : Type*}

/-! ## Counting -/

variable {ds p : List α}

section Increment

variable (zero : α) (next : α → Option α)

/-- Add one, the least significant digit first; `next` gives nothing after the last digit. -/
def increment : List α → Option (List α)
  | [] => none
  | d :: ds => (next d).elim ((increment ds).map (zero :: ·)) fun d' => some (d' :: ds)

/-- The number after `p` at the same width. -/
def upper (p : List α) : Option (List α) := (increment zero next p.reverse).map List.reverse

variable {zero next}

theorem increment_append_some {ds' : List α} (es : List α) (h : increment zero next ds = some ds') :
    increment zero next (ds ++ es) = some (ds' ++ es) := by
  induction ds generalizing ds' with
  | nil => cases h
  | cons d ds ih =>
    rw [List.cons_append, increment]
    cases hd : next d with
    | none =>
      rw [increment, hd] at h
      obtain ⟨ds₁, hds₁, rfl⟩ := Option.map_eq_some_iff.1 h
      simp [ih hds₁]
    | some d' =>
      rw [increment, hd] at h
      cases h
      rfl

theorem increment_append_none (es : List α) (h : increment zero next ds = none) :
    increment zero next (ds ++ es) =
      (increment zero next es).map (List.replicate ds.length zero ++ ·) := by
  induction ds with
  | nil => simp
  | cons d ds ih =>
    rw [increment] at h
    rw [List.cons_append, increment]
    cases hd : next d with
    | none =>
      rw [hd] at h
      rw [Option.elim_none, ih (Option.map_eq_none_iff.1 h), Option.map_map]
      rfl
    | some d' =>
      rw [hd] at h
      cases h

theorem upper_cons_some {u : List α} (c : α) (h : upper zero next p = some u) :
    upper zero next (c :: p) = some (c :: u) := by
  obtain ⟨ds, hds, rfl⟩ := Option.map_eq_some_iff.1 h
  rw [upper, List.reverse_cons, increment_append_some [c] hds]
  simp

theorem upper_cons_none (c : α) (h : upper zero next p = none) :
    upper zero next (c :: p) = (next c).map (· :: List.replicate p.length zero) := by
  rw [upper, List.reverse_cons, increment_append_none [c] (Option.map_eq_none_iff.1 h), increment]
  cases next c <;> simp [increment]

end Increment

/-! ## Numbers that begin alike -/

variable [LinearOrder α]

/-- `zero` is the first digit, and `next` skips none. -/
structure IsAlphabet (digit : α → Prop) (zero : α) (next : α → Option α) : Prop where
  zero_le : ∀ d, digit d → zero ≤ d
  last : ∀ c d, digit c → digit d → next c = none → d ≤ c
  next : ∀ c c' d, digit c → digit d → next c = some c' → (d < c' ↔ d ≤ c)

variable {digit : α → Prop} {zero : α} {next : α → Option α}

variable (h : IsAlphabet digit zero next)
include h

theorem IsAlphabet.not_lt_zeros (hds : ∀ d ∈ ds, digit d) {n : ℕ} (hn : n ≤ ds.length) :
    ¬ ds < List.replicate n zero := by
  induction ds generalizing n with
  | nil =>
    obtain rfl : n = 0 := by simpa using hn
    simp
  | cons d ds ih =>
    cases n with
    | zero => simp
    | succ n =>
      rw [List.replicate_succ, List.cons_lt_cons_iff, not_or, not_and]
      exact ⟨not_lt.2 (h.zero_le d (hds d List.mem_cons_self)),
        fun _ => ih (fun e he => hds e (List.mem_cons_of_mem d he)) (by simpa using hn)⟩

/-- **The numbers that begin with `p` are those from `p` on and below the number after `p`.** -/
theorem IsAlphabet.isPrefix_iff_range (hp : ∀ c ∈ p, digit c) (hds : ∀ d ∈ ds, digit d)
    (hlen : p.length ≤ ds.length) :
    p <+: ds ↔ ¬ ds < p ∧ ∀ u, upper zero next p = some u → ds < u := by
  induction p generalizing ds with
  | nil => simp [upper, increment]
  | cons c p ih =>
    cases ds with
    | nil => simp at hlen
    | cons d ds =>
      have hc := hp c List.mem_cons_self
      have hd := hds d List.mem_cons_self
      have hzeros := h.not_lt_zeros (fun e he => hds e (List.mem_cons_of_mem d he))
        (Nat.le_of_succ_le_succ hlen)
      have ih := ih (fun e he => hp e (List.mem_cons_of_mem c he))
        (fun e he => hds e (List.mem_cons_of_mem d he)) (Nat.le_of_succ_le_succ hlen)
      rw [List.cons_prefix_cons, List.cons_lt_cons_iff, ih]
      cases hu : upper zero next p with
      | some u =>
        simp only [upper_cons_some c hu, Option.some.injEq, forall_eq', List.cons_lt_cons_iff]
        grind
      | none =>
        rw [upper_cons_none c hu]
        cases hnext : next c with
        | none =>
          have := h.last c d hc hd hnext
          simp only [Option.map_none]
          grind
        | some c' =>
          have := h.next c c' d hc hd hnext
          simp only [Option.map_some, Option.some.injEq, forall_eq', List.cons_lt_cons_iff]
          grind

theorem IsAlphabet.upper_of_lt {q : List α} (hp : ∀ c ∈ p, digit c) (hq : ∀ c ∈ q, digit c)
    (hlen : p.length = q.length) (hlt : p < q) :
    ∃ u, upper zero next p = some u ∧ ¬ q < u := by
  by_contra hnone
  push Not at hnone
  have hbegins : p <+: q :=
    (h.isPrefix_iff_range hp hq hlen.le).2 ⟨lt_asymm hlt, hnone⟩
  rw [hbegins.eq_of_length hlen] at hlt
  exact lt_irrefl q hlt

end Lib.Digits
