/-
  Lists in strictly ascending key order, and their windows.

  An append-only table read in key order is such a list; a range scan returns a
  window of it, and a capped scan the window up to the last row it returned.
-/
import Mathlib.Data.List.Basic
import Mathlib.Data.List.Pairwise
import Mathlib.Tactic

namespace Lib

variable {α : Type*} {key : α → ℕ}

/-- The keys of the list grow from left to right. -/
def Ascending (key : α → ℕ) (l : List α) : Prop := l.Pairwise fun a b => key a < key b

/-- The elements with a key above `lo` and at most `hi`. -/
def window (key : α → ℕ) (l : List α) (lo hi : ℕ) : List α :=
  l.filter fun a => decide (lo < key a) && decide (key a ≤ hi)

variable {l : List α}

namespace Ascending

theorem nil : Ascending key [] := List.Pairwise.nil

variable (h : Ascending key l)
include h

theorem filter (p : α → Bool) : Ascending key (l.filter p) :=
  List.Pairwise.filter p h

theorem append {l' : List α} (h' : Ascending key l') (hlt : ∀ a ∈ l, ∀ b ∈ l', key a < key b) :
    Ascending key (l ++ l') :=
  List.pairwise_append.2 ⟨h, h', hlt⟩

theorem le_getLast {a b : α} (ha : a ∈ l) (hb : l.getLast? = some b) :
    key a ≤ key b := by
  obtain ⟨init, rfl⟩ := List.getLast?_eq_some_iff.1 hb
  rcases List.mem_append.1 ha with ha | ha
  · have := (List.pairwise_append.1 h).2.2 a ha b (by simp)
    exact le_of_lt this
  · simp only [List.mem_singleton] at ha; exact le_of_eq (congrArg key ha)

theorem eq_of_key_eq {a b : α} (ha : a ∈ l) (hb : b ∈ l) (hkey : key a = key b) : a = b := by
  have hnodup : (l.map key).Nodup := List.pairwise_map.2 (h.imp fun hlt => hlt.ne)
  exact List.inj_on_of_nodup_map hnodup ha hb hkey

theorem find?_eq_some {p : α → Bool} {a : α} (ha : a ∈ l) (hp : p a = true)
    (hleast : ∀ b ∈ l, p b = true → key a ≤ key b) : l.find? p = some a := by
  cases hfind : l.find? p with
  | none => exact absurd hp (List.find?_eq_none.1 hfind a ha)
  | some b =>
    obtain ⟨hpb, before, after, rfl, hbefore⟩ := List.find?_eq_some_iff_append.1 hfind
    obtain ⟨-, hrest, -⟩ := List.pairwise_append.1 h
    have hle := hleast b (by simp) hpb
    rcases List.mem_append.1 ha with hmem | hmem
    · exact absurd hp (by simpa using hbefore a hmem)
    · rcases List.mem_cons.1 hmem with rfl | hmem
      · rfl
      · have := (List.pairwise_cons.1 hrest).1 a hmem
        omega

end Ascending

variable {hi lo : ℕ}

@[simp] theorem mem_window {a : α} : a ∈ window key l lo hi ↔ a ∈ l ∧ lo < key a ∧ key a ≤ hi := by
  simp [window]

theorem window_self (l : List α) (n : ℕ) : window key l n n = [] := by
  refine List.eq_nil_iff_forall_not_mem.2 fun a ha => ?_
  have := mem_window.1 ha; omega

theorem window_filter (l : List α) (p : α → Bool) (lo hi : ℕ) :
    window key (l.filter p) lo hi = (window key l lo hi).filter p := by
  simp only [window, List.filter_filter, Bool.and_comm]

theorem window_window {mid : ℕ} (h : mid ≤ hi) :
    window key (window key l lo hi) lo mid = window key l lo mid := by
  unfold window
  rw [List.filter_filter]
  refine List.filter_congr fun a _ => ?_
  by_cases ha : key a ≤ mid
  · simp [ha, ha.trans h]
  · simp [ha]

theorem window_filter_above (l : List α) {below : ℕ} (h : below ≤ lo) :
    window key (l.filter fun a => decide (below < key a)) lo hi = window key l lo hi := by
  unfold window
  rw [List.filter_filter]
  refine List.filter_congr fun a _ => ?_
  by_cases ha : lo < key a
  · simp [ha, h.trans_lt ha]
  · simp [ha]

theorem window_append (l l' : List α) (lo hi : ℕ) :
    window key (l ++ l') lo hi = window key l lo hi ++ window key l' lo hi := by
  simp only [window, List.filter_append]

theorem window_eq_nil_of_above (h : ∀ a ∈ l, hi < key a) : window key l lo hi = [] := by
  refine List.eq_nil_iff_forall_not_mem.2 fun a ha => ?_
  obtain ⟨hal, -, hle⟩ := mem_window.1 ha
  have := h a hal; omega

theorem window_eq_nil_of_below (h : ∀ a ∈ l, key a ≤ lo) : window key l lo hi = [] := by
  refine List.eq_nil_iff_forall_not_mem.2 fun a ha => ?_
  obtain ⟨hal, hlt, -⟩ := mem_window.1 ha
  have := h a hal; omega

theorem window_eq_self (h : ∀ a ∈ l, lo < key a ∧ key a ≤ hi) : window key l lo hi = l := by
  refine List.filter_eq_self.2 fun a ha => ?_
  simpa using h a ha

theorem window_split (hl : Ascending key l) {mid : ℕ} (h₁ : lo ≤ mid) (h₂ : mid ≤ hi) :
    window key l lo mid ++ window key l mid hi = window key l lo hi := by
  induction l with
  | nil => rfl
  | cons a l ih =>
    obtain ⟨hal, hl⟩ := List.pairwise_cons.1 hl
    rw [← List.singleton_append, window_append, window_append, window_append, ← ih hl]
    by_cases ha : key a ≤ mid
    · have h1 : window key [a] mid hi = [] := window_eq_nil_of_below (by simpa using ha)
      have h2 : window key [a] lo mid = window key [a] lo hi := by
        have hhi : key a ≤ hi := le_trans ha h₂
        simp [window, List.filter_cons, ha, hhi]
      rw [h1, h2, List.nil_append, List.append_assoc]
    · have h1 : window key [a] lo mid = [] :=
        window_eq_nil_of_above (by simp; omega)
      have h2 : window key l lo mid = [] := by
        refine window_eq_nil_of_above fun b hb => ?_
        have := hal b hb; omega
      have h3 : window key [a] mid hi = window key [a] lo hi := by
        have hmid : mid < key a := by omega
        have hlo : lo < key a := by omega
        simp [window, List.filter_cons, hmid, hlo]
      rw [h1, h2, h3, List.nil_append, List.nil_append, List.nil_append]

theorem window_prefix {done rest : List α} (hl : Ascending key l) (hsplit : l = done ++ rest)
    (hlo : ∀ a ∈ l, lo < key a) {last : α} (hlast : done.getLast? = some last) :
    window key l lo (key last) = done := by
  subst hsplit
  obtain ⟨hd, -, hdr⟩ := List.pairwise_append.1 hl
  have hdone : window key done lo (key last) = done := by
    refine window_eq_self fun a ha => ⟨hlo a (by simp [ha]), Ascending.le_getLast hd ha hlast⟩
  have hrest : window key rest lo (key last) = [] :=
    window_eq_nil_of_above fun a ha => hdr last (List.mem_of_getLast? hlast) a ha
  rw [window_append, hdone, hrest, List.append_nil]

end Lib
