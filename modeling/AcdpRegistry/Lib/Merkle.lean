/-
  Merkle trees over a list of leaf hashes, with the split of RFC 6962: a list of
  two or more hashes is split at the largest power of two below its length.

  Paths are built and consumed from the root down; on the wire they run from the
  leaf up, which is the reversed list.  `rootFromPath` and `rootsFromProof` are what
  a verifier recomputes; the theorems say that they accept what the tree gives.
-/
import Mathlib.Data.List.Basic
import Mathlib.Data.Nat.Log
import Mathlib.Tactic

namespace Lib.Merkle

/-- The hash of the empty tree and of an inner node. -/
structure Scheme (H : Type) where
  empty : H
  node : H → H → H

/-! ## The split -/

/-- The largest power of two below `n`, for `n` of two or more. -/
def split (n : ℕ) : ℕ := 2 ^ Nat.log2 (n - 1)

theorem split_pos (n : ℕ) : 0 < split n := Nat.two_pow_pos _

theorem split_lt {n : ℕ} (h : 2 ≤ n) : split n < n := by
  have := Nat.pow_log_le_self 2 (show n - 1 ≠ 0 by omega)
  rw [split, Nat.log2_eq_log_two]
  omega

theorem le_two_split {n : ℕ} (h : 2 ≤ n) : n ≤ 2 * split n := by
  have := Nat.lt_pow_succ_log_self Nat.one_lt_two (n - 1)
  rw [split, Nat.log2_eq_log_two]
  rw [Nat.pow_succ] at this
  omega

theorem split_eq {m n : ℕ} (hm : split n < m) (hmn : m ≤ n) : split m = split n := by
  have hn : 2 ≤ n := by have := split_pos n; omega
  have hle := le_two_split hn
  have hlog : Nat.log 2 (m - 1) = Nat.log 2 (n - 1) := by
    refine Nat.log_eq_of_pow_le_of_lt_pow ?_ ?_
    · rw [split, Nat.log2_eq_log_two] at hm
      omega
    · rw [split, Nat.log2_eq_log_two] at hle
      rw [Nat.pow_succ]
      omega
  rw [split, split, Nat.log2_eq_log_two, Nat.log2_eq_log_two, hlog]

section Tree

variable {H : Type} (S : Scheme H)

theorem length_take_split {l : List H} (h : 2 ≤ l.length) :
    (l.take (split l.length)).length = split l.length := by
  rw [List.length_take, Nat.min_eq_left (split_lt h).le]

/-! ## The tree -/

/-- `MTH`: the root over the leaf hashes. -/
def treeHash (l : List H) : H :=
  if _h : 2 ≤ l.length then
    S.node (treeHash (l.take (split l.length))) (treeHash (l.drop (split l.length)))
  else l.headD S.empty
termination_by l.length
decreasing_by
  · rw [length_take_split _h]
    exact split_lt _h
  · have := split_pos l.length
    rw [List.length_drop]
    omega

theorem treeHash_split {l : List H} (h : 2 ≤ l.length) :
    treeHash S l = S.node (treeHash S (l.take (split l.length))) (treeHash S (l.drop (split l.length))) := by
  rw [treeHash, dif_pos h]

theorem treeHash_singleton (a : H) : treeHash S [a] = a := by
  rw [treeHash]
  simp

/-- `PATH`: the siblings on the way to leaf `i`. -/
def auditPath (l : List H) (i : ℕ) : List H :=
  if _h : 2 ≤ l.length then
    if i < split l.length then
      treeHash S (l.drop (split l.length)) :: auditPath (l.take (split l.length)) i
    else
      treeHash S (l.take (split l.length)) :: auditPath (l.drop (split l.length)) (i - split l.length)
  else []
termination_by l.length
decreasing_by
  · rw [length_take_split _h]
    exact split_lt _h
  · have := split_pos l.length
    rw [List.length_drop]
    omega

/-- `SUBPROOF`: what takes the root over the first `m` leaves to the root over all; `whole` says that
    the verifier has the root over the first `m`. -/
def subproof (m : ℕ) (l : List H) (whole : Bool) : List H :=
  if _h : m < l.length ∧ 2 ≤ l.length then
    if m ≤ split l.length then
      treeHash S (l.drop (split l.length)) :: subproof m (l.take (split l.length)) whole
    else
      treeHash S (l.take (split l.length)) ::
        subproof (m - split l.length) (l.drop (split l.length)) false
  else if whole then [] else [treeHash S l]
termination_by l.length
decreasing_by
  · rw [length_take_split _h.2]
    exact split_lt _h.2
  · have := split_pos l.length
    rw [List.length_drop]
    omega

/-! ## Verifiers -/

/-- The root over `n` leaves that a path gives for the leaf at index `i`. -/
def rootFromPath (leaf : H) : ℕ → ℕ → List H → Option H
  | _, n, [] => if n = 1 then some leaf else none
  | i, n, h :: path =>
    if n < 2 then none
    else if i < split n then (rootFromPath leaf i (split n) path).map (S.node · h)
    else (rootFromPath leaf (i - split n) (n - split n) path).map (S.node h)

/-- The roots over the first `m` and over all `n` leaves that a proof gives. -/
def rootsFromProof (first : H) : ℕ → ℕ → Bool → List H → Option (H × H)
  | m, n, whole, [] => if m = n ∧ whole = true then some (first, first) else none
  | m, n, whole, h :: proof =>
    if m = n then if whole = false ∧ proof.isEmpty then some (h, h) else none
    else if n < m then none
    else if m ≤ split n then
      (rootsFromProof first m (split n) whole proof).map fun r => (r.1, S.node r.2 h)
    else
      (rootsFromProof first (m - split n) (n - split n) false proof).map fun r =>
        (S.node h r.1, S.node h r.2)

theorem rootFromPath_auditPath (l : List H) (i : ℕ) {a : H} (ha : l[i]? = some a) :
    rootFromPath S a i l.length (auditPath S l i) = some (treeHash S l) := by
  induction hn : l.length using Nat.strong_induction_on generalizing l i with
  | _ n ih =>
    subst hn
    have hi : i < l.length := (List.getElem?_eq_some_iff.1 ha).1
    by_cases h : 2 ≤ l.length
    · have hk := split_lt h
      rw [auditPath, dif_pos h, treeHash_split S h]
      by_cases hik : i < split l.length
      · have hsub := ih _ hk (l.take (split l.length)) i
          (by rw [List.getElem?_take_of_lt hik]; exact ha) (length_take_split h)
        simp [rootFromPath, hik, hsub, Nat.not_lt.2 h]
      · have hsub := ih (l.length - split l.length) (by have := split_pos l.length; omega)
          (l.drop (split l.length)) (i - split l.length)
          (by rw [List.getElem?_drop, Nat.add_sub_cancel' (Nat.le_of_not_lt hik)]; exact ha)
          List.length_drop
        simp [rootFromPath, hik, hsub, Nat.not_lt.2 h]
    · obtain ⟨b, rfl⟩ := List.length_eq_one_iff.1 (show l.length = 1 by omega)
      obtain rfl : i = 0 := by simpa using hi
      obtain rfl : b = a := by simpa using ha
      rw [auditPath, dif_neg h, treeHash_singleton]
      rfl

theorem rootsFromProof_subproof (l : List H) {m : ℕ} {whole : Bool} {first : H} (hm : 0 < m)
    (hle : m ≤ l.length) (hfirst : whole = true → first = treeHash S (l.take m)) :
    rootsFromProof S first m l.length whole (subproof S m l whole) =
      some (treeHash S (l.take m), treeHash S l) := by
  induction hn : l.length using Nat.strong_induction_on generalizing l m whole with
  | _ n ih =>
    subst hn
    rw [subproof]
    by_cases hlt : m < l.length
    · have h : 2 ≤ l.length := by omega
      have hk := split_lt h
      have hpos := split_pos l.length
      rw [dif_pos ⟨hlt, h⟩]
      by_cases hmk : m ≤ split l.length
      · have htake : (l.take (split l.length)).take m = l.take m := by
          rw [List.take_take, Nat.min_eq_left hmk]
        have hsub := ih _ hk (l.take (split l.length)) hm (by rw [length_take_split h]; exact hmk)
          (by rw [htake]; exact hfirst) (length_take_split h)
        rw [htake] at hsub
        rw [if_pos hmk, rootsFromProof, if_neg hlt.ne, if_neg (by omega), if_pos hmk, hsub,
          treeHash_split S h]
        rfl
      · have hsub : rootsFromProof S first (m - split l.length) (l.length - split l.length) false
            (subproof S (m - split l.length) (l.drop (split l.length)) false) = some
              (treeHash S ((l.drop (split l.length)).take (m - split l.length)),
                treeHash S (l.drop (split l.length))) :=
          ih _ (by omega) _ (by omega) (by rw [List.length_drop]; omega) (by simp) List.length_drop
        have hfirsts : treeHash S (l.take m) = S.node (treeHash S (l.take (split l.length)))
            (treeHash S ((l.drop (split l.length)).take (m - split l.length))) := by
          have hlen : (l.take m).length = m := by rw [List.length_take]; omega
          rw [treeHash_split S (by omega), hlen, split_eq (by omega) hle, List.take_take,
            Nat.min_eq_left (by omega), List.drop_take]
        rw [if_neg hmk, rootsFromProof, if_neg hlt.ne, if_neg (by omega), if_neg hmk, hsub, hfirsts,
          treeHash_split S h]
        rfl
    · obtain rfl : m = l.length := by omega
      rw [dif_neg (by omega), List.take_length]
      rw [List.take_length] at hfirst
      cases whole with
      | true => simp [rootsFromProof, hfirst rfl]
      | false => simp [rootsFromProof]

end Tree

end Lib.Merkle
