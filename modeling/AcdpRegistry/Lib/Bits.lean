/-
  Octets as sequences of bits, the most significant one first.

  A mask of leading ones keeps the first bits of an octet, so two octets that agree
  under it are those whose first bits agree (`and_eq_and_iff`).  A comparison that looks at
  every octet folds their differences (`ctFold`).
-/
import Mathlib.Tactic

namespace Lib.Bits

def ofOctet (x : UInt8) : List Bool := (List.range 8).map x.toBitVec.getMsbD

/-- The bits of octets, one octet after the other. -/
def ofOctets (xs : List UInt8) : List Bool := xs.flatMap ofOctet

@[simp] theorem ofOctets_cons (x : UInt8) (xs : List UInt8) :
    ofOctets (x :: xs) = ofOctet x ++ ofOctets xs := rfl

@[simp] theorem length_ofOctet (x : UInt8) : (ofOctet x).length = 8 := by simp [ofOctet]

theorem length_ofOctets (xs : List UInt8) : (ofOctets xs).length = 8 * xs.length := by
  induction xs with
  | nil => rfl
  | cons x xs ih =>
    rw [ofOctets_cons, List.length_append, length_ofOctet, ih, List.length_cons]
    omega

theorem take_ofOctet_eq_iff {x y : UInt8} {n : ℕ} : (ofOctet x).take n = (ofOctet y).take n ↔
    ∀ i < 8, i < n → x.toBitVec.getMsbD i = y.toBitVec.getMsbD i := by
  simp only [ofOctet, ← List.map_take, List.take_range, List.map_inj_left, List.mem_range, lt_min_iff]
  exact forall_congr' fun i => ⟨fun h h8 hn => h ⟨hn, h8⟩, fun h hi => h hi.2 hi.1⟩

/-- **A mask of `n` leading ones compares the first `n` bits.** -/
theorem and_eq_and_iff {mask x y : UInt8} {n : ℕ}
    (hmask : ∀ i < 8, mask.toBitVec.getMsbD i = decide (i < n)) :
    x &&& mask = y &&& mask ↔ (ofOctet x).take n = (ofOctet y).take n := by
  have hbits : ∀ z : UInt8, ∀ i < 8,
      (z &&& mask).toBitVec.getMsbD i = (z.toBitVec.getMsbD i && decide (i < n)) := by
    intro z i hi
    rw [UInt8.toBitVec_and, BitVec.getMsbD_and, hmask i hi]
  rw [take_ofOctet_eq_iff]
  constructor
  · intro h i hi hn
    have := hbits x i hi
    rw [h, hbits y i hi] at this
    simpa [hn] using this.symm
  · intro h
    refine UInt8.toBitVec_inj.1 (BitVec.eq_of_getMsbD_eq fun i hi => ?_)
    rw [hbits x i hi, hbits y i hi]
    by_cases hn : i < n
    · rw [h i hi hn]
    · simp [hn]

/-- The bits in which two octets of some pair differ. -/
def ctFold (pairs : List (UInt8 × UInt8)) : UInt8 :=
  pairs.foldl (fun diff p => diff ||| (p.1 ^^^ p.2)) 0

theorem ctFold_eq_zero_iff {pairs : List (UInt8 × UInt8)} :
    ctFold pairs = 0 ↔ ∀ p ∈ pairs, p.1 = p.2 := by
  have hfold : ∀ diff : UInt8, pairs.foldl (fun diff p => diff ||| (p.1 ^^^ p.2)) diff = 0 ↔
      diff = 0 ∧ ∀ p ∈ pairs, p.1 = p.2 := by
    induction pairs with
    | nil => simp
    | cons p pairs ih =>
      intro diff
      rw [List.foldl_cons, ih, List.forall_mem_cons, ← and_assoc]
      simp [UInt8.or_eq_zero_iff]
  rw [ctFold, hfold]
  simp

theorem ctFold_zip_eq_zero_iff {a b : List UInt8} (h : a.length = b.length) :
    ctFold (a.zip b) = 0 ↔ a = b := by
  rw [ctFold_eq_zero_iff]
  induction a generalizing b with
  | nil => simpa using (List.length_eq_zero_iff.1 h.symm).symm
  | cons x a ih =>
    cases b with
    | nil => simp at h
    | cons y b =>
      rw [List.zip_cons_cons, List.forall_mem_cons, ih (Nat.succ.inj h), List.cons.injEq]

end Lib.Bits
