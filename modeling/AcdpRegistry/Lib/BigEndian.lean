/-
  Big-endian bytes: a number below `256 ^ w` is `w` bytes, and every `w` bytes are one.
-/
import Mathlib.Tactic

namespace Lib

/-- The last `w` base-256 digits of a number, the most significant first. -/
def toBe : ℕ → ℕ → List UInt8
  | 0, _ => []
  | w + 1, n => toBe w (n / 256) ++ [UInt8.ofNat n]

def ofBe (bytes : List UInt8) : ℕ := bytes.foldl (fun n b => n * 256 + b.toNat) 0

@[simp] theorem toBe_length (w n : ℕ) : (toBe w n).length = w := by
  induction w generalizing n with
  | zero => rfl
  | succ w ih => rw [toBe, List.length_append, ih, List.length_singleton]

theorem ofBe_concat (bytes : List UInt8) (b : UInt8) : ofBe (bytes ++ [b]) = ofBe bytes * 256 + b.toNat := by
  simp only [ofBe, List.foldl_append, List.foldl_cons, List.foldl_nil]

theorem ofBe_toBe {w n : ℕ} (h : n < 256 ^ w) : ofBe (toBe w n) = n := by
  induction w generalizing n with
  | zero =>
    rw [pow_zero, Nat.lt_one_iff] at h
    rw [h]
    rfl
  | succ w ih =>
    rw [pow_succ, Nat.mul_comm] at h
    rw [toBe, ofBe_concat, ih (Nat.div_lt_of_lt_mul h), UInt8.toNat_ofNat']
    omega

theorem toBe_ofBe (bytes : List UInt8) : toBe bytes.length (ofBe bytes) = bytes := by
  induction bytes using List.reverseRecOn with
  | nil => rfl
  | append_singleton bytes b ih =>
    have hb := b.toNat_lt
    have hquot : (ofBe bytes * 256 + b.toNat) / 256 = ofBe bytes := by omega
    have hrem : UInt8.ofNat (ofBe bytes * 256 + b.toNat) = b := by
      apply UInt8.toNat_inj.1
      rw [UInt8.toNat_ofNat']
      omega
    rw [List.length_append, List.length_singleton, toBe, ofBe_concat, hquot, ih, hrem]

theorem ofBe_lt (bytes : List UInt8) : ofBe bytes < 256 ^ bytes.length := by
  induction bytes using List.reverseRecOn with
  | nil => exact Nat.one_pos
  | append_singleton bytes b ih =>
    have hb := b.toNat_lt
    rw [ofBe_concat, List.length_append, List.length_singleton, pow_succ]
    omega

end Lib
