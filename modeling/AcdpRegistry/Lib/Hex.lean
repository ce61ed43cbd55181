/-
  Lowercase hexadecimal, two digits for a byte.
-/
import Mathlib.Tactic

namespace Lib.Hex

def alphabet : List Char := "0123456789abcdef".toList

def digit (n : ℕ) : Char := alphabet.getD n '0'

def value (c : Char) : ℕ := alphabet.idxOf c

def encode (bytes : List UInt8) : List Char :=
  bytes.flatMap fun b => [digit (b.toNat / 16), digit (b.toNat % 16)]

/-- The bytes of pairs of digits. -/
def pairs : List Char → List UInt8
  | hi :: lo :: rest => UInt8.ofNat (value hi * 16 + value lo) :: pairs rest
  | _ => []

theorem value_digit {n : ℕ} (h : n < 16) : value (digit n) = n := by
  interval_cases n <;> decide

theorem digit_mem {n : ℕ} (h : n < 16) : digit n ∈ alphabet := by
  interval_cases n <;> decide

theorem digit_value {c : Char} (h : c ∈ alphabet) : value c < 16 ∧ digit (value c) = c := by
  have hlt : value c < alphabet.length := List.idxOf_lt_length_iff.2 h
  refine ⟨hlt, ?_⟩
  rw [digit, List.getD_eq_getElem?_getD, List.getElem?_eq_getElem hlt]
  exact List.getElem_idxOf hlt

theorem mem_encode {bytes : List UInt8} {c : Char} (h : c ∈ encode bytes) : c ∈ alphabet := by
  obtain ⟨b, -, hc⟩ := List.mem_flatMap.1 h
  have := b.toNat_lt
  rcases List.mem_pair.1 hc with rfl | rfl <;> exact digit_mem (by omega)

theorem pairs_encode (bytes : List UInt8) : pairs (encode bytes) = bytes := by
  induction bytes with
  | nil => rfl
  | cons b bytes ih =>
    have := b.toNat_lt
    have hb : b.toNat / 16 * 16 + b.toNat % 16 = b.toNat := by omega
    show UInt8.ofNat (value (digit (b.toNat / 16)) * 16 + value (digit (b.toNat % 16))) :: _ = _
    rw [value_digit (by omega), value_digit (by omega), hb, UInt8.ofNat_toNat]
    exact congrArg _ ih

theorem length_encode (bytes : List UInt8) : (encode bytes).length = 2 * bytes.length := by
  simp [encode, mul_comm]

theorem encode_pairs : ∀ {cs : List Char}, (∀ c ∈ cs, c ∈ alphabet) → Even cs.length →
    encode (pairs cs) = cs
  | [], _, _ => rfl
  | [_], _, h => absurd h Nat.not_even_one
  | hi :: lo :: rest, hcs, hlen => by
    obtain ⟨hhi, hdhi⟩ := digit_value (hcs hi (by simp))
    obtain ⟨hlo, hdlo⟩ := digit_value (hcs lo (by simp))
    have ih : encode (pairs rest) = rest :=
      encode_pairs (fun c hc => hcs c (by simp [hc])) (by simpa [parity_simps] using hlen)
    have hb : (UInt8.ofNat (value hi * 16 + value lo)).toNat = value hi * 16 + value lo :=
      UInt8.toNat_ofNat_of_lt' (by show _ < 256; omega)
    show digit _ :: digit _ :: encode (pairs rest) = _
    rw [hb, ih, show (value hi * 16 + value lo) / 16 = value hi by omega,
      show (value hi * 16 + value lo) % 16 = value lo by omega, hdhi, hdlo]

end Lib.Hex
