/-
  Base64 over any alphabet, with padding and without: three bytes are four digits of six
  bits.  Decoding is strict: a text is decoded only if it is the one that its bytes are
  encoded to.
-/
import Mathlib.Tactic

namespace Lib.Base64

/-- The 64 digits, in order. -/
structure Alphabet where
  chars : List Char
  length_chars : chars.length = 64
  nodup : chars.Nodup

def standard : Alphabet :=
  ⟨"ABCDEFGHIJKLMNOPQRSTUVWXYZabcdefghijklmnopqrstuvwxyz0123456789+/".toList, by decide, by decide⟩

def urlSafe : Alphabet :=
  ⟨"ABCDEFGHIJKLMNOPQRSTUVWXYZabcdefghijklmnopqrstuvwxyz0123456789-_".toList, by decide, by decide⟩

namespace Alphabet

variable (al : Alphabet)

def digit (n : ℕ) : Char := al.chars.get ⟨n % 64, by rw [al.length_chars]; omega⟩

def value (c : Char) : Option ℕ := if c ∈ al.chars then some (al.chars.idxOf c) else none

def encodeNat : List ℕ → List Char
  | a :: b :: c :: rest =>
    al.digit (a / 4) :: al.digit (a % 4 * 16 + b / 16) :: al.digit (b % 16 * 4 + c / 64) ::
      al.digit (c % 64) :: encodeNat rest
  | [a, b] => [al.digit (a / 4), al.digit (a % 4 * 16 + b / 16), al.digit (b % 16 * 4)]
  | [a] => [al.digit (a / 4), al.digit (a % 4 * 16)]
  | [] => []

/-- The bits that a short last group leaves over must be zero. -/
def decodeNat : List Char → Option (List ℕ)
  | w :: x :: y :: z :: rest => do
    let w ← al.value w
    let x ← al.value x
    let y ← al.value y
    let z ← al.value z
    let rest ← decodeNat rest
    some ((w * 4 + x / 16) :: (x % 16 * 16 + y / 4) :: (y % 4 * 64 + z) :: rest)
  | [w, x, y] => do
    let w ← al.value w
    let x ← al.value x
    let y ← al.value y
    if y % 4 = 0 then some [w * 4 + x / 16, x % 16 * 16 + y / 4] else none
  | [w, x] => do
    let w ← al.value w
    let x ← al.value x
    if x % 16 = 0 then some [w * 4 + x / 16] else none
  | [_] => none
  | [] => some []

def encode (bytes : List UInt8) : String := String.ofList (al.encodeNat (bytes.map UInt8.toNat))

def decode (s : String) : Option (List UInt8) := (al.decodeNat s.toList).map (·.map UInt8.ofNat)

/-- The padding of a text of `n` digits: to the next multiple of four. -/
def padding (n : ℕ) : String := String.ofList (List.replicate ((4 - n % 4) % 4) '=')

def encodePadded (bytes : List UInt8) : String :=
  al.encode bytes ++ padding (al.encode bytes).length

/-- Only the padding that the encoder writes is taken off. -/
def decodePadded (s : String) : Option (List UInt8) :=
  let digits := String.ofList (s.toList.filter (· ≠ '='))
  if s = digits ++ padding digits.length then al.decode digits else none

variable {al}

theorem digit_mem (n : ℕ) : al.digit n ∈ al.chars := List.get_mem _ _

theorem value_digit {n : ℕ} (h : n < 64) : al.value (al.digit n) = some n := by
  rw [value, if_pos (digit_mem n), digit, List.get_eq_getElem, al.nodup.idxOf_getElem]
  exact congrArg some (Nat.mod_eq_of_lt h)

theorem digit_of_value {c : Char} {n : ℕ} (h : al.value c = some n) : n < 64 ∧ al.digit n = c := by
  unfold value at h
  split at h
  · next hc =>
    cases h
    have hlt := List.idxOf_lt_length_iff.2 hc
    have hlt' : al.chars.idxOf c < 64 := al.length_chars ▸ hlt
    simp only [digit, Nat.mod_eq_of_lt hlt', List.get_eq_getElem, List.getElem_idxOf, hlt', true_and]
  · cases h

theorem of_value_bind {β : Type} {c : Char} {f : ℕ → Option β} {b : β} (h : al.value c >>= f = some b) :
    ∃ n < 64, al.digit n = c ∧ f n = some b := by
  obtain ⟨n, hn, hf⟩ := Option.bind_eq_some_iff.1 h
  obtain ⟨hlt, hdigit⟩ := digit_of_value hn
  exact ⟨n, hlt, hdigit, hf⟩

theorem decodeNat_encodeNat : ∀ {bytes : List ℕ}, (∀ a ∈ bytes, a < 256) →
    al.decodeNat (al.encodeNat bytes) = some bytes
  | [], _ => rfl
  | [a], h => by
    have ha : a < 256 := h a (by simp)
    simp only [encodeNat, decodeNat, value_digit (by omega : a / 4 < 64),
      value_digit (by omega : a % 4 * 16 < 64), bind, Option.bind_some]
    rw [if_pos (by omega)]
    simp only [Option.some.injEq, List.cons.injEq, and_true]
    omega
  | [a, b], h => by
    have ha : a < 256 := h a (by simp)
    have hb : b < 256 := h b (by simp)
    simp only [encodeNat, decodeNat, value_digit (by omega : a / 4 < 64),
      value_digit (by omega : a % 4 * 16 + b / 16 < 64), value_digit (by omega : b % 16 * 4 < 64),
      bind, Option.bind_some]
    rw [if_pos (by omega)]
    simp only [Option.some.injEq, List.cons.injEq, and_true]
    omega
  | a :: b :: c :: rest, h => by
    have ha : a < 256 := h a (by simp)
    have hb : b < 256 := h b (by simp)
    have hc : c < 256 := h c (by simp)
    have ih : al.decodeNat (al.encodeNat rest) = some rest :=
      decodeNat_encodeNat fun x hx => h x (by simp [hx])
    simp only [encodeNat, decodeNat, value_digit (by omega : a / 4 < 64),
      value_digit (by omega : a % 4 * 16 + b / 16 < 64), value_digit (by omega : b % 16 * 4 + c / 64 < 64),
      value_digit (by omega : c % 64 < 64), ih, bind, Option.bind_some]
    simp only [Option.some.injEq, List.cons.injEq, and_true]
    omega

theorem encodeNat_of_decodeNat : ∀ {cs : List Char} {bytes : List ℕ}, al.decodeNat cs = some bytes →
    (∀ a ∈ bytes, a < 256) ∧ al.encodeNat bytes = cs
  | [], bytes, h => by
    cases h
    exact ⟨nofun, rfl⟩
  | [_], bytes, h => by cases h
  | [w, x], bytes, h₀ => by
    obtain ⟨m, hm, rfl, h₁⟩ := of_value_bind h₀
    obtain ⟨n, hn, rfl, h₂⟩ := of_value_bind h₁
    split at h₂
    · next hzero =>
      cases h₂
      have hw : (m * 4 + n / 16) / 4 = m := by omega
      have hx : (m * 4 + n / 16) % 4 * 16 = n := by omega
      refine ⟨?_, by rw [encodeNat, hw, hx]⟩
      simp only [List.mem_singleton, forall_eq]
      omega
    · cases h₂
  | [w, x, y], bytes, h₀ => by
    obtain ⟨m, hm, rfl, h₁⟩ := of_value_bind h₀
    obtain ⟨n, hn, rfl, h₂⟩ := of_value_bind h₁
    obtain ⟨p, hp, rfl, h₃⟩ := of_value_bind h₂
    split at h₃
    · next hzero =>
      cases h₃
      have hw : (m * 4 + n / 16) / 4 = m := by omega
      have hx : (m * 4 + n / 16) % 4 * 16 + (n % 16 * 16 + p / 4) / 16 = n := by omega
      have hy : (n % 16 * 16 + p / 4) % 16 * 4 = p := by omega
      refine ⟨?_, by rw [encodeNat, hw, hx, hy]⟩
      simp only [List.mem_cons, List.not_mem_nil, or_false, forall_eq_or_imp, forall_eq]
      omega
    · cases h₃
  | w :: x :: y :: z :: rest, bytes, h₀ => by
    obtain ⟨m, hm, rfl, h₁⟩ := of_value_bind h₀
    obtain ⟨n, hn, rfl, h₂⟩ := of_value_bind h₁
    obtain ⟨p, hp, rfl, h₃⟩ := of_value_bind h₂
    obtain ⟨q, hq, rfl, h₄⟩ := of_value_bind h₃
    obtain ⟨more, hmore, h₅⟩ := Option.bind_eq_some_iff.1 h₄
    obtain ⟨hbytes, ih⟩ := encodeNat_of_decodeNat hmore
    cases h₅
    have hw : (m * 4 + n / 16) / 4 = m := by omega
    have hx : (m * 4 + n / 16) % 4 * 16 + (n % 16 * 16 + p / 4) / 16 = n := by omega
    have hy : (n % 16 * 16 + p / 4) % 16 * 4 + (p % 4 * 64 + q) / 64 = p := by omega
    have hz : (p % 4 * 64 + q) % 64 = q := by omega
    refine ⟨?_, by rw [encodeNat, hw, hx, hy, hz, ih]⟩
    simp only [List.mem_cons, forall_eq_or_imp]
    exact ⟨by omega, by omega, by omega, hbytes⟩

/-- **Decoding is strict.** -/
theorem decode_eq_some_iff {s : String} {bytes : List UInt8} :
    al.decode s = some bytes ↔ s = al.encode bytes := by
  constructor
  · intro h
    obtain ⟨nums, hnums, rfl⟩ := Option.map_eq_some_iff.1 h
    obtain ⟨hlt, henc⟩ := encodeNat_of_decodeNat hnums
    have hid : (nums.map UInt8.ofNat).map UInt8.toNat = nums := by
      rw [List.map_map]
      refine (List.map_congr_left fun a ha => ?_).trans (List.map_id nums)
      exact UInt8.toNat_ofNat_of_lt (hlt a ha)
    rw [encode, hid, henc, String.ofList_toList]
  · rintro rfl
    have hbytes : ∀ a ∈ bytes.map UInt8.toNat, a < 256 := by
      intro a ha
      obtain ⟨b, -, rfl⟩ := List.mem_map.1 ha
      exact b.toNat_lt
    have hid : UInt8.ofNat ∘ UInt8.toNat = id := funext fun b => UInt8.ofNat_toNat
    rw [decode, encode, String.toList_ofList, decodeNat_encodeNat hbytes, Option.map_some, List.map_map,
      hid, List.map_id]

theorem length_encodeNat : ∀ bytes, (al.encodeNat bytes).length = (4 * bytes.length + 2) / 3
  | [] | [_] | [_, _] => by simp [encodeNat]
  | _ :: _ :: _ :: rest => by
    simp only [encodeNat, List.length_cons, length_encodeNat rest]
    omega

theorem encode_injective : Function.Injective al.encode := by
  intro bytes bytes' h
  have h' := decode_eq_some_iff.2 h
  rw [decode_eq_some_iff.2 rfl] at h'
  exact Option.some.inj h'

/-! ## Padding -/

theorem mem_encodeNat {c : Char} {bytes : List ℕ} (h : c ∈ al.encodeNat bytes) : c ∈ al.chars := by
  fun_induction al.encodeNat bytes <;> grind [digit_mem]

theorem decodePadded_encodePadded (hpad : '=' ∉ al.chars) (bytes : List UInt8) :
    al.decodePadded (al.encodePadded bytes) = some bytes := by
  have hdigits : (al.encode bytes).toList.filter (· ≠ '=') = (al.encode bytes).toList := by
    rw [List.filter_eq_self, encode, String.toList_ofList]
    intro c hc
    exact decide_eq_true fun h => hpad (h ▸ mem_encodeNat hc)
  have hpadding : ∀ n, (padding n).toList.filter (· ≠ '=') = [] := by
    intro n
    simp [padding]
  simp only [decodePadded, encodePadded, String.toList_append, List.filter_append, hdigits, hpadding,
    List.append_nil, String.ofList_toList, if_true]
  exact decode_eq_some_iff.2 rfl

end Alphabet

end Lib.Base64
