/-
  The change cursor (`changes_key.rs`).

  A cursor is a header that names the key, a nonce that is a function of the plaintext,
  and the sealed plaintext, in unpadded base64.  Decoding checks the shape, the key, the
  seal, the nonce and the epoch, in that order.  `sealedCursor` is what a key issues in
  either version; `decodeRaw_sealed` and `decodeRaw_own` say that the bytes which pass
  every check but the epoch's are exactly those.
-/
import Mathlib
import AcdpRegistry.Core.Changes
import AcdpRegistry.Lib.BigEndian
import AcdpRegistry.Lib.Base64

namespace AcdpRegistry

open Lib

/-! ## The codec -/

def nonceLen : ℕ := 12

def tagLen : ℕ := 16

def seqLen : ℕ := 8

def fpLen : ℕ := 8

def epochLen : ℕ := 4

def kidLen : ℕ := 4

/-- The two cursor versions; version 1 is only recognised. -/
inductive CursorVersion
  | v1
  | v2
  deriving DecidableEq, Repr

namespace CursorVersion

def byte : CursorVersion → UInt8
  | v1 => 0x01
  | v2 => 0x02

def headerLen : CursorVersion → ℕ
  | v1 => 2
  | v2 => 2 + kidLen

def plainLen : CursorVersion → ℕ
  | v1 => seqLen
  | v2 => seqLen + seqLen + fpLen + epochLen

def cursorLen (v : CursorVersion) : ℕ := v.headerLen + nonceLen + v.plainLen + tagLen

def aadLabel : CursorVersion → List UInt8
  | v1 => utf8 "acdp-registry/changes-cursor/v1"
  | v2 => utf8 "acdp-registry/changes-cursor/v2"

/-- The shape of a cursor: its first byte with its length. -/
def ofRaw (raw : List UInt8) : Option CursorVersion :=
  if raw.head? = some v2.byte ∧ raw.length = v2.cursorLen then some v2
  else if raw.head? = some v1.byte ∧ raw.length = v1.cursorLen then some v1
  else none

end CursorVersion

inductive CursorError
  | invalid
  | unknownKey
  | stale
  deriving DecidableEq, Repr

/-- The primitives: AES-256-GCM (key, nonce, associated data, text) and HMAC-SHA-256. -/
structure CursorCrypto where
  sealText : List UInt8 → List UInt8 → List UInt8 → List UInt8 → List UInt8
  openText : List UInt8 → List UInt8 → List UInt8 → List UInt8 → Option (List UInt8)
  hmac : List UInt8 → List UInt8 → List UInt8

/-- `ChangesKey`, without the key for subscription secrets. -/
structure ChangesKey where
  keyId : UInt8
  kid : List UInt8
  epoch : UInt32
  cursor : List UInt8
  nonce : List UInt8
  kid_length : kid.length = kidLen

namespace ChangesKey

variable (C : CursorCrypto) (key : ChangesKey)

/-- `header`; version 1 had the key id alone. -/
def header : CursorVersion → List UInt8
  | .v1 => [CursorVersion.v1.byte, key.keyId]
  | .v2 => [CursorVersion.v2.byte, key.keyId] ++ key.kid

/-- `cursor_nonce`; version 1 hashed the bare position. -/
def cursorNonce (version : UInt8) (plain : List UInt8) : List UInt8 :=
  let input := if version ≠ CursorVersion.v1.byte then version :: plain else plain
  (C.hmac key.nonce input).take nonceLen

def cursorAad (label header : List UInt8) : List UInt8 := label ++ header

def encodeCursor (c : DecodedCursor) : String :=
  let header := key.header .v2
  let body := toBe seqLen c.pos ++ toBe seqLen c.anchor.seq ++ c.anchor.fp ++ toBe epochLen key.epoch.toNat
  let nonce := key.cursorNonce C CursorVersion.v2.byte body
  Base64.urlSafe.encode
    (header ++ nonce ++ C.sealText key.cursor nonce (cursorAad CursorVersion.v2.aadLabel header) body)

def placed (plain : List UInt8) : Except CursorError DecodedCursor :=
  if ofBe (plain.drop (2 * seqLen + fpLen)) ≠ key.epoch.toNat then .error .stale
  else .ok
    { pos := ofBe (plain.take seqLen)
      anchor := { seq := ofBe ((plain.drop seqLen).take seqLen)
                  fp := (plain.drop (2 * seqLen)).take fpLen } }

/-- `decode_cursor` on the decoded bytes. -/
def decodeRaw (raw : List UInt8) : Except CursorError DecodedCursor :=
  match CursorVersion.ofRaw raw with
  | none => .error .invalid
  | some v =>
    if raw.getD 1 0 ≠ key.keyId ∨
        v.headerLen = CursorVersion.v2.headerLen ∧ (raw.take CursorVersion.v2.headerLen).drop 2 ≠ key.kid then
      .error .unknownKey
    else
      let header := raw.take v.headerLen
      let rest := raw.drop v.headerLen
      let nonce := rest.take nonceLen
      match C.openText key.cursor nonce (cursorAad v.aadLabel header) (rest.drop nonceLen) with
      | none => .error .invalid
      | some plain =>
        if plain.length ≠ v.plainLen ∨ key.cursorNonce C (header.headD 0) plain ≠ nonce then
          .error .invalid
        else if header.headD 0 = CursorVersion.v1.byte then .error .stale
        else key.placed plain

def decodeCursor (cursor : String) : Except CursorError DecodedCursor :=
  match Base64.urlSafe.decode cursor with
  | none => .error .invalid
  | some raw => key.decodeRaw C raw

end ChangesKey

/-! ## What the primitives are assumed to do -/

/-- The seal opens exactly what was sealed under the same key, nonce and associated data, and no text
    with a changed byte; it adds a tag, and an HMAC is as long as a nonce. -/
structure CursorCrypto.Ideal (C : CursorCrypto) : Prop where
  openText_iff : ∀ k n a c p, n.length = nonceLen →
    (C.openText k n a c = some p ↔ c = C.sealText k n a p)
  changed : ∀ k n a p i x, n.length = nonceLen → i < (n ++ C.sealText k n a p).length →
    (n ++ C.sealText k n a p)[i]? ≠ some x →
    C.openText k (((n ++ C.sealText k n a p).set i x).take nonceLen) a
      (((n ++ C.sealText k n a p).set i x).drop nonceLen) = none
  sealText_length : ∀ k n a p, n.length = nonceLen → (C.sealText k n a p).length = p.length + tagLen
  hmac_length : ∀ k m, nonceLen ≤ (C.hmac k m).length

/-- The ranges of the source's types: 64-bit positions and eight bytes of fingerprint. -/
structure DecodedCursor.Fits (c : DecodedCursor) : Prop where
  pos : c.pos < 256 ^ seqLen
  seq : c.anchor.seq < 256 ^ seqLen
  fp : c.anchor.fp.length = fpLen

namespace ChangesKey

variable {C : CursorCrypto} {key : ChangesKey}

/-! ## What a key issues -/

variable {v : CursorVersion} {plain : List UInt8}

def sealedCursor (C : CursorCrypto) (key : ChangesKey) (v : CursorVersion) (plain : List UInt8) :
    List UInt8 :=
  let nonce := key.cursorNonce C v.byte plain
  key.header v ++ (nonce ++ C.sealText key.cursor nonce (cursorAad v.aadLabel (key.header v)) plain)

def encodeV1 (C : CursorCrypto) (key : ChangesKey) (seq : ℕ) : String :=
  Base64.urlSafe.encode (key.sealedCursor C .v1 (toBe seqLen seq))

def plaintext (epoch : UInt32) (c : DecodedCursor) : List UInt8 :=
  toBe seqLen c.pos ++ (toBe seqLen c.anchor.seq ++ (c.anchor.fp ++ toBe epochLen epoch.toNat))

theorem encodeCursor_eq (c : DecodedCursor) :
    key.encodeCursor C c = Base64.urlSafe.encode (key.sealedCursor C .v2 (plaintext key.epoch c)) := by
  simp only [encodeCursor, sealedCursor, plaintext, List.append_assoc]

theorem encodeCursor_epoch (epoch : UInt32) (c : DecodedCursor) :
    { key with epoch := epoch }.encodeCursor C c =
      Base64.urlSafe.encode (key.sealedCursor C .v2 (plaintext epoch c)) :=
  @encodeCursor_eq C { key with epoch := epoch } c

@[simp] theorem header_length (v : CursorVersion) : (key.header v).length = v.headerLen := by
  cases v
  · rfl
  · rw [header, List.length_append, key.kid_length]
    rfl

theorem header_head (v : CursorVersion) : (key.header v).headD 0 = v.byte := by
  cases v <;> rfl

theorem cursorNonce_length (hC : C.Ideal) (key : ChangesKey) (version : UInt8) (plain : List UInt8) :
    (key.cursorNonce C version plain).length = nonceLen := by
  rw [cursorNonce, List.length_take]
  exact min_eq_left (hC.hmac_length _ _)

theorem sealedCursor_length (hC : C.Ideal) (h : plain.length = v.plainLen) :
    (key.sealedCursor C v plain).length = v.cursorLen := by
  have hn := cursorNonce_length hC key v.byte plain
  simp only [sealedCursor, List.length_append, header_length, hn, hC.sealText_length _ _ _ _ hn, h,
    CursorVersion.cursorLen, Nat.add_assoc]

/-! ## The header -/

variable {raw : List UInt8}

/-- The header names this key, as far as its version names one. -/
def Named (key : ChangesKey) (v : CursorVersion) (raw : List UInt8) : Prop :=
  raw.getD 1 0 = key.keyId ∧
    (v.headerLen = CursorVersion.v2.headerLen → (raw.take CursorVersion.v2.headerLen).drop 2 = key.kid)

theorem not_named_iff :
    (raw.getD 1 0 ≠ key.keyId ∨ v.headerLen = CursorVersion.v2.headerLen ∧
      (raw.take CursorVersion.v2.headerLen).drop 2 ≠ key.kid) ↔ ¬key.Named v raw := by
  rw [Named, not_and_or, Classical.not_imp]

theorem ofRaw_eq_some :
    CursorVersion.ofRaw raw = some v ↔ raw.head? = some v.byte ∧ raw.length = v.cursorLen := by
  have hne : CursorVersion.v1.cursorLen ≠ CursorVersion.v2.cursorLen := by decide
  unfold CursorVersion.ofRaw
  cases v with
  | v1 =>
    constructor
    · intro h
      split at h
      · cases h
      · split at h
        · next h₁ => exact h₁
        · cases h
    · intro h
      rw [if_neg fun h₂ => hne (h.2.symm.trans h₂.2), if_pos h]
  | v2 =>
    constructor
    · intro h
      split at h
      · next h₂ => exact h₂
      · split at h <;> cases h
    · intro h
      rw [if_pos h]

theorem named_iff (h : CursorVersion.ofRaw raw = some v) :
    key.Named v raw ↔ raw.take v.headerLen = key.header v := by
  obtain ⟨hhead, hlen⟩ := ofRaw_eq_some.1 h
  have htwo : 2 ≤ raw.length := by
    rw [hlen]
    cases v <;> decide
  obtain ⟨first, second, rest, rfl⟩ : ∃ first second rest, raw = first :: second :: rest := by
    match raw, htwo with
    | first :: second :: rest, _ => exact ⟨first, second, rest, rfl⟩
  cases hhead
  cases v with
  | v1 =>
    have hne : ¬CursorVersion.v1.headerLen = CursorVersion.v2.headerLen := by decide
    simp only [Named, hne, false_imp_iff, and_true]
    simp [header, CursorVersion.headerLen]
  | v2 => simp [Named, header, CursorVersion.headerLen, kidLen]

/-! ## Decoding -/

/-- The bytes after the header, opened under the nonce that they begin with. -/
def opened (C : CursorCrypto) (key : ChangesKey) (v : CursorVersion) (rest : List UInt8) :
    Option (List UInt8) :=
  C.openText key.cursor (rest.take nonceLen) (cursorAad v.aadLabel (key.header v)) (rest.drop nonceLen)

theorem decodeRaw_named (h : CursorVersion.ofRaw raw = some v) (hnamed : key.Named v raw) :
    key.decodeRaw C raw = (opened C key v (raw.drop v.headerLen)).elim (.error .invalid) fun plain =>
      if plain.length ≠ v.plainLen ∨
          key.cursorNonce C v.byte plain ≠ (raw.drop v.headerLen).take nonceLen then .error .invalid
      else if v = .v1 then .error .stale
      else key.placed plain := by
  have hheader := (named_iff h).1 hnamed
  have hbyte : v.byte = CursorVersion.v1.byte ↔ v = .v1 := by cases v <;> decide
  rw [decodeRaw, h]
  simp only [not_named_iff, hnamed, not_true_eq_false, if_false, hheader, header_head, hbyte, opened]
  cases C.openText key.cursor ((raw.drop v.headerLen).take nonceLen)
    (cursorAad v.aadLabel (key.header v)) ((raw.drop v.headerLen).drop nonceLen) <;> rfl

theorem decodeRaw_other (h : CursorVersion.ofRaw raw = some v) (hnamed : ¬key.Named v raw) :
    key.decodeRaw C raw = .error .unknownKey := by
  rw [decodeRaw, h]
  simp only [not_named_iff, hnamed, not_false_eq_true, if_true]

theorem sealedCursor_ofRaw (hC : C.Ideal) (key : ChangesKey) (h : plain.length = v.plainLen) :
    CursorVersion.ofRaw (key.sealedCursor C v plain) = some v := by
  refine ofRaw_eq_some.2 ⟨?_, sealedCursor_length hC h⟩
  cases v <;> rfl

theorem sealedCursor_take (v : CursorVersion) (plain : List UInt8) :
    (key.sealedCursor C v plain).take v.headerLen = key.header v :=
  List.take_left' (header_length v)

theorem sealedCursor_drop (v : CursorVersion) (plain : List UInt8) :
    (key.sealedCursor C v plain).drop v.headerLen =
      key.cursorNonce C v.byte plain ++ C.sealText key.cursor (key.cursorNonce C v.byte plain)
        (cursorAad v.aadLabel (key.header v)) plain :=
  List.drop_left' (header_length v)

/-- **What a key issues is opened by it.** -/
theorem decodeRaw_sealed (hC : C.Ideal) (h : plain.length = v.plainLen) :
    key.decodeRaw C (key.sealedCursor C v plain) =
      if v = .v1 then .error .stale else key.placed plain := by
  have hraw := sealedCursor_ofRaw hC key h
  have hn := cursorNonce_length hC key v.byte plain
  have hopened : opened C key v ((key.sealedCursor C v plain).drop v.headerLen) = some plain := by
    rw [opened, sealedCursor_drop, List.take_left' hn, List.drop_left' hn]
    exact (hC.openText_iff _ _ _ _ _ hn).2 rfl
  rw [decodeRaw_named hraw ((named_iff hraw).2 (sealedCursor_take v plain)), hopened, sealedCursor_drop,
    List.take_left' hn]
  simp only [Option.elim_some, h, ne_eq, not_true_eq_false, or_self, if_false]

/-- **Only what a key issues is opened by it.** -/
theorem decodeRaw_own (hC : C.Ideal) (h : CursorVersion.ofRaw raw = some v)
    (hnamed : key.Named v raw) (hvalid : key.decodeRaw C raw ≠ .error .invalid) :
    ∃ plain, plain.length = v.plainLen ∧ raw = key.sealedCursor C v plain := by
  obtain ⟨hhead, hlen⟩ := ofRaw_eq_some.1 h
  rw [decodeRaw_named h hnamed] at hvalid
  cases hopen : opened C key v (raw.drop v.headerLen) with
  | none =>
    rw [hopen] at hvalid
    exact absurd rfl hvalid
  | some plain =>
    rw [hopen] at hvalid
    by_cases hcheck : plain.length ≠ v.plainLen ∨
        key.cursorNonce C v.byte plain ≠ (raw.drop v.headerLen).take nonceLen
    · rw [Option.elim_some, if_pos hcheck] at hvalid
      exact absurd rfl hvalid
    · push Not at hcheck
      refine ⟨plain, hcheck.1, ?_⟩
      have hn := cursorNonce_length hC key v.byte plain
      rw [opened, ← hcheck.2, hC.openText_iff _ _ _ _ _ hn] at hopen
      rw [sealedCursor, ← hopen, hcheck.2, List.take_append_drop, ← (named_iff h).1 hnamed,
        List.take_append_drop]

/-- **A changed byte** after the header. -/
theorem decodeRaw_changed (hC : C.Ideal) (h : plain.length = v.plainLen) {i : ℕ} {x : UInt8}
    (hi : v.headerLen ≤ i) (hlt : i < (key.sealedCursor C v plain).length)
    (hx : (key.sealedCursor C v plain)[i]? ≠ some x) :
    key.decodeRaw C ((key.sealedCursor C v plain).set i x) = .error .invalid := by
  set raw := key.sealedCursor C v plain with hdef
  have htake : (raw.set i x).take v.headerLen = raw.take v.headerLen := List.take_set_of_le hi
  have hraw : CursorVersion.ofRaw (raw.set i x) = some v := by
    obtain ⟨hhead, hlen⟩ := ofRaw_eq_some.1 (sealedCursor_ofRaw hC key h)
    refine ofRaw_eq_some.2 ⟨?_, by rw [List.length_set, hlen]⟩
    have hpos : i ≠ 0 := by
      have : 0 < v.headerLen := by cases v <;> decide
      omega
    rw [List.head?_eq_getElem?, List.getElem?_set_ne hpos, ← List.head?_eq_getElem?]
    exact hhead
  have hnamed : key.Named v (raw.set i x) := by
    rw [named_iff hraw, htake]
    exact sealedCursor_take v plain
  have hn := cursorNonce_length hC key v.byte plain
  have hrest : (raw.set i x).drop v.headerLen = (raw.drop v.headerLen).set (i - v.headerLen) x := by
    rw [List.drop_set, if_neg (not_lt.2 hi)]
  have hclosed : opened C key v ((raw.set i x).drop v.headerLen) = none := by
    rw [opened, hrest, hdef, sealedCursor_drop]
    refine hC.changed _ _ _ _ _ _ hn ?_ ?_
    · rw [← sealedCursor_drop, ← hdef, List.length_drop]
      omega
    · rw [← sealedCursor_drop, List.getElem?_drop, Nat.add_sub_cancel' hi]
      exact hx
  rw [decodeRaw_named hraw hnamed, hclosed, Option.elim_none]

/-! ## The plaintext -/

theorem plaintext_length (epoch : UInt32) {c : DecodedCursor} (hc : c.Fits) :
    (plaintext epoch c).length = CursorVersion.v2.plainLen := by
  simp only [plaintext, List.length_append, toBe_length, hc.fp]
  rfl

theorem placed_plaintext (epoch : UInt32) {c : DecodedCursor} (hc : c.Fits) :
    key.placed (plaintext epoch c) = if epoch = key.epoch then .ok c else .error .stale := by
  have hpos : (plaintext epoch c).take seqLen = toBe seqLen c.pos := List.take_left' (toBe_length _ _)
  have hdrop : (plaintext epoch c).drop seqLen =
      toBe seqLen c.anchor.seq ++ (c.anchor.fp ++ toBe epochLen epoch.toNat) :=
    List.drop_left' (toBe_length _ _)
  have hdrop₂ : (plaintext epoch c).drop (2 * seqLen) = c.anchor.fp ++ toBe epochLen epoch.toNat := by
    rw [Nat.two_mul, ← List.drop_drop, hdrop, List.drop_left' (toBe_length _ _)]
  have hepoch : (plaintext epoch c).drop (2 * seqLen + fpLen) = toBe epochLen epoch.toNat := by
    rw [← List.drop_drop, hdrop₂, List.drop_left' hc.fp]
  have hlt : epoch.toNat < 256 ^ epochLen := epoch.toNat_lt
  rw [placed, hepoch, hpos, hdrop, hdrop₂, List.take_left' (toBe_length _ _), List.take_left' hc.fp,
    ofBe_toBe hlt, ofBe_toBe hc.pos, ofBe_toBe hc.seq]
  by_cases h : epoch = key.epoch
  · rw [if_neg fun hne => hne (congrArg _ h), if_pos h]
  · rw [if_pos fun heq => h (UInt32.toNat_inj.1 heq), if_neg h]

theorem exists_plaintext (h : plain.length = CursorVersion.v2.plainLen) :
    ∃ epoch c, c.Fits ∧ plain = plaintext epoch c := by
  have hlen : plain.length = 28 := h
  obtain ⟨pos, rest, rfl, hpos⟩ : ∃ pos rest, plain = pos ++ rest ∧ pos.length = seqLen :=
    ⟨plain.take 8, plain.drop 8, (List.take_append_drop 8 plain).symm, by simp [hlen, seqLen]⟩
  rw [List.length_append, hpos] at hlen
  obtain ⟨seq, rest, rfl, hseq⟩ : ∃ seq rest', rest = seq ++ rest' ∧ seq.length = seqLen :=
    ⟨rest.take 8, rest.drop 8, (List.take_append_drop 8 rest).symm, by
      simp only [List.length_take, seqLen] at hlen ⊢
      omega⟩
  rw [List.length_append, hseq] at hlen
  obtain ⟨fp, epoch, rfl, hfp⟩ : ∃ fp epoch, rest = fp ++ epoch ∧ fp.length = fpLen :=
    ⟨rest.take 8, rest.drop 8, (List.take_append_drop 8 rest).symm, by
      simp only [List.length_take, seqLen, fpLen] at hlen ⊢
      omega⟩
  have hepoch : epoch.length = epochLen := by
    rw [List.length_append, hfp] at hlen
    simp only [seqLen, fpLen, epochLen] at hlen ⊢
    omega
  have hlt : ofBe epoch < 2 ^ 32 := by
    have := ofBe_lt epoch
    rw [hepoch] at this
    exact this
  refine ⟨UInt32.ofNat (ofBe epoch), ⟨ofBe pos, ⟨ofBe seq, fp⟩⟩,
    ⟨hpos ▸ ofBe_lt pos, hseq ▸ ofBe_lt seq, hfp⟩, ?_⟩
  simp only [plaintext]
  rw [UInt32.toNat_ofNat_of_lt' hlt, ← hepoch, toBe_ofBe, ← hpos, toBe_ofBe, hpos, ← hseq, toBe_ofBe]

/-! ## The classes of texts -/

/-- A cursor of this key from another epoch, or of version 1. -/
def Outdated (C : CursorCrypto) (key : ChangesKey) (s : String) : Prop :=
  (∃ epoch c, epoch ≠ key.epoch ∧ c.Fits ∧ s = { key with epoch := epoch }.encodeCursor C c) ∨
    ∃ seq < 256 ^ seqLen, s = key.encodeV1 C seq

/-- A text of the shape of a cursor whose header names another key. -/
def Foreign (key : ChangesKey) (s : String) : Prop :=
  ∃ raw v, s = Base64.urlSafe.encode raw ∧ raw.head? = some v.byte ∧ raw.length = v.cursorLen ∧
    raw.take v.headerLen ≠ key.header v

/-- **How a text is classified.** -/
theorem decodeCursor_cases (hC : C.Ideal) (key : ChangesKey) (s : String) :
    (∃ c, c.Fits ∧ s = key.encodeCursor C c ∧ key.decodeCursor C s = .ok c) ∨
    (key.Outdated C s ∧ key.decodeCursor C s = .error .stale) ∨
    (key.Foreign s ∧ key.decodeCursor C s = .error .unknownKey) ∨
    key.decodeCursor C s = .error .invalid := by
  cases hs : Base64.urlSafe.decode s with
  | none => exact .inr (.inr (.inr (by rw [decodeCursor, hs])))
  | some raw =>
    have hdecode : key.decodeCursor C s = key.decodeRaw C raw := by rw [decodeCursor, hs]
    obtain rfl := Base64.Alphabet.decode_eq_some_iff.1 hs
    rw [hdecode]
    cases hv : CursorVersion.ofRaw raw with
    | none => exact .inr (.inr (.inr (by rw [decodeRaw, hv])))
    | some v =>
      obtain ⟨hhead, hlen⟩ := ofRaw_eq_some.1 hv
      by_cases hnamed : key.Named v raw
      · by_cases hvalid : key.decodeRaw C raw = .error .invalid
        · exact .inr (.inr (.inr hvalid))
        · obtain ⟨plain, hplain, rfl⟩ := decodeRaw_own hC hv hnamed hvalid
          rw [decodeRaw_sealed hC hplain]
          cases v with
          | v1 =>
            refine .inr (.inl ⟨.inr ⟨ofBe plain, ?_, ?_⟩, rfl⟩)
            · have := ofBe_lt plain
              rw [hplain] at this
              exact this
            · rw [encodeV1, ← show plain.length = seqLen from hplain, toBe_ofBe]
          | v2 =>
            obtain ⟨epoch, c, hc, rfl⟩ := exists_plaintext hplain
            rw [if_neg (by decide), placed_plaintext epoch hc]
            by_cases hepoch : epoch = key.epoch
            · rw [if_pos hepoch, hepoch]
              exact .inl ⟨c, hc, (encodeCursor_eq c).symm, rfl⟩
            · rw [if_neg hepoch]
              exact .inr (.inl ⟨.inl ⟨epoch, c, hepoch, hc, (encodeCursor_epoch epoch c).symm⟩, rfl⟩)
      · refine .inr (.inr (.inl ⟨⟨raw, v, rfl, hhead, hlen, ?_⟩, decodeRaw_other hv hnamed⟩))
        exact mt (named_iff hv).2 hnamed

theorem decodeCursor_encode (raw : List UInt8) :
    key.decodeCursor C (Base64.urlSafe.encode raw) = key.decodeRaw C raw := by
  rw [decodeCursor, Base64.Alphabet.decode_eq_some_iff.2 rfl]

theorem decodeCursor_issued (hC : C.Ideal) {c : DecodedCursor} (hc : c.Fits) :
    key.decodeCursor C (key.encodeCursor C c) = .ok c := by
  rw [encodeCursor_eq, decodeCursor_encode, decodeRaw_sealed hC (plaintext_length _ hc),
    if_neg (by decide), placed_plaintext _ hc, if_pos rfl]

theorem decodeCursor_outdated (hC : C.Ideal) {s : String} (h : key.Outdated C s) :
    key.decodeCursor C s = .error .stale := by
  rcases h with ⟨epoch, c, hepoch, hc, rfl⟩ | ⟨seq, -, rfl⟩
  · rw [encodeCursor_epoch, decodeCursor_encode, decodeRaw_sealed hC (plaintext_length _ hc),
      if_neg (by decide), placed_plaintext _ hc, if_neg hepoch]
  · have hlen : (toBe seqLen seq).length = CursorVersion.v1.plainLen := toBe_length _ _
    rw [encodeV1, decodeCursor_encode, decodeRaw_sealed hC hlen, if_pos rfl]

theorem decodeCursor_foreign {s : String} (h : key.Foreign s) :
    key.decodeCursor C s = .error .unknownKey := by
  obtain ⟨raw, v, rfl, hhead, hlen, hother⟩ := h
  have hv := ofRaw_eq_some.2 ⟨hhead, hlen⟩
  rw [decodeCursor_encode]
  exact decodeRaw_other hv (mt (named_iff hv).1 hother)

theorem sealed_of_own
    (h : (∃ c, c.Fits ∧ Base64.urlSafe.encode raw = key.encodeCursor C c) ∨
      key.Outdated C (Base64.urlSafe.encode raw)) :
    ∃ v plain, plain.length = v.plainLen ∧ raw = key.sealedCursor C v plain := by
  rcases h with ⟨c, hc, h⟩ | ⟨epoch, c, -, hc, h⟩ | ⟨seq, -, h⟩
  · rw [encodeCursor_eq] at h
    exact ⟨.v2, _, plaintext_length _ hc, Base64.Alphabet.encode_injective h⟩
  · rw [encodeCursor_epoch] at h
    exact ⟨.v2, _, plaintext_length _ hc, Base64.Alphabet.encode_injective h⟩
  · exact ⟨.v1, _, toBe_length _ _, Base64.Alphabet.encode_injective h⟩

theorem foreign_sealed (hC : C.Ideal) {key' : ChangesKey} (h : plain.length = v.plainLen)
    (hkey : key'.header v ≠ key.header v) :
    key.Foreign (Base64.urlSafe.encode (key'.sealedCursor C v plain)) := by
  obtain ⟨hhead, hlen⟩ := ofRaw_eq_some.1 (sealedCursor_ofRaw hC key' h)
  exact ⟨_, v, rfl, hhead, hlen, by rw [sealedCursor_take]; exact hkey⟩

/-- **The cursor codec.**  Decoding undoes encoding and accepts nothing else; a cursor of another epoch or
    of version 1 is stale, one whose header names another key is of an unknown key, and every other text,
    such as one with a byte after its header changed, is invalid. -/
theorem cursor_codec (C : CursorCrypto) (hC : C.Ideal) (key : ChangesKey) :
    (∀ c, c.Fits → key.decodeCursor C (key.encodeCursor C c) = .ok c) ∧
    (∀ s c, key.decodeCursor C s = .ok c → c.Fits ∧ s = key.encodeCursor C c) ∧
    (∀ s, key.decodeCursor C s = .error .stale ↔ key.Outdated C s) ∧
    (∀ s, key.decodeCursor C s = .error .unknownKey ↔ key.Foreign s) ∧
    (∀ (key' : ChangesKey) c, key'.header .v2 ≠ key.header .v2 → c.Fits →
      key.decodeCursor C (key'.encodeCursor C c) = .error .unknownKey) ∧
    (∀ (key' : ChangesKey) seq, key'.keyId ≠ key.keyId →
      key.decodeCursor C (key'.encodeV1 C seq) = .error .unknownKey) ∧
    (∀ s, key.decodeCursor C s = .error .invalid ↔
      (¬∃ c, c.Fits ∧ s = key.encodeCursor C c) ∧ ¬key.Outdated C s ∧ ¬key.Foreign s) ∧
    ∀ raw v i x, CursorVersion.ofRaw raw = some v →
      (∃ c, c.Fits ∧ Base64.urlSafe.encode raw = key.encodeCursor C c) ∨
        key.Outdated C (Base64.urlSafe.encode raw) →
      v.headerLen ≤ i → i < raw.length → raw[i]? ≠ some x →
      key.decodeCursor C (Base64.urlSafe.encode (raw.set i x)) = .error .invalid := by
  refine ⟨fun c hc => decodeCursor_issued hC hc, fun s c hok => ?_, fun s => ⟨fun herr => ?_,
    decodeCursor_outdated hC⟩, fun s => ⟨fun herr => ?_, decodeCursor_foreign⟩, fun key' c hkey hc => ?_,
    fun key' seq hkey => ?_, fun s => ⟨fun herr => ⟨?_, fun h => ?_, fun h => ?_⟩, ?_⟩,
    fun raw v i x hv hown hi hlt hx => ?_⟩
  · rcases decodeCursor_cases hC key s with ⟨c', hc', hs, h⟩ | ⟨-, h⟩ | ⟨-, h⟩ | h
    · cases hok.symm.trans h
      exact ⟨hc', hs⟩
    all_goals cases hok.symm.trans h
  · rcases decodeCursor_cases hC key s with ⟨c', -, -, h⟩ | ⟨hout, -⟩ | ⟨-, h⟩ | h
    · cases herr.symm.trans h
    · exact hout
    all_goals cases herr.symm.trans h
  · rcases decodeCursor_cases hC key s with ⟨c', -, -, h⟩ | ⟨-, h⟩ | ⟨hfor, -⟩ | h
    · cases herr.symm.trans h
    · cases herr.symm.trans h
    · exact hfor
    · cases herr.symm.trans h
  · rw [encodeCursor_eq]
    exact decodeCursor_foreign (foreign_sealed hC (plaintext_length _ hc) hkey)
  · refine decodeCursor_foreign (foreign_sealed hC (toBe_length _ _) fun heq => hkey ?_)
    simp only [header, List.cons.injEq, and_true, true_and] at heq
    exact heq
  · rintro ⟨c, hc, rfl⟩
    cases herr.symm.trans (decodeCursor_issued hC hc)
  · cases herr.symm.trans (decodeCursor_outdated hC h)
  · cases herr.symm.trans (decodeCursor_foreign h)
  · rintro ⟨hissued, hout, hfor⟩
    rcases decodeCursor_cases hC key s with ⟨c, hc, hs, -⟩ | ⟨h, -⟩ | ⟨h, -⟩ | h
    · exact absurd ⟨c, hc, hs⟩ hissued
    · exact absurd h hout
    · exact absurd h hfor
    · exact h
  · obtain ⟨v', plain, hplain, rfl⟩ := sealed_of_own hown
    cases hv.symm.trans (sealedCursor_ofRaw hC key hplain)
    rw [decodeCursor_encode]
    exact decodeRaw_changed hC hplain hi hlt hx

end ChangesKey

namespace Sample

/-- A checksum: the bytes of nonce, text and tag add up to nothing. -/
def tagOf (nonce plain : List UInt8) : List UInt8 := List.replicate 15 0 ++ [-(nonce.sum + plain.sum)]

def toyCrypto : CursorCrypto where
  sealText := fun _ nonce _ plain => plain ++ tagOf nonce plain
  openText := fun _ nonce _ c =>
    let plain := c.take (c.length - tagLen)
    if c = plain ++ tagOf nonce plain then some plain else none
  hmac := fun _ m => List.replicate 32 m.sum

theorem sum_tagged (nonce plain : List UInt8) : (nonce ++ (plain ++ tagOf nonce plain)).sum = 0 := by
  simp only [tagOf, List.sum_append, List.sum_replicate, List.sum_singleton]
  grind

theorem toyCrypto_opens {k n a c p : List UInt8} :
    toyCrypto.openText k n a c = some p ↔ c = p ++ tagOf n p := by
  have hopen : toyCrypto.openText k n a c =
      if c = c.take (c.length - tagLen) ++ tagOf n (c.take (c.length - tagLen))
      then some (c.take (c.length - tagLen)) else none := rfl
  rw [hopen]
  constructor
  · intro hsome
    split at hsome
    · next hc =>
      cases hsome
      exact hc
    · cases hsome
  · intro hc
    have hp : c.take (c.length - tagLen) = p := by
      rw [hc, List.length_append, show (tagOf n p).length = tagLen from rfl, Nat.add_sub_cancel]
      exact List.take_left
    rw [hp, if_pos hc]

theorem sum_set_ne {l : List UInt8} {i : ℕ} {x : UInt8} (hi : i < l.length) (hx : l[i]? ≠ some x) :
    (l.set i x).sum ≠ l.sum := by
  induction l generalizing i with
  | nil => cases hi
  | cons a l ih =>
    cases i with
    | zero =>
      simp only [List.set_cons_zero, List.sum_cons]
      intro h
      refine hx ?_
      have : x = a := by grind
      rw [this]
      rfl
    | succ i =>
      simp only [List.set_cons_succ, List.sum_cons]
      intro h
      refine ih (Nat.lt_of_succ_lt_succ hi) (by simpa using hx) ?_
      grind

theorem toyCrypto_changed {k n a p : List UInt8} {i : ℕ} {x : UInt8}
    (hi : i < (n ++ (p ++ tagOf n p)).length) (hx : (n ++ (p ++ tagOf n p))[i]? ≠ some x) :
    toyCrypto.openText k (((n ++ (p ++ tagOf n p)).set i x).take nonceLen) a
      (((n ++ (p ++ tagOf n p)).set i x).drop nonceLen) = none := by
  rw [Option.eq_none_iff_forall_ne_some]
  intro p' hopen
  -- a text that opens adds up to nothing, and a changed byte changes the sum
  have hsum := sum_set_ne hi hx
  rw [sum_tagged, ← List.take_append_drop nonceLen (List.set _ i x), toyCrypto_opens.1 hopen] at hsum
  exact hsum (sum_tagged _ _)

theorem toyCrypto_ideal : toyCrypto.Ideal where
  openText_iff := fun _ _ _ _ _ _ => toyCrypto_opens
  changed := fun _ _ _ _ _ _ _ hi hx => toyCrypto_changed hi hx
  sealText_length := fun _ _ _ _ _ => List.length_append
  hmac_length := fun _ _ => by
    simp only [toyCrypto, List.length_replicate]
    decide

def cursorKey : ChangesKey := ⟨3, [1, 2, 3, 4], 5, [], [], rfl⟩

end Sample

theorem cursor_codec_sample :
    let c : DecodedCursor := ⟨7, ⟨9, List.replicate 8 1⟩⟩
    Sample.cursorKey.decodeCursor Sample.toyCrypto (Sample.cursorKey.encodeCursor Sample.toyCrypto c) =
      .ok c ∧
    Sample.cursorKey.decodeCursor Sample.toyCrypto
      ({ Sample.cursorKey with epoch := 4 }.encodeCursor Sample.toyCrypto c) = .error .stale ∧
    Sample.cursorKey.decodeCursor Sample.toyCrypto (Sample.cursorKey.encodeV1 Sample.toyCrypto 7) =
      .error .stale := by
  obtain ⟨hok, -, hstale, -⟩ := ChangesKey.cursor_codec Sample.toyCrypto Sample.toyCrypto_ideal Sample.cursorKey
  have hfits : DecodedCursor.Fits ⟨7, ⟨9, List.replicate 8 1⟩⟩ := ⟨by decide, by decide, rfl⟩
  refine ⟨hok _ hfits, (hstale _).2 (.inl ⟨4, _, by decide, hfits, rfl⟩), (hstale _).2 (.inr ⟨7, by decide, rfl⟩)⟩

end AcdpRegistry
