/-
  The keyset cursor of search and list pages (`acdp-registry-store/src/cursor.rs`):
  the base64 text of `mint_ms:anchor_ms:ctx_id`.

  Instants are nanoseconds since the epoch; the clock readings that go into a cursor
  or judge its age are `i64` milliseconds.
-/
import AcdpRegistry.Store.Changes
import AcdpRegistry.Lib.Instant
import AcdpRegistry.Lib.Base64

namespace AcdpRegistry

open Lib

/-! ## Text -/

def fromUtf8 (bytes : List UInt8) : Option String := String.fromUTF8? ⟨⟨bytes⟩⟩

theorem utf8_of_fromUtf8 {bytes : List UInt8} {s : String} (h : fromUtf8 bytes = some s) :
    bytes = utf8 s := by
  unfold fromUtf8 String.fromUTF8? at h
  split at h
  · cases h
    rfl
  · cases h

theorem fromUtf8_utf8 (s : String) : fromUtf8 (utf8 s) = some s := by
  have hvalid : (ByteArray.mk ⟨utf8 s⟩).IsValidUTF8 := s.isValidUTF8
  exact dif_pos hvalid

def IsI64 (n : ℤ) : Prop := -2 ^ 63 ≤ n ∧ n < 2 ^ 63

instance (n : ℤ) : Decidable (IsI64 n) := inferInstanceAs (Decidable (_ ∧ _))

/-- The digits of an `i64`, without its sign. -/
def parseDigits (digits : List Char) : Option ℕ :=
  if digits ≠ [] ∧ digits.all Char.isDigit then some (Nat.ofDigitChars 10 digits 0) else none

def splitSign : List Char → Bool × List Char
  | '-' :: digits => (true, digits)
  | '+' :: digits => (false, digits)
  | digits => (false, digits)

/-- `str::parse::<i64>`. -/
def parseI64 (s : List Char) : Option ℤ :=
  let value (n : ℕ) : ℤ := if (splitSign s).1 then -n else n
  ((parseDigits (splitSign s).2).map value).filter (IsI64 ·)

def splitColon : List Char → List Char × Option (List Char)
  | [] => ([], none)
  | c :: cs =>
    if c = ':' then ([], some cs)
    else (c :: (splitColon cs).1, (splitColon cs).2)

theorem splitColon_append {s rest : List Char} (h : ':' ∉ s) :
    splitColon (s ++ ':' :: rest) = (s, some rest) := by
  induction s with
  | nil => rfl
  | cons c s ih =>
    obtain ⟨hc, hs⟩ := not_or.1 (mt List.mem_cons.2 h)
    rw [List.cons_append, splitColon, if_neg (Ne.symm hc), ih hs]

theorem splitColon_eq_some {s field rest : List Char} (h : splitColon s = (field, some rest)) :
    s = field ++ ':' :: rest ∧ ':' ∉ field := by
  induction s generalizing field with
  | nil => cases h
  | cons c s ih =>
    rw [splitColon] at h
    split at h
    · next hc =>
      cases h
      exact ⟨by rw [hc, List.nil_append], List.not_mem_nil⟩
    · next hc =>
      obtain ⟨hfield, hrest⟩ := Prod.mk.inj h
      obtain ⟨hs, hfree⟩ := ih (Prod.ext rfl hrest)
      subst hfield
      refine ⟨by rw [List.cons_append, ← hs], ?_⟩
      rw [List.mem_cons, not_or]
      exact ⟨Ne.symm hc, hfree⟩

theorem parseDigits_toDigits (n : ℕ) : parseDigits (Nat.toDigits 10 n) = some n := by
  have hdigits : (Nat.toDigits 10 n).all Char.isDigit :=
    List.all_eq_true.2 fun _ hc => Nat.isDigit_of_mem_toDigits (by norm_num) (by norm_num) hc
  rw [parseDigits, if_pos ⟨Nat.toDigits_ne_nil, hdigits⟩, Nat.ofDigitChars_ten_toDigits]

theorem toList_toString (n : ℤ) : (toString n).toList =
    if 0 ≤ n then Nat.toDigits 10 n.natAbs else '-' :: Nat.toDigits 10 n.natAbs := by
  cases n with
  | ofNat m =>
    show (Nat.repr m).toList = _
    rw [Nat.repr_eq_ofList_toDigits, String.toList_ofList]
    rfl
  | negSucc m =>
    show ("-" ++ Nat.repr (m + 1)).toList = _
    rw [String.toList_append, Nat.repr_eq_ofList_toDigits]
    simp only [String.toList_ofList]
    rfl

theorem colon_notMem_toString (n : ℤ) : ':' ∉ (toString n).toList := by
  have hdigits : ':' ∉ Nat.toDigits 10 n.natAbs := fun h =>
    absurd (Nat.isDigit_of_mem_toDigits (by norm_num) (by norm_num) h) (by decide)
  rw [toList_toString]
  split
  · exact hdigits
  · simpa using hdigits

theorem splitSign_toDigits (n : ℕ) : splitSign (Nat.toDigits 10 n) = (false, Nat.toDigits 10 n) := by
  have hdigits : ∀ c ∈ Nat.toDigits 10 n, c.isDigit = true := fun _ hc =>
    Nat.isDigit_of_mem_toDigits (by norm_num) (by norm_num) hc
  unfold splitSign
  split
  · next heq => exact absurd (hdigits '-' (heq ▸ List.mem_cons_self)) (by decide)
  · next heq => exact absurd (hdigits '+' (heq ▸ List.mem_cons_self)) (by decide)
  · rfl

theorem parseI64_toString (n : ℤ) :
    parseI64 (toString n).toList = if IsI64 n then some n else none := by
  unfold parseI64
  rw [toList_toString]
  by_cases hn : 0 ≤ n
  · simp only [if_pos hn, splitSign_toDigits, parseDigits_toDigits, Option.map_some,
      Bool.false_eq_true, if_false, Int.natAbs_of_nonneg hn, Option.filter_some, decide_eq_true_eq]
  · have hneg : -(n.natAbs : ℤ) = n := by omega
    simp only [if_neg hn, splitSign, parseDigits_toDigits, Option.map_some, if_true, hneg,
      Option.filter_some, decide_eq_true_eq]

theorem colon_notMem_of_parseI64 {s : List Char} {n : ℤ} (h : parseI64 s = some n) : ':' ∉ s := by
  have hdigits : (parseDigits (splitSign s).2).isSome := by
    unfold parseI64 at h
    cases hd : parseDigits (splitSign s).2 with
    | none => simp [hd] at h
    | some m => rfl
  have hfree : ':' ∉ (splitSign s).2 := by
    intro hmem
    unfold parseDigits at hdigits
    split at hdigits
    · next hall => exact absurd (List.all_eq_true.1 hall.2 ':' hmem) (by decide)
    · cases hdigits
  intro hmem
  unfold splitSign at hfree
  split at hfree
  · exact hfree ((List.mem_cons.1 hmem).resolve_left (by decide))
  · exact hfree ((List.mem_cons.1 hmem).resolve_left (by decide))
  · exact hfree hmem

/-! ## Cursors -/

def cursorTtlSecs : ℤ := 3600

def cursorMalformed : String := "malformed"

def orMalformed {α : Type} (x : Option α) : Except AcdpError α :=
  x.elim (.error (.invalidCursor cursorMalformed)) .ok

theorem orMalformed_some_bind {α β : Type} (a : α) (f : α → Except AcdpError β) :
    (orMalformed (some a) >>= f) = f a := rfl

theorem orMalformed_none_bind {α β : Type} (f : α → Except AcdpError β) :
    (orMalformed none >>= f) = .error (.invalidCursor cursorMalformed) := rfl

/-- A cursor minted at `mintMs` is too old at `nowMs`. -/
def CursorAged (mintMs nowMs : ℤ) : Prop := cursorTtlSecs * 1000 < sat64 (nowMs - mintMs)

instance (mintMs nowMs : ℤ) : Decidable (CursorAged mintMs nowMs) := inferInstanceAs (Decidable (_ < _))

/-- A position in the order of the rows: `created_at`, and the `ctx_id` within it. -/
structure KeysetAnchor where
  createdAt : ℤ
  ctxId : String
  deriving DecidableEq, Repr

/-- `encode_cursor`, with its reading of the clock. -/
def encodeCursor (mintMs createdAtMs : ℤ) (ctxId : String) : String :=
  Base64.standard.encodePadded (utf8 s!"{mintMs}:{createdAtMs}:{ctxId}")

/-- The three fields of a cursor's text, `splitn(3, ':')`. -/
def cursorFields (s : String) : Option (List Char × List Char × List Char) := do
  let decoded ← (Base64.standard.decodePadded s).bind fromUtf8
  let (mint, rest) := splitColon decoded.toList
  let (anchor, ctxId) := splitColon (← rest)
  return (mint, anchor, ← ctxId)

/-- `decode_cursor`, with its reading of the clock. -/
def decodeCursor (nowMs : ℤ) (s : String) : Except AcdpError KeysetAnchor := do
  let (mint, anchor, ctxId) ← orMalformed (cursorFields s)
  let mintMs ← orMalformed (parseI64 mint)
  let anchorMs ← orMalformed (parseI64 anchor)
  if CursorAged mintMs nowMs then .error .cursorExpired
  else
    let anchorTs ← orMalformed (Instant.ofMillis anchorMs)
    return ⟨anchorTs, String.ofList ctxId⟩

theorem cursorFields_encodeCursor (mintMs createdAtMs : ℤ) (ctxId : String) :
    cursorFields (encodeCursor mintMs createdAtMs ctxId) =
      some ((toString mintMs).toList, (toString createdAtMs).toList, ctxId.toList) := by
  have htext : (s!"{mintMs}:{createdAtMs}:{ctxId}").toList =
      (toString mintMs).toList ++ ':' :: ((toString createdAtMs).toList ++ ':' :: ctxId.toList) := by
    simp only [String.toList_append, List.append_assoc]
    rfl
  have hpad : '=' ∉ Base64.standard.chars := by decide
  unfold cursorFields encodeCursor
  simp only [Base64.Alphabet.decodePadded_encodePadded hpad, Option.bind_some, fromUtf8_utf8, bind, htext,
    splitColon_append (colon_notMem_toString _)]
  rfl

/-! ## What a cursor's text says -/

/-- The string is the base64 of `mint:anchor:ctx_id`, where the first two fields are numbers. -/
def CursorText (s : String) (mintMs anchorMs : ℤ) (ctxId : String) : Prop :=
  ∃ mint anchor : String, parseI64 mint.toList = some mintMs ∧ parseI64 anchor.toList = some anchorMs ∧
    Base64.standard.decodePadded s = some (utf8 (mint ++ ":" ++ anchor ++ ":" ++ ctxId))

/-- The string encodes an issue time, an instant of the calendar and a `ctx_id`. -/
def EncodesAnchor (s : String) (mintMs : ℤ) (anchor : KeysetAnchor) : Prop :=
  ∃ anchorMs, CursorText s mintMs anchorMs anchor.ctxId ∧
    Instant.ofMillis anchorMs = some anchor.createdAt

section Text

variable {s : String} {mintMs anchorMs nowMs : ℤ} {ctxId : String}

theorem toList_fields (mint anchor id : List Char) :
    (String.ofList mint ++ ":" ++ String.ofList anchor ++ ":" ++ String.ofList id).toList =
      mint ++ ':' :: (anchor ++ ':' :: id) := by
  simp only [String.toList_append, String.toList_ofList, List.append_assoc]
  rfl

theorem cursorFields_of_decode {text : String} (h : Base64.standard.decodePadded s = some (utf8 text)) :
    cursorFields s = (splitColon text.toList).2.bind fun rest =>
      (splitColon rest).2.map fun id => ((splitColon text.toList).1, (splitColon rest).1, id) := by
  unfold cursorFields
  simp only [h, Option.bind_some, fromUtf8_utf8, bind, pure]
  cases (splitColon text.toList).2 with
  | none => rfl
  | some rest => cases hid : (splitColon rest).2 <;> simp [hid]

theorem cursorFields_eq_some {mint anchor id : List Char} :
    cursorFields s = some (mint, anchor, id) ↔ ':' ∉ mint ∧ ':' ∉ anchor ∧
      Base64.standard.decodePadded s = some (utf8 (String.ofList mint ++ ":" ++ String.ofList anchor ++ ":" ++
        String.ofList id)) := by
  constructor
  · intro h
    obtain ⟨text, htext, -⟩ := Option.bind_eq_some_iff.1 h
    obtain ⟨bytes, hbytes, hutf8⟩ := Option.bind_eq_some_iff.1 htext
    rw [utf8_of_fromUtf8 hutf8] at hbytes
    rw [cursorFields_of_decode hbytes] at h
    obtain ⟨rest, hrest, h⟩ := Option.bind_eq_some_iff.1 h
    obtain ⟨id', hid, h⟩ := Option.map_eq_some_iff.1 h
    obtain ⟨hmint, h⟩ := Prod.mk.inj h
    obtain ⟨hanchor, rfl⟩ := Prod.mk.inj h
    obtain ⟨hwhole, hmintFree⟩ := splitColon_eq_some (Prod.ext hmint hrest)
    obtain ⟨hparts, hanchorFree⟩ := splitColon_eq_some (Prod.ext hanchor hid)
    refine ⟨hmintFree, hanchorFree, ?_⟩
    rw [hbytes, ← String.toList_inj.1 ((hwhole.trans (by rw [hparts])).trans
      (toList_fields mint anchor id').symm)]
  · rintro ⟨hmint, hanchor, hdecode⟩
    rw [cursorFields_of_decode hdecode, toList_fields, splitColon_append hmint]
    simp [splitColon_append hanchor]

theorem cursorText_iff : CursorText s mintMs anchorMs ctxId ↔ ∃ mint anchor : List Char,
    parseI64 mint = some mintMs ∧ parseI64 anchor = some anchorMs ∧
      cursorFields s = some (mint, anchor, ctxId.toList) := by
  constructor
  · rintro ⟨mint, anchor, hmint, hanchor, hdecode⟩
    refine ⟨mint.toList, anchor.toList, hmint, hanchor, cursorFields_eq_some.2
      ⟨colon_notMem_of_parseI64 hmint, colon_notMem_of_parseI64 hanchor, ?_⟩⟩
    simpa only [String.ofList_toList] using hdecode
  · rintro ⟨mint, anchor, hmint, hanchor, hfields⟩
    obtain ⟨-, -, hdecode⟩ := cursorFields_eq_some.1 hfields
    refine ⟨String.ofList mint, String.ofList anchor, ?_, ?_, ?_⟩
    · rw [String.toList_ofList, hmint]
    · rw [String.toList_ofList, hanchor]
    · simpa only [String.ofList_toList] using hdecode

theorem CursorText.unique {mintMs' anchorMs' : ℤ} {ctxId' : String}
    (h : CursorText s mintMs anchorMs ctxId) (h' : CursorText s mintMs' anchorMs' ctxId') :
    mintMs' = mintMs ∧ anchorMs' = anchorMs ∧ ctxId' = ctxId := by
  obtain ⟨mint, anchor, hmint, hanchor, hfields⟩ := cursorText_iff.1 h
  obtain ⟨mint', anchor', hmint', hanchor', hfields'⟩ := cursorText_iff.1 h'
  rw [hfields] at hfields'
  simp only [Option.some.injEq, Prod.mk.injEq, String.toList_inj] at hfields'
  obtain ⟨rfl, rfl, rfl⟩ := hfields'
  rw [hmint] at hmint'
  rw [hanchor] at hanchor'
  exact ⟨(Option.some.inj hmint').symm, (Option.some.inj hanchor').symm, rfl⟩

/-- **What a string with numbers in its first two fields decodes to**: its age comes first, and only
    then the instant. -/
theorem decodeCursor_of_text (h : CursorText s mintMs anchorMs ctxId) : decodeCursor nowMs s =
    if CursorAged mintMs nowMs then .error .cursorExpired
    else (orMalformed (Instant.ofMillis anchorMs)).map (⟨·, ctxId⟩) := by
  obtain ⟨mint, anchor, hmint, hanchor, hfields⟩ := cursorText_iff.1 h
  unfold decodeCursor
  simp only [hfields, orMalformed_some_bind, hmint, hanchor]
  split_ifs
  · rfl
  · cases Instant.ofMillis anchorMs with
    | none => rfl
    | some t =>
      rw [orMalformed_some_bind, String.ofList_toList]
      rfl

/-- **Every other string is malformed.** -/
theorem decodeCursor_of_no_text (h : ¬∃ mintMs anchorMs ctxId, CursorText s mintMs anchorMs ctxId) :
    decodeCursor nowMs s = .error (.invalidCursor cursorMalformed) := by
  unfold decodeCursor
  cases hfields : cursorFields s with
  | none => rfl
  | some fields =>
    obtain ⟨mint, anchor, id⟩ := fields
    simp only [orMalformed_some_bind]
    cases hmint : parseI64 mint with
    | none => rfl
    | some mintMs =>
      rw [orMalformed_some_bind]
      cases hanchor : parseI64 anchor with
      | none => rfl
      | some anchorMs =>
        refine absurd ⟨mintMs, anchorMs, String.ofList id, cursorText_iff.2 ?_⟩ h
        exact ⟨mint, anchor, hmint, hanchor, by rw [String.toList_ofList, hfields]⟩

end Text

theorem decodeCursor_encodeCursor {mintMs : ℤ} (hmint : IsI64 mintMs) (createdAtMs : ℤ) (ctxId : String)
    (nowMs : ℤ) :
    decodeCursor nowMs (encodeCursor mintMs createdAtMs ctxId) =
      if ¬IsI64 createdAtMs then .error (.invalidCursor cursorMalformed)
      else if CursorAged mintMs nowMs then .error .cursorExpired
      else (orMalformed (Instant.ofMillis createdAtMs)).map (⟨·, ctxId⟩) := by
  unfold decodeCursor
  rw [cursorFields_encodeCursor, orMalformed_some_bind]
  simp only [parseI64_toString, if_pos hmint, orMalformed_some_bind]
  by_cases hms : IsI64 createdAtMs
  · rw [if_pos hms, orMalformed_some_bind, if_neg (not_not.2 hms)]
    split_ifs
    · rfl
    · cases Instant.ofMillis createdAtMs with
      | none => rfl
      | some t =>
        rw [orMalformed_some_bind, String.ofList_toList]
        rfl
  · rw [if_neg hms, orMalformed_none_bind, if_pos hms]

/-! ## The codec -/

theorem cursorAged_iff {mintMs nowMs : ℤ} :
    CursorAged mintMs nowMs ↔ cursorTtlSecs * 1000 < nowMs - mintMs := by
  unfold CursorAged cursorTtlSecs sat64
  omega

theorem isI64_of_ofMillis {ms t : ℤ} (h : Instant.ofMillis ms = some t) : IsI64 ms := by
  unfold Instant.ofMillis Instant.check at h
  split at h
  · next hrange =>
    simp only [Instant.minUtc, Instant.maxUtc, Instant.ofUnix] at hrange
    unfold IsI64
    omega
  · simp at h

theorem cursorText_encodeCursor {mintMs createdAtMs : ℤ} (hmint : IsI64 mintMs)
    (hcreated : IsI64 createdAtMs) (ctxId : String) :
    CursorText (encodeCursor mintMs createdAtMs ctxId) mintMs createdAtMs ctxId := by
  refine cursorText_iff.2 ⟨_, _, ?_, ?_, cursorFields_encodeCursor mintMs createdAtMs ctxId⟩
  · rw [parseI64_toString, if_pos hmint]
  · rw [parseI64_toString, if_pos hcreated]

theorem CursorText.encodesAnchor_iff {s ctxId : String} {mintMs anchorMs : ℤ}
    (h : CursorText s mintMs anchorMs ctxId) :
    (∃ mintMs anchor, EncodesAnchor s mintMs anchor) ↔ Instant.ofMillis anchorMs ≠ none := by
  constructor
  · rintro ⟨mintMs', anchor, anchorMs', htext, hinstant⟩
    obtain ⟨-, rfl, -⟩ := h.unique htext
    simp [hinstant]
  · intro hsome
    obtain ⟨createdAt, hinstant⟩ := Option.ne_none_iff_exists'.1 hsome
    exact ⟨mintMs, ⟨createdAt, ctxId⟩, anchorMs, h, hinstant⟩

theorem encodesAnchor_of_decodeCursor {nowMs : ℤ} {s : String} {anchor : KeysetAnchor}
    (h : decodeCursor nowMs s = .ok anchor) : ∃ mintMs, EncodesAnchor s mintMs anchor := by
  by_cases htext : ∃ mintMs anchorMs ctxId, CursorText s mintMs anchorMs ctxId
  · obtain ⟨mintMs, anchorMs, ctxId, htext⟩ := htext
    rw [decodeCursor_of_text htext] at h
    split at h
    · cases h
    · cases hinstant : Instant.ofMillis anchorMs with
      | none =>
        rw [hinstant] at h
        cases h
      | some createdAt =>
        rw [hinstant] at h
        cases h
        exact ⟨mintMs, anchorMs, htext, hinstant⟩
  · rw [decodeCursor_of_no_text htext] at h
    cases h

/-- The string says when it was issued, too long ago, and its anchor is a number that is no instant. -/
def StaleWithoutInstant (nowMs : ℤ) (s : String) : Prop :=
  ∃ mintMs anchorMs ctxId, CursorText s mintMs anchorMs ctxId ∧ CursorAged mintMs nowMs ∧
    Instant.ofMillis anchorMs = none

theorem malformed_iff {nowMs : ℤ} {s : String} (h : ¬∃ mintMs anchor, EncodesAnchor s mintMs anchor) :
    decodeCursor nowMs s = .error (.invalidCursor cursorMalformed) ↔ ¬StaleWithoutInstant nowMs s := by
  by_cases htext : ∃ mintMs anchorMs ctxId, CursorText s mintMs anchorMs ctxId
  · obtain ⟨mintMs, anchorMs, ctxId, htext⟩ := htext
    have hinstant : Instant.ofMillis anchorMs = none := not_not.1 (mt htext.encodesAnchor_iff.2 h)
    have hstale : StaleWithoutInstant nowMs s ↔ CursorAged mintMs nowMs := by
      constructor
      · rintro ⟨_, _, _, htext', hage, -⟩
        obtain ⟨rfl, -, -⟩ := htext.unique htext'
        exact hage
      · exact fun hage => ⟨mintMs, anchorMs, ctxId, htext, hage, hinstant⟩
    rw [hstale, decodeCursor_of_text htext, hinstant]
    by_cases hage : CursorAged mintMs nowMs
    · simp [hage]
    · simp [hage, orMalformed, Except.map]
  · refine iff_of_true (decodeCursor_of_no_text htext) ?_
    rintro ⟨mintMs, anchorMs, ctxId, htext', -⟩
    exact htext ⟨mintMs, anchorMs, ctxId, htext'⟩

/-- **The cursor codec.**  A row's cursor decodes to its instant and `ctx_id` within an hour and is
    expired after it; of a string an anchor is decoded only if the string encodes it, and any other
    string is malformed, unless its issue time is too old and its anchor a number that is no instant:
    its age is judged first. -/
theorem search_cursor_codec (nowMs : ℤ) (s : String) :
    (∀ (createdAtMs createdAt t : ℤ) (ctxId : String), Instant.ofMillis createdAtMs = some createdAt →
      IsI64 t → t ≤ nowMs → decodeCursor nowMs (encodeCursor t createdAtMs ctxId) =
        if nowMs - t ≤ cursorTtlSecs * 1000 then .ok ⟨createdAt, ctxId⟩ else .error .cursorExpired) ∧
    (((∀ anchor, decodeCursor nowMs s = .ok anchor → ∃ mintMs, EncodesAnchor s mintMs anchor) ∧
        ((¬∃ mintMs anchor, EncodesAnchor s mintMs anchor) →
          decodeCursor nowMs s = .error (.invalidCursor cursorMalformed))) ↔
      ¬StaleWithoutInstant nowMs s) := by
  refine ⟨?_, ?_⟩
  · intro createdAtMs createdAt t ctxId hinstant ht hle
    rw [decodeCursor_of_text (cursorText_encodeCursor ht (isI64_of_ofMillis hinstant) ctxId), hinstant]
    by_cases hage : nowMs - t ≤ cursorTtlSecs * 1000
    · rw [if_pos hage, if_neg (mt cursorAged_iff.1 (not_lt.2 hage))]
      rfl
    · rw [if_neg hage, if_pos (cursorAged_iff.2 (not_le.1 hage))]
  · constructor
    · rintro ⟨-, hmalformed⟩ hstale
      obtain ⟨mintMs, anchorMs, ctxId, htext, -, hinstant⟩ := id hstale
      have hnone : ¬∃ mintMs anchor, EncodesAnchor s mintMs anchor := fun h =>
        htext.encodesAnchor_iff.1 h hinstant
      exact (malformed_iff hnone).1 (hmalformed hnone) hstale
    · intro hstale
      exact ⟨fun _ h => encodesAnchor_of_decodeCursor h, fun hnone => (malformed_iff hnone).2 hstale⟩

/-- A cursor of a context in November 2023, read an hour after it was issued, and a millisecond later. -/
theorem search_cursor_codec_sample :
    decodeCursor 1700003723456 (encodeCursor 1700000123456 1699999999000 "acdp://reg/ctx-1") =
        .ok ⟨1699999999000000000, "acdp://reg/ctx-1"⟩ ∧
      decodeCursor 1700003723457 (encodeCursor 1700000123456 1699999999000 "acdp://reg/ctx-1") =
        .error .cursorExpired ∧
      ∃ mintMs, EncodesAnchor (encodeCursor 1700000123456 1699999999000 "acdp://reg/ctx-1") mintMs
        ⟨1699999999000000000, "acdp://reg/ctx-1"⟩ := by
  have hinstant : Instant.ofMillis 1699999999000 = some 1699999999000000000 := by decide
  have hmint : IsI64 1700000123456 := by decide
  obtain ⟨hissued, hread⟩ := search_cursor_codec 1700003723456
    (encodeCursor 1700000123456 1699999999000 "acdp://reg/ctx-1")
  have hok := hissued _ _ _ "acdp://reg/ctx-1" hinstant hmint (by norm_num)
  rw [if_pos (by decide)] at hok
  have hlate := (search_cursor_codec 1700003723457 "").1 _ _ _ "acdp://reg/ctx-1" hinstant hmint
    (by norm_num)
  rw [if_neg (by decide)] at hlate
  refine ⟨hok, hlate, (hread.2 ?_).1 _ hok⟩
  rintro ⟨mintMs, anchorMs, ctxId, htext, -, hnone⟩
  obtain ⟨-, rfl, -⟩ := (cursorText_encodeCursor hmint (isI64_of_ofMillis hinstant) _).unique htext
  rw [hinstant] at hnone
  cases hnone

/-- With a stale issue time a string with `i64::MAX` for its anchor is expired; with a fresh one it is
    malformed. -/
theorem stale_anchor_out_of_range :
    decodeCursor 3600001 (encodeCursor 0 9223372036854775807 "acdp://reg/ctx-1") =
        .error .cursorExpired ∧
      decodeCursor 3600000 (encodeCursor 0 9223372036854775807 "acdp://reg/ctx-1") =
        .error (.invalidCursor cursorMalformed) ∧
      ¬∃ mintMs anchor,
        EncodesAnchor (encodeCursor 0 9223372036854775807 "acdp://reg/ctx-1") mintMs anchor := by
  have htext : CursorText (encodeCursor 0 9223372036854775807 "acdp://reg/ctx-1") 0 9223372036854775807
      "acdp://reg/ctx-1" := cursorText_encodeCursor (by decide) (by decide) _
  have hinstant : Instant.ofMillis 9223372036854775807 = none := by decide
  refine ⟨?_, ?_, ?_⟩
  · rw [decodeCursor_of_text htext, if_pos (by decide)]
  · rw [decodeCursor_of_text htext, if_neg (by decide), hinstant]
    rfl
  · exact fun h => htext.encodesAnchor_iff.1 h hinstant

end AcdpRegistry
