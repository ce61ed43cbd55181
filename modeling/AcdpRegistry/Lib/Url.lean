/-
  Percent encoding and forms, on the bytes of a text.

  - `unescape` is percent decoding; a percent sign without two hexadecimal digits after
    it stands for itself;
  - `utf8Lossy` puts a replacement character for what is not UTF-8;
  - `formParse` reads the pairs of a form: the text is cut at `&`, each part at its first
    `=`, and a plus sign is a space.

  What these do to an occurrence of a text is stated for a text in lower case ASCII that
  none of the special characters is in (`Plain`).
-/
import Mathlib.Data.List.Infix
import Mathlib.Data.List.TakeWhile
import Mathlib.Tactic

namespace Lib.Url

/-! ## Characters -/

def ampersand : UInt8 := 38
def equalsSign : UInt8 := 61
def percent : UInt8 := 37
def plus : UInt8 := 43
def space : UInt8 := 32

/-- `to_ascii_lowercase`. -/
def lower (b : UInt8) : UInt8 := if 65 ≤ b ∧ b ≤ 90 then b + 32 else b

def hexDigit (b : UInt8) : Option UInt8 :=
  if 48 ≤ b ∧ b ≤ 57 then some (b - 48)
  else if 97 ≤ lower b ∧ lower b ≤ 102 then some (lower b - 87)
  else none

/-! ## Decoding -/

def unescape : List UInt8 → List UInt8
  | [] => []
  | [b] => [b]
  | [a, b] => [a, b]
  | p :: a :: b :: rest =>
    match hexDigit a, hexDigit b with
    | some hi, some lo =>
      if p = percent then (hi * 16 + lo) :: unescape rest else p :: unescape (a :: b :: rest)
    | _, _ => p :: unescape (a :: b :: rest)

def replacement : List UInt8 := [0xEF, 0xBF, 0xBD]

/-- What can follow the first byte of a character of more than one byte: a range for each. -/
def continuation (b : UInt8) : Option (List (UInt8 × UInt8)) :=
  if 0xC2 ≤ b ∧ b ≤ 0xDF then some [(0x80, 0xBF)]
  else if b = 0xE0 then some [(0xA0, 0xBF), (0x80, 0xBF)]
  else if b = 0xED then some [(0x80, 0x9F), (0x80, 0xBF)]
  else if 0xE1 ≤ b ∧ b ≤ 0xEF then some [(0x80, 0xBF), (0x80, 0xBF)]
  else if b = 0xF0 then some [(0x90, 0xBF), (0x80, 0xBF), (0x80, 0xBF)]
  else if 0xF1 ≤ b ∧ b ≤ 0xF3 then some [(0x80, 0xBF), (0x80, 0xBF), (0x80, 0xBF)]
  else if b = 0xF4 then some [(0x80, 0x8F), (0x80, 0xBF), (0x80, 0xBF)]
  else none

/-- The text from a point where the bytes `pending` of a character have been read and bytes in these
    ranges are to follow. -/
def lossyFrom : List UInt8 → List (UInt8 × UInt8) → List UInt8 → List UInt8
  | pending, _, [] => if pending = [] then [] else replacement
  | pending, ranges, b :: rest =>
    if ranges.head?.any fun r => r.1 ≤ b ∧ b ≤ r.2 then
      if ranges.tail = [] then pending ++ b :: lossyFrom [] [] rest
      else lossyFrom (pending ++ [b]) ranges.tail rest
    else
      (if pending = [] then [] else replacement) ++
        if b < 0x80 then b :: lossyFrom [] [] rest
        else match continuation b with
          | none => replacement ++ lossyFrom [] [] rest
          | some ranges => lossyFrom [b] ranges rest

/-- `String::from_utf8_lossy`. -/
def utf8Lossy (s : List UInt8) : List UInt8 := lossyFrom [] [] s

/-- The text before the first `c`, and the text after it. -/
def before (c : UInt8) (s : List UInt8) : List UInt8 := s.takeWhile (· ≠ c)

def after (c : UInt8) (s : List UInt8) : List UInt8 := (s.dropWhile (· ≠ c)).tail

def unplus (b : UInt8) : UInt8 := if b = plus then space else b

def formDecode (s : List UInt8) : List UInt8 := utf8Lossy (unescape (s.map unplus))

/-- `form_urlencoded::parse`. -/
def formParse (s : List UInt8) : List (List UInt8 × List UInt8) :=
  ((s.splitOn ampersand).filter (· ≠ [])).map fun part =>
    (formDecode (before equalsSign part), formDecode (after equalsSign part))

/-! ## Occurrences -/

section Occurrences

variable {α : Type} {p xs ys : List α}

theorem infix_append_cons_iff {c : α} (hc : c ∉ p) :
    p <:+: xs ++ c :: ys ↔ p <:+: xs ∨ p <:+: ys := by
  constructor
  · intro h
    rcases List.infix_append_iff.1 h with h | h | ⟨l₁, l₂, rfl, h₁, h₂⟩
    · exact .inl h
    · rcases List.infix_cons_iff.1 h with h | h
      · rcases List.prefix_cons_iff.1 h with rfl | ⟨t, rfl, -⟩
        · exact .inl List.nil_infix
        · simp at hc
      · exact .inr h
    · rcases List.prefix_cons_iff.1 h₂ with rfl | ⟨t, rfl, -⟩
      · rw [List.append_nil]
        exact .inl h₁.isInfix
      · simp at hc
  · rintro (h | h)
    · exact h.trans (List.prefix_append _ _).isInfix
    · exact h.trans ((List.suffix_cons _ _).trans (List.suffix_append _ _)).isInfix

theorem infix_append_of_disjoint (hp : p ≠ []) (hxs : ∀ c ∈ xs, c ∉ p) : p <:+: xs ++ ys ↔ p <:+: ys := by
  induction xs with
  | nil => rfl
  | cons c xs ih =>
    have hnil : ¬p <:+: [] := fun h => hp (List.eq_nil_of_infix_nil h)
    have hstep : p <:+: [] ++ c :: (xs ++ ys) ↔ p <:+: [] ∨ p <:+: xs ++ ys :=
      infix_append_cons_iff (hxs c List.mem_cons_self)
    rw [List.nil_append] at hstep
    rw [List.cons_append, hstep, ih fun c' hc' => hxs c' (List.mem_cons_of_mem _ hc')]
    exact or_iff_right hnil

theorem infix_map_of_fixed {f : α → α} (hf : ∀ a, f a ∈ p → f a = a) (hp : ∀ a ∈ p, f a = a) :
    p <:+: xs.map f ↔ p <:+: xs := by
  rw [List.infix_map_iff]
  constructor
  · rintro ⟨l, hl, rfl⟩
    have hmap : l.map f = l := by
      conv_rhs => rw [← List.map_id l]
      exact List.map_congr_left fun a ha => hf a (List.mem_map_of_mem ha)
    rwa [hmap]
  · intro h
    refine ⟨p, h, ?_⟩
    conv_lhs => rw [← List.map_id p]
    exact List.map_congr_left fun a ha => (hp a ha).symm

theorem intercalate_iff {P : List α → Prop} {c : α} (hP : ∀ xs ys, P (xs ++ c :: ys) ↔ P xs ∨ P ys)
    {parts : List (List α)} (hparts : parts ≠ []) : P ([c].intercalate parts) ↔ ∃ part ∈ parts, P part := by
  induction parts with
  | nil => exact absurd rfl hparts
  | cons part parts ih =>
    cases parts with
    | nil => simp
    | cons part' parts =>
      rw [List.intercalate_cons_cons, List.append_assoc, List.singleton_append, hP,
        ih (List.cons_ne_nil _ _)]
      simp

end Occurrences

/-! ## Parts -/

section Parts

variable {c : UInt8} {s : List UInt8}

theorem splitOn_cons (c b : UInt8) (s : List UInt8) : (b :: s).splitOn c =
    if b = c then [] :: s.splitOn c else (s.splitOn c).modifyHead (b :: ·) := by
  simp only [List.splitOn, List.splitOnP_cons_eq_if_modifyHead, beq_iff_eq]

theorem notMem_of_mem_splitOn {part : List UInt8} (h : part ∈ s.splitOn c) : c ∉ part := by
  induction s generalizing part with
  | nil =>
    obtain rfl : part = [] := by simpa [List.splitOn] using h
    exact List.not_mem_nil
  | cons b s ih =>
    rw [splitOn_cons] at h
    split at h
    · rcases List.mem_cons.1 h with rfl | h
      · exact List.not_mem_nil
      · exact ih h
    · next hb =>
      cases hs : s.splitOn c with
      | nil => simp [hs] at h
      | cons first parts =>
        rw [hs, List.modifyHead_cons] at h
        have hrest : ∀ part' ∈ first :: parts, c ∉ part' := fun part' h' => ih (hs ▸ h')
        rcases List.mem_cons.1 h with rfl | h
        · intro hc
          rcases List.mem_cons.1 hc with rfl | hc
          · exact hb rfl
          · exact hrest first List.mem_cons_self hc
        · exact hrest part (List.mem_cons_of_mem _ h)

theorem head?_splitOn (c : UInt8) (s : List UInt8) : (s.splitOn c).head? = some (before c s) := by
  induction s with
  | nil => rfl
  | cons b s ih =>
    rw [splitOn_cons]
    by_cases hb : b = c
    · simp [hb, before]
    · cases hs : s.splitOn c with
      | nil => simp [hs] at ih
      | cons first parts =>
        have hfirst : first = before c s := by simpa [hs] using ih
        simp [hb, before, hfirst]

theorem before_append_after (h : c ∈ s) : before c s ++ c :: after c s = s := by
  induction s with
  | nil => simp at h
  | cons b s ih =>
    by_cases hb : b = c
    · simp [before, after, hb]
    · have hs : c ∈ s := (List.mem_cons.1 h).resolve_left (Ne.symm hb)
      have hstep := ih hs
      simp only [before, after] at hstep
      simpa [before, after, hb] using hstep

theorem before_append_cons {xs : List UInt8} (h : c ∉ xs) (ys : List UInt8) :
    before c (xs ++ c :: ys) = xs ∧ after c (xs ++ c :: ys) = ys := by
  induction xs with
  | nil => simp [before, after]
  | cons b xs ih =>
    obtain ⟨hb, hxs⟩ := not_or.1 (mt List.mem_cons.2 h)
    obtain ⟨h₁, h₂⟩ := ih hxs
    have hb' : b ≠ c := Ne.symm hb
    simp only [before, after] at h₁ h₂
    constructor
    · simpa [before, hb'] using h₁
    · simpa [after, hb'] using h₂

theorem after_of_notMem (h : c ∉ s) : after c s = [] := by
  have hdrop : s.dropWhile (· ≠ c) = [] :=
    List.dropWhile_eq_nil_iff.2 fun b hb => by simpa using fun heq : b = c => h (heq ▸ hb)
  rw [after, hdrop, List.tail_nil]

theorem before_of_notMem (h : c ∉ s) : before c s = s :=
  List.takeWhile_eq_self_iff.2 fun b hb => by simpa using fun heq : b = c => h (heq ▸ hb)

end Parts

/-! ## What decoding does to occurrences -/

theorem lower_of_ge {b : UInt8} (h : 0x80 ≤ b) : lower b = b := by
  have hge : 128 ≤ b.toNat := UInt8.le_iff_toNat_le.1 h
  have hnot : ¬(65 ≤ b ∧ b ≤ 90) := by
    rintro ⟨-, hle⟩
    have hlt : b.toNat ≤ 90 := UInt8.le_iff_toNat_le.1 hle
    omega
  exact if_neg hnot

section Lossy

variable {p : List UInt8} (hascii : ∀ b ∈ p, b < 0x80)

include hascii

theorem lower_notMem {bytes : List UInt8} (h : ∀ b ∈ bytes, 0x80 ≤ b) : ∀ c ∈ bytes.map lower, c ∉ p := by
  intro c hc hp
  obtain ⟨b, hb, rfl⟩ := List.mem_map.1 hc
  have hlt := hascii _ hp
  rw [lower_of_ge (h b hb)] at hlt
  exact absurd (h b hb) (UInt8.not_le.2 hlt)

theorem not_prefix_of_ge {b c : UInt8} {rest : List UInt8} (hb : 0x80 ≤ b) (hc : c ∈ p) (q : List UInt8) :
    ¬c :: q <+: (b :: rest).map lower := by
  intro h
  rw [List.map_cons, List.cons_prefix_cons] at h
  have hlower : ∀ c ∈ [b].map lower, c ∉ p :=
    lower_notMem hascii fun b' h' => List.mem_singleton.1 h' ▸ hb
  exact hlower (lower b) (by simp) (h.1 ▸ hc)

end Lossy

theorem continuation_ge {b : UInt8} {ranges : List (UInt8 × UInt8)} (h : continuation b = some ranges) :
    ∀ r ∈ ranges, 0x80 ≤ r.1 := by
  unfold continuation at h
  split_ifs at h <;> cases h <;> simp

theorem replacement_ge : ∀ b ∈ replacement, 0x80 ≤ b := by simp [replacement]

theorem lossyFrom_head {first : UInt8} (hfirst : 0x80 ≤ first) (s pending : List UInt8)
    (ranges : List (UInt8 × UInt8)) :
    ∃ b rest, lossyFrom (first :: pending) ranges s = b :: rest ∧ 0x80 ≤ b := by
  induction s generalizing pending ranges with
  | nil => exact ⟨_, _, rfl, by decide⟩
  | cons b s ih =>
    unfold lossyFrom
    split
    · split
      · exact ⟨_, _, rfl, hfirst⟩
      · exact ih _ _
    · exact ⟨_, _, rfl, by decide⟩

section Lossy

variable {p : List UInt8} (hascii : ∀ b ∈ p, b < 0x80)

include hascii

theorem prefix_lossyFrom (s : List UInt8) {q : List UInt8} (hq : q ⊆ p) :
    q <+: (lossyFrom [] [] s).map lower ↔ q <+: s.map lower := by
  induction s generalizing q with
  | nil => rfl
  | cons b s ih =>
    cases q with
    | nil => simp
    | cons c q =>
      have hc : c ∈ p := hq List.mem_cons_self
      unfold lossyFrom
      by_cases hb : b < 0x80
      · simp only [hb, List.head?_nil, Option.any_none, Bool.false_eq_true, if_false, if_true,
          List.nil_append, List.map_cons, List.cons_prefix_cons,
          ih fun _ h => hq (List.mem_cons_of_mem _ h)]
      · have hge : 0x80 ≤ b := UInt8.not_lt.1 hb
        refine iff_of_false ?_ (not_prefix_of_ge hascii hge hc q)
        simp only [hb, List.head?_nil, Option.any_none, Bool.false_eq_true, if_false, if_true,
          List.nil_append]
        split
        · exact not_prefix_of_ge hascii (by decide) hc q
        · obtain ⟨b', rest, hrest, hb'⟩ := lossyFrom_head hge s [] _
          rw [hrest]
          exact not_prefix_of_ge hascii hb' hc q

theorem infix_map_append (hp : p ≠ []) {bytes : List UInt8} (h : ∀ b ∈ bytes, 0x80 ≤ b) (rest : List UInt8) :
    p <:+: (bytes ++ rest).map lower ↔ p <:+: rest.map lower := by
  rw [List.map_append]
  exact infix_append_of_disjoint hp (lower_notMem hascii h)

theorem infix_lossyFrom (hp : p ≠ []) (s pending : List UInt8) (ranges : List (UInt8 × UInt8))
    (hpending : ∀ b ∈ pending, 0x80 ≤ b) (hranges : ∀ r ∈ ranges, 0x80 ≤ r.1) :
    p <:+: (lossyFrom pending ranges s).map lower ↔ p <:+: s.map lower := by
  have hreplaced : ∀ pending rest : List UInt8,
      p <:+: ((if pending = [] then [] else replacement) ++ rest).map lower ↔ p <:+: rest.map lower := by
    intro pending rest
    split
    · rfl
    · exact infix_map_append hascii hp replacement_ge rest
  induction s generalizing pending ranges with
  | nil => simpa [lossyFrom] using hreplaced pending []
  | cons b s ih =>
    have hnil : ∀ b ∈ ([] : List UInt8), 0x80 ≤ b := fun _ h => absurd h List.not_mem_nil
    have hstart : p <:+: (lossyFrom [] [] s).map lower ↔ p <:+: s.map lower :=
      ih [] [] hnil fun _ h => absurd h List.not_mem_nil
    -- a byte outside ASCII can be left off
    have hskip : 0x80 ≤ b → (p <:+: (b :: s).map lower ↔ p <:+: s.map lower) := fun hb =>
      infix_map_append hascii hp (fun b' h => List.mem_singleton.1 h ▸ hb) s
    unfold lossyFrom
    split
    · next hcont =>
      obtain ⟨r, hr, hlo, -⟩ : ∃ r, ranges.head? = some r ∧ r.1 ≤ b ∧ b ≤ r.2 := by
        simpa [Option.any_eq_true] using hcont
      have hb : 0x80 ≤ b := UInt8.le_trans (hranges r (List.mem_of_mem_head? hr)) hlo
      have hmore : ∀ b' ∈ pending ++ [b], 0x80 ≤ b' := by
        intro b' hb'
        rcases List.mem_append.1 hb' with h | h
        · exact hpending b' h
        · rwa [List.mem_singleton.1 h]
      rw [hskip hb]
      split
      · have hout := infix_map_append hascii hp hmore (lossyFrom [] [] s)
        rw [List.append_assoc, List.singleton_append] at hout
        exact hout.trans hstart
      · exact ih _ _ hmore fun r hr => hranges r (List.mem_of_mem_tail hr)
    · rw [hreplaced]
      by_cases hb : b < 0x80
      · rw [if_pos hb]
        cases p with
        | nil => exact absurd rfl hp
        | cons c q =>
          have hbegins := prefix_lossyFrom hascii s (List.subset_cons_self c q)
          simp only [List.map_cons, List.infix_cons_iff, List.cons_prefix_cons, hbegins, hstart]
      · have hge : 0x80 ≤ b := UInt8.not_lt.1 hb
        rw [if_neg hb, hskip hge]
        split
        · exact (infix_map_append hascii hp replacement_ge _).trans hstart
        · next ranges' hranges' =>
          exact ih [b] ranges' (fun b' h => List.mem_singleton.1 h ▸ hge) (continuation_ge hranges')

/-- **Replacing what is not UTF-8 neither makes nor hides an occurrence** of a text in ASCII. -/
theorem infix_utf8Lossy (hp : p ≠ []) (s : List UInt8) :
    p <:+: (utf8Lossy s).map lower ↔ p <:+: s.map lower :=
  infix_lossyFrom hascii hp s [] [] (fun _ h => absurd h List.not_mem_nil) fun _ h =>
    absurd h List.not_mem_nil

end Lossy

theorem hexDigit_unplus (b : UInt8) : hexDigit (unplus b) = hexDigit b := by
  unfold unplus
  split
  · next h =>
    rw [h]
    rfl
  · rfl

theorem unplus_unplus (b : UInt8) : unplus (unplus b) = unplus b := by
  unfold unplus
  split <;> simp_all [plus, space]

theorem unplus_eq_percent (b : UInt8) : unplus b = percent ↔ b = percent := by
  unfold unplus
  split
  · next h =>
    rw [h]
    decide
  · rfl

theorem unplus_lower (b : UInt8) : unplus (lower b) = lower (unplus b) := by
  by_cases hb : b = plus
  · rw [hb]
    decide
  · have hlower : lower b ≠ plus := by
      unfold lower
      split
      · next h =>
        intro heq
        have h₁ : 65 ≤ b.toNat := UInt8.le_iff_toNat_le.1 h.1
        have h₂ : b.toNat ≤ 90 := UInt8.le_iff_toNat_le.1 h.2
        have h₃ : (b.toNat + 32) % 256 = 43 := by
          have := congrArg UInt8.toNat heq
          rwa [UInt8.toNat_add] at this
        omega
      · exact hb
    simp [unplus, hb, hlower]

theorem unescape_unplus : ∀ s : List UInt8,
    (unescape (s.map unplus)).map unplus = (unescape s).map unplus
  | [] => rfl
  | [b] => by simp [unescape, unplus_unplus]
  | [a, b] => by simp [unescape, unplus_unplus]
  | p :: a :: b :: rest => by
    have hrest := unescape_unplus rest
    have hnext := unescape_unplus (a :: b :: rest)
    simp only [List.map_cons] at hnext
    simp only [List.map_cons, unescape, hexDigit_unplus, unplus_eq_percent]
    cases hexDigit a with
    | none => simp [unplus_unplus, hnext]
    | some hi =>
      cases hexDigit b with
      | none => simp [unplus_unplus, hnext]
      | some lo =>
        by_cases hp : p = percent
        · simp [hp, hrest]
        · simp [hp, unplus_unplus, hnext]

/-- **A form decodes an occurrence as percent decoding does**, of a text in ASCII without plus signs and
    spaces. -/
theorem infix_formDecode {p : List UInt8} (hascii : ∀ b ∈ p, b < 0x80) (hp : p ≠ []) (hplus : plus ∉ p)
    (hspace : space ∉ p) (s : List UInt8) :
    p <:+: (formDecode s).map lower ↔ p <:+: (unescape s).map lower := by
  have hfixed : ∀ l : List UInt8, p <:+: (l.map lower).map unplus ↔ p <:+: l.map lower := by
    intro l
    refine infix_map_of_fixed (fun a ha => ?_) fun a ha => ?_
    · unfold unplus at ha ⊢
      split at ha
      · exact absurd ha hspace
      · next h => rw [if_neg h]
    · exact if_neg fun h : a = plus => hplus (h ▸ ha)
  have hcomm : ∀ l : List UInt8, (l.map lower).map unplus = (l.map unplus).map lower := by
    intro l
    simp [Function.comp_def, unplus_lower]
  calc p <:+: (formDecode s).map lower
      ↔ p <:+: (unescape (s.map unplus)).map lower := infix_utf8Lossy hascii hp _
    _ ↔ p <:+: ((unescape (s.map unplus)).map unplus).map lower := by rw [← hcomm, hfixed]
    _ ↔ p <:+: ((unescape s).map unplus).map lower := by rw [unescape_unplus]
    _ ↔ p <:+: (unescape s).map lower := by rw [← hcomm, hfixed]

end Lib.Url
