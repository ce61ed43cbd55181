/-
  The RFC 3339 text of a UTC instant, `YYYY-MM-DDTHH:MM:SS`, a fraction of three, six
  or nine digits if the second is not whole, and `+00:00`.

  In the years 0 to 9999 the order of the texts is the order of the instants.  The text
  is cut into fields; a field is the index of a segment of a partition (the year of a
  day, the month of a day of the year, the hour of a second), and what follows it is the
  text of the offset in that segment.
-/
import AcdpRegistry.Lib.Instant
import Mathlib.Data.String.Basic

namespace Lib.Rfc3339

/-! ## The calendar -/

/-- The days from 0000-01-01 to the first day of a year. -/
def yearStart (y : ℤ) : ℤ := 365 * y + (y + 3) / 4 - (y + 99) / 100 + (y + 399) / 400

def yearOf (day : ℤ) : ℤ :=
  let y := 400 * day / 146097
  if day < yearStart y then y - 1 else if yearStart (y + 1) ≤ day then y + 1 else y

def leap (y : ℤ) : Bool := yearStart (y + 1) - yearStart y = 366

/-- The days before a month of the year; January is month 0. -/
def monthStart (leap : Bool) (m : ℤ) : ℤ :=
  275 * (m + 1) / 9 - (if leap then 1 else 2) * ((m + 10) / 12) - 30

def monthOf (leap : Bool) (day : ℤ) : ℤ :=
  let correction := if day < monthStart leap 2 then 0 else if leap then 1 else 2
  (12 * (day + correction) + 6) / 367

def epochDay : ℤ := yearStart 1970

theorem yearOf_spec (day : ℤ) : yearStart (yearOf day) ≤ day ∧ day < yearStart (yearOf day + 1) := by
  unfold yearOf
  simp only
  split_ifs with hbefore hafter
  · rw [sub_add_cancel]
    refine ⟨?_, hbefore⟩
    simp only [yearStart] at *
    omega
  · simp only [yearStart] at *
    constructor <;> omega
  · exact ⟨not_lt.1 hbefore, not_le.1 hafter⟩

theorem monthOf_spec {leap : Bool} {day : ℤ} (h0 : 0 ≤ day) (h : day < if leap then 366 else 365) :
    (monthStart leap (monthOf leap day) ≤ day ∧ day < monthStart leap (monthOf leap day + 1)) ∧
      0 ≤ monthOf leap day ∧ monthOf leap day < 12 := by
  unfold monthOf
  simp only
  generalize hc : (if day < monthStart leap 2 then (0 : ℤ) else if leap then 1 else 2) = c
  generalize hm : (12 * (day + c) + 6) / 367 = m
  have hlo : 367 * m ≤ 12 * (day + c) + 6 := by omega
  have hhi : 12 * (day + c) + 6 < 367 * (m + 1) := by omega
  have hc' : 0 ≤ c ∧ c ≤ 2 ∧ (leap = true → c ≤ 1) := by
    subst hc
    cases leap <;> simp only [monthStart] <;> split_ifs <;> simp
  have hm' : 0 ≤ m ∧ m < 12 := by cases leap <;> simp at h hc' <;> omega
  refine ⟨?_, hm'⟩
  obtain ⟨hm0, hm12⟩ := hm'
  interval_cases m <;> cases leap <;> simp [monthStart] at hc h ⊢ <;> split_ifs at hc <;> omega

/-! ## The text -/

def pad : ℕ → ℤ → List Char
  | 0, _ => []
  | w + 1, n => Nat.digitChar (n / 10 ^ w).toNat :: pad w (n % 10 ^ w)

/-- A year: four digits, or a sign and at least four. -/
def yearText (y : ℤ) : List Char :=
  if 0 ≤ y ∧ y < 10 ^ 4 then pad 4 y
  else
    let digits := Nat.toDigits 10 y.natAbs
    (if y < 0 then '-' else '+') :: (List.replicate (4 - digits.length) '0' ++ digits)

/-- `MM-DD`. -/
def monthText (leap : Bool) (day : ℤ) : List Char :=
  let m := monthOf leap day
  pad 2 (m + 1) ++ '-' :: pad 2 (day - monthStart leap m + 1)

/-- `YYYY-MM-DD`. -/
def dateText (day : ℤ) : List Char :=
  let y := yearOf day
  yearText y ++ '-' :: monthText (leap y) (day - yearStart y)

/-- `HH:MM:SS`. -/
def timeText (second : ℤ) : List Char :=
  pad 2 (second / 3600) ++ ':' :: (pad 2 (second % 3600 / 60) ++ ':' :: pad 2 (second % 3600 % 60))

def offset : List Char := "+00:00".toList

/-- A text that is left out at zero. -/
def unlessZero (rest : ℤ → List Char) (n : ℤ) : List Char := if n = 0 then offset else rest n

/-- The fraction of a second in groups of three digits, without groups of zeros at its end, and the
    offset. -/
def fractionText : ℤ → List Char :=
  unlessZero fun nanos => '.' :: (pad 3 (nanos / 10 ^ 6) ++
    unlessZero (fun nanos => pad 3 (nanos / 10 ^ 3) ++
      unlessZero (fun nanos => pad 3 nanos ++ offset) (nanos % 10 ^ 3)) (nanos % 10 ^ 6))

def text (t : ℤ) : List Char :=
  let second := t / 10 ^ 9
  (dateText (second / 86400 + epochDay) ++ 'T' :: timeText (second % 86400)) ++
    fractionText (t % 10 ^ 9)

def render (t : ℤ) : String := String.ofList (text t)

/-! ## The order of the texts -/

/-- The text grows with its argument, from `lo` to `hi`. -/
def Ascends (text : ℤ → List Char) (lo hi : ℤ) : Prop :=
  ∀ a b, lo ≤ a → a < b → b < hi → text a < text b

theorem append_lt_append {a a' b b' : List Char} (hlen : a.length = a'.length)
    (h : a < a' ∨ a = a' ∧ b < b') : a ++ b < a' ++ b' := by
  induction a generalizing a' with
  | nil =>
    cases a' with
    | nil => simpa using h
    | cons => simp at hlen
  | cons c a ih =>
    cases a' with
    | nil => simp at hlen
    | cons c' a' =>
      rw [List.cons_append, List.cons_append, List.cons_lt_cons_iff]
      rw [List.cons_lt_cons_iff, List.cons.injEq] at h
      have hlen : a.length = a'.length := by simpa using hlen
      rcases h with (hc | ⟨hc, ha⟩) | ⟨⟨hc, ha⟩, hb⟩
      · exact .inl hc
      · exact .inr ⟨hc, ih hlen (.inl ha)⟩
      · exact .inr ⟨hc, ih hlen (.inr ⟨ha, hb⟩)⟩

namespace Ascends

variable {A : ℤ → List Char} {lo hi : ℤ} {n : ℕ}

theorem cons (c : Char) (h : Ascends A lo hi) : Ascends (fun d => c :: A d) lo hi :=
  fun a b ha hab hb => List.cons_lt_cons_iff.2 (.inr ⟨rfl, h a b ha hab hb⟩)

theorem shift (k : ℤ) (h : Ascends A (lo + k) (hi + k)) : Ascends (fun d => A (d + k)) lo hi :=
  fun a b ha hab hb => h (a + k) (b + k) (by omega) (by omega) (by omega)

theorem mono {lo' hi' : ℤ} (h : Ascends A lo hi) (hlo : lo ≤ lo') (hhi : hi' ≤ hi) : Ascends A lo' hi' :=
  fun a b ha hab hb => h a b (hlo.trans ha) hab (hb.trans_le hhi)

theorem segments (start index : ℤ → ℤ) (B : ℤ → ℤ → List Char) {first last : ℤ} (hstart : Monotone start)
    (hindex : ∀ d, lo ≤ d → d < hi → start (index d) ≤ d ∧ d < start (index d + 1))
    (hrange : ∀ d, lo ≤ d → d < hi → first ≤ index d ∧ index d < last) (hA : Ascends A first last)
    (hlen : ∀ i, first ≤ i → i < last → (A i).length = n)
    (hB : ∀ i, Ascends (B i) 0 (start (i + 1) - start i)) :
    Ascends (fun d => A (index d) ++ B (index d) (d - start (index d))) lo hi := by
  intro a b ha hab hb
  obtain ⟨hstarta, henda⟩ := hindex a ha (hab.trans hb)
  obtain ⟨hstartb, hendb⟩ := hindex b (ha.trans hab.le) hb
  obtain ⟨hfirsta, hlasta⟩ := hrange a ha (hab.trans hb)
  obtain ⟨hfirstb, hlastb⟩ := hrange b (ha.trans hab.le) hb
  have hle : index a ≤ index b := by
    by_contra hlt
    have := hstart (Int.add_one_le_iff.2 (not_le.1 hlt))
    omega
  refine append_lt_append ((hlen _ hfirsta hlasta).trans (hlen _ hfirstb hlastb).symm) ?_
  rcases hle.lt_or_eq with hlt | heq
  · exact .inl (hA _ _ hfirsta hlt hlastb)
  · rw [heq] at hstarta henda ⊢
    exact .inr ⟨rfl, hB _ _ _ (by omega) (by omega) (by omega)⟩

theorem div {B : ℤ → List Char} {k : ℤ} (hk : 0 < k) (hA : Ascends A lo hi)
    (hlen : ∀ i, lo ≤ i → i < hi → (A i).length = n) (hB : Ascends B 0 k) :
    Ascends (fun d => A (d / k) ++ B (d % k)) (lo * k) (hi * k) := by
  have hmod : (fun d => A (d / k) ++ B (d % k)) = fun d => A (d / k) ++ B (d - d / k * k) := by
    funext d
    rw [Int.emod_def, mul_comm k]
  rw [hmod]
  refine segments (· * k) (· / k) (fun _ => B) (fun i j hij => mul_le_mul_of_nonneg_right hij hk.le)
    (fun d _ _ => ⟨Int.ediv_mul_le d hk.ne', Int.lt_ediv_add_one_mul_self d hk⟩)
    (fun d hlo hhi => ⟨(Int.le_ediv_iff_mul_le hk).2 hlo, (Int.ediv_lt_iff_lt_mul hk).2 hhi⟩) hA hlen
    fun i => ?_
  simpa [add_mul] using hB

end Ascends

theorem length_pad (w : ℕ) (n : ℤ) : (pad w n).length = w := by
  induction w generalizing n with
  | zero => rfl
  | succ w ih => rw [pad, List.length_cons, ih]

theorem digitChar_ascends : Ascends (fun n => [Nat.digitChar n.toNat]) 0 10 := by
  intro a b ha hab hb
  have hb0 : 0 ≤ b := ha.trans hab.le
  interval_cases b <;> interval_cases a <;> decide

theorem pad_ascends (w : ℕ) : Ascends (pad w) 0 (10 ^ w) := by
  induction w with
  | zero =>
    intro a b ha hab hb
    omega
  | succ w ih =>
    have h := digitChar_ascends.div (n := 1) (by positivity) (fun _ _ _ => rfl) ih
    rw [zero_mul, ← pow_succ'] at h
    exact h

theorem timeText_ascends : Ascends timeText 0 86400 := by
  have hminute : Ascends (fun n => pad 2 (n / 60) ++ ':' :: pad 2 (n % 60)) 0 3600 :=
    ((pad_ascends 2).mono le_rfl (by norm_num : (60 : ℤ) ≤ 10 ^ 2)).div (k := 60) (by norm_num)
      (fun _ _ _ => length_pad 2 _) (((pad_ascends 2).mono le_rfl (by norm_num)).cons ':')
  exact ((pad_ascends 2).mono le_rfl (by norm_num : (24 : ℤ) ≤ 10 ^ 2)).div (k := 3600) (by norm_num)
    (fun _ _ _ => length_pad 2 _) (hminute.cons ':')

theorem offset_lt_cons {c : Char} (hc : '+' < c) (rest : List Char) : offset < c :: rest :=
  List.cons_lt_cons_iff.2 (.inl hc)

theorem plus_lt_digitChar {n : ℤ} (h0 : 0 ≤ n) (h : n < 10) : '+' < Nat.digitChar n.toNat := by
  interval_cases n <;> decide

theorem offset_lt_pad {w : ℕ} {n : ℤ} (h0 : 0 ≤ n) (h : n < 10 ^ (w + 1)) (rest : List Char) :
    offset < pad (w + 1) n ++ rest := by
  rw [pow_succ'] at h
  exact offset_lt_cons (plus_lt_digitChar (Int.ediv_nonneg h0 (by positivity))
    ((Int.ediv_lt_iff_lt_mul (by positivity)).2 h)) _

theorem Ascends.unlessZero {A : ℤ → List Char} {hi : ℤ} (h : Ascends A 0 hi)
    (h0 : ∀ n, 0 ≤ n → n < hi → offset < A n) : Ascends (unlessZero A) 0 hi := by
  intro a b ha hab hb
  have hb0 : b ≠ 0 := (ha.trans_lt hab).ne'
  unfold Rfc3339.unlessZero
  rw [if_neg hb0]
  split_ifs
  · exact h0 b (ha.trans hab.le) hb
  · exact h a b ha hab hb

theorem fractionText_ascends : Ascends fractionText 0 (10 ^ 9) := by
  have hpad : Ascends (pad 3) 0 (10 ^ 3) := pad_ascends 3
  have hnano : Ascends (unlessZero fun n => pad 3 n ++ offset) 0 (10 ^ 3) := by
    refine Ascends.unlessZero (fun a b ha hab hb => ?_) fun n h0 h => offset_lt_pad h0 h _
    exact append_lt_append ((length_pad 3 a).trans (length_pad 3 b).symm) (.inl (hpad a b ha hab hb))
  have hmicro : Ascends (unlessZero fun n => pad 3 (n / 10 ^ 3) ++
      unlessZero (fun n => pad 3 n ++ offset) (n % 10 ^ 3)) 0 (10 ^ 6) := by
    refine Ascends.unlessZero (hpad.div (by norm_num) (fun _ _ _ => length_pad 3 _) hnano) ?_
    exact fun n h0 h => offset_lt_pad (by omega) (by omega) _
  exact Ascends.unlessZero ((hpad.div (by norm_num) (fun _ _ _ => length_pad 3 _) hmicro).cons '.')
    fun _ _ _ => offset_lt_cons (by decide) _

theorem monthStart_monotone (leap : Bool) : Monotone (monthStart leap) := by
  refine monotone_int_of_le_succ fun m => ?_
  cases leap <;> simp only [monthStart, Bool.false_eq_true, if_false, if_true] <;> omega

theorem monthText_ascends (leap : Bool) :
    Ascends (monthText leap) 0 (if leap then 366 else 365) := by
  have hmonth : Ascends (fun m => pad 2 (m + 1)) 0 12 :=
    ((pad_ascends 2).mono (by norm_num) (by norm_num)).shift 1
  refine Ascends.segments (monthStart leap) (monthOf leap) (fun _ day => '-' :: pad 2 (day + 1))
    (monthStart_monotone leap) (fun d h0 h => (monthOf_spec h0 h).1) (fun d h0 h => (monthOf_spec h0 h).2)
    hmonth (fun _ _ _ => length_pad 2 _) fun m => ?_
  refine (((pad_ascends 2).mono (by norm_num) ?_).shift 1).cons '-'
  cases leap <;> simp only [monthStart, Bool.false_eq_true, if_false, if_true] <;> omega

theorem yearStart_monotone : Monotone yearStart := by
  refine monotone_int_of_le_succ fun y => ?_
  simp only [yearStart]
  omega

theorem yearStart_succ (y : ℤ) : yearStart (y + 1) - yearStart y = if leap y then 366 else 365 := by
  unfold leap
  split_ifs with h
  · exact of_decide_eq_true h
  · rw [decide_eq_true_eq] at h
    simp only [yearStart] at *
    omega

theorem yearOf_range {day : ℤ} (h0 : yearStart 0 ≤ day) (h : day < yearStart (10 ^ 4)) :
    0 ≤ yearOf day ∧ yearOf day < 10 ^ 4 := by
  obtain ⟨hstart, hend⟩ := yearOf_spec day
  constructor
  · by_contra hlt
    have := yearStart_monotone (Int.add_one_le_iff.2 (not_le.1 hlt))
    omega
  · by_contra hle
    have := yearStart_monotone (not_lt.1 hle)
    omega

theorem dateText_ascends : Ascends dateText (yearStart 0) (yearStart (10 ^ 4)) := by
  have hyear : Ascends yearText 0 (10 ^ 4) := by
    intro a b ha hab hb
    rw [yearText, yearText, if_pos ⟨ha, hab.trans hb⟩, if_pos ⟨ha.trans hab.le, hb⟩]
    exact pad_ascends 4 a b ha hab hb
  refine Ascends.segments yearStart yearOf (fun y day => '-' :: monthText (leap y) day)
    yearStart_monotone (fun d _ _ => yearOf_spec d) (fun d h0 h => yearOf_range h0 h) hyear (n := 4)
    (fun y h0 h => ?_) fun y => ?_
  · rw [yearText, if_pos ⟨h0, h⟩, length_pad]
  · rw [yearStart_succ]
    exact (monthText_ascends _).cons '-'

theorem length_dateText {day : ℤ} (h0 : yearStart 0 ≤ day) (h : day < yearStart (10 ^ 4)) :
    (dateText day).length = 10 := by
  simp only [dateText, yearText, if_pos (yearOf_range h0 h), monthText, List.length_append, length_pad,
    List.length_cons]

/-- The first instant of the year 0, and the first of the year 10000. -/
def firstInstant : ℤ := (yearStart 0 - epochDay) * 86400 * 10 ^ 9

def endInstant : ℤ := (yearStart (10 ^ 4) - epochDay) * 86400 * 10 ^ 9

def InYears (t : ℤ) : Prop := firstInstant ≤ t ∧ t < endInstant

instance (t : ℤ) : Decidable (InYears t) := inferInstanceAs (Decidable (_ ∧ _))

theorem text_ascends : Ascends text firstInstant endInstant := by
  have hdate : Ascends (fun n => dateText (n + epochDay)) (yearStart 0 - epochDay)
      (yearStart (10 ^ 4) - epochDay) := by
    refine Ascends.shift epochDay ?_
    rw [sub_add_cancel, sub_add_cancel]
    exact dateText_ascends
  have hlen : ∀ n, yearStart 0 - epochDay ≤ n → n < yearStart (10 ^ 4) - epochDay →
      (dateText (n + epochDay)).length = 10 :=
    fun n h0 h => length_dateText (by omega) (by omega)
  have hsecond := hdate.div (k := 86400) (by norm_num) hlen (timeText_ascends.cons 'T')
  refine hsecond.div (n := 19) (by norm_num) (fun n h0 h => ?_) fractionText_ascends
  have hday : yearStart 0 - epochDay ≤ n / 86400 ∧ n / 86400 < yearStart (10 ^ 4) - epochDay :=
    ⟨(Int.le_ediv_iff_mul_le (by norm_num)).2 h0, (Int.ediv_lt_iff_lt_mul (by norm_num)).2 h⟩
  simp only [List.length_append, hlen _ hday.1 hday.2, List.length_cons, timeText, length_pad]

/-- **The texts are in the order of the instants.** -/
theorem render_lt_render {a b : ℤ} (ha : InYears a) (hb : InYears b) : render a < render b ↔ a < b := by
  have hlt : ∀ {a b}, InYears a → InYears b → a < b → render a < render b := by
    intro a b ha hb hab
    rw [String.lt_iff_toList_lt, render, render, String.toList_ofList, String.toList_ofList]
    exact text_ascends a b ha.1 hab hb.2
  constructor
  · intro h
    by_contra hle
    rcases (not_lt.1 hle).lt_or_eq with hba | rfl
    · exact lt_asymm h (hlt hb ha hba)
    · exact lt_irrefl _ h
  · exact hlt ha hb

theorem render_inj {a b : ℤ} (ha : InYears a) (hb : InYears b) : render a = render b ↔ a = b := by
  constructor
  · intro h
    rcases lt_trichotomy a b with hab | hab | hab
    · exact absurd h ((render_lt_render ha hb).2 hab).ne
    · exact hab
    · exact absurd h ((render_lt_render hb ha).2 hab).ne'
  · exact congrArg render

theorem text_of_not_inYears {t : ℤ} (h : ¬InYears t) :
    ∃ rest, text t = '+' :: rest ∨ text t = '-' :: rest := by
  have hyear : ¬(0 ≤ yearOf (t / 10 ^ 9 / 86400 + epochDay) ∧
      yearOf (t / 10 ^ 9 / 86400 + epochDay) < 10 ^ 4) := by
    rintro ⟨h0, h4⟩
    obtain ⟨hstart, hend⟩ := yearOf_spec (t / 10 ^ 9 / 86400 + epochDay)
    have hlo := yearStart_monotone h0
    have hhi := yearStart_monotone (Int.add_one_le_iff.2 h4)
    refine h ⟨?_, ?_⟩ <;> simp only [firstInstant, endInstant] <;> omega
  simp only [text, dateText, yearText, if_neg hyear]
  split
  · exact ⟨_, .inr rfl⟩
  · exact ⟨_, .inl rfl⟩

theorem text_of_inYears {t : ℤ} (h : InYears t) :
    ∃ n : ℤ, (0 ≤ n ∧ n < 10) ∧ ∃ rest, text t = Nat.digitChar n.toNat :: rest := by
  have hday : yearStart 0 ≤ t / 10 ^ 9 / 86400 + epochDay ∧
      t / 10 ^ 9 / 86400 + epochDay < yearStart (10 ^ 4) := by
    obtain ⟨h0, h1⟩ := h
    simp only [firstInstant, endInstant] at h0 h1
    constructor <;> omega
  have hyear := yearOf_range hday.1 hday.2
  refine ⟨yearOf (t / 10 ^ 9 / 86400 + epochDay) / 10 ^ 3, by omega, ?_⟩
  simp only [text, dateText, yearText, if_pos hyear, pad]
  exact ⟨_, rfl⟩

theorem render_lt_of_not_inYears {a b : ℤ} (ha : ¬InYears a) (hb : InYears b) : render a < render b := by
  rw [String.lt_iff_toList_lt, render, render, String.toList_ofList, String.toList_ofList]
  obtain ⟨n, ⟨h0, h⟩, rest', hb⟩ := text_of_inYears hb
  have hdigit : '+' < Nat.digitChar n.toNat ∧ '-' < Nat.digitChar n.toNat := by
    interval_cases n <;> decide
  rw [hb]
  rcases text_of_not_inYears ha with ⟨rest, ha | ha⟩ <;> rw [ha]
  · exact List.cons_lt_cons_iff.2 (.inl hdigit.1)
  · exact List.cons_lt_cons_iff.2 (.inl hdigit.2)

theorem le_of_render_le {a b : ℤ} (ha : InYears a) (h : render a ≤ render b) : a ≤ b := by
  by_cases hb : InYears b
  · by_contra hlt
    exact absurd ((render_lt_render hb ha).2 (not_le.1 hlt)) (not_lt.2 h)
  · exact absurd (render_lt_of_not_inYears hb ha) (not_lt.2 h)

example : render 1700000123456000000 = "2023-11-14T22:15:23.456+00:00" := by decide +kernel

end Lib.Rfc3339
