/-
  Readings of a UTC clock with leap seconds, and the order of their RFC 3339 texts.

  A leap second is the second after a minute's last one: the reading stays on that
  second, with a fraction of one second or more, and its text has `:60`.  A minute then
  has up to 61 seconds.  Counted so, the readings are numbers (`count`), their texts are
  cut at the minute (`minuteText`), and the argument of `text_ascends` applies again.
-/
import AcdpRegistry.Lib.Rfc3339
import Mathlib.Data.Prod.Lex
import Mathlib.Tactic

namespace Lib.Rfc3339

/-- The whole seconds since the epoch, leap seconds aside, and the nanoseconds, up to two times 10⁹ in
    the last second of a minute. -/
structure Reading where
  second : ℤ
  nanos : ℤ
  nonneg : 0 ≤ nanos
  short : nanos < 2 * 10 ^ 9
  minuteEnd : 10 ^ 9 ≤ nanos → second % 60 = 59
  deriving DecidableEq

namespace Reading

theorem injective_fields : Function.Injective fun r : Reading => toLex (r.second, r.nanos) := by
  rintro ⟨s, n, _, _, _⟩ ⟨s', n', _, _, _⟩ h
  cases h
  rfl

/-- Readings are ordered by their second, and within it by their nanoseconds. -/
instance : LinearOrder Reading := LinearOrder.lift' _ injective_fields

theorem lt_def {a b : Reading} : a < b ↔ a.second < b.second ∨ a.second = b.second ∧ a.nanos < b.nanos :=
  Prod.Lex.toLex_lt_toLex

/-- The text of a reading; in a leap second the seconds are 60. -/
def text (r : Reading) : List Char :=
  let second := r.second % 86400
  (dateText (r.second / 86400 + epochDay) ++ 'T' ::
    (pad 2 (second / 3600) ++ ':' :: (pad 2 (second % 3600 / 60) ++ ':' ::
      pad 2 (second % 3600 % 60 + r.nanos / 10 ^ 9)))) ++
    fractionText (r.nanos % 10 ^ 9)

def render (r : Reading) : String := String.ofList r.text

def InYears (r : Reading) : Prop :=
  (yearStart 0 - epochDay) * 86400 ≤ r.second ∧ r.second < (yearStart (10 ^ 4) - epochDay) * 86400

instance (r : Reading) : Decidable r.InYears := inferInstanceAs (Decidable (_ ∧ _))

/-! ## Readings as numbers -/

/-- The nanoseconds of a reading where every minute has 61 seconds. -/
def count (r : Reading) : ℤ := r.second / 60 * (61 * 10 ^ 9) + (r.second % 60 * 10 ^ 9 + r.nanos)

theorem count_lt_count {a b : Reading} (h : a < b) : a.count < b.count := by
  have ha := a.minuteEnd
  have ha0 := a.nonneg
  have ha1 := a.short
  have hb0 := b.nonneg
  rw [lt_def] at h
  unfold count
  omega

/-- The text of a minute, up to its seconds. -/
def minuteText (minute : ℤ) : List Char :=
  dateText (minute / 1440 + epochDay) ++ 'T' ::
    (pad 2 (minute % 1440 / 60) ++ ':' :: pad 2 (minute % 1440 % 60))

def secondText (nanos : ℤ) : List Char := pad 2 (nanos / 10 ^ 9) ++ fractionText (nanos % 10 ^ 9)

theorem text_eq (r : Reading) :
    r.text = minuteText (r.count / (61 * 10 ^ 9)) ++ ':' :: secondText (r.count % (61 * 10 ^ 9)) := by
  have hend := r.minuteEnd
  have h0 := r.nonneg
  have h1 := r.short
  have hminute : r.count / (61 * 10 ^ 9) = r.second / 60 := by
    unfold count
    omega
  have hrest : r.count % (61 * 10 ^ 9) = r.second % 60 * 10 ^ 9 + r.nanos := by
    unfold count
    omega
  have hday : r.second / 60 / 1440 = r.second / 86400 := by omega
  have hhour : r.second / 60 % 1440 / 60 = r.second % 86400 / 3600 := by omega
  have hmin : r.second / 60 % 1440 % 60 = r.second % 86400 % 3600 / 60 := by omega
  have hsec : (r.second % 60 * 10 ^ 9 + r.nanos) / 10 ^ 9 =
      r.second % 86400 % 3600 % 60 + r.nanos / 10 ^ 9 := by
    omega
  have hfrac : (r.second % 60 * 10 ^ 9 + r.nanos) % 10 ^ 9 = r.nanos % 10 ^ 9 := by omega
  rw [hminute, hrest, minuteText, secondText, hday, hhour, hmin, hsec, hfrac]
  simp [text]

theorem minuteText_ascends :
    Ascends minuteText ((yearStart 0 - epochDay) * 1440) ((yearStart (10 ^ 4) - epochDay) * 1440) := by
  have hdate : Ascends (fun n => dateText (n + epochDay)) (yearStart 0 - epochDay)
      (yearStart (10 ^ 4) - epochDay) := by
    refine Ascends.shift epochDay ?_
    rw [sub_add_cancel, sub_add_cancel]
    exact dateText_ascends
  have hminute : Ascends (fun n => pad 2 (n / 60) ++ ':' :: pad 2 (n % 60)) 0 1440 :=
    ((pad_ascends 2).mono le_rfl (by norm_num : (24 : ℤ) ≤ 10 ^ 2)).div (k := 60) (by norm_num)
      (fun _ _ _ => length_pad 2 _) (((pad_ascends 2).mono le_rfl (by norm_num)).cons ':')
  refine hdate.div (n := 10) (by norm_num) (fun n h0 h => ?_) (hminute.cons 'T')
  exact length_dateText (by omega) (by omega)

theorem length_minuteText {minute : ℤ} (h0 : (yearStart 0 - epochDay) * 1440 ≤ minute)
    (h : minute < (yearStart (10 ^ 4) - epochDay) * 1440) : (minuteText minute).length = 16 := by
  have hday : yearStart 0 ≤ minute / 1440 + epochDay ∧ minute / 1440 + epochDay < yearStart (10 ^ 4) := by
    constructor <;> omega
  simp only [minuteText, List.length_append, length_dateText hday.1 hday.2, List.length_cons, length_pad]

theorem secondText_ascends : Ascends secondText 0 (61 * 10 ^ 9) := by
  have hseconds : Ascends (pad 2) 0 61 := (pad_ascends 2).mono le_rfl (by norm_num)
  have h := hseconds.div (k := 10 ^ 9) (by norm_num) (fun _ _ _ => length_pad 2 _) fractionText_ascends
  rw [zero_mul] at h
  exact h

/-- **Earlier readings have earlier texts.** -/
theorem text_lt_text {a b : Reading} (ha : a.InYears) (hb : b.InYears) (h : a < b) : a.text < b.text := by
  have hascends := minuteText_ascends.div (k := 61 * 10 ^ 9) (by norm_num)
    (fun _ h0 h => length_minuteText h0 h) (secondText_ascends.cons ':')
  rw [text_eq, text_eq]
  refine hascends a.count b.count ?_ (count_lt_count h) ?_
  · have h0 := a.nonneg
    have hlo := ha.1
    unfold count
    omega
  · have hend := b.minuteEnd
    have h1 := b.short
    have hhi := hb.2
    unfold count
    omega

/-! ## Readings without leap seconds -/

def ofNanos (t : ℤ) : Reading where
  second := t / 10 ^ 9
  nanos := t % 10 ^ 9
  nonneg := by omega
  short := by omega
  minuteEnd := by omega

theorem ofNanos_le_iff {a b : ℤ} : ofNanos a ≤ ofNanos b ↔ a ≤ b := by
  rw [← not_lt, ← not_lt, lt_def]
  simp only [ofNanos]
  omega

/-- Half way into the leap second at the end of 2016. -/
example : (⟨1483228799, 1500000000, by decide, by decide, by decide⟩ : Reading).render =
    "2016-12-31T23:59:60.500+00:00" := by
  decide +kernel

end Reading

abbrev DatedReading := {r : Reading // r.InYears}

/-- **The texts are in the order of the readings.** -/
theorem strictMono_render : StrictMono fun r : DatedReading => r.1.render := by
  intro a b hab
  show a.1.render < b.1.render
  rw [String.lt_iff_toList_lt, Reading.render, Reading.render, String.toList_ofList, String.toList_ofList]
  exact Reading.text_lt_text a.2 b.2 hab

end Lib.Rfc3339
