/-
  Instants of a UTC clock.

  An instant is a whole number of nanoseconds since the Unix epoch.  Calendar
  libraries keep instants in a fixed range and refuse (panic) outside it, so
  arithmetic on instants is partial.
-/
import Mathlib.Tactic

namespace Lib

namespace Instant

def unix (t : ℤ) : ℤ := t / 10 ^ 9

def ofUnix (s : ℤ) : ℤ := s * 10 ^ 9

/-- The first and the last instant of the calendar, years -262143 and 262142. -/
def minUtc : ℤ := ofUnix (-8334601228800)

def maxUtc : ℤ := ofUnix 8210266876800 - 1

def check (t : ℤ) : Option ℤ := if minUtc ≤ t ∧ t ≤ maxUtc then some t else none

/-- An instant plus a signed 64-bit number of seconds; a duration holds at most 2⁶³ - 1
    milliseconds. -/
def addSeconds (t : ℤ) (s : ℤ) : Option ℤ :=
  if |s| ≤ (2 ^ 63 - 1) / 1000 then check (t + ofUnix s) else none

def ofMillis (ms : ℤ) : Option ℤ := check (ms * 10 ^ 6)

theorem check_eq_some {t c : ℤ} (h : check t = some c) : c = t := by
  unfold check at h
  split at h
  · simpa using h.symm
  · simp at h

theorem addSeconds_eq {t c : ℤ} {s : ℤ} (h : addSeconds t s = some c) : c = t + ofUnix s := by
  unfold addSeconds at h
  split at h
  · exact check_eq_some h
  · simp at h

theorem ofMillis_eq {ms c : ℤ} (h : ofMillis ms = some c) : c = ms * 10 ^ 6 := check_eq_some h

theorem ofMillis_ge {ms c : ℤ} (h : ofMillis ms = some c) : -(2 ^ 63) ≤ ms := by
  unfold ofMillis check at h
  split at h
  · next hrange =>
    have := hrange.1
    simp only [minUtc, ofUnix] at this
    omega
  · simp at h

end Instant

/-! ## Signed 64-bit arithmetic that saturates -/

def sat64 (x : ℤ) : ℤ := max (-(2 ^ 63)) (min (2 ^ 63 - 1) x)

theorem sat64_le {x : ℤ} (h : -(2 ^ 63) < sat64 x) : sat64 x ≤ x := by
  unfold sat64 at *
  omega

end Lib
