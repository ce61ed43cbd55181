/-
  How often an issuer is fetched (`acdp-registry-core/src/keyless/jwks.rs`).

  A forced refetch is noted before it is made, so that two of them are apart whatever
  becomes of the call.  `keys` notes a failure only once its fetch has ended: the fetches
  it makes of a source that does not answer are apart unless a call is dropped in the
  middle of one (`fetches_spaced`, `dropped_keys_fetch_again`).
-/
import AcdpRegistry.Core.JwksCache

namespace AcdpRegistry

open Lib

variable {κ : Type}

def CacheEvent.reading : CacheEvent κ → Option ℤ
  | .lock _ _ now => some now
  | _ => none

def readings (events : List (CacheEvent κ)) : List ℤ := events.filterMap CacheEvent.reading

/-- The clock does not go back, and does not reach the last value of its type. -/
def ClockRuns (events : List (CacheEvent κ)) : Prop :=
  (readings events).Pairwise (· ≤ ·) ∧ ∀ now ∈ readings events, now < lastMs

/-- Two fetches that `keys` starts, with no key set delivered between them, are the back-off apart. -/
def KeysSpaced (source : KeySource) (log : List (CacheOutcome κ)) : Prop :=
  ∀ before between after target target' t t',
    log = before ++ .started source target .keys t ::
      (between ++ .started source target' .keys t' :: after) →
    lastFetch source between = none → t + failureBackoffMs ≤ t'

def ForcedSpaced (source : KeySource) (log : List (CacheOutcome κ)) : Prop :=
  ∀ before between after target target' t t',
    log = before ++ .started source target .refreshForUnknownKid t ::
      (between ++ .started source target' .refreshForUnknownKid t' :: after) →
    t + unknownKidRefetchMs ≤ t'

/-! ## A slot after a fetch has started -/

/-- Since `t` the slot's fetch is under way, by `keys`, or a failure is noted. -/
structure FailureNoted (t : ℤ) (slot : Slot κ) : Prop where
  flight : ∀ f, slot.flight = some f → t ≤ f.now
  noted : (∃ f, t ≤ f ∧ slot.state.failedAtMs = some f) ∨ ∃ now, slot.flight = some ⟨.keys, now⟩

/-- A forced refetch since `t` is noted. -/
def ForcedNoted (t : ℤ) (slot : Slot κ) : Prop := ∃ f, t ≤ f ∧ slot.state.lastForcedMs = some f

section Step

variable {limits : CacheLimits} {slots slots' : Slots κ} {e : CacheEvent κ} {o : CacheOutcome κ}
  {source : KeySource} {t : ℤ}

variable (h : Stepped limits slots e slots' o)
include h

theorem Stepped.slot_induction {P : Slot κ → Prop} (hP : ∀ slot, slots source = some slot → P slot)
    (started : ∀ slot call now, slots source = some slot → slot.flight = none →
      e = .lock source call now → o = .started source slot.target call now → P slot →
      P { slot with state := slot.state.beforeFetch now call, flight := some ⟨call, now⟩ })
    (ended : ∀ slot flight outcome answer, slots source = some slot → slot.flight = some flight →
      o = .ended source slot.target flight.call flight.now outcome answer → P slot →
      P { slot with state := (limits.afterFetch flight.now slot.state flight.call outcome).1, flight := none })
    (dropped : ∀ slot flight, slots source = some slot → slot.flight = some flight →
      o = .dropped source flight.call flight.now → P slot → P { slot with flight := none }) :
    ∀ slot, slots' source = some slot → P slot := by
  intro slot hslot
  cases h with
  | unknown _ => exact hP slot hslot
  | quiet => exact hP slot hslot
  | answered _ _ => exact hP slot hslot
  | @started source' call now old hold hflight hlookup =>
    by_cases hs : source = source'
    · subst hs
      rw [Function.update_self] at hslot
      cases hslot
      exact started old call now hold hflight rfl rfl (hP old hold)
    · rw [Function.update_of_ne hs] at hslot
      exact hP slot hslot
  | @ended source' outcome old flight hold hflight =>
    by_cases hs : source = source'
    · subst hs
      rw [Function.update_self] at hslot
      cases hslot
      exact ended old flight outcome _ hold hflight rfl (hP old hold)
    · rw [Function.update_of_ne hs] at hslot
      exact hP slot hslot
  | @dropped source' old flight hold hflight =>
    by_cases hs : source = source'
    · subst hs
      rw [Function.update_self] at hslot
      cases hslot
      exact dropped old flight hold hflight rfl (hP old hold)
    · rw [Function.update_of_ne hs] at hslot
      exact hP slot hslot

theorem FailureNoted.step (hslot : ∀ slot, slots source = some slot → FailureNoted t slot)
    (hclock : ∀ call now, e = .lock source call now → t ≤ now)
    (hsuccess : ∀ a, o.attempt source = some a → a.outcome = none)
    (hkept : ∀ now, o ≠ .dropped source .keys now) :
    ∀ slot, slots' source = some slot → FailureNoted t slot := by
  refine h.slot_induction hslot ?_ ?_ ?_
  · intro slot call now _ hflight he _ hnoted
    refine ⟨fun f hf => ?_, ?_⟩
    · cases hf
      exact hclock call now he
    · rcases hnoted.noted with ⟨f, hle, hf⟩ | ⟨now', hnow'⟩
      · refine .inl ⟨f, hle, ?_⟩
        cases call <;> exact hf
      · cases hflight.symm.trans hnow'
  · intro slot flight outcome answer _ hflight ho hnoted
    have hfailed : outcome = none :=
      hsuccess ⟨slot.target, flight.now, outcome⟩ (by rw [ho]; exact if_pos rfl)
    subst hfailed
    exact ⟨nofun, .inl ⟨flight.now, hnoted.flight flight hflight, rfl⟩⟩
  · intro slot flight _ hflight ho hnoted
    refine ⟨nofun, ?_⟩
    rcases hnoted.noted with ⟨f, hle, hf⟩ | ⟨now, hnow⟩
    · exact .inl ⟨f, hle, hf⟩
    · cases hflight.symm.trans hnow
      exact absurd ho (hkept now)

theorem ForcedNoted.step (hslot : ∀ slot, slots source = some slot → ForcedNoted t slot)
    (hclock : ∀ call now, e = .lock source call now → t ≤ now) :
    ∀ slot, slots' source = some slot → ForcedNoted t slot := by
  refine h.slot_induction hslot ?_ ?_ ?_
  · intro slot call now _ _ he _ hnoted
    cases call with
    | keys => exact hnoted
    | refreshForUnknownKid => exact ⟨now, hclock _ now he, rfl⟩
  · intro slot flight outcome answer _ _ _ hnoted
    cases outcome <;> exact hnoted
  · exact fun slot flight _ _ _ hnoted => hnoted

end Step

/-! ## Histories -/

variable {events : List (CacheEvent κ)}

theorem readings_append (events later : List (CacheEvent κ)) :
    readings (events ++ later) = readings events ++ readings later := List.filterMap_append

theorem lastFetch_snoc_eq_none {source : KeySource} {log : List (CacheOutcome κ)} {o : CacheOutcome κ}
    (h : lastFetch source (log ++ [o]) = none) :
    lastFetch source log = none ∧ ∀ a, o.attempt source = some a → a.outcome = none := by
  cases ho : o.attempt source with
  | none =>
    rw [lastFetch_snoc_none ho] at h
    exact ⟨h, nofun⟩
  | some a =>
    rw [lastFetch_snoc_some ho, Option.or_eq_none_iff] at h
    refine ⟨h.2, fun a' ha' => ?_⟩
    cases ha'
    simpa [Attempt.success] using h.1

section Histories

variable {limits : CacheLimits} {slots : Slots κ} {source : KeySource} {t : ℤ}

theorem FailureNoted.run (hslot : ∀ slot, slots source = some slot → FailureNoted t slot)
    (hclock : ∀ now ∈ readings events, t ≤ now)
    (hsuccess : lastFetch source (History.run (Slots.step limits) slots events).2 = none)
    (hkept : ∀ now, .dropped source .keys now ∉ (History.run (Slots.step limits) slots events).2) :
    ∀ slot, (History.run (Slots.step limits) slots events).1 source = some slot → FailureNoted t slot := by
  induction events using List.reverseRecOn with
  | nil => exact hslot
  | append_singleton events e ih =>
    rw [readings_append] at hclock
    rw [History.run_snoc] at hsuccess hkept ⊢
    obtain ⟨hbefore, hlast⟩ := lastFetch_snoc_eq_none hsuccess
    refine FailureNoted.step (Slots.stepped limits _ e) (ih ?_ hbefore ?_) ?_ hlast ?_
    · exact fun now hnow => hclock now (List.mem_append_left _ hnow)
    · exact fun now hnow => hkept now (List.mem_append_left _ hnow)
    · rintro call now rfl
      exact hclock now (List.mem_append_right _ (List.mem_singleton_self now))
    · exact fun now ho => hkept now (List.mem_append_right _ (List.mem_singleton.2 ho.symm))

theorem ForcedNoted.run (hslot : ∀ slot, slots source = some slot → ForcedNoted t slot)
    (hclock : ∀ now ∈ readings events, t ≤ now) :
    ∀ slot, (History.run (Slots.step limits) slots events).1 source = some slot → ForcedNoted t slot := by
  induction events using List.reverseRecOn with
  | nil => exact hslot
  | append_singleton events e ih =>
    rw [readings_append] at hclock
    rw [History.run_snoc]
    refine ForcedNoted.step (Slots.stepped limits _ e) (ih ?_) ?_
    · exact fun now hnow => hclock now (List.mem_append_left _ hnow)
    · rintro call now rfl
      exact hclock now (List.mem_append_right _ (List.mem_singleton_self now))

theorem le_of_saturatingAdd {f d now : ℤ} (h : ¬now < saturatingAdd f d) (hnow : now < lastMs) :
    f + d ≤ now := by
  unfold saturatingAdd at h
  omega

theorem lookup_keys_none {st : SlotState κ} {now f : ℤ} (h : limits.lookup now st .keys = none)
    (hf : st.failedAtMs = some f) : ¬now < saturatingAdd f failureBackoffMs := by
  intro hlt
  cases hentry : st.entry with
  | none => simp [CacheLimits.lookup, hentry, hf, hlt] at h
  | some e =>
    simp only [CacheLimits.lookup, hentry, hf, Option.any_some, hlt, decide_true, if_true] at h
    split at h <;> cases h

theorem lookup_forced_none {st : SlotState κ} {now f : ℤ}
    (h : limits.lookup now st .refreshForUnknownKid = none) (hf : st.lastForcedMs = some f) :
    ¬now < saturatingAdd f unknownKidRefetchMs := by
  intro hlt
  simp [CacheLimits.lookup, hf, hlt] at h

end Histories

theorem two_starts {cfg : KeylessConfig} {source : KeySource}
    {before between after : List (CacheOutcome κ)} {target target' : FetchTarget} {call : KeyCall}
    {t t' : ℤ} (hclock : ClockRuns events)
    (hlog : (cacheRun cfg events).2 = before ++ .started source target call t ::
      (between ++ .started source target' call t' :: after)) :
    ∃ (slots : Slots κ) (mid : List (CacheEvent κ)) (old new : Slot κ),
      (History.run (Slots.step cfg.cacheLimits) slots mid).2 = between ∧
      (∀ now ∈ readings mid, t ≤ now) ∧ t' < lastMs ∧
      slots source = some { old with state := old.state.beforeFetch t call, flight := some ⟨call, t⟩ } ∧
      (History.run (Slots.step cfg.cacheLimits) slots mid).1 source = some new ∧ new.flight = none ∧
      cfg.cacheLimits.lookup t' new.state call = none := by
  obtain ⟨first, e, rest, rfl, -, hstart, hrest⟩ := History.log_split hlog
  obtain ⟨mid, e', later, rfl, hbetween, hstart', -⟩ := History.log_split hrest
  obtain ⟨rfl, old, -, -, -, -, hslot⟩ := (Slots.stepped cfg.cacheLimits _ e).inv_started hstart
  obtain ⟨rfl, new, hnew, -, hflight, hlookup, -⟩ :=
    (Slots.stepped cfg.cacheLimits _ e').inv_started hstart'
  have hreadings : readings (first ++ CacheEvent.lock source call t ::
      (mid ++ CacheEvent.lock source call t' :: later)) =
      readings first ++ t :: (readings mid ++ t' :: readings later) := by
    simp [readings, CacheEvent.reading]
  obtain ⟨hmono, hrange⟩ := hclock
  rw [hreadings] at hmono hrange
  have hlater := (List.pairwise_cons.1 (List.pairwise_append.1 hmono).2.1).1
  refine ⟨_, mid, old, new, hbetween, fun now hnow => hlater now (by simp [hnow]),
    hrange t' (by simp), hslot, hnew, hflight, hlookup⟩

/-- **Issuer fetches are spaced.**  While the clock runs, two fetches of `keys` with nothing delivered
    between them are the back-off apart, unless one was dropped in the middle, and two forced refetches
    are the interval apart. -/
theorem fetches_spaced (cfg : KeylessConfig) {events : List (CacheEvent κ)} (hclock : ClockRuns events)
    (source : KeySource) :
    ((∀ now, .dropped source .keys now ∉ (cacheRun cfg events).2) →
      KeysSpaced source (cacheRun cfg events).2) ∧
    ForcedSpaced source (cacheRun cfg events).2 := by
  constructor
  · intro hkept before between after target target' t t' hlog hnothing
    obtain ⟨slots, mid, old, new, hbetween, hmid, hrange, hslot, hnew, hflight, hlookup⟩ :=
      two_starts hclock hlog
    subst hbetween
    have hnoted : FailureNoted t new := by
      refine FailureNoted.run (fun slot h => ?_) hmid hnothing (fun now hmem => hkept now ?_) new hnew
      · cases hslot.symm.trans h
        refine ⟨fun f hf => ?_, .inr ⟨t, rfl⟩⟩
        cases hf
        exact le_rfl
      · rw [hlog]
        simp [hmem]
    rcases hnoted.noted with ⟨f, hle, hf⟩ | ⟨now, hnow⟩
    · exact (Int.add_le_add_right hle _).trans
        (le_of_saturatingAdd (lookup_keys_none hlookup hf) hrange)
    · cases hflight.symm.trans hnow
  · intro before between after target target' t t' hlog
    obtain ⟨slots, mid, old, new, -, hmid, hrange, hslot, hnew, hflight, hlookup⟩ :=
      two_starts hclock hlog
    have hnoted : ForcedNoted t new := by
      refine ForcedNoted.run (fun slot h => ?_) hmid new hnew
      cases hslot.symm.trans h
      exact ⟨t, le_rfl, rfl⟩
    obtain ⟨f, hle, hf⟩ := hnoted
    exact (Int.add_le_add_right hle _).trans
      (le_of_saturatingAdd (lookup_forced_none hlookup hf) hrange)

/-- A `keys` call that is dropped in the middle of its fetch leaves no trace: the next one fetches
    again, a millisecond later. -/
theorem dropped_keys_fetch_again :
    let source : KeySource := .oidc "https://issuer.example"
    let target : FetchTarget := .jwks "https://issuer.example/jwks"
    let events : List (CacheEvent ℕ) := [.lock source .keys 0, .drop source, .lock source .keys 1]
    ClockRuns events ∧
      (cacheRun Sample.issuerConfig.keyless events).2 =
        [.started source target .keys 0, .dropped source .keys 0, .started source target .keys 1] ∧
      ¬KeysSpaced source (cacheRun Sample.issuerConfig.keyless events).2 := by
  intro source target events
  have hlog : (cacheRun Sample.issuerConfig.keyless events).2 =
      [.started source target .keys 0, .dropped source .keys 0, .started source target .keys 1] := by
    decide +kernel
  have hclock : ClockRuns events := by
    rw [ClockRuns, show readings events = [0, 1] from rfl]
    decide
  refine ⟨hclock, hlog, fun hspaced => ?_⟩
  have hgap := hspaced [] [.dropped source .keys 0] [] target target 0 1 hlog rfl
  exact absurd hgap (by decide)

/-- A fetch that fails, and the next one after the back-off. -/
theorem fetches_spaced_sample :
    let source : KeySource := .oidc "https://issuer.example"
    let events : List (CacheEvent ℕ) := [.lock source .keys 0, .fetched source none,
      .lock source .keys 29999, .lock source .keys 30000]
    ClockRuns events ∧ KeysSpaced source (cacheRun Sample.issuerConfig.keyless events).2 := by
  intro source events
  have hclock : ClockRuns events := by
    rw [ClockRuns, show readings events = [0, 29999, 30000] from rfl]
    decide
  refine ⟨hclock, (fetches_spaced Sample.issuerConfig.keyless hclock source).1 fun now => ?_⟩
  have hlog : (cacheRun Sample.issuerConfig.keyless events).2 =
      [.started source (.jwks "https://issuer.example/jwks") .keys 0,
        .ended source (.jwks "https://issuer.example/jwks") .keys 0 none .unreachable,
        .answered source .keys 29999 .unreachable,
        .started source (.jwks "https://issuer.example/jwks") .keys 30000] := by
    decide +kernel
  simp [hlog]

end AcdpRegistry
