/-
  The issuers' key sets, in process (`acdp-registry-core/src/keyless/jwks.rs`).

  A call takes its source's lock, reads the clock, and answers from the copy it finds or
  fetches with the lock held.  Its future may be dropped while it fetches; the lock is then
  free again, and what `keys` writes only after the fetch is not written.

  A history is the log of what its events did.  What a slot holds is what the log says of
  its source (`Recorded`): the entry is the last fetch that succeeded, and the failure time
  that of the last attempt, if it failed.
-/
import AcdpRegistry.Lib.History
import AcdpRegistry.Server.KeylessConfig

namespace AcdpRegistry

open Lib

/-! ## The cache -/

def unknownKidRefetchMs : ℤ := 30000

def failureBackoffMs : ℤ := 30000

def minTtlSeconds : ℕ := 60

def maxTtlSeconds : ℕ := 3600

/-- `i64::MAX`, as a time. -/
def lastMs : ℤ := 2 ^ 63 - 1

/-- `saturating_add` of a duration. -/
def saturatingAdd (t d : ℤ) : ℤ := min (t + d) lastMs

def secsToMs (s : ℕ) : ℤ := min (s * 1000) lastMs

inductive KeySource
  | oidc (issuer : String)
  | spiffe (trustDomain : String)
  deriving DecidableEq, Repr

inductive FetchTarget
  | jwks (url : String)
  | discovery (issuer : String)
  deriving DecidableEq, Repr

inductive KeyCall
  | keys
  | refreshForUnknownKid
  deriving DecidableEq, Repr

/-- What a call returns: a key set, `Ok(None)`, or `IssuerUnreachable`. -/
inductive KeyAnswer (κ : Type)
  | keys (keys : κ)
  | held
  | unreachable
  deriving DecidableEq

/-- How a fetch ends: with a key set and the response's `max-age`, or in an error. -/
abbrev Fetched (κ : Type) := Option (κ × Option ℕ)

structure CacheEntry (κ : Type) where
  keys : κ
  fetchedAtMs : ℤ
  ttlMs : ℤ

structure SlotState (κ : Type) where
  entry : Option (CacheEntry κ) := none
  lastForcedMs : Option ℤ := none
  failedAtMs : Option ℤ := none

/-- A call that fetches, and so holds the lock, with its clock reading. -/
structure Flight where
  call : KeyCall
  now : ℤ
  deriving DecidableEq, Repr

structure Slot (κ : Type) where
  target : FetchTarget
  state : SlotState κ := {}
  /-- The holder of the lock. -/
  flight : Option Flight := none

structure CacheLimits where
  ttlSeconds : ℕ
  maxStaleMs : ℤ

/-- The slot a configured source gets: a later entry of a list replaces an earlier one of its name. -/
def KeylessConfig.targetOf (cfg : KeylessConfig) (source : KeySource) : Option FetchTarget :=
  if !cfg.enabled then none
  else
    match source with
    | .oidc issuer =>
      (cfg.oidcIssuers.reverse.find? (·.issuer = issuer)).map fun o =>
        match o.jwksUri with
        | some uri => .jwks uri
        | none => .discovery o.issuer
    | .spiffe domain =>
      (cfg.spiffeTrustDomains.reverse.find? (·.trustDomain = domain)).map fun d => .jwks d.bundleEndpoint

/-- The lifetimes that `JwksCache::new` takes from the configuration. -/
def KeylessConfig.cacheLimits (cfg : KeylessConfig) : CacheLimits where
  ttlSeconds := min cfg.jwksCacheTtlSeconds maxTtlSeconds
  maxStaleMs := secsToMs cfg.jwksMaxStaleSeconds

variable {κ : Type}

abbrev Slots (κ : Type) := KeySource → Option (Slot κ)

def Slots.new (κ : Type) (cfg : KeylessConfig) : Slots κ := fun source =>
  (cfg.targetOf source).map fun target => { target := target }

/-! ## A call -/

section Calls

variable (limits : CacheLimits) (now : ℤ)

def CacheLimits.ttlMs (maxAge : Option ℕ) : ℤ :=
  match maxAge with
  | some m => secsToMs (min limits.ttlSeconds (max minTtlSeconds (min m maxTtlSeconds)))
  | none => secsToMs limits.ttlSeconds

def CacheLimits.stale (e : CacheEntry κ) : KeyAnswer κ :=
  if now < saturatingAdd (saturatingAdd e.fetchedAtMs e.ttlMs) limits.maxStaleMs then .keys e.keys
  else .unreachable

def CacheLimits.store (st : SlotState κ) (fresh : κ × Option ℕ) : SlotState κ :=
  { st with
    entry := some { keys := fresh.1, fetchedAtMs := now, ttlMs := limits.ttlMs fresh.2 }
    failedAtMs := none }

/-- A call with the lock, before its fetch: what it answers without one. -/
def CacheLimits.lookup (st : SlotState κ) : KeyCall → Option (KeyAnswer κ)
  | .keys =>
    let backingOff := st.failedAtMs.any fun f => now < saturatingAdd f failureBackoffMs
    match st.entry with
    | some e =>
      if now < saturatingAdd e.fetchedAtMs e.ttlMs then some (.keys e.keys)
      else if backingOff then some (limits.stale now e)
      else none
    | none => if backingOff then some .unreachable else none
  | .refreshForUnknownKid =>
    if st.lastForcedMs.any fun t => now < saturatingAdd t unknownKidRefetchMs then some .held else none

def SlotState.beforeFetch (st : SlotState κ) : KeyCall → SlotState κ
  | .keys => st
  | .refreshForUnknownKid => { st with lastForcedMs := some now }

def CacheLimits.afterFetch (st : SlotState κ) (call : KeyCall) : Fetched κ → SlotState κ × KeyAnswer κ
  | some fresh => (limits.store now st fresh, .keys fresh.1)
  | none =>
    ({ st with failedAtMs := some now },
      match call with
      | .keys => (st.entry.map (limits.stale now)).getD .unreachable
      | .refreshForUnknownKid => .unreachable)

end Calls

/-! ## Histories -/

inductive CacheEvent (κ : Type)
  /-- A call has the source's lock, and reads the clock. -/
  | lock (source : KeySource) (call : KeyCall) (now : ℤ)
  /-- The fetch under way ends, and with it the call. -/
  | fetched (source : KeySource) (outcome : Fetched κ)
  /-- The call that fetches is dropped. -/
  | drop (source : KeySource)

/-- What an event did; a call is known by the clock reading it took. -/
inductive CacheOutcome (κ : Type)
  | quiet
  /-- A call answered without a fetch. -/
  | answered (source : KeySource) (call : KeyCall) (now : ℤ) (answer : KeyAnswer κ)
  | started (source : KeySource) (target : FetchTarget) (call : KeyCall) (now : ℤ)
  | ended (source : KeySource) (target : FetchTarget) (call : KeyCall) (now : ℤ) (outcome : Fetched κ)
      (answer : KeyAnswer κ)
  | dropped (source : KeySource) (call : KeyCall) (now : ℤ)
  deriving DecidableEq

/-- What an event does.  A lock that is taken is waited for, and a source without a slot is answered
    at once. -/
def Slots.step (limits : CacheLimits) (slots : Slots κ) : CacheEvent κ → Slots κ × CacheOutcome κ
  | .lock source call now =>
    match slots source with
    | none => (slots, .answered source call now .unreachable)
    | some slot =>
      match slot.flight with
      | some _ => (slots, .quiet)
      | none =>
        match limits.lookup now slot.state call with
        | some answer => (slots, .answered source call now answer)
        | none =>
          (Function.update slots source
            (some { slot with state := slot.state.beforeFetch now call, flight := some ⟨call, now⟩ }),
            .started source slot.target call now)
  | .fetched source outcome =>
    match slots source with
    | none => (slots, .quiet)
    | some slot =>
      match slot.flight with
      | none => (slots, .quiet)
      | some flight =>
        let after := limits.afterFetch flight.now slot.state flight.call outcome
        (Function.update slots source (some { slot with state := after.1, flight := none }),
          .ended source slot.target flight.call flight.now outcome after.2)
  | .drop source =>
    match slots source with
    | none => (slots, .quiet)
    | some slot =>
      match slot.flight with
      | none => (slots, .quiet)
      | some flight =>
        (Function.update slots source (some { slot with flight := none }),
          .dropped source flight.call flight.now)

inductive Stepped (limits : CacheLimits) (slots : Slots κ) :
    CacheEvent κ → Slots κ → CacheOutcome κ → Prop
  /-- A call on a source that is not configured. -/
  | unknown {source call now} (hslot : slots source = none) :
      Stepped limits slots (.lock source call now) slots (.answered source call now .unreachable)
  | quiet {e} : Stepped limits slots e slots .quiet
  | answered {source call now slot answer} (hslot : slots source = some slot)
      (hlookup : limits.lookup now slot.state call = some answer) :
      Stepped limits slots (.lock source call now) slots (.answered source call now answer)
  | started {source call now slot} (hslot : slots source = some slot) (hflight : slot.flight = none)
      (hlookup : limits.lookup now slot.state call = none) :
      Stepped limits slots (.lock source call now)
        (Function.update slots source
          (some { slot with state := slot.state.beforeFetch now call, flight := some ⟨call, now⟩ }))
        (.started source slot.target call now)
  | ended {source outcome slot flight} (hslot : slots source = some slot)
      (hflight : slot.flight = some flight) :
      Stepped limits slots (.fetched source outcome)
        (Function.update slots source (some { slot with
          state := (limits.afterFetch flight.now slot.state flight.call outcome).1, flight := none }))
        (.ended source slot.target flight.call flight.now outcome
          (limits.afterFetch flight.now slot.state flight.call outcome).2)
  | dropped {source slot flight} (hslot : slots source = some slot)
      (hflight : slot.flight = some flight) :
      Stepped limits slots (.drop source)
        (Function.update slots source (some { slot with flight := none }))
        (.dropped source flight.call flight.now)

theorem Slots.stepped (limits : CacheLimits) (slots : Slots κ) (e : CacheEvent κ) :
    Stepped limits slots e (slots.step limits e).1 (slots.step limits e).2 := by
  cases e with
  | lock source call now =>
    cases hslot : slots source with
    | none => simpa [Slots.step, hslot] using Stepped.unknown hslot
    | some slot =>
      cases hflight : slot.flight with
      | some flight => simpa [Slots.step, hslot, hflight] using Stepped.quiet
      | none =>
        cases hlookup : limits.lookup now slot.state call with
        | some answer => simpa [Slots.step, hslot, hflight, hlookup] using Stepped.answered hslot hlookup
        | none => simpa [Slots.step, hslot, hflight, hlookup] using Stepped.started hslot hflight hlookup
  | fetched source outcome =>
    cases hslot : slots source with
    | none => simpa [Slots.step, hslot] using Stepped.quiet
    | some slot =>
      cases hflight : slot.flight with
      | none => simpa [Slots.step, hslot, hflight] using Stepped.quiet
      | some flight => simpa [Slots.step, hslot, hflight] using Stepped.ended hslot hflight
  | drop source =>
    cases hslot : slots source with
    | none => simpa [Slots.step, hslot] using Stepped.quiet
    | some slot =>
      cases hflight : slot.flight with
      | none => simpa [Slots.step, hslot, hflight] using Stepped.quiet
      | some flight => simpa [Slots.step, hslot, hflight] using Stepped.dropped hslot hflight

/-! ## The log -/

variable {e : CacheEvent κ}

/-- A fetch that ended, with the clock reading of its call. -/
structure Attempt (κ : Type) where
  target : FetchTarget
  now : ℤ
  outcome : Fetched κ

structure KeyFetch (κ : Type) where
  target : FetchTarget
  fetchedAtMs : ℤ
  keys : κ
  maxAge : Option ℕ

namespace CacheOutcome

def attempt (source : KeySource) : CacheOutcome κ → Option (Attempt κ)
  | .ended s target _ now outcome _ => if s = source then some ⟨target, now, outcome⟩ else none
  | _ => none

/-- The outcome is a call that returns a key set: its source and clock reading, and the keys. -/
def returned : CacheOutcome κ → Option (KeySource × ℤ × κ)
  | .answered source _ now (.keys k) => some (source, now, k)
  | .ended source _ _ now _ (.keys k) => some (source, now, k)
  | _ => none

end CacheOutcome

def Attempt.success (a : Attempt κ) : Option (KeyFetch κ) :=
  a.outcome.map fun fresh => ⟨a.target, a.now, fresh.1, fresh.2⟩

def Attempt.failedAt (a : Attempt κ) : Option ℤ := if a.outcome.isNone then some a.now else none

def attempts (source : KeySource) (log : List (CacheOutcome κ)) : List (Attempt κ) :=
  log.filterMap (·.attempt source)

def lastFetch (source : KeySource) (log : List (CacheOutcome κ)) : Option (KeyFetch κ) :=
  ((attempts source log).filterMap Attempt.success).getLast?

def KeyFetch.entry (limits : CacheLimits) (f : KeyFetch κ) : CacheEntry κ :=
  ⟨f.keys, f.fetchedAtMs, limits.ttlMs f.maxAge⟩

section Log

variable {source : KeySource} {log : List (CacheOutcome κ)} {o : CacheOutcome κ}

theorem attempts_snoc_none (h : o.attempt source = none) :
    attempts source (log ++ [o]) = attempts source log := by
  simp [attempts, List.filterMap_append, h]

theorem attempts_snoc_some {a : Attempt κ} (h : o.attempt source = some a) :
    attempts source (log ++ [o]) = attempts source log ++ [a] := by
  simp [attempts, List.filterMap_append, h]

theorem lastFetch_snoc_none (h : o.attempt source = none) :
    lastFetch source (log ++ [o]) = lastFetch source log := by
  rw [lastFetch, attempts_snoc_none h]
  rfl

theorem lastFetch_snoc_some {a : Attempt κ} (h : o.attempt source = some a) :
    lastFetch source (log ++ [o]) = a.success.or (lastFetch source log) := by
  rw [lastFetch, attempts_snoc_some h, List.filterMap_append]
  cases hs : a.success with
  | none => simp [hs, lastFetch]
  | some f => simp [hs]

end Log

/-- What a slot holds is what the log says of its source. -/
structure SlotRecorded (limits : CacheLimits) (source : KeySource) (log : List (CacheOutcome κ))
    (slot : Slot κ) : Prop where
  entry : slot.state.entry = (lastFetch source log).map (KeyFetch.entry limits)
  failedAt : slot.state.failedAtMs = (attempts source log).getLast?.bind Attempt.failedAt
  target : ∀ f, lastFetch source log = some f → f.target = slot.target

/-- The configured sources are those with a slot, and their slots hold what the log says. -/
def Recorded (cfg : KeylessConfig) (slots : Slots κ) (log : List (CacheOutcome κ)) : Prop :=
  ∀ source, cfg.targetOf source = (slots source).map Slot.target ∧
    ∀ slot, slots source = some slot → SlotRecorded cfg.cacheLimits source log slot

section Recording

variable {limits : CacheLimits} {cfg : KeylessConfig} {source : KeySource} {log : List (CacheOutcome κ)}
  {o : CacheOutcome κ} {slot slot' : Slot κ} {slots slots' : Slots κ}

theorem SlotRecorded.other (h : SlotRecorded limits source log slot) (ho : o.attempt source = none)
    (hentry : slot'.state.entry = slot.state.entry) (hfailed : slot'.state.failedAtMs = slot.state.failedAtMs)
    (htarget : slot'.target = slot.target) : SlotRecorded limits source (log ++ [o]) slot' := by
  refine ⟨?_, ?_, fun f hf => ?_⟩
  · rw [hentry, h.entry, lastFetch_snoc_none ho]
  · rw [hfailed, h.failedAt, attempts_snoc_none ho]
  · rw [lastFetch_snoc_none ho] at hf
    rw [htarget]
    exact h.target f hf

theorem SlotRecorded.ended (h : SlotRecorded limits source log slot) (flight : Flight)
    (outcome : Fetched κ) (answer : KeyAnswer κ) : SlotRecorded limits source
      (log ++ [.ended source slot.target flight.call flight.now outcome answer])
      { slot with state := (limits.afterFetch flight.now slot.state flight.call outcome).1,
                  flight := none } := by
  have ho : (CacheOutcome.ended source slot.target flight.call flight.now outcome answer).attempt source =
      some ⟨slot.target, flight.now, outcome⟩ := if_pos rfl
  cases outcome with
  | some fresh =>
    refine ⟨?_, ?_, fun f hf => ?_⟩
    · rw [lastFetch_snoc_some ho]
      rfl
    · rw [attempts_snoc_some ho, List.getLast?_concat]
      rfl
    · rw [lastFetch_snoc_some ho] at hf
      cases hf
      rfl
  | none =>
    refine ⟨?_, ?_, fun f hf => ?_⟩
    · rw [lastFetch_snoc_some ho]
      exact h.entry
    · rw [attempts_snoc_some ho, List.getLast?_concat]
      rfl
    · rw [lastFetch_snoc_some ho] at hf
      exact h.target f hf

theorem Recorded.quiet (h : Recorded cfg slots log) (ho : ∀ source, o.attempt source = none) :
    Recorded cfg slots (log ++ [o]) := by
  intro source
  refine ⟨(h source).1, fun slot hslot => ?_⟩
  exact ((h source).2 slot hslot).other (ho source) rfl rfl rfl

theorem Recorded.update (h : Recorded cfg slots log) (hslot : slots source = some slot)
    (htarget : slot'.target = slot.target) (ho : ∀ s, s ≠ source → o.attempt s = none)
    (hslot' : SlotRecorded cfg.cacheLimits source (log ++ [o]) slot') :
    Recorded cfg (Function.update slots source (some slot')) (log ++ [o]) := by
  intro s
  by_cases hs : s = source
  · subst hs
    rw [Function.update_self]
    refine ⟨?_, fun slot'' hslot'' => ?_⟩
    · rw [(h s).1, hslot, Option.map_some, Option.map_some, htarget]
    · cases hslot''
      exact hslot'
  · rw [Function.update_of_ne hs]
    refine ⟨(h s).1, fun slot'' hslot'' => ?_⟩
    exact ((h s).2 slot'' hslot'').other (ho s hs) rfl rfl rfl

theorem Recorded.step (h : Recorded cfg slots log)
    (hstep : Stepped cfg.cacheLimits slots e slots' o) : Recorded cfg slots' (log ++ [o]) := by
  cases hstep with
  | unknown hslot => exact h.quiet fun _ => rfl
  | quiet => exact h.quiet fun _ => rfl
  | answered hslot hlookup => exact h.quiet fun _ => rfl
  | @started source call now slot hslot hflight hlookup =>
    refine h.update hslot rfl (fun _ _ => rfl) (((h source).2 slot hslot).other rfl ?_ ?_ rfl)
    · cases call <;> rfl
    · cases call <;> rfl
  | @ended source outcome slot flight hslot hflight =>
    refine h.update hslot rfl (fun s hs => ?_) (((h source).2 slot hslot).ended flight outcome _)
    exact if_neg (Ne.symm hs)
  | @dropped source slot flight hslot hflight =>
    exact h.update hslot rfl (fun _ _ => rfl) (((h source).2 slot hslot).other rfl rfl rfl rfl)

end Recording

def cacheRun (cfg : KeylessConfig) (events : List (CacheEvent κ)) : Slots κ × List (CacheOutcome κ) :=
  History.run (Slots.step cfg.cacheLimits) (Slots.new κ cfg) events

theorem recorded_cacheRun (cfg : KeylessConfig) (events : List (CacheEvent κ)) :
    Recorded cfg (cacheRun cfg events).1 (cacheRun cfg events).2 := by
  refine History.induction (I := fun _ slots log => Recorded cfg slots log) ?_ ?_ events
  · intro source
    refine ⟨?_, fun slot hslot => ?_⟩
    · rw [Slots.new, Option.map_map]
      cases cfg.targetOf source <;> rfl
    · obtain ⟨target, -, rfl⟩ := Option.map_eq_some_iff.1 hslot
      exact ⟨rfl, rfl, nofun⟩
  · intro before e ih
    exact ih.step (Slots.stepped _ _ e)

/-! ## What is served -/

section Lifetimes

theorem secsToMs_eq {s : ℕ} (h : s ≤ 604800) : secsToMs s = s * 1000 := by
  unfold secsToMs lastMs
  omega

theorem secsToMs_nonneg (s : ℕ) : 0 ≤ secsToMs s := by
  unfold secsToMs lastMs
  omega

theorem KeylessConfig.validate_lifetimes {isHttpsUrl : String → Bool} {k : KeylessConfig}
    (h : k.validate isHttpsUrl = .ok ()) :
    60 ≤ k.jwksCacheTtlSeconds ∧ k.jwksCacheTtlSeconds ≤ 3600 ∧ k.jwksMaxStaleSeconds ≤ 604800 := by
  obtain ⟨_, -, h⟩ := except_bind_ok.1 h
  obtain ⟨_, httl, h⟩ := except_bind_ok.1 h
  obtain ⟨_, hstale, -⟩ := except_bind_ok.1 h
  have httl := ensure_ok.1 httl
  have hstale := ensure_ok.1 hstale
  simp only [Bool.and_eq_true, decide_eq_true_eq] at httl hstale
  exact ⟨httl.1, httl.2, hstale⟩

theorem KeylessConfig.ttlMs_bounds {isHttpsUrl : String → Bool} {k : KeylessConfig}
    (h : k.validate isHttpsUrl = .ok ()) (maxAge : Option ℕ) :
    60 * 1000 ≤ k.cacheLimits.ttlMs maxAge ∧
      k.cacheLimits.ttlMs maxAge ≤ k.jwksCacheTtlSeconds * 1000 := by
  obtain ⟨hmin, hmax, -⟩ := validate_lifetimes h
  have hlimit : k.cacheLimits.ttlSeconds = k.jwksCacheTtlSeconds := min_eq_left hmax
  cases maxAge with
  | none =>
    rw [CacheLimits.ttlMs, hlimit, secsToMs_eq (by omega)]
    omega
  | some m =>
    rw [CacheLimits.ttlMs, hlimit, secsToMs_eq (by omega)]
    simp only [minTtlSeconds, maxTtlSeconds]
    omega

end Lifetimes

/-- Served from the entry before the end of its stale time, and past its lifetime only with a failure
    noted. -/
def Serves (limits : CacheLimits) (now : ℤ) (st : SlotState κ) (k : κ) : Prop :=
  ∃ e, st.entry = some e ∧ k = e.keys ∧ now < e.fetchedAtMs + e.ttlMs + limits.maxStaleMs ∧
    (e.fetchedAtMs + e.ttlMs ≤ now → ∃ t, st.failedAtMs = some t)

section Served

variable {limits : CacheLimits} {source : KeySource} {log : List (CacheOutcome κ)} {slot : Slot κ}
  {st : SlotState κ} {call : KeyCall} {now : ℤ} {k : κ}

theorem saturatingAdd_le (t d : ℤ) : saturatingAdd t d ≤ t + d := min_le_left _ _

theorem stale_keys {e : CacheEntry κ} (h : limits.stale now e = .keys k) :
    k = e.keys ∧ now < e.fetchedAtMs + e.ttlMs + limits.maxStaleMs := by
  unfold CacheLimits.stale at h
  split at h
  · next hlt =>
    cases h
    refine ⟨rfl, hlt.trans_le ?_⟩
    calc saturatingAdd (saturatingAdd e.fetchedAtMs e.ttlMs) limits.maxStaleMs
        ≤ saturatingAdd e.fetchedAtMs e.ttlMs + limits.maxStaleMs := saturatingAdd_le _ _
      _ ≤ e.fetchedAtMs + e.ttlMs + limits.maxStaleMs :=
        Int.add_le_add_right (saturatingAdd_le _ _) _
  · cases h

theorem lookup_serves (hstale : 0 ≤ limits.maxStaleMs)
    (h : limits.lookup now st call = some (.keys k)) : Serves limits now st k := by
  cases call with
  | refreshForUnknownKid =>
    simp only [CacheLimits.lookup] at h
    split at h
    · cases h
    · cases h
  | keys =>
    simp only [CacheLimits.lookup] at h
    cases hentry : st.entry with
    | none =>
      rw [hentry] at h
      dsimp only at h
      split at h
      · cases h
      · cases h
    | some e =>
      rw [hentry] at h
      dsimp only at h
      split at h
      · next hfresh =>
        cases h
        have hlt := hfresh.trans_le (saturatingAdd_le _ _)
        exact ⟨e, hentry, rfl, by omega, fun hpast => absurd hpast (not_le.2 hlt)⟩
      · split at h
        · next hbacking =>
          obtain ⟨hk, hlt⟩ := stale_keys (Option.some.inj h)
          refine ⟨e, hentry, hk, hlt, fun _ => ?_⟩
          obtain ⟨t, ht, -⟩ := (Option.any_eq_true _ _).1 hbacking
          exact ⟨t, ht⟩
        · cases h

theorem afterFetch_serves (hstale : 0 ≤ limits.maxStaleMs) (httl : ∀ maxAge, 0 < limits.ttlMs maxAge)
    {outcome : Fetched κ} (h : (limits.afterFetch now st call outcome).2 = .keys k) :
    Serves limits now (limits.afterFetch now st call outcome).1 k := by
  cases outcome with
  | some fresh =>
    cases h
    have httl := httl fresh.2
    refine ⟨_, rfl, rfl, ?_, fun hpast => ?_⟩
    · show now < now + limits.ttlMs fresh.2 + limits.maxStaleMs
      omega
    · replace hpast : now + limits.ttlMs fresh.2 ≤ now := hpast
      omega
  | none =>
    cases call with
    | refreshForUnknownKid => cases h
    | keys =>
      replace h : (st.entry.map (limits.stale now)).getD .unreachable = .keys k := h
      cases hentry : st.entry with
      | none =>
        rw [hentry] at h
        cases h
      | some e =>
        rw [hentry] at h
        obtain ⟨hk, hlt⟩ := stale_keys h
        exact ⟨e, hentry, hk, hlt, fun _ => ⟨now, rfl⟩⟩

theorem SlotRecorded.serves (h : SlotRecorded limits source log slot)
    (hserves : Serves limits now slot.state k) :
    ∃ f, lastFetch source log = some f ∧ k = f.keys ∧ f.target = slot.target ∧
      now < f.fetchedAtMs + limits.ttlMs f.maxAge + limits.maxStaleMs ∧
      (f.fetchedAtMs + limits.ttlMs f.maxAge ≤ now →
        ∃ a, (attempts source log).getLast? = some a ∧ a.outcome = none) := by
  obtain ⟨e, hentry, hk, hlt, hpast⟩ := hserves
  rw [h.entry] at hentry
  obtain ⟨f, hf, rfl⟩ := Option.map_eq_some_iff.1 hentry
  refine ⟨f, hf, hk, h.target f hf, hlt, fun hle => ?_⟩
  obtain ⟨t, ht⟩ := hpast hle
  rw [h.failedAt] at ht
  obtain ⟨a, ha, hfailed⟩ := Option.bind_eq_some_iff.1 ht
  refine ⟨a, ha, ?_⟩
  unfold Attempt.failedAt at hfailed
  split at hfailed
  · next hnone => simpa using hnone
  · cases hfailed

theorem Stepped.returned {slots slots' : Slots κ} {o : CacheOutcome κ}
    (h : Stepped limits slots e slots' o) (ho : o.returned = some (source, now, k)) :
    ∃ slot slot', slots source = some slot ∧ slots' source = some slot' ∧
      ((slot' = slot ∧ ∃ call, limits.lookup now slot.state call = some (.keys k)) ∨
        ∃ call outcome, slot'.state = (limits.afterFetch now slot.state call outcome).1 ∧
          (limits.afterFetch now slot.state call outcome).2 = .keys k) := by
  cases h with
  | unknown hslot => cases ho
  | quiet => cases ho
  | @answered source' call now' slot answer hslot hlookup =>
    cases answer <;> cases ho
    exact ⟨slot, slot, hslot, hslot, .inl ⟨rfl, call, hlookup⟩⟩
  | started hslot hflight hlookup => cases ho
  | @ended source' outcome slot flight hslot hflight =>
    cases hanswer : (limits.afterFetch flight.now slot.state flight.call outcome).2 <;>
      rw [hanswer] at ho <;> cases ho
    exact ⟨slot, _, hslot, Function.update_self .., .inr ⟨flight.call, outcome, rfl, hanswer⟩⟩
  | dropped hslot hflight => cases ho

theorem Stepped.inv_started {slots slots' : Slots κ} {o : CacheOutcome κ} {target : FetchTarget}
    (h : Stepped limits slots e slots' o) (ho : o = .started source target call now) :
    e = .lock source call now ∧ ∃ slot, slots source = some slot ∧ slot.target = target ∧
      slot.flight = none ∧ limits.lookup now slot.state call = none ∧
      slots' source =
        some { slot with state := slot.state.beforeFetch now call, flight := some ⟨call, now⟩ } := by
  cases h with
  | unknown hslot => cases ho
  | quiet => cases ho
  | answered hslot hlookup => cases ho
  | @started source' call' now' slot hslot hflight hlookup =>
    cases ho
    exact ⟨rfl, slot, hslot, rfl, hflight, hlookup, Function.update_self ..⟩
  | ended hslot hflight => cases ho
  | dropped hslot hflight => cases ho

end Served

theorem KeylessConfig.enabled_of_targetOf {cfg : KeylessConfig} {source : KeySource}
    {target : FetchTarget} (h : cfg.targetOf source = some target) : cfg.enabled = true := by
  by_contra hoff
  simp [targetOf, hoff] at h

/-- **Issuer keys are not served past their stale limit.**  Under an accepted configuration, in every
    history of calls, fetches and dropped calls: a returned key set is the last one fetched from its
    configured source, within its stale time, and past its lifetime only after a failed fetch; and only
    configured sources are fetched. -/
theorem issuer_keys_within_stale_limit {isHttpsUrl : String → Bool} {cfg : RegistryConfig}
    {acdpVersion : String} (hvalid : validateKeylessAt isHttpsUrl cfg acdpVersion = .ok ())
    (events : List (CacheEvent κ)) :
    (∀ before o after source now k, (cacheRun cfg.keyless events).2 = before ++ o :: after →
      o.returned = some (source, now, k) →
        ∃ f, lastFetch source (before ++ [o]) = some f ∧ k = f.keys ∧
          cfg.keyless.targetOf source = some f.target ∧
          60 * 1000 ≤ cfg.keyless.cacheLimits.ttlMs f.maxAge ∧
          cfg.keyless.cacheLimits.ttlMs f.maxAge ≤ cfg.keyless.jwksCacheTtlSeconds * 1000 ∧
          now < f.fetchedAtMs + cfg.keyless.cacheLimits.ttlMs f.maxAge +
            cfg.keyless.jwksMaxStaleSeconds * 1000 ∧
          (f.fetchedAtMs + cfg.keyless.cacheLimits.ttlMs f.maxAge ≤ now →
            ∃ a, (attempts source (before ++ [o])).getLast? = some a ∧ a.outcome = none)) ∧
    (∀ source target call now, .started source target call now ∈ (cacheRun cfg.keyless events).2 →
      cfg.keyless.targetOf source = some target) := by
  refine ⟨fun before o after source now k hlog ho => ?_, fun source target call now hmem => ?_⟩
  · obtain ⟨first, e, later, -, rfl, rfl, -⟩ := History.log_split hlog
    have hrecorded := recorded_cacheRun cfg.keyless first
    have hstepped := Slots.stepped cfg.keyless.cacheLimits (cacheRun cfg.keyless first).1 e
    obtain ⟨slot, slot', hslot, hslot', hcall⟩ := hstepped.returned ho
    have hon : cfg.keyless.enabled = true :=
      KeylessConfig.enabled_of_targetOf ((hrecorded source).1.trans (congrArg _ hslot))
    have hlimits := (validateKeylessAt_on hvalid hon).1
    have httl := KeylessConfig.ttlMs_bounds hlimits
    have hserves : Serves cfg.keyless.cacheLimits now slot'.state k := by
      rcases hcall with ⟨rfl, call, hlookup⟩ | ⟨call, outcome, hstate, hanswer⟩
      · exact lookup_serves (secsToMs_nonneg _) hlookup
      · rw [hstate]
        exact afterFetch_serves (secsToMs_nonneg _)
          (fun maxAge => lt_of_lt_of_le (by decide) (httl maxAge).1)
          hanswer
    obtain ⟨htarget, hslots⟩ := hrecorded.step hstepped source
    obtain ⟨f, hf, hk, hsame, hlt, hpast⟩ := (hslots slot' hslot').serves hserves
    refine ⟨f, hf, hk, ?_, (httl f.maxAge).1, (httl f.maxAge).2, ?_, hpast⟩
    · rw [htarget, hslot', Option.map_some, hsame]
    · rw [← secsToMs_eq (KeylessConfig.validate_lifetimes hlimits).2.2]
      exact hlt
  · obtain ⟨before, after, hlog⟩ := List.append_of_mem hmem
    obtain ⟨first, e, later, -, -, hstep, -⟩ := History.log_split hlog
    have hstepped := Slots.stepped cfg.keyless.cacheLimits (cacheRun cfg.keyless first).1 e
    obtain ⟨-, slot, hslot, rfl, -⟩ := hstepped.inv_started hstep
    exact (recorded_cacheRun cfg.keyless first source).1.trans (congrArg _ hslot)

def Sample.issuerConfig : RegistryConfig where
  authority := "registry.example.com"
  lifecycleEnabled := true
  logEnabled := true
  receipt := { signingKeySeedB64 := "BwcHBwcHBwcHBwcHBwcHBwcHBwcHBwcHBwcHBwcHBwc=" }
  keyless := { enabled := true, oidcIssuers := [⟨"https://issuer.example", some "https://issuer.example/jwks"⟩] }

theorem Sample.issuerConfig_valid :
    validateKeylessAt (fun _ => true) Sample.issuerConfig "0.5.0" = .ok () := by
  decide

/-- Two minutes after a fetch with `max-age=120` the issuer is down, and the old key set is served. -/
theorem issuer_keys_within_stale_limit_sample :
    let source : KeySource := .oidc "https://issuer.example"
    let target : FetchTarget := .jwks "https://issuer.example/jwks"
    let before : List (CacheOutcome ℕ) := [.started source target .keys 0,
      .ended source target .keys 0 (some (7, some 120)) (.keys 7), .started source target .keys 130000]
    let failed : CacheOutcome ℕ := .ended source target .keys 130000 none (.keys 7)
    validateKeylessAt (fun _ => true) Sample.issuerConfig "0.5.0" = .ok () ∧
      (cacheRun Sample.issuerConfig.keyless [.lock source .keys 0, .fetched source (some (7, some 120)),
        .lock source .keys 130000, .fetched source none]).2 = before ++ failed :: [] ∧
      ∃ f, lastFetch source (before ++ [failed]) = some f ∧ 7 = f.keys := by
  intro source target before failed
  have hlog : (cacheRun Sample.issuerConfig.keyless [.lock source .keys 0,
      .fetched source (some (7, some 120)), .lock source .keys 130000, .fetched source none]).2 =
      before ++ failed :: [] := by decide +kernel
  refine ⟨Sample.issuerConfig_valid, hlog, ?_⟩
  obtain ⟨f, hf, hk, -⟩ := (issuer_keys_within_stale_limit Sample.issuerConfig_valid _).1
    before failed [] source 130000 7 hlog rfl
  exact ⟨f, hf, hk⟩

end AcdpRegistry
